import Mathlib
import RestQuery.Proofs.Compile.ChangedRecord
import RestQuery.Proofs.Compile.ReadParts
import RestQuery.Proofs.Json.ArrayText
import RestQuery.Proofs.Query.ConditionTree
import RestQuery.Proofs.Query.ReadBack

/-!
# Integers pass unchanged

An integer of a signed or an unsigned word that stands in a text as its decimal literal has this
very literal in the request: as the value of a parameter, as an item of a list, as the last segment
of a path.  No digit of it goes through a double.

* `Tree.parse?_toString`, `Value.ofTree?_integer`   the literal of an integer, and its value;
* `Value.plainText_int`, `Value.compact_int`        the text of the value;
* `parameter_of_read`                               the parameter of a condition is at its place;
* `integers_unchanged`                              the literal of the text is in the request.
-/

namespace RestQuery

open Json

/-! ## the literal of an integer -/

namespace Json

/-- the literal of an integer -/
def Tree.integer (i : Int) : Tree := .num (.ofInt i)

theorem Tree.compact_integer (i : Int) : (Tree.integer i).compact = toString i := by
  rw [← Numeral.text_ofInt, compact, integer, print]
  rfl

theorem Tree.parse?_toString (i : Int) : Tree.parse? (toString i) = some (.integer i) := by
  rw [← compact_integer, parse?_compact]

variable {i : Int} (h : FitsWord i)

theorem Value.ofTree?_integer (room : Nat) :
    Value.ofTree? room (.integer i) = some (.int i h) := by
  rw [Tree.integer, ofTree?]
  exact congrArg (Option.map Value.num) (Number.ofNumeral?_numeral_int i h)

theorem Value.compact_int : (Value.int i h).compact = toString i := by
  rw [← Tree.compact_integer, compact, int, toTree, Number.numeral]
  rfl

theorem Value.plainText_int : (Value.int i h).plainText = toString i := Value.compact_int h

end Json

/-! ## the text of what was read -/

namespace Predicate.ReadFrom

variable {p : Predicate} {t : Tree} {i : Int} (h : p.ReadFrom t) (hi : FitsWord i)
include h hi

theorem valueText_eq (hp : p.HasValue) (ht : t.member? "value" = some (.integer i)) :
    p.valueText = toString i := by
  cases p with
  | compare c o v | entity c v =>
    obtain ⟨room, value, hvalue, hv⟩ := h
    obtain rfl := Option.some.inj (hvalue.symm.trans ht)
    rw [Value.ofTree?_integer hi] at hv
    obtain rfl := Option.some.inj hv
    exact Value.plainText_int hi
  | among | notAmong | null | notNull => cases hp

theorem valueText_item (hp : p.HasList) {place : Nat}
    (ht : (t.member? "values").bind (Tree.item? place) = some (.integer i)) :
    ∃ items, IsArrayText p.valueText items ∧ items[place]? = some (toString i) := by
  cases p with
  | among c vs | notAmong c vs =>
    obtain ⟨s, values, hvalues, hvs⟩ := h
    obtain ⟨inner, hitems⟩ := Decoder.list_getElem? hvs
    rw [hvalues, Option.bind_some] at ht
    have hv : vs[place]? = some (.int i hi) := by
      rw [hitems place, ht, Option.bind_some]
      exact Value.ofTree?_integer hi inner.room
    refine ⟨_, Value.isArrayText_arrayText vs, ?_⟩
    rw [List.getElem?_map, hv, Option.map_some, Value.compact_int]
  | compare | entity | null | notNull => cases hp

end Predicate.ReadFrom

/-! ## requests -/

section
variable {p : Provider} {q : Query} {r : Request} (h : compile p q = .ok r)
  {place : Nat} {c : Condition} (hc : q.conditions[place]? = some c)
include h hc

/-- the parameters of a read that is no count begin with those of its conditions -/
theorem parameter_of_read (hm : q.mutation = .read) (hcount : q.countOnly = false) :
    r.parameters[place]? = some (c.key, c.predicate.valueText) := by
  obtain ⟨x, hx, hplace⟩ := parameter_at_of_read hm hcount h hc
  rw [hplace, ((c.parameter_eq_ok_iff x).mp hx).2]

/-- the path of a change ends in the value of its one condition -/
theorem segment_of_change (hm : q.IsChange) :
    c.predicate.HasValue ∧ cutAtLast? '/' r.path = some (q.resource, c.predicate.valueText) := by
  obtain ⟨id, ha⟩ := addresses_of_change h Addressing.keepsRecords_usual hm
  obtain ⟨value, hconditions, rfl⟩ := ha.condition
  rw [hconditions, List.getElem?_singleton] at hc
  obtain ⟨-, hc⟩ := Option.ite_none_right_eq_some.mp hc
  cases hc
  exact ⟨trivial, ha.cut⟩

end

/--
**Integers pass unchanged.**  Where an accepted text gives an integer as its decimal literal, the
request has this literal: as the value of the parameter when a read compares a column with it, at
the same place of a list when it is given in a list, and behind the last slash of the path when it
is the id of a change.
-/
theorem integers_unchanged {p : Provider} {text : String} {t : Tree} {q : Query} {r : Request}
    (ht : Tree.parse? text = some t) (hq : Query.parse? text = some q)
    (h : compileText p text = .ok r) {place : Nat} {c : Condition}
    (hc : q.conditions[place]? = some c) :
    ∃ tc, t.conditionAt? place = some tc ∧ ∀ i : Int, FitsWord i →
      (q.mutation = .read → q.countOnly = false → c.predicate.HasValue →
        tc.member? "value" = Tree.parse? (toString i) →
        r.parameters[place]? = some (c.key, toString i)) ∧
      (q.mutation = .read → q.countOnly = false → c.predicate.HasList → ∀ item : Nat,
        (tc.member? "values").bind (Tree.item? item) = Tree.parse? (toString i) →
        ∃ list items, r.parameters[place]? = some (c.key, list) ∧ IsArrayText list items ∧
          items[item]? = some (toString i)) ∧
      (q.IsChange → tc.member? "value" = Tree.parse? (toString i) →
        cutAtLast? '/' r.path = some (q.resource, toString i)) := by
  have hcompile : compile p q = .ok r := by
    rw [← h, compileText, hq]
  rw [Query.parse?, Decoder.run, ht, Option.bind_some] at hq
  obtain ⟨inner, tc, htc, hdecode⟩ := Query.condition_of_decode hq hc
  have hread := Condition.readFrom_of_decode hdecode
  refine ⟨tc, htc, fun i hi => ?_⟩
  rw [Tree.parse?_toString]
  refine ⟨?_, ?_, ?_⟩
  · intro hm hcount hp hvalue
    rw [parameter_of_read hcompile hc hm hcount, hread.valueText_eq hi hp hvalue]
  · intro hm hcount hp item hitem
    obtain ⟨items, hlist, hliteral⟩ := hread.valueText_item hi hp hitem
    exact ⟨_, items, parameter_of_read hcompile hc hm hcount, hlist, hliteral⟩
  · intro hm hvalue
    obtain ⟨hp, hcut⟩ := segment_of_change hcompile hc hm
    rw [hcut, hread.valueText_eq hi hp hvalue]

theorem fits_greatest : FitsWord 18446744073709551615 := by decide

theorem fits_least : FitsWord (-9223372036854775808) := by decide

/-- the first integer that no double is -/
theorem fits_noDouble : FitsWord 9007199254740993 := by decide

def ofOwner : Condition := .entity "entityId" (.int 18446744073709551615 fits_greatest)

def amongIds : Condition := .among "id" [.str "a", .int (-9223372036854775808) fits_least]

def ofId : Condition := .compare "id" .eq (.int 9007199254740993 fits_noDouble)

def readLines : Query where
  resource := "line"
  conditions := [ofOwner, amongIds]
  mutation := .read

def dropLine : Query where
  resource := "line"
  conditions := [ofId]
  mutation := .delete

theorem integers_unchanged_line :
    ∃ r r', compileText {} readLines.text = .ok r ∧ compileText {} dropLine.text = .ok r' ∧
      r.parameters[0]? = some ("entityId", "18446744073709551615") ∧
      (∃ list items, r.parameters[1]? = some ("id-in", list) ∧ IsArrayText list items ∧
        items[1]? = some "-9223372036854775808") ∧
      cutAtLast? '/' r'.path = some ("line", "9007199254740993") := by
  have hreads (i : Int) (hi : FitsWord i) : (Value.int i hi).ReadsBack :=
    Value.readsBack (.int i hi) (.num _)
  have hlines : Query.parse? readLines.text = some readLines := by
    refine Query.parse?_text ?_ (by decide)
    have hcontents : readLines.contents =
        [.int 18446744073709551615 fits_greatest, .str "a",
         .int (-9223372036854775808) fits_least] := rfl
    rw [hcontents]
    simp [hreads, Value.readsBack]
  have hdrop : Query.parse? dropLine.text = some dropLine := by
    refine Query.parse?_text ?_ (by decide)
    have hcontents : dropLine.contents = [.int 9007199254740993 fits_noDouble] := rfl
    rw [hcontents]
    simp [hreads]
  obtain ⟨r, h⟩ : ∃ r, compile {} readLines = .ok r := ⟨_, rfl⟩
  obtain ⟨r', h'⟩ : ∃ r', compile {} dropLine = .ok r' := ⟨_, rfl⟩
  have htext : compileText {} readLines.text = .ok r := by
    rw [compileText, hlines]
    exact h
  have htext' : compileText {} dropLine.text = .ok r' := by
    rw [compileText, hdrop]
    exact h'
  -- where the three conditions stand in the texts
  have hownerTree : readLines.toTree.conditionAt? 0 = some ofOwner.toTree := by cbv
  have hidsTree : readLines.toTree.conditionAt? 1 = some amongIds.toTree := by cbv
  have hidTree : dropLine.toTree.conditionAt? 0 = some ofId.toTree := by cbv
  have hparse := Tree.parse?_compact readLines.toTree
  have hparse' := Tree.parse?_compact dropLine.toTree
  have hat₀ : readLines.conditions[0]? = some ofOwner := rfl
  have hat₁ : readLines.conditions[1]? = some amongIds := rfl
  have hat₂ : dropLine.conditions[0]? = some ofId := rfl
  obtain ⟨tc₀, htc₀, howner⟩ := integers_unchanged hparse hlines htext hat₀
  obtain ⟨tc₁, htc₁, hids⟩ := integers_unchanged hparse hlines htext hat₁
  obtain ⟨tc₂, htc₂, hid⟩ := integers_unchanged hparse' hdrop htext' hat₂
  obtain rfl := Option.some.inj (hownerTree.symm.trans htc₀)
  obtain rfl := Option.some.inj (hidsTree.symm.trans htc₁)
  obtain rfl := Option.some.inj (hidTree.symm.trans htc₂)
  simp only [Tree.parse?_toString] at howner hids hid
  exact ⟨r, r', htext, htext', (howner 18446744073709551615 fits_greatest).1 rfl rfl trivial rfl,
    (hids (-9223372036854775808) fits_least).2.1 rfl rfl trivial 1 rfl,
    (hid 9007199254740993 fits_noDouble).2.2 (.inr rfl) rfl⟩

end RestQuery

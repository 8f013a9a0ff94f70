import Mathlib
import RestQuery.Proofs.Compile.IntegerLiterals
import RestQuery.Proofs.Compile.ReadParts
import RestQuery.Proofs.Compile.Unambiguous
import RestQuery.Proofs.Request.QueryString

/-!
# Lists in conditions

A condition on a list carries its values as a JSON array.  Strings, booleans and integers are read
back from this text, and still after the text went through a query string; the quotes, commas and
separators of a string have no part in this.

* `Predicate.list?`             the values that a column is looked for in;
* `Value.run_arrayText`         reading the text of a list;
* `Request.valueAt?`            the value at a place of a query string;
* `Condition.list_of_parameter`   what a list condition with a parameter has as its value;
* `list_values_read_back`       the values of a list condition, from its parameter and from the
                                query string of its request.
-/

namespace RestQuery

open Json

/-! ## texts of lists -/

namespace Json.Value

/-- a value without doubles is read back from its text, when its containers have room -/
theorem run_compact {v : Value} (hf : v.FloatFree) (hs : v.Sorted)
    (hd : v.toTree.depth ≤ Scope.outermost.room) : Decoder.value.run v.compact = some v := by
  rw [Decoder.run, compact, Tree.parse?_compact, Option.bind_some]
  exact ofTree?_toTree hf hs hd

theorem depth_of_atomic {v : Value} (h : v.kindWord ∈ listKinds) : v.toTree.depth = 0 := by
  cases v with
  | bool _ | num _ | str _ => rfl
  | null | arr _ | obj _ => simp [kindWord, listKinds] at h

/-- a list of atomic values takes one level of the room -/
theorem run_arrayText {vs : List Value} (hkinds : ∀ v ∈ vs, v.kindWord ∈ listKinds)
    (hf : ∀ v ∈ vs, v.FloatFree) : Decoder.value.run (arrayText vs) = some (.arr vs) := by
  have hsorted : (Value.arr vs).Sorted := .arr fun v hv => sorted_of_atomic (hkinds v hv)
  have hdepth : (Value.arr vs).toTree.depth ≤ Scope.outermost.room := by
    rw [toTree, toTrees_eq_map, Tree.depth_arr_le_iff]
    refine ⟨126, rfl, List.forall_mem_map.mpr fun v hv => ?_⟩
    rw [depth_of_atomic (hkinds v hv)]
    exact Nat.zero_le _
  exact run_compact (.arr hf) hsorted hdepth

end Json.Value

/-! ## conditions -/

/-- the values that the column is looked for in -/
def Predicate.list? : Predicate → Option (List Value)
  | among _ vs | notAmong _ vs => some vs
  | compare _ _ _ | null _ | notNull _ | entity _ _ => none

namespace Condition

variable {c : Condition} {a : Addressing} {vs : List Value}

/-- both predicates on lists check their values, each under its own word -/
theorem parameter_of_list (hlist : c.predicate.list? = some vs) :
    ∃ column code key, c.parameter a =
      (checkOperands column code vs).map fun _ => (key, a.listText vs) := by
  obtain ⟨j, predicate⟩ := c
  cases predicate with
  | among column values =>
    cases hlist
    refine ⟨column, amongCode, a.conditionKey column amongCode (j == .or), ?_⟩
    simp only [parameter]
    cases checkOperands column amongCode vs <;> rfl
  | notAmong column values =>
    cases hlist
    refine ⟨column, notAmongCode, a.conditionKey column notAmongCode (j == .or), ?_⟩
    simp only [parameter]
    cases checkOperands column notAmongCode vs <;> rfl
  | compare _ _ _ | null _ | notNull _ | entity _ _ => cases hlist

/-- only lists of atomic values have a parameter, and its value is the text of the list -/
theorem list_of_parameter {x : Parameter} (hlist : c.predicate.list? = some vs)
    (h : c.parameter a = .ok x) : (∀ v ∈ vs, v.kindWord ∈ listKinds) ∧ x.2 = a.listText vs := by
  obtain ⟨column, code, key, hparameter⟩ := parameter_of_list (a := a) hlist
  rw [hparameter] at h
  cases hcheck : checkOperands column code vs with
  | error e =>
    rw [hcheck] at h
    cases h
  | ok u =>
    rw [hcheck] at h
    cases h
    exact ⟨((checkOperands_eq_ok_iff column code vs).mp hcheck).2, rfl⟩

end Condition

/-! ## query strings -/

namespace Request

/-- the value at a place of a query string, cut at the separators and decoded -/
def valueAt? (s : String) (place : Nat) : Option String :=
  ((splitText '&' s)[place]?.bind readParameter?).map Prod.snd

theorem valueAt?_queryString {r : Request} {place : Nat} {x : Parameter}
    (h : r.parameters[place]? = some x) : valueAt? r.queryString place = some x.2 := by
  have hne : r.parameters ≠ [] := by
    intro hnil
    rw [hnil] at h
    cases h
  unfold valueAt?
  rw [splitText_queryString r hne, List.getElem?_map, h, Option.map_some, Option.bind_some,
    readParameter?_encodeParameter, Option.map_some]

end Request

/--
**A list in a condition can be read back.**  Where lists are written in the usual way, the value of
the parameter of a condition on a list without doubles is the text of a JSON array that is read as
these values, in their order.  The value is found at its place in the query string of any request
that holds the parameter, and is read as the same array after decoding; an accepted read holds it at
the place of the condition.
-/
theorem list_values_read_back {c : Condition} {a : Addressing} {vs : List Value} {x : Parameter}
    (ha : a.listText = Value.arrayText) (hlist : c.predicate.list? = some vs)
    (hfloat : ∀ v ∈ vs, v.FloatFree) (h : c.parameter a = .ok x) :
    Decoder.value.run x.2 = some (.arr vs) ∧
      (∀ (r : Request) (place : Nat), r.parameters[place]? = some x →
        (Request.valueAt? r.queryString place).bind Decoder.value.run = some (.arr vs)) ∧
      ∀ (p : Provider) (q : Query) (r : Request) (place : Nat), compile p q a = .ok r →
        q.mutation = .read → q.countOnly = false → q.conditions[place]? = some c →
        r.parameters[place]? = some x := by
  obtain ⟨hkinds, hx⟩ := Condition.list_of_parameter hlist h
  have hread : Decoder.value.run x.2 = some (.arr vs) := by
    rw [hx, ha]
    exact Value.run_arrayText hkinds hfloat
  refine ⟨hread, fun r place hplace => ?_, fun p q r place hr hm hcount hc => ?_⟩
  · rw [Request.valueAt?_queryString hplace, Option.bind_some, hread]
  · obtain ⟨y, hy, hplace⟩ := parameter_at_of_read hm hcount hr hc
    rw [h] at hy
    cases hy
    exact hplace

/-- values that would end their list, their string or their parameter, and the outermost integers -/
def trickyValues : List Value :=
  [.str "\"],[\"", .str "\\", .str "a&b=c,%20\n", .str "größe 𝔸", .bool true,
    .int 18446744073709551615 fits_greatest, .int (-9223372036854775808) fits_least]

/-- a condition on these values, behind another one -/
def readOfTricky : Query where
  resource := "invoice"
  conditions := [.null "paidAt", (Condition.notAmong "status" trickyValues).joinedByOr]
  mutation := .read

theorem list_values_read_back_tricky :
    ∃ r, compile {} readOfTricky = .ok r ∧
      Decoder.value.run
        ("[\"\\\"],[\\\"\",\"\\\\\",\"a&b=c,%20\\n\",\"größe 𝔸\",true," ++
          "18446744073709551615,-9223372036854775808]") = some (.arr trickyValues) ∧
      (Request.valueAt? r.queryString 1).bind Decoder.value.run = some (.arr trickyValues) := by
  have hfloat : ∀ v ∈ trickyValues, v.FloatFree := by simp [trickyValues, Value.int]
  have hparameter : ((Condition.notAmong "status" trickyValues).joinedByOr).parameter =
      .ok ("or-status-notin",
        "[\"\\\"],[\\\"\",\"\\\\\",\"a&b=c,%20\\n\",\"größe 𝔸\",true," ++
          "18446744073709551615,-9223372036854775808]") := by cbv
  obtain ⟨hread, hquery, hplace⟩ := list_values_read_back rfl rfl hfloat hparameter
  obtain ⟨r, hr⟩ : ∃ r, compile {} readOfTricky = .ok r := ⟨_, rfl⟩
  exact ⟨r, hr, hread, hquery r 1 (hplace {} readOfTricky r 1 hr rfl rfl rfl)⟩

end RestQuery

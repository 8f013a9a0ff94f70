import Mathlib
import RestQuery.Query.Reader
import RestQuery.Proofs.Json.Place

/-!
# Conditions in the tree of a query

Where a query takes a condition from, and a condition the values that its column is compared with:
neither the conjunction nor the type, which are taken out of the members first, stands in the way.

* `Tree.conditionAt?`                       a condition by its place;
* `Predicate.HasValue`, `Predicate.HasList`   the kinds of predicates that compare with something;
* `Predicate.ReadFrom`                      the literals that the values were read from;
* `Condition.readFrom_of_decode`            a condition was read from its own members;
* `Query.condition_of_decode`               a query has its conditions where their trees stand.
-/

namespace RestQuery

open Json

/-- the tree of the condition at a place -/
def Json.Tree.conditionAt? (t : Tree) (place : Nat) : Option Tree :=
  (t.part? 1 "conditions").bind (Tree.item? place)

/-! ## the values of a predicate -/

namespace Predicate

/-- compares its column with one value -/
def HasValue : Predicate → Prop
  | compare _ _ _ | entity _ _ => True
  | among _ _ | notAmong _ _ | null _ | notNull _ => False

/-- compares its column with a list of values -/
def HasList : Predicate → Prop
  | among _ _ | notAmong _ _ => True
  | compare _ _ _ | entity _ _ | null _ | notNull _ => False

/-- the values are those that stand in the members of the tree -/
def ReadFrom (t : Tree) : Predicate → Prop
  | compare _ _ v | entity _ v =>
    ∃ room value, t.member? "value" = some value ∧ Value.ofTree? room value = some v
  | among _ vs | notAmong _ vs =>
    ∃ s values, t.member? "values" = some values ∧ Decoder.list Decoder.value s values = some vs
  | null _ | notNull _ => True

theorem ReadFrom.congr {t t' : Tree} (hvalue : t.member? "value" = t'.member? "value")
    (hvalues : t.member? "values" = t'.member? "values") {p : Predicate} (h : p.ReadFrom t) :
    p.ReadFrom t' := by
  cases p with
  | compare c o v | entity c v =>
    rw [ReadFrom, ← hvalue]
    exact h
  | among c vs | notAmong c vs =>
    rw [ReadFrom, ← hvalues]
    exact h
  | null c | notNull c => trivial

variable {s : Scope} {ms : List (List CodePoint × Tree)} {p : Predicate}

theorem readFrom_of_decodeList {make : String → List Value → Predicate}
    (hmake : make = among ∨ make = notAmong) (h : decodeList make s (.obj ms) = some p) :
    p.ReadFrom (.obj ms) := by
  simp only [decodeList, Option.bind_eq_bind, Option.bind_eq_some_iff] at h
  obtain ⟨f, hf, column, -, vs, hvs, h⟩ := h
  cases h
  have hread := Fields.part_of_required hf (by decide) hvs
  rcases hmake with rfl | rfl
  · exact ⟨f.scope, hread⟩
  · exact ⟨f.scope, hread⟩

theorem readFrom_of_decodeColumn {make : String → Predicate}
    (hmake : make = null ∨ make = notNull) (h : decodeColumn make s (.obj ms) = some p) :
    p.ReadFrom (.obj ms) := by
  simp only [decodeColumn, Option.bind_eq_bind, Option.bind_eq_some_iff] at h
  obtain ⟨f, -, column, -, h⟩ := h
  cases h
  rcases hmake with rfl | rfl
  · trivial
  · trivial

theorem readFrom_of_decodeParts {tag : PredicateTag}
    (h : decodeParts tag s (.obj ms) = some p) : p.ReadFrom (.obj ms) := by
  cases tag with
  | compare =>
    simp only [decodeParts, Option.bind_eq_bind, Option.bind_eq_some_iff] at h
    obtain ⟨f, hf, column, -, operator, -, v, hv, h⟩ := h
    cases h
    exact ⟨f.scope.room, Fields.part_of_required hf (by decide) hv⟩
  | among => exact readFrom_of_decodeList (.inl rfl) h
  | notAmong => exact readFrom_of_decodeList (.inr rfl) h
  | null => exact readFrom_of_decodeColumn (.inl rfl) h
  | notNull => exact readFrom_of_decodeColumn (.inr rfl) h
  | entity =>
    simp only [decodeParts, Option.bind_eq_bind, Option.bind_eq_some_iff] at h
    obtain ⟨f, hf, column, -, v, hv, h⟩ := h
    cases h
    exact ⟨f.scope.room, Fields.part_of_required hf (by decide) hv⟩

theorem readFrom_of_decode (h : Predicate.decode s (.obj ms) = some p) : p.ReadFrom (.obj ms) := by
  simp only [decode, Option.bind_eq_bind, Option.bind_eq_some_iff] at h
  obtain ⟨⟨tag, rest⟩, htagged, tag', -, h⟩ := h
  obtain ⟨ms', rfl, hothers⟩ := tagged?_obj htagged
  exact (readFrom_of_decodeParts h).congr (hothers "value" (by decide))
    (hothers "values" (by decide))

end Predicate

/-! ## conditions -/

theorem Condition.readFrom_of_decode {s : Scope} {t : Tree} {c : Condition}
    (h : Condition.decode s t = some c) : c.predicate.ReadFrom t := by
  cases t with
  | obj ms =>
    simp only [decode, Option.bind_eq_bind, Option.bind_eq_some_iff] at h
    obtain ⟨inner, -, ⟨joined, rest⟩, hsplit, h⟩ := h
    have hothers : ∀ other ≠ "conjunction",
        (Tree.obj rest).member? other = (Tree.obj ms).member? other :=
      fun other hne => memberOf?_splitMember? hsplit hne
    have hrest : c.predicate.ReadFrom (.obj rest) := by
      cases joined with
      | none | some =>
        obtain ⟨conjunction, -, h⟩ := Option.bind_eq_some_iff.mp h
        obtain ⟨predicate, hpredicate, h⟩ := Option.bind_eq_some_iff.mp h
        cases h
        exact Predicate.readFrom_of_decode hpredicate
    exact hrest.congr (hothers "value" (by decide)) (hothers "values" (by decide))
  | null | bool | num | str | arr => cases h

/-! ## queries -/

/-- every query was read over some decoder of the queries nested in it -/
theorem Query.exists_decodeWith {s : Scope} {t : Tree} {q : Query}
    (h : Query.decode s t = some q) : ∃ nested, Query.decodeWith nested s t = some q := by
  unfold decode at h
  cases hroom : s.room with
  | zero =>
    rw [hroom] at h
    cases h
  | succ room =>
    rw [hroom] at h
    exact ⟨_, h⟩

theorem Query.condition_of_decode {s : Scope} {t : Tree} {q : Query}
    (h : Query.decode s t = some q) {place : Nat} {c : Condition}
    (hc : q.conditions[place]? = some c) :
    ∃ inner t', t.conditionAt? place = some t' ∧ Condition.decode inner t' = some c := by
  obtain ⟨nested, h⟩ := Query.exists_decodeWith h
  obtain ⟨f, hf, h⟩ := Option.bind_eq_some_iff.mp h
  obtain ⟨resource, -, h⟩ := Option.bind_eq_some_iff.mp h
  obtain ⟨conditions, hconditions, h⟩ := Option.bind_eq_some_iff.mp h
  -- ten parts stand behind the conditions
  iterate 10 obtain ⟨_, -, h⟩ := Option.bind_eq_some_iff.mp h
  cases h
  rcases Fields.part_of_optional hf (by decide) hconditions with rfl | ⟨list, hlist, hdecode⟩
  · cases hc
  · obtain ⟨inner, hitems⟩ := Decoder.list_getElem? hdecode
    rw [hitems place] at hc
    obtain ⟨t', ht', hc⟩ := Option.bind_eq_some_iff.mp hc
    exact ⟨inner, t', Option.bind_eq_some_iff.mpr ⟨list, hlist, ht'⟩, hc⟩

end RestQuery

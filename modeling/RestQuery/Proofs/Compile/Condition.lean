import Mathlib
import RestQuery.Compile.Parameter

/-!
# What conditions become

Which conditions have a parameter, and which key it has.

* `Operator.operandKinds`            the kinds of values that an operator is defined for;
* `Condition.Compatible`             the table of all predicates;
* `Condition.key`, `Predicate.valueText`   key and value of the parameter;
* `Condition.parameter_eq_ok_iff`    a condition has a parameter exactly when it is in the table.
-/

namespace RestQuery

open Json

/-! ## the table -/

/-- the kinds of values that an operator is defined for -/
def Operator.operandKinds : Operator → List String
  | eq | ne => ["string", "number", "boolean"]
  | gt | ge | lt | le => ["string", "number"]
  | like | notLike | iLike | notILike => ["string"]

/-- the kinds of values that a list may hold -/
def listKinds : List String := ["string", "number", "boolean"]

/-- the kinds of values that address an owner -/
def entityKinds : List String := ["string", "number"]

/-- the conditions that are defined -/
def Condition.Compatible (c : Condition) : Prop :=
  match c.predicate with
  | .compare _ operator value => value.kindWord ∈ operator.operandKinds
  | .among _ values | .notAmong _ values => values ≠ [] ∧ ∀ v ∈ values, v.kindWord ∈ listKinds
  | .null _ | .notNull _ => True
  | .entity column value =>
    (column = entityNameColumn ∨ column = entityIdColumn) ∧ c.conjunction = .and ∧
      value.kindWord ∈ entityKinds

theorem Operator.accepts_iff (o : Operator) (v : Value) :
    o.accepts v = true ↔ v.kindWord ∈ o.operandKinds := by
  cases o <;> cases v <;>
    simp [accepts, matchesPattern, comparesOrder, operandKinds, Value.kindWord]

theorem Json.Value.isAtomic_iff (v : Value) : v.isAtomic = true ↔ v.kindWord ∈ listKinds := by
  cases v <;> simp [isAtomic, listKinds, kindWord]

theorem Json.Value.namesEntity_iff (v : Value) :
    v.namesEntity = true ↔ v.kindWord ∈ entityKinds := by
  cases v <;> simp [namesEntity, entityKinds, kindWord]

theorem joinsByOr_eq_false_iff (c : Condition) : c.joinsByOr = false ↔ c.conjunction = .and := by
  unfold Condition.joinsByOr
  cases c.conjunction <;> decide

/-! ## checks of lists -/

theorem checkOperands_eq_ok_iff (column code : String) (vs : List Value) :
    checkOperands column code vs = .ok () ↔ vs ≠ [] ∧ ∀ v ∈ vs, v.kindWord ∈ listKinds := by
  unfold checkOperands
  cases vs with
  | nil => simp
  | cons v vs =>
    rw [if_neg (by simp)]
    simp only [← Value.isAtomic_iff]
    cases h : (v :: vs).find? fun v => !v.isAtomic with
    | none =>
      rw [List.find?_eq_none] at h
      simpa using h
    | some w =>
      have hw := List.find?_some h
      have hmem := List.mem_of_find?_eq_some h
      simp only [reduceCtorEq, false_iff, not_and, not_forall]
      exact fun _ => ⟨w, hmem, by simpa using hw⟩

theorem checkOperands_of_not (column code : String) (vs : List Value)
    (h : ¬ (vs ≠ [] ∧ ∀ v ∈ vs, v.kindWord ∈ listKinds)) :
    ∃ e, checkOperands column code vs = .error e ∧ e.kind = .malformedCondition := by
  rw [← checkOperands_eq_ok_iff column code] at h
  unfold checkOperands at h ⊢
  split
  · exact ⟨_, rfl, rfl⟩
  · next hempty =>
    split
    · exact ⟨_, rfl, rfl⟩
    · next hnone =>
      rw [if_neg hempty, hnone] at h
      exact absurd rfl h

/-! ## the parameter of a condition -/

/-- the word behind the column in a key, which predicates on an owner do not have -/
def Predicate.code? : Predicate → Option String
  | compare _ o _ => some o.code
  | among _ _ => some amongCode
  | notAmong _ _ => some notAmongCode
  | null _ => some nullCode
  | notNull _ => some notNullCode
  | entity _ _ => none

/-- the text of what a column is compared with -/
def Predicate.valueText : Predicate → String
  | compare _ _ v | entity _ v => v.plainText
  | among _ vs | notAmong _ vs => Value.arrayText vs
  | null _ | notNull _ => ""

namespace Condition

/-- the key of a condition, in which its values have no part -/
def key (c : Condition) : String :=
  match c.predicate.code? with
  | some code => parameterKey c.column code c.joinsByOr
  | none => c.column

theorem parameter_of_compatible (c : Condition) (h : c.Compatible) :
    c.parameter = .ok (c.key, c.predicate.valueText) := by
  obtain ⟨j, predicate⟩ := c
  cases predicate with
  | compare column o v =>
    simp only [parameter]
    rw [if_pos ((Operator.accepts_iff o v).mpr h)]
    rfl
  | among column vs =>
    simp only [parameter]
    rw [(checkOperands_eq_ok_iff column amongCode vs).mpr h]
    rfl
  | notAmong column vs =>
    simp only [parameter]
    rw [(checkOperands_eq_ok_iff column notAmongCode vs).mpr h]
    rfl
  | null column => rfl
  | notNull column => rfl
  | entity column v =>
    obtain ⟨hcolumn, hj, hv⟩ := h
    simp only [parameter]
    rw [if_neg (by rw [not_and_or, not_not, not_not]; exact hcolumn),
      if_neg (by rw [(joinsByOr_eq_false_iff _).mpr hj]; exact Bool.false_ne_true),
      if_pos ((Value.namesEntity_iff v).mpr hv)]
    rfl

/-- whatever is wrong with a condition, it is the condition that is malformed -/
theorem parameter_of_not_compatible (c : Condition) (h : ¬ c.Compatible) :
    ∃ e, c.parameter = .error e ∧ e.kind = .malformedCondition := by
  obtain ⟨j, predicate⟩ := c
  cases predicate with
  | compare column o v =>
    simp only [parameter]
    rw [if_neg (fun ha => h ((Operator.accepts_iff o v).mp ha))]
    exact ⟨_, rfl, rfl⟩
  | among column vs =>
    obtain ⟨e, he, hk⟩ := checkOperands_of_not column amongCode vs h
    simp only [parameter, he]
    exact ⟨e, rfl, hk⟩
  | notAmong column vs =>
    obtain ⟨e, he, hk⟩ := checkOperands_of_not column notAmongCode vs h
    simp only [parameter, he]
    exact ⟨e, rfl, hk⟩
  | null column => exact absurd trivial h
  | notNull column => exact absurd trivial h
  | entity column v =>
    simp only [parameter]
    split
    · exact ⟨_, rfl, rfl⟩
    · next hcolumn =>
      split
      · exact ⟨_, rfl, rfl⟩
      · next hj =>
        rw [if_neg]
        · exact ⟨_, rfl, rfl⟩
        · intro hv
          rw [not_and_or, not_not, not_not] at hcolumn
          exact h ⟨hcolumn, (joinsByOr_eq_false_iff _).mp (Bool.eq_false_iff.mpr hj),
            (Value.namesEntity_iff v).mp hv⟩

theorem parameter_eq_ok_iff (c : Condition) (p : Parameter) :
    c.parameter = .ok p ↔ c.Compatible ∧ p = (c.key, c.predicate.valueText) := by
  by_cases h : c.Compatible
  · rw [parameter_of_compatible c h, Except.ok.injEq, eq_comm]
    simp only [h, true_and]
  · obtain ⟨e, he, -⟩ := parameter_of_not_compatible c h
    rw [he]
    simp only [h, false_and, reduceCtorEq]

end Condition

end RestQuery

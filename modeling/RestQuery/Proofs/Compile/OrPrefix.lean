import Mathlib
import RestQuery.Proofs.Compile.Condition

/-!
# What the prefix of `or` tells

The key of a condition that is joined by `or` begins with `or-`, but so does the key of any other
condition whose column is called `or` or begins like that.  So the prefix tells how a condition is
joined for all columns but these, and a key with the prefix can always be read both ways.

* `parameterKey_startsWith_iff`   which keys begin with `or-`;
* `or_prefix_iff`                 the same of conditions;
* `or_prefix_ambiguous`           each key of a condition joined by `or` is that of another one.
-/

namespace RestQuery

open Json

/-! ## prefixes that end in a separator -/

/-- a word and a separator begin a text in parts in which the first part is the word or begins so -/
theorem word_prefix_iff {sep : Char} {word : List Char} (hword : sep ∉ word)
    (first rest : List Char) :
    word ++ [sep] <+: first ++ sep :: rest ↔ first = word ∨ word ++ [sep] <+: first := by
  have hfirst : first <+: first ++ sep :: rest := List.prefix_append first _
  constructor
  · intro h
    by_cases hlength : (word ++ [sep]).length ≤ first.length
    · exact .inr (List.prefix_of_prefix_length_le h hfirst hlength)
    · left
      rw [List.length_append, List.length_singleton] at hlength
      have hle : first.length ≤ (word ++ [sep]).length := by
        rw [List.length_append, List.length_singleton]
        omega
      rcases List.prefix_concat_iff.mp (List.prefix_of_prefix_length_le hfirst h hle) with
        heq | ⟨t, rfl⟩
      · rw [heq, List.length_append, List.length_singleton] at hlength
        omega
      · -- what the word has beyond the first part would begin with the separator
        rw [List.append_assoc, List.prefix_append_right_inj] at h
        cases t with
        | nil => exact (List.append_nil first).symm
        | cons c t =>
          obtain ⟨rfl, -⟩ := List.cons_prefix_cons.mp h
          exact absurd (List.mem_append_right _ List.mem_cons_self) hword
  · rintro (rfl | h)
    · exact (List.prefix_append_right_inj first).mpr ⟨rest, rfl⟩
    · exact h.trans hfirst

/-! ## keys -/

theorem parameterKey_startsWith_iff (column code : String) (byOr : Bool) :
    (parameterKey column code byOr).startsWith "or-" = true ↔
      byOr = true ∨ column = "or" ∨ column.startsWith "or-" = true := by
  simp only [String.startsWith_string_iff]
  cases byOr with
  | true =>
    refine iff_of_true ?_ (.inl rfl)
    show "or-".toList <+: ("or-" ++ (column ++ "-" ++ code)).toList
    rw [String.toList_append]
    exact List.prefix_append _ _
  | false =>
    have hkey : (parameterKey column code false).toList = column.toList ++ '-' :: code.toList := by
      show (column ++ "-" ++ code).toList = _
      rw [String.toList_append, String.toList_append, List.append_assoc]
      rfl
    have hor : column = "or" ↔ column.toList = "or".toList := String.toList_inj.symm
    have hword : '-' ∉ "or".toList := by decide
    rw [hkey, hor]
    simp only [Bool.false_eq_true, false_or]
    exact word_prefix_iff hword column.toList code.toList

/-- the key of an `or` is the key of an `and` on another column -/
theorem parameterKey_or (column code : String) :
    parameterKey ("or-" ++ column) code false = parameterKey column code true := by
  show "or-" ++ column ++ "-" ++ code = "or-" ++ (column ++ "-" ++ code)
  simp only [String.append_assoc]

/-! ## conditions -/

/-- the same predicate on another column -/
def Predicate.onColumn (column : String) : Predicate → Predicate
  | compare _ o v => compare column o v
  | among _ vs => among column vs
  | notAmong _ vs => notAmong column vs
  | null _ => null column
  | notNull _ => notNull column
  | entity _ v => entity column v

namespace Condition

theorem joinsByOr_iff (c : Condition) : c.joinsByOr = true ↔ c.conjunction = .or := beq_iff_eq

/--
**The prefix of `or`.**  The key of an accepted condition begins with `or-` exactly when it is
joined by `or`, or when its column is called `or` or begins with `or-`.
-/
theorem or_prefix_iff {c : Condition} {x : Parameter} (h : c.parameter = .ok x) :
    x.1.startsWith "or-" = true ↔
      c.conjunction = .or ∨ c.column = "or" ∨ c.column.startsWith "or-" = true := by
  obtain ⟨hc, rfl⟩ := (parameter_eq_ok_iff c x).mp h
  rw [← c.joinsByOr_iff]
  obtain ⟨j, predicate⟩ := c
  cases predicate with
  | entity column v =>
    -- the two columns of owners are no such column, and they are never joined by `or`
    obtain ⟨hcolumn, hj, -⟩ := hc
    rw [(joinsByOr_eq_false_iff _).mpr hj]
    show column.startsWith "or-" = true ↔
      false = true ∨ column = "or" ∨ column.startsWith "or-" = true
    simp only [String.startsWith_string_iff]
    rcases hcolumn with rfl | rfl <;> decide
  | compare | among | notAmong | null | notNull => exact parameterKey_startsWith_iff _ _ _

/-- no reader of a key can tell: what is joined by `or` has the parameter of another condition -/
theorem or_prefix_ambiguous {c : Condition} {x : Parameter} (h : c.parameter = .ok x)
    (hor : c.conjunction = .or) :
    ∃ c' : Condition, c'.parameter = .ok x ∧ c'.conjunction = .and ∧
      c'.column = "or-" ++ c.column := by
  obtain ⟨hc, rfl⟩ := (parameter_eq_ok_iff c x).mp h
  obtain ⟨j, predicate⟩ := c
  obtain rfl : j = .or := hor
  refine ⟨⟨.and, predicate.onColumn ("or-" ++ predicate.column)⟩, ?_, rfl, ?_⟩
  · rw [parameter_eq_ok_iff]
    cases predicate with
    | entity column v => exact absurd hc.2.1 nofun
    | compare | among | notAmong | null | notNull =>
      exact ⟨hc, Prod.ext (parameterKey_or _ _).symm rfl⟩
  · cases predicate <;> rfl

theorem or_prefix_iff_or :
    (Condition.compare "or" .eq (.str "a")).parameter = .ok ("or-eq", "a") ∧
      "or-eq".startsWith "or-" = true := by
  have h : (Condition.compare "or" .eq (.str "a")).parameter = .ok ("or-eq", "a") := rfl
  exact ⟨h, (or_prefix_iff h).mpr (.inr (.inl rfl))⟩

/-- the prefix does not tell that a condition is joined by `or` -/
theorem or_prefix_without_or :
    ¬ ∀ (c : Condition) (x : Parameter), c.parameter = .ok x →
      (x.1.startsWith "or-" = true ↔ c.conjunction = .or) := by
  intro htells
  have h : (Condition.compare "or-status" .eq (.str "a")).parameter = .ok ("or-status-eq", "a") :=
    rfl
  have hprefix : "or-status-eq".startsWith "or-" = true := by
    rw [String.startsWith_string_iff]
    decide
  cases (htells _ _ h).mp hprefix

end Condition

end RestQuery

import Mathlib
import RestQuery.Query.Step
import RestQuery.Text.Parts

/-!
# Names kept once

Adding names one after the other, each only when it is not there yet, keeps the first occurrence
of every name.  A list that loses a name this way also has a shorter text, since its separators
are part of it.

* `foldl_addOnce`                  adding names is `List.eraseDups`;
* `nodup_eraseDups`                what is left holds no name twice;
* `joinTexts_eraseDups_eq_iff`     the text is the same only when no name was lost.
-/

namespace RestQuery

/-! ## first occurrences -/

section
variable {α : Type} [BEq α]

theorem length_filter_lt (a : α) (l : List α) :
    (l.filter fun b => !b == a).length < (a :: l).length :=
  Nat.lt_succ_of_le (List.length_filter_le _ l)

theorem eraseDups_sublist : (l : List α) → List.Sublist l.eraseDups l
  | [] => List.Sublist.slnil
  | a :: l => by
    rw [List.eraseDups_cons]
    exact ((eraseDups_sublist _).trans List.filter_sublist).cons_cons a
termination_by l => l.length
decreasing_by exact length_filter_lt a l

variable [LawfulBEq α]

theorem nodup_eraseDups : (l : List α) → l.eraseDups.Nodup
  | [] => List.nodup_nil
  | a :: l => by
    rw [List.eraseDups_cons, List.nodup_cons, List.mem_eraseDups]
    exact ⟨by simp, nodup_eraseDups _⟩
termination_by l => l.length
decreasing_by exact length_filter_lt a l

theorem eraseDups_eq_self {l : List α} (h : l.Nodup) : l.eraseDups = l := by
  induction l with
  | nil => rfl
  | cons a l ih =>
    obtain ⟨ha, hl⟩ := List.nodup_cons.mp h
    have hfilter : l.filter (fun b => !b == a) = l := by
      refine List.filter_eq_self.mpr fun b hb => ?_
      have hne : b ≠ a := fun e => ha (e ▸ hb)
      simpa using hne
    rw [List.eraseDups_cons, hfilter, ih hl]

end

/-! ## adding names -/

theorem addOnce_eraseDups (names : List String) (name : String) :
    addOnce names.eraseDups name = (names ++ [name]).eraseDups := by
  rw [List.eraseDups_append]
  unfold addOnce
  by_cases h : name ∈ names
  · rw [if_pos (by simpa using h)]
    simp [List.removeAll, h]
  · rw [if_neg (by simpa using h)]
    simp [List.removeAll, h, List.eraseDups_cons]

/-- all names so far and all that follow, each at its first occurrence -/
theorem foldl_addOnce_eraseDups (names more : List String) :
    more.foldl addOnce names.eraseDups = (names ++ more).eraseDups := by
  induction more generalizing names with
  | nil => rw [List.foldl_nil, List.append_nil]
  | cons name more ih =>
    rw [List.foldl_cons, addOnce_eraseDups, ih, List.append_assoc, List.singleton_append]

theorem foldl_addOnce (names : List String) : names.foldl addOnce [] = names.eraseDups :=
  foldl_addOnce_eraseDups [] names

/-! ## texts of names -/

/-- every part counts one more than its length, for the separator before it -/
theorem length_joinChars (sep : Char) (ps : List (List Char)) (h : ps ≠ []) :
    (joinChars sep ps).length + 1 = (ps.map fun p => p.length + 1).sum := by
  induction ps with
  | nil => exact absurd rfl h
  | cons p ps ih =>
    by_cases hps : ps = []
    · subst hps
      simp [joinChars]
    · rw [joinChars_cons sep p ps hps, List.map_cons, List.sum_cons, ← ih hps, List.length_append,
        List.length_cons]
      omega

/-- parts that are left out are missed in the length -/
theorem eq_of_sublist_of_sum_le {ps qs : List (List Char)} (hs : List.Sublist ps qs)
    (h : (qs.map fun p => p.length + 1).sum ≤ (ps.map fun p => p.length + 1).sum) : ps = qs := by
  induction hs with
  | slnil => rfl
  | cons q hs _ =>
    have hle := (hs.map fun p : List Char => p.length + 1).sum_le_sum fun _ _ => Nat.zero_le _
    rw [List.map_cons, List.sum_cons] at h
    omega
  | cons_cons q _ ih =>
    rw [List.map_cons, List.map_cons, List.sum_cons, List.sum_cons] at h
    rw [ih (by omega)]

theorem eq_of_sublist_of_joinTexts {sep : Char} {names more : List String} (hne : names ≠ [])
    (hs : List.Sublist names more) (h : joinTexts sep names = joinTexts sep more) :
    names = more := by
  have hmore : more ≠ [] := fun e => hne (List.sublist_nil.mp (e ▸ hs))
  have hlength : (joinChars sep (names.map String.toList)).length =
      (joinChars sep (more.map String.toList)).length :=
    congrArg List.length (String.ofList_injective h)
  have hnames := length_joinChars sep (names.map String.toList) (by simpa using hne)
  have hmores := length_joinChars sep (more.map String.toList) (by simpa using hmore)
  have hmap := eq_of_sublist_of_sum_le (hs.map String.toList) (by omega)
  exact List.map_injective_iff.mpr (fun _ _ => String.toList_injective) hmap

theorem joinTexts_eraseDups_eq_iff (sep : Char) (names : List String) :
    joinTexts sep names.eraseDups = joinTexts sep names ↔ names.Nodup := by
  constructor
  · intro h
    cases names with
    | nil => exact List.nodup_nil
    | cons name names =>
      have hne : (name :: names).eraseDups ≠ [] := by
        rw [List.eraseDups_cons]
        exact List.cons_ne_nil _ _
      rw [← eq_of_sublist_of_joinTexts hne (eraseDups_sublist _) h]
      exact nodup_eraseDups _
  · intro h
    rw [eraseDups_eq_self h]

end RestQuery

/-!
# Texts in parts

Texts that are joined by a separator and cut at it.

* `splitChars`, `joinChars`   on lists of characters; they undo each other, cutting a joined list
                              of parts when no part holds the separator;
* `splitText`, `joinTexts`    the same on strings;
* `trimEndText`               a text without the separators at its end.
-/

namespace RestQuery

/-- the parts of a text between its separators, always at least one -/
def splitChars (sep : Char) : List Char → List (List Char)
  | [] => [[]]
  | c :: s =>
    if c = sep then [] :: splitChars sep s
    else
      match splitChars sep s with
      | [] => [[c]]
      | p :: ps => (c :: p) :: ps

/-- parts with a separator between each two -/
def joinChars (sep : Char) : List (List Char) → List Char
  | [] => []
  | [p] => p
  | p :: q :: ps => p ++ sep :: joinChars sep (q :: ps)

def splitText (sep : Char) (s : String) : List String :=
  (splitChars sep s.toList).map String.ofList

def joinTexts (sep : Char) (parts : List String) : String :=
  String.ofList (joinChars sep (parts.map String.toList))

/-- without the separators at the end -/
def trimEndText (sep : Char) (s : String) : String :=
  String.ofList (s.toList.reverse.dropWhile (· == sep)).reverse

theorem bne_of_not_mem {sep : Char} {s : List Char} (h : sep ∉ s) : ∀ c ∈ s, (c != sep) = true := by
  intro c hc
  rw [bne_iff_ne]
  rintro rfl
  exact h hc

/-! ## the two undo each other -/

theorem splitChars_ne_nil (sep : Char) (s : List Char) : splitChars sep s ≠ [] := by
  cases s with
  | nil => simp [splitChars]
  | cons c s =>
    simp only [splitChars]
    split
    · simp
    · split <;> simp

theorem splitChars_sep (sep : Char) (s : List Char) :
    splitChars sep (sep :: s) = [] :: splitChars sep s := by
  simp [splitChars]

theorem splitChars_append (sep : Char) (p s : List Char) (h : sep ∉ p) :
    splitChars sep (p ++ sep :: s) = p :: splitChars sep s := by
  induction p with
  | nil => exact splitChars_sep sep s
  | cons c p ih =>
    have hc : c ≠ sep := fun e => h (e ▸ List.mem_cons_self)
    have hp : sep ∉ p := fun e => h (List.mem_cons_of_mem _ e)
    rw [List.cons_append, splitChars, if_neg hc, ih hp]

theorem splitChars_of_not_mem (sep : Char) (p : List Char) (h : sep ∉ p) :
    splitChars sep p = [p] := by
  induction p with
  | nil => rfl
  | cons c p ih =>
    have hc : c ≠ sep := fun e => h (e ▸ List.mem_cons_self)
    have hp : sep ∉ p := fun e => h (List.mem_cons_of_mem _ e)
    rw [splitChars, if_neg hc, ih hp]

theorem splitChars_joinChars (sep : Char) (ps : List (List Char)) (hne : ps ≠ [])
    (h : ∀ p ∈ ps, sep ∉ p) : splitChars sep (joinChars sep ps) = ps := by
  induction ps with
  | nil => exact absurd rfl hne
  | cons p ps ih =>
    have hp := h p List.mem_cons_self
    cases ps with
    | nil => exact splitChars_of_not_mem sep p hp
    | cons q ps =>
      rw [joinChars, splitChars_append sep p _ hp,
        ih (by simp) (fun r hr => h r (List.mem_cons_of_mem _ hr))]

theorem not_mem_of_mem_splitChars {sep : Char} {s p : List Char} (h : p ∈ splitChars sep s) :
    sep ∉ p := by
  induction s generalizing p with
  | nil =>
    rw [splitChars, List.mem_singleton] at h
    subst h
    exact List.not_mem_nil
  | cons c s ih =>
    simp only [splitChars] at h
    split at h
    · rcases List.mem_cons.mp h with rfl | h
      · exact List.not_mem_nil
      · exact ih h
    · next hc =>
      cases hs : splitChars sep s with
      | nil => exact absurd hs (splitChars_ne_nil sep s)
      | cons q qs =>
        rw [hs] at h ih
        rcases List.mem_cons.mp h with rfl | h
        · exact List.not_mem_cons_of_ne_of_not_mem (Ne.symm hc) (ih List.mem_cons_self)
        · exact ih (List.mem_cons_of_mem q h)

theorem splitChars_append_sep (sep : Char) (s t : List Char) :
    splitChars sep (s ++ sep :: t) = splitChars sep s ++ splitChars sep t := by
  induction s with
  | nil => exact splitChars_sep sep t
  | cons c s ih =>
    rw [List.cons_append]
    simp only [splitChars]
    rw [ih]
    split
    · rfl
    · cases hs : splitChars sep s with
      | nil => exact absurd hs (splitChars_ne_nil sep s)
      | cons p ps => rfl

theorem joinChars_cons (sep : Char) (p : List Char) (ps : List (List Char)) (h : ps ≠ []) :
    joinChars sep (p :: ps) = p ++ sep :: joinChars sep ps := by
  cases ps with
  | nil => exact absurd rfl h
  | cons q ps => rfl

theorem joinChars_concat (sep : Char) (ps : List (List Char)) (p : List Char) (h : ps ≠ []) :
    joinChars sep (ps ++ [p]) = joinChars sep ps ++ sep :: p := by
  induction ps with
  | nil => exact absurd rfl h
  | cons q qs ih =>
    cases qs with
    | nil => rfl
    | cons r rs =>
      rw [List.cons_append, joinChars_cons sep q _ (by simp), ih (by simp),
        joinChars_cons sep q _ (by simp), List.append_assoc, List.cons_append]

theorem joinChars_splitChars (sep : Char) (s : List Char) :
    joinChars sep (splitChars sep s) = s := by
  induction s with
  | nil => rfl
  | cons c s ih =>
    simp only [splitChars]
    split
    · next h =>
      rw [joinChars_cons sep [] _ (splitChars_ne_nil sep s), ih, h]
      rfl
    · cases hs : splitChars sep s with
      | nil => exact absurd hs (splitChars_ne_nil sep s)
      | cons p ps =>
        rw [hs] at ih
        cases ps with
        | nil => exact congrArg (c :: ·) ih
        | cons q ps => exact congrArg (c :: ·) ih

theorem splitText_ne_nil (sep : Char) (s : String) : splitText sep s ≠ [] := by
  unfold splitText
  rw [ne_eq, List.map_eq_nil_iff]
  exact splitChars_ne_nil sep s.toList

theorem not_mem_of_mem_splitText {sep : Char} {s p : String} (h : p ∈ splitText sep s) :
    sep ∉ p.toList := by
  obtain ⟨cs, hcs, rfl⟩ := List.mem_map.mp h
  rw [String.toList_ofList]
  exact not_mem_of_mem_splitChars hcs

theorem splitText_joinTexts (sep : Char) (ps : List String) (hne : ps ≠ [])
    (h : ∀ p ∈ ps, sep ∉ p.toList) : splitText sep (joinTexts sep ps) = ps := by
  unfold splitText joinTexts
  rw [String.toList_ofList, splitChars_joinChars sep _ (by simpa using hne) (by simpa using h),
    List.map_map]
  simp

theorem joinTexts_splitText (sep : Char) (s : String) : joinTexts sep (splitText sep s) = s := by
  unfold splitText joinTexts
  rw [List.map_map]
  simp [Function.comp_def, joinChars_splitChars]

theorem joinTexts_concat (sep : Char) (ps : List String) (p : String) (h : ps ≠ []) :
    joinTexts sep (ps ++ [p]) = joinTexts sep ps ++ String.singleton sep ++ p := by
  unfold joinTexts
  rw [List.map_append, List.map_singleton, joinChars_concat sep _ _ (by simpa using h),
    ← String.toList_inj]
  simp only [String.toList_append, String.toList_ofList, String.toList_singleton,
    List.append_assoc, List.singleton_append]

end RestQuery

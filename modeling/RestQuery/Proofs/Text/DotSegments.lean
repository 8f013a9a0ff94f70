import Mathlib
import RestQuery.Text.Parts

/-!
# Dot segments

A path may hold the segments `.` and `..`, which stand for this level and the one above it, and
which RFC 3986 removes in section 5.2.4 before a path is followed.  The rules there read a path
from the left and write another one; on the segments of an absolute path they come to a stack.

* `turn`, `removeDots`, `removeDotSegments`   the rules, turn by turn;
* `enter`, `removeDots_slashed`               the stack of segments, and that it is the same;
* `removeDotSegments_plain`                   a path without dot segments, below any other path;
* `removeDotSegments_dot`, `removeDotSegments_dots`   what a dot segment at the end does.
-/

namespace RestQuery

/-! ## the rules -/

/-- a text without its last segment and the slash before it -/
def withoutLastSegment (out : List Char) : List Char :=
  ((out.reverse.dropWhile (· != '/')).drop 1).reverse

/-- one turn: what is written so far, and what is left to read -/
def turn (out : List Char) : List Char → List Char × List Char
  | '.' :: '.' :: '/' :: s => (out, s)
  | '.' :: '/' :: s => (out, s)
  | '/' :: '.' :: '/' :: s => (out, '/' :: s)
  | ['/', '.'] => (out, ['/'])
  | '/' :: '.' :: '.' :: '/' :: s => (withoutLastSegment out, '/' :: s)
  | ['/', '.', '.'] => (withoutLastSegment out, ['/'])
  | ['.'] => (out, [])
  | ['.', '.'] => (out, [])
  | [] => (out, [])
  | c :: s => (out ++ c :: s.takeWhile (· != '/'), s.dropWhile (· != '/'))

theorem turn_length_lt (out : List Char) {s : List Char} (h : s ≠ []) :
    (turn out s).2.length < s.length := by
  unfold turn
  split
  case h_9 => exact absurd rfl h
  case h_10 => exact Nat.lt_succ_of_le (List.length_dropWhile_le _ _)
  all_goals simp only [List.length_cons, List.length_nil]; omega

/-- turn after turn, until nothing is left to read -/
def removeDots (out s : List Char) : List Char :=
  if _h : s = [] then out else removeDots (turn out s).1 (turn out s).2
termination_by s.length
decreasing_by exact turn_length_lt out _h

def removeDotSegments (path : String) : String := String.ofList (removeDots [] path.toList)

theorem removeDots_nil (out : List Char) : removeDots out [] = out := by
  rw [removeDots, dif_pos rfl]

theorem removeDots_turn {out s out' s' : List Char} (hs : s ≠ []) (h : turn out s = (out', s')) :
    removeDots out s = removeDots out' s' := by
  rw [removeDots, dif_neg hs, h]

/-! ## segments -/

/-- each segment behind a slash -/
def slashed (segments : List (List Char)) : List Char := segments.flatMap ('/' :: ·)

theorem slashed_cons (p : List Char) (ps : List (List Char)) :
    slashed (p :: ps) = '/' :: (p ++ slashed ps) := rfl

theorem slashed_append (ps qs : List (List Char)) : slashed (ps ++ qs) = slashed ps ++ slashed qs :=
  List.flatMap_append

theorem slashed_concat (ps : List (List Char)) (p : List Char) :
    slashed (ps ++ [p]) = slashed ps ++ '/' :: p := by
  rw [slashed_append, slashed_cons]
  exact congrArg (slashed ps ++ '/' :: ·) (List.append_nil p)

theorem slashed_eq (ps : List (List Char)) (h : ps ≠ []) : slashed ps = '/' :: joinChars '/' ps := by
  induction ps with
  | nil => exact absurd rfl h
  | cons p ps ih =>
    rw [slashed_cons]
    cases ps with
    | nil => rw [slashed, List.flatMap_nil, List.append_nil, joinChars]
    | cons q qs => rw [ih (List.cons_ne_nil q qs), joinChars]

theorem takeWhile_slashed {p : List Char} (hp : '/' ∉ p) (ps : List (List Char)) :
    (p ++ slashed ps).takeWhile (· != '/') = p ∧
      (p ++ slashed ps).dropWhile (· != '/') = slashed ps := by
  have hclear := bne_of_not_mem hp
  rw [List.takeWhile_append_of_pos hclear, List.dropWhile_append_of_pos hclear]
  cases ps with
  | nil => exact ⟨List.append_nil p, rfl⟩
  | cons q qs =>
    rw [slashed_cons]
    exact ⟨List.append_nil p, rfl⟩

theorem withoutLastSegment_slashed {ps : List (List Char)} (h : ∀ p ∈ ps, '/' ∉ p) :
    withoutLastSegment (slashed ps) = slashed ps.dropLast := by
  induction ps using List.reverseRecOn with
  | nil => rfl
  | append_singleton ps p _ =>
    have hp : '/' ∉ p := h p (List.mem_append_right _ List.mem_cons_self)
    have hclear := bne_of_not_mem (mt List.mem_reverse.mp hp)
    unfold withoutLastSegment
    rw [slashed_concat, List.reverse_append, List.reverse_cons, List.append_assoc,
      List.dropWhile_append_of_pos hclear, List.dropLast_concat]
    simp only [List.singleton_append, bne_self_eq_false, Bool.false_eq_true, not_false_eq_true,
      List.dropWhile_cons_of_neg, List.drop_succ_cons, List.drop_zero, List.reverse_reverse]

/-! ## a stack of segments -/

/-- the segments so far, and one more -/
def enter (out : List (List Char)) (p : List Char) : List (List Char) :=
  if p = ['.'] then out else if p = ['.', '.'] then out.dropLast else out ++ [p]

/-- a dot segment at the end leaves its slash -/
def trailing (ps : List (List Char)) : List (List Char) :=
  if ps.getLast? = some ['.'] ∨ ps.getLast? = some ['.', '.'] then [[]] else []

theorem turn_segment (out : List Char) {p : List Char} (hp : '/' ∉ p) (hdot : p ≠ ['.'])
    (hdots : p ≠ ['.', '.']) (ps : List (List Char)) :
    turn out (slashed (p :: ps)) = (out ++ '/' :: p, slashed ps) := by
  obtain ⟨htake, hdrop⟩ := takeWhile_slashed hp ps
  -- the segment that is read is all that stands before the next slash
  have hread {s : List Char} (h : '/' :: (p ++ slashed ps) = '/' :: s) :
      p = s.takeWhile (· != '/') := by rw [← (List.cons.inj h).2, htake]
  rw [slashed_cons]
  unfold turn
  split
  case h_3 h => exact absurd (hread h) hdot
  case h_4 h => exact absurd (hread h) hdot
  case h_5 h => exact absurd (hread h) hdots
  case h_6 h => exact absurd (hread h) hdots
  case h_10 h =>
    obtain ⟨rfl, rfl⟩ := List.cons.inj h
    rw [htake, hdrop]
  all_goals next h => cases h

theorem enter_plain (out : List (List Char)) {p : List Char} (hdot : p ≠ ['.'])
    (hdots : p ≠ ['.', '.']) : enter out p = out ++ [p] := by
  unfold enter
  rw [if_neg hdot, if_neg hdots]

/-- a dot segment moves on the stack, and the slash behind it stays to be read -/
theorem turn_dotSegment {out : List (List Char)} (hout : ∀ p ∈ out, '/' ∉ p) {p : List Char}
    (hp : p = ['.'] ∨ p = ['.', '.']) (ps : List (List Char)) :
    turn (slashed out) (slashed (p :: ps)) =
      (slashed (enter out p), if ps = [] then ['/'] else slashed ps) := by
  rcases hp with rfl | rfl
  · cases ps <;> rfl
  · have henter : slashed (enter out ['.', '.']) = withoutLastSegment (slashed out) :=
      (withoutLastSegment_slashed hout).symm
    rw [henter]
    cases ps <;> rfl

theorem enter_no_slash {out : List (List Char)} (hout : ∀ p ∈ out, '/' ∉ p) {p : List Char}
    (hp : '/' ∉ p) : ∀ q ∈ enter out p, '/' ∉ q := by
  intro q hq
  unfold enter at hq
  split at hq
  · exact hout q hq
  · split at hq
    · exact hout q (List.mem_of_mem_dropLast hq)
    · rcases List.mem_append.mp hq with hq | hq
      · exact hout q hq
      · exact List.mem_singleton.mp hq ▸ hp

/-- a slash that nothing follows is written as it is -/
theorem removeDots_slash (ps : List (List Char)) :
    removeDots (slashed ps) ['/'] = slashed (ps ++ [[]]) := by
  have hturn : turn (slashed ps) ['/'] = (slashed ps ++ ['/'], []) := rfl
  rw [removeDots_turn (List.cons_ne_nil _ _) hturn, removeDots_nil, slashed_concat]

theorem trailing_nil : trailing [] = [] := if_neg (by simp)

theorem trailing_of_dotSegment {p : List Char} (h : p = ['.'] ∨ p = ['.', '.']) :
    trailing [p] = [[]] := if_pos (by simpa using h)

theorem trailing_of_plain {p : List Char} (hdot : p ≠ ['.']) (hdots : p ≠ ['.', '.']) :
    trailing [p] = [] := if_neg (by simp [hdot, hdots])

theorem trailing_append (ps : List (List Char)) {qs : List (List Char)} (h : qs ≠ []) :
    trailing (ps ++ qs) = trailing qs := by
  unfold trailing
  rw [List.getLast?_append_of_ne_nil ps h]

/-- segment by segment, the rules come to a stack -/
theorem removeDots_slashed (out ps : List (List Char)) (hout : ∀ p ∈ out, '/' ∉ p)
    (hps : ∀ p ∈ ps, '/' ∉ p) :
    removeDots (slashed out) (slashed ps) = slashed (ps.foldl enter out ++ trailing ps) := by
  induction ps generalizing out with
  | nil =>
    rw [List.foldl_nil, trailing_nil, List.append_nil]
    exact removeDots_nil _
  | cons p ps ih =>
    obtain ⟨hp, hps⟩ := List.forall_mem_cons.mp hps
    have hne : slashed (p :: ps) ≠ [] := List.cons_ne_nil _ _
    have ih := ih (enter out p) (enter_no_slash hout hp) hps
    rw [List.foldl_cons]
    by_cases hdots : p = ['.'] ∨ p = ['.', '.']
    · rw [removeDots_turn hne (turn_dotSegment hout hdots ps)]
      by_cases hnil : ps = []
      · subst hnil
        rw [if_pos rfl, removeDots_slash, trailing_of_dotSegment hdots, List.foldl_nil]
      · rw [if_neg hnil, ih, ← trailing_append [p] hnil, List.singleton_append]
    · obtain ⟨hdot, hdots⟩ := not_or.mp hdots
      rw [removeDots_turn hne (turn_segment _ hp hdot hdots ps), ← slashed_concat,
        ← enter_plain out hdot hdots, ih]
      by_cases hnil : ps = []
      · rw [hnil, trailing_nil, trailing_of_plain hdot hdots]
      · rw [← trailing_append [p] hnil, List.singleton_append]

/-! ## paths -/

/-- the two dot segments -/
def dotSegments : List String := [".", ".."]

/-- the path one level up, with the slash at its end -/
def parentPath (path : String) : String := joinTexts '/' ((splitText '/' path).dropLast ++ [""])

/-- a path that is empty or begins with a slash -/
def Absolute (path : String) : Prop := path = "" ∨ path.toList.head? = some '/'

theorem exists_slashed {path : String} (h : Absolute path) :
    ∃ ps, path.toList = slashed ps ∧ ∀ p ∈ ps, '/' ∉ p := by
  rcases h with rfl | h
  · exact ⟨[], rfl, fun p hp => absurd hp List.not_mem_nil⟩
  · obtain ⟨s, hs⟩ := List.head?_eq_some_iff.mp h
    refine ⟨splitChars '/' s, ?_, fun p => not_mem_of_mem_splitChars⟩
    rw [slashed_eq _ (splitChars_ne_nil '/' s), joinChars_splitChars, hs]

/-- what stands above a path leaves a stack behind it, and then the path goes on from there -/
theorem exists_stack {stem : String} (h : Absolute stem) :
    ∃ stack, ∀ path : String, (removeDotSegments (stem ++ "/" ++ path)).toList =
      slashed ((splitChars '/' path.toList).foldl enter stack ++
        trailing (splitChars '/' path.toList)) := by
  obtain ⟨base, hbase, hclear⟩ := exists_slashed h
  refine ⟨base.foldl enter [], fun path => ?_⟩
  have hne := splitChars_ne_nil '/' path.toList
  have hpath : (stem ++ "/" ++ path).toList = slashed (base ++ splitChars '/' path.toList) := by
    rw [slashed_append, slashed_eq _ hne, joinChars_splitChars, ← hbase, String.toList_append,
      String.toList_append, List.append_assoc]
    rfl
  have hall : ∀ p ∈ base ++ splitChars '/' path.toList, '/' ∉ p := fun p hp =>
    (List.mem_append.mp hp).elim (hclear p) not_mem_of_mem_splitChars
  unfold removeDotSegments
  rw [String.toList_ofList, hpath, ← trailing_append base hne, ← List.foldl_append]
  exact removeDots_slashed [] _ (fun p hp => absurd hp List.not_mem_nil) hall

/-- what a path leaves on every stack is what it comes to below every other path -/
theorem removeDotSegments_below {stem : String} (h : Absolute stem) (path : String)
    {qs : List (List Char)} (hne : qs ≠ [])
    (hqs : ∀ stack, (splitChars '/' path.toList).foldl enter stack ++
      trailing (splitChars '/' path.toList) = stack ++ qs) :
    removeDotSegments (stem ++ "/" ++ path) =
      removeDotSegments (stem ++ "/") ++ String.ofList (joinChars '/' qs) := by
  obtain ⟨stack, hstack⟩ := exists_stack h
  have hstem : (removeDotSegments (stem ++ "/")).toList = slashed (stack ++ [[]]) := by
    have hsplit : splitChars '/' "".toList = [[]] := rfl
    have htrailing : trailing [[]] = [] := trailing_of_plain nofun nofun
    have hempty := hstack ""
    rw [String.append_empty, hsplit, htrailing, List.append_nil] at hempty
    exact hempty
  rw [← String.toList_inj, hstack, hqs, String.toList_append, hstem, String.toList_ofList,
    slashed_append, slashed_concat, slashed_eq qs hne, List.append_assoc]
  rfl

/-! ## paths without dot segments but the last -/

theorem splitChars_segment (path : String) {last : String} (h : '/' ∉ last.toList) :
    splitChars '/' (path ++ "/" ++ last).toList = splitChars '/' path.toList ++ [last.toList] := by
  have htoList : (path ++ "/" ++ last).toList = path.toList ++ '/' :: last.toList := by
    rw [String.toList_append, String.toList_append, List.append_assoc]
    rfl
  rw [htoList, splitChars_append_sep, splitChars_of_not_mem '/' _ h]

section
variable {stem path : String} (hstem : Absolute stem)
  (hplain : ∀ s ∈ splitText '/' path, s ∉ dotSegments)

include hplain in
/-- no segment of such a path is one of the two -/
theorem plain_splitChars : ∀ p ∈ splitChars '/' path.toList, p ≠ ['.'] ∧ p ≠ ['.', '.'] := by
  intro p hp
  have hs := hplain (String.ofList p) (List.mem_map_of_mem hp)
  constructor
  · rintro rfl
    exact hs (by decide)
  · rintro rfl
    exact hs (by decide)

include hplain in
theorem foldl_enter_plain (stack : List (List Char)) :
    (splitChars '/' path.toList).foldl enter stack = stack ++ splitChars '/' path.toList := by
  have hall := plain_splitChars hplain
  generalize splitChars '/' path.toList = ps at hall
  induction ps generalizing stack with
  | nil => exact (List.append_nil stack).symm
  | cons p ps ih =>
    obtain ⟨⟨hdot, hdots⟩, hps⟩ := List.forall_mem_cons.mp hall
    rw [List.foldl_cons, enter_plain stack hdot hdots, ih _ hps, List.append_assoc]
    rfl

include hplain in
/-- a dot segment behind the path leaves a slash and what it makes of the stack -/
theorem foldl_enter_dotSegment (stack : List (List Char)) {last : String}
    (hlast : last.toList = ['.'] ∨ last.toList = ['.', '.']) :
    (splitChars '/' (path ++ "/" ++ last).toList).foldl enter stack ++
        trailing (splitChars '/' (path ++ "/" ++ last).toList) =
      enter (stack ++ splitChars '/' path.toList) last.toList ++ [[]] := by
  have hslash : '/' ∉ last.toList := by
    rcases hlast with h | h <;> rw [h] <;> decide
  rw [splitChars_segment path hslash, trailing_append _ (List.cons_ne_nil _ _),
    trailing_of_dotSegment hlast, List.foldl_append, foldl_enter_plain hplain]
  rfl

include hstem hplain

/-- nothing changes below the stem -/
theorem removeDotSegments_plain :
    removeDotSegments (stem ++ "/" ++ path) = removeDotSegments (stem ++ "/") ++ path := by
  have hne := splitChars_ne_nil '/' path.toList
  have htrailing : trailing (splitChars '/' path.toList) = [] := by
    have hlast := plain_splitChars hplain _ (List.getLast_mem hne)
    rw [← List.dropLast_append_getLast hne, trailing_append _ (List.cons_ne_nil _ _),
      trailing_of_plain hlast.1 hlast.2]
  rw [removeDotSegments_below hstem path hne fun stack => by
    rw [foldl_enter_plain hplain, htrailing, List.append_nil],
    joinChars_splitChars, String.ofList_toList]

/-- the segment for this level leaves the path, with a slash at its end -/
theorem removeDotSegments_dot :
    removeDotSegments (stem ++ "/" ++ (path ++ "/" ++ ".")) =
      removeDotSegments (stem ++ "/") ++ (path ++ "/") := by
  have hsplit : splitChars '/' (path ++ "/").toList = splitChars '/' path.toList ++ [[]] := by
    rw [String.toList_append]
    exact splitChars_append_sep '/' path.toList []
  have hne : splitChars '/' path.toList ++ [[]] ≠ [] := List.append_ne_nil_of_right_ne_nil _ nofun
  rw [removeDotSegments_below hstem (path ++ "/" ++ ".") hne fun stack => ?_, ← hsplit,
    joinChars_splitChars, String.ofList_toList]
  rw [foldl_enter_dotSegment hplain stack (.inl rfl)]
  show (stack ++ splitChars '/' path.toList) ++ [[]] = _
  rw [List.append_assoc]

/-- the segment for the level above takes the last segment of the path with it -/
theorem removeDotSegments_dots :
    removeDotSegments (stem ++ "/" ++ (path ++ "/" ++ "..")) =
      removeDotSegments (stem ++ "/") ++ parentPath path := by
  have hne : (splitChars '/' path.toList).dropLast ++ [[]] ≠ [] :=
    List.append_ne_nil_of_right_ne_nil _ nofun
  have hparent : parentPath path =
      String.ofList (joinChars '/' ((splitChars '/' path.toList).dropLast ++ [[]])) := by
    unfold parentPath joinTexts splitText
    rw [List.map_append, List.map_dropLast, List.map_map]
    simp [Function.comp_def]
  rw [removeDotSegments_below hstem (path ++ "/" ++ "..") hne fun stack => ?_, hparent]
  rw [foldl_enter_dotSegment hplain stack (.inr rfl)]
  show (stack ++ splitChars '/' path.toList).dropLast ++ [[]] = _
  rw [List.dropLast_append_of_ne_nil (splitChars_ne_nil '/' path.toList), List.append_assoc]

end

/-- levels that do not exist, and empty segments -/
example : removeDotSegments "/a/b/c/./../../g" = "/a/g" ∧
    removeDotSegments "mid/content=5/../6" = "mid/6" ∧ removeDotSegments "/../a//../b/." = "/a/b/" := by
  cbv

end RestQuery

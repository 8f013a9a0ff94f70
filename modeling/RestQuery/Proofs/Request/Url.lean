import Mathlib
import RestQuery.Proofs.Request.QueryString

/-!
# URLs can be taken apart

Behind the base, a URL holds the segments of the path, each encoded, and the query string behind
the first question mark.  Encoding leaves no slash and no question mark in a segment.

* `cutAtFirst`      a text before and behind its first separator;
* `Stripped`        a text without the separators at its end;
* `Request.remainder`, `Request.url_eq`   what follows the base in a URL;
* `Request.url_faithful`                  path and parameters are told by the URL.
-/

namespace RestQuery

/-! ## the first separator -/

/-- a text before its first separator, and what stands behind it, if there is one -/
def cutAtFirst (sep : Char) (s : String) : String × Option String :=
  (String.ofList (s.toList.takeWhile (· != sep)),
    match s.toList.dropWhile (· != sep) with
    | [] => none
    | _ :: behind => some (String.ofList behind))

section
variable {sep : Char} {s : String} (h : sep ∉ s.toList)
include h

theorem cutAtFirst_of_not_mem : cutAtFirst sep s = (s, none) := by
  have hs := bne_of_not_mem h
  unfold cutAtFirst
  rw [List.takeWhile_eq_self_iff.mpr hs, List.dropWhile_eq_nil_iff.mpr hs, String.ofList_toList]

theorem cutAtFirst_append (t : String) :
    cutAtFirst sep (s ++ String.singleton sep ++ t) = (s, some t) := by
  have hs := bne_of_not_mem h
  have htoList : (s ++ String.singleton sep ++ t).toList = s.toList ++ sep :: t.toList := by
    simp only [String.toList_append, String.toList_singleton, List.append_assoc,
      List.singleton_append]
  unfold cutAtFirst
  rw [htoList, List.takeWhile_append_of_pos hs, List.dropWhile_append_of_pos hs]
  simp only [bne_self_eq_false, Bool.false_eq_true, not_false_eq_true, List.takeWhile_cons_of_neg,
    List.dropWhile_cons_of_neg, List.append_nil, String.ofList_toList]

end

/-! ## separators at the end -/

/-- a text without the separators at its end -/
structure Stripped (sep : Char) (s stripped : String) : Prop where
  eq : ∃ n, s = stripped ++ String.ofList (List.replicate n sep)
  getLast : stripped.toList.getLast? ≠ some sep

theorem takeWhile_sep_eq_replicate (sep : Char) (s : List Char) :
    s.takeWhile (· == sep) = List.replicate (s.takeWhile (· == sep)).length sep := by
  refine List.eq_replicate_iff.mpr ⟨rfl, fun c hc => ?_⟩
  have hsep : (c == sep) = true := List.mem_takeWhile_imp (p := (· == sep)) hc
  exact beq_iff_eq.mp hsep

theorem trimEndText_stripped (sep : Char) (s : String) : Stripped sep s (trimEndText sep s) where
  eq := by
    refine ⟨(s.toList.reverse.takeWhile (· == sep)).length, ?_⟩
    rw [← String.toList_inj, String.toList_append, trimEndText, String.toList_ofList,
      String.toList_ofList]
    calc s.toList
        = (s.toList.reverse.takeWhile (· == sep) ++
            s.toList.reverse.dropWhile (· == sep)).reverse := by
          rw [List.takeWhile_append_dropWhile, List.reverse_reverse]
      _ = (s.toList.reverse.dropWhile (· == sep)).reverse ++
            (s.toList.reverse.takeWhile (· == sep)).reverse := List.reverse_append
      _ = (s.toList.reverse.dropWhile (· == sep)).reverse ++
            List.replicate (s.toList.reverse.takeWhile (· == sep)).length sep := by
          conv_lhs => rw [takeWhile_sep_eq_replicate, List.reverse_replicate]
  getLast := by
    unfold trimEndText
    rw [String.toList_ofList, List.getLast?_reverse]
    intro hhead
    have hnot := List.head?_dropWhile_not (· == sep) s.toList.reverse
    rw [hhead] at hnot
    simp at hnot

theorem trimEndText_append (sep : Char) (s : String) (n : Nat) :
    trimEndText sep (s ++ String.ofList (List.replicate n sep)) = trimEndText sep s := by
  unfold trimEndText
  rw [String.toList_append, String.toList_ofList, List.reverse_append, List.reverse_replicate,
    List.dropWhile_append_of_pos fun c hc => by simpa using (List.mem_replicate.mp hc).2]

/-- separators are cut behind a text that holds none, and not before it -/
theorem trimEndText_append_left {sep : Char} {s : String} (hne : s ≠ "") (hs : sep ∉ s.toList)
    (before t : String) : trimEndText sep (before ++ s ++ t) = before ++ s ++ trimEndText sep t := by
  have hstop : (before ++ s).toList.reverse.dropWhile (· == sep) = (before ++ s).toList.reverse := by
    have hnil : s.toList ≠ [] := mt String.toList_eq_nil_iff.mp hne
    have hlast := List.dropLast_concat_getLast hnil
    have hsep : s.toList.getLast hnil ≠ sep := fun h => hs (h ▸ List.getLast_mem hnil)
    rw [String.toList_append, ← hlast, ← List.append_assoc, List.reverse_append]
    exact List.dropWhile_cons_of_neg (by simpa using hsep)
  generalize before ++ s = front at hstop
  unfold trimEndText
  rw [← String.toList_inj, String.toList_append, String.toList_append, String.toList_ofList,
    String.toList_ofList, List.reverse_append, List.dropWhile_append, hstop]
  split
  · next hempty =>
    rw [List.isEmpty_iff.mp hempty, List.reverse_nil, List.append_nil, List.reverse_reverse]
  · rw [List.reverse_append, List.reverse_reverse]

namespace Request

/-! ## paths -/

theorem splitText_encodePath (path : String) :
    splitText '/' (encodePath path) = (splitText '/' path).map Percent.encode := by
  refine splitText_joinTexts '/' _ (by simpa using splitText_ne_nil '/' path) fun p hp => ?_
  obtain ⟨segment, -, rfl⟩ := List.mem_map.mp hp
  exact Percent.not_mem_encode segment rfl (by decide)

theorem encodePath_injective {path path' : String} (h : encodePath path = encodePath path') :
    path = path' := by
  have hsegments : (splitText '/' path).map Percent.encode =
      (splitText '/' path').map Percent.encode := by
    rw [← splitText_encodePath, ← splitText_encodePath, h]
  have hsplit : splitText '/' path = splitText '/' path' :=
    List.map_injective_iff.mpr (fun _ _ => Percent.encode_injective) hsegments
  rw [← joinTexts_splitText '/' path, hsplit, joinTexts_splitText]

theorem encodePath_encoded (path : String) : Percent.Encoded ['/'] (encodePath path).toList :=
  joinTexts_encoded List.mem_cons_self (List.forall_mem_map.mpr fun segment _ =>
    Percent.encode_encoded _ segment)

theorem encodePath_no_question_mark (path : String) : '?' ∉ (encodePath path).toList :=
  (encodePath_encoded path).not_mem rfl (by decide) (by decide)

/-! ## what follows the base -/

/-- the encoded path, and behind a question mark the query string, if there are parameters -/
def remainder (r : Request) : String :=
  if r.parameters = [] then encodePath r.path else encodePath r.path ++ "?" ++ r.queryString

theorem url_eq (r : Request) (base : String) :
    r.url base = trimEndText '/' base ++ "/" ++ r.remainder := by
  unfold url remainder
  by_cases h : r.parameters = []
  · rw [if_pos h, if_pos (List.isEmpty_iff.mpr h)]
  · rw [if_neg h, if_neg (by simpa using h)]
    simp only [String.append_assoc]

theorem cutAtFirst_remainder (r : Request) :
    cutAtFirst '?' r.remainder =
      (encodePath r.path, if r.parameters = [] then none else some r.queryString) := by
  have hpath := encodePath_no_question_mark r.path
  unfold remainder
  split
  · exact cutAtFirst_of_not_mem hpath
  · exact cutAtFirst_append hpath r.queryString

theorem remainder_eq_iff (r r' : Request) :
    r.remainder = r'.remainder ↔ r.path = r'.path ∧ r.parameters = r'.parameters := by
  constructor
  · intro h
    -- whether there is a question mark tells whether there are parameters
    have hcut := cutAtFirst_remainder r
    rw [h, cutAtFirst_remainder r'] at hcut
    obtain ⟨hpath, hquery⟩ := Prod.mk.inj hcut
    refine ⟨(encodePath_injective hpath).symm, ?_⟩
    by_cases hr : r.parameters = []
    · by_cases hr' : r'.parameters = []
      · rw [hr, hr']
      · rw [if_pos hr, if_neg hr'] at hquery
        cases hquery
    · by_cases hr' : r'.parameters = []
      · rw [if_neg hr, if_pos hr'] at hquery
        cases hquery
      · rw [if_neg hr, if_neg hr'] at hquery
        exact parameters_of_queryString hr hr' (Option.some.inj hquery).symm
  · rintro ⟨hpath, hparameters⟩
    unfold remainder queryString
    rw [hpath, hparameters]

/--
**A URL is faithful to path and parameters.**  Slashes at the end of the base do not count.  Behind
the base without them and one slash stand as many segments as the path has, which decode to those
of the path, and then, exactly if there are parameters, a question mark and the query string.  So
for one base the URL tells path and parameters.
-/
theorem url_faithful (r : Request) (base : String) :
    (∀ n, r.url (base ++ String.ofList (List.replicate n '/')) = r.url base) ∧
    (∃ address rest, Stripped '/' base address ∧ r.url base = address ++ "/" ++ rest ∧
      List.Forall₂ (fun encoded segment => Percent.decode? encoded = some segment)
        (splitText '/' (cutAtFirst '?' rest).1) (splitText '/' r.path) ∧
      (cutAtFirst '?' rest).2 = if r.parameters = [] then none else some r.queryString) ∧
    ∀ r' : Request, r.url base = r'.url base ↔ r.path = r'.path ∧ r.parameters = r'.parameters := by
  refine ⟨fun n => ?_, ⟨trimEndText '/' base, r.remainder, trimEndText_stripped '/' base,
    url_eq r base, ?_, ?_⟩, fun r' => ?_⟩
  · rw [url_eq, url_eq, trimEndText_append]
  · rw [cutAtFirst_remainder, splitText_encodePath, List.forall₂_map_left_iff, List.forall₂_same]
    exact fun segment _ => Percent.decode?_encode segment
  · rw [cutAtFirst_remainder]
  · rw [url_eq, url_eq, String.append_right_inj]
    exact remainder_eq_iff r r'

/-- slashes, question marks and percent signs in a path keep their places -/
example :
    ({ method := .get, path := "a b//c?d%2F/", parameters := [("?", "/")] } : Request).url
        "https://api.example.com/v1//" =
      "https://api.example.com/v1/a%20b//c%3Fd%252F/?%3F=%2F" := by
  decide +kernel

end Request

end RestQuery

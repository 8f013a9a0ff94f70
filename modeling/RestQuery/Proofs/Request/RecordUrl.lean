import Mathlib
import RestQuery.Proofs.Compile.ChangedRecord
import RestQuery.Proofs.Request.Url
import RestQuery.Proofs.Text.DotSegments

/-!
# The URL of a change

An update or a deletion addresses one record, and its URL still does when dot segments are removed
from its path: the base keeps its place, and behind it stand the resource and the id.  Only an id
that is itself a dot segment, which nothing refuses, leads to the resource or the level above.

* `pathOfUrl`               the path of a URL;
* `BaseUrl`                 the URLs that others continue;
* `pathOfUrl_url`           the path of the URL of a request;
* `Query.LeadsTo`           where the path of the URL of a change leads;
* `change_url_on_record`    every accepted change leads there.
-/

namespace RestQuery

/-! ## the path of a URL -/

/-- a URL before its query and its fragment -/
def withoutQuery (url : List Char) : List Char := url.takeWhile (· ∉ ['?', '#'])

/-- a URL behind its scheme, which ends at a colon before any slash -/
def withoutScheme (url : List Char) : List Char :=
  match url.dropWhile (· ∉ [':', '/']) with
  | ':' :: rest => rest
  | _ => url

/-- what is left of a URL behind its authority, which two slashes begin -/
def withoutAuthority : List Char → List Char
  | '/' :: '/' :: rest => rest.dropWhile (· ∉ ['/'])
  | url => url

/-- the path of a URL, from its authority to its query -/
def pathOfUrl (url : String) : String :=
  String.ofList (withoutAuthority (withoutScheme (withoutQuery url.toList)))

/-- a text that holds none of these characters -/
def Lacks (marks : List Char) (s : String) : Prop := ∀ c ∈ s.toList, c ∉ marks

instance (marks : List Char) (s : String) : Decidable (Lacks marks s) :=
  decidable_of_iff (s.toList.all (· ∉ marks) = true) (by simp [Lacks])

theorem Lacks.append {marks : List Char} {s t : String} (hs : Lacks marks s) (ht : Lacks marks t) :
    Lacks marks (s ++ t) := by
  intro c hc
  rw [String.toList_append] at hc
  exact (List.mem_append.mp hc).elim (hs c) (ht c)

theorem Lacks.mono {marks fewer : List Char} {s : String} (h : Lacks marks s) (hm : fewer ⊆ marks) :
    Lacks fewer s := fun c hc hmem => h c hc (hm hmem)

theorem Lacks.decide_eq_true {marks : List Char} {s : String} (h : Lacks marks s) :
    ∀ c ∈ s.toList, decide (c ∉ marks) = true := fun c hc => decide_eq_true_iff.mpr (h c hc)

/-- a query or nothing does not belong to the path -/
theorem pathOfUrl_eq {scheme authority path behind : String}
    (hscheme : Lacks [':', '/', '?', '#'] scheme) (hauthority : Lacks ['/', '?', '#'] authority)
    (hpath : Lacks ['?', '#'] path) (hslash : path.toList.head? = some '/')
    (hbehind : behind = "" ∨ behind.toList.head? = some '?') :
    pathOfUrl (scheme ++ "://" ++ authority ++ path ++ behind) = path := by
  obtain ⟨rest, hrest⟩ := List.head?_eq_some_iff.mp hslash
  have hquery : withoutQuery (scheme ++ "://" ++ authority ++ path ++ behind).toList =
      scheme.toList ++ ':' :: '/' :: '/' :: (authority.toList ++ path.toList) := by
    have hsep : Lacks ['?', '#'] "://" := by decide +kernel
    have hlacks : Lacks ['?', '#'] (scheme ++ "://" ++ authority ++ path) :=
      (((hscheme.mono (by decide)).append hsep).append (hauthority.mono (by decide))).append hpath
    have hnone : behind.toList.takeWhile (· ∉ ['?', '#']) = [] := by
      rcases hbehind with rfl | h
      · rfl
      · obtain ⟨query, hquery⟩ := List.head?_eq_some_iff.mp h
        rw [hquery]
        rfl
    unfold withoutQuery
    rw [String.toList_append, List.takeWhile_append_of_pos hlacks.decide_eq_true, hnone]
    simp only [String.toList_append, List.append_assoc, List.append_nil]
    rfl
  have hbehindScheme : withoutScheme
      (scheme.toList ++ ':' :: '/' :: '/' :: (authority.toList ++ path.toList)) =
        '/' :: '/' :: (authority.toList ++ path.toList) := by
    have hlacks : Lacks [':', '/'] scheme := hscheme.mono (by decide)
    unfold withoutScheme
    rw [List.dropWhile_append_of_pos hlacks.decide_eq_true]
    rfl
  have hbehindAuthority : withoutAuthority ('/' :: '/' :: (authority.toList ++ path.toList)) =
      path.toList := by
    have hlacks : Lacks ['/'] authority := hauthority.mono (by decide)
    show (authority.toList ++ path.toList).dropWhile (· ∉ ['/']) = path.toList
    rw [List.dropWhile_append_of_pos hlacks.decide_eq_true, hrest]
    rfl
  unfold pathOfUrl
  rw [hquery, hbehindScheme, hbehindAuthority, String.ofList_toList]

/-! ## bases -/

/-- an absolute URL on an authority, without query and fragment -/
structure BaseUrl where
  scheme : String
  authority : String
  path : String
  scheme_lacks : Lacks [':', '/', '?', '#'] scheme
  scheme_ne : scheme ≠ ""
  authority_lacks : Lacks ['/', '?', '#'] authority
  authority_ne : authority ≠ ""
  path_lacks : Lacks ['?', '#'] path
  path_absolute : Absolute path

namespace BaseUrl

def text (b : BaseUrl) : String := b.scheme ++ "://" ++ b.authority ++ b.path

/-- the path without the slashes at its end -/
def stem (b : BaseUrl) : String := trimEndText '/' b.path

variable (b : BaseUrl)

theorem trimEndText_text :
    trimEndText '/' b.text = b.scheme ++ "://" ++ b.authority ++ b.stem :=
  trimEndText_append_left b.authority_ne
    (fun hc => b.authority_lacks _ hc List.mem_cons_self) _ b.path

theorem exists_path_eq : ∃ slashes, b.path = b.stem ++ slashes := by
  obtain ⟨n, hn⟩ := (trimEndText_stripped '/' b.path).eq
  exact ⟨_, hn⟩

theorem stem_lacks : Lacks ['?', '#'] b.stem := by
  intro c hc
  obtain ⟨slashes, hpath⟩ := b.exists_path_eq
  refine b.path_lacks c ?_
  rw [hpath, String.toList_append]
  exact List.mem_append_left _ hc

theorem stem_absolute : Absolute b.stem := by
  obtain ⟨slashes, hpath⟩ := b.exists_path_eq
  by_cases hstem : b.stem = ""
  · exact .inl hstem
  · refine .inr ?_
    have hne : b.stem.toList ≠ [] := mt String.toList_eq_nil_iff.mp hstem
    rcases b.path_absolute with hnil | hhead
    · exact absurd (String.append_eq_empty_iff.mp (hpath.symm.trans hnil)).1 hstem
    · rwa [hpath, String.toList_append, List.head?_append_of_ne_nil _ hne] at hhead

theorem head_continued (path : String) :
    (b.stem ++ "/" ++ path).toList.head? = some '/' := by
  rw [String.toList_append, String.toList_append]
  rcases b.stem_absolute with hstem | hhead
  · rw [hstem]
    rfl
  · obtain ⟨rest, hrest⟩ := List.head?_eq_some_iff.mp hhead
    rw [hrest]
    rfl

end BaseUrl

/-! ## the path of a request -/

namespace Request

theorem encodePath_lacks (path : String) : Lacks ['?', '#'] (encodePath path) := by
  have hhash : '#' ∉ (encodePath path).toList :=
    (encodePath_encoded path).not_mem rfl (by decide) (by decide)
  intro c hc hmark
  rcases List.mem_pair.mp hmark with rfl | rfl
  · exact encodePath_no_question_mark path hc
  · exact hhash hc

/-- the base, and the encoded path behind it -/
theorem pathOfUrl_url (r : Request) (b : BaseUrl) :
    pathOfUrl (r.url b.text) = b.stem ++ "/" ++ encodePath r.path := by
  obtain ⟨behind, hremainder, hbehind⟩ : ∃ behind, r.remainder = encodePath r.path ++ behind ∧
      (behind = "" ∨ behind.toList.head? = some '?') := by
    unfold remainder
    split
    · exact ⟨"", String.append_empty.symm, .inl rfl⟩
    · exact ⟨"?" ++ r.queryString, String.append_assoc, .inr (by rw [String.toList_append]; rfl)⟩
  have hurl : r.url b.text = b.scheme ++ "://" ++ b.authority ++
      (b.stem ++ "/" ++ encodePath r.path) ++ behind := by
    rw [url_eq, b.trimEndText_text, hremainder]
    simp only [String.append_assoc]
  have hslash : Lacks ['?', '#'] "/" := by decide +kernel
  rw [hurl]
  exact pathOfUrl_eq b.scheme_lacks b.authority_lacks
    ((b.stem_lacks.append hslash).append (encodePath_lacks r.path)) (b.head_continued _) hbehind

theorem splitText_segment (path : String) {last : String} (h : '/' ∉ last.toList) :
    splitText '/' (path ++ "/" ++ last) = splitText '/' path ++ [last] := by
  unfold splitText
  rw [splitChars_segment path h, List.map_append, List.map_singleton, String.ofList_toList]

theorem encodePath_segment (path : String) {last : String} (h : '/' ∉ last.toList) :
    encodePath (path ++ "/" ++ last) = encodePath path ++ "/" ++ Percent.encode last := by
  unfold encodePath
  rw [splitText_segment path h, List.map_append, List.map_singleton]
  exact joinTexts_concat '/' _ _ (mt List.map_eq_nil_iff.mp (splitText_ne_nil '/' path))

/-- encoding keeps dot segments and gives no other ones -/
theorem encode_mem_dotSegments_iff (s : String) :
    Percent.encode s ∈ dotSegments ↔ s ∈ dotSegments := by
  have hdots : dotSegments.map Percent.encode = dotSegments := by decide +kernel
  conv_lhs => rw [← hdots]
  exact List.mem_map_of_injective fun _ _ => Percent.encode_injective

theorem encodePath_plain {path : String} (h : ∀ s ∈ splitText '/' path, s ∉ dotSegments) :
    ∀ s ∈ splitText '/' (encodePath path), s ∉ dotSegments := by
  rw [splitText_encodePath]
  exact List.forall_mem_map.mpr fun s hs => mt (encode_mem_dotSegments_iff s).mp (h s hs)

end Request

/-! ## the record of a change -/

/-- the path of the URL of a record, and what is left of it without dot segments -/
structure Query.LeadsTo (q : Query) (b : BaseUrl) (id path : String) : Prop where
  segment : cutAtLast? '/' path =
    some (b.stem ++ "/" ++ Request.encodePath q.resource, Percent.encode id)
  dots : Percent.encode id ∈ dotSegments ↔ id ∈ dotSegments
  record : id ∉ dotSegments → removeDotSegments path = removeDotSegments (b.stem ++ "/") ++
    (Request.encodePath q.resource ++ "/" ++ Percent.encode id)
  collection : id = "." → removeDotSegments path =
    removeDotSegments (b.stem ++ "/") ++ (Request.encodePath q.resource ++ "/")
  above : id = ".." → removeDotSegments path =
    removeDotSegments (b.stem ++ "/") ++ parentPath (Request.encodePath q.resource)

section
variable {q : Query} (hq : ∀ s ∈ splitText '/' q.resource, s ∉ dotSegments)
include hq

theorem Query.Addresses.leadsTo {r : Request} {id : String} (h : q.Addresses r id) (b : BaseUrl) :
    q.LeadsTo b id (pathOfUrl (r.url b.text)) := by
  have hpath : pathOfUrl (r.url b.text) =
      b.stem ++ "/" ++ (Request.encodePath q.resource ++ "/" ++ Percent.encode id) := by
    rw [Request.pathOfUrl_url, h.path, Request.encodePath_segment q.resource h.id_segment]
  have hresource := Request.encodePath_plain hq
  have hencoded : '/' ∉ (Percent.encode id).toList := Percent.not_mem_encode id rfl (by decide)
  rw [hpath]
  exact {
    segment := by
      have hassoc : b.stem ++ "/" ++ (Request.encodePath q.resource ++ "/" ++ Percent.encode id) =
          b.stem ++ "/" ++ Request.encodePath q.resource ++ "/" ++ Percent.encode id := by
        simp only [String.append_assoc]
      rw [hassoc]
      exact cutAtLast?_append '/' _ _ hencoded
    dots := Request.encode_mem_dotSegments_iff id
    record := fun hid => by
      refine removeDotSegments_plain b.stem_absolute ?_
      rw [Request.splitText_segment _ hencoded]
      intro s hs
      rcases List.mem_append.mp hs with hs | hs
      · exact hresource s hs
      · rw [List.mem_singleton.mp hs]
        exact mt (Request.encode_mem_dotSegments_iff id).mp hid
    collection := by
      rintro rfl
      exact removeDotSegments_dot b.stem_absolute hresource
    above := by
      rintro rfl
      exact removeDotSegments_dots b.stem_absolute hresource }

/--
**The URL of a change stays on its record, unless the id is a dot segment.**  The last segment of
its path is the encoded id.  Without dot segments the path is below the base what it was before;
with the id `.` it is the one of the resource, with the id `..` the one of the level above.
-/
theorem change_url_on_record {p : Provider} {r : Request} (h : compile p q = .ok r)
    (hm : q.IsChange) (b : BaseUrl) :
    ∃ id, q.Addresses r id ∧ q.LeadsTo b id (pathOfUrl (r.url b.text)) := by
  obtain ⟨id, ha⟩ := addresses_of_change h Addressing.keepsRecords_usual hm
  exact ⟨id, ha, ha.leadsTo hq b⟩

end

def apiBase : BaseUrl where
  scheme := "https"
  authority := "api.example.com"
  path := "/v1/"
  scheme_lacks := by decide +kernel
  scheme_ne := by decide
  authority_lacks := by decide +kernel
  authority_ne := by decide
  path_lacks := by decide +kernel
  path_absolute := .inr rfl

theorem unit_plain : ∀ s ∈ splitText '/' "unit", s ∉ dotSegments := by decide +kernel

/-- an update behind a base with a slash at its end -/
theorem change_url_on_record_unit :
    ∃ r id, compile {} renameUnit = .ok r ∧
      r.url apiBase.text =
        "https://api.example.com/v1/unit/a%20b?ignoreMissingProperties=true" ∧
      renameUnit.Addresses r id ∧
      renameUnit.LeadsTo apiBase id (pathOfUrl (r.url apiBase.text)) := by
  have h : compile {} renameUnit = .ok
      { method := .put, path := "unit/a b"
        parameters := [("ignoreMissingProperties", "true")]
        body := some [("name", .str "pcs")] } := rfl
  obtain ⟨id, ha, hleads⟩ := change_url_on_record unit_plain h (.inl ⟨_, rfl⟩) apiBase
  exact ⟨_, id, h, by decide +kernel, ha, hleads⟩

def dropAboveUnit : Query where
  resource := "unit"
  conditions := [.compare "id" .eq (.str "..")]
  mutation := .delete

/-- an accepted deletion whose URL addresses the level above its resource -/
theorem change_url_above_record :
    ∃ r, compile {} dropAboveUnit = .ok r ∧ dropAboveUnit.IsChange ∧
      (∀ s ∈ splitText '/' dropAboveUnit.resource, s ∉ dotSegments) ∧
      r.url apiBase.text = "https://api.example.com/v1/unit/.." ∧
      cutAtLast? '/' (pathOfUrl (r.url apiBase.text)) = some ("/v1/unit", "..") ∧
      removeDotSegments (pathOfUrl (r.url apiBase.text)) = "/v1/" := by
  have h : compile {} dropAboveUnit = .ok { method := .delete, path := "unit/.." } := rfl
  have hurl : ({ method := .delete, path := "unit/.." } : Request).url apiBase.text =
      "https://api.example.com/v1/unit/.." := by decide +kernel
  refine ⟨_, h, .inr rfl, unit_plain, hurl, ?_, ?_⟩
  · rw [hurl]
    decide +kernel
  · rw [hurl]
    cbv

end RestQuery

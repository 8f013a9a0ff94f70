import Mathlib
import RestQuery.Request.Basic
import RestQuery.Proofs.Text.Percent

/-!
# Query strings can be read

Keys and values are encoded once, and their encoded forms hold neither `&` nor `=`; so the query
string falls into the parameters again, whatever texts they are.

* `readParameter?`, `readParameters?`   the parameters of a query string;
* `queryString_encoded`                 which characters it consists of;
* `queryString_reads_back`              it gives back the parameters of the request.
-/

namespace RestQuery.Request

/-! ## reading -/

/-- key and value of a piece, which are cut at its only equals sign -/
def readParameter? (piece : String) : Option Parameter :=
  match splitText '=' piece with
  | [key, value] => do return (← Percent.decode? key, ← Percent.decode? value)
  | _ => none

/-- the parameters of a query string -/
def readParameters? (s : String) : Option (List Parameter) := (splitText '&' s).mapM readParameter?

/-! ## one parameter -/

theorem encodeParameter_toList (x : Parameter) :
    (encodeParameter x).toList =
      (Percent.encode x.1).toList ++ '=' :: (Percent.encode x.2).toList := by
  unfold encodeParameter
  simp only [String.toList_append, List.append_assoc]
  rfl

theorem encodeParameter_encoded (x : Parameter) :
    Percent.Encoded ['='] (encodeParameter x).toList := by
  rw [encodeParameter_toList]
  exact (Percent.encode_encoded _ x.1).append
    (.mark List.mem_cons_self (Percent.encode_encoded _ x.2))

theorem encodeParameter_no_ampersand (x : Parameter) : '&' ∉ (encodeParameter x).toList :=
  (encodeParameter_encoded x).not_mem rfl (by decide) (by decide)

theorem splitText_encodeParameter (x : Parameter) :
    splitText '=' (encodeParameter x) = [Percent.encode x.1, Percent.encode x.2] := by
  have hkey : '=' ∉ (Percent.encode x.1).toList := Percent.not_mem_encode x.1 rfl (by decide)
  have hvalue : '=' ∉ (Percent.encode x.2).toList := Percent.not_mem_encode x.2 rfl (by decide)
  unfold splitText
  rw [encodeParameter_toList, splitChars_append '=' _ _ hkey,
    splitChars_of_not_mem '=' _ hvalue]
  simp only [List.map_cons, List.map_nil, String.ofList_toList]

theorem readParameter?_encodeParameter (x : Parameter) :
    readParameter? (encodeParameter x) = some x := by
  unfold readParameter?
  rw [splitText_encodeParameter]
  simp only [Percent.decode?_encode]
  rfl

/-! ## all parameters -/

theorem joinChars_encoded {marks : List Char} {sep : Char} (hsep : sep ∈ marks)
    (ps : List (List Char)) (h : ∀ p ∈ ps, Percent.Encoded marks p) :
    Percent.Encoded marks (joinChars sep ps) := by
  induction ps with
  | nil => exact .nil
  | cons p ps ih =>
    have hp := h p List.mem_cons_self
    cases ps with
    | nil => exact hp
    | cons q ps =>
      have hrest := ih fun r hr => h r (List.mem_cons_of_mem _ hr)
      exact hp.append (.mark hsep hrest)

theorem joinTexts_encoded {marks : List Char} {sep : Char} (hsep : sep ∈ marks)
    {ps : List String} (h : ∀ p ∈ ps, Percent.Encoded marks p.toList) :
    Percent.Encoded marks (joinTexts sep ps).toList := by
  unfold joinTexts
  rw [String.toList_ofList]
  exact joinChars_encoded hsep _ (List.forall_mem_map.mpr h)

/-- letters, digits, a few signs, escapes and the two separators -/
theorem queryString_encoded (r : Request) :
    Percent.Encoded ['=', '&'] r.queryString.toList :=
  joinTexts_encoded (by decide) (List.forall_mem_map.mpr fun x _ =>
    (encodeParameter_encoded x).mono (by decide))

theorem splitText_queryString (r : Request) (h : r.parameters ≠ []) :
    splitText '&' r.queryString = r.parameters.map encodeParameter := by
  refine splitText_joinTexts '&' _ (by simpa using h) fun p hp => ?_
  obtain ⟨x, -, rfl⟩ := List.mem_map.mp hp
  exact encodeParameter_no_ampersand x

theorem readParameters?_queryString (r : Request) (h : r.parameters ≠ []) :
    readParameters? r.queryString = some r.parameters := by
  unfold readParameters?
  rw [splitText_queryString r h, List.mapM_map]
  have hread : readParameter? ∘ encodeParameter = pure := funext readParameter?_encodeParameter
  rw [hread, List.mapM_pure, List.map_id']
  rfl

theorem parameters_of_queryString {r r' : Request} (h : r.parameters ≠ []) (h' : r'.parameters ≠ [])
    (hs : r.queryString = r'.queryString) : r.parameters = r'.parameters := by
  have hr := readParameters?_queryString r h
  rw [hs, readParameters?_queryString r' h'] at hr
  exact (Option.some.inj hr).symm

/--
**The query string encodes once and can be read.**  It consists of unreserved characters, escapes
and the two separators; cut at every `&` and each piece at its only `=`, it decodes to the keys
and values in their order.  So no two lists of parameters have the same query string.
-/
theorem queryString_reads_back (r : Request) (h : r.parameters ≠ []) :
    Percent.Encoded ['=', '&'] r.queryString.toList ∧
      readParameters? r.queryString = some r.parameters ∧
      ∀ r' : Request, r'.parameters ≠ [] → r'.queryString = r.queryString →
        r'.parameters = r.parameters :=
  ⟨queryString_encoded r, readParameters?_queryString r h,
    fun _ h' hs => parameters_of_queryString h' h hs⟩

/-- keys and values that look encoded, are empty or are not ASCII -/
def disguised : Request where
  method := .get
  path := "unit"
  parameters := [("", ""), ("a=b&c", "%20"), ("", ""), ("größe", "≥ 1+1")]

theorem queryString_reads_back_disguised :
    disguised.parameters ≠ [] ∧
      disguised.queryString = "=&a%3Db%26c=%2520&=&gr%C3%B6%C3%9Fe=%E2%89%A5%201%2B1" ∧
      readParameters? disguised.queryString = some disguised.parameters := by
  have hne : disguised.parameters ≠ [] := List.cons_ne_nil _ _
  exact ⟨hne, by decide +kernel, (queryString_reads_back disguised hne).2.1⟩

end RestQuery.Request

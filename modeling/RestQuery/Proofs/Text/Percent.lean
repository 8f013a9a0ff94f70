import Mathlib
import RestQuery.Text.Percent

/-!
# Percent-encoding can be undone

* `isPlain`, `Encoded`     the characters and the texts that encoding gives, between marks;
* `encode_encoded`         an encoded text has no marks at all, so none need to be named;
* `decode?_encode`         decoding an encoded text gives the text.
-/

namespace RestQuery.Percent

/-! ## what an encoded text looks like -/

/-- the characters that stand for themselves -/
def isPlain (c : Char) : Bool := c.isAlphanum || c == '-' || c == '_' || c == '.' || c == '~'

/-- the digits of an escape -/
def escapeDigits : List Char :=
  ['0', '1', '2', '3', '4', '5', '6', '7', '8', '9', 'A', 'B', 'C', 'D', 'E', 'F']

/-- texts of plain characters, marks and escapes -/
inductive Encoded (marks : List Char) : List Char → Prop
  | nil : Encoded marks []
  | plain {c : Char} {s : List Char} (hc : isPlain c = true) (h : Encoded marks s) :
    Encoded marks (c :: s)
  | mark {c : Char} {s : List Char} (hc : c ∈ marks) (h : Encoded marks s) : Encoded marks (c :: s)
  | escape {a b : Char} {s : List Char} (ha : a ∈ escapeDigits) (hb : b ∈ escapeDigits)
    (h : Encoded marks s) : Encoded marks ('%' :: a :: b :: s)

theorem Encoded.append {marks s t : List Char} (hs : Encoded marks s) (ht : Encoded marks t) :
    Encoded marks (s ++ t) := by
  induction hs with
  | nil => exact ht
  | plain hc _ ih => exact .plain hc ih
  | mark hc _ ih => exact .mark hc ih
  | escape ha hb _ ih => exact .escape ha hb ih

theorem Encoded.mono {marks more s : List Char} (h : Encoded marks s) (hm : marks ⊆ more) :
    Encoded more s := by
  induction h with
  | nil => exact .nil
  | plain hc _ ih => exact .plain hc ih
  | mark hc _ ih => exact .mark (hm hc) ih
  | escape ha hb _ ih => exact .escape ha hb ih

theorem isPlain_of_mem_escapeDigits {c : Char} (h : c ∈ escapeDigits) : isPlain c = true := by
  have hall : escapeDigits.all isPlain = true := by decide
  exact List.all_eq_true.mp hall c h

theorem Encoded.isPlain_or {marks s : List Char} (h : Encoded marks s) {c : Char} (hc : c ∈ s) :
    isPlain c = true ∨ c ∈ marks ∨ c = '%' := by
  induction h with
  | nil => exact absurd hc List.not_mem_nil
  | plain hd _ ih =>
    rcases List.mem_cons.mp hc with rfl | hc
    · exact .inl hd
    · exact ih hc
  | mark hd _ ih =>
    rcases List.mem_cons.mp hc with rfl | hc
    · exact .inr (.inl hd)
    · exact ih hc
  | escape ha hb _ ih =>
    rcases List.mem_cons.mp hc with rfl | hc
    · exact .inr (.inr rfl)
    · rcases List.mem_cons.mp hc with rfl | hc
      · exact .inl (isPlain_of_mem_escapeDigits ha)
      · rcases List.mem_cons.mp hc with rfl | hc
        · exact .inl (isPlain_of_mem_escapeDigits hb)
        · exact ih hc

theorem Encoded.not_mem {marks s : List Char} (h : Encoded marks s) {c : Char}
    (hplain : isPlain c = false) (hmarks : c ∉ marks) (hpercent : c ≠ '%') : c ∉ s := by
  intro hc
  rcases h.isPlain_or hc with hp | hm | rfl
  · rw [hplain] at hp
    cases hp
  · exact hmarks hm
  · exact hpercent rfl

/-! ## single bytes -/

theorem upper_mem_escapeDigits (n : Fin 16) : Hex.upper n.val ∈ escapeDigits := by
  revert n
  decide

theorem isPlain_of_isUnreserved (b : UInt8) (h : isUnreserved b = true) :
    isPlain (Char.ofNat b.toNat) = true ∧ (Char.ofNat b.toNat).toNat = b.toNat ∧
      b.toNat < 128 := by
  have hall : ∀ n : Fin 256, isUnreserved (UInt8.ofNat n.val) = true →
      isPlain (Char.ofNat n.val) = true ∧ (Char.ofNat n.val).toNat = n.val ∧ n.val < 128 := by
    decide +kernel
  have hb := hall ⟨b.toNat, b.toNat_lt⟩
  rw [UInt8.ofNat_toNat] at hb
  exact hb h

theorem ne_percent_of_isPlain {c : Char} (h : isPlain c = true) : c ≠ '%' := by
  rintro rfl
  cases h

theorem encodeByte_encoded (b : UInt8) : Encoded [] (encodeByte b) := by
  have hb : b.toNat < 256 := b.toNat_lt
  unfold encodeByte
  split
  · next h => exact .plain (isPlain_of_isUnreserved b h).1 .nil
  · have hhigh := upper_mem_escapeDigits ⟨b.toNat / 16, by omega⟩
    have hlow := upper_mem_escapeDigits ⟨b.toNat % 16, by omega⟩
    exact .escape hhigh hlow .nil

theorem decodeBytes?_plain {c : Char} (h : c ≠ '%') (s : List Char) :
    decodeBytes? (c :: s) =
      if c.toNat < 128 then (decodeBytes? s).map (UInt8.ofNat c.toNat :: ·) else none := by
  rw [decodeBytes?]
  · simp only [ne_eq, h, not_false_eq_true, true_and]
  · rintro a b s rfl
    exact absurd rfl h

/-- the two digits of an escape give the byte back -/
theorem decodeBytes?_escape (b : UInt8) (s : List Char) :
    decodeBytes? ('%' :: Hex.upper (b.toNat / 16) :: Hex.upper (b.toNat % 16) :: s) =
      (decodeBytes? s).map (b :: ·) := by
  have hb : b.toNat < 256 := b.toNat_lt
  have hhigh := Hex.value?_upper ⟨b.toNat / 16, by omega⟩
  have hlow := Hex.value?_upper ⟨b.toNat % 16, by omega⟩
  have hbyte : UInt8.ofNat (16 * (b.toNat / 16) + b.toNat % 16) = b := by
    rw [Nat.div_add_mod, UInt8.ofNat_toNat]
  simp only at hhigh hlow
  simp only [decodeBytes?, hhigh, hlow, hbyte]

theorem decodeBytes?_encodeByte (b : UInt8) (s : List Char) :
    decodeBytes? (encodeByte b ++ s) = (decodeBytes? s).map (b :: ·) := by
  unfold encodeByte
  split
  · next h =>
    obtain ⟨hplain, hcode, hascii⟩ := isPlain_of_isUnreserved b h
    rw [List.singleton_append, decodeBytes?_plain (ne_percent_of_isPlain hplain), hcode,
      if_pos hascii, UInt8.ofNat_toNat]
  · exact decodeBytes?_escape b s

/-! ## texts -/

theorem encodeChars_encoded (s : String) : Encoded [] (encodeChars s) := by
  unfold encodeChars
  induction bytes s with
  | nil => exact .nil
  | cons b bs ih =>
    rw [List.flatMap_cons]
    exact (encodeByte_encoded b).append ih

theorem encode_encoded (marks : List Char) (s : String) : Encoded marks (encode s).toList := by
  unfold encode
  rw [String.toList_ofList]
  exact (encodeChars_encoded s).mono (List.nil_subset marks)

theorem not_mem_encode (s : String) {c : Char} (hplain : isPlain c = false)
    (hpercent : c ≠ '%') : c ∉ (encode s).toList :=
  (encode_encoded [] s).not_mem hplain List.not_mem_nil hpercent

theorem decodeBytes?_flatMap (bs : List UInt8) : decodeBytes? (bs.flatMap encodeByte) = some bs := by
  induction bs with
  | nil => rfl
  | cons b bs ih => rw [List.flatMap_cons, decodeBytes?_encodeByte, ih, Option.map_some]

theorem fromUTF8?_bytes (s : String) : String.fromUTF8? ⟨(bytes s).toArray⟩ = some s := by
  unfold bytes String.fromUTF8?
  rw [Array.toArray_toList]
  exact dif_pos s.isValidUTF8

theorem decode?_encode (s : String) : decode? (encode s) = some s := by
  unfold decode? encode decodeChars? encodeChars
  rw [String.toList_ofList, decodeBytes?_flatMap, Option.bind_some, fromUTF8?_bytes]

theorem encode_injective {s t : String} (h : encode s = encode t) : s = t := by
  have hs := decode?_encode s
  rw [h, decode?_encode] at hs
  exact (Option.some.inj hs).symm

end RestQuery.Percent

import Mathlib
import RestQuery.Json.Numeral
import RestQuery.Json.Quoted

/-!
# Literals are read as they were written

* `Quoted.read_write`     a string literal, whatever code points it holds;
* `EndsNumeral`           the texts in front of which a number literal is over;
* `Numeral.read_chars`    a number literal in front of such a text;
* `Numeral.text_ofInt`    the text of an integer.
-/

namespace RestQuery.Json

/-! ## string literals -/

namespace Quoted

theorem hexUnit?_hexChars (u : Nat) (h : u < 65536) :
    hexUnit? (Hex.lower (u / 4096 % 16)) (Hex.lower (u / 256 % 16)) (Hex.lower (u / 16 % 16))
      (Hex.lower (u % 16)) = some u := by
  have hdigit (n : Nat) : Hex.value? (Hex.lower (n % 16)) = some (n % 16) :=
    Hex.value?_lower ⟨n % 16, Nat.mod_lt n (by decide)⟩
  have hu : 4096 * (u / 4096 % 16) + 256 * (u / 256 % 16) + 16 * (u / 16 % 16) + u % 16 = u := by
    omega
  simp only [hexUnit?, hdigit, Option.bind_eq_bind, Option.bind_some, Option.pure_def, hu]

theorem ofUnit_high (h : Fin 1024) : CodePoint.ofUnit (0xD800 + h.val) = .high h := by
  have hlt := h.isLt
  unfold CodePoint.ofUnit
  rw [if_pos (by omega), Nat.add_sub_cancel_left, Fin.ofNat_val_eq_self]

theorem ofUnit_low (l : Fin 1024) : CodePoint.ofUnit (0xDC00 + l.val) = .low l := by
  have hlt := l.isLt
  unfold CodePoint.ofUnit
  rw [if_neg (by omega), if_pos (by omega), Nat.add_sub_cancel_left, Fin.ofNat_val_eq_self]

theorem ofUnit_control (c : Char) (h : c.toNat < 0x20) : CodePoint.ofUnit c.toNat = .scalar c := by
  unfold CodePoint.ofUnit
  rw [if_neg (by omega), if_neg (by omega), Char.ofNat_toNat]

/-- no short escape is the letter of a unit, and reading it gives the character back -/
theorem ofShortEscape?_shortEscape? {c e : Char} (h : shortEscape? c = some e) :
    e ≠ 'u' ∧ ofShortEscape? e = some c := by
  unfold shortEscape? at h
  split_ifs at h with h1 h2 h3 h4 h5 h6 h7
  all_goals
    obtain rfl := Option.some.inj h
    subst c
    decide

theorem ne_of_shortEscape?_eq_none {c : Char} (h : shortEscape? c = none) : c ≠ '"' ∧ c ≠ '\\' := by
  constructor
  · rintro rfl
    cases h
  · rintro rfl
    cases h

/-! ### steps of the reader -/

theorem read_unitEscape (u : Nat) (hu : u < 65536) (s : List Char) :
    read (unitEscape u ++ s) = (read s).map (consPoint (.ofUnit u)) := by
  simp only [unitEscape, hexChars, List.cons_append, List.nil_append, read,
    hexUnit?_hexChars u hu]

theorem read_shortEscape {c e : Char} (h : shortEscape? c = some e) (s : List Char) :
    read ('\\' :: e :: s) = (read s).map (consPoint (.scalar c)) := by
  obtain ⟨hu, he⟩ := ofShortEscape?_shortEscape? h
  rw [read]
  · simp only [he]
  · rintro a b c d t rfl
    exact absurd rfl hu

theorem read_raw {c : Char} (hquote : c ≠ '"') (hslash : c ≠ '\\') (hcontrol : ¬ c.toNat < 0x20)
    (s : List Char) : read (c :: s) = (read s).map (consPoint (.scalar c)) := by
  rw [read]
  · rw [if_neg (not_or.mpr ⟨hslash, hcontrol⟩)]
  · exact hquote
  · rintro a b c d t rfl
    exact absurd rfl hslash
  · rintro e t rfl
    exact absurd rfl hslash

theorem read_writePoint (p : CodePoint) (s : List Char) :
    read (writePoint p ++ s) = (read s).map (consPoint p) := by
  cases p with
  | high h =>
    have hlt := h.isLt
    rw [writePoint, read_unitEscape _ (by omega), ofUnit_high]
  | low l =>
    have hlt := l.isLt
    rw [writePoint, read_unitEscape _ (by omega), ofUnit_low]
  | scalar c =>
    simp only [writePoint]
    cases he : shortEscape? c with
    | some e => exact read_shortEscape he s
    | none =>
      by_cases hcontrol : c.toNat < 0x20
      · simp only [if_pos hcontrol]
        rw [read_unitEscape _ (by omega), ofUnit_control c hcontrol]
      · obtain ⟨hquote, hslash⟩ := ne_of_shortEscape?_eq_none he
        simp only [if_neg hcontrol]
        exact read_raw hquote hslash hcontrol s

/-- behind the opening quote -/
theorem read_points (cs : List CodePoint) (s : List Char) :
    read (cs.flatMap writePoint ++ '"' :: s) = some (cs, s) := by
  induction cs with
  | nil => simp only [List.flatMap_nil, List.nil_append, read]
  | cons p cs ih =>
    rw [List.flatMap_cons, List.append_assoc, read_writePoint, ih]
    rfl

theorem write_append (cs : List CodePoint) (s : List Char) :
    write cs ++ s = '"' :: (cs.flatMap writePoint ++ '"' :: s) := by
  simp only [write, List.cons_append, List.append_assoc, List.nil_append]

end Quoted

/-! ## number literals -/

/-- no character that could go on with a number literal stands in front -/
def EndsNumeral (s : List Char) : Prop :=
  ∀ c ∈ s.head?, c.isDigit = false ∧ c ≠ '.' ∧ c ≠ 'e' ∧ c ≠ 'E'

/-- no digit stands in front -/
def EndsDigits (s : List Char) : Prop := ∀ c ∈ s.head?, c.isDigit = false

theorem EndsNumeral.digits {s : List Char} (h : EndsNumeral s) : EndsDigits s :=
  fun c hc => (h c hc).1

theorem endsDigits_cons {c : Char} (h : c.isDigit = false) (s : List Char) : EndsDigits (c :: s) := by
  intro d hd
  obtain rfl := Option.some.inj hd
  exact h

namespace Numeral

theorem digitRun_append_of_ends {ds : List Char} (h : ∀ c ∈ ds, c.isDigit = true)
    {rest : List Char} (hrest : EndsDigits rest) : digitRun (ds ++ rest) = (ds, rest) := by
  have hstop : rest.takeWhile Char.isDigit = [] ∧ rest.dropWhile Char.isDigit = rest := by
    cases rest with
    | nil => exact ⟨rfl, rfl⟩
    | cons c s =>
      have hc : ¬ c.isDigit = true := by rw [hrest c rfl]; exact Bool.false_ne_true
      exact ⟨List.takeWhile_cons_of_neg hc, List.dropWhile_cons_of_neg hc⟩
  unfold digitRun
  rw [List.takeWhile_append_of_pos h, List.dropWhile_append_of_pos h, hstop.1, hstop.2,
    List.append_nil]

theorem isDigit_toDigits (n : Nat) : ∀ c ∈ Nat.toDigits 10 n, c.isDigit = true :=
  fun _ hc => Nat.isDigit_of_mem_toDigits (by decide) (by decide) hc

theorem toDigits_head (n : Nat) (h : 0 < n) : (Nat.toDigits 10 n).head? ≠ some '0' := by
  induction n using Nat.strong_induction_on with
  | _ n ih =>
    by_cases hn : n < 10
    · rw [Nat.toDigits_of_lt_base hn]
      interval_cases n <;> decide
    · have hlead := ih (n / 10) (by omega) (by omega)
      rw [Nat.toDigits_of_base_le (by decide) (by omega), List.head?_append]
      cases hhead : (Nat.toDigits 10 (n / 10)).head? with
      | none => exact absurd (List.head?_eq_none_iff.mp hhead) Nat.toDigits_ne_nil
      | some c => rwa [hhead] at hlead

/-- no zero stands in front of another digit -/
theorem toDigits_ne_zero_cons (n : Nat) (c : Char) (cs : List Char) :
    Nat.toDigits 10 n ≠ '0' :: c :: cs := by
  intro h
  by_cases hn : 0 < n
  · exact toDigits_head n hn (by rw [h]; rfl)
  · obtain rfl : n = 0 := by omega
    cases h

theorem readWhole_append (n : Nat) {rest : List Char} (h : EndsDigits rest) :
    readWhole (Nat.toDigits 10 n ++ rest) = some (n, rest) := by
  have hrun := digitRun_append_of_ends (isDigit_toDigits n) h
  unfold readWhole
  rw [hrun]
  split
  · next hnil => exact absurd (Prod.mk.inj hnil).1 Nat.toDigits_ne_nil
  · next hzero => exact absurd (Prod.mk.inj hzero).1 (toDigits_ne_zero_cons n _ _)
  · next ds r _ _ hds =>
    obtain ⟨rfl, rfl⟩ := Prod.mk.inj hds
    rw [Nat.ofDigitChars_ten_toDigits]

/-- the point and the digits behind it, if there are any -/
def fractionChars (ds : List (Fin 10)) : List Char :=
  if ds.isEmpty then [] else '.' :: ds.map digitChar

theorem readFraction_append (ds : List (Fin 10)) {rest : List Char} (h : EndsDigits rest)
    (hpoint : ∀ c ∈ rest.head?, c ≠ '.') :
    readFraction (fractionChars ds ++ rest) = some (ds, rest) := by
  cases ds with
  | nil =>
    show readFraction rest = _
    cases rest with
    | nil => rfl
    | cons c s =>
      have hc : c ≠ '.' := hpoint c rfl
      rw [readFraction]
      rintro t ht
      exact hc (List.cons.inj ht).1
  | cons d ds =>
    have hdigits : ∀ c ∈ (d :: ds).map digitChar, c.isDigit = true := by
      intro c hc
      obtain ⟨x, -, rfl⟩ := List.mem_map.mp hc
      exact isDigit_digitChar x
    have hback : ((d :: ds).map digitChar).map charDigit = d :: ds := by
      rw [List.map_map]
      exact List.map_id'' charDigit_digitChar _
    show readFraction ('.' :: ((d :: ds).map digitChar ++ rest)) = _
    rw [readFraction, digitRun_append_of_ends hdigits h]
    simp only [List.map_cons] at hback ⊢
    rw [hback]

theorem readPower_append (negative : Bool) (n : Nat) {rest : List Char} (h : EndsDigits rest) :
    readPower negative (Nat.toDigits 10 n ++ rest) =
      some (some (if negative then -(n : Int) else n), rest) := by
  unfold readPower
  rw [digitRun_append_of_ends (isDigit_toDigits n) h]
  split
  · next hnil => exact absurd (Prod.mk.inj hnil).1 Nat.toDigits_ne_nil
  · next ds r _ hds =>
    obtain ⟨rfl, rfl⟩ := Prod.mk.inj hds
    rw [Nat.ofDigitChars_ten_toDigits]

theorem readExponent_append (e : Int) {rest : List Char} (h : EndsDigits rest) :
    readExponent (exponentChars e ++ rest) = some (some e, rest) := by
  have habs : (if e < 0 then -(e.natAbs : Int) else e.natAbs) = e := by
    split <;> omega
  unfold exponentChars
  by_cases he : e < 0
  · rw [if_pos he] at habs ⊢
    simp only [List.cons_append, readExponent, true_or, if_true]
    rw [readPower_append true _ h, if_pos rfl, habs]
  · rw [if_neg he] at habs ⊢
    simp only [List.cons_append, readExponent, true_or, if_true]
    rw [readPower_append false _ h, if_neg Bool.false_ne_true, habs]

theorem readExponent_none {rest : List Char} (h : EndsNumeral rest) :
    readExponent rest = some (none, rest) := by
  cases rest with
  | nil => rfl
  | cons c s =>
    obtain ⟨-, -, he, hE⟩ := h c rfl
    exact if_neg (not_or.mpr ⟨he, hE⟩)

/-- the text of the power of ten, if there is one -/
def powerChars : Option Int → List Char
  | none => []
  | some e => exponentChars e

theorem readExponent_powerChars (e : Option Int) {rest : List Char} (h : EndsNumeral rest) :
    readExponent (powerChars e ++ rest) = some (e, rest) := by
  cases e with
  | none => exact readExponent_none h
  | some e => exact readExponent_append e h.digits

/-- neither a digit nor a point stands in front of a power of ten -/
theorem powerChars_head (e : Option Int) {rest : List Char} (h : EndsNumeral rest) :
    ∀ c ∈ (powerChars e ++ rest).head?, c.isDigit = false ∧ c ≠ '.' := by
  intro c hc
  cases e with
  | none =>
    obtain ⟨hdigit, hpoint, -, -⟩ := h c hc
    exact ⟨hdigit, hpoint⟩
  | some e =>
    obtain rfl : 'e' = c := Option.some.inj hc
    decide

theorem fractionChars_ends (ds : List (Fin 10)) {rest : List Char} (h : EndsDigits rest) :
    EndsDigits (fractionChars ds ++ rest) := by
  cases ds with
  | nil => exact h
  | cons d ds => exact endsDigits_cons rfl _

theorem readMagnitude_append (n : Numeral) {rest : List Char} (h : EndsNumeral rest) :
    readMagnitude n.negative
        (Nat.toDigits 10 n.whole ++ (fractionChars n.fraction ++ (powerChars n.exponent ++ rest))) =
      some (n, rest) := by
  have hhead := powerChars_head n.exponent h
  have hpower : EndsDigits (powerChars n.exponent ++ rest) := fun c hc => (hhead c hc).1
  simp only [readMagnitude, readWhole_append n.whole (fractionChars_ends n.fraction hpower),
    readFraction_append n.fraction hpower fun c hc => (hhead c hc).2,
    readExponent_powerChars n.exponent h, Option.bind_eq_bind, Option.bind_some, Option.pure_def]

theorem chars_eq (n : Numeral) : n.chars =
    (if n.negative then ['-'] else []) ++ Nat.toDigits 10 n.whole ++ fractionChars n.fraction ++
      powerChars n.exponent := rfl

theorem chars_head (n : Numeral) : ∃ c s, n.chars = c :: s ∧ (c = '-' ∨ c.isDigit = true) := by
  rw [chars_eq]
  cases n.negative with
  | true => exact ⟨'-', _, rfl, .inl rfl⟩
  | false =>
    cases hdigits : Nat.toDigits 10 n.whole with
    | nil => exact absurd hdigits Nat.toDigits_ne_nil
    | cons c s =>
      have hc := isDigit_toDigits n.whole c (by rw [hdigits]; exact List.mem_cons_self)
      exact ⟨c, _, rfl, .inr hc⟩

theorem read_of_digit {c : Char} (h : c.isDigit = true) (s : List Char) :
    read (c :: s) = readMagnitude false (c :: s) := by
  rw [read]
  rintro t ht
  obtain rfl := (List.cons.inj ht).1
  cases h

theorem read_chars (n : Numeral) {rest : List Char} (h : EndsNumeral rest) :
    read (n.chars ++ rest) = some (n, rest) := by
  have hread := readMagnitude_append n h
  rw [chars_eq]
  simp only [List.append_assoc]
  cases hn : n.negative with
  | true =>
    rw [hn] at hread
    exact hread
  | false =>
    rw [hn] at hread
    rw [if_neg Bool.false_ne_true, List.nil_append]
    cases hdigits : Nat.toDigits 10 n.whole with
    | nil => exact absurd hdigits Nat.toDigits_ne_nil
    | cons c s =>
      have hc := isDigit_toDigits n.whole c (by rw [hdigits]; exact List.mem_cons_self)
      rw [hdigits] at hread
      exact (read_of_digit hc _).trans hread

/-! ## texts of numbers -/

theorem text_ne_empty (n : Numeral) : n.text ≠ "" := by
  intro h
  have hchars : n.chars = [] := by
    rw [← String.toList_ofList (l := n.chars)]
    exact congrArg String.toList h
  unfold chars at hchars
  simp only [List.append_eq_nil_iff] at hchars
  exact Nat.toDigits_ne_nil hchars.1.1.2

theorem text_ofInt (i : Int) : (ofInt i).text = toString i := by
  rw [Int.toString_eq_repr, Int.repr_eq_if, text, chars, ofInt]
  by_cases hi : 0 ≤ i
  · have hsign : decide (i < 0) = false := decide_eq_false (not_lt.mpr hi)
    have habs : i.natAbs = i.toNat := by omega
    simp [hi, hsign, habs, Nat.repr]
  · have hsign : decide (i < 0) = true := decide_eq_true (not_le.mp hi)
    have habs : i.natAbs = (-i).toNat := by omega
    simp [hi, hsign, habs, Nat.repr]

end Numeral

end RestQuery.Json

import Mathlib
import RestQuery.Compile.Page

/-!
# Pages of limits and offsets

* `Page.Off`     the limits and offsets that no page begins with: rows are skipped without a limit,
                 or the number of the page is no 64-bit word;
* `Page.IsOf`    the page of a limit and an offset, in exact numbers;
* `Page.ofRows_of_off`, `Page.ofRows_of_not_off`   an error for the former, the latter else.
-/

namespace RestQuery.Page

/-- the limits and offsets that no page begins with -/
def Off (limit : Option UInt64) (offset : UInt64) : Prop :=
  (0 < offset ∧ (limit = none ∨ limit = some 0)) ∨
    (limit = some 1 ∧ offset.toNat = 18446744073709551615)

/-- no page without a positive limit, else the one that holds the row of the offset -/
def IsOf (limit : Option UInt64) (offset : UInt64) : Option Page → Prop
  | none => limit = none ∨ limit = some 0
  | some page =>
    limit = some page.size ∧ 0 < page.size ∧
      page.number.toNat = offset.toNat / page.size.toNat + 1

theorem not_unlimited {limit : Option UInt64} {size : UInt64} (hlimit : limit = some size)
    (hs : 0 < size) : ¬ (limit = none ∨ limit = some 0) := by
  rintro (hnone | hzero)
  · cases hlimit.symm.trans hnone
  · rw [Option.some.inj (hlimit.symm.trans hzero)] at hs
    cases hs

theorem isOf_unique {limit : Option UInt64} {offset : UInt64} {a b : Option Page}
    (ha : IsOf limit offset a) (hb : IsOf limit offset b) : a = b := by
  match a, b with
  | none, none => rfl
  | none, some b =>
    obtain ⟨hlimit, hsize, -⟩ := hb
    exact absurd ha (not_unlimited hlimit hsize)
  | some a, none =>
    obtain ⟨hlimit, hsize, -⟩ := ha
    exact absurd hb (not_unlimited hlimit hsize)
  | some ⟨sa, na⟩, some ⟨sb, nb⟩ =>
    obtain ⟨hla, -, hna⟩ := ha
    obtain ⟨hlb, -, hnb⟩ := hb
    obtain rfl : sa = sb := Option.some.inj (hla.symm.trans hlb)
    obtain rfl : na = nb := UInt64.toNat_inj.mp (hna.trans hnb.symm)
    rfl

/-- what a page is asked for can be asked for limit and offset -/
theorem IsOf.exists_iff {limit : Option UInt64} {offset : UInt64} {page : Option Page}
    (h : IsOf limit offset page) (P : Nat → Nat → Prop) :
    (∃ pg, page = some pg ∧ P pg.size.toNat pg.number.toNat) ↔
      ∃ size, limit = some size ∧ 0 < size ∧ P size.toNat (offset.toNat / size.toNat + 1) := by
  match page with
  | none =>
    constructor
    · rintro ⟨pg, hpg, -⟩
      cases hpg
    · rintro ⟨size, hlimit, hsize, -⟩
      exact absurd h (not_unlimited hlimit hsize)
  | some pg =>
    obtain ⟨hlimit, hsize, hnumber⟩ := h
    constructor
    · rintro ⟨pg', hpg, hP⟩
      obtain rfl := Option.some.inj hpg
      exact ⟨pg.size, hlimit, hsize, hnumber ▸ hP⟩
    · rintro ⟨size, hlimit', -, hP⟩
      rw [hlimit] at hlimit'
      obtain rfl := Option.some.inj hlimit'
      exact ⟨pg, rfl, hnumber ▸ hP⟩

/-- there are fewer full pages before an offset than words, but for the last row of all -/
theorem full_pages_lt (size offset : UInt64) (hs : 0 < size)
    (h : ¬ (size = 1 ∧ offset.toNat = 18446744073709551615)) :
    (offset / size).toNat + 1 < UInt64.size := by
  have hoffset : offset.toNat < UInt64.size := offset.toNat_lt_size
  have hpos : 0 < size.toNat := UInt64.lt_iff_toNat_lt.mp hs
  rw [UInt64.toNat_div]
  by_cases h1 : size.toNat = 1
  · have hsize : size = 1 := UInt64.toNat_inj.mp h1
    have hlast : offset.toNat ≠ 18446744073709551615 := fun e => h ⟨hsize, e⟩
    rw [h1, Nat.div_one]
    simp only [UInt64.size] at hoffset ⊢
    omega
  · -- pages of two rows or more halve the offset at least
    have hle : offset.toNat / size.toNat ≤ offset.toNat / 2 :=
      Nat.div_le_div_left (by omega) two_pos
    simp only [UInt64.size] at hoffset ⊢
    omega

theorem withoutLimit_of_pos (offset : UInt64) (h : 0 < offset) :
    withoutLimit offset = .error (.offsetWithoutLimit offset) := by
  unfold withoutLimit
  rw [if_neg (fun e => absurd h (by rw [e]; decide))]

theorem ofRows_of_off (limit : Option UInt64) (offset : UInt64) (h : Off limit offset) :
    ∃ e, ofRows limit offset = .error e ∧ e.kind = .invalidPagination := by
  obtain ⟨hpos, rfl | rfl⟩ | ⟨rfl, hlast⟩ := h
  · exact ⟨_, withoutLimit_of_pos offset hpos, rfl⟩
  · exact ⟨_, withoutLimit_of_pos offset hpos, rfl⟩
  · have hoffset : offset = 18446744073709551615 := UInt64.toNat_inj.mp hlast
    subst hoffset
    exact ⟨_, rfl, rfl⟩

theorem ofRows_of_not_off (limit : Option UInt64) (offset : UInt64) (h : ¬ Off limit offset) :
    ∃ page, ofRows limit offset = .ok page ∧ IsOf limit offset page := by
  unfold Off at h
  rw [not_or] at h
  obtain ⟨hskip, hlast⟩ := h
  by_cases hlimit : limit = none ∨ limit = some 0
  · have hz : offset = 0 := by
      by_contra hne
      exact hskip ⟨UInt64.pos_iff_ne_zero.mpr hne, hlimit⟩
    subst hz
    refine ⟨none, ?_, hlimit⟩
    rcases hlimit with rfl | rfl <;> rfl
  · rw [not_or] at hlimit
    obtain ⟨size, rfl⟩ := Option.ne_none_iff_exists'.mp hlimit.1
    have hne : size ≠ 0 := fun e => hlimit.2 (congrArg some e)
    have hs : 0 < size := UInt64.pos_iff_ne_zero.mpr hne
    have hlt := full_pages_lt size offset hs fun ⟨h1, h2⟩ => hlast ⟨congrArg some h1, h2⟩
    refine ⟨some ⟨size, offset / size + 1⟩, ?_, rfl, hs, ?_⟩
    · simp only [ofRows]
      rw [if_neg hne, if_pos hlt]
    · show (offset / size + 1).toNat = _
      rw [UInt64.toNat_add, UInt64.toNat_div] at *
      exact Nat.mod_eq_of_lt hlt

end RestQuery.Page

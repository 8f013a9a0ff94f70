import Mathlib
import RestQuery.Relation.Matching

/-!
# What stands under a name

Looking a name up says nothing about the order in which a map lists its pairs: a name that is
there is found, and slack finds the one name that counts the same, if there is just one.

* `OnlySimilar`                     the one name of a map that counts the same;
* `onlySimilar?_eq_some_iff`, `onlySimilar?_eq_none_iff`   slack, by the pairs of the map alone;
* `lookup_perm`                     another order of the pairs;
* `lookup_exact_or_only`            both ways of matching.
-/

namespace RestQuery.Matching

variable {α : Type} {m : NameMap α} {name : String}

/-- what is found stands under a name that counts the same -/
theorem mem_of_lookup {matching : Matching} {a : α} (h : matching.lookup m name = some a) :
    ∃ k, (k, a) ∈ m ∧ skeleton k = skeleton name := by
  have hexact (h : NameMap.find? name m = some a) :
      ∃ k, (k, a) ∈ m ∧ skeleton k = skeleton name := ⟨name, NameMap.mem_of_find? h, rfl⟩
  cases matching with
  | strict => exact hexact h
  | flexible =>
    unfold lookup at h
    cases hfind : NameMap.find? name m with
    | some b =>
      simp only [hfind] at h
      exact hexact (hfind.trans h)
    | none =>
      simp only [hfind, onlySimilar?] at h
      split at h
      · next p hp =>
        have hmem : p ∈ m.filter fun p => skeleton p.1 == skeleton name := by simp [hp]
        cases h
        obtain ⟨hmem, hsimilar⟩ := List.mem_filter.mp hmem
        exact ⟨p.1, hmem, beq_iff_eq.mp hsimilar⟩
      · cases h

/-! ## names that count the same -/

/-- `k` is a name of the map that counts the same as `name`, and there is no other one -/
structure OnlySimilar (m : NameMap α) (name k : String) : Prop where
  mem : k ∈ m.map Prod.fst
  similar : skeleton k = skeleton name
  only : ∀ k' ∈ m.map Prod.fst, skeleton k' = skeleton name → k' = k

/-- no name counts the same, or more than one does -/
def NoneOrSeveral (m : NameMap α) (name : String) : Prop :=
  (∀ k ∈ m.map Prod.fst, skeleton k ≠ skeleton name) ∨
    ∃ k ∈ m.map Prod.fst, ∃ k' ∈ m.map Prod.fst,
      k ≠ k' ∧ skeleton k = skeleton name ∧ skeleton k' = skeleton name

theorem noneOrSeveral_iff : NoneOrSeveral m name ↔ ¬ ∃ k, OnlySimilar m name k := by
  constructor
  · rintro (hnone | ⟨k, hk, k', hk', hne, hs, hs'⟩) ⟨l, hl⟩
    · exact hnone l hl.mem hl.similar
    · exact hne ((hl.only k hk hs).trans (hl.only k' hk' hs').symm)
  · intro hnot
    by_cases hnone : ∀ k ∈ m.map Prod.fst, skeleton k ≠ skeleton name
    · exact .inl hnone
    · right
      push Not at hnone
      obtain ⟨k, hk, hs⟩ := hnone
      -- this name is not the only one
      by_contra hother
      refine hnot ⟨k, hk, hs, fun k' hk' hs' => ?_⟩
      by_contra hne
      exact hother ⟨k, hk, k', hk', Ne.symm hne, hs, hs'⟩

theorem OnlySimilar.perm {m' : NameMap α} {k : String} (h : m.Perm m')
    (ho : OnlySimilar m name k) : OnlySimilar m' name k where
  mem := (h.map Prod.fst).mem_iff.mp ho.mem
  similar := ho.similar
  only k' hk' := ho.only k' ((h.map Prod.fst).mem_iff.mpr hk')

/-! ## slack -/

section
variable (hm : (m.map Prod.fst).Nodup)
include hm

theorem onlySimilar?_of_only {k : String} {a : α} (hmem : (k, a) ∈ m)
    (ho : OnlySimilar m name k) : onlySimilar? m name = some a := by
  have hfilter : m.filter (fun p => skeleton p.1 == skeleton name) = [(k, a)] := by
    rw [← List.perm_singleton, List.perm_ext_iff_of_nodup (hm.of_map.filter _)
      (List.nodup_singleton _)]
    intro p
    rw [List.mem_filter, List.mem_singleton, beq_iff_eq]
    constructor
    · rintro ⟨hp, hs⟩
      exact List.inj_on_of_nodup_map hm hp hmem (ho.only p.1 (List.mem_map_of_mem hp) hs)
    · rintro rfl
      exact ⟨hmem, ho.similar⟩
  rw [onlySimilar?, hfilter]

theorem onlySimilar?_eq_some_iff (a : α) :
    onlySimilar? m name = some a ↔ ∃ k, (k, a) ∈ m ∧ OnlySimilar m name k := by
  refine ⟨fun h => ?_, fun ⟨k, hmem, ho⟩ => onlySimilar?_of_only hm hmem ho⟩
  unfold onlySimilar? at h
  split at h
  · next p hfilter =>
    cases h
    have hall : ∀ q ∈ m, skeleton q.1 = skeleton name → q = p := by
      intro q hq hs
      have hmem : q ∈ m.filter fun p => skeleton p.1 == skeleton name :=
        List.mem_filter.mpr ⟨hq, beq_iff_eq.mpr hs⟩
      rw [hfilter] at hmem
      exact List.mem_singleton.mp hmem
    have hp : p ∈ m.filter fun p => skeleton p.1 == skeleton name := by
      rw [hfilter]
      exact List.mem_singleton_self p
    obtain ⟨hp, hs⟩ := List.mem_filter.mp hp
    refine ⟨p.1, hp, List.mem_map_of_mem hp, beq_iff_eq.mp hs, fun k' hk' hs' => ?_⟩
    obtain ⟨q, hq, rfl⟩ := List.mem_map.mp hk'
    rw [hall q hq hs']
  · cases h

theorem onlySimilar?_eq_none_iff : onlySimilar? m name = none ↔ NoneOrSeveral m name := by
  rw [noneOrSeveral_iff, Option.eq_none_iff_forall_ne_some]
  constructor
  · rintro h ⟨k, ho⟩
    obtain ⟨p, hp, rfl⟩ := List.mem_map.mp ho.mem
    exact h p.2 (onlySimilar?_of_only hm hp ho)
  · intro h a ha
    obtain ⟨k, -, ho⟩ := (onlySimilar?_eq_some_iff hm a).mp ha
    exact h ⟨k, ho⟩

/-! ## both ways of matching -/

theorem lookup_flexible_eq_some_iff (a : α) :
    lookup .flexible m name = some a ↔
      (name, a) ∈ m ∨ name ∉ m.map Prod.fst ∧ ∃ k, (k, a) ∈ m ∧ OnlySimilar m name k := by
  rw [← onlySimilar?_eq_some_iff hm, ← NameMap.find?_eq_some_iff hm,
    ← NameMap.find?_eq_none_iff name m]
  unfold lookup
  cases NameMap.find? name m with
  | none => simp
  | some b => simp

theorem lookup_flexible_eq_none_iff :
    lookup .flexible m name = none ↔ name ∉ m.map Prod.fst ∧ NoneOrSeveral m name := by
  rw [← onlySimilar?_eq_none_iff hm, ← NameMap.find?_eq_none_iff name m]
  unfold lookup
  cases NameMap.find? name m with
  | none => simp
  | some b => simp

theorem lookup_perm (matching : Matching) {m' : NameMap α} (h : m.Perm m') :
    lookup matching m' name = lookup matching m name := by
  have hm' : (m'.map Prod.fst).Nodup := (h.map Prod.fst).nodup_iff.mp hm
  apply Option.ext
  intro a
  cases matching with
  | strict =>
    show NameMap.find? name m' = some a ↔ NameMap.find? name m = some a
    rw [NameMap.find?_eq_some_iff hm', NameMap.find?_eq_some_iff hm, h.mem_iff]
  | flexible =>
    rw [lookup_flexible_eq_some_iff hm', lookup_flexible_eq_some_iff hm, h.mem_iff,
      (h.map Prod.fst).mem_iff]
    refine or_congr_right (and_congr_right fun _ => exists_congr fun k => ?_)
    rw [h.mem_iff]
    exact and_congr_right fun _ => ⟨.perm h.symm, .perm h⟩

/--
**Looking a name up.**  An exact look-up finds what stands under just this name.  With slack, the
name itself comes first; where it is missing, the one name that counts the same is found, and
nothing is found when there is none or more than one.  The order of the pairs never matters.
-/
theorem lookup_exact_or_only (name : String) :
    (∀ a, lookup .strict m name = some a ↔ (name, a) ∈ m) ∧
    (lookup .strict m name = none ↔ name ∉ m.map Prod.fst) ∧
    (∀ a, lookup .flexible m name = some a ↔
      (name, a) ∈ m ∨ name ∉ m.map Prod.fst ∧ ∃ k, (k, a) ∈ m ∧ OnlySimilar m name k) ∧
    (lookup .flexible m name = none ↔ name ∉ m.map Prod.fst ∧ NoneOrSeveral m name) ∧
    ∀ matching m', m.Perm m' → lookup matching m' name = lookup matching m name :=
  ⟨NameMap.find?_eq_some_iff hm name, NameMap.find?_eq_none_iff name m,
    lookup_flexible_eq_some_iff hm, lookup_flexible_eq_none_iff hm,
    fun matching _ h => lookup_perm hm matching h⟩

end

/-- two names that count the same, one that slack finds, and two of which nothing counts -/
def priceLists : NameMap Nat :=
  [("priceList", 2), ("Price List", 3), ("vat_rate", 4), ("-", 5), ("_", 6)]

theorem lookup_exact_or_only_priceLists :
    (priceLists.map Prod.fst).Nodup ∧ priceLists.Perm priceLists.reverse ∧
      lookup .flexible priceLists.reverse "vatRate" = some 4 ∧
      lookup .flexible priceLists "priceList" = some 2 ∧
      NoneOrSeveral priceLists "price_list" ∧ NoneOrSeveral priceLists "" := by
  have hm : (priceLists.map Prod.fst).Nodup := by decide
  have hperm : priceLists.Perm priceLists.reverse := (List.reverse_perm _).symm
  obtain ⟨-, -, hsome, -, horder⟩ := lookup_exact_or_only hm "vatRate"
  refine ⟨hm, hperm, ?_, ?_, ?_, ?_⟩
  · rw [horder .flexible _ hperm]
    rfl
  · exact ((lookup_exact_or_only hm "priceList").2.2.1 2).mpr (.inl List.mem_cons_self)
  · exact ((lookup_exact_or_only hm "price_list").2.2.2.1.mp rfl).2
  · exact ((lookup_exact_or_only hm "").2.2.2.1.mp rfl).2

end RestQuery.Matching

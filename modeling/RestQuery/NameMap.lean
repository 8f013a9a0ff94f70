/-!
# Maps from names

A map from names to things is the list of its pairs.  Every map that is built with `insert` from
the empty one lists its names in ascending order, each once; names are ordered by code points,
which is also the order of their UTF-8 bytes.  The laws of the operations hold for any list of
pairs.

* `NameMap.insert`, `NameMap.erase`, `NameMap.find?`   the operations;
* `NameMap.ofList`       the map of a list of pairs, the last one winning for a name;
* `NameMap.Ascending`    names strictly ascending.
-/

namespace RestQuery

/-- a map from names, as the list of its pairs -/
abbrev NameMap (α : Type) := List (String × α)

namespace NameMap

variable {α : Type}

/-- put a pair at its place, over the pair with the same name -/
def insert (name : String) (value : α) : NameMap α → NameMap α
  | [] => [(name, value)]
  | (n, v) :: rest =>
    if name = n then (name, value) :: rest
    else if name < n then (name, value) :: (n, v) :: rest
    else (n, v) :: insert name value rest

/-- leave out every pair of a name -/
def erase (name : String) (m : NameMap α) : NameMap α := m.filter fun p => p.1 ≠ name

/-- what stands under a name -/
def find? (name : String) : NameMap α → Option α
  | [] => none
  | (n, v) :: rest => if name = n then some v else find? name rest

/-- the map of a list of pairs, the last one winning for a name -/
def ofList (l : List (String × α)) : NameMap α := l.foldl (fun m p => insert p.1 p.2 m) []

/-- strictly ascending names -/
def Ascending (m : NameMap α) : Prop := m.Pairwise fun p q => p.1 < q.1

/-! ## operations and look-up -/

theorem find?_nil (name : String) : find? name ([] : NameMap α) = none := rfl

theorem find?_cons (name n : String) (v : α) (m : NameMap α) :
    find? name ((n, v) :: m) = if name = n then some v else find? name m := rfl

theorem insert_nil (name : String) (value : α) : insert name value [] = [(name, value)] := rfl

theorem find?_insert (name : String) (value : α) (k : String) (m : NameMap α) :
    find? k (insert name value m) = if k = name then some value else find? k m := by
  induction m with
  | nil => rw [insert_nil, find?_cons]
  | cons p m ih =>
    obtain ⟨n, v⟩ := p
    simp only [insert]
    split
    · next h => subst h; simp only [find?_cons]; split <;> rfl
    · next h =>
      split
      · rw [find?_cons]
      · simp only [find?_cons, ih]
        split
        · next hk => rw [hk, if_neg (fun e => h e.symm)]
        · rfl

theorem find?_eq_none_iff (name : String) (m : NameMap α) :
    find? name m = none ↔ name ∉ m.map Prod.fst := by
  induction m with
  | nil => simp [find?]
  | cons p m ih =>
    obtain ⟨n, v⟩ := p
    rw [find?_cons, List.map_cons, List.mem_cons, not_or]
    split
    · next h => simp [h]
    · next h => rw [ih, and_iff_right h]

theorem mem_of_find? {name : String} {m : NameMap α} {a : α} (h : find? name m = some a) :
    (name, a) ∈ m := by
  induction m with
  | nil => cases h
  | cons p m ih =>
    rw [find?_cons] at h
    split at h
    · next hname =>
      cases h
      exact hname ▸ List.mem_cons_self
    · exact List.mem_cons_of_mem _ (ih h)

theorem find?_map {β : Type} (f : α → β) (name : String) (m : NameMap α) :
    find? name (m.map fun p => (p.1, f p.2)) = (find? name m).map f := by
  induction m with
  | nil => rfl
  | cons p m ih =>
    rw [List.map_cons, find?_cons, ih, find?_cons]
    split <;> rfl

theorem insert_map {β : Type} (f : α → β) (name : String) (value : α) (m : NameMap α) :
    (insert name value m).map (fun p => (p.1, f p.2)) =
      insert name (f value) (m.map fun p => (p.1, f p.2)) := by
  induction m with
  | nil => rfl
  | cons p m ih =>
    obtain ⟨n, v⟩ := p
    simp only [insert, List.map_cons]
    split
    · rfl
    · split
      · rfl
      · rw [List.map_cons, ih]

/-- in a map, where each name stands once, the pairs are what is found -/
theorem find?_eq_some_iff {m : NameMap α} (hm : (m.map Prod.fst).Nodup) (name : String) (a : α) :
    find? name m = some a ↔ (name, a) ∈ m := by
  induction m with
  | nil => simp [find?]
  | cons p m ih =>
    obtain ⟨n, v⟩ := p
    obtain ⟨hn, hm⟩ := List.nodup_cons.mp hm
    rw [find?_cons, List.mem_cons, Prod.mk.injEq]
    split
    · next h =>
      subst h
      have hnot : (name, a) ∉ m := fun hmem => hn (List.mem_map.mpr ⟨_, hmem, rfl⟩)
      simp only [hnot, or_false, true_and, Option.some.injEq, eq_comm]
    · next h => simp only [h, false_and, false_or, ih hm]

theorem find?_erase (name k : String) (m : NameMap α) :
    find? k (erase name m) = if k = name then none else find? k m := by
  induction m with
  | nil => exact (ite_self none).symm
  | cons p m ih =>
    obtain ⟨n, v⟩ := p
    by_cases h : n = name
    · subst h
      have e : erase n ((n, v) :: m) = erase n m := by simp [erase]
      rw [e, ih, find?_cons]
      split <;> simp_all
    · have e : erase name ((n, v) :: m) = (n, v) :: erase name m := by simp [erase, h]
      rw [e, find?_cons, find?_cons, ih]
      by_cases hk : k = n
      · subst hk; simp [h]
      · simp [hk]

/-! ## insertion after insertion -/

theorem lt_of_not_lt {a b : String} (hne : a ≠ b) (h : ¬ a < b) : b < a := by
  rw [← String.not_le]
  exact fun hle => hne (String.le_antisymm hle (String.not_lt.mp h))

theorem ne_of_lt {a b : String} (h : a < b) : a ≠ b := fun e => String.lt_irrefl b (e ▸ h)

theorem insert_cons_self (name : String) (value v : α) (m : NameMap α) :
    insert name value ((name, v) :: m) = (name, value) :: m := if_pos rfl

theorem insert_cons_of_lt {name n : String} (h : name < n) (value v : α) (m : NameMap α) :
    insert name value ((n, v) :: m) = (name, value) :: (n, v) :: m := by
  rw [insert, if_neg (ne_of_lt h), if_pos h]

theorem insert_cons_of_gt {name n : String} (h : n < name) (value v : α) (m : NameMap α) :
    insert name value ((n, v) :: m) = (n, v) :: insert name value m := by
  rw [insert, if_neg (ne_of_lt h).symm, if_neg (String.lt_asymm h)]

theorem insert_insert (name : String) (value v : α) (m : NameMap α) :
    insert name value (insert name v m) = insert name value m := by
  induction m with
  | nil => exact insert_cons_self name value v []
  | cons p m ih =>
    obtain ⟨n, x⟩ := p
    by_cases he : name = n
    · subst he
      rw [insert_cons_self, insert_cons_self, insert_cons_self]
    · by_cases hlt : name < n
      · rw [insert_cons_of_lt hlt, insert_cons_of_lt hlt, insert_cons_self]
      · have hgt : n < name := lt_of_not_lt he hlt
        rw [insert_cons_of_gt hgt, insert_cons_of_gt hgt, insert_cons_of_gt hgt, ih]

theorem insert_comm_of_lt {a b : String} (h : a < b) (x y : α) (m : NameMap α) :
    insert a x (insert b y m) = insert b y (insert a x m) := by
  induction m with
  | nil => rw [insert_nil, insert_nil, insert_cons_of_lt h, insert_cons_of_gt h, insert_nil]
  | cons p m ih =>
    obtain ⟨n, v⟩ := p
    by_cases hb : b < n ∨ b = n
    · -- the smaller name is put in front of whatever the greater one leaves there
      have ha : a < n := by
        rcases hb with hb | rfl
        · exact String.lt_trans h hb
        · exact h
      rw [insert_cons_of_lt ha, insert_cons_of_gt h]
      rcases hb with hb | rfl
      · rw [insert_cons_of_lt hb, insert_cons_of_lt h]
      · rw [insert_cons_self, insert_cons_of_lt h]
    · have hb : n < b := lt_of_not_lt (fun e => hb (.inr e)) fun hlt => hb (.inl hlt)
      rw [insert_cons_of_gt hb]
      by_cases he : a = n
      · subst he
        rw [insert_cons_self, insert_cons_self, insert_cons_of_gt hb]
      · by_cases hlt : a < n
        · rw [insert_cons_of_lt hlt, insert_cons_of_lt hlt, insert_cons_of_gt h,
            insert_cons_of_gt hb]
        · have hgt : n < a := lt_of_not_lt he hlt
          rw [insert_cons_of_gt hgt, insert_cons_of_gt hgt, ih, insert_cons_of_gt hb]

theorem insert_comm {a b : String} (h : a ≠ b) (x y : α) (m : NameMap α) :
    insert a x (insert b y m) = insert b y (insert a x m) := by
  by_cases hlt : a < b
  · exact insert_comm_of_lt hlt x y m
  · exact (insert_comm_of_lt (lt_of_not_lt h hlt) y x m).symm

/-! ## ascending names -/

theorem mem_insert {name : String} {value : α} {m : NameMap α} {p : String × α}
    (h : p ∈ insert name value m) : p = (name, value) ∨ p ∈ m := by
  induction m with
  | nil => exact .inl (List.mem_singleton.mp h)
  | cons q m ih =>
    obtain ⟨n, v⟩ := q
    simp only [insert] at h
    split at h
    · exact (List.mem_cons.mp h).imp id (List.mem_cons_of_mem _)
    · split at h
      · exact List.mem_cons.mp h
      · rcases List.mem_cons.mp h with rfl | h
        · exact .inr List.mem_cons_self
        · exact (ih h).imp id (List.mem_cons_of_mem _)

theorem mem_foldl {l m : List (String × α)} {p : String × α}
    (h : p ∈ l.foldl (fun m p => insert p.1 p.2 m) m) : p ∈ l ∨ p ∈ m := by
  induction l generalizing m with
  | nil => exact .inr h
  | cons q l ih =>
    rcases ih h with hl | hm
    · exact .inl (List.mem_cons_of_mem _ hl)
    · rcases mem_insert hm with rfl | hm
      · exact .inl List.mem_cons_self
      · exact .inr hm

theorem mem_of_mem_ofList {l : List (String × α)} {p : String × α} (h : p ∈ ofList l) : p ∈ l :=
  (mem_foldl h).resolve_right List.not_mem_nil

theorem ascending_insert (name : String) (value : α) {m : NameMap α} (h : Ascending m) :
    Ascending (insert name value m) := by
  induction m with
  | nil => exact List.pairwise_singleton _ _
  | cons q m ih =>
    obtain ⟨n, v⟩ := q
    obtain ⟨hq, hm⟩ := List.pairwise_cons.mp h
    simp only [insert]
    split
    · next e =>
      subst e
      exact List.pairwise_cons.mpr ⟨hq, hm⟩
    · next hne =>
      split
      · next hlt =>
        refine List.pairwise_cons.mpr ⟨fun p hp => ?_, h⟩
        rcases List.mem_cons.mp hp with rfl | hp
        · exact hlt
        · exact String.lt_trans hlt (hq p hp)
      · next hge =>
        refine List.pairwise_cons.mpr ⟨fun p hp => ?_, ih hm⟩
        rcases mem_insert hp with rfl | hp
        · exact lt_of_not_lt hne hge
        · exact hq p hp

theorem nodup_of_ascending {m : NameMap α} (h : Ascending m) : (m.map Prod.fst).Nodup :=
  List.pairwise_map.mpr (h.imp ne_of_lt)

theorem ascending_foldl (l : List (String × α)) {m : NameMap α} (h : Ascending m) :
    Ascending (l.foldl (fun m p => insert p.1 p.2 m) m) := by
  induction l generalizing m with
  | nil => exact h
  | cons p l ih => exact ih (ascending_insert p.1 p.2 h)

theorem ascending_ofList (l : List (String × α)) : Ascending (ofList l) :=
  ascending_foldl l List.Pairwise.nil

theorem insert_of_lt (name : String) (value : α) (m : NameMap α) (h : ∀ p ∈ m, p.1 < name) :
    insert name value m = m ++ [(name, value)] := by
  induction m with
  | nil => rfl
  | cons q m ih =>
    obtain ⟨n, v⟩ := q
    have hn : n < name := h (n, v) List.mem_cons_self
    have hne : name ≠ n := fun e => String.lt_irrefl n (e ▸ hn)
    rw [insert, if_neg hne, if_neg (String.lt_asymm hn),
      ih fun p hp => h p (List.mem_cons_of_mem _ hp), List.cons_append]

theorem foldl_of_ascending (l m : List (String × α)) (h : Ascending (m ++ l)) :
    l.foldl (fun m p => insert p.1 p.2 m) m = m ++ l := by
  induction l generalizing m with
  | nil => exact (List.append_nil m).symm
  | cons p l ih =>
    have hp : ∀ q ∈ m, q.1 < p.1 := fun q hq =>
      (List.pairwise_append.mp h).2.2 q hq p List.mem_cons_self
    rw [List.foldl_cons, insert_of_lt p.1 p.2 m hp, ih, List.append_assoc, List.singleton_append]
    rw [List.append_assoc, List.singleton_append]
    exact h

/-- pairs that are in order are a map already -/
theorem ofList_of_ascending (l : List (String × α)) (h : Ascending l) : ofList l = l :=
  foldl_of_ascending l [] h

end NameMap

end RestQuery

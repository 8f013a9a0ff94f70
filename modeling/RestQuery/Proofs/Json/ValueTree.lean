import Mathlib
import RestQuery.Json.Value
import RestQuery.Proofs.Json.TreeText

/-!
# Values and their trees

A value without doubles is read back from the tree that it is written as, when no more containers
nest in the tree than there is room for.

* `Tree.depth`                 how many containers nest;
* `Value.FloatFree`            no number is a double;
* `Value.Sorted`               every object lists its names in ascending order, as a map does;
* `Value.ofTree?_toTree`       reading what was written;
* `Value.Fits`                 sorted, with no more containers nested than there is room for;
* `Value.ofTree?_fits`         whatever is read with so much room fits it.
-/

namespace RestQuery.Json

/-! ## nesting -/

mutual

/-- how many containers nest in a tree -/
def Tree.depth : Tree → Nat
  | .arr ts => Tree.depthOfItems ts + 1
  | .obj ms => Tree.depthOfMembers ms + 1
  | .null | .bool _ | .num _ | .str _ => 0

def Tree.depthOfItems : List Tree → Nat
  | [] => 0
  | t :: ts => max t.depth (Tree.depthOfItems ts)

def Tree.depthOfMembers : List (List CodePoint × Tree) → Nat
  | [] => 0
  | (_, t) :: ms => max t.depth (Tree.depthOfMembers ms)

end

namespace Tree

theorem depthOfItems_le_iff (ts : List Tree) (room : Nat) :
    depthOfItems ts ≤ room ↔ ∀ t ∈ ts, t.depth ≤ room := by
  induction ts with
  | nil => simp [depthOfItems]
  | cons t ts ih => rw [depthOfItems, max_le_iff, ih, List.forall_mem_cons]

theorem depthOfMembers_le_iff (ms : List (List CodePoint × Tree)) (room : Nat) :
    depthOfMembers ms ≤ room ↔ ∀ m ∈ ms, m.2.depth ≤ room := by
  induction ms with
  | nil => simp [depthOfMembers]
  | cons m ms ih => rw [depthOfMembers, max_le_iff, ih, List.forall_mem_cons]

/-- a container takes one level of the room -/
theorem succ_le_room_iff (depth room : Nat) :
    depth + 1 ≤ room ↔ ∃ inner, room = inner + 1 ∧ depth ≤ inner := by
  constructor
  · intro h
    exact ⟨room - 1, by omega, by omega⟩
  · rintro ⟨inner, rfl, h⟩
    exact Nat.succ_le_succ h

theorem depth_arr_le_iff (ts : List Tree) (room : Nat) :
    (Tree.arr ts).depth ≤ room ↔ ∃ inner, room = inner + 1 ∧ ∀ t ∈ ts, t.depth ≤ inner := by
  rw [depth, succ_le_room_iff]
  simp only [depthOfItems_le_iff]

theorem depth_obj_le_iff (ms : List (List CodePoint × Tree)) (room : Nat) :
    (Tree.obj ms).depth ≤ room ↔ ∃ inner, room = inner + 1 ∧ ∀ m ∈ ms, m.2.depth ≤ inner := by
  rw [depth, succ_le_room_iff]
  simp only [depthOfMembers_le_iff]

end Tree

/-! ## values -/

/-- induction over values, with the items and members of containers as members of lists -/
theorem Value.induct {P : Value → Prop} (null : P .null) (bool : ∀ b, P (.bool b))
    (num : ∀ n, P (.num n)) (str : ∀ s, P (.str s))
    (arr : ∀ vs, (∀ v ∈ vs, P v) → P (.arr vs))
    (obj : ∀ ms : List (String × Value), (∀ m ∈ ms, P m.2) → P (.obj ms)) (v : Value) : P v :=
  @Value.rec P (fun vs => ∀ v ∈ vs, P v) (fun ms => ∀ m ∈ ms, P m.2) (fun m => P m.2)
    null bool num str arr obj
    (fun _ h => absurd h List.not_mem_nil)
    (fun _ _ hv hvs => List.forall_mem_cons.mpr ⟨hv, hvs⟩)
    (fun _ h => absurd h List.not_mem_nil)
    (fun _ _ hm hms => List.forall_mem_cons.mpr ⟨hm, hms⟩)
    (fun _ _ h => h) v

namespace Value

/-- no number of the value is a double -/
inductive FloatFree : Value → Prop
  | null : FloatFree .null
  | bool (b : Bool) : FloatFree (.bool b)
  | int (i : Int) (fits : FitsWord i) : FloatFree (.num (.int i fits))
  | str (s : String) : FloatFree (.str s)
  | arr {vs : List Value} (h : ∀ v ∈ vs, FloatFree v) : FloatFree (.arr vs)
  | obj {ms : List (String × Value)} (h : ∀ m ∈ ms, FloatFree m.2) : FloatFree (.obj ms)

/-- every object of the value is a map, names ascending and each once -/
inductive Sorted : Value → Prop
  | null : Sorted .null
  | bool (b : Bool) : Sorted (.bool b)
  | num (n : Number) : Sorted (.num n)
  | str (s : String) : Sorted (.str s)
  | arr {vs : List Value} (h : ∀ v ∈ vs, Sorted v) : Sorted (.arr vs)
  | obj {ms : List (String × Value)} (hm : NameMap.Ascending ms) (h : ∀ m ∈ ms, Sorted m.2) :
    Sorted (.obj ms)

attribute [simp] FloatFree.null FloatFree.bool FloatFree.int FloatFree.str Sorted.null Sorted.bool
  Sorted.num Sorted.str

@[simp] theorem floatFree_arr_iff {vs : List Value} :
    FloatFree (.arr vs) ↔ ∀ v ∈ vs, FloatFree v :=
  ⟨fun h => by cases h with | arr h => exact h, .arr⟩

@[simp] theorem floatFree_obj_iff {ms : List (String × Value)} :
    FloatFree (.obj ms) ↔ ∀ m ∈ ms, FloatFree m.2 :=
  ⟨fun h => by cases h with | obj h => exact h, .obj⟩

@[simp] theorem sorted_arr_iff {vs : List Value} : Sorted (.arr vs) ↔ ∀ v ∈ vs, Sorted v :=
  ⟨fun h => by cases h with | arr h => exact h, .arr⟩

@[simp] theorem sorted_obj_iff {ms : List (String × Value)} :
    Sorted (.obj ms) ↔ NameMap.Ascending ms ∧ ∀ m ∈ ms, Sorted m.2 :=
  ⟨fun h => by cases h with | obj hm h => exact ⟨hm, h⟩, fun h => .obj h.1 h.2⟩

/-! ## reading what was written -/

theorem ofTree?_text (room : Nat) (s : String) : ofTree? room (.text s) = some (.str s) := by
  rw [Tree.text, ofTree?, CodePoint.decode?_ofString, Option.map_some]

theorem ofTrees?_toTrees {room : Nat} {vs : List Value}
    (h : ∀ v ∈ vs, ofTree? room v.toTree = some v) : ofTrees? room (toTrees vs) = some vs := by
  induction vs with
  | nil => rfl
  | cons v vs ih =>
    obtain ⟨hv, hvs⟩ := List.forall_mem_cons.mp h
    simp only [toTrees, ofTrees?, hv, ih hvs]

theorem ofMembers?_toMembers {room : Nat} {ms : List (String × Value)}
    (h : ∀ m ∈ ms, ofTree? room m.2.toTree = some m.2) :
    ofMembers? room (toMembers ms) = some ms := by
  induction ms with
  | nil => rfl
  | cons m ms ih =>
    obtain ⟨k, v⟩ := m
    obtain ⟨hv, hms⟩ := List.forall_mem_cons.mp h
    simp only [toMembers, ofMembers?, CodePoint.decode?_ofString, hv, ih hms]

theorem depth_toTrees {vs : List Value} {room : Nat} (h : (Value.arr vs).toTree.depth ≤ room) :
    ∃ inner, room = inner + 1 ∧ ∀ v ∈ vs, v.toTree.depth ≤ inner := by
  rw [toTree, toTrees_eq_map, Tree.depth_arr_le_iff] at h
  simpa only [List.forall_mem_map] using h

theorem depth_toMembers {ms : List (String × Value)} {room : Nat}
    (h : (Value.obj ms).toTree.depth ≤ room) :
    ∃ inner, room = inner + 1 ∧ ∀ m ∈ ms, m.2.toTree.depth ≤ inner := by
  rw [toTree, toMembers_eq_map, Tree.depth_obj_le_iff] at h
  simpa only [List.forall_mem_map] using h

theorem ofTree?_toTree {v : Value} (hf : v.FloatFree) (hs : v.Sorted) {room : Nat}
    (hd : v.toTree.depth ≤ room) : ofTree? room v.toTree = some v := by
  -- each container takes one level of the room, so the induction is over every room
  induction hf generalizing room with
  | null => simp only [toTree, ofTree?]
  | bool b => simp only [toTree, ofTree?]
  | int i fits =>
    simp only [toTree, ofTree?, Number.ofNumeral?_numeral_int i fits, Option.map_some]
  | str s => rw [toTree, ofTree?_text]
  | arr _ ih =>
    obtain ⟨inner, rfl, hitems⟩ := depth_toTrees hd
    have hvs := ofTrees?_toTrees fun v hv => ih v hv (sorted_arr_iff.mp hs v hv) (hitems v hv)
    simp only [toTree, ofTree?, hvs, Option.map_some]
  | obj _ ih =>
    obtain ⟨inner, rfl, hmembers⟩ := depth_toMembers hd
    obtain ⟨hascending, hsorted⟩ := sorted_obj_iff.mp hs
    have hms := ofMembers?_toMembers fun m hm => ih m hm (hsorted m hm) (hmembers m hm)
    simp only [toTree, ofTree?, hms, Option.map_some, NameMap.ofList_of_ascending _ hascending]

/-! ## whatever is read is sorted and has room -/

section
variable {P : Value → Prop} {room : Nat}

/-- what holds of everything that is read from items holds of the values of an array -/
theorem ofTrees?_forall {ts : List Tree} (h : ∀ t ∈ ts, ∀ v, ofTree? room t = some v → P v)
    {vs : List Value} (hvs : ofTrees? room ts = some vs) : ∀ v ∈ vs, P v := by
  induction ts generalizing vs with
  | nil => cases hvs; exact fun v hv => absurd hv List.not_mem_nil
  | cons t ts ih =>
    obtain ⟨ht, hts⟩ := List.forall_mem_cons.mp h
    rw [ofTrees?] at hvs
    split at hvs
    · next v rest hv hrest =>
      cases hvs
      exact List.forall_mem_cons.mpr ⟨ht v hv, ih hts hrest⟩
    · cases hvs

theorem ofMembers?_forall {ms : List (List CodePoint × Tree)}
    (h : ∀ m ∈ ms, ∀ v, ofTree? room m.2 = some v → P v) {l : List (String × Value)}
    (hl : ofMembers? room ms = some l) : ∀ p ∈ l, P p.2 := by
  induction ms generalizing l with
  | nil => cases hl; exact fun p hp => absurd hp List.not_mem_nil
  | cons m ms ih =>
    obtain ⟨k, t⟩ := m
    obtain ⟨ht, hms⟩ := List.forall_mem_cons.mp h
    rw [ofMembers?] at hl
    split at hl
    · next name v rest _ hv hrest =>
      cases hl
      exact List.forall_mem_cons.mpr ⟨ht v hv, ih hms hrest⟩
    · cases hl

end

/-- a value that was read has its names in order, whatever the text had -/
theorem ofTree?_sorted (t : Tree) {room : Nat} {v : Value} (h : ofTree? room t = some v) :
    v.Sorted := by
  induction t using Tree.induct generalizing room v with
  | null => rw [ofTree?] at h; cases h; exact .null
  | bool b => rw [ofTree?] at h; cases h; exact .bool b
  | num n =>
    rw [ofTree?] at h
    obtain ⟨x, -, rfl⟩ := Option.map_eq_some_iff.mp h
    exact .num x
  | str cs =>
    rw [ofTree?] at h
    obtain ⟨s, -, rfl⟩ := Option.map_eq_some_iff.mp h
    exact .str s
  | arr ts ih =>
    cases room with
    | zero => cases h
    | succ room =>
      rw [ofTree?] at h
      obtain ⟨vs, hvs, rfl⟩ := Option.map_eq_some_iff.mp h
      exact .arr (ofTrees?_forall (fun t ht _ => ih t ht) hvs)
  | obj ms ih =>
    cases room with
    | zero => cases h
    | succ room =>
      rw [ofTree?] at h
      obtain ⟨l, hl, rfl⟩ := Option.map_eq_some_iff.mp h
      have hsorted := ofMembers?_forall (fun m hm _ => ih m hm) hl
      exact .obj (NameMap.ascending_ofList l) fun p hp => hsorted p (NameMap.mem_of_mem_ofList hp)

/-- a value that was read nests no more containers than there was room for, so it can be written -/
theorem ofTree?_depth (t : Tree) {room : Nat} {v : Value} (h : ofTree? room t = some v) :
    v.toTree.depth ≤ room := by
  induction t using Tree.induct generalizing room v with
  | null => rw [ofTree?] at h; cases h; exact Nat.zero_le _
  | bool b => rw [ofTree?] at h; cases h; exact Nat.zero_le _
  | num n =>
    rw [ofTree?] at h
    obtain ⟨x, -, rfl⟩ := Option.map_eq_some_iff.mp h
    exact Nat.zero_le _
  | str cs =>
    rw [ofTree?] at h
    obtain ⟨s, -, rfl⟩ := Option.map_eq_some_iff.mp h
    exact Nat.zero_le _
  | arr ts ih =>
    cases room with
    | zero => cases h
    | succ room =>
      rw [ofTree?] at h
      obtain ⟨vs, hvs, rfl⟩ := Option.map_eq_some_iff.mp h
      have hitems : ∀ v ∈ vs, v.toTree.depth ≤ room :=
        ofTrees?_forall (fun t ht _ => ih t ht) hvs
      rw [toTree, toTrees_eq_map, Tree.depth_arr_le_iff]
      exact ⟨room, rfl, List.forall_mem_map.mpr hitems⟩
  | obj ms ih =>
    cases room with
    | zero => cases h
    | succ room =>
      rw [ofTree?] at h
      obtain ⟨l, hl, rfl⟩ := Option.map_eq_some_iff.mp h
      have hmembers : ∀ p ∈ l, p.2.toTree.depth ≤ room :=
        ofMembers?_forall (P := fun v => v.toTree.depth ≤ room) (fun m hm _ => ih m hm) hl
      rw [toTree, toMembers_eq_map, Tree.depth_obj_le_iff]
      refine ⟨room, rfl, List.forall_mem_map.mpr ?_⟩
      intro p hp
      exact hmembers p (NameMap.mem_of_mem_ofList hp)

/-- names in order, and no more than `room` containers nested -/
structure Fits (v : Value) (room : Nat) : Prop where
  sorted : v.Sorted
  depth : v.toTree.depth ≤ room

theorem Fits.mono {v : Value} {room room' : Nat} (h : v.Fits room) (hle : room ≤ room') :
    v.Fits room' :=
  ⟨h.sorted, h.depth.trans hle⟩

theorem ofTree?_fits (t : Tree) {room : Nat} {v : Value} (h : ofTree? room t = some v) :
    v.Fits room :=
  ⟨ofTree?_sorted t h, ofTree?_depth t h⟩

theorem fits_empty (room : Nat) : (Value.obj []).Fits (room + 1) :=
  ofTree?_fits (.obj []) (by rw [ofTree?]; rfl)

end Value

end RestQuery.Json

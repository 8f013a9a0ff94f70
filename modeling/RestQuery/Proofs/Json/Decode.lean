import Mathlib
import RestQuery.Json.Decode
import RestQuery.Proofs.Json.ValueTree

/-!
# Decoding what was written

Which tree a decoder reads as which member of its type, wherever there is room for the containers
of the tree.

* `Decoder.Reads`, `Tree.Legible`            the decoder reads the tree as this; it is some value;
* `Value.ReadsBack`                          a value that is read from its own tree;
* `Decoder.reads_string`, …                  literals, lists and alternatives;
* `Fields.Hold`                              the parts of a structure that an object was written for;
* `splitMember?_absent`, `tagged?_object`    a tag that was written before the other members.
-/

namespace RestQuery.Json

/-- the decoder reads the tree as `a`, held or not, wherever its containers have room -/
def Decoder.Reads {α : Type} (d : Decoder α) (t : Tree) (a : α) : Prop :=
  ∀ s : Scope, t.depth ≤ s.room → d s t = some a

/-- the tree is some value wherever its containers have room -/
def Tree.Legible (t : Tree) : Prop :=
  ∀ room : Nat, t.depth ≤ room → ∃ v, Value.ofTree? room t = some v

/-- the value is read back from the tree that it is written as -/
def Value.ReadsBack (v : Value) : Prop := Decoder.value.Reads v.toTree v

theorem Value.readsBack {v : Value} (hf : v.FloatFree) (hs : v.Sorted) : v.ReadsBack :=
  fun _ hd => ofTree?_toTree hf hs hd

theorem Value.ReadsBack.legible {v : Value} (h : v.ReadsBack) : v.toTree.Legible :=
  fun room hd => ⟨v, h { room } hd⟩

theorem Value.ReadsBack.legible_obj {ms : Object} (h : (Value.obj ms).ReadsBack) :
    (Tree.obj (Value.toMembers ms)).Legible := by
  rw [← Value.toTree]
  exact h.legible

theorem Scope.inside?_of_room {s : Scope} {inner : Nat} (h : s.room = inner + 1) :
    s.inside? = some { s with room := inner } := by
  obtain ⟨room, held⟩ := s
  cases h
  rfl

theorem Tree.depth_object_le_iff (ms : List (String × Tree)) (room : Nat) :
    (Tree.object ms).depth ≤ room ↔ ∃ inner, room = inner + 1 ∧ ∀ m ∈ ms, m.2.depth ≤ inner := by
  rw [object, depth_obj_le_iff]
  simp only [List.forall_mem_map]

/-! ## trees that are values -/

namespace Tree

theorem Legible.null : Legible .null := fun _ _ => ⟨.null, by rw [Value.ofTree?]⟩

theorem Legible.bool (b : Bool) : Legible (.bool b) := fun _ _ => ⟨.bool b, by rw [Value.ofTree?]⟩

theorem Legible.text (s : String) : Legible (.text s) :=
  fun room _ => ⟨.str s, Value.ofTree?_text room s⟩

theorem ofNumeral?_word (n : UInt64) :
    ∃ fits, Number.ofNumeral? { negative := false, whole := n.toNat } = some (.int n.toNat fits) := by
  have fits : FitsWord n.toNat := ⟨by omega, by have := n.toNat_lt; omega⟩
  refine ⟨fits, ?_⟩
  rw [← Number.ofNumeral?_numeral_int _ fits]
  congr 1

theorem Legible.nat (n : UInt64) : Legible (.nat n.toNat) := fun _ _ => by
  obtain ⟨fits, hn⟩ := ofNumeral?_word n
  exact ⟨.num (.int n.toNat fits), by rw [Tree.nat, Value.ofTree?, hn, Option.map_some]⟩

theorem Legible.arr {ts : List Tree} (h : ∀ t ∈ ts, Legible t) : Legible (.arr ts) := by
  intro room hd
  obtain ⟨inner, rfl, hts⟩ := (depth_arr_le_iff ts room).mp hd
  suffices ∃ vs, Value.ofTrees? inner ts = some vs by
    obtain ⟨vs, hvs⟩ := this
    exact ⟨.arr vs, by rw [Value.ofTree?, hvs, Option.map_some]⟩
  clear hd
  induction ts with
  | nil => exact ⟨[], by rw [Value.ofTrees?]⟩
  | cons t ts ih =>
    obtain ⟨v, hv⟩ := h t List.mem_cons_self inner (hts t List.mem_cons_self)
    obtain ⟨vs, hvs⟩ := ih (fun t ht => h t (List.mem_cons_of_mem _ ht))
      fun t ht => hts t (List.mem_cons_of_mem _ ht)
    exact ⟨v :: vs, by rw [Value.ofTrees?, hv, hvs]⟩

theorem Legible.arr_map {α : Type} {f : α → Tree} {as : List α} (h : ∀ a ∈ as, (f a).Legible) :
    (Tree.arr (as.map f)).Legible := .arr (List.forall_mem_map.mpr h)

theorem Legible.object {ms : List (String × Tree)} (h : ∀ m ∈ ms, Legible m.2) :
    Legible (Tree.object ms) := by
  intro room hd
  obtain ⟨inner, rfl, hms⟩ := (depth_object_le_iff ms room).mp hd
  suffices ∃ l, Value.ofMembers? inner (ms.map fun m => (CodePoint.ofString m.1, m.2)) = some l by
    obtain ⟨l, hl⟩ := this
    exact ⟨.obj (NameMap.ofList l), by rw [Tree.object, Value.ofTree?, hl, Option.map_some]⟩
  clear hd
  induction ms with
  | nil => exact ⟨[], by rw [List.map_nil, Value.ofMembers?]⟩
  | cons m ms ih =>
    obtain ⟨v, hv⟩ := h m List.mem_cons_self inner (hms m List.mem_cons_self)
    obtain ⟨l, hl⟩ := ih (fun m hm => h m (List.mem_cons_of_mem _ hm))
      fun m hm => hms m (List.mem_cons_of_mem _ hm)
    refine ⟨(m.1, v) :: l, ?_⟩
    rw [List.map_cons, Value.ofMembers?, CodePoint.decode?_ofString, hv, hl]

end Tree

/-! ## literals, lists and alternatives -/

namespace Decoder

variable {α : Type} {d : Decoder α}

theorem reads_string (s : String) : Reads string (.text s) s :=
  fun _ _ => CodePoint.decode?_ofString s

theorem reads_bool (b : Bool) : Reads bool (.bool b) b := fun _ _ => rfl

theorem reads_word (n : UInt64) : Reads word (.nat n.toNat) n := by
  intro s _
  obtain ⟨fits, hn⟩ := Tree.ofNumeral?_word n
  rw [Tree.nat, word, hn, Option.bind_some, Number.toNat?, if_pos (Int.natCast_nonneg _),
    Option.map_some, Int.toNat_natCast, UInt64.ofNat_toNat]

theorem reads_object {ms : Object} (h : (Value.obj ms).ReadsBack) :
    Reads object (.obj (Value.toMembers ms)) ms := by
  intro s hd
  rw [← Value.toTree] at hd ⊢
  rw [object, h s hd]

theorem mapM_map {s : Scope} {f : α → Tree} {as : List α} (h : ∀ a ∈ as, d s (f a) = some a) :
    (as.map f).mapM (d s) = some as := by
  induction as with
  | nil => rfl
  | cons a as ih =>
    obtain ⟨ha, has⟩ := List.forall_mem_cons.mp h
    rw [List.map_cons, List.mapM_cons, ha, ih has]
    rfl

theorem Reads.list {f : α → Tree} {as : List α} (h : ∀ a ∈ as, Reads d (f a) a) :
    Reads (Decoder.list d) (.arr (as.map f)) as := by
  intro s hd
  obtain ⟨inner, hroom, hitems⟩ := (Tree.depth_arr_le_iff _ _).mp hd
  rw [List.forall_mem_map] at hitems
  rw [Decoder.list, Scope.inside?_of_room hroom, Option.bind_some]
  exact mapM_map fun a ha => h a ha _ (hitems a ha)

theorem reads_null : Reads (nullable d) .null none := fun _ _ => rfl

theorem Reads.nullable {t : Tree} {a : α} (hne : t ≠ .null) (h : Reads d t a) :
    Reads (Decoder.nullable d) t (some a) := by
  intro s hd
  cases t with
  | null => exact absurd rfl hne
  | _ => rw [Decoder.nullable, h s hd, Option.map_some]; exact hne

theorem Reads.held {t : Tree} {a : α} (ht : t.Legible) (h : Reads d t a) :
    Reads (Decoder.held d) t a := by
  intro s hd
  obtain ⟨v, hv⟩ := ht s.room hd
  rw [Decoder.held, value, hv, Option.bind_some]
  exact h s.hold hd

theorem reads_choice {table : List (String × α)} {name : String} {a : α}
    (h : table.lookup name = some a) : Reads (choice table) (.text name) a := by
  intro s _
  rw [choice, Tree.text, alternative?, CodePoint.decode?_ofString]
  exact h

end Decoder

/-! ## structures -/

namespace Fields

variable {α : Type} {d : Decoder α}

/-- the fields are these, and there is room for each -/
structure Hold (f : Fields) (ms : List (String × Tree)) : Prop where
  found : f.found = ms
  room : ∀ m ∈ ms, m.2.depth ≤ f.scope.room

theorem select?_map {names : List String} {ms : List (String × Tree)}
    (hnames : ∀ m ∈ ms, m.1 ∈ names) (honce : (ms.map Prod.fst).Nodup) :
    select? names (ms.map fun m => (CodePoint.ofString m.1, m.2)) = some ms := by
  induction ms with
  | nil => rfl
  | cons m ms ih =>
    obtain ⟨hm, hms⟩ := List.forall_mem_cons.mp hnames
    obtain ⟨hfresh, honce⟩ := List.nodup_cons.mp honce
    have hlookup : ms.lookup m.1 = none := List.lookup_eq_none_iff.mpr fun p hp =>
      bne_iff_ne.mpr fun e => hfresh (e ▸ List.mem_map_of_mem hp)
    simp only [List.map_cons, select?, CodePoint.decode?_ofString, ih hms honce,
      List.contains_iff_mem.mpr hm, hlookup, Option.isSome_none, if_true, Bool.false_eq_true,
      if_false]

/-- an object offers the members that it was written with -/
theorem of?_object (names : List String) {ms : List (String × Tree)} {s : Scope}
    (hd : (Tree.object ms).depth ≤ s.room) (hnames : ∀ m ∈ ms, m.1 ∈ names)
    (honce : (ms.map Prod.fst).Nodup) :
    ∃ f, of? names s (Tree.object ms) = some f ∧ f.Hold ms := by
  obtain ⟨inner, hroom, hms⟩ := (Tree.depth_object_le_iff ms s.room).mp hd
  refine ⟨⟨{ s with room := inner }, ms⟩, ?_, rfl, hms⟩
  simp only [Tree.object, of?, Scope.inside?_of_room hroom, select?_map hnames honce,
    Option.bind_eq_bind, Option.bind_some, Option.pure_def]

variable {f : Fields} {ms : List (String × Tree)} {t : Tree} {a : α}

theorem Hold.depth_le {name : String} (hf : f.Hold ms) (hl : ms.lookup name = some t) :
    t.depth ≤ f.scope.room := by
  obtain ⟨l₁, l₂, rfl, -⟩ := List.lookup_eq_some_iff.mp hl
  exact hf.room (name, t) (List.mem_append_right _ List.mem_cons_self)

theorem Hold.required (hf : f.Hold ms) (name : String) (hl : ms.lookup name = some t) (h : d.Reads t a) :
    f.required name d = some a := by
  rw [Fields.required, hf.found, hl, Option.bind_some]
  exact h f.scope (hf.depth_le hl)

theorem Hold.optional (hf : f.Hold ms) (name : String) (default : α)
    (hl : ms.lookup name = some t) (h : d.Reads t a) : f.optional name d default = some a := by
  rw [Fields.optional, hf.found, hl]
  exact h f.scope (hf.depth_le hl)

end Fields

/-! ## tags -/

section Tags

variable {name : String} {ms : List (String × Tree)}

theorem splitMember?_absent {room : Nat} (habsent : ∀ m ∈ ms, m.1 ≠ name)
    (hlegible : ∀ m ∈ ms, m.2.Legible) (hroom : ∀ m ∈ ms, m.2.depth ≤ room) :
    splitMember? name room (ms.map fun m => (CodePoint.ofString m.1, m.2)) =
      some (none, ms.map fun m => (CodePoint.ofString m.1, m.2)) := by
  induction ms with
  | nil => rfl
  | cons m ms ih =>
    -- whatever stays has to be a value by itself, which is why the members are legible
    obtain ⟨hm, hms⟩ := List.forall_mem_cons.mp habsent
    obtain ⟨hlm, hlms⟩ := List.forall_mem_cons.mp hlegible
    obtain ⟨hrm, hrms⟩ := List.forall_mem_cons.mp hroom
    obtain ⟨v, hv⟩ := hlm room hrm
    simp only [List.map_cons, splitMember?, CodePoint.decode?_ofString, ih hms hlms hrms,
      if_neg hm, hv]

theorem splitMember?_head {room : Nat} (tag : Tree) (habsent : ∀ m ∈ ms, m.1 ≠ name)
    (hlegible : ∀ m ∈ ms, m.2.Legible) (hroom : ∀ m ∈ ms, m.2.depth ≤ room) :
    splitMember? name room (((name, tag) :: ms).map fun m => (CodePoint.ofString m.1, m.2)) =
      some (some tag, ms.map fun m => (CodePoint.ofString m.1, m.2)) := by
  rw [List.map_cons, splitMember?, CodePoint.decode?_ofString,
    splitMember?_absent habsent hlegible hroom]
  simp only [if_true, Option.isSome_none, Bool.false_eq_true, if_false]

theorem tagged?_object {s : Scope} (tag : Tree) (habsent : ∀ m ∈ ms, m.1 ≠ name)
    (hlegible : ∀ m ∈ ms, m.2.Legible)
    (hd : (Tree.object ((name, tag) :: ms)).depth ≤ s.room) :
    tagged? name s (Tree.object ((name, tag) :: ms)) = some (tag, Tree.object ms) := by
  obtain ⟨inner, hroom, hms⟩ := (Tree.depth_object_le_iff _ _).mp hd
  have hsplit := splitMember?_head tag habsent hlegible (List.forall_mem_cons.mp hms).2
  simp only [Tree.object, tagged?, Scope.inside?_of_room hroom, hsplit, Option.bind_eq_bind,
    Option.bind_some, Option.pure_def]

theorem tagOf?_text {α : Type} (table : List (String × α)) (name : String) {s : Scope} {a : α}
    (h : table.lookup name = some a) : tagOf? table s (.text name) = some a := by
  rw [Tree.text, tagOf?, CodePoint.decode?_ofString, Option.bind_some, h]

/-- an object without its first member is no deeper -/
theorem Tree.depth_object_tail {m : String × Tree} {room : Nat}
    (h : (Tree.object (m :: ms)).depth ≤ room) : (Tree.object ms).depth ≤ room := by
  rw [depth_object_le_iff] at h ⊢
  obtain ⟨inner, hroom, hms⟩ := h
  exact ⟨inner, hroom, (List.forall_mem_cons.mp hms).2⟩

end Tags

end RestQuery.Json

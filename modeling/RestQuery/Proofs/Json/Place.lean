import Mathlib
import RestQuery.Json.Decode

/-!
# Where decoders read

What a decoder takes from a tree is the part of the tree under its name, however many other members
stand around it, and also when the tree is held and a tag was taken out of it before.

* `Tree.member?`, `Tree.part?`, `Tree.item?`   parts of trees;
* `Fields.lookup_of?`                          the parts of a structure;
* `Fields.part_of_required`, `Fields.part_of_optional`   what a part was decoded from;
* `memberOf?_splitMember?`, `tagged?_obj`      what is left beside a tag;
* `Decoder.list_getElem?`                      the items of a list, each at its place.
-/

namespace RestQuery.Json

/-! ## parts of trees -/

/-- the first member of a name -/
def memberOf? (name : String) : List (List CodePoint × Tree) → Option Tree
  | [] => none
  | (k, t) :: ms => if CodePoint.decode? k = some name then some t else memberOf? name ms

namespace Tree

def member? (name : String) : Tree → Option Tree
  | .obj ms => memberOf? name ms
  | _ => none

def item? (place : Nat) : Tree → Option Tree
  | .arr ts => ts[place]?
  | _ => none

/-- a part of a structure: by its name in an object, by its place in an array -/
def part? (place : Nat) (name : String) : Tree → Option Tree
  | .obj ms => memberOf? name ms
  | .arr ts => ts[place]?
  | _ => none

end Tree

section
variable {k : List CodePoint} {t : Tree} {ms : List (List CodePoint × Tree)} {name other : String}

theorem memberOf?_cons_self (h : CodePoint.decode? k = some name) :
    memberOf? name ((k, t) :: ms) = some t :=
  if_pos h

theorem memberOf?_cons_of_ne (h : CodePoint.decode? k = some other) (hne : other ≠ name) :
    memberOf? name ((k, t) :: ms) = memberOf? name ms :=
  if_neg fun he => hne (Option.some.inj (h.symm.trans he))

end

/-! ## structures -/

namespace Fields

theorem lookup_cons_of_ne {name other : String} (t : Tree) (found : List (String × Tree))
    (h : other ≠ name) : ((other, t) :: found).lookup name = found.lookup name := by
  rw [List.lookup_cons, beq_false_of_ne h.symm]

theorem lookup_select? {names : List String} {ms : List (List CodePoint × Tree)}
    {found : List (String × Tree)} (h : select? names ms = some found) {name : String}
    (hname : name ∈ names) : found.lookup name = memberOf? name ms := by
  induction ms generalizing found with
  | nil =>
    cases h
    rfl
  | cons m ms ih =>
    obtain ⟨k, t⟩ := m
    rw [select?] at h
    split at h
    · next n rest hk hrest =>
      have hrest := ih hrest
      split at h
      · -- a name that is asked for stands nowhere else
        split at h
        · cases h
        · next hfresh =>
          cases h
          by_cases hn : n = name
          · subst hn
            rw [List.lookup_cons_self, memberOf?_cons_self hk]
          · rw [lookup_cons_of_ne t rest hn, memberOf?_cons_of_ne hk hn, hrest]
      · next hother =>
        cases h
        have hn : n ≠ name := by
          rintro rfl
          exact hother (List.contains_iff_mem.mpr hname)
        rw [hrest, memberOf?_cons_of_ne hk hn]
    · cases h

theorem lookup_zip {names : List String} {ts : List Tree} {name : String} (h : name ∈ names) :
    (names.zip ts).lookup name = ts[names.idxOf name]? := by
  induction names generalizing ts with
  | nil => cases h
  | cons n names ih =>
    cases ts with
    | nil => rfl
    | cons t ts =>
      by_cases hn : n = name
      · subst hn
        rw [List.zip_cons_cons, List.lookup_cons_self, List.idxOf_cons_self]
        rfl
      · have hrest : name ∈ names := (List.mem_cons.mp h).resolve_left (Ne.symm hn)
        rw [List.zip_cons_cons, lookup_cons_of_ne t _ hn, List.idxOf_cons_ne names hn, ih hrest]
        rfl

/-- a part is found under its name, or at the place of its name -/
theorem lookup_of? {names : List String} {s : Scope} {t : Tree} {f : Fields}
    (h : of? names s t = some f) {name : String} (hname : name ∈ names) :
    f.found.lookup name = t.part? (names.idxOf name) name := by
  cases t with
  | obj ms =>
    simp only [of?, Option.bind_eq_bind, Option.bind_eq_some_iff] at h
    obtain ⟨inner, -, found, hfound, h⟩ := h
    cases h
    exact lookup_select? hfound hname
  | arr ts =>
    simp only [of?, Option.bind_eq_bind, Option.bind_eq_some_iff] at h
    obtain ⟨inner, -, h⟩ := h
    split at h
    · cases h
    · cases h
      exact lookup_zip hname
  | null | bool | num | str => cases h

section
variable {α : Type} {f : Fields} {name : String} {d : Decoder α} {a : α}

theorem lookup_of_required (h : f.required name d = some a) :
    ∃ t, f.found.lookup name = some t ∧ d f.scope t = some a :=
  Option.bind_eq_some_iff.mp h

theorem lookup_of_optional {default : α} (h : f.optional name d default = some a) :
    a = default ∨ ∃ t, f.found.lookup name = some t ∧ d f.scope t = some a := by
  unfold optional at h
  split at h
  · exact .inl (Option.some.inj h).symm
  · next t ht => exact .inr ⟨t, ht, h⟩

variable {names : List String} {s : Scope} {t : Tree} (hf : of? names s t = some f)
  (hname : name ∈ names)
include hf hname

theorem part_of_required (h : f.required name d = some a) :
    ∃ t', t.part? (names.idxOf name) name = some t' ∧ d f.scope t' = some a := by
  rw [← lookup_of? hf hname]
  exact lookup_of_required h

theorem part_of_optional {default : α} (h : f.optional name d default = some a) :
    a = default ∨ ∃ t', t.part? (names.idxOf name) name = some t' ∧ d f.scope t' = some a := by
  rw [← lookup_of? hf hname]
  exact lookup_of_optional h

end

end Fields

/-! ## tags -/

/-- taking out a member leaves all others as they are -/
theorem memberOf?_splitMember? {name other : String} {room : Nat}
    {ms rest : List (List CodePoint × Tree)} {found : Option Tree}
    (h : splitMember? name room ms = some (found, rest)) (hne : other ≠ name) :
    memberOf? other rest = memberOf? other ms := by
  induction ms generalizing found rest with
  | nil =>
    cases h
    rfl
  | cons m ms ih =>
    obtain ⟨k, t⟩ := m
    rw [splitMember?] at h
    split at h
    · next n found' rest' hk hsplit =>
      have hrest := ih hsplit
      split at h
      · next hn =>
        subst hn
        split at h
        · cases h
        · cases h
          rw [memberOf?_cons_of_ne hk hne.symm, hrest]
      · split at h
        · cases h
          rw [memberOf?, memberOf?, hrest]
        · cases h
    · cases h

theorem tagged?_obj {name : String} {s : Scope} {ms : List (List CodePoint × Tree)}
    {tag rest : Tree} (h : tagged? name s (.obj ms) = some (tag, rest)) :
    ∃ ms', rest = .obj ms' ∧
      ∀ other ≠ name, (Tree.obj ms').member? other = (Tree.obj ms).member? other := by
  simp only [tagged?, Option.bind_eq_bind, Option.bind_eq_some_iff] at h
  obtain ⟨inner, -, ⟨found, ms'⟩, hsplit, h⟩ := h
  cases found with
  | none => cases h
  | some tag =>
    cases h
    exact ⟨ms', rfl, fun other hne => memberOf?_splitMember? hsplit hne⟩

/-! ## lists -/

theorem mapM_getElem? {α β : Type} {f : α → Option β} {l : List α} {l' : List β}
    (h : l.mapM f = some l') (i : Nat) : l'[i]? = l[i]?.bind f := by
  induction l generalizing l' i with
  | nil =>
    cases h
    rfl
  | cons a l ih =>
    rw [List.mapM_cons] at h
    obtain ⟨b, hb, h⟩ := Option.bind_eq_some_iff.mp h
    obtain ⟨bs, hbs, h⟩ := Option.bind_eq_some_iff.mp h
    cases h
    cases i with
    | zero => exact hb.symm
    | succ i => exact ih hbs i

theorem Decoder.list_getElem? {α : Type} {d : Decoder α} {s : Scope} {t : Tree} {l : List α}
    (h : Decoder.list d s t = some l) : ∃ inner, ∀ i, l[i]? = (t.item? i).bind (d inner) := by
  cases t with
  | arr ts =>
    obtain ⟨inner, -, hts⟩ := Option.bind_eq_some_iff.mp h
    exact ⟨inner, mapM_getElem? hts⟩
  | null | bool | num | str | obj => cases h

end RestQuery.Json

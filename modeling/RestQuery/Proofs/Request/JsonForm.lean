import Mathlib
import RestQuery.Json.Decode
import RestQuery.Proofs.Json.ValueTree
import RestQuery.Request.Basic

/-!
# What the text of a request says

The text of a request is an object that lists method, path and parameters in their order, and the
body where there is one.  In both layouts it is read as this object, from which the request can be
told.

* `Value.ofTree?_object`       an object whose members are read one by one;
* `Request.toValue`            the object;
* `Request.toValue_injective`  it tells the request;
* `Request.run_compact`, `Request.run_pretty_line`   reading the two texts.
-/

namespace RestQuery

open Json

/-! ## reading members one by one -/

namespace Json.Value

theorem ofTrees?_map {α : Type} {f : α → Tree} {g : α → Value} {room : Nat} {as : List α}
    (h : ∀ a ∈ as, ofTree? room (f a) = some (g a)) :
    ofTrees? room (as.map f) = some (as.map g) := by
  induction as with
  | nil => rfl
  | cons a as ih =>
    obtain ⟨ha, has⟩ := List.forall_mem_cons.mp h
    rw [List.map_cons, List.map_cons, ofTrees?, ha, ih has]

/-- the member is read as this name and value -/
def MemberReads (room : Nat) (m : String × Tree) (v : String × Value) : Prop :=
  m.1 = v.1 ∧ ofTree? room m.2 = some v.2

theorem ofTree?_object {ms : List (String × Tree)} {vs : List (String × Value)} {room : Nat}
    (h : List.Forall₂ (MemberReads room) ms vs) :
    ofTree? (room + 1) (Tree.object ms) = some (.obj (NameMap.ofList vs)) := by
  have hmembers :
      ofMembers? room (ms.map fun m => (CodePoint.ofString m.1, m.2)) = some vs := by
    induction h with
    | nil => rfl
    | cons hm _ ih =>
      obtain ⟨hname, hvalue⟩ := hm
      rw [List.map_cons, ofMembers?, CodePoint.decode?_ofString, hvalue, ih, hname]
  rw [Tree.object, ofTree?, hmembers, Option.map_some]

end Json.Value

theorem Method.code_inj {m m' : Method} (h : m.code = m'.code) : m = m' := by
  cases m <;> cases m' <;> first | rfl | exact absurd h (by decide)

namespace Request

/-! ## the object -/

/-- no number of the body is a double -/
def FloatFree (r : Request) : Prop := ∀ body, r.body = some body → (Value.obj body).FloatFree

/-- keys and values as pairs -/
def parametersValue (ps : List Parameter) : Value :=
  .arr (ps.map fun p => .arr [.str p.1, .str p.2])

/-- the members that every request has -/
def headMembers (r : Request) : List (String × Value) :=
  [("method", .str r.method.code), ("path", .str r.path),
   ("queryParameters", parametersValue r.parameters)]

/-- the member that only a request with a body has -/
def bodyMember : Option Object → List (String × Value)
  | none => []
  | some body => [("body", .obj body)]

/-- what the text of a request says; as in every map, names ascend -/
def toValue (r : Request) : Value := .obj (bodyMember r.body ++ r.headMembers)

theorem parametersValue_injective : Function.Injective parametersValue := by
  intro ps ps' h
  have hmap := Value.arr.inj h
  refine List.map_injective_iff.mpr ?_ hmap
  intro p p' hp
  have hpair := Value.arr.inj hp
  rw [List.cons_eq_cons, List.cons_eq_cons] at hpair
  exact Prod.ext (Value.str.inj hpair.1) (Value.str.inj hpair.2.1)

theorem bodyMember_injective : Function.Injective bodyMember := by
  intro body body' h
  match body, body' with
  | none, none => rfl
  | none, some _ => cases h
  | some _, none => cases h
  | some _, some _ =>
    cases h
    rfl

theorem toValue_injective : Function.Injective toValue := by
  intro r r' h
  -- the members of every request are the last three
  obtain ⟨hbody, hhead⟩ := List.append_inj' (Value.obj.inj h) rfl
  have hbody := bodyMember_injective hbody
  obtain ⟨method, path, parameters, body⟩ := r
  obtain ⟨method', path', parameters', body'⟩ := r'
  simp only [headMembers, List.cons.injEq, Prod.mk.injEq, true_and, and_true,
    Value.str.injEq] at hhead
  obtain ⟨hmethod, rfl, hparameters⟩ := hhead
  obtain rfl := Method.code_inj hmethod
  obtain rfl := parametersValue_injective hparameters
  cases hbody
  rfl

/-! ## reading the text -/

theorem ofTree?_parameters (ps : List Parameter) (room : Nat) :
    Value.ofTree? (room + 2) (.arr (ps.map fun p => .arr [.text p.1, .text p.2])) =
      some (parametersValue ps) := by
  have hpair (p : Parameter) : Value.ofTree? (room + 1) (.arr [.text p.1, .text p.2]) =
      some (.arr [.str p.1, .str p.2]) := by
    simp only [Value.ofTree?, Value.ofTrees?, Value.ofTree?_text, Option.map_some]
  rw [Value.ofTree?, Value.ofTrees?_map fun p _ => hpair p, Option.map_some]
  rfl

theorem ascending_headMembers (r : Request) : NameMap.Ascending r.headMembers :=
  List.pairwise_map.mp
    (show List.Pairwise (· < ·) ["method", "path", "queryParameters"] by decide)

/-- the body is the last member of the text and the first one of the object -/
theorem ofList_members (r : Request) :
    NameMap.ofList (r.headMembers ++ bodyMember r.body) = bodyMember r.body ++ r.headMembers := by
  have hhead := NameMap.ofList_of_ascending r.headMembers r.ascending_headMembers
  cases r.body with
  | none => rw [bodyMember, List.append_nil, List.nil_append, hhead]
  | some body =>
    show NameMap.insert "body" (.obj body) (NameMap.ofList r.headMembers) = _
    rw [hhead, headMembers, NameMap.insert_cons_of_lt (by decide)]
    rfl

theorem ofTree?_toTree (r : Request) (room : Nat)
    (h : ∀ body, r.body = some body →
      Value.ofTree? (room + 2) (Value.obj body).toTree = some (.obj body)) :
    Value.ofTree? (room + 3) r.toTree = some r.toValue := by
  have hbody : List.Forall₂ (Value.MemberReads (room + 2)) (r.members.drop 3)
      (bodyMember r.body) := by
    obtain ⟨method, path, parameters, body⟩ := r
    cases body with
    | none => exact .nil
    | some body => exact .cons ⟨rfl, h body rfl⟩ .nil
  have hmembers : List.Forall₂ (Value.MemberReads (room + 2)) r.members
      (r.headMembers ++ bodyMember r.body) :=
    .cons ⟨rfl, Value.ofTree?_text (room + 2) r.method.code⟩ <|
      .cons ⟨rfl, Value.ofTree?_text (room + 2) r.path⟩ <|
      .cons ⟨rfl, ofTree?_parameters r.parameters room⟩ hbody
  rw [toTree, Value.ofTree?_object hmembers, ofList_members, toValue]

/-! ## both texts -/

section
variable {r : Request} (hfits : ∀ body, r.body = some body → (Value.obj body).Fits 126)
  (hfloat : r.FloatFree)
include hfits hfloat

theorem outermost_toTree : Value.ofTree? Scope.outermost.room r.toTree = some r.toValue := by
  refine ofTree?_toTree r 124 ?_
  intro body hbody
  have hfits := hfits body hbody
  exact Value.ofTree?_toTree (hfloat body hbody) hfits.sorted hfits.depth

theorem run_compact : Decoder.value.run r.toTree.compact = some r.toValue := by
  rw [Decoder.run, Tree.parse?_compact]
  exact outermost_toTree hfits hfloat

/-- a line break may follow -/
theorem run_pretty_line : Decoder.value.run (r.toTree.pretty ++ "\n") = some r.toValue := by
  rw [Decoder.run, Tree.parse?_pretty_line]
  exact outermost_toTree hfits hfloat

end

end Request

end RestQuery

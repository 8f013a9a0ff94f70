import Mathlib
import RestQuery.Query.Reader
import RestQuery.Proofs.Json.Decode

/-!
# Reading the parts of a query

Each part of a query is read back from the tree that it is written as.

* `SortKey.reads`, `Projection.reads`, …    what a read asks for;
* `Predicate.operands`                      the values that a column is compared with;
* `Predicate.decode_of_parts`               a tag and its parts make a predicate;
* `Condition.reads`                         a condition whose operands read back;
* `RowSource.reads_subquery`, …             a source, when the query in it reads back;
* `Mutation.reads_insert`, …                a mutation, when its source reads back.
-/

namespace RestQuery

open Json

/-! ## words and sort keys -/

theorem Operator.reads (o : Operator) : Operator.decode.Reads (.text o.code) o :=
  Decoder.reads_choice (by cases o <;> rfl)

theorem Conjunction.reads (c : Conjunction) : Conjunction.decode.Reads (.text c.code) c :=
  Decoder.reads_choice (by cases c <;> rfl)

theorem Direction.reads (d : Direction) : Direction.decode.Reads (.text d.code) d :=
  Decoder.reads_choice (by cases d <;> rfl)

theorem SortKey.reads (k : SortKey) : SortKey.decode.Reads k.toTree k := by
  intro s hd
  rw [SortKey.toTree] at hd ⊢
  obtain ⟨f, hf, h⟩ := Fields.of?_object ["column", "direction"] hd (by simp) (by simp)
  simp only [SortKey.decode, hf, h.required "column" rfl (Decoder.reads_string k.column),
    h.optional "direction" .asc rfl (Direction.reads k.direction), Option.bind_eq_bind,
    Option.bind_some, Option.pure_def]

theorem legible_texts (names : List String) : (Tree.arr (names.map Tree.text)).Legible :=
  .arr_map fun name _ => .text name

theorem reads_texts (names : List String) :
    (Decoder.list Decoder.string).Reads (.arr (names.map Tree.text)) names :=
  Decoder.Reads.list fun name _ => Decoder.reads_string name

/-- held until it is known which: `null` is no list -/
theorem Projection.reads (p : Projection) : Projection.decode.Reads p.toTree p := by
  cases p with
  | all => exact Decoder.Reads.held .null fun _ _ => rfl
  | columns names =>
    refine Decoder.Reads.held (legible_texts names) fun s hd => ?_
    show (Decoder.list Decoder.string s (.arr (names.map Tree.text))).map Projection.columns = _
    rw [reads_texts names s hd, Option.map_some]

theorem reads_limit (limit : Option UInt64) :
    (Decoder.nullable Decoder.word).Reads (limitTree limit) limit := by
  cases limit with
  | none => exact Decoder.reads_null
  | some n => exact Decoder.Reads.nullable Tree.noConfusion (Decoder.reads_word n)

/-! ## predicates and conditions -/

namespace Predicate

/-- the values that the column is compared with -/
def operands : Predicate → List Value
  | compare _ _ v | entity _ v => [v]
  | among _ vs | notAmong _ vs => vs
  | null _ | notNull _ => []

section Parts

variable {word : String} {tag : PredicateTag} {parts : List (String × Tree)} {p : Predicate}

/-- a predicate whose parts are read as its tag demands -/
theorem decode_of_parts (hword : PredicateTag.table.lookup word = some tag)
    (habsent : ∀ m ∈ parts, m.1 ≠ "type") (hlegible : ∀ m ∈ parts, m.2.Legible)
    (hparts : (decodeParts tag).Reads (.object parts) p) :
    decode.Reads (.object (("type", .text word) :: parts)) p := by
  intro s hd
  simp only [decode, tagged?_object _ habsent hlegible hd, tagOf?_text _ _ hword,
    hparts s.hold (Tree.depth_object_tail hd), Option.bind_eq_bind, Option.bind_some]

end Parts

theorem reads_list (make : String → List Value → Predicate) (c : String) {vs : List Value}
    (hvs : ∀ v ∈ vs, v.ReadsBack) :
    (decodeList make).Reads
      (.object [("column", .text c), ("values", .arr (vs.map Value.toTree))]) (make c vs) := by
  intro s hd
  obtain ⟨f, hf, h⟩ := Fields.of?_object ["column", "values"] hd (by simp) (by simp)
  simp only [decodeList, hf, h.required "column" rfl (Decoder.reads_string c),
    h.required "values" rfl (Decoder.Reads.list hvs), Option.bind_eq_bind, Option.bind_some,
    Option.pure_def]

theorem reads_column (make : String → Predicate) (c : String) :
    (decodeColumn make).Reads (.object [("column", .text c)]) (make c) := by
  intro s hd
  obtain ⟨f, hf, h⟩ := Fields.of?_object ["column"] hd (by simp) (by simp)
  simp only [decodeColumn, hf, h.required "column" rfl (Decoder.reads_string c),
    Option.bind_eq_bind, Option.bind_some, Option.pure_def]

theorem reads_compare (c : String) (o : Operator) {v : Value} (hv : v.ReadsBack) :
    (decodeParts .compare).Reads
      (.object [("column", .text c), ("operator", .text o.code), ("value", v.toTree)])
      (.compare c o v) := by
  intro s hd
  obtain ⟨f, hf, h⟩ := Fields.of?_object ["column", "operator", "value"] hd (by simp) (by simp)
  simp only [decodeParts, hf, h.required "column" rfl (Decoder.reads_string c),
    h.required "operator" rfl (Operator.reads o), h.required "value" rfl hv,
    Option.bind_eq_bind, Option.bind_some, Option.pure_def]

theorem reads_entity (c : String) {v : Value} (hv : v.ReadsBack) :
    (decodeParts .entity).Reads (.object [("column", .text c), ("value", v.toTree)])
      (.entity c v) := by
  intro s hd
  obtain ⟨f, hf, h⟩ := Fields.of?_object ["column", "value"] hd (by simp) (by simp)
  simp only [decodeParts, hf, h.required "column" rfl (Decoder.reads_string c),
    h.required "value" rfl hv, Option.bind_eq_bind, Option.bind_some, Option.pure_def]

variable {p : Predicate}

theorem legible_members (hp : ∀ v ∈ p.operands, v.ReadsBack) : ∀ m ∈ p.members, m.2.Legible := by
  cases p with
  | compare c o v =>
    simpa [members, Tree.Legible.text] using (hp v (List.mem_singleton.mpr rfl)).legible
  | among c vs | notAmong c vs =>
    have hvs : (Tree.arr (vs.map Value.toTree)).Legible := .arr_map fun v hv => (hp v hv).legible
    simpa [members, Tree.Legible.text] using hvs
  | null c => simp [members, Tree.Legible.text]
  | notNull c => simp [members, Tree.Legible.text]
  | entity c v =>
    simpa [members, Tree.Legible.text] using (hp v (List.mem_singleton.mpr rfl)).legible

theorem reads (hp : ∀ v ∈ p.operands, v.ReadsBack) : decode.Reads p.toTree p := by
  have hlegible := legible_members hp
  rw [toTree]
  cases p with
  | compare c o v =>
    exact decode_of_parts rfl (by simp) (List.forall_mem_cons.mp hlegible).2
      (reads_compare c o (hp v (List.mem_singleton.mpr rfl)))
  | among c vs =>
    exact decode_of_parts rfl (by simp) (List.forall_mem_cons.mp hlegible).2
      (reads_list .among c hp)
  | notAmong c vs =>
    exact decode_of_parts rfl (by simp) (List.forall_mem_cons.mp hlegible).2
      (reads_list .notAmong c hp)
  | null c =>
    exact decode_of_parts rfl (by simp) (List.forall_mem_cons.mp hlegible).2
      (reads_column .null c)
  | notNull c =>
    exact decode_of_parts rfl (by simp) (List.forall_mem_cons.mp hlegible).2
      (reads_column .notNull c)
  | entity c v =>
    exact decode_of_parts rfl (by simp) (List.forall_mem_cons.mp hlegible).2
      (reads_entity c (hp v (List.mem_singleton.mpr rfl)))

/-- no part of a predicate has the name of the conjunction -/
theorem members_ne_conjunction (p : Predicate) : ∀ m ∈ p.members, m.1 ≠ "conjunction" := by
  cases p <;> simp [members]

end Predicate

section Conditions

variable {c : Condition} (hc : ∀ v ∈ c.predicate.operands, v.ReadsBack)

include hc

theorem Condition.legible_toTree : c.toTree.Legible :=
  .object (List.forall_mem_cons.mpr ⟨.text _, Predicate.legible_members hc⟩)

/-- the members next to the conjunction are the predicate -/
theorem Condition.reads : Condition.decode.Reads c.toTree c := by
  intro s hd
  rw [Condition.toTree] at hd ⊢
  obtain ⟨inner, hroom, hms⟩ := (Tree.depth_object_le_iff _ _).mp hd
  have hsplit := splitMember?_head (.text c.conjunction.code) c.predicate.members_ne_conjunction
    (Predicate.legible_members hc) (List.forall_mem_cons.mp hms).2
  have hconjunction := Conjunction.reads c.conjunction { s with room := inner } (Nat.zero_le _)
  have hpredicate := Predicate.reads hc s.hold (Tree.depth_object_tail hd)
  rw [Predicate.toTree, Tree.object] at hpredicate
  simp only [Tree.object, Condition.decode, Scope.inside?_of_room hroom, hsplit, hconjunction,
    hpredicate, Option.bind_eq_bind, Option.bind_some, Option.pure_def]

end Conditions

/-! ## mutations -/

section Nested

variable {nested : Decoder Query}

theorem RowSource.reads_values {body : Object} (hbody : (Value.obj body).ReadsBack) :
    (RowSource.decodeWith nested).Reads (RowSource.values body).toTree (.values body) := by
  intro s hd
  rw [RowSource.toTree] at hd ⊢
  obtain ⟨inner, hroom, hms⟩ := (Tree.depth_object_le_iff _ _).mp hd
  have hread := Decoder.reads_object hbody { s with room := inner } (hms _ List.mem_cons_self)
  simp only [RowSource.decodeWith, Tree.object, List.map_cons, List.map_nil, alternative?,
    Scope.inside?_of_room hroom, CodePoint.decode?_ofString, hread, Option.bind_eq_bind,
    Option.bind_some, Option.pure_def]

theorem RowSource.reads_subquery {q : Query} (hq : nested.Reads q.toTree q) :
    (RowSource.decodeWith nested).Reads (RowSource.subquery q).toTree (.subquery q) := by
  intro s hd
  rw [RowSource.toTree] at hd ⊢
  obtain ⟨inner, hroom, hms⟩ := (Tree.depth_object_le_iff _ _).mp hd
  have hread := hq { s with room := inner } (hms _ List.mem_cons_self)
  simp only [RowSource.decodeWith, Tree.object, List.map_cons, List.map_nil, alternative?,
    Scope.inside?_of_room hroom, CodePoint.decode?_ofString, hread, Option.bind_eq_bind,
    Option.bind_some, Option.pure_def]

theorem Insertion.reads {i : Insertion}
    (hsource : (RowSource.decodeWith nested).Reads i.source.toTree i.source) :
    (Insertion.decodeWith nested).Reads i.toTree i := by
  intro s hd
  obtain ⟨source, orIgnore⟩ := i
  rw [Insertion.toTree, Insertion.members] at hd ⊢
  obtain ⟨f, hf, h⟩ := Fields.of?_object ["source", "orIgnore"] hd (by simp) (by simp)
  simp only [Insertion.decodeWith, hf, h.required "source" rfl hsource,
    h.optional "orIgnore" false rfl (Decoder.reads_bool orIgnore), Option.bind_eq_bind,
    Option.bind_some, Option.pure_def]

theorem Insertion.legible_members {i : Insertion} (hsource : i.source.toTree.Legible) :
    ∀ m ∈ i.members, m.2.Legible := by
  obtain ⟨source, orIgnore⟩ := i
  rw [Insertion.members]
  simpa [Tree.Legible.bool] using hsource

theorem Mutation.reads_read : (Mutation.decodeWith nested).Reads Mutation.read.toTree .read := by
  intro s hd
  rw [Mutation.toTree, Mutation.members] at hd ⊢
  simp only [Mutation.decodeWith, tagged?_object _ (by simp) (by simp) hd,
    tagOf?_text MutationTag.table "read" rfl, Option.bind_eq_bind, Option.bind_some,
    Option.pure_def]
  rfl

theorem Mutation.reads_delete :
    (Mutation.decodeWith nested).Reads Mutation.delete.toTree .delete := by
  intro s hd
  rw [Mutation.toTree, Mutation.members] at hd ⊢
  simp only [Mutation.decodeWith, tagged?_object _ (by simp) (by simp) hd,
    tagOf?_text MutationTag.table "delete" rfl, Option.bind_eq_bind, Option.bind_some,
    Option.pure_def]
  rfl

theorem Mutation.reads_update {body : Object} (hbody : (Value.obj body).ReadsBack) :
    (Mutation.decodeWith nested).Reads (Mutation.update body).toTree (.update body) := by
  intro s hd
  rw [Mutation.toTree, Mutation.members] at hd ⊢
  obtain ⟨f, hf, h⟩ := Fields.of?_object ["body"] (s := s.hold) (Tree.depth_object_tail hd)
    (by simp) (by simp)
  simp only [Mutation.decodeWith,
    tagged?_object _ (by simp) (List.forall_mem_singleton.mpr hbody.legible_obj) hd,
    tagOf?_text MutationTag.table "update" rfl, hf,
    h.optional "body" [] rfl (Decoder.reads_object hbody), Option.bind_eq_bind, Option.bind_some,
    Option.pure_def]

theorem Mutation.reads_insert {i : Insertion} (hlegible : i.source.toTree.Legible)
    (hsource : (RowSource.decodeWith nested).Reads i.source.toTree i.source) :
    (Mutation.decodeWith nested).Reads (Mutation.insert i).toTree (.insert i) := by
  intro s hd
  have habsent : ∀ m ∈ i.members, m.1 ≠ "mode" := by
    obtain ⟨source, orIgnore⟩ := i
    simp [Insertion.members]
  rw [Mutation.toTree, Mutation.members] at hd ⊢
  have hinsertion := Insertion.reads hsource s.hold (Tree.depth_object_tail hd)
  rw [Insertion.toTree] at hinsertion
  simp only [Mutation.decodeWith,
    tagged?_object _ habsent (Insertion.legible_members hlegible) hd,
    tagOf?_text MutationTag.table "insert" rfl, hinsertion, Option.bind_eq_bind, Option.bind_some,
    Option.pure_def]

end Nested

end RestQuery

import Mathlib
import RestQuery.Compile.Basic
import RestQuery.Proofs.Query.Parts

/-!
# The text of a query reads back

A query without doubles is read back from its own text, when no more containers nest in the text
than the reader admits; so the text compiles as the query does.

* `Query.contents`             the values in a query, those of nested queries among them;
* `Query.legible_toTree`       the tree of a query is a value, as the parts that are held must be;
* `Query.decodeNested_reads`   by induction on the depth, a nested query lying deeper;
* `query_text_lossless`        the text says what the query says.
-/

namespace RestQuery

open Json

mutual

/-- the values in a query: operands of conditions, and rows as objects -/
def Query.contents : Query → List Value
  | ⟨_, conditions, _, _, _, _, _, _, _, _, _, mutation⟩ =>
    conditions.flatMap (fun c => c.predicate.operands) ++ mutation.contents

def Mutation.contents : Mutation → List Value
  | .read | .delete => []
  | .insert i => i.contents
  | .update body => [.obj body]

def Insertion.contents : Insertion → List Value
  | ⟨source, _⟩ => source.contents

def RowSource.contents : RowSource → List Value
  | .values body => [.obj body]
  | .subquery q => q.contents

end

theorem Query.forall_contents {P : Value → Prop} (q : Query) :
    (∀ v ∈ q.contents, P v) ↔
      (∀ c ∈ q.conditions, ∀ v ∈ c.predicate.operands, P v) ∧ ∀ v ∈ q.mutation.contents, P v := by
  cases q
  rw [Query.contents, List.forall_mem_append, List.forall_mem_flatMap]

/-! ## trees of queries are values -/

theorem SortKey.legible_toTree (k : SortKey) : k.toTree.Legible :=
  .object (by simp [Tree.Legible.text])

theorem Projection.legible_toTree (p : Projection) : p.toTree.Legible := by
  cases p with
  | all => exact .null
  | columns names => exact legible_texts names

theorem legible_limitTree (limit : Option UInt64) : (limitTree limit).Legible := by
  cases limit with
  | none => exact .null
  | some n => exact .nat n

mutual

theorem Query.legible_toTree : ∀ q : Query, (∀ v ∈ q.contents, v.ReadsBack) → q.toTree.Legible
  | ⟨resource, conditions, expressions, sortKeys, limit, offset, projection, expandedKeys,
      countOnly, ignoreMissing, joins, mutation⟩, h => by
    obtain ⟨hconditions, hmutation⟩ := (Query.forall_contents _).mp h
    have hc : (Tree.arr (conditions.map Condition.toTree)).Legible :=
      .arr_map fun c hc => Condition.legible_toTree (hconditions c hc)
    have hs : (Tree.arr (sortKeys.map SortKey.toTree)).Legible :=
      .arr_map fun k _ => k.legible_toTree
    have hm := Mutation.legible_members mutation hmutation
    rw [Query.toTree]
    refine .object ?_
    simp only [List.forall_mem_cons]
    exact ⟨.text _, hc, legible_texts _, hs, legible_limitTree _, .nat _,
      projection.legible_toTree, legible_texts _, .bool _, .bool _, .object hm, legible_texts _,
      fun _ hm => absurd hm List.not_mem_nil⟩

theorem Mutation.legible_members :
    ∀ m : Mutation, (∀ v ∈ m.contents, v.ReadsBack) → ∀ p ∈ m.members, p.2.Legible
  | .read, _ | .delete, _ => by simp [Mutation.members, Tree.Legible.text]
  | .insert i, h => by
    obtain ⟨source, orIgnore⟩ := i
    rw [Mutation.contents, Insertion.contents] at h
    rw [Mutation.members]
    exact List.forall_mem_cons.mpr
      ⟨.text _, Insertion.legible_members (RowSource.legible_toTree source h)⟩
  | .update body, h => by
    have hbody : (Value.obj body).ReadsBack := h (.obj body) (by simp [Mutation.contents])
    simpa [Mutation.members, Tree.Legible.text] using hbody.legible_obj

theorem RowSource.legible_toTree :
    ∀ source : RowSource, (∀ v ∈ source.contents, v.ReadsBack) → source.toTree.Legible
  | .values body, h => by
    have hbody : (Value.obj body).ReadsBack := h (.obj body) (by simp [RowSource.contents])
    rw [RowSource.toTree]
    exact .object (List.forall_mem_singleton.mpr hbody.legible_obj)
  | .subquery q, h => by
    rw [RowSource.contents] at h
    rw [RowSource.toTree]
    exact .object (List.forall_mem_singleton.mpr (Query.legible_toTree q h))

end

/-! ## queries -/

/-- a query reads back when its mutation does; every part stands under its own name -/
theorem Query.decodeWith_reads {nested : Decoder Query} {q : Query}
    (hconditions : ∀ c ∈ q.conditions, ∀ v ∈ c.predicate.operands, v.ReadsBack)
    (hmutation : (Mutation.decodeWith nested).Reads q.mutation.toTree q.mutation) :
    (Query.decodeWith nested).Reads q.toTree q := by
  intro s hd
  obtain ⟨resource, conditions, expressions, sortKeys, limit, offset, projection, expandedKeys,
    countOnly, ignoreMissing, joins, mutation⟩ := q
  have hc : (Decoder.list Condition.decode).Reads (.arr (conditions.map Condition.toTree))
      conditions := Decoder.Reads.list fun c hc => Condition.reads (hconditions c hc)
  have hs : (Decoder.list SortKey.decode).Reads (.arr (sortKeys.map SortKey.toTree)) sortKeys :=
    Decoder.Reads.list fun k _ => k.reads
  rw [Query.toTree] at hd ⊢
  obtain ⟨f, hf, h⟩ := Fields.of?_object
    ["resource", "conditions", "filterExpressions", "orderings", "limit", "offset", "projection",
     "includeReferencedKeys", "isAggregate", "ignoreMissingProperties", "mutation", "joins"] hd
    (by simp) (by simp)
  -- one part after the other: rewriting all of them at once goes through the rest for each
  refine Option.bind_eq_some_iff.mpr ⟨f, hf, ?_⟩
  refine Option.bind_eq_some_iff.mpr
    ⟨_, h.required "resource" rfl (Decoder.reads_string resource), ?_⟩
  refine Option.bind_eq_some_iff.mpr ⟨_, h.optional "conditions" [] rfl hc, ?_⟩
  refine Option.bind_eq_some_iff.mpr
    ⟨_, h.optional "filterExpressions" [] rfl (reads_texts expressions), ?_⟩
  refine Option.bind_eq_some_iff.mpr ⟨_, h.optional "orderings" [] rfl hs, ?_⟩
  refine Option.bind_eq_some_iff.mpr ⟨_, h.optional "limit" none rfl (reads_limit limit), ?_⟩
  refine Option.bind_eq_some_iff.mpr
    ⟨_, h.optional "offset" 0 rfl (Decoder.reads_word offset), ?_⟩
  refine Option.bind_eq_some_iff.mpr ⟨_, h.optional "projection" .all rfl projection.reads, ?_⟩
  refine Option.bind_eq_some_iff.mpr
    ⟨_, h.optional "includeReferencedKeys" [] rfl (reads_texts expandedKeys), ?_⟩
  refine Option.bind_eq_some_iff.mpr
    ⟨_, h.optional "isAggregate" false rfl (Decoder.reads_bool countOnly), ?_⟩
  refine Option.bind_eq_some_iff.mpr
    ⟨_, h.optional "ignoreMissingProperties" false rfl (Decoder.reads_bool ignoreMissing), ?_⟩
  refine Option.bind_eq_some_iff.mpr ⟨_, h.optional "mutation" .read rfl hmutation, ?_⟩
  exact Option.bind_eq_some_iff.mpr ⟨_, h.optional "joins" [] rfl (reads_texts joins), rfl⟩

/-- a mutation reads back when the query that it may nest does -/
theorem Mutation.decodeWith_reads {nested : Decoder Query} (m : Mutation)
    (hm : ∀ v ∈ m.contents, v.ReadsBack)
    (hnested : ∀ q orIgnore, m = .insert ⟨.subquery q, orIgnore⟩ → nested.Reads q.toTree q) :
    (Mutation.decodeWith nested).Reads m.toTree m := by
  cases m with
  | read => exact Mutation.reads_read
  | delete => exact Mutation.reads_delete
  | update body => exact Mutation.reads_update (hm _ (by simp [Mutation.contents]))
  | insert i =>
    obtain ⟨source, orIgnore⟩ := i
    rw [Mutation.contents, Insertion.contents] at hm
    refine Mutation.reads_insert (RowSource.legible_toTree source hm) ?_
    cases source with
    | values body => exact RowSource.reads_values (hm _ (by simp [RowSource.contents]))
    | subquery q => exact RowSource.reads_subquery (hnested q orIgnore rfl)

theorem Query.depth_mutation {q : Query} {room : Nat} (h : q.toTree.depth ≤ room) :
    ∃ inner, room = inner + 1 ∧ q.mutation.toTree.depth ≤ inner := by
  obtain ⟨_, _, _, _, _, _, _, _, _, _, _, mutation⟩ := q
  rw [Query.toTree] at h
  obtain ⟨inner, rfl, hparts⟩ := (Tree.depth_object_le_iff _ _).mp h
  exact ⟨inner, rfl, hparts ("mutation", .object mutation.members) (by simp)⟩

theorem Mutation.depth_subquery {q : Query} {orIgnore : Bool} {room : Nat}
    (h : (Mutation.insert ⟨.subquery q, orIgnore⟩).toTree.depth ≤ room) :
    q.toTree.depth ≤ room := by
  rw [Mutation.toTree, Mutation.members, Insertion.members] at h
  obtain ⟨inner, rfl, hparts⟩ := (Tree.depth_object_le_iff _ _).mp h
  have hsource : (RowSource.subquery q).toTree.depth ≤ inner :=
    hparts ("source", (RowSource.subquery q).toTree) (by simp)
  rw [RowSource.toTree] at hsource
  obtain ⟨innermost, rfl, hpayload⟩ := (Tree.depth_object_le_iff _ _).mp hsource
  have hq : q.toTree.depth ≤ innermost := hpayload ("subquery", q.toTree) List.mem_cons_self
  omega

/-- queries as deep as `n` are read by the decoder for `n` nestings -/
theorem Query.decodeNested_reads (n : Nat) {q : Query} (hq : ∀ v ∈ q.contents, v.ReadsBack)
    (hn : q.toTree.depth ≤ n) : (Query.decodeNested n).Reads q.toTree q := by
  induction n generalizing q with
  | zero =>
    -- a query is an object, which needs room
    obtain ⟨inner, hroom, -⟩ := Query.depth_mutation hn
    cases hroom
  | succ n ih =>
    obtain ⟨hconditions, hmutation⟩ := (Query.forall_contents q).mp hq
    refine Query.decodeWith_reads hconditions
      (Mutation.decodeWith_reads q.mutation hmutation fun inner orIgnore hinner => ?_)
    -- the values of the nested query are those of the mutation, and it lies a level deeper
    obtain ⟨room, hroom, hdepth⟩ := Query.depth_mutation hn
    cases hroom
    rw [hinner] at hmutation hdepth
    exact ih hmutation (Mutation.depth_subquery hdepth)

theorem Query.decode_reads {q : Query} (hq : ∀ v ∈ q.contents, v.ReadsBack) :
    Query.decode.Reads q.toTree q :=
  fun s hd => Query.decodeNested_reads s.room hq hd s hd

theorem Query.parse?_text {q : Query} (hq : ∀ v ∈ q.contents, v.ReadsBack)
    (hd : q.toTree.depth ≤ 127) : Query.parse? q.text = some q := by
  rw [Query.parse?, Decoder.run, Query.text, Tree.parse?_compact, Option.bind_some]
  exact Query.decode_reads hq _ hd

/--
The text of a query says what the query says: it reads back as the same query, and so compiles to
the same request or the same error.  Objects are maps, so that their names ascend; the reader
admits 127 containers within each other.
-/
theorem query_text_lossless (q : Query) (hfloat : ∀ v ∈ q.contents, v.FloatFree)
    (hmaps : ∀ v ∈ q.contents, v.Sorted) (hdepth : q.toTree.depth ≤ 127) :
    Query.parse? q.text = some q ∧
      ∀ (p : Provider) (a : Addressing), compileText p q.text a = compile p q a := by
  have hparse : Query.parse? q.text = some q :=
    Query.parse?_text (fun v hv => Value.readsBack (hfloat v hv) (hmaps v hv)) hdepth
  refine ⟨hparse, fun p a => ?_⟩
  rw [compileText, hparse]

/-- inserts what another insertion brings, with the largest words and names to be escaped -/
def nestedInsertion : Query where
  resource := "in\"voice/\n"
  conditions :=
    [.compare "a\\b" .notILike (.str "tab\t é 𝄞 \x01"),
     (Condition.among "" [.int (-9223372036854775808) (by decide),
       .int 18446744073709551615 (by decide), .arr [.null, .arr []]]).joinedByOr]
  sortKeys := [⟨"type", .desc⟩]
  limit := some 18446744073709551615
  projection := .columns []
  mutation := .insert
    { source := .subquery
        { resource := ""
          conditions := [.entity "conjunction" (.obj [("", .bool true), ("mode", .null)])]
          mutation := .insert
            { source := .values [("A", .str "mode"), ("a", .obj [])]
              orIgnore := true } } }

theorem query_text_lossless_nested :
    (∀ v ∈ nestedInsertion.contents, v.FloatFree) ∧ (∀ v ∈ nestedInsertion.contents, v.Sorted) ∧
      nestedInsertion.toTree.depth ≤ 127 ∧
      Query.parse? nestedInsertion.text = some nestedInsertion ∧
      ∀ (p : Provider) (a : Addressing),
        compileText p nestedInsertion.text a = compile p nestedInsertion a := by
  have hcontents : nestedInsertion.contents =
      [.str "tab\t é 𝄞 \x01", .int (-9223372036854775808) (by decide),
       .int 18446744073709551615 (by decide), .arr [.null, .arr []],
       .obj [("", .bool true), ("mode", .null)], .obj [("A", .str "mode"), ("a", .obj [])]] := rfl
  have hfloat : ∀ v ∈ nestedInsertion.contents, v.FloatFree := by
    rw [hcontents]
    simp [Value.int]
  have hmaps : ∀ v ∈ nestedInsertion.contents, v.Sorted := by
    have hpair : NameMap.Ascending [("", Value.bool true), ("mode", .null)] :=
      List.pairwise_pair.mpr (by decide)
    have hrow : NameMap.Ascending [("A", Value.str "mode"), ("a", .obj [])] :=
      List.pairwise_pair.mpr (by decide)
    have hempty : NameMap.Ascending ([] : Object) := List.Pairwise.nil
    rw [hcontents]
    simp [Value.int, hpair, hrow, hempty]
  have hdepth : nestedInsertion.toTree.depth ≤ 127 := by decide
  exact ⟨hfloat, hmaps, hdepth, query_text_lossless nestedInsertion hfloat hmaps hdepth⟩

end RestQuery

import Mathlib
import RestQuery.Proofs.Compile.Outcome
import RestQuery.Proofs.Query.Once
import RestQuery.Proofs.Query.ReadBack
import RestQuery.Proofs.Query.StepOrder

/-!
# Queries of a text and assembled queries

The query of a text can be assembled again, one step for each thing that it asks for.  Steps keep
a column or an included key once; the text may name it again.  So the two queries have the same
request unless the text repeats a name, and always the same error.

* `Query.steps`, `Query.assembled`    the steps for what a query asks for, and their query;
* `Query.once`                        a query that names its columns and included keys once;
* `assembled_eq`                      the steps give the query with its names once;
* `compile_alike`                     queries that differ in these names only;
* `read_assembled`                    texts and steps side by side.
-/

namespace RestQuery

open Json

/-! ## steps for a query -/

def Projection.steps : Projection → List Query.Step
  | .all => []
  | .columns names => [.withColumns names]

def Projection.once : Projection → Projection
  | .all => .all
  | .columns names => .columns names.eraseDups

namespace Query

/-- one step for each thing that a read asks for -/
def steps (q : Query) : List Step :=
  q.conditions.map .when ++ q.expressions.map .whenExpression ++
    q.sortKeys.map (fun k => .sortBy k.column k.direction) ++ q.limit.toList.map .limitTo ++
    [.startAt q.offset] ++ q.projection.steps ++ q.expandedKeys.map .includeKey

/-- the query of these steps; there is no step for joins, which are taken over -/
def assembled (q : Query) : Query := { build q.resource q.steps with joins := q.joins }

/-- every column and every included key at its first occurrence -/
def once (q : Query) : Query :=
  { q with projection := q.projection.once, expandedKeys := q.expandedKeys.eraseDups }

theorem foldl_apply_map {α : Type} {step : α → Step} (edit : List α → Edit)
    (hnil : ∀ q, edited q (edit []) = q)
    (hcons : ∀ q a as, edited (apply q (step a)) (edit as) = edited q (edit (a :: as)))
    (q : Query) (as : List α) : (as.map step).foldl apply q = q.edited (edit as) := by
  induction as generalizing q with
  | nil => exact (hnil q).symm
  | cons a as ih => rw [List.map_cons, List.foldl_cons, ih, hcons]

theorem foldl_apply_when (q : Query) (cs : List Condition) :
    (cs.map Step.when).foldl apply q = q.edited (.conditions cs) :=
  foldl_apply_map .conditions (fun q => by cases q; simp [edited])
    (fun q c cs => by simp [edited, apply, when]) q cs

theorem foldl_apply_whenExpression (q : Query) (es : List String) :
    (es.map Step.whenExpression).foldl apply q = q.edited (.expressions es) :=
  foldl_apply_map .expressions (fun q => by cases q; simp [edited])
    (fun q e es => by simp [edited, apply, whenExpression]) q es

theorem foldl_apply_sortBy (q : Query) (ks : List SortKey) :
    (ks.map fun k => Step.sortBy k.column k.direction).foldl apply q = q.edited (.sortKeys ks) :=
  foldl_apply_map .sortKeys (fun q => by cases q; simp [edited])
    (fun q k ks => by simp [edited, apply, sortBy]) q ks

theorem foldl_apply_includeKey (q : Query) (keys : List String) :
    (keys.map Step.includeKey).foldl apply q = q.edited (.expandedKeys keys) :=
  foldl_apply_map .expandedKeys (fun q => by cases q; simp [edited])
    (fun q key keys => by simp [edited, apply, includeKey]) q keys

theorem foldl_apply_limit (q : Query) (limit : Option UInt64) (h : q.limit = none) :
    (limit.toList.map Step.limitTo).foldl apply q = { q with limit } := by
  cases limit with
  | none =>
    cases q
    subst h
    rfl
  | some n => rfl

theorem foldl_apply_projection (q : Query) (projection : Projection) (h : q.projection = .all) :
    projection.steps.foldl apply q = { q with projection := projection.once } := by
  cases projection with
  | all =>
    cases q
    subst h
    rfl
  | columns names =>
    show { q with projection := .columns (names.foldl addOnce q.columns) } = _
    rw [columns, h, foldl_addOnce]
    rfl

/-- the steps for a read give what it asks for, with its names once -/
theorem assembled_eq (q : Query) :
    q.assembled = { q.once with countOnly := false, ignoreMissing := false, mutation := .read } := by
  unfold assembled build steps
  simp only [List.foldl_append, foldl_apply_when, foldl_apply_whenExpression, foldl_apply_sortBy,
    foldl_apply_includeKey]
  rw [foldl_apply_limit _ _ rfl, foldl_apply_projection _ _ rfl]
  show ({ q.once with
    expandedKeys := q.expandedKeys.foldl addOnce [], countOnly := false, ignoreMissing := false
    mutation := .read } : Query) = _
  rw [foldl_addOnce]
  rfl

theorem columns_once (q : Query) : q.once.columns = q.columns.eraseDups := by
  simp only [once, columns]
  cases q.projection <;> rfl

end Query

/-! ## names in requests -/

/-- the parameter of a list of names, when there are any -/
def listed (key : String) (names : List String) : List Parameter :=
  if names.isEmpty then [] else [(key, joinTexts ',' names)]

theorem includeParameters_eq (d : Dialect) (keys : List String) :
    includeParameters d keys = listed d.expansionKey keys := rfl

theorem projectionParameters_eq (d : Dialect) (q : Query) :
    projectionParameters d q.projection = listed d.columnsKey q.columns := by
  unfold Query.columns
  cases q.projection <;> rfl

theorem length_listed_eraseDups (key : String) (names : List String) :
    (listed key names.eraseDups).length = (listed key names).length := by
  cases names with
  | nil => rfl
  | cons name names =>
    rw [List.eraseDups_cons]
    rfl

theorem listed_eraseDups_eq_iff (key : String) (names : List String) :
    listed key names.eraseDups = listed key names ↔ names.Nodup := by
  rw [← joinTexts_eraseDups_eq_iff ',']
  cases names with
  | nil => exact ⟨fun _ => rfl, fun _ => rfl⟩
  | cons name names =>
    rw [List.eraseDups_cons]
    simp [listed]

/-- the parameters of a read around its columns and before its included keys -/
theorem readRequest_eq_listed (d : Dialect) {q : Query} (hlist : q.countOnly = false)
    (ps : List Parameter) (page : Option Page) :
    readRequest d q ps page =
      { method := .get, path := q.resource
        parameters := (ps ++ expressionParameters d q.expressions) ++
          (listed d.columnsKey q.columns ++
            ((sortParameters d q.sortKeys ++ pageParameters d page) ++
              listed d.expansionKey q.expandedKeys)) } := by
  unfold readRequest
  rw [hlist, projectionParameters_eq, includeParameters_eq]
  simp only [List.append_assoc]
  rfl

/-- a request that lists columns and included keys shows every repeated name -/
theorem readRequest_once_eq_iff (d : Dialect) {q : Query} (hlist : q.countOnly = false)
    (ps : List Parameter) (page : Option Page) :
    readRequest d q.once ps page = readRequest d q ps page ↔
      q.columns.Nodup ∧ q.expandedKeys.Nodup := by
  have hlist' : q.once.countOnly = false := hlist
  have hkeys : q.once.expandedKeys = q.expandedKeys.eraseDups := rfl
  rw [readRequest_eq_listed d hlist, readRequest_eq_listed d hlist', Query.columns_once, hkeys,
    ← listed_eraseDups_eq_iff d.columnsKey, ← listed_eraseDups_eq_iff d.expansionKey]
  constructor
  · intro h
    -- the columns take the same room on both sides, so what follows them is the same as well
    have hrest := List.append_cancel_left (congrArg Request.parameters h)
    obtain ⟨hcolumns, hrest⟩ := List.append_inj hrest (length_listed_eraseDups _ _)
    exact ⟨hcolumns, List.append_cancel_left hrest⟩
  · rintro ⟨hcolumns, hkeys⟩
    rw [hcolumns, hkeys]
    rfl

/-! ## both queries -/

/-- what a read carries whatever it brings: the parameters of its conditions, and its page -/
def readBasis (p : Provider) (q : Query) (a : Addressing) :
    Except CompileError (List Parameter × Option Page) :=
  if (q.conditions.any fun c => c.predicate.isEntity) && !p.allowsEntity q.resource then
    .error (.entityUnsupported q.resource)
  else
    match conditionParameters q.conditions a with
    | .error e => .error e
    | .ok ps => (Page.ofRows q.limit q.offset).map fun page => (ps, page)

theorem compileReading_eq_map (p : Provider) (q : Query) (a : Addressing) :
    compileReading p q a =
      (readBasis p q a).map fun basis => readRequest p.dialect q basis.1 basis.2 := by
  unfold compileReading readBasis
  split
  · rfl
  · cases conditionParameters q.conditions a with
    | error e => rfl
    | ok ps => cases Page.ofRows q.limit q.offset <;> rfl

/-- a query and the same query with its names once fail alike, or agree up to these names -/
theorem compile_alike (p : Provider) (a : Addressing) {q : Query} (hread : q.mutation = .read) :
    (∃ e, compile p q a = .error e ∧ compile p q.once a = .error e) ∨
      ∃ ps page, compile p q a = .ok (readRequest p.dialect q ps page) ∧
        compile p q.once a = .ok (readRequest p.dialect q.once ps page) := by
  by_cases hj : q.joins = []
  · have hbasis : readBasis p q.once a = readBasis p q a := rfl
    rw [compile_of_read p q hj hread, compile_of_read p q.once hj hread, compileReading_eq_map,
      compileReading_eq_map, hbasis]
    cases readBasis p q a with
    | error e => exact .inl ⟨e, rfl, rfl⟩
    | ok basis => exact .inr ⟨basis.1, basis.2, rfl, rfl⟩
  · exact .inl ⟨_, compile_of_joins p q hj, compile_of_joins p q.once hj⟩

theorem compile_assembled (p : Provider) (a : Addressing) {q : Query} (hread : q.mutation = .read)
    (hlist : q.countOnly = false) : compile p q.assembled a = compile p q.once a := by
  rw [Query.assembled_eq, ← hread, ← hlist]
  unfold compile
  simp only [Query.once, hread]
  rfl

/--
**Texts and steps agree unless a text repeats a name.**  The query of a text that reads a list,
and the query assembled from what it asks for, have the same errors.  The assembled query names
its columns and included keys once, at their first occurrence, and has the request of the text
with its names once; this is the request of the text exactly when the text repeats no name.
-/
theorem read_assembled {text : String} {q : Query} (htext : Query.parse? text = some q)
    (hread : q.mutation = .read) (hlist : q.countOnly = false) (p : Provider) (a : Addressing) :
    (q.assembled.columns.Nodup ∧ q.assembled.expandedKeys.Nodup) ∧
      compile p q.assembled a = compile p q.once a ∧
      (∀ e, compileText p text a = .error e ↔ compile p q.assembled a = .error e) ∧
      (compileText p text a = compile p q.assembled a ↔
        (∃ e, compileText p text a = .error e) ∨ q.columns.Nodup ∧ q.expandedKeys.Nodup) := by
  have hcompile : compileText p text a = compile p q a := by
    unfold compileText
    rw [htext]
  rw [hcompile, compile_assembled p a hread hlist]
  refine ⟨⟨?_, ?_⟩, rfl, ?_⟩
  · rw [Query.assembled_eq]
    show q.once.columns.Nodup
    rw [Query.columns_once]
    exact nodup_eraseDups _
  · rw [Query.assembled_eq]
    exact nodup_eraseDups _
  · rcases compile_alike p a hread with ⟨e, he, he'⟩ | ⟨ps, page, hr, hr'⟩
    · rw [he, he']
      exact ⟨fun _ => Iff.rfl, fun _ => .inl ⟨e, rfl⟩, fun _ => rfl⟩
    · rw [hr, hr']
      refine ⟨fun e => iff_of_false nofun nofun, ?_⟩
      have hok : ¬ ∃ e : CompileError,
          Except.ok (readRequest p.dialect q ps page) = .error e := nofun
      rw [or_iff_right hok, Except.ok.injEq, eq_comm]
      exact readRequest_once_eq_iff p.dialect hlist ps page

/-- a list of invoices that names a column and an included key twice -/
def paidInvoices : Query where
  resource := "invoice"
  conditions := [.compare "status" .eq (.str "paid")]
  expressions := ["total > 0"]
  sortKeys := [⟨"date", .desc⟩]
  limit := some 10
  offset := 20
  projection := .columns ["id", "number", "id"]
  expandedKeys := ["unitId", "unitId"]
  mutation := .read

theorem read_assembled_paidInvoices :
    Query.parse? paidInvoices.text = some paidInvoices ∧ paidInvoices.mutation = .read ∧
      paidInvoices.countOnly = false ∧
      compileText {} paidInvoices.text ≠ compile {} paidInvoices.assembled ∧
      ∃ r, compile {} paidInvoices.assembled = .ok r ∧
        r.parameters =
          [("status-eq", "paid"), ("filter", "total > 0"), ("properties", "id,number"),
           ("sort", "-date"), ("pageSize", "10"), ("page", "3"),
           ("includeReferencedEntities", "unitId")] := by
  have hcontents : paidInvoices.contents = [.str "paid"] := rfl
  have hreads : ∀ v ∈ paidInvoices.contents, v.ReadsBack := by
    rw [hcontents, List.forall_mem_singleton]
    exact Value.readsBack (.str "paid") (.str "paid")
  have htext : Query.parse? paidInvoices.text = some paidInvoices := by
    rw [Query.parse?, Decoder.run, Query.text, Tree.parse?_compact, Option.bind_some]
    exact Query.decode_reads hreads _ (by decide)
  obtain ⟨-, honce, herror, hsame⟩ := read_assembled htext rfl rfl {} {}
  have hrequest : compile {} paidInvoices.once = .ok
      { method := .get, path := "invoice"
        parameters :=
          [("status-eq", "paid"), ("filter", "total > 0"), ("properties", "id,number"),
           ("sort", "-date"), ("pageSize", "10"), ("page", "3"),
           ("includeReferencedEntities", "unitId")] } := by cbv
  have hassembled := honce.trans hrequest
  refine ⟨htext, rfl, rfl, fun h => ?_, _, hassembled, rfl⟩
  -- the same request would name no column twice
  rcases hsame.mp h with ⟨e, he⟩ | ⟨hcolumns, -⟩
  · cases hassembled.symm.trans ((herror e).mp he)
  · exact absurd hcolumns (by decide)

/-- a list of units that names one column twice -/
def unitText : String :=
  (Tree.object [("resource", .text "unit"),
    ("projection", .arr [.text "id", .text "id"])]).compact

/-- the request of a text need not be the one of the query assembled from it -/
theorem read_assembled_unitText :
    ¬ ∀ text q, Query.parse? text = some q → q.mutation = .read → q.countOnly = false →
        ∀ p a, compileText p text a = compile p q.assembled a := by
  intro hsame
  have htext : Query.parse? unitText = some
      { resource := "unit", projection := .columns ["id", "id"], mutation := .read } := by cbv
  have h := hsame unitText _ htext rfl rfl {} {}
  have hread : compileText {} unitText = .ok
      { method := .get, path := "unit", parameters := [("properties", "id,id")] } := by cbv
  have hassembled : compile {} (Query.assembled
      { resource := "unit", projection := .columns ["id", "id"], mutation := .read }) = .ok
      { method := .get, path := "unit", parameters := [("properties", "id")] } := by cbv
  rw [hread, hassembled] at h
  have hparameters := congrArg Request.parameters (Except.ok.inj h)
  revert hparameters
  decide

end RestQuery

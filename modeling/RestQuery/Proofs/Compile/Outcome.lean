import Mathlib
import RestQuery.Compile.Basic
import RestQuery.Proofs.Compile.Condition
import RestQuery.Proofs.Compile.Page

/-!
# What compiling gives

One statement for each stage of compiling, so that no other module looks inside them.

* `conditionParameters_eq_ok_iff`, `conditionParameters_of_not`   all conditions, or the first
                                 one that has no parameter;
* `Provider.Refuses`             queries on an owner that the provider does not know;
* `compileReading_eq_ok_iff`     the requests of reads and counts;
* `compileReading_cases`         the same under any addressing, but not when there is none;
* `Query.NamesRecord`            the changes that name one record;
* `Addressing.KeepsRecords`      the addressings under which records have their usual paths;
* `Query.recordId_eq_ok_iff`     the id of a change under these;
* `compile_of_read`, `compile_of_insert`, `compile_of_update`, `compile_of_delete`   what is left
                                 of a query without joins;
* `request_of_read`, `request_of_insert`, `request_of_update`, `request_of_delete`   method, body
                                 and path of a request.
-/

namespace RestQuery

open Json

/-! ## the parameters of all conditions -/

/-- key and value of each condition, in the order of the conditions -/
theorem conditionParameters_eq_ok_iff {a : Addressing} (cs : List Condition)
    (ps : List Parameter) :
    conditionParameters cs a = .ok ps ↔ List.Forall₂ (fun c p => c.parameter a = .ok p) cs ps := by
  induction cs generalizing ps with
  | nil =>
    rw [List.forall₂_nil_left_iff]
    simp only [conditionParameters, Except.ok.injEq, eq_comm]
  | cons c cs ih =>
    rw [List.forall₂_cons_left_iff]
    simp only [conditionParameters]
    cases hc : c.parameter a with
    | error e => simp
    | ok p =>
      cases hcs : conditionParameters cs a with
      | error e =>
        simp only [reduceCtorEq, false_iff]
        rintro ⟨b, u, -, hu, -⟩
        rw [← ih, hcs] at hu
        cases hu
      | ok us =>
        simp only [Except.ok.injEq]
        constructor
        · rintro rfl
          exact ⟨p, us, rfl, (ih us).mp hcs, rfl⟩
        · rintro ⟨b, u, rfl, hu, rfl⟩
          rw [← ih, hcs] at hu
          rw [Except.ok.inj hu]

theorem conditionParameters_of_compatible (cs : List Condition)
    (h : ∀ c ∈ cs, c.Compatible) :
    conditionParameters cs = .ok (cs.map fun c => (c.key, c.predicate.valueText)) := by
  rw [conditionParameters_eq_ok_iff, List.forall₂_map_right_iff, List.forall₂_same]
  exact fun c hc => Condition.parameter_of_compatible c (h c hc)

/-- the error is the one of the first condition that has no parameter -/
theorem conditionParameters_of_not (before : List Condition) (c : Condition)
    (after : List Condition) (e : CompileError) (hbefore : ∀ b ∈ before, b.Compatible)
    (hc : c.parameter = .error e) : conditionParameters (before ++ c :: after) = .error e := by
  induction before with
  | nil => simp only [List.nil_append, conditionParameters, hc]
  | cons b before ih =>
    have hb := Condition.parameter_of_compatible b (hbefore b List.mem_cons_self)
    rw [List.cons_append, conditionParameters, hb,
      ih fun d hd => hbefore d (List.mem_cons_of_mem _ hd)]

/-! ## reads -/

/-- the query addresses an owner, and the resource is known to have none -/
def Provider.Refuses (p : Provider) (q : Query) : Prop :=
  (∃ c ∈ q.conditions, c.predicate.isEntity = true) ∧
    ∃ resources, p.ownedResources = some resources ∧ q.resource ∉ resources

theorem Provider.refuses_iff (p : Provider) (q : Query) :
    ((q.conditions.any fun c => c.predicate.isEntity) && !p.allowsEntity q.resource) = true ↔
      p.Refuses q := by
  unfold Provider.Refuses Provider.allowsEntity
  rw [Bool.and_eq_true, List.any_eq_true]
  refine and_congr_right fun _ => ?_
  cases p.ownedResources with
  | none => simp
  | some resources => simp

/-- key and value of every condition -/
def Query.conditionPairs (q : Query) : List Parameter :=
  q.conditions.map fun c => (c.key, c.predicate.valueText)

section
variable (p : Provider) (q : Query)

theorem compileReading_of_refuses (h : p.Refuses q) :
    compileReading p q = .error (.entityUnsupported q.resource) := by
  unfold compileReading
  rw [if_pos ((Provider.refuses_iff p q).mpr h)]

variable (h : ¬ p.Refuses q)
include h

theorem compileReading_of_condition (before : List Condition) (c : Condition)
    (after : List Condition) (e : CompileError) (hq : q.conditions = before ++ c :: after)
    (hbefore : ∀ b ∈ before, b.Compatible) (hc : c.parameter = .error e) :
    compileReading p q = .error e := by
  unfold compileReading
  rw [if_neg (fun hr => h ((Provider.refuses_iff p q).mp hr)), hq,
    conditionParameters_of_not before c after e hbefore hc]

theorem compileReading_of_off (hcs : ∀ c ∈ q.conditions, c.Compatible) (e : CompileError)
    (hpage : Page.ofRows q.limit q.offset = .error e) : compileReading p q = .error e := by
  unfold compileReading
  rw [if_neg (fun hr => h ((Provider.refuses_iff p q).mp hr)),
    conditionParameters_of_compatible q.conditions hcs, hpage]

theorem compileReading_of_page (hcs : ∀ c ∈ q.conditions, c.Compatible) (page : Option Page)
    (hpage : Page.ofRows q.limit q.offset = .ok page) :
    compileReading p q = .ok (readRequest p.dialect q q.conditionPairs page) := by
  unfold compileReading
  rw [if_neg (fun hr => h ((Provider.refuses_iff p q).mp hr)),
    conditionParameters_of_compatible q.conditions hcs, hpage]
  rfl

end

theorem exists_first_not {α : Type} {P : α → Prop} (l : List α) (h : ¬ ∀ a ∈ l, P a) :
    ∃ before a after, l = before ++ a :: after ∧ (∀ b ∈ before, P b) ∧ ¬ P a := by
  induction l with
  | nil => exact absurd (fun a ha => absurd ha List.not_mem_nil) h
  | cons a l ih =>
    by_cases ha : P a
    · have hl : ¬ ∀ b ∈ l, P b := fun hl => h (List.forall_mem_cons.mpr ⟨ha, hl⟩)
      obtain ⟨before, b, after, rfl, hbefore, hb⟩ := ih hl
      exact ⟨a :: before, b, after, rfl, List.forall_mem_cons.mpr ⟨ha, hbefore⟩, hb⟩
    · exact ⟨[], a, l, rfl, fun b hb => absurd hb List.not_mem_nil, ha⟩

/-- a read has a request exactly when its owner, its conditions and its page allow it -/
theorem compileReading_eq_ok_iff (p : Provider) (q : Query) (r : Request) :
    compileReading p q = .ok r ↔
      ¬ p.Refuses q ∧ (∀ c ∈ q.conditions, c.Compatible) ∧ ¬ Page.Off q.limit q.offset ∧
        ∃ page, Page.IsOf q.limit q.offset page ∧
          r = readRequest p.dialect q q.conditionPairs page := by
  constructor
  · intro hr
    have hrefuses : ¬ p.Refuses q := fun h => by
      rw [compileReading_of_refuses p q h] at hr
      cases hr
    have hcs : ∀ c ∈ q.conditions, c.Compatible := by
      by_contra hcs
      -- the first condition that is not defined would be reported
      obtain ⟨before, c, after, hq, hbefore, hc⟩ := exists_first_not q.conditions hcs
      obtain ⟨e, he, -⟩ := Condition.parameter_of_not_compatible c hc
      rw [compileReading_of_condition p q hrefuses before c after e hq hbefore he] at hr
      cases hr
    have hoff : ¬ Page.Off q.limit q.offset := fun hoff => by
      obtain ⟨e, he, -⟩ := Page.ofRows_of_off q.limit q.offset hoff
      rw [compileReading_of_off p q hrefuses hcs e he] at hr
      cases hr
    obtain ⟨page, hpage, hof⟩ := Page.ofRows_of_not_off q.limit q.offset hoff
    rw [compileReading_of_page p q hrefuses hcs page hpage] at hr
    exact ⟨hrefuses, hcs, hoff, page, hof, (Except.ok.inj hr).symm⟩
  · rintro ⟨hrefuses, hcs, hoff, page, hof, rfl⟩
    obtain ⟨page', hpage, hof'⟩ := Page.ofRows_of_not_off q.limit q.offset hoff
    rw [compileReading_of_page p q hrefuses hcs page' hpage, Page.isOf_unique hof' hof]

/-- a read is refused or not before it matters whether it counts -/
theorem compileReading_cases (p : Provider) (a : Addressing) (q : Query) :
    (∃ e, ∀ count, compileReading p { q with countOnly := count } a = .error e) ∨
    ∃ ps page, List.Forall₂ (fun c x => c.parameter a = .ok x) q.conditions ps ∧
      ∀ count, compileReading p { q with countOnly := count } a =
        .ok (readRequest p.dialect { q with countOnly := count } ps page) := by
  simp only [compileReading]
  split
  · exact .inl ⟨_, fun _ => rfl⟩
  · cases hps : conditionParameters q.conditions a with
    | error e => exact .inl ⟨e, fun _ => rfl⟩
    | ok ps =>
      cases hpage : Page.ofRows q.limit q.offset with
      | error e => exact .inl ⟨e, fun _ => rfl⟩
      | ok page =>
        exact .inr ⟨ps, page, (conditionParameters_eq_ok_iff _ _).mp hps, fun _ => rfl⟩

/-! ## changes -/

/-- updates and deletions -/
def Query.IsChange (q : Query) : Prop := (∃ body, q.mutation = .update body) ∨ q.mutation = .delete

/-- a value that is an id, and its text -/
inductive Json.Value.IsId : Value → String → Prop
  | text (s : String) (h : s ≠ "") : IsId (.str s) s
  | number (n : Number) : IsId (.num n) n.numeral.text

theorem Json.Value.canBeId_iff (v : Value) : v.canBeId = true ↔ ∃ id, v.IsId id := by
  constructor
  · intro h
    cases v with
    | str s =>
      have hs : s ≠ "" := by simpa [canBeId] using h
      exact ⟨s, .text s hs⟩
    | num n => exact ⟨_, .number n⟩
    | _ => cases h
  · rintro ⟨id, h⟩
    cases h with
    | text s hs => simpa [canBeId] using hs
    | number n => rfl

theorem Json.Value.IsId.plainText_eq {v : Value} {id : String} (h : v.IsId id) :
    v.plainText = id := by
  cases h <;> rfl

/-- the one condition of the query asks for the record with this id -/
structure Query.NamesRecord (q : Query) (id : String) : Prop where
  expressions : q.expressions = []
  condition : ∃ value, q.conditions = [⟨.and, .compare idColumn .eq value⟩] ∧ value.IsId id

theorem Query.idValue_of_names {q : Query} {id : String} (h : q.NamesRecord id) (mode : String) :
    ∃ value, q.idValue mode = .ok value ∧ value.plainText = id := by
  obtain ⟨value, hq, hid⟩ := h.condition
  refine ⟨value, ?_, hid.plainText_eq⟩
  unfold Query.idValue
  rw [h.expressions, hq, if_pos List.isEmpty_nil]
  exact if_pos ⟨rfl, (Value.canBeId_iff value).mpr ⟨id, hid⟩⟩

theorem Query.idValue_of_not {q : Query} (h : ¬ ∃ id, q.NamesRecord id) (mode : String) :
    ∃ e, q.idValue mode = .error e ∧ e.kind = .unsupportedOperation := by
  unfold Query.idValue
  split
  · next hempty =>
    split
    · exact ⟨_, rfl, rfl⟩
    · next column value hq =>
      rw [if_neg]
      · exact ⟨_, rfl, rfl⟩
      · rintro ⟨rfl, hid⟩
        obtain ⟨id, hid⟩ := (Value.canBeId_iff value).mp hid
        exact h ⟨id, List.isEmpty_iff.mp hempty, value, hq, hid⟩
    · exact ⟨_, rfl, rfl⟩
  · exact ⟨_, rfl, rfl⟩

/-- records have their usual paths, whatever becomes of the keys and lists of conditions -/
structure Addressing.KeepsRecords (a : Addressing) : Prop where
  recordPath : a.recordPath = pathOfRecord
  valueText : a.valueText = Value.plainText

theorem Addressing.keepsRecords_usual : ({} : Addressing).KeepsRecords := ⟨rfl, rfl⟩

section
variable {a : Addressing}

theorem Query.recordId_of_not {q : Query} (h : ¬ ∃ id, q.NamesRecord id) (mode : String) :
    ∃ e, q.recordId mode a = .error e ∧ e.kind = .unsupportedOperation := by
  obtain ⟨e, he, hk⟩ := Query.idValue_of_not h mode
  refine ⟨e, ?_, hk⟩
  simp only [Query.recordId, he]

theorem Query.recordId_map_eq_ok {q : Query} {mode : String} {request : String → Request}
    {r : Request} (h : (q.recordId mode a).map request = .ok r) :
    ∃ id, q.recordId mode a = .ok id ∧ r = request id := by
  cases hid : q.recordId mode a with
  | error e =>
    rw [hid] at h
    cases h
  | ok id =>
    rw [hid] at h
    exact ⟨id, rfl, (Except.ok.inj h).symm⟩

variable (ha : a.KeepsRecords)
include ha

theorem Query.recordId_of_names {q : Query} {id : String} (h : q.NamesRecord id) (mode : String)
    (hid : '/' ∉ id.toList) : q.recordId mode a = .ok id := by
  obtain ⟨value, hv, rfl⟩ := Query.idValue_of_names h mode
  simp only [Query.recordId, hv, ha.valueText]
  rw [if_neg (by simpa using hid)]

theorem Query.recordId_of_separator {q : Query} {id : String} (h : q.NamesRecord id)
    (mode : String) (hid : '/' ∈ id.toList) : q.recordId mode a = .error (.idWithSeparator id) := by
  obtain ⟨value, hv, rfl⟩ := Query.idValue_of_names h mode
  simp only [Query.recordId, hv, ha.valueText]
  rw [if_pos (by simpa using hid)]

theorem Query.recordId_eq_ok_iff (q : Query) (mode id : String) :
    q.recordId mode a = .ok id ↔ q.NamesRecord id ∧ '/' ∉ id.toList := by
  constructor
  · intro h
    by_cases hn : ∃ other, q.NamesRecord other
    · obtain ⟨other, hn⟩ := hn
      by_cases hsep : '/' ∈ other.toList
      · rw [Query.recordId_of_separator ha hn mode hsep] at h
        cases h
      · rw [Query.recordId_of_names ha hn mode hsep] at h
        cases h
        exact ⟨hn, hsep⟩
    · obtain ⟨e, he, -⟩ := Query.recordId_of_not hn mode
      rw [he] at h
      cases h
  · rintro ⟨hn, hsep⟩
    exact Query.recordId_of_names ha hn mode hsep

end

/-! ## all queries -/

section
variable (p : Provider) (q : Query) {a : Addressing}

theorem compile_of_joins (h : q.joins ≠ []) : compile p q a = .error (.joins q.joins) := by
  unfold compile
  rw [if_neg (by simpa using h)]

theorem joins_of_compile {r : Request} (h : compile p q a = .ok r) : q.joins = [] := by
  by_contra hj
  rw [compile_of_joins p q hj] at h
  cases h

variable (hj : q.joins = [])
include hj

theorem compile_of_read (hm : q.mutation = .read) : compile p q a = compileReading p q a := by
  unfold compile
  rw [hj, hm, if_pos List.isEmpty_nil]

theorem compile_of_insert (i : Insertion) (hm : q.mutation = .insert i) :
    compile p q a = compileInsertion p.dialect q i := by
  unfold compile
  rw [hj, hm, if_pos List.isEmpty_nil]

theorem compile_of_update (body : Object) (hm : q.mutation = .update body) :
    compile p q a = (q.recordId "update" a).map fun id =>
      { method := .put, path := a.recordPath q.resource id
        parameters := toleranceParameters p.dialect q, body := some body } := by
  unfold compile
  rw [hj, hm, if_pos List.isEmpty_nil]
  simp only [compileUpdating]
  cases q.recordId "update" a <;> rfl

theorem compile_of_delete (hm : q.mutation = .delete) :
    compile p q a = (q.recordId "delete" a).map fun id =>
      { method := .delete, path := a.recordPath q.resource id } := by
  unfold compile
  rw [hj, hm, if_pos List.isEmpty_nil]
  simp only [compileDeletion]
  cases q.recordId "delete" a <;> rfl

end

/-! ## all requests -/

section
variable {p : Provider} {q : Query} {a : Addressing} {r : Request} (h : compile p q a = .ok r)
include h

theorem request_of_read (hm : q.mutation = .read) :
    r.method = .get ∧ r.body = none ∧
      r.path = if q.countOnly then p.dialect.pathOfCount q.resource else q.resource := by
  rw [compile_of_read p q (joins_of_compile p q h) hm] at h
  rcases compileReading_cases p a q with ⟨e, he⟩ | ⟨ps, page, -, hr⟩
  · cases (he q.countOnly).symm.trans h
  · cases (hr q.countOnly).symm.trans h
    unfold readRequest
    cases q.countOnly <;> exact ⟨rfl, rfl, rfl⟩

theorem request_of_insert (i : Insertion) (hm : q.mutation = .insert i) :
    r.method = .post ∧ ∃ body, i.source = .values body ∧ r.body = some body := by
  rw [compile_of_insert p q (joins_of_compile p q h) i hm] at h
  unfold compileInsertion at h
  split at h
  · cases h
  · split at h
    · next body hsource =>
      cases h
      exact ⟨rfl, body, hsource, rfl⟩
    · cases h

theorem request_of_update (body : Object) (hm : q.mutation = .update body) :
    r.method = .put ∧ r.body = some body ∧ r.parameters = toleranceParameters p.dialect q ∧
      ∃ id, q.recordId "update" a = .ok id ∧ r.path = a.recordPath q.resource id := by
  rw [compile_of_update p q (joins_of_compile p q h) body hm] at h
  obtain ⟨id, hid, rfl⟩ := Query.recordId_map_eq_ok h
  exact ⟨rfl, rfl, rfl, id, hid, rfl⟩

theorem request_of_delete (hm : q.mutation = .delete) :
    r.method = .delete ∧ r.body = none ∧ r.parameters = [] ∧
      ∃ id, q.recordId "delete" a = .ok id ∧ r.path = a.recordPath q.resource id := by
  rw [compile_of_delete p q (joins_of_compile p q h) hm] at h
  obtain ⟨id, hid, rfl⟩ := Query.recordId_map_eq_ok h
  exact ⟨rfl, rfl, rfl, id, hid, rfl⟩

end

end RestQuery

import Mathlib
import RestQuery.Compile.Basic
import RestQuery.Proofs.Compile.Count

/-!
# Dialects only choose names

What becomes of a query is settled before a dialect is asked for a single name: the error, or the
method, the body, the conditions and the value of every parameter.  A dialect then names the keys
that stand for the other parts of the query, and the path of a count.

* `KeyRole`, `Dialect.named`        what a key stands for, and its name in a dialect;
* `Outline`, `Outline.request`      a request before its names are known, and with them;
* `compile_outline`                 every query has one outline or one error for all dialects;
* `compile_same_but_names`          two dialects side by side.
-/

namespace RestQuery

open Json

/-! ## names that are still open -/

/-- what a key stands for -/
inductive KeyRole where
  | expression (place : Nat)
  | columns | order | rowsPerPage | pageNumber | expansion | tolerance

/-- the name of a key -/
def Dialect.key (d : Dialect) : KeyRole → String
  | .expression place => d.expressionKey place
  | .columns => d.columnsKey
  | .order => d.orderKey
  | .rowsPerPage => d.rowsPerPageKey
  | .pageNumber => d.pageNumberKey
  | .expansion => d.expansionKey
  | .tolerance => d.toleranceKey

def Dialect.named (d : Dialect) (x : KeyRole × String) : Parameter := (d.key x.1, x.2)

/-- a request before a dialect gives its names; the keys of conditions are none of them -/
structure Outline where
  method : Method
  /-- the path itself, or the resource that is counted -/
  path : String
  counts : Bool
  conditions : List Parameter
  others : List (KeyRole × String)
  body : Option Object

/-- with the names of a dialect -/
def Outline.request (o : Outline) (d : Dialect) : Request where
  method := o.method
  path := if o.counts then d.pathOfCount o.path else o.path
  parameters := o.conditions ++ o.others.map d.named
  body := o.body

/-- the same roles and values whoever names them -/
def Uniform (f : Dialect → List Parameter) : Prop :=
  ∃ xs : List (KeyRole × String), ∀ d, f d = xs.map d.named

namespace Uniform

theorem nil : Uniform fun _ => [] := ⟨[], fun _ => rfl⟩

theorem append {f g : Dialect → List Parameter} (hf : Uniform f) (hg : Uniform g) :
    Uniform fun d => f d ++ g d := by
  obtain ⟨xs, hxs⟩ := hf
  obtain ⟨ys, hys⟩ := hg
  refine ⟨xs ++ ys, fun d => ?_⟩
  show f d ++ g d = _
  rw [hxs, hys, List.map_append]

theorem expressions (es : List String) : Uniform fun d => expressionParameters d es := by
  refine ⟨(es.zipIdx 1).map fun e => (.expression e.2, e.1), fun d => ?_⟩
  rw [List.map_map]
  rfl

theorem projection (projection : Projection) :
    Uniform fun d => projectionParameters d projection := by
  cases projection with
  | all => exact nil
  | columns names =>
    simp only [projectionParameters]
    split
    · exact nil
    · exact ⟨[(.columns, joinTexts ',' names)], fun _ => rfl⟩

theorem sort (ks : List SortKey) : Uniform fun d => sortParameters d ks := by
  unfold sortParameters
  split
  · exact nil
  · exact ⟨[(.order, joinTexts ',' (ks.map SortKey.text))], fun _ => rfl⟩

theorem page (page : Option Page) : Uniform fun d => pageParameters d page := by
  cases page with
  | none => exact nil
  | some page =>
    exact ⟨[(.rowsPerPage, Nat.repr page.size.toNat), (.pageNumber, Nat.repr page.number.toNat)],
      fun _ => rfl⟩

theorem expansion (keys : List String) : Uniform fun d => includeParameters d keys := by
  unfold includeParameters
  split
  · exact nil
  · exact ⟨[(.expansion, joinTexts ',' keys)], fun _ => rfl⟩

theorem tolerance (q : Query) : Uniform fun d => toleranceParameters d q := by
  unfold toleranceParameters
  split
  · exact ⟨[(.tolerance, "true")], fun _ => rfl⟩
  · exact nil

end Uniform

/-! ## the outline of a query -/

/-- the query only counts -/
def Query.IsCount (q : Query) : Prop := q.mutation = .read ∧ q.countOnly = true

/-- the conditions that the request of the query carries as parameters -/
def Query.carried (q : Query) : List Condition :=
  match q.mutation with
  | .read => if q.countOnly then q.conditions.filter fun c => c.predicate.isEntity else q.conditions
  | _ => []

/-- what the outline of a query holds of it -/
structure Query.Outlined (q : Query) (a : Addressing) (o : Outline) : Prop where
  counts : o.counts = true ↔ q.IsCount
  path : o.counts = true → o.path = q.resource
  conditions : List.Forall₂ (fun c x => c.parameter a = .ok x) q.carried o.conditions

section
variable {q : Query} {a : Addressing}

theorem readRequest_outline {ps : List Parameter} (hm : q.mutation = .read)
    (hps : List.Forall₂ (fun c x => c.parameter a = .ok x) q.conditions ps) (page : Option Page) :
    ∃ o, q.Outlined a o ∧ ∀ d, readRequest d q ps page = o.request d := by
  cases hcount : q.countOnly with
  | true =>
    have hcarried : q.carried = q.conditions.filter fun c => c.predicate.isEntity := by
      simp only [Query.carried, hm, hcount, if_true]
    refine ⟨⟨.get, q.resource, true, entityParameters q.conditions ps, [], none⟩, ⟨?_, ?_, ?_⟩, ?_⟩
    · exact ⟨fun _ => ⟨hm, hcount⟩, fun _ => rfl⟩
    · exact fun _ => rfl
    · rw [hcarried]
      exact entityParameters_forall₂ hps
    · intro d
      simp only [readRequest, hcount, if_true, Outline.request, List.map_nil, List.append_nil]
  | false =>
    have hcarried : q.carried = q.conditions := by
      simp only [Query.carried, hm, hcount, Bool.false_eq_true, if_false]
    obtain ⟨xs, hxs⟩ := ((((Uniform.expressions q.expressions).append
      (.projection q.projection)).append (.sort q.sortKeys)).append (.page page)).append
      (.expansion q.expandedKeys)
    refine ⟨⟨.get, q.resource, false, ps, xs, none⟩, ⟨?_, ?_, ?_⟩, ?_⟩
    · exact ⟨fun h => absurd h Bool.false_ne_true,
        fun h => absurd h.2 (by rw [hcount]; exact Bool.false_ne_true)⟩
    · exact fun h => absurd h Bool.false_ne_true
    · rw [hcarried]
      exact hps
    · intro d
      simp only [readRequest, hcount, Bool.false_eq_true, if_false, Outline.request, ← hxs d,
        List.append_assoc]

theorem outlined_of_not_read {o : Outline} (hm : q.mutation ≠ .read) (hcounts : o.counts = false)
    (hconditions : o.conditions = []) : q.Outlined a o where
  counts := by
    rw [hcounts]
    exact ⟨nofun, fun h => absurd h.1 hm⟩
  path h := by
    rw [hcounts] at h
    cases h
  conditions := by
    have hcarried : q.carried = [] := by
      unfold Query.carried
      split
      · contradiction
      · rfl
    rw [hcarried, hconditions]
    exact .nil

end

section
variable (owned : Option (List String)) (a : Addressing) (q : Query)

/-- no check of a read sees the dialect -/
theorem compileReading_eq (d : Dialect) :
    compileReading { dialect := d, ownedResources := owned } q a =
      if (q.conditions.any fun c => c.predicate.isEntity) &&
          !Provider.allowsEntity { ownedResources := owned } q.resource then
        .error (.entityUnsupported q.resource)
      else
        (conditionParameters q.conditions a).bind fun ps =>
          (Page.ofRows q.limit q.offset).map fun page => readRequest d q ps page := by
  unfold compileReading
  cases conditionParameters q.conditions a <;> cases Page.ofRows q.limit q.offset <;> rfl

theorem compileReading_outline (hm : q.mutation = .read) :
    (∃ e, ∀ d, compileReading { dialect := d, ownedResources := owned } q a = .error e) ∨
    ∃ o, q.Outlined a o ∧
      ∀ d, compileReading { dialect := d, ownedResources := owned } q a = .ok (o.request d) := by
  simp only [compileReading_eq]
  split
  · exact .inl ⟨_, fun _ => rfl⟩
  · cases hps : conditionParameters q.conditions a with
    | error e => exact .inl ⟨e, fun _ => rfl⟩
    | ok ps =>
      cases Page.ofRows q.limit q.offset with
      | error e => exact .inl ⟨e, fun _ => rfl⟩
      | ok page =>
        have hforall := (conditionParameters_eq_ok_iff q.conditions ps).mp hps
        obtain ⟨o, ho, hr⟩ := readRequest_outline hm hforall page
        exact .inr ⟨o, ho, fun d => congrArg Except.ok (hr d)⟩

theorem compileInsertion_outline (i : Insertion) (hm : q.mutation = .insert i) :
    (∃ e, ∀ d, compileInsertion d q i = .error e) ∨
    ∃ o, q.Outlined a o ∧ ∀ d, compileInsertion d q i = .ok (o.request d) := by
  have hread : q.mutation ≠ .read := by rw [hm]; exact nofun
  unfold compileInsertion
  split
  · exact .inl ⟨_, fun _ => rfl⟩
  · cases i.source with
    | values body =>
      obtain ⟨xs, hxs⟩ := Uniform.tolerance q
      refine .inr ⟨⟨.post, q.resource, false, [], xs, some body⟩,
        outlined_of_not_read hread rfl rfl, fun d => ?_⟩
      simp only [hxs d]
      rfl
    | subquery nested => exact .inl ⟨_, fun _ => rfl⟩

theorem compileUpdating_outline (body : Object) (hm : q.mutation = .update body) :
    (∃ e, ∀ d, compileUpdating d q body a = .error e) ∨
    ∃ o, q.Outlined a o ∧ ∀ d, compileUpdating d q body a = .ok (o.request d) := by
  have hread : q.mutation ≠ .read := by rw [hm]; exact nofun
  unfold compileUpdating
  cases q.recordId "update" a with
  | error e => exact .inl ⟨e, fun _ => rfl⟩
  | ok id =>
    obtain ⟨xs, hxs⟩ := Uniform.tolerance q
    refine .inr ⟨⟨.put, a.recordPath q.resource id, false, [], xs, some body⟩,
      outlined_of_not_read hread rfl rfl, fun d => ?_⟩
    simp only [hxs d]
    rfl

theorem compileDeletion_outline (hm : q.mutation = .delete) :
    (∃ e, compileDeletion q a = .error e) ∨
    ∃ o, q.Outlined a o ∧ ∀ d, compileDeletion q a = .ok (o.request d) := by
  have hread : q.mutation ≠ .read := by rw [hm]; exact nofun
  unfold compileDeletion
  cases q.recordId "delete" a with
  | error e => exact .inl ⟨e, rfl⟩
  | ok id =>
    exact .inr ⟨⟨.delete, a.recordPath q.resource id, false, [], [], none⟩,
      outlined_of_not_read hread rfl rfl, fun _ => rfl⟩

/-- one error, or one outline, for all dialects -/
theorem compile_outline :
    (∃ e, ∀ d, compile { dialect := d, ownedResources := owned } q a = .error e) ∨
    ∃ o, q.Outlined a o ∧
      ∀ d, compile { dialect := d, ownedResources := owned } q a = .ok (o.request d) := by
  unfold compile
  split
  · cases hm : q.mutation with
    | read => exact compileReading_outline owned a q hm
    | insert i => exact compileInsertion_outline a q i hm
    | update body => exact compileUpdating_outline a q body hm
    | delete =>
      rcases compileDeletion_outline a q hm with ⟨e, he⟩ | ho
      · exact .inl ⟨e, fun _ => he⟩
      · exact .inr ho
  · exact .inl ⟨_, fun _ => rfl⟩

end

/-! ## two dialects -/

/-- two requests for one query that differ in nothing but the names of two dialects -/
structure Query.SameButNames (q : Query) (a : Addressing) (d d' : Dialect) (r r' : Request) :
    Prop where
  method : r.method = r'.method
  body : r.body = r'.body
  /-- as many parameters, with the same values in the same places -/
  values : r.parameters.map Prod.snd = r'.parameters.map Prod.snd
  /-- conditions come first, under the same keys; each other key has one role in both -/
  parameters : ∃ (conditions : List Parameter) (others : List (KeyRole × String)),
    List.Forall₂ (fun c x => c.parameter a = .ok x) q.carried conditions ∧
      r.parameters = conditions ++ others.map d.named ∧
      r'.parameters = conditions ++ others.map d'.named
  path : ¬ q.IsCount → r.path = r'.path
  countPath : q.IsCount → r.path = d.pathOfCount q.resource ∧ r'.path = d'.pathOfCount q.resource

theorem Outline.sameButNames {q : Query} {a : Addressing} {o : Outline} (h : q.Outlined a o)
    (d d' : Dialect) : q.SameButNames a d d' (o.request d) (o.request d') where
  method := rfl
  body := rfl
  values := by
    simp only [Outline.request, List.map_append, List.map_map]
    rfl
  parameters := ⟨o.conditions, o.others, h.conditions, rfl, rfl⟩
  path hcount := by
    simp only [Outline.request]
    rw [if_neg (mt h.counts.mp hcount), if_neg (mt h.counts.mp hcount)]
  countPath hcount := by
    have hcounts := h.counts.mpr hcount
    simp only [Outline.request]
    rw [if_pos hcounts, if_pos hcounts, h.path hcounts]
    exact ⟨rfl, rfl⟩

/--
**A dialect only chooses names.**  Two dialects give the same error, or two requests with the same
method, the same body, the same values in the same places, the same keys of conditions and, but for
a count, the same path; the path of a count is the one that each dialect says.
-/
theorem compile_same_but_names (d d' : Dialect) (owned : Option (List String)) (a : Addressing)
    (q : Query) :
    (∃ e, compile { dialect := d, ownedResources := owned } q a = .error e ∧
      compile { dialect := d', ownedResources := owned } q a = .error e) ∨
    ∃ r r', compile { dialect := d, ownedResources := owned } q a = .ok r ∧
      compile { dialect := d', ownedResources := owned } q a = .ok r' ∧
      q.SameButNames a d d' r r' := by
  rcases compile_outline owned a q with ⟨e, he⟩ | ⟨o, ho, hr⟩
  · exact .inl ⟨e, he d, he d'⟩
  · exact .inr ⟨_, _, hr d, hr d', Outline.sameButNames ho d d'⟩

end RestQuery

import Mathlib
import RestQuery.Proofs.Compile.ReadKeys

/-!
# Counting and listing

A count and the listing of the same query differ in nothing but their requests: both are refused
for the same reason, and what the count carries is the part of the listing that addresses an owner.

* `compile_read_cases`              one reason to refuse both, or parameters and a page for both;
* `entityParameters_eq_filter`      under the usual keys, owners are told by the key alone;
* `count_agrees_with_list`          the two requests side by side.
-/

namespace RestQuery

section
variable (p : Provider) (a : Addressing) (q : Query)

theorem compile_read_cases (hm : q.mutation = .read) :
    (∃ e, ∀ count, compile p { q with countOnly := count } a = .error e) ∨
    ∃ ps page, List.Forall₂ (fun c x => c.parameter a = .ok x) q.conditions ps ∧
      ∀ count, compile p { q with countOnly := count } a =
        .ok (readRequest p.dialect { q with countOnly := count } ps page) := by
  by_cases hj : q.joins = []
  · have hread (count : Bool) : compile p { q with countOnly := count } a =
        compileReading p { q with countOnly := count } a :=
      compile_of_read p { q with countOnly := count } hj hm
    simp only [hread]
    exact compileReading_cases p a q
  · exact .inl ⟨.joins q.joins, fun count => compile_of_joins p { q with countOnly := count } hj⟩

end

/-! ## the parameters of a count -/

section
variable {a : Addressing} {cs : List Condition} {ps : List Parameter}

theorem entityParameters_append (h : cs.length = ps.length) (rest : List Parameter) :
    entityParameters cs (ps ++ rest) = entityParameters cs ps := by
  have hzip : cs.zip (ps ++ rest) = cs.zip ps := by
    conv_lhs => rw [← List.append_nil cs, List.zip_append h]
    rw [List.zip_nil_left, List.append_nil]
  unfold entityParameters
  rw [hzip]

theorem entityParameters_cons (c : Condition) (x : Parameter) :
    entityParameters (c :: cs) (x :: ps) =
      if c.predicate.isEntity then x :: entityParameters cs ps else entityParameters cs ps := by
  unfold entityParameters
  rw [List.zip_cons_cons, List.filter_cons]
  split <;> rfl

/-- one parameter for each condition on an owner, in their order -/
theorem entityParameters_forall₂ (h : List.Forall₂ (fun c x => c.parameter a = .ok x) cs ps) :
    List.Forall₂ (fun c x => c.parameter a = .ok x)
      (cs.filter fun c => c.predicate.isEntity) (entityParameters cs ps) := by
  induction h with
  | nil => exact .nil
  | cons hc _ ih =>
    rw [entityParameters_cons, List.filter_cons]
    split
    · exact .cons hc ih
    · exact ih

/-- the keys that address an owner -/
def ownerKey (x : Parameter) : Bool := x.1 == entityNameColumn || x.1 == entityIdColumn

theorem ownerKey_iff (x : Parameter) :
    ownerKey x = true ↔ x.1 = entityNameColumn ∨ x.1 = entityIdColumn := by
  unfold ownerKey
  rw [Bool.or_eq_true, beq_iff_eq, beq_iff_eq]

theorem ownerKey_parameterKey (column code : String) (byOr : Bool) (v : String) :
    ownerKey (parameterKey column code byOr, v) = false := by
  -- every other key has a dash between its column and its word
  have hdash := parameterKey_dash column code byOr
  rw [← Bool.not_eq_true, ownerKey_iff]
  show ¬ (parameterKey column code byOr = _ ∨ parameterKey column code byOr = _)
  rintro (e | e)
  · rw [e] at hdash
    exact absurd hdash (by decide)
  · rw [e] at hdash
    exact absurd hdash (by decide)

/-- no column makes a key of an owner out of another condition -/
theorem ownerKey_of_parameter {c : Condition} {x : Parameter} (h : c.parameter = .ok x) :
    ownerKey x = c.predicate.isEntity := by
  obtain ⟨hc, rfl⟩ := (Condition.parameter_eq_ok_iff c x).mp h
  obtain ⟨j, predicate⟩ := c
  cases predicate with
  | entity column v => exact (ownerKey_iff _).mpr hc.1
  | compare | among | notAmong | null | notNull => exact ownerKey_parameterKey _ _ _ _

theorem entityParameters_eq_filter (h : List.Forall₂ (fun c x => c.parameter = .ok x) cs ps) :
    entityParameters cs ps = ps.filter ownerKey := by
  induction h with
  | nil => rfl
  | cons hc _ ih => rw [entityParameters_cons, List.filter_cons, ownerKey_of_parameter hc, ih]

end

theorem expressionParameters_not_owner (es : List String) (x : Parameter)
    (h : x ∈ expressionParameters .standard es) : ¬ ownerKey x = true := by
  obtain ⟨i, hi, rfl⟩ := List.mem_iff_getElem.mp h
  have hkey := KeyClass.expression_not_condition (expressionParameters_covered es i hi)
  exact fun howner => hkey (.inr ((ownerKey_iff _).mp howner))

theorem derivedParameters_not_owner (q : Query) (page : Option Page) (x : Parameter)
    (h : x ∈ derivedParameters q page) : ¬ ownerKey x = true := by
  have hkey := derivedParameters_covered q page x h
  exact fun howner =>
    KeyClass.condition_not_derived (.inr ((ownerKey_iff _).mp howner)) hkey

/-- a listing under the usual names carries no other key of an owner -/
theorem listing_filter_ownerKey (q : Query) (ps : List Parameter) (page : Option Page) :
    (readRequest .standard { q with countOnly := false } ps page).parameters.filter ownerKey =
      ps.filter ownerKey := by
  have hparameters : (readRequest .standard { q with countOnly := false } ps page).parameters =
      ps ++ expressionParameters .standard q.expressions ++ derivedParameters q page := by
    simp only [readRequest, derivedParameters, List.append_assoc, Bool.false_eq_true, if_false]
  rw [hparameters, List.filter_append, List.filter_append,
    List.filter_eq_nil_iff.mpr (expressionParameters_not_owner q.expressions),
    List.filter_eq_nil_iff.mpr (derivedParameters_not_owner q page), List.append_nil,
    List.append_nil]

/-! ## the two requests -/

/-- the request of a count beside the one of the listing -/
structure Query.CountsOf (q : Query) (d : Dialect) (a : Addressing) (count list : Request) :
    Prop where
  method : count.method = .get
  path : count.path = d.pathOfCount q.resource
  body : count.body = none
  /-- the listing begins with the parameters of the conditions -/
  conditions : List.Forall₂ (fun c x => c.parameter a = .ok x) q.conditions
    (list.parameters.take q.conditions.length)
  /-- the count keeps those of the conditions on an owner -/
  parameters : count.parameters =
    ((q.conditions.zip list.parameters).filter fun cx => cx.1.predicate.isEntity).map Prod.snd
  owners : List.Forall₂ (fun c x => c.parameter a = .ok x)
    (q.conditions.filter fun c => c.predicate.isEntity) count.parameters

theorem readRequest_countsOf {d : Dialect} {a : Addressing} {q : Query} {ps : List Parameter}
    (h : List.Forall₂ (fun c x => c.parameter a = .ok x) q.conditions ps) (page : Option Page) :
    q.CountsOf d a (readRequest d { q with countOnly := true } ps page)
      (readRequest d { q with countOnly := false } ps page) := by
  obtain ⟨rest, hrest⟩ :
      ∃ rest, (readRequest d { q with countOnly := false } ps page).parameters = ps ++ rest := by
    simp only [readRequest, List.append_assoc, Bool.false_eq_true, if_false]
    exact ⟨_, rfl⟩
  refine ⟨rfl, rfl, rfl, ?_, ?_, entityParameters_forall₂ h⟩
  · rw [hrest, h.length_eq, List.take_left]
    exact h
  · rw [hrest]
    exact (entityParameters_append h.length_eq rest).symm

/--
**Counting agrees with listing.**  A count is refused exactly when the listing is, with the same
error.  Else it gets the counting path without a body, and its parameters are those that the
listing carries for the conditions on an owner; under the standard names these are the ones whose
key is that of an owner.
-/
theorem count_agrees_with_list (p : Provider) (a : Addressing) (q : Query)
    (hm : q.mutation = .read) :
    (∀ e, compile p { q with countOnly := true } a = .error e ↔
      compile p { q with countOnly := false } a = .error e) ∧
    ∀ count list, compile p { q with countOnly := true } a = .ok count →
      compile p { q with countOnly := false } a = .ok list →
      q.CountsOf p.dialect a count list ∧
        (p.dialect = .standard → a = {} → count.parameters =
          list.parameters.filter fun x => x.1 == "entityName" || x.1 == "entityId") := by
  rcases compile_read_cases p a q hm with ⟨e, he⟩ | ⟨ps, page, hps, hr⟩
  · refine ⟨fun e' => by rw [he true, he false], fun count list hcount => ?_⟩
    rw [he true] at hcount
    cases hcount
  · refine ⟨fun e => by rw [hr true, hr false]; simp only [reduceCtorEq],
      fun count list hcount hlist => ?_⟩
    rw [hr true] at hcount
    rw [hr false] at hlist
    cases hcount
    cases hlist
    refine ⟨readRequest_countsOf hps page, fun hd ha => ?_⟩
    subst ha
    rw [hd]
    exact (entityParameters_eq_filter hps).trans (listing_filter_ownerKey q ps page).symm

/-- contacts of a company, with a column that is called like the key of an owner -/
def contactsOfCompany : Query where
  resource := "contactPerson"
  conditions :=
    [.compare "entityId" .eq (.str "7"), .entity "entityName" (.str "company"),
     (Condition.null "entityName").joinedByOr, .entity "entityId" (.str "4-2")]
  expressions := ["entityId = 1"]
  limit := some 10
  projection := .columns ["entityName"]
  mutation := .read

theorem count_agrees_with_list_contacts :
    contactsOfCompany.mutation = .read ∧
    ∃ count list, compile {} { contactsOfCompany with countOnly := true } = .ok count ∧
      compile {} { contactsOfCompany with countOnly := false } = .ok list ∧
      count.path = "contactPerson/count" ∧
      count.parameters = [("entityName", "company"), ("entityId", "4-2")] ∧
      count.parameters =
        list.parameters.filter fun x => x.1 == "entityName" || x.1 == "entityId" := by
  have hcount : compile {} { contactsOfCompany with countOnly := true } = .ok
      { method := .get, path := "contactPerson/count"
        parameters := [("entityName", "company"), ("entityId", "4-2")] } := by cbv
  have hlist : compile {} { contactsOfCompany with countOnly := false } = .ok
      { method := .get, path := "contactPerson"
        parameters :=
          [("entityId-eq", "7"), ("entityName", "company"), ("or-entityName-null", ""),
           ("entityId", "4-2"), ("filter", "entityId = 1"), ("properties", "entityName"),
           ("pageSize", "10"), ("page", "1")] } := by cbv
  obtain ⟨-, hboth⟩ := count_agrees_with_list {} {} contactsOfCompany rfl
  obtain ⟨hcounts, hfilter⟩ := hboth _ _ hcount hlist
  exact ⟨rfl, _, _, hcount, hlist, hcounts.path, rfl, hfilter rfl rfl⟩

end RestQuery

import Mathlib
import RestQuery.Proofs.Compile.Outcome

/-!
# The keys of a read

The parameters of a read fall into classes that can be told from the keys alone: conditions,
expressions by their place, and the parameters derived from the rest of the query.  No column and
no expression, whatever its text, takes a key of another class.

* `KeyClass`, `KeyClass.Covers`   the classes and their keys;
* `KeyClass.unique`               no key is in two classes;
* `derivedParameters`             what is not a condition or an expression;
* `Query.TakenApart`              a list of parameters in its classes;
* `takenApart_of_read`            those of an accepted read;
* `read_taken_apart`              its whole request.
-/

namespace RestQuery

open Json

/-! ## classes of keys -/

/-- what a parameter stands for -/
inductive KeyClass where
  | condition
  | expression (place : Nat)
  | derived (word : String)

/-- the keys of the derived parameters, in their order -/
def derivedKeys : List String :=
  ["properties", "sort", "pageSize", "page", "includeReferencedEntities"]

namespace KeyClass

/-- the keys of a class -/
def Covers : KeyClass → String → Prop
  | condition, key => '-' ∈ key.toList ∨ key = "entityName" ∨ key = "entityId"
  | expression place, key =>
    (place = 1 ∧ key = "filter") ∨ (2 ≤ place ∧ key = "filter" ++ Nat.repr place)
  | derived word, key => word ∈ derivedKeys ∧ key = word

theorem expression_toList {place : Nat} {key : String} (h : (expression place).Covers key) :
    ∃ digits, key.toList = "filter".toList ++ digits ∧ ∀ c ∈ digits, c.isDigit = true := by
  rcases h with ⟨-, rfl⟩ | ⟨-, rfl⟩
  · exact ⟨[], rfl, fun c hc => absurd hc List.not_mem_nil⟩
  · refine ⟨Nat.toDigits 10 place, ?_, fun c hc => ?_⟩
    · rw [String.toList_append, Nat.toList_repr]
    · exact Nat.isDigit_of_mem_toDigits (by decide) (by decide) hc

theorem expression_head {place : Nat} {key : String} (h : (expression place).Covers key) :
    key.toList.head? = some 'f' := by
  obtain ⟨digits, hkey, -⟩ := expression_toList h
  rw [hkey]
  rfl

theorem expression_not_condition {place : Nat} {key : String}
    (h : (expression place).Covers key) : ¬ condition.Covers key := by
  rintro (hdash | rfl | rfl)
  · obtain ⟨digits, hkey, hdigits⟩ := expression_toList h
    rw [hkey, List.mem_append] at hdash
    rcases hdash with hword | hdigit
    · exact absurd hword (by decide)
    · exact absurd (hdigits _ hdigit) (by decide)
  · exact absurd (expression_head h) (by decide)
  · exact absurd (expression_head h) (by decide)

theorem expression_not_derived {place : Nat} {key word : String}
    (h : (expression place).Covers key) : ¬ (derived word).Covers key := by
  rintro ⟨hword, rfl⟩
  -- no derived word begins like an expression does
  have hall : ∀ w ∈ derivedKeys, w.toList.head? ≠ some 'f' := by decide
  exact hall key hword (expression_head h)

theorem condition_not_derived {key word : String} (h : condition.Covers key) :
    ¬ (derived word).Covers key := by
  rintro ⟨hword, rfl⟩
  have hall : ∀ w ∈ derivedKeys, '-' ∉ w.toList ∧ w ≠ "entityName" ∧ w ≠ "entityId" := by decide
  obtain ⟨hdash, hname, hid⟩ := hall key hword
  rcases h with h | h | h
  · exact hdash h
  · exact hname h
  · exact hid h

theorem expression_injective {a b : Nat} {key : String} (ha : (expression a).Covers key)
    (hb : (expression b).Covers key) : a = b := by
  have hne (n : Nat) : "filter" ≠ "filter" ++ Nat.repr n := by
    intro h
    exact Nat.repr_ne_empty ((String.append_right_inj _).mp (String.append_empty.trans h)).symm
  rcases ha with ⟨rfl, rfl⟩ | ⟨-, rfl⟩
  · rcases hb with ⟨rfl, -⟩ | ⟨-, h⟩
    · rfl
    · exact absurd h (hne b)
  · rcases hb with ⟨-, h⟩ | ⟨-, h⟩
    · exact absurd h.symm (hne a)
    · exact Nat.repr_injective ((String.append_right_inj _).mp h)

/-- no key is in two classes -/
theorem unique {a b : KeyClass} {key : String} (ha : a.Covers key) (hb : b.Covers key) : a = b := by
  match a, b with
  | condition, condition => rfl
  | condition, expression _ => exact absurd ha (expression_not_condition hb)
  | condition, derived _ => exact absurd hb (condition_not_derived ha)
  | expression _, condition => exact absurd hb (expression_not_condition ha)
  | expression _, expression _ => rw [expression_injective ha hb]
  | expression _, derived _ => exact absurd hb (expression_not_derived ha)
  | derived _, condition => exact absurd ha (condition_not_derived hb)
  | derived _, expression _ => exact absurd ha (expression_not_derived hb)
  | derived _, derived _ => rw [← ha.2, ← hb.2]

end KeyClass

/-! ## the three blocks -/

theorem parameterKey_dash (column code : String) (byOr : Bool) :
    '-' ∈ (parameterKey column code byOr).toList := by
  have hkey : '-' ∈ (column ++ "-" ++ code).toList := by
    rw [String.toList_append, String.toList_append]
    exact List.mem_append_left _ (List.mem_append_right _ List.mem_cons_self)
  cases byOr with
  | false => exact hkey
  | true =>
    show '-' ∈ ("or-" ++ (column ++ "-" ++ code)).toList
    rw [String.toList_append]
    exact List.mem_append_right _ hkey

/-- whatever its column is, the key of a condition is one -/
theorem Condition.key_covered (c : Condition) (h : c.Compatible) :
    KeyClass.condition.Covers c.key := by
  obtain ⟨j, predicate⟩ := c
  cases predicate with
  | entity column v => exact .inr h.1
  | compare | among | notAmong | null | notNull => exact .inl (parameterKey_dash _ _ _)

theorem conditionPairs_covered (q : Query) (h : ∀ c ∈ q.conditions, c.Compatible) :
    ∀ x ∈ q.conditionPairs, KeyClass.condition.Covers x.1 := by
  intro x hx
  obtain ⟨c, hc, rfl⟩ := List.mem_map.mp hx
  exact c.key_covered (h c hc)

theorem expressionParameters_snd (d : Dialect) (es : List String) :
    (expressionParameters d es).map Prod.snd = es := by
  unfold expressionParameters
  rw [List.map_map]
  exact List.zipIdx_map_fst 1 es

/-- the expressions are numbered from 1 without a gap -/
theorem expressionParameters_covered (es : List String) (i : Nat)
    (h : i < (expressionParameters .standard es).length) :
    (KeyClass.expression (i + 1)).Covers (expressionParameters .standard es)[i].1 := by
  simp only [expressionParameters, List.getElem_map, List.getElem_zipIdx]
  show (KeyClass.expression (i + 1)).Covers (standardExpressionKey (1 + i))
  unfold standardExpressionKey
  by_cases hi : i = 0
  · subst hi
    exact .inl ⟨rfl, rfl⟩
  · rw [if_neg (by omega), Nat.add_comm]
    exact .inr ⟨by omega, rfl⟩

/-- what is neither a condition nor an expression -/
def derivedParameters (q : Query) (page : Option Page) : List Parameter :=
  projectionParameters .standard q.projection ++ sortParameters .standard q.sortKeys ++
    pageParameters .standard page ++ includeParameters .standard q.expandedKeys

section
variable (q : Query) (page : Option Page)

/-- in their order, each at most once -/
theorem derivedParameters_keys :
    ((derivedParameters q page).map Prod.fst).Sublist derivedKeys := by
  have hcolumns : ((projectionParameters .standard q.projection).map Prod.fst).Sublist
      ["properties"] := by
    unfold projectionParameters
    split
    · exact List.nil_sublist _
    · split
      · exact List.nil_sublist _
      · exact List.Sublist.refl _
  have hsort : ((sortParameters .standard q.sortKeys).map Prod.fst).Sublist ["sort"] := by
    unfold sortParameters
    split
    · exact List.nil_sublist _
    · exact List.Sublist.refl _
  have hpage : ((pageParameters .standard page).map Prod.fst).Sublist ["pageSize", "page"] := by
    cases page with
    | none => exact List.nil_sublist _
    | some page => exact List.Sublist.refl _
  have hinclude : ((includeParameters .standard q.expandedKeys).map Prod.fst).Sublist
      ["includeReferencedEntities"] := by
    unfold includeParameters
    split
    · exact List.nil_sublist _
    · exact List.Sublist.refl _
  unfold derivedParameters
  rw [List.map_append, List.map_append, List.map_append]
  exact ((hcolumns.append hsort).append hpage).append hinclude

theorem derivedParameters_covered (x : Parameter) (h : x ∈ derivedParameters q page) :
    (KeyClass.derived x.1).Covers x.1 :=
  ⟨(derivedParameters_keys q page).subset (List.mem_map_of_mem h), rfl⟩

end

/-! ## single parameters -/

theorem mem_projectionParameters (d : Dialect) (projection : Projection) (x : Parameter) :
    x ∈ projectionParameters d projection ↔
      ∃ names, projection = .columns names ∧ names ≠ [] ∧
        x = (d.columnsKey, joinTexts ',' names) := by
  cases projection with
  | all => simp [projectionParameters]
  | columns names => cases names <;> simp [projectionParameters]

theorem mem_sortParameters (d : Dialect) (ks : List SortKey) (x : Parameter) :
    x ∈ sortParameters d ks ↔
      ks ≠ [] ∧ x = (d.orderKey, joinTexts ',' (ks.map SortKey.text)) := by
  cases ks <;> simp [sortParameters]

theorem mem_pageParameters (d : Dialect) (page : Option Page) (x : Parameter) :
    x ∈ pageParameters d page ↔
      ∃ pg, page = some pg ∧
        (x = (d.rowsPerPageKey, Nat.repr pg.size.toNat) ∨
          x = (d.pageNumberKey, Nat.repr pg.number.toNat)) := by
  cases page <;> simp [pageParameters]

theorem mem_includeParameters (d : Dialect) (keys : List String) (x : Parameter) :
    x ∈ includeParameters d keys ↔ keys ≠ [] ∧ x = (d.expansionKey, joinTexts ',' keys) := by
  cases keys <;> simp [includeParameters]

section
variable (q : Query) (page : Option Page) (v : String)

theorem mem_derivedParameters (x : Parameter) :
    x ∈ derivedParameters q page ↔
      (∃ names, q.projection = .columns names ∧ names ≠ [] ∧
        x = ("properties", joinTexts ',' names)) ∨
      (q.sortKeys ≠ [] ∧ x = ("sort", joinTexts ',' (q.sortKeys.map SortKey.text))) ∨
      (∃ pg, page = some pg ∧
        (x = ("pageSize", Nat.repr pg.size.toNat) ∨ x = ("page", Nat.repr pg.number.toNat))) ∨
      (q.expandedKeys ≠ [] ∧
        x = ("includeReferencedEntities", joinTexts ',' q.expandedKeys)) := by
  unfold derivedParameters
  rw [List.mem_append, List.mem_append, List.mem_append, mem_projectionParameters,
    mem_sortParameters, mem_pageParameters, mem_includeParameters, or_assoc, or_assoc]
  rfl

theorem properties_mem_derived :
    ("properties", v) ∈ derivedParameters q page ↔
      ∃ names, q.projection = .columns names ∧ names ≠ [] ∧ v = joinTexts ',' names := by
  rw [mem_derivedParameters]
  simp

theorem sort_mem_derived :
    ("sort", v) ∈ derivedParameters q page ↔
      q.sortKeys ≠ [] ∧ v = joinTexts ',' (q.sortKeys.map SortKey.text) := by
  rw [mem_derivedParameters]
  simp

theorem pageSize_mem_derived :
    ("pageSize", v) ∈ derivedParameters q page ↔
      ∃ pg, page = some pg ∧ v = Nat.repr pg.size.toNat := by
  rw [mem_derivedParameters]
  simp

theorem page_mem_derived :
    ("page", v) ∈ derivedParameters q page ↔
      ∃ pg, page = some pg ∧ v = Nat.repr pg.number.toNat := by
  rw [mem_derivedParameters]
  simp

theorem include_mem_derived :
    ("includeReferencedEntities", v) ∈ derivedParameters q page ↔
      q.expandedKeys ≠ [] ∧ v = joinTexts ',' q.expandedKeys := by
  rw [mem_derivedParameters]
  simp

end

/-! ## taking a read apart -/

/-- parameters in their classes, the three blocks one after the other -/
structure Query.TakenApart (q : Query) (ps : List Parameter) : Prop where
  classified : ∀ x ∈ ps, ∃! k : KeyClass, k.Covers x.1
  blocks : ∃ conditions expressions derived : List Parameter,
    ps = conditions ++ expressions ++ derived ∧
    List.Forall₂ (fun c x => c.parameter = .ok x) q.conditions conditions ∧
    (∀ x ∈ conditions, KeyClass.condition.Covers x.1) ∧
    expressions.map Prod.snd = q.expressions ∧
    (∀ i (h : i < expressions.length),
      (KeyClass.expression (i + 1)).Covers expressions[i].1) ∧
    (derived.map Prod.fst).Sublist derivedKeys
  properties : ∀ v, ("properties", v) ∈ ps ↔
    ∃ names, q.projection = .columns names ∧ names ≠ [] ∧ v = joinTexts ',' names
  sort : ∀ v, ("sort", v) ∈ ps ↔
    q.sortKeys ≠ [] ∧ v = joinTexts ',' (q.sortKeys.map SortKey.text)
  pageSize : ∀ v, ("pageSize", v) ∈ ps ↔
    ∃ size, q.limit = some size ∧ 0 < size ∧ v = Nat.repr size.toNat
  page : ∀ v, ("page", v) ∈ ps ↔
    ∃ size, q.limit = some size ∧ 0 < size ∧ v = Nat.repr (q.offset.toNat / size.toNat + 1)
  expansion : ∀ v, ("includeReferencedEntities", v) ∈ ps ↔
    q.expandedKeys ≠ [] ∧ v = joinTexts ',' q.expandedKeys

section
variable {q : Query} (hcs : ∀ c ∈ q.conditions, c.Compatible) (page : Option Page)
include hcs

theorem read_covered (x : Parameter)
    (h : x ∈ q.conditionPairs ++ expressionParameters .standard q.expressions ++
      derivedParameters q page) : ∃ k : KeyClass, k.Covers x.1 := by
  rcases List.mem_append.mp h with h | h
  · rcases List.mem_append.mp h with h | h
    · exact ⟨_, conditionPairs_covered q hcs x h⟩
    · obtain ⟨i, hi, rfl⟩ := List.mem_iff_getElem.mp h
      exact ⟨_, expressionParameters_covered q.expressions i hi⟩
  · exact ⟨_, derivedParameters_covered q page x h⟩

/-- neither a condition nor an expression takes the key of a derived parameter -/
theorem mem_read_iff (word v : String) (hword : word ∈ derivedKeys) :
    (word, v) ∈ q.conditionPairs ++ expressionParameters .standard q.expressions ++
        derivedParameters q page ↔ (word, v) ∈ derivedParameters q page := by
  have hderived : (KeyClass.derived word).Covers word := ⟨hword, rfl⟩
  refine ⟨fun h => ?_, List.mem_append_right _⟩
  rcases List.mem_append.mp h with h | h
  · rcases List.mem_append.mp h with h | h
    · have hcondition := conditionPairs_covered q hcs _ h
      exact absurd hderived (KeyClass.condition_not_derived hcondition)
    · obtain ⟨i, hi, hx⟩ := List.mem_iff_getElem.mp h
      have hexpression := expressionParameters_covered q.expressions i hi
      rw [hx] at hexpression
      exact absurd hderived (KeyClass.expression_not_derived hexpression)
  · exact h

theorem taken_apart (hpage : Page.IsOf q.limit q.offset page) :
    q.TakenApart (q.conditionPairs ++ expressionParameters .standard q.expressions ++
      derivedParameters q page) where
  classified x hx := by
    obtain ⟨k, hk⟩ := read_covered hcs page x hx
    exact ⟨k, hk, fun k' hk' => KeyClass.unique hk' hk⟩
  blocks := by
    refine ⟨_, _, _, rfl, ?_, conditionPairs_covered q hcs,
      expressionParameters_snd .standard q.expressions,
      expressionParameters_covered q.expressions, derivedParameters_keys q page⟩
    rw [← conditionParameters_eq_ok_iff]
    exact conditionParameters_of_compatible q.conditions hcs
  properties v := by
    rw [mem_read_iff hcs page _ v (by decide), properties_mem_derived]
  sort v := by
    rw [mem_read_iff hcs page _ v (by decide), sort_mem_derived]
  pageSize v := by
    rw [mem_read_iff hcs page _ v (by decide), pageSize_mem_derived]
    exact hpage.exists_iff fun size _ => v = Nat.repr size
  page v := by
    rw [mem_read_iff hcs page _ v (by decide), page_mem_derived]
    exact hpage.exists_iff fun _ number => v = Nat.repr number
  expansion v := by
    rw [mem_read_iff hcs page _ v (by decide), include_mem_derived]

end

theorem takenApart_of_read {p : Provider} {q : Query} {r : Request} (hd : p.dialect = .standard)
    (hm : q.mutation = .read) (hcount : q.countOnly = false) (h : compile p q = .ok r) :
    q.TakenApart r.parameters := by
  rw [compile_of_read p q (joins_of_compile p q h) hm, compileReading_eq_ok_iff] at h
  obtain ⟨-, hcs, -, page, hpage, rfl⟩ := h
  have hparameters : (readRequest p.dialect q q.conditionPairs page).parameters =
      q.conditionPairs ++ expressionParameters .standard q.expressions ++
        derivedParameters q page := by
    unfold readRequest derivedParameters
    rw [hd, hcount, if_neg Bool.false_ne_true]
    simp only [List.append_assoc]
  rw [hparameters]
  exact taken_apart hcs page hpage

/--
**A read can be taken apart by its keys.**  Under the standard names an accepted read gets exactly
its resource, and its parameters are those of its conditions, its expressions numbered from 1, and
the derived ones that it asks for, of which every key tells its class.
-/
theorem read_taken_apart {p : Provider} {q : Query} {r : Request} (hd : p.dialect = .standard)
    (hm : q.mutation = .read) (hcount : q.countOnly = false) (h : compile p q = .ok r) :
    r.method = .get ∧ r.path = q.resource ∧ r.body = none ∧ q.TakenApart r.parameters := by
  obtain ⟨hmethod, hbody, hpath⟩ := request_of_read h hm
  rw [hcount, if_neg Bool.false_ne_true] at hpath
  exact ⟨hmethod, hpath, hbody, takenApart_of_read hd hm hcount h⟩

/-- a read with columns that look like other keys -/
def trickyRead : Query where
  resource := "invoice"
  conditions :=
    [.compare "filter2" .eq (.str "a"), (Condition.null "page").joinedByOr,
     .entity "entityId" (.str "7")]
  expressions := ["x", "y"]
  sortKeys := [{ column := "sort" }]
  limit := some 10
  offset := 25
  projection := .columns ["properties", "or-page"]
  mutation := .read

theorem read_taken_apart_tricky :
    ∃ r, compile {} trickyRead = .ok r ∧
      r.parameters =
        [("filter2-eq", "a"), ("or-page-null", ""), ("entityId", "7"), ("filter", "x"),
         ("filter2", "y"), ("properties", "properties,or-page"), ("sort", "sort"),
         ("pageSize", "10"), ("page", "3")] ∧
      r.path = "invoice" ∧ trickyRead.TakenApart r.parameters := by
  have h : compile {} trickyRead = .ok
      { method := .get, path := "invoice"
        parameters :=
          [("filter2-eq", "a"), ("or-page-null", ""), ("entityId", "7"), ("filter", "x"),
           ("filter2", "y"), ("properties", "properties,or-page"), ("sort", "sort"),
           ("pageSize", "10"), ("page", "3")] } := by cbv
  obtain ⟨-, hpath, -, hparts⟩ := read_taken_apart rfl rfl rfl h
  exact ⟨_, h, rfl, hpath, hparts⟩

end RestQuery

import Mathlib
import RestQuery.Compile.Basic
import RestQuery.Proofs.Query.StepOrder

/-!
# Parts of a query that count

Every query has all the parts, whatever its mutation, and may hold something in parts that its
mutation has no use for: an offset in an update, conditions in an insertion.  They are not looked
at, not even to be refused; and every other part makes a difference.

* `Mutation.usedParts`       the parts that a mutation uses;
* `SameIn`, `AgreeOn`        queries that have the same in some parts;
* `compileReading_of_agreeOn`, `compileInsertion_congr`, `compileUpdating_congr`,
  `compileDeletion_congr`    the four modes;
* `compile_of_agreeOn`       all of them;
* `sample`, `altered`        one part changed in a query, which shows in its request;
* `used_parts_decide`        what is used, and nothing else, decides what a query comes to.
-/

namespace RestQuery

open Query

/-! ## parts in use -/

/-- what compiling looks at besides the resource, the joins and the mutation itself -/
def Mutation.usedParts : Mutation → List Part
  | .read =>
    [.conditions, .expressions, .sortKeys, .limit, .offset, .projection, .expandedKeys, .countOnly]
  | .insert _ => [.ignoreMissing]
  | .update _ => [.conditions, .expressions, .ignoreMissing]
  | .delete => [.conditions, .expressions]

namespace Query

def SameIn (q q' : Query) : Part → Prop
  | .conditions => q.conditions = q'.conditions
  | .expressions => q.expressions = q'.expressions
  | .sortKeys => q.sortKeys = q'.sortKeys
  | .limit => q.limit = q'.limit
  | .offset => q.offset = q'.offset
  | .projection => q.projection = q'.projection
  | .expandedKeys => q.expandedKeys = q'.expandedKeys
  | .mutation => q.mutation = q'.mutation
  | .countOnly => q.countOnly = q'.countOnly
  | .ignoreMissing => q.ignoreMissing = q'.ignoreMissing

/-- the same mutation of the same resource, and the same in these parts -/
structure AgreeOn (used : Part → Prop) (q q' : Query) : Prop where
  resource : q.resource = q'.resource
  joins : q.joins = q'.joins
  mutation : q.mutation = q'.mutation
  parts : ∀ part, used part → q.SameIn q' part

end Query

/-! ## the four modes -/

section
variable {q q' : Query}

/-- a read uses all but one part -/
theorem eq_of_agreeOn_read (h : q.AgreeOn (· ∈ Mutation.read.usedParts) q') :
    q' = { q with ignoreMissing := q'.ignoreMissing } := by
  have hresource := h.resource
  have hjoins := h.joins
  have hmutation := h.mutation
  have hconditions := h.parts .conditions (by decide)
  have hexpressions := h.parts .expressions (by decide)
  have hsortKeys := h.parts .sortKeys (by decide)
  have hlimit := h.parts .limit (by decide)
  have hoffset := h.parts .offset (by decide)
  have hprojection := h.parts .projection (by decide)
  have hexpandedKeys := h.parts .expandedKeys (by decide)
  have hcountOnly := h.parts .countOnly (by decide)
  cases q
  cases q'
  simp only [SameIn] at *
  subst_vars
  rfl

theorem compileReading_of_agreeOn (h : q.AgreeOn (· ∈ Mutation.read.usedParts) q') (p : Provider)
    (a : Addressing) : compileReading p q a = compileReading p q' a := by
  rw [eq_of_agreeOn_read h]
  rfl

theorem toleranceParameters_congr (h : q.ignoreMissing = q'.ignoreMissing) (d : Dialect) :
    toleranceParameters d q = toleranceParameters d q' := by
  unfold toleranceParameters
  rw [h]

theorem compileInsertion_congr (hresource : q.resource = q'.resource)
    (hignore : q.ignoreMissing = q'.ignoreMissing) (d : Dialect) (i : Insertion) :
    compileInsertion d q i = compileInsertion d q' i := by
  unfold compileInsertion
  rw [hresource, toleranceParameters_congr hignore]

section
variable (hconditions : q.conditions = q'.conditions) (hexpressions : q.expressions = q'.expressions)
include hconditions hexpressions

/-- the id is looked for in the conditions, and refused where there are expressions -/
theorem recordId_congr (mode : String) (a : Addressing) : q.recordId mode a = q'.recordId mode a := by
  have hvalue : q.idValue mode = q'.idValue mode := by
    unfold idValue
    rw [hconditions, hexpressions]
  unfold recordId
  rw [hvalue]

theorem compileDeletion_congr (hresource : q.resource = q'.resource) (a : Addressing) :
    compileDeletion q a = compileDeletion q' a := by
  unfold compileDeletion
  rw [recordId_congr hconditions hexpressions, hresource]

theorem compileUpdating_congr (hresource : q.resource = q'.resource)
    (hignore : q.ignoreMissing = q'.ignoreMissing) (d : Dialect) (body : Json.Object)
    (a : Addressing) : compileUpdating d q body a = compileUpdating d q' body a := by
  unfold compileUpdating
  rw [recordId_congr hconditions hexpressions, hresource, toleranceParameters_congr hignore]

end

theorem compile_of_agreeOn (h : q.AgreeOn (· ∈ q.mutation.usedParts) q') (p : Provider)
    (a : Addressing) : compile p q a = compile p q' a := by
  unfold compile
  rw [← h.joins, ← h.mutation]
  split
  · cases hm : q.mutation with
    | read =>
      rw [hm] at h
      exact compileReading_of_agreeOn h p a
    | insert i =>
      rw [hm] at h
      exact compileInsertion_congr h.resource (h.parts .ignoreMissing (by simp [Mutation.usedParts]))
        p.dialect i
    | update body =>
      rw [hm] at h
      exact compileUpdating_congr (h.parts .conditions (by simp [Mutation.usedParts]))
        (h.parts .expressions (by simp [Mutation.usedParts])) h.resource
        (h.parts .ignoreMissing (by simp [Mutation.usedParts])) p.dialect body a
    | delete =>
      rw [hm] at h
      exact compileDeletion_congr (h.parts .conditions (by decide))
        (h.parts .expressions (by decide)) h.resource a
  · rfl

/-- only a read asks which resources have owners -/
theorem compile_of_not_read (hm : q.mutation ≠ .read) (p : Provider) (a : Addressing)
    (owned : Option (List String)) :
    compile { p with ownedResources := owned } q a = compile p q a := by
  unfold compile
  cases h : q.mutation with
  | read => exact absurd h hm
  | _ => rfl

end

/-! ## a difference in each part -/

/-- some queries with this mutation have a request; no other insertion has one -/
def Mutation.Sendable : Mutation → Prop
  | .insert i => i.orIgnore = false ∧ ∃ body, i.source = .values body
  | _ => True

namespace Query

/-- a query that every mutation can do with -/
def sample (m : Mutation) : Query where
  resource := "unit"
  conditions := [.compare idColumn .eq (.str "1")]
  mutation := m

def altered (q : Query) : Part → Query
  | .conditions => { q with conditions := [] }
  | .expressions => { q with expressions := ["id > 1"] }
  | .sortKeys => { q with sortKeys := [{ column := "name" }] }
  | .limit => { q with limit := some 1 }
  | .offset => { q with offset := 1 }
  | .projection => { q with projection := .columns ["name"] }
  | .expandedKeys => { q with expandedKeys := ["ownerId"] }
  | .mutation => q
  | .countOnly => { q with countOnly := true }
  | .ignoreMissing => { q with ignoreMissing := true }

theorem agreeOn_altered (q : Query) (part : Part) : q.AgreeOn (· ≠ part) (q.altered part) where
  resource := by cases part <;> rfl
  joins := by cases part <;> rfl
  mutation := by cases part <;> rfl
  parts other hother := by
    cases part <;> cases other
    case conditions.conditions | expressions.expressions | sortKeys.sortKeys | limit.limit |
        offset.offset | projection.projection | expandedKeys.expandedKeys | countOnly.countOnly |
        ignoreMissing.ignoreMissing => exact absurd rfl hother
    all_goals rfl

end Query

/-- how many parameters a request has, if there is one -/
def parameterCount? (result : Except CompileError Request) : Option Nat :=
  result.toOption.map fun r => r.parameters.length

/-- the request has more parameters or fewer, or there is none -/
theorem parameterCount?_altered {m : Mutation} (hm : m.Sendable) {part : Part}
    (h : part ∈ m.usedParts) (p : Provider) :
    parameterCount? (compile p (sample m)) ≠
      parameterCount? (compile p ((sample m).altered part)) := by
  intro hsame
  -- no count depends on the provider, so that two of them can be told apart as numerals
  cases m with
  | read =>
    simp only [Mutation.usedParts, List.mem_cons, List.not_mem_nil, or_false] at h
    rcases h with rfl | rfl | rfl | rfl | rfl | rfl | rfl | rfl
    all_goals cases hsame
  | insert i =>
    obtain ⟨source, orIgnore⟩ := i
    obtain ⟨rfl, body, rfl⟩ := hm
    obtain rfl := List.mem_singleton.mp h
    cases hsame
  | update body =>
    simp only [Mutation.usedParts, List.mem_cons, List.not_mem_nil, or_false] at h
    rcases h with rfl | rfl | rfl
    all_goals cases hsame
  | delete =>
    simp only [Mutation.usedParts, List.mem_cons, List.not_mem_nil, or_false] at h
    rcases h with rfl | rfl
    all_goals cases hsame

/--
**Parts that a mutation does not use never count.**  Two queries with the same mutation of the same
resource that agree in the parts in use come to the same request or the same error, whatever stands
in the others, also where a read would refuse it; and which resources have owners matters for
reads only.  No part in use can be left out of this: every mutation that can be sent has queries
that differ in that part alone and do not come to the same, with any provider.
-/
theorem used_parts_decide (p : Provider) (a : Addressing) :
    (∀ q q', q.AgreeOn (· ∈ q.mutation.usedParts) q' → compile p q a = compile p q' a) ∧
    (∀ q owned, q.mutation ≠ .read →
      compile { p with ownedResources := owned } q a = compile p q a) ∧
    ∀ m : Mutation, m.Sendable → ∀ part ∈ m.usedParts,
      ∃ q q' : Query, q.mutation = m ∧ q.AgreeOn (· ≠ part) q' ∧ compile p q ≠ compile p q' := by
  refine ⟨?_, ?_, ?_⟩
  · intro q q' h
    exact compile_of_agreeOn h p a
  · intro q owned hm
    exact compile_of_not_read hm p a owned
  · intro m hm part hpart
    refine ⟨sample m, (sample m).altered part, rfl, agreeOn_altered _ part, ?_⟩
    intro hsame
    exact parameterCount?_altered hm hpart p (congrArg parameterCount? hsame)

/-- an insertion with much that a read would refuse -/
def strangeInsertion : Query where
  resource := "unit"
  conditions := [(Condition.entity "owner" .null).joinedByOr]
  expressions := [""]
  offset := 5
  projection := .columns []
  countOnly := true
  ignoreMissing := true
  mutation := .insert { source := .values [("name", .str "pcs")] }

def plainInsertion : Query where
  resource := "unit"
  ignoreMissing := true
  mutation := .insert { source := .values [("name", .str "pcs")] }

theorem used_parts_decide_strangeInsertion :
    strangeInsertion.AgreeOn (· ∈ strangeInsertion.mutation.usedParts) plainInsertion ∧
      compile { ownedResources := some [] } strangeInsertion = compile {} plainInsertion ∧
      compile {} plainInsertion = .ok
        { method := .post, path := "unit", parameters := [("ignoreMissingProperties", "true")]
          body := some [("name", .str "pcs")] } := by
  have hagree :
      strangeInsertion.AgreeOn (· ∈ strangeInsertion.mutation.usedParts) plainInsertion := by
    refine ⟨rfl, rfl, rfl, ?_⟩
    intro part hpart
    obtain rfl := List.mem_singleton.mp hpart
    rfl
  obtain ⟨hparts, howned, -⟩ := used_parts_decide {} {}
  refine ⟨hagree, ?_, rfl⟩
  exact (howned strangeInsertion (some []) (by rintro ⟨⟩)).trans (hparts _ _ hagree)

end RestQuery

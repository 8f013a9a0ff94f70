import Mathlib
import RestQuery.Proofs.Query.Once
import RestQuery.Proofs.Query.StepOrder

/-!
# The names that steps ask for

Columns are asked for list by list, foreign keys one by one or through the relations that they
belong to.  Whatever steps come in between, a query names each of them once, at the place where it
was asked for first.

* `FirstOccurrences`            every name of a list once, in the order of first occurrences;
* `columnsAsked`, `keysAsked`   what all steps ask for, one after the other;
* `NamesAsked`                  the names of a query are those that some steps ask for;
* `build_names_once`            the query of any list of steps.
-/

namespace RestQuery

/-! ## first occurrences -/

/-- each name of a list once, and those names earlier that occur there earlier -/
structure FirstOccurrences (names all : List String) : Prop where
  mem_iff : ∀ name, name ∈ names ↔ name ∈ all
  ordered : names.Pairwise fun a b => all.idxOf a < all.idxOf b

theorem FirstOccurrences.nodup {names all : List String} (h : FirstOccurrences names all) :
    names.Nodup :=
  h.ordered.imp fun hlt e => absurd (e ▸ hlt) (lt_irrefl _)

theorem FirstOccurrences.nil : FirstOccurrences [] [] where
  mem_iff _ := Iff.rfl
  ordered := .nil

/-- one more name, wherever it has occurred before -/
theorem FirstOccurrences.addOnce {names all : List String} (h : FirstOccurrences names all)
    (name : String) : FirstOccurrences (addOnce names name) (all ++ [name]) := by
  have hold {a : String} (ha : a ∈ names) : (all ++ [name]).idxOf a = all.idxOf a :=
    List.idxOf_append_of_mem ((h.mem_iff a).mp ha)
  have hordered : names.Pairwise fun a b => (all ++ [name]).idxOf a < (all ++ [name]).idxOf b :=
    h.ordered.imp_of_mem fun ha hb hlt => by rwa [hold ha, hold hb]
  unfold RestQuery.addOnce
  by_cases hname : name ∈ names
  · rw [if_pos (by simpa using hname)]
    refine ⟨fun a => ?_, hordered⟩
    rw [List.mem_append, ← h.mem_iff, List.mem_singleton]
    exact ⟨.inl, fun ha => ha.elim id fun e => e ▸ hname⟩
  · rw [if_neg (by simpa using hname)]
    refine ⟨fun a => ?_, List.pairwise_append.mpr ⟨hordered, List.pairwise_singleton _ _, ?_⟩⟩
    · rw [List.mem_append, List.mem_append, h.mem_iff]
    · -- a new name stands behind all names so far
      intro a ha b hb
      rw [List.mem_singleton.mp hb, hold ha,
        List.idxOf_append_of_notMem (mt (h.mem_iff name).mpr hname)]
      have hlt := List.idxOf_lt_length_of_mem ((h.mem_iff a).mp ha)
      omega

theorem firstOccurrences_eraseDups (all : List String) :
    FirstOccurrences all.eraseDups all := by
  induction all using List.reverseRecOn with
  | nil => exact .nil
  | append_singleton all name ih =>
    rw [← addOnce_eraseDups]
    exact ih.addOnce name

theorem eraseDups_append_of_subset {all more : List String} (h : more ⊆ all) :
    (all ++ more).eraseDups = all.eraseDups := by
  have hnone : more.removeAll all = [] :=
    List.filter_eq_nil_iff.mpr fun a ha => by simpa using h ha
  rw [List.eraseDups_append, hnone, List.eraseDups_nil, List.append_nil]

/-- the projection of lists of columns, everything without any list -/
def Projection.ofLists : List (List String) → Projection
  | [] => .all
  | names :: lists => .columns (names :: lists).flatten.eraseDups

theorem Projection.ofLists_concat (lists : List (List String)) (names : List String) :
    ofLists (lists ++ [names]) = .columns (lists.flatten ++ names).eraseDups := by
  cases lists <;> simp [ofLists]

namespace Query

/-! ## what steps ask for -/

def Step.columns? : Step → Option (List String)
  | .withColumns names => some names
  | _ => none

def Step.keys : Step → List String
  | .includeKey key => [key]
  | .includeKeysOf relations => relations.map Relation.foreignKey
  | _ => []

/-- the lists of columns that steps ask for, in their order -/
def columnsAsked (steps : List Step) : List (List String) := steps.filterMap Step.columns?

/-- the foreign keys that steps ask for, in their order and with every repetition -/
def keysAsked (steps : List Step) : List String := steps.flatMap Step.keys

theorem columnsAsked_concat (steps : List Step) (s : Step) :
    columnsAsked (steps ++ [s]) = columnsAsked steps ++ s.columns?.toList := by
  rw [columnsAsked, List.filterMap_append]
  cases h : s.columns? <;> simp [columnsAsked, h]

theorem keysAsked_concat (steps : List Step) (s : Step) :
    keysAsked (steps ++ [s]) = keysAsked steps ++ s.keys := by
  rw [keysAsked, List.flatMap_append, List.flatMap_singleton, keysAsked]

theorem columnsAsked_eq_nil_iff (steps : List Step) :
    columnsAsked steps = [] ↔ ∀ names, Step.withColumns names ∉ steps := by
  rw [columnsAsked, List.filterMap_eq_nil_iff]
  constructor
  · intro h names hmem
    cases h _ hmem
  · intro h s hs
    cases s with
    | withColumns names => exact absurd hs (h names)
    | _ => rfl

/-! ## the names of a query -/

/-- the query names the columns and the foreign keys that these steps ask for, each once -/
structure NamesAsked (q : Query) (steps : List Step) : Prop where
  projection : q.projection = .ofLists (columnsAsked steps)
  expandedKeys : q.expandedKeys = (keysAsked steps).eraseDups

theorem columns_of_ofLists {q : Query} {lists : List (List String)}
    (h : q.projection = .ofLists lists) : q.columns = lists.flatten.eraseDups := by
  rw [columns, h]
  cases lists <;> rfl

theorem withColumns_projection {q : Query} {lists : List (List String)}
    (h : q.projection = .ofLists lists) (names : List String) :
    (q.withColumns names).projection = .ofLists (lists ++ [names]) := by
  rw [Projection.ofLists_concat, ← foldl_addOnce_eraseDups, ← columns_of_ofLists h]
  rfl

theorem apply_projection {q : Query} {lists : List (List String)}
    (h : q.projection = .ofLists lists) (s : Step) :
    (q.apply s).projection = .ofLists (lists ++ s.columns?.toList) := by
  cases s with
  | withColumns names => exact withColumns_projection h names
  | includeKeysOf relations =>
    rw [apply, includeKeysOf_eq]
    exact h.trans (congrArg _ (List.append_nil lists).symm)
  | _ => exact h.trans (congrArg _ (List.append_nil lists).symm)

theorem apply_expandedKeys {q : Query} {all : List String} (h : q.expandedKeys = all.eraseDups)
    (s : Step) : (q.apply s).expandedKeys = (all ++ s.keys).eraseDups := by
  rw [← foldl_addOnce_eraseDups, ← h]
  cases s with
  | includeKeysOf relations =>
    rw [apply, includeKeysOf_eq]
    rfl
  | _ => rfl

/-- one more step asks for its names, and for nothing else -/
theorem NamesAsked.apply {q : Query} {steps : List Step} (h : q.NamesAsked steps) (s : Step) :
    (q.apply s).NamesAsked (steps ++ [s]) where
  projection := by rw [columnsAsked_concat, apply_projection h.projection]
  expandedKeys := by rw [keysAsked_concat, apply_expandedKeys h.expandedKeys]

theorem build_concat (resource : String) (steps : List Step) (s : Step) :
    build resource (steps ++ [s]) = (build resource steps).apply s := by
  rw [build, List.foldl_append]
  rfl

theorem namesAsked_build (resource : String) (steps : List Step) :
    (build resource steps).NamesAsked steps := by
  induction steps using List.reverseRecOn with
  | nil => exact ⟨rfl, rfl⟩
  | append_singleton steps s ih =>
    rw [build_concat]
    exact ih.apply s

/-! ## asking again -/

/-- a step that asks for columns or foreign keys -/
def Step.AsksForNames (s : Step) : Prop := s.part = .projection ∨ s.part = .expandedKeys

theorem withColumns_again {q : Query} {lists : List (List String)}
    (h : q.projection = .ofLists lists) {names : List String} (hmem : names ∈ lists) :
    q.withColumns names = q := by
  have hsubset : names ⊆ lists.flatten := fun a ha => List.mem_flatten.mpr ⟨names, hmem, ha⟩
  have hprojection : (q.withColumns names).projection = q.projection := by
    rw [withColumns_projection h, Projection.ofLists_concat, eraseDups_append_of_subset hsubset, h]
    cases lists with
    | nil => exact absurd hmem List.not_mem_nil
    | cons names lists => rfl
  have hset : q.withColumns names = { q with projection := (q.withColumns names).projection } := rfl
  rw [hset, hprojection]
  cases q
  rfl

theorem expandedKeys_again {q : Query} {all : List String} (h : q.expandedKeys = all.eraseDups)
    {keys : List String} (hsubset : keys ⊆ all) :
    { q with expandedKeys := keys.foldl addOnce q.expandedKeys } = q := by
  rw [h, foldl_addOnce_eraseDups, eraseDups_append_of_subset hsubset, ← h]
  cases q
  rfl

/-- whoever has asked for some names gets nothing new by asking for them again -/
theorem NamesAsked.apply_again {q : Query} {steps : List Step} (h : q.NamesAsked steps) {s : Step}
    (hmem : s ∈ steps) (hs : s.AsksForNames) : q.apply s = q := by
  have hkeys : s.keys ⊆ keysAsked steps := fun a ha => List.mem_flatMap.mpr ⟨s, hmem, ha⟩
  cases s with
  | withColumns names =>
    exact withColumns_again h.projection (List.mem_filterMap.mpr ⟨_, hmem, rfl⟩)
  | includeKey key => exact expandedKeys_again h.expandedKeys hkeys
  | includeKeysOf relations =>
    rw [Query.apply, includeKeysOf_eq]
    exact expandedKeys_again h.expandedKeys hkeys
  | _ => rcases hs with hs | hs <;> cases hs

theorem build_again {resource : String} {steps : List Step} {s : Step} (hmem : s ∈ steps)
    (hs : s.AsksForNames) (more : List Step) :
    build resource (steps ++ s :: more) = build resource (steps ++ more) := by
  have hagain := (namesAsked_build resource steps).apply_again hmem hs
  rw [build] at hagain
  rw [build, build, List.foldl_append, List.foldl_append, List.foldl_cons, hagain]

/--
**A query names what its steps ask for, once each.**  It brings all columns exactly when no step
asks for any; else it names the columns of all steps, and likewise the foreign keys of all steps,
each at its first occurrence.  A step that asks again for names changes nothing, wherever it
comes.
-/
theorem build_names_once (resource : String) (steps : List Step) :
    ((build resource steps).projection = .all ↔ ∀ names, Step.withColumns names ∉ steps) ∧
    (∀ names, (build resource steps).projection = .columns names →
      names = (columnsAsked steps).flatten.eraseDups ∧
        FirstOccurrences names (columnsAsked steps).flatten) ∧
    (build resource steps).expandedKeys = (keysAsked steps).eraseDups ∧
    FirstOccurrences (build resource steps).expandedKeys (keysAsked steps) ∧
    (build resource steps).columns.Nodup ∧ (build resource steps).expandedKeys.Nodup ∧
    ∀ s ∈ steps, s.AsksForNames → ∀ more,
      build resource (steps ++ s :: more) = build resource (steps ++ more) := by
  have h := namesAsked_build resource steps
  have hcolumns := columns_of_ofLists h.projection
  refine ⟨?_, fun names hnames => ?_, h.expandedKeys, ?_, ?_, ?_,
    fun s hmem hs => build_again hmem hs⟩
  · rw [h.projection, ← columnsAsked_eq_nil_iff]
    cases columnsAsked steps <;> simp [Projection.ofLists]
  · have heq : names = (columnsAsked steps).flatten.eraseDups := by
      rw [← hcolumns, columns, hnames]
    exact ⟨heq, heq ▸ firstOccurrences_eraseDups _⟩
  · rw [h.expandedKeys]
    exact firstOccurrences_eraseDups _
  · rw [hcolumns]
    exact nodup_eraseDups _
  · rw [h.expandedKeys]
    exact nodup_eraseDups _

/-- columns and keys that are asked for more than once, with other steps in between -/
def saleSteps : List Step :=
  [.includeKey "unitId", .withColumns ["id", "total"], .limitTo 5,
   .includeKeysOf [.ofName "customer", .ofName "unit"], .withColumns ["number", "id", "number"]]

theorem build_names_once_sale :
    Step.includeKeysOf [.ofName "customer", .ofName "unit"] ∈ saleSteps ∧
      (build "sale" saleSteps).columns = ["id", "total", "number"] ∧
      (build "sale" saleSteps).expandedKeys = ["unitId", "customerId"] ∧
      FirstOccurrences ["id", "total", "number"] ["id", "total", "number", "id", "number"] ∧
      build "sale" (saleSteps ++ [.includeKeysOf [.ofName "customer", .ofName "unit"], .counted]) =
        build "sale" (saleSteps ++ [.counted]) := by
  obtain ⟨-, hcolumns, -, -, -, -, hagain⟩ := build_names_once "sale" saleSteps
  have hmem : Step.includeKeysOf [.ofName "customer", .ofName "unit"] ∈ saleSteps :=
    List.mem_cons_of_mem _ (List.mem_cons_of_mem _ (List.mem_cons_of_mem _ List.mem_cons_self))
  exact ⟨hmem, rfl, rfl, (hcolumns _ rfl).2, hagain _ hmem (.inr rfl) [.counted]⟩

end Query

end RestQuery

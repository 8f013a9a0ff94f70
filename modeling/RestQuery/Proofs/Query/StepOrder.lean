import Mathlib
import RestQuery.Compile.Basic
import RestQuery.Query.Step

/-!
# The order of steps

Each step of assembling a query touches one part of it, and steps on different parts can be taken
in either order.  So the query depends only on the order of the steps on each part; for the two
parts that are no more than a mark, not even on that.

* `Part`, `Step.part`        the parts of a query, and which one a step touches;
* `Edit`, `Query.edited`     what is done to one part; `apply_eq_edited` finds it in every step;
* `apply_comm`               one step before or after another;
* `foldl_apply_of_order`     a whole list of steps;
* `build_reordered`          the query and its request, from steps in another order.
-/

namespace RestQuery.Query

open Json

/-! ## parts of a query -/

/-- what a step can touch -/
inductive Part where
  | conditions | expressions | sortKeys | limit | offset | projection | expandedKeys | mutation
  | countOnly | ignoreMissing
deriving DecidableEq

/-- the part that a step touches -/
def Step.part : Step → Part
  | .when _ | .whenCompare _ _ _ | .orWhenCompare _ _ _ | .whenEqual _ _ | .whenAmong _ _
  | .whenNotAmong _ _ | .whenNull _ | .whenNotNull _ | .within _ _ => .conditions
  | .whenExpression _ => .expressions
  | .sortBy _ _ => .sortKeys
  | .limitTo _ => .limit
  | .startAt _ => .offset
  | .withColumns _ => .projection
  | .includeKey _ | .includeKeysOf _ => .expandedKeys
  | .insertRow _ | .updateRow _ | .deleteRow => .mutation
  | .counted => .countOnly
  | .tolerateMissing => .ignoreMissing

/-! ## steps as edits -/

/-- what is done to one part -/
inductive Edit where
  | conditions (cs : List Condition)
  | expressions (es : List String)
  | sortKeys (ks : List SortKey)
  | limit (n : UInt64)
  | offset (n : UInt64)
  | projection (names : List String)
  | expandedKeys (names : List String)
  | mutation (m : Mutation)
  | countOnly
  | ignoreMissing

def Edit.part : Edit → Part
  | .conditions _ => .conditions
  | .expressions _ => .expressions
  | .sortKeys _ => .sortKeys
  | .limit _ => .limit
  | .offset _ => .offset
  | .projection _ => .projection
  | .expandedKeys _ => .expandedKeys
  | .mutation _ => .mutation
  | .countOnly => .countOnly
  | .ignoreMissing => .ignoreMissing

/-- lists grow at their end, by new names only where names stand once; all else is set -/
def edited (q : Query) : Edit → Query
  | .conditions cs => { q with conditions := q.conditions ++ cs }
  | .expressions es => { q with expressions := q.expressions ++ es }
  | .sortKeys ks => { q with sortKeys := q.sortKeys ++ ks }
  | .limit n => { q with limit := some n }
  | .offset n => { q with offset := n }
  | .projection names => { q with projection := .columns (names.foldl addOnce q.columns) }
  | .expandedKeys names => { q with expandedKeys := names.foldl addOnce q.expandedKeys }
  | .mutation m => { q with mutation := m }
  | .countOnly => { q with countOnly := true }
  | .ignoreMissing => { q with ignoreMissing := true }

/-- the edit that a step makes -/
def Step.edit : Step → Edit
  | .when c => .conditions [c]
  | .whenCompare c o v => .conditions [.compare c o v]
  | .orWhenCompare c o v => .conditions [(Condition.compare c o v).joinedByOr]
  | .whenEqual c v => .conditions [.compare c .eq v]
  | .whenAmong c vs => .conditions [.among c vs]
  | .whenNotAmong c vs => .conditions [.notAmong c vs]
  | .whenNull c => .conditions [.null c]
  | .whenNotNull c => .conditions [.notNull c]
  | .within n i => .conditions [.entity entityNameColumn n, .entity entityIdColumn i]
  | .whenExpression e => .expressions [e]
  | .sortBy c d => .sortKeys [{ column := c, direction := d }]
  | .limitTo n => .limit n
  | .startAt n => .offset n
  | .withColumns cs => .projection cs
  | .includeKey k => .expandedKeys [k]
  | .includeKeysOf rs => .expandedKeys (rs.map Relation.foreignKey)
  | .counted => .countOnly
  | .insertRow b => .mutation (.insert { source := .values b })
  | .updateRow b => .mutation (.update b)
  | .deleteRow => .mutation .delete
  | .tolerateMissing => .ignoreMissing

theorem Step.part_edit (s : Step) : s.edit.part = s.part := by cases s <;> rfl

theorem includeKeysOf_eq (q : Query) (rs : List Relation) :
    q.includeKeysOf rs =
      { q with expandedKeys := (rs.map Relation.foreignKey).foldl addOnce q.expandedKeys } := by
  unfold includeKeysOf
  induction rs generalizing q with
  | nil => cases q; rfl
  | cons r rs ih =>
    rw [List.foldl_cons, ih]
    rfl

/-- all that a step does is an edit of its part -/
theorem apply_eq_edited (q : Query) (s : Step) : q.apply s = q.edited s.edit := by
  cases s with
  | within name id =>
    show { q with conditions := q.conditions ++ [_] ++ [_] } = { q with conditions := _ }
    rw [List.append_assoc]
    rfl
  | includeKeysOf rs => exact q.includeKeysOf_eq rs
  | _ => rfl

/-! ## two steps -/

theorem edited_comm (q : Query) {e f : Edit} (h : e.part ≠ f.part) :
    (q.edited e).edited f = (q.edited f).edited e := by
  cases e <;> cases f
  case conditions.conditions | expressions.expressions | sortKeys.sortKeys | limit.limit |
      offset.offset | projection.projection | expandedKeys.expandedKeys | mutation.mutation |
      countOnly.countOnly | ignoreMissing.ignoreMissing => exact absurd rfl h
  -- different fields are set, from fields that the other edit leaves alone
  all_goals rfl

theorem apply_comm (q : Query) {s t : Step} (h : s.part ≠ t.part) :
    (q.apply s).apply t = (q.apply t).apply s := by
  rw [← s.part_edit, ← t.part_edit] at h
  simp only [apply_eq_edited]
  exact q.edited_comm h

/-! ## lists of steps -/

/-- a step can be taken before all steps on other parts -/
theorem foldl_apply_move (q : Query) (before after : List Step) {s : Step}
    (h : ∀ t ∈ before, t.part ≠ s.part) :
    (before ++ s :: after).foldl apply q = (s :: (before ++ after)).foldl apply q := by
  induction before generalizing q with
  | nil => rfl
  | cons t before ih =>
    have ht : t.part ≠ s.part := h t List.mem_cons_self
    rw [List.cons_append, List.foldl_cons, ih _ fun u hu => h u (List.mem_cons_of_mem _ hu)]
    simp only [List.foldl_cons, List.cons_append]
    rw [apply_comm q ht]

/-- the steps on one part, in their order -/
def stepsOn (part : Part) (steps : List Step) : List Step := steps.filter (·.part = part)

theorem stepsOn_append (part : Part) (xs ys : List Step) :
    stepsOn part (xs ++ ys) = stepsOn part xs ++ stepsOn part ys := List.filter_append ..

theorem stepsOn_cons_self (s : Step) (steps : List Step) :
    stepsOn s.part (s :: steps) = s :: stepsOn s.part steps :=
  List.filter_cons_of_pos (decide_eq_true rfl)

theorem stepsOn_cons_of_ne {part : Part} {s : Step} (h : s.part ≠ part) (steps : List Step) :
    stepsOn part (s :: steps) = stepsOn part steps :=
  List.filter_cons_of_neg (by simpa using h)

/-- the first step on a part stands behind steps on other parts only -/
theorem exists_of_stepsOn_eq_cons {s : Step} {steps rest : List Step}
    (h : stepsOn s.part steps = s :: rest) :
    ∃ before after, steps = before ++ s :: after ∧ ∀ t ∈ before, t.part ≠ s.part := by
  obtain ⟨before, after, hsteps, hbefore, -, -⟩ := List.filter_eq_cons_iff.mp h
  exact ⟨before, after, hsteps, fun t ht => by simpa using hbefore t ht⟩

/-- taking out the first step on a part takes it from the steps on this part only -/
theorem stepsOn_of_cons {s : Step} {steps before after : List Step}
    (hbefore : ∀ t ∈ before, t.part ≠ s.part)
    (h : ∀ part, stepsOn part (s :: steps) = stepsOn part (before ++ s :: after)) (part : Part) :
    stepsOn part steps = stepsOn part (before ++ after) := by
  have hpart := h part
  rw [stepsOn_append] at hpart ⊢
  by_cases hs : s.part = part
  · subst hs
    have hnone : stepsOn s.part before = [] :=
      List.filter_eq_nil_iff.mpr fun t ht => by simpa using hbefore t ht
    rw [stepsOn_cons_self, stepsOn_cons_self, hnone] at hpart
    rw [hnone]
    exact (List.cons.inj hpart).2
  · rwa [stepsOn_cons_of_ne hs, stepsOn_cons_of_ne hs] at hpart

/-- only the order of the steps on each part counts -/
theorem foldl_apply_of_order (q : Query) {xs ys : List Step}
    (h : ∀ part, stepsOn part xs = stepsOn part ys) : xs.foldl apply q = ys.foldl apply q := by
  induction xs generalizing q ys with
  | nil =>
    cases ys with
    | nil => rfl
    | cons s ys =>
      have hs := h s.part
      rw [stepsOn_cons_self] at hs
      cases hs
  | cons s xs ih =>
    -- the first step is the first on its part in the other list as well
    have hs := h s.part
    rw [stepsOn_cons_self] at hs
    obtain ⟨before, after, rfl, hbefore⟩ := exists_of_stepsOn_eq_cons hs.symm
    rw [foldl_apply_move q before after hbefore, List.foldl_cons, List.foldl_cons]
    exact ih _ (stepsOn_of_cons hbefore h)

/-! ## reordering -/

/-- the same steps, those on one part in the same order unless the part is only a mark -/
structure Reordered (xs ys : List Step) : Prop where
  perm : xs.Perm ys
  order : ∀ part, part ≠ .countOnly → part ≠ .ignoreMissing → stepsOn part xs = stepsOn part ys

/-- steps that are all the same have one order -/
theorem stepsOn_of_perm {part : Part} {s : Step} (hpart : ∀ t : Step, t.part = part → t = s)
    {xs ys : List Step} (h : xs.Perm ys) : stepsOn part xs = stepsOn part ys := by
  have hall (steps : List Step) :
      stepsOn part steps = List.replicate (stepsOn part steps).length s := by
    refine List.eq_replicate_iff.mpr ⟨rfl, fun t ht => hpart t ?_⟩
    simpa using (List.mem_filter.mp ht).2
  have hlength : (stepsOn part xs).length = (stepsOn part ys).length := (h.filter _).length_eq
  rw [hall xs, hall ys, hlength]

theorem Step.eq_counted {t : Step} (h : t.part = .countOnly) : t = .counted := by
  cases t with
  | counted => rfl
  | _ => cases h

theorem Step.eq_tolerateMissing {t : Step} (h : t.part = .ignoreMissing) :
    t = .tolerateMissing := by
  cases t with
  | tolerateMissing => rfl
  | _ => cases h

theorem Reordered.stepsOn_eq {xs ys : List Step} (h : Reordered xs ys) (part : Part) :
    stepsOn part xs = stepsOn part ys := by
  by_cases hcount : part = .countOnly
  · subst hcount
    exact stepsOn_of_perm (fun _ => Step.eq_counted) h.perm
  · by_cases hignore : part = .ignoreMissing
    · subst hignore
      exact stepsOn_of_perm (fun _ => Step.eq_tolerateMissing) h.perm
    · exact h.order part hcount hignore

/--
**The order of steps on different parts does not matter.**  Steps in another order that keeps the
one on each part give the same query, and so the same request or error with every provider.
Counting and letting unknown properties pass may be said anywhere.
-/
theorem build_reordered {xs ys : List Step} (h : Reordered xs ys) (resource : String) :
    build resource xs = build resource ys ∧
      ∀ p a, compile p (build resource xs) a = compile p (build resource ys) a := by
  have hbuild : build resource xs = build resource ys :=
    foldl_apply_of_order (ofResource resource) h.stepsOn_eq
  exact ⟨hbuild, fun p a => by rw [hbuild]⟩

/-- columns and a limit between conditions, both of them twice -/
def limitFirst : List Step :=
  [.tolerateMissing, .limitTo 10, .whenEqual "status" (.str "paid"), .withColumns ["id", "number"],
   .limitTo 5, .withColumns ["number", "total"], .whenNull "deletedAt"]

def columnsFirst : List Step :=
  [.withColumns ["id", "number"], .limitTo 10, .withColumns ["number", "total"],
   .whenEqual "status" (.str "paid"), .limitTo 5, .whenNull "deletedAt", .tolerateMissing]

theorem limitFirst_reordered : Reordered limitFirst columnsFirst where
  perm := by
    have htolerate : limitFirst.Perm (limitFirst.tail ++ [.tolerateMissing]) :=
      (List.perm_append_singleton _ _).symm
    have hcolumns {a b c d e f : Step} : [a, b, c, d, e, f].Perm [c, a, e, b, d, f] := by
      have hc : ([a, b] ++ c :: [d, e, f]).Perm (c :: ([a, b] ++ [d, e, f])) := List.perm_middle
      have he : ([b, d] ++ e :: [f]).Perm (e :: ([b, d] ++ [f])) := List.perm_middle
      exact hc.trans ((he.cons a).cons c)
    exact htolerate.trans (hcolumns.append_right _)
  order part _ _ := by cases part <;> rfl

theorem build_reordered_columnsFirst :
    Reordered limitFirst columnsFirst ∧
      build "invoice" limitFirst = build "invoice" columnsFirst ∧
      ∃ r, compile {} (build "invoice" limitFirst) = .ok r ∧
        compile {} (build "invoice" columnsFirst) = .ok r ∧
        r.parameters =
          [("status-eq", "paid"), ("deletedAt-null", ""), ("properties", "id,number,total"),
           ("pageSize", "5"), ("page", "1")] := by
  obtain ⟨hbuild, hcompile⟩ := build_reordered limitFirst_reordered "invoice"
  have h : compile {} (build "invoice" columnsFirst) = .ok
      { method := .get, path := "invoice"
        parameters :=
          [("status-eq", "paid"), ("deletedAt-null", ""), ("properties", "id,number,total"),
           ("pageSize", "5"), ("page", "1")] } := by cbv
  exact ⟨limitFirst_reordered, hbuild, _, (hcompile {} {}).trans h, h, rfl⟩

end RestQuery.Query

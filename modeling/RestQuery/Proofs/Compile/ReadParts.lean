import Mathlib
import RestQuery.Proofs.Compile.Assembled
import RestQuery.Proofs.Compile.ReadKeys

/-!
# The parts of an accepted read

An accepted read rests on the parameters of its conditions and on its page.  Under the standard
names each derived key stands in its request once or not at all.

* `readBasis_eq_ok_iff`             when there are such parameters and such a page;
* `basis_of_read`                   what an accepted read rests on;
* `parameter_at_of_read`            where it has the parameter of a condition;
* `TakenApart.values_of_mem`        a derived key that stands in the request has one value;
* `TakenApart.values_of_forall_not_mem`   a derived key that does not has none.
-/

namespace RestQuery

/-- pairs whose names stand once are told by their names -/
theorem filter_fst_of_mem {α : Type} {l : List (String × α)} (hl : (l.map Prod.fst).Nodup)
    {name : String} {a : α} (h : (name, a) ∈ l) :
    (l.filter fun x => x.1 == name) = [(name, a)] := by
  induction l with
  | nil => exact absurd h List.not_mem_nil
  | cons x l ih =>
    obtain ⟨hx, hl⟩ := List.nodup_cons.mp hl
    rcases List.mem_cons.mp h with rfl | h
    · have hrest : (l.filter fun x => x.1 == name) = [] := by
        refine List.filter_eq_nil_iff.mpr fun y hy hname => hx ?_
        exact List.mem_map.mpr ⟨y, hy, beq_iff_eq.mp hname⟩
      rw [List.filter_cons, if_pos (beq_self_eq_true name), hrest]
    · have hne : x.1 ≠ name := by
        rintro rfl
        exact hx (List.mem_map.mpr ⟨_, h, rfl⟩)
      rw [List.filter_cons, if_neg (by simpa using hne), ih hl h]

namespace Query.TakenApart

variable {q : Query} {ps : List Parameter} (h : q.TakenApart ps) {word : String}
  (hword : word ∈ derivedKeys)
include h hword

/-- no condition and no expression takes a derived key, and no derived key comes twice -/
theorem values_of_mem {v : String} (hv : (word, v) ∈ ps) :
    ((ps.filter fun x => x.1 == word).map Prod.snd) = [v] := by
  obtain ⟨conditions, expressions, derived, rfl, -, hconditions, -, hexpressions, hkeys⟩ := h.blocks
  have hcovers : (KeyClass.derived word).Covers word := ⟨hword, rfl⟩
  have hne : ∀ x ∈ conditions ++ expressions, ¬ (x.1 == word) = true := by
    intro x hx hkey
    rw [beq_iff_eq] at hkey
    subst hkey
    rcases List.mem_append.mp hx with hx | hx
    · exact KeyClass.condition_not_derived (hconditions x hx) hcovers
    · obtain ⟨i, hi, rfl⟩ := List.mem_iff_getElem.mp hx
      exact KeyClass.expression_not_derived (hexpressions i hi) hcovers
  have hmem : (word, v) ∈ derived :=
    (List.mem_append.mp hv).resolve_left fun hx => hne _ hx (beq_self_eq_true word)
  have hnodup : (derived.map Prod.fst).Nodup := hkeys.nodup (by decide)
  rw [List.filter_append, List.filter_eq_nil_iff.mpr hne, List.nil_append,
    filter_fst_of_mem hnodup hmem, List.map_singleton]

omit h hword in
theorem values_of_forall_not_mem (hv : ∀ v, (word, v) ∉ ps) :
    ((ps.filter fun x => x.1 == word).map Prod.snd) = [] := by
  rw [List.map_eq_nil_iff, List.filter_eq_nil_iff]
  rintro ⟨key, v⟩ hx hkey
  rw [beq_iff_eq] at hkey
  subst hkey
  exact hv v hx

end Query.TakenApart

theorem readBasis_eq_ok_iff (p : Provider) (q : Query) (a : Addressing) (ps : List Parameter)
    (page : Option Page) :
    readBasis p q a = .ok (ps, page) ↔
      ¬ ((q.conditions.any fun c => c.predicate.isEntity) && !p.allowsEntity q.resource) = true ∧
        conditionParameters q.conditions a = .ok ps ∧ Page.ofRows q.limit q.offset = .ok page := by
  unfold readBasis
  split
  · next howner => simp only [howner, not_true_eq_false, false_and, reduceCtorEq]
  · next howner =>
    rw [and_iff_right howner]
    cases conditionParameters q.conditions a with
    | error e => simp only [reduceCtorEq, false_and]
    | ok ps' =>
      cases Page.ofRows q.limit q.offset with
      | error e => simp only [Except.map, reduceCtorEq, and_false]
      | ok page' => simp only [Except.map, Except.ok.injEq, Prod.mk.injEq]

theorem readRequest_list (d : Dialect) {q : Query} (hcount : q.countOnly = false)
    (ps : List Parameter) (page : Option Page) :
    readRequest d q ps page =
      { method := .get, path := q.resource
        parameters :=
          ps ++ expressionParameters d q.expressions ++ projectionParameters d q.projection ++
            sortParameters d q.sortKeys ++ pageParameters d page ++
            includeParameters d q.expandedKeys } := by
  unfold readRequest
  rw [hcount, if_neg Bool.false_ne_true]

section
variable {p : Provider} {q : Query} {r : Request} (hm : q.mutation = .read)
include hm

theorem basis_of_read {a : Addressing} (h : compile p q a = .ok r) :
    ∃ ps page, q.joins = [] ∧ readBasis p q a = .ok (ps, page) ∧
      r = readRequest p.dialect q ps page := by
  have hj := joins_of_compile p q h
  rw [compile_of_read p q hj hm, compileReading_eq_map] at h
  cases hbasis : readBasis p q a with
  | error e =>
    rw [hbasis] at h
    cases h
  | ok basis =>
    rw [hbasis] at h
    exact ⟨basis.1, basis.2, hj, rfl, (Except.ok.inj h).symm⟩

/-- the parameters of the conditions come first, in the order of the conditions -/
theorem parameter_at_of_read {a : Addressing} {place : Nat} {c : Condition}
    (hcount : q.countOnly = false) (h : compile p q a = .ok r)
    (hc : q.conditions[place]? = some c) :
    ∃ x, c.parameter a = .ok x ∧ r.parameters[place]? = some x := by
  obtain ⟨ps, page, -, hbasis, rfl⟩ := basis_of_read hm h
  obtain ⟨-, hps, -⟩ := (readBasis_eq_ok_iff p q a ps page).mp hbasis
  have hall := (conditionParameters_eq_ok_iff q.conditions ps).mp hps
  obtain ⟨hplace, rfl⟩ := List.getElem?_eq_some_iff.mp hc
  have hplace' : place < ps.length := hall.length_eq ▸ hplace
  refine ⟨ps[place], hall.get hplace hplace', ?_⟩
  rw [readRequest_list p.dialect hcount]
  simp only [List.append_assoc]
  rw [List.getElem?_append_left hplace', List.getElem?_eq_getElem hplace']

end

end RestQuery

import Mathlib
import RestQuery.Proofs.Compile.Outcome

/-!
# Why compiling fails

A query may have several faults at once; the one that is reported is the first one in a fixed
order: joins, then for a read the owner, the first undefined condition and the page, for an
insertion its source, for a change the shape of its one condition and then the text of its id.

* `Fault`                   the kind of the fault that counts;
* `compile_of_fault`        such a fault is reported;
* `fault_or_ok`             without one there is a request;
* `compile_faults`          both together, for queries and their texts.
-/

namespace RestQuery

open CompileError (Kind)

/-- the kind of the fault of a query that comes first -/
inductive Fault (p : Provider) (q : Query) : Kind → Prop
  | joins (h : q.joins ≠ []) : Fault p q .unsupportedOperation
  | owner (hj : q.joins = []) (hm : q.mutation = .read) (h : p.Refuses q) :
    Fault p q .unsupportedOperation
  | condition (hj : q.joins = []) (hm : q.mutation = .read) (ho : ¬ p.Refuses q)
    (h : ∃ c ∈ q.conditions, ¬ c.Compatible) : Fault p q .malformedCondition
  | page (hj : q.joins = []) (hm : q.mutation = .read) (ho : ¬ p.Refuses q)
    (hc : ∀ c ∈ q.conditions, c.Compatible) (h : Page.Off q.limit q.offset) :
    Fault p q .invalidPagination
  | insertion (hj : q.joins = []) (i : Insertion) (hm : q.mutation = .insert i)
    (h : i.orIgnore = true ∨ ∃ nested, i.source = .subquery nested) :
    Fault p q .unsupportedOperation
  | change (hj : q.joins = []) (hm : q.IsChange) (h : ¬ ∃ id, q.NamesRecord id) :
    Fault p q .unsupportedOperation
  | separator (hj : q.joins = []) (hm : q.IsChange) (id : String) (hid : q.NamesRecord id)
    (h : '/' ∈ id.toList) : Fault p q .malformedCondition

section
variable {p : Provider} {q : Query}

/-- a change fails exactly where its record has no id -/
theorem compile_of_change (hj : q.joins = []) (hm : q.IsChange) :
    ∃ mode request, compile p q = (q.recordId mode).map request := by
  rcases hm with ⟨body, hm⟩ | hm
  · exact ⟨_, _, compile_of_update p q hj body hm⟩
  · exact ⟨_, _, compile_of_delete p q hj hm⟩

theorem compile_of_fault {k : Kind} (h : Fault p q k) :
    ∃ e, compile p q = .error e ∧ e.kind = k := by
  cases h with
  | joins h => exact ⟨_, compile_of_joins p q h, rfl⟩
  | owner hj hm h =>
    rw [compile_of_read p q hj hm]
    exact ⟨_, compileReading_of_refuses p q h, rfl⟩
  | condition hj hm ho h =>
    have hnot : ¬ ∀ c ∈ q.conditions, c.Compatible := by
      simpa only [not_forall, exists_prop] using h
    obtain ⟨before, c, after, hq, hbefore, hc⟩ := exists_first_not q.conditions hnot
    obtain ⟨e, he, hk⟩ := Condition.parameter_of_not_compatible c hc
    rw [compile_of_read p q hj hm]
    exact ⟨e, compileReading_of_condition p q ho before c after e hq hbefore he, hk⟩
  | page hj hm ho hc h =>
    obtain ⟨e, he, hk⟩ := Page.ofRows_of_off q.limit q.offset h
    rw [compile_of_read p q hj hm]
    exact ⟨e, compileReading_of_off p q ho hc e he, hk⟩
  | insertion hj i hm h =>
    rw [compile_of_insert p q hj i hm]
    unfold compileInsertion
    rcases h with h | ⟨nested, h⟩
    · rw [if_pos h]
      exact ⟨_, rfl, rfl⟩
    · rw [h]
      split <;> exact ⟨_, rfl, rfl⟩
  | change hj hm h =>
    obtain ⟨mode, request, hr⟩ := compile_of_change hj hm
    obtain ⟨e, he, hk⟩ := Query.recordId_of_not h mode
    rw [hr, he]
    exact ⟨e, rfl, hk⟩
  | separator hj hm id hid h =>
    obtain ⟨mode, request, hr⟩ := compile_of_change hj hm
    rw [hr, Query.recordId_of_separator Addressing.keepsRecords_usual hid mode h]
    exact ⟨_, rfl, rfl⟩

theorem change_fault_or_ok (hj : q.joins = []) (hm : q.IsChange) :
    (∃ k, Fault p q k) ∨ ∃ r, compile p q = .ok r := by
  by_cases hid : ∃ id, q.NamesRecord id
  · obtain ⟨id, hid⟩ := hid
    by_cases hsep : '/' ∈ id.toList
    · exact .inl ⟨_, .separator hj hm id hid hsep⟩
    · obtain ⟨mode, request, hr⟩ := compile_of_change hj hm
      rw [hr, Query.recordId_of_names Addressing.keepsRecords_usual hid mode hsep]
      exact .inr ⟨_, rfl⟩
  · exact .inl ⟨_, .change hj hm hid⟩

theorem fault_or_ok (p : Provider) (q : Query) : (∃ k, Fault p q k) ∨ ∃ r, compile p q = .ok r := by
  by_cases hj : q.joins = []
  · cases hm : q.mutation with
    | read =>
      by_cases ho : p.Refuses q
      · exact .inl ⟨_, .owner hj hm ho⟩
      · by_cases hc : ∀ c ∈ q.conditions, c.Compatible
        · by_cases hpage : Page.Off q.limit q.offset
          · exact .inl ⟨_, .page hj hm ho hc hpage⟩
          · obtain ⟨page, hpage, -⟩ := Page.ofRows_of_not_off q.limit q.offset hpage
            rw [compile_of_read p q hj hm]
            exact .inr ⟨_, compileReading_of_page p q ho hc page hpage⟩
        · exact .inl ⟨_, .condition hj hm ho (by simpa only [not_forall, exists_prop] using hc)⟩
    | insert i =>
      rw [compile_of_insert p q hj i hm]
      unfold compileInsertion
      by_cases hi : i.orIgnore = true
      · exact .inl ⟨_, .insertion hj i hm (.inl hi)⟩
      · rw [if_neg hi]
        cases hsource : i.source with
        | values body => exact .inr ⟨_, rfl⟩
        | subquery nested => exact .inl ⟨_, .insertion hj i hm (.inr ⟨nested, hsource⟩)⟩
    | update body => exact change_fault_or_ok hj (.inl ⟨body, hm⟩)
    | delete => exact change_fault_or_ok hj (.inr hm)
  · exact .inl ⟨_, .joins hj⟩

theorem compile_error_iff (p : Provider) (q : Query) (k : Kind) :
    (∃ e, compile p q = .error e ∧ e.kind = k) ↔ Fault p q k := by
  refine ⟨?_, compile_of_fault⟩
  rintro ⟨e, he, rfl⟩
  rcases fault_or_ok p q with ⟨k, hf⟩ | ⟨r, hr⟩
  · obtain ⟨e', he', rfl⟩ := compile_of_fault hf
    rw [he] at he'
    rw [Except.error.inj he']
    exact hf
  · rw [hr] at he
    cases he

/-- the text of a query is unreadable or compiled; no query that is read is called unreadable -/
theorem compileText_unreadable_iff (p : Provider) (text : String) :
    (∃ e, compileText p text = .error e ∧ e.kind = .invalidQuery) ↔ Query.parse? text = none := by
  unfold compileText
  cases Query.parse? text with
  | none => exact ⟨fun _ => rfl, fun _ => ⟨_, rfl, rfl⟩⟩
  | some q =>
    simp only [reduceCtorEq, iff_false]
    intro herror
    have hf : Fault p q .invalidQuery := (compile_error_iff p q _).mp herror
    cases hf

/--
**When compiling fails, and how.**  It fails with an error of a kind exactly when the first fault
of the query is of that kind, and gives a request exactly when there is no fault.  A read that is
malformed reports the error of its first condition that is not defined.  A text fails of itself
exactly when it is no query.
-/
theorem compile_faults (p : Provider) (q : Query) :
    (∀ k, (∃ e, compile p q = .error e ∧ e.kind = k) ↔ Fault p q k) ∧
    ((∃ r, compile p q = .ok r) ↔ ∀ k, ¬ Fault p q k) ∧
    (∀ before c after, q.joins = [] → q.mutation = .read → ¬ p.Refuses q →
      q.conditions = before ++ c :: after → (∀ b ∈ before, b.Compatible) → ¬ c.Compatible →
      ∃ e, c.parameter = .error e ∧ e.kind = .malformedCondition ∧ compile p q = .error e) ∧
    (∀ text, Query.parse? text = some q → compileText p text = compile p q) ∧
    ∀ text, (∃ e, compileText p text = .error e ∧ e.kind = .invalidQuery) ↔
      Query.parse? text = none := by
  refine ⟨compile_error_iff p q, ⟨?_, fun h => ?_⟩, ?_, ?_, compileText_unreadable_iff p⟩
  · rintro ⟨r, hr⟩ k hf
    obtain ⟨e, he, -⟩ := compile_of_fault hf
    rw [hr] at he
    cases he
  · rcases fault_or_ok p q with ⟨k, hf⟩ | hr
    · exact absurd hf (h k)
    · exact hr
  · intro before c after hj hm ho hq hbefore hc
    obtain ⟨e, he, hk⟩ := Condition.parameter_of_not_compatible c hc
    refine ⟨e, he, hk, ?_⟩
    rw [compile_of_read p q hj hm]
    exact compileReading_of_condition p q ho before c after e hq hbefore he
  · intro text htext
    unfold compileText
    rw [htext]

end

end RestQuery

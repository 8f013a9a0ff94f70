import Mathlib
import RestQuery.Proofs.Compile.ChangedRecord
import RestQuery.Proofs.Json.ValueTree
import RestQuery.Proofs.Query.ConditionTree

/-!
# The body of a request

A request carries the row of its query as it is, and the row of a query that was read from a text
lies deeper in the text than it lies in the request.  So the reader has room for the text of the
request whenever it had room for the text of the query.

* `Decoder.object_fits`      an object that was read fits the room it was read with;
* `Mutation.row?`            the row that a mutation brings;
* `body_of_compile`          the body of a request is the row of its query;
* `Mutation.decodeWith_fits`, `Query.decode_fits`   rows that were read, one decoder at a time;
* `body_fits_of_compileText`   the body of the request of a text.
-/

namespace RestQuery

open Json

/-! ## what was read with so much room -/

namespace Json

theorem Decoder.object_fits {s : Scope} {t : Tree} {ms : Object}
    (h : Decoder.object s t = some ms) : (Value.obj ms).Fits s.room := by
  unfold Decoder.object at h
  split at h
  · next members hv =>
    have hms : members = ms := Option.some.inj h
    rw [hms] at hv
    exact Value.ofTree?_fits t hv
  · cases h

theorem Scope.room_of_inside? {s inner : Scope} (h : s.inside? = some inner) :
    s.room = inner.room + 1 := by
  obtain ⟨room, held⟩ := s
  cases room with
  | zero => cases h
  | succ room =>
    cases h
    rfl

theorem Fields.room_of_of? {names : List String} {s : Scope} {t : Tree} {f : Fields}
    (h : Fields.of? names s t = some f) : s.room = f.scope.room + 1 := by
  cases t with
  | obj ms =>
    simp only [of?, Option.bind_eq_bind, Option.bind_eq_some_iff] at h
    obtain ⟨inner, hinner, found, -, h⟩ := h
    cases h
    exact Scope.room_of_inside? hinner
  | arr ts =>
    simp only [of?, Option.bind_eq_bind, Option.bind_eq_some_iff] at h
    obtain ⟨inner, hinner, h⟩ := h
    split at h
    · cases h
    · cases h
      exact Scope.room_of_inside? hinner
  | null | bool | num | str => cases h

theorem room_of_alternative? {s inner : Scope} {t t' : Tree} {name : String}
    (h : alternative? s t = some (name, some (inner, t'))) : s.room = inner.room + 1 := by
  unfold alternative? at h
  split at h
  · obtain ⟨n, -, he⟩ := Option.map_eq_some_iff.mp h
    cases he
  · simp only [Option.bind_eq_bind, Option.bind_eq_some_iff] at h
    obtain ⟨outer, houter, n, -, h⟩ := h
    cases h
    exact Scope.room_of_inside? houter
  · cases h

end Json

/-! ## the row of a query -/

/-- the row that a mutation brings, where it brings one itself -/
def Mutation.row? : Mutation → Option Object
  | .insert ⟨.values body, _⟩ => some body
  | .update body => some body
  | .insert ⟨.subquery _, _⟩ | .read | .delete => none

section Nested

variable {nested : Decoder Query} {s : Scope} {t : Tree} {body : Object}

theorem RowSource.decodeWith_fits
    (h : RowSource.decodeWith nested s t = some (.values body)) : (Value.obj body).Fits s.room := by
  simp only [decodeWith, Option.bind_eq_bind, Option.bind_eq_some_iff] at h
  obtain ⟨⟨name, payload⟩, halternative, h⟩ := h
  split at h
  · next inner t' he =>
    obtain ⟨rfl, rfl⟩ := Prod.mk.inj he
    obtain ⟨ms, hms, h⟩ := Option.bind_eq_some_iff.mp h
    cases h
    have hroom := room_of_alternative? halternative
    exact (Decoder.object_fits hms).mono (by omega)
  · obtain ⟨q, -, h⟩ := Option.bind_eq_some_iff.mp h
    cases h
  · cases h

theorem Insertion.decodeWith_fits {i : Insertion} (h : Insertion.decodeWith nested s t = some i)
    (hbody : i.source = .values body) : (Value.obj body).Fits s.room := by
  simp only [decodeWith, Option.bind_eq_bind, Option.bind_eq_some_iff] at h
  obtain ⟨f, hf, source, hsource, orIgnore, -, h⟩ := h
  cases h
  obtain ⟨t', -, ht'⟩ := Fields.lookup_of_required hsource
  rw [show source = .values body from hbody] at ht'
  have hroom := Fields.room_of_of? hf
  exact (RowSource.decodeWith_fits ht').mono (by omega)

theorem Mutation.decodeWith_fits {m : Mutation} (h : Mutation.decodeWith nested s t = some m)
    (hbody : m.row? = some body) : (Value.obj body).Fits s.room := by
  simp only [decodeWith, Option.bind_eq_bind, Option.bind_eq_some_iff] at h
  obtain ⟨⟨tag, rest⟩, -, kind, -, h⟩ := h
  -- a held tree has the room of the tree that was held
  have hheld : s.hold.room = s.room := rfl
  cases kind with
  | read =>
    obtain ⟨-, -, h⟩ := Option.bind_eq_some_iff.mp h
    cases h
    cases hbody
  | delete =>
    obtain ⟨-, -, h⟩ := Option.bind_eq_some_iff.mp h
    cases h
    cases hbody
  | insert =>
    obtain ⟨i, hi, h⟩ := Option.bind_eq_some_iff.mp h
    cases h
    obtain ⟨source, orIgnore⟩ := i
    cases source with
    | values row =>
      cases hbody
      rw [← hheld]
      exact Insertion.decodeWith_fits hi rfl
    | subquery q => cases hbody
  | update =>
    obtain ⟨f, hf, h⟩ := Option.bind_eq_some_iff.mp h
    obtain ⟨row, hrow, h⟩ := Option.bind_eq_some_iff.mp h
    cases h
    cases hbody
    have hroom := Fields.room_of_of? hf
    rw [hheld] at hroom
    rw [hroom]
    rcases Fields.lookup_of_optional hrow with rfl | ⟨t', -, ht'⟩
    · exact Value.fits_empty f.scope.room
    · exact (Decoder.object_fits ht').mono (Nat.le_succ _)

theorem Query.decodeWith_fits {q : Query} (h : Query.decodeWith nested s t = some q)
    (hbody : q.mutation.row? = some body) :
    ∃ room, s.room = room + 1 ∧ (Value.obj body).Fits room := by
  obtain ⟨f, hf, h⟩ := Option.bind_eq_some_iff.mp h
  -- ten parts stand before the mutation
  iterate 10 obtain ⟨_, -, h⟩ := Option.bind_eq_some_iff.mp h
  obtain ⟨mutation, hm, h⟩ := Option.bind_eq_some_iff.mp h
  obtain ⟨_, -, h⟩ := Option.bind_eq_some_iff.mp h
  cases h
  refine ⟨f.scope.room, Fields.room_of_of? hf, ?_⟩
  rcases Fields.lookup_of_optional hm with rfl | ⟨t', -, ht'⟩
  · cases hbody
  · exact Mutation.decodeWith_fits ht' hbody

end Nested

theorem Query.decode_fits {s : Scope} {t : Tree} {q : Query} {body : Object}
    (h : Query.decode s t = some q) (hbody : q.mutation.row? = some body) :
    ∃ room, s.room = room + 1 ∧ (Value.obj body).Fits room := by
  obtain ⟨nested, hwith⟩ := Query.exists_decodeWith h
  exact Query.decodeWith_fits hwith hbody

/-! ## the body of a request -/

/-- a request carries the row of its query, and nothing else as its body -/
theorem body_of_compile {p : Provider} {q : Query} {r : Request} (h : compile p q = .ok r) :
    r.body = q.mutation.row? := by
  cases hm : q.mutation with
  | read => exact (request_of_read h hm).2.1
  | insert i =>
    obtain ⟨-, body, hsource, hbody⟩ := request_of_insert h i hm
    obtain ⟨source, orIgnore⟩ := i
    rw [hbody, show source = .values body from hsource]
    rfl
  | update body => exact (request_of_update h body hm).2.1
  | delete => exact (request_of_delete h hm).2.1

/-- the row of a text lies at least two containers deep, in a query and in its mutation -/
theorem body_fits_of_compileText {p : Provider} {text : String} {r : Request}
    (h : compileText p text = .ok r) {body : Object} (hbody : r.body = some body) :
    (Value.obj body).Fits 126 := by
  unfold compileText at h
  split at h
  · cases h
  · next q hq =>
    rw [body_of_compile h] at hbody
    obtain ⟨t, -, hdecode⟩ := Option.bind_eq_some_iff.mp hq
    obtain ⟨room, hroom, hfits⟩ := Query.decode_fits hdecode hbody
    have houtermost : Scope.outermost.room = 127 := rfl
    exact hfits.mono (by omega)

end RestQuery

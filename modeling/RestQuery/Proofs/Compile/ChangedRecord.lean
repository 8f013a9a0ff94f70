import Mathlib
import RestQuery.Proofs.Compile.Outcome
import RestQuery.Proofs.Json.Literal

/-!
# The record of a change

An update or a deletion is accepted only when it names one record by its id, and the path of its
request can be taken apart again: what stands behind the last slash is the id.

* `cutAtLast?`           a text before and behind its last separator;
* `Query.Addresses`      the request is on the record that the query names;
* `change_one_record`    every accepted change addresses one record, and no other request changes.
-/

namespace RestQuery

open Json

/-! ## the last separator -/

/-- a text before and behind its last separator, none without one -/
def cutAtLast? (sep : Char) (s : String) : Option (String × String) :=
  match s.toList.reverse.dropWhile (· != sep) with
  | [] => none
  | _ :: before =>
    some (String.ofList before.reverse,
      String.ofList (s.toList.reverse.takeWhile (· != sep)).reverse)

theorem cutAtLast?_append (sep : Char) (a b : String) (h : sep ∉ b.toList) :
    cutAtLast? sep (a ++ String.singleton sep ++ b) = some (a, b) := by
  have hb := bne_of_not_mem (mt List.mem_reverse.mp h)
  have hs : (a ++ String.singleton sep ++ b).toList.reverse =
      b.toList.reverse ++ sep :: a.toList.reverse := by
    simp only [String.toList_append, String.toList_singleton, List.reverse_append,
      List.reverse_cons, List.reverse_nil, List.nil_append, List.singleton_append]
  unfold cutAtLast?
  rw [hs, List.dropWhile_append_of_pos hb, List.takeWhile_append_of_pos hb]
  simp only [bne_self_eq_false, Bool.false_eq_true, not_false_eq_true, List.dropWhile_cons_of_neg,
    List.takeWhile_cons_of_neg, List.append_nil, List.reverse_reverse, String.ofList_toList]

/-! ## the text of an id -/

theorem Json.Value.IsId.ne_empty {v : Value} {id : String} (h : v.IsId id) : id ≠ "" := by
  cases h with
  | text s hs => exact hs
  | number n => exact n.numeral.text_ne_empty

/-! ## requests on one record -/

/-- the query names one record, and the path of the request is the one of this record -/
structure Query.Addresses (q : Query) (r : Request) (id : String) : Prop where
  joins : q.joins = []
  expressions : q.expressions = []
  condition : ∃ value : Value,
    q.conditions = [⟨.and, .compare "id" .eq value⟩] ∧ value.plainText = id
  id_ne : id ≠ ""
  id_segment : '/' ∉ id.toList
  path : r.path = q.resource ++ "/" ++ id
  cut : cutAtLast? '/' r.path = some (q.resource, id)

theorem Query.addresses_of_recordId {a : Addressing} (ha : a.KeepsRecords) {q : Query} {r : Request}
    {mode id : String} (hj : q.joins = []) (hid : q.recordId mode a = .ok id)
    (hpath : r.path = a.recordPath q.resource id) : q.Addresses r id := by
  obtain ⟨hnames, hsep⟩ := (Query.recordId_eq_ok_iff ha q mode id).mp hid
  obtain ⟨value, hvalue, hvalueId⟩ := hnames.condition
  rw [ha.recordPath] at hpath
  exact {
    joins := hj
    expressions := hnames.expressions
    condition := ⟨value, hvalue, hvalueId.plainText_eq⟩
    id_ne := hvalueId.ne_empty
    id_segment := hsep
    path := hpath
    cut := by rw [hpath]; exact cutAtLast?_append '/' q.resource id hsep }

section
variable {p : Provider} {q : Query} {a : Addressing} {r : Request} (h : compile p q a = .ok r)
include h

theorem addresses_of_change (ha : a.KeepsRecords) (hm : q.IsChange) : ∃ id, q.Addresses r id := by
  have hj := joins_of_compile p q h
  rcases hm with ⟨body, hm⟩ | hm
  · obtain ⟨-, -, -, id, hid, hpath⟩ := request_of_update h body hm
    exact ⟨id, Query.addresses_of_recordId ha hj hid hpath⟩
  · obtain ⟨-, -, -, id, hid, hpath⟩ := request_of_delete h hm
    exact ⟨id, Query.addresses_of_recordId ha hj hid hpath⟩

theorem method_eq_put_iff : r.method = .put ↔ ∃ body, q.mutation = .update body := by
  cases hm : q.mutation with
  | read => simp [(request_of_read h hm).1]
  | insert i => simp [(request_of_insert h i hm).1]
  | update body => simp [(request_of_update h body hm).1]
  | delete => simp [(request_of_delete h hm).1]

theorem method_eq_delete_iff : r.method = .delete ↔ q.mutation = .delete := by
  cases hm : q.mutation with
  | read => simp [(request_of_read h hm).1]
  | insert i => simp [(request_of_insert h i hm).1]
  | update body => simp [(request_of_update h body hm).1]
  | delete => simp [(request_of_delete h hm).1]

end

theorem Query.Addresses.unique {q q' : Query} {r r' : Request} {id id' : String}
    (h : q.Addresses r id) (h' : q'.Addresses r' id') (hpath : r.path = r'.path) :
    q.resource = q'.resource ∧ id = id' := by
  have hcut := h.cut
  rw [hpath, h'.cut] at hcut
  obtain ⟨hresource, hid⟩ := Prod.mk.inj (Option.some.inj hcut)
  exact ⟨hresource.symm, hid.symm⟩

/--
**An accepted change addresses one record.**  The path tells its resource and its id; an update
puts its body, a deletion has none, and the only parameter is the one that lets unknown properties
pass.  Reads and insertions never put or delete.  This is so under every addressing that keeps the
paths of records, and two changes may be sent under different ones.
-/
theorem change_one_record {p : Provider} {q : Query} {a : Addressing} {r : Request}
    (ha : a.KeepsRecords) (h : compile p q a = .ok r) :
    (q.IsChange → ∃ id, q.Addresses r id) ∧
    (r.method = .put ↔ ∃ body, q.mutation = .update body) ∧
    (r.method = .delete ↔ q.mutation = .delete) ∧
    (∀ body, q.mutation = .update body →
      r.body = some body ∧
        r.parameters = if q.ignoreMissing then [(p.dialect.toleranceKey, "true")] else []) ∧
    (q.mutation = .delete → r.body = none ∧ r.parameters = []) ∧
    ∀ p' q' a' r', a'.KeepsRecords → compile p' q' a' = .ok r' → q.IsChange → q'.IsChange →
      r.path = r'.path → q.resource = q'.resource ∧ ∃ id, q.Addresses r id ∧ q'.Addresses r' id := by
  refine ⟨addresses_of_change h ha, method_eq_put_iff h, method_eq_delete_iff h, ?_, ?_, ?_⟩
  · intro body hm
    obtain ⟨-, hbody, hparameters, -⟩ := request_of_update h body hm
    exact ⟨hbody, hparameters⟩
  · intro hm
    obtain ⟨-, hbody, hparameters, -⟩ := request_of_delete h hm
    exact ⟨hbody, hparameters⟩
  · intro p' q' a' r' ha' h' hm hm' hpath
    obtain ⟨id, haddress⟩ := addresses_of_change h ha hm
    obtain ⟨id', haddress'⟩ := addresses_of_change h' ha' hm'
    obtain ⟨hresource, rfl⟩ := haddress.unique haddress' hpath
    exact ⟨hresource, id, haddress, haddress'⟩

def renameUnit : Query where
  resource := "unit"
  conditions := [.compare "id" .eq (.str "a b")]
  ignoreMissing := true
  mutation := .update [("name", .str "pcs")]

def dropUnit : Query where
  resource := "unit"
  conditions := [.compare "id" .eq (.str "a b")]
  mutation := .delete

/-- keys with their words in brackets, and lists that are not shown -/
def bracketed : Addressing where
  conditionKey column word _ := column ++ "[" ++ word ++ "]"
  listText _ := "*"

/-- an update and a deletion of the same record, with different keys for conditions -/
theorem change_one_record_unit :
    bracketed.KeepsRecords ∧ bracketed.conditionKey "id" "eq" false ≠ parameterKey "id" "eq" false ∧
    ∃ r r', compile {} renameUnit bracketed = .ok r ∧ compile {} dropUnit = .ok r' ∧
      r.path = "unit/a b" ∧ r'.path = "unit/a b" ∧ r.method = .put ∧
      r.parameters = [("ignoreMissingProperties", "true")] ∧ r'.method = .delete ∧
      ∃ id, renameUnit.Addresses r id ∧ dropUnit.Addresses r' id := by
  have ha : bracketed.KeepsRecords := ⟨rfl, rfl⟩
  have h : compile {} renameUnit bracketed = .ok
      { method := .put, path := "unit/a b"
        parameters := [("ignoreMissingProperties", "true")]
        body := some [("name", .str "pcs")] } := rfl
  have h' : compile {} dropUnit = .ok { method := .delete, path := "unit/a b" } := rfl
  obtain ⟨-, hput, -, hupdate, -, hsame⟩ := change_one_record ha h
  obtain ⟨-, -, hdelete, -, -, -⟩ := change_one_record Addressing.keepsRecords_usual h'
  exact ⟨ha, by decide, _, _, h, h', rfl, rfl, hput.mpr ⟨_, rfl⟩, (hupdate _ rfl).2,
    hdelete.mpr rfl,
    (hsame _ _ _ _ Addressing.keepsRecords_usual h' (.inl ⟨_, rfl⟩) (.inr rfl) rfl).2⟩

end RestQuery

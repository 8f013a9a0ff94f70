import Mathlib
import RestQuery.Proofs.Relation.Scan

/-!
# Resolving again, in parts and in another order

What a relation of a record comes to depends on the attributes of the record and on the rows that
came along, never on what is attached already.  So a run attaches a list of things that is known
before it starts, and the laws of insertion are laws of resolving.

* `NameMap.insertAll`        one insertion after the other;
* `Resolver.outcome?`        what a relation comes to, none where everything stays as it is;
* `Resolver.outcomes`        the same for all relations, under their names;
* `Resolver.resolve_eq_map`  a run inserts the outcomes;
* `Resolver.resolve_idempotent`, `Resolver.resolve_composes`   runs after runs.
-/

namespace RestQuery

open Json

/-! ## many insertions -/

namespace NameMap

variable {α : Type}

/-- insert one pair after the other -/
def insertAll (l : List (String × α)) (m : NameMap α) : NameMap α :=
  l.foldl (fun m p => insert p.1 p.2 m) m

theorem insertAll_nil (m : NameMap α) : insertAll [] m = m := rfl

theorem insertAll_cons (p : String × α) (l : List (String × α)) (m : NameMap α) :
    insertAll (p :: l) m = insertAll l (insert p.1 p.2 m) := rfl

theorem insertAll_append (l l' : List (String × α)) (m : NameMap α) :
    insertAll (l ++ l') m = insertAll l' (insertAll l m) := List.foldl_append

theorem insertAll_map {β : Type} (f : α → β) (l : List (String × α)) (m : NameMap α) :
    (insertAll l m).map (fun p => (p.1, f p.2)) =
      insertAll (l.map fun p => (p.1, f p.2)) (m.map fun p => (p.1, f p.2)) := by
  induction l generalizing m with
  | nil => rfl
  | cons p l ih => rw [insertAll_cons, ih, insert_map, List.map_cons, insertAll_cons]

/-- what is inserted before does not show under a name that is inserted anyway -/
theorem insertAll_insert (l : List (String × α)) {name : String} (value : α) (m : NameMap α)
    (h : name ∈ l.map Prod.fst) : insertAll l (insert name value m) = insertAll l m := by
  induction l generalizing m with
  | nil => exact absurd h List.not_mem_nil
  | cons p l ih =>
    rw [insertAll_cons, insertAll_cons]
    by_cases hp : p.1 = name
    · rw [hp, insert_insert]
    · have hl : name ∈ l.map Prod.fst := (List.mem_cons.mp h).resolve_left (Ne.symm hp)
      rw [insert_comm hp, ih _ hl]

theorem insertAll_insertAll (l l' : List (String × α)) (m : NameMap α)
    (h : ∀ p ∈ l', p.1 ∈ l.map Prod.fst) : insertAll l (insertAll l' m) = insertAll l m := by
  induction l' generalizing m with
  | nil => rfl
  | cons p l' ih =>
    obtain ⟨hp, hl'⟩ := List.forall_mem_cons.mp h
    rw [insertAll_cons, ih _ hl', insertAll_insert l p.2 m hp]

/-- a second time changes nothing, also where a name is inserted more than once -/
theorem insertAll_twice (l : List (String × α)) (m : NameMap α) :
    insertAll l (insertAll l m) = insertAll l m :=
  insertAll_insertAll l l m fun _ hp => List.mem_map_of_mem hp

theorem insertAll_perm {l l' : List (String × α)} (hl : (l.map Prod.fst).Nodup) (h : l.Perm l')
    (m : NameMap α) : insertAll l m = insertAll l' m := by
  refine h.foldl_eq' ?_ m
  intro p hp q hq m
  by_cases he : p = q
  · rw [he]
  · have hne : p.1 ≠ q.1 := fun e => he (List.inj_on_of_nodup_map hl hp hq e)
    exact (insert_comm hne p.2 q.2 m).symm

theorem find?_insertAll_of_not_mem (l : List (String × α)) (m : NameMap α) {name : String}
    (h : name ∉ l.map Prod.fst) : find? name (insertAll l m) = find? name m := by
  induction l generalizing m with
  | nil => rfl
  | cons p l ih =>
    rw [List.map_cons, List.mem_cons, not_or] at h
    rw [insertAll_cons, ih _ h.2, find?_insert, if_neg h.1]

theorem find?_insertAll_of_mem {l : List (String × α)} (hl : (l.map Prod.fst).Nodup)
    (m : NameMap α) {name : String} {value : α} (h : (name, value) ∈ l) :
    find? name (insertAll l m) = some value := by
  induction l generalizing m with
  | nil => exact absurd h List.not_mem_nil
  | cons p l ih =>
    obtain ⟨hp, hl⟩ := List.nodup_cons.mp hl
    rw [insertAll_cons]
    rcases List.mem_cons.mp h with rfl | h
    · rw [find?_insertAll_of_not_mem l _ hp, find?_insert, if_pos rfl]
    · exact ih hl _ h

end NameMap

/-! ## outcomes -/

namespace Resolver

variable (r : Resolver) (buckets : Buckets)

/-- what a relation of a row with these attributes comes to -/
def outcome? (attributes : Row) (relation : Relation) : Option Attachment :=
  let key := NameMap.find? relation.foreignKey attributes
  if buckets = [] then none
  else if PointsNowhere key then some .null
  else
    match key, r.matching.lookup buckets (r.rules.bucketOf relation) with
    | some key, some rows => (lastRow? key rows).map fun row => r.formed row relation.target
    | _, _ => none

/-- what relations come to, each under its name, without those that leave everything as it is -/
def outcomes (attributes : Row) (relations : List Relation) : List (String × Attachment) :=
  relations.filterMap fun relation =>
    (r.outcome? buckets attributes relation).map fun a => (relation.name, a)

theorem outcomes_append (attributes : Row) (relations relations' : List Relation) :
    r.outcomes buckets attributes (relations ++ relations') =
      r.outcomes buckets attributes relations ++ r.outcomes buckets attributes relations' :=
  List.filterMap_append

theorem outcomes_names (attributes : Row) (relations : List Relation) :
    ((r.outcomes buckets attributes relations).map Prod.fst).Sublist
      (relations.map Relation.name) := by
  induction relations with
  | nil => exact List.Sublist.refl []
  | cons relation relations ih =>
    show ((List.filterMap _ (relation :: relations)).map Prod.fst).Sublist _
    rw [List.filterMap_cons]
    cases h : r.outcome? buckets attributes relation with
    | none => exact ih.cons _
    | some a => exact ih.cons_cons relation.name

theorem outcomes_of_nil (attributes : Row) (relations : List Relation) :
    r.outcomes [] attributes relations = [] := by
  unfold outcomes
  rw [List.filterMap_eq_nil_iff]
  intro relation _
  rfl

theorem attachByScan_eq (hb : buckets ≠ []) (attributes : Row) (attached : NameMap Attachment)
    (relation : Relation) :
    r.attachByScan buckets attributes attached relation =
      match r.outcome? buckets attributes relation with
      | some a => NameMap.insert relation.name a attached
      | none => attached := by
  simp only [attachByScan, outcome?, if_neg hb]
  by_cases hkey : PointsNowhere (NameMap.find? relation.foreignKey attributes)
  · rw [if_pos hkey, if_pos hkey]
  · rw [if_neg hkey, if_neg hkey]
    cases NameMap.find? relation.foreignKey attributes with
    | none => rfl
    | some key =>
      cases r.matching.lookup buckets (r.rules.bucketOf relation) with
      | none => rfl
      | some rows =>
        cases hrow : lastRow? key rows with
        | none => simp only [hrow, Option.map_none]
        | some row => simp only [hrow, Option.map_some]

/-- one relation after the other, or all that they come to -/
theorem foldl_attachByScan_eq (hb : buckets ≠ []) (attributes : Row) (relations : List Relation)
    (attached : NameMap Attachment) :
    relations.foldl (r.attachByScan buckets attributes) attached =
      NameMap.insertAll (r.outcomes buckets attributes relations) attached := by
  induction relations generalizing attached with
  | nil => rfl
  | cons relation relations ih =>
    have hcons : relation :: relations = [relation] ++ relations := rfl
    rw [List.foldl_cons, ih, attachByScan_eq r buckets hb, hcons, outcomes_append,
      NameMap.insertAll_append]
    unfold outcomes
    rw [List.filterMap_cons]
    cases r.outcome? buckets attributes relation <;> rfl

/-! ## runs -/

/-- a record with everything attached that relations come to -/
def resolveRecord (relations : List Relation) (record : Record) : Record :=
  { record with
    attached :=
      NameMap.insertAll (r.outcomes buckets record.attributes relations) record.attached }

theorem resolveRecord_of_outcomes_nil (relations : List Relation) (record : Record)
    (h : r.outcomes buckets record.attributes relations = []) :
    r.resolveRecord buckets relations record = record := by
  unfold resolveRecord
  rw [h, NameMap.insertAll_nil]
  cases record
  rfl

/-- a run changes no attributes, so it leaves the outcomes of every other run as they are -/
theorem resolveRecord_resolveRecord (relations relations' : List Relation) (record : Record) :
    r.resolveRecord buckets relations' (r.resolveRecord buckets relations record) =
      { record with
        attached :=
          NameMap.insertAll (r.outcomes buckets record.attributes relations')
            (NameMap.insertAll (r.outcomes buckets record.attributes relations)
              record.attached) } := rfl

/-- every record by itself, the empty cases included -/
theorem resolve_eq_map (relations : List Relation) (records : List Record) :
    r.resolve buckets relations records = records.map (r.resolveRecord buckets relations) := by
  by_cases h : buckets = [] ∨ relations = []
  · have hid : ∀ record ∈ records, r.resolveRecord buckets relations record = record := by
      intro record _
      apply resolveRecord_of_outcomes_nil
      rcases h with rfl | rfl
      · exact outcomes_of_nil r record.attributes relations
      · rfl
    rw [resolve_of_nil r buckets relations records h, List.map_congr_left hid, List.map_id']
  · obtain ⟨hb, hr⟩ := not_or.mp h
    rw [resolve_of_ne_nil r buckets relations records hb hr]
    apply List.map_congr_left
    intro record _
    unfold resolveRecord
    rw [foldl_attachByScan_eq r buckets hb]

theorem resolve_singleton (relations : List Relation) (record : Record) :
    r.resolve buckets relations [record] = [r.resolveRecord buckets relations record] := by
  rw [resolve_eq_map, List.map_singleton]

/--
**Resolving again changes nothing**, whatever was attached before the first run and however often
relations share a name, a bucket or a foreign key.
-/
theorem resolve_idempotent (relations : List Relation) (records : List Record) :
    r.resolve buckets relations (r.resolve buckets relations records) =
      r.resolve buckets relations records := by
  rw [resolve_eq_map, resolve_eq_map, List.map_map]
  apply List.map_congr_left
  intro record _
  show r.resolveRecord buckets relations (r.resolveRecord buckets relations record) = _
  rw [resolveRecord_resolveRecord, NameMap.insertAll_twice]
  rfl

theorem resolve_append_records (relations : List Relation) (records records' : List Record) :
    r.resolve buckets relations (records ++ records') =
      r.resolve buckets relations records ++ r.resolve buckets relations records' := by
  rw [resolve_eq_map, resolve_eq_map, resolve_eq_map, List.map_append]

theorem resolve_append_relations (relations relations' : List Relation) (records : List Record) :
    r.resolve buckets (relations ++ relations') records =
      r.resolve buckets relations' (r.resolve buckets relations records) := by
  rw [resolve_eq_map, resolve_eq_map, resolve_eq_map, List.map_map]
  apply List.map_congr_left
  intro record _
  show _ = r.resolveRecord buckets relations' (r.resolveRecord buckets relations record)
  rw [resolveRecord_resolveRecord, ← NameMap.insertAll_append, ← outcomes_append]
  rfl

theorem resolve_perm {relations relations' : List Relation}
    (hnames : (relations.map Relation.name).Nodup) (h : relations.Perm relations')
    (records : List Record) :
    r.resolve buckets relations records = r.resolve buckets relations' records := by
  rw [resolve_eq_map, resolve_eq_map]
  apply List.map_congr_left
  intro record _
  have hnodup := hnames.sublist (outcomes_names r buckets record.attributes relations)
  have hperm : (r.outcomes buckets record.attributes relations).Perm
      (r.outcomes buckets record.attributes relations') := h.filterMap _
  unfold resolveRecord
  rw [NameMap.insertAll_perm hnodup hperm]

/--
**Resolving composes.**  Lists of records can be resolved apart, lists of relations one after the
other, and where no two relations have one name their order does not matter.
-/
theorem resolve_composes :
    (∀ relations records records',
      r.resolve buckets relations (records ++ records') =
        r.resolve buckets relations records ++ r.resolve buckets relations records') ∧
    (∀ relations relations' records,
      r.resolve buckets (relations ++ relations') records =
        r.resolve buckets relations' (r.resolve buckets relations records)) ∧
    ∀ relations relations' records, (relations.map Relation.name).Nodup →
      relations.Perm relations' →
      r.resolve buckets relations records = r.resolve buckets relations' records :=
  ⟨resolve_append_records r buckets, resolve_append_relations r buckets,
    fun _ _ records hnames h => resolve_perm r buckets hnames h records⟩

def sale : Record :=
  Record.ofRow "sale" [("customerId", .int 7 (by decide)), ("supplierId", .str "")]

/-- two of them share bucket and foreign key -/
def saleRelations : List Relation :=
  [.ofName "customer",
   { name := "payer", foreignKey := "customerId", target := .record "party" },
   .ofName "supplier"]

def saleBuckets : Buckets :=
  [("Party",
    [[("id", .str "7"), ("name", .str "old")], [("id", .str "7"), ("name", .str "new")]])]

/-- whichever relation comes first indexes the bucket of the others -/
theorem resolve_composes_sale :
    (saleRelations.map Relation.name).Nodup ∧ saleRelations.Perm saleRelations.reverse ∧
      ({} : Resolver).resolve saleBuckets saleRelations [sale] =
        ({} : Resolver).resolve saleBuckets saleRelations.reverse [sale] ∧
      (({} : Resolver).resolve saleBuckets saleRelations.reverse [sale]).map
          (fun record => (record.attachment? "payer", record.attachment? "supplier")) =
        [(some (.record (Record.ofRow "party" [("id", .str "7"), ("name", .str "new")])),
          some .null)] := by
  have hnames : (saleRelations.map Relation.name).Nodup := by decide
  have hperm : saleRelations.Perm saleRelations.reverse := (List.reverse_perm _).symm
  refine ⟨hnames, hperm,
    (resolve_composes {} saleBuckets).2.2 saleRelations saleRelations.reverse [sale] hnames hperm,
    ?_⟩
  rw [resolve_eq_map]
  rfl

end Resolver

end RestQuery

import Mathlib
import RestQuery.Proofs.Json.TreeText
import RestQuery.Proofs.Relation.Composition
import RestQuery.Proofs.Relation.Lookup

/-!
# The text of a resolved record

Attributes and attachments of a record are written side by side, as the members of one object.
Every one of them is there; but the names of relations are chosen apart from the names of
attributes, and where the two meet the object has a member twice.

* `Record.members`, `Record.toTree_eq`     the members of the JSON form;
* `Record.nodup_members_iff`               when no member stands twice;
* `Record.find?_ofList_members`            what a reader sees that keeps the last of them;
* `Record.WrittenIn`                       nothing of a record is missing in some members;
* `Resolver.formed_toTree`                 an attached row is written as it came;
* `ResponseBody.resolved`, `resolve_text`  the records of a response, and their texts.
-/

namespace RestQuery

open Json

/-! ## pairs of two lists -/

namespace NameMap

variable {α : Type}

theorem ascending_insertAll (l : List (String × α)) {m : NameMap α} (h : Ascending m) :
    Ascending (insertAll l m) := ascending_foldl l h

theorem find?_insertAll {l : List (String × α)} (hl : (l.map Prod.fst).Nodup) (m : NameMap α)
    (name : String) : find? name (insertAll l m) = (find? name l).or (find? name m) := by
  cases h : find? name l with
  | none => exact find?_insertAll_of_not_mem l m ((find?_eq_none_iff name l).mp h)
  | some a => exact find?_insertAll_of_mem hl m ((find?_eq_some_iff hl name a).mp h)

theorem find?_ofList_append {l l' : List (String × α)} (hl : (l.map Prod.fst).Nodup)
    (hl' : (l'.map Prod.fst).Nodup) (name : String) :
    find? name (ofList (l ++ l')) = (find? name l').or (find? name l) := by
  show find? name (insertAll (l ++ l') []) = _
  rw [insertAll_append, find?_insertAll hl', find?_insertAll hl, find?_nil, Option.or_none]

end NameMap

/-! ## members of a record -/

theorem attachmentMembers_eq_map (attached : List (String × Attachment)) :
    attachmentMembers attached = attached.map fun m => (CodePoint.ofString m.1, m.2.toTree) := by
  induction attached with
  | nil => rfl
  | cons m attached ih =>
    obtain ⟨name, a⟩ := m
    rw [attachmentMembers, ih, List.map_cons]

namespace Record

/-- attributes and then attachments, each under its name -/
def members (r : Record) : List (String × Tree) :=
  r.attributes.map (fun m => (m.1, m.2.toTree)) ++ r.attached.map fun m => (m.1, m.2.toTree)

theorem toTree_eq (r : Record) : r.toTree = .object r.members := by
  cases r with
  | mk kind attributes attached =>
    rw [toTree, Value.toMembers_eq_map, attachmentMembers_eq_map]
    simp [Tree.object, members, Function.comp_def]

theorem names_members (r : Record) :
    r.members.map Prod.fst = r.attributes.map Prod.fst ++ r.attached.map Prod.fst := by
  simp [members, Function.comp_def]

section
variable {r : Record} (hattributes : (r.attributes.map Prod.fst).Nodup)
  (hattached : (r.attached.map Prod.fst).Nodup)
include hattributes hattached

theorem nodup_members_iff :
    (r.members.map Prod.fst).Nodup ↔
      ∀ name ∈ r.attributes.map Prod.fst, r.attachment? name = none := by
  rw [names_members, List.nodup_append', and_iff_right hattributes, and_iff_right hattached]
  exact forall₂_congr fun name _ => (NameMap.find?_eq_none_iff name r.attached).symm

/-- what is attached hides the attribute of its name -/
theorem find?_ofList_members (name : String) :
    NameMap.find? name (NameMap.ofList r.members) =
      ((r.attachment? name).map Attachment.toTree).or
        ((r.attribute? name).map Value.toTree) := by
  unfold members attachment? attribute?
  rw [NameMap.find?_ofList_append, NameMap.find?_map, NameMap.find?_map]
  · simpa [Function.comp_def] using hattributes
  · simpa [Function.comp_def] using hattached

end

/-- nothing of a record is missing in these members -/
structure WrittenIn (r : Record) (buckets : Buckets) (ms : List (String × Tree)) : Prop where
  attributes : ∀ m ∈ r.attributes, (m.1, m.2.toTree) ∈ ms
  nulls : ∀ name, r.attachment? name = some .null → (name, Tree.null) ∈ ms
  /-- everything else that is attached is a row that came along, written as it came -/
  rows : ∀ name a, r.attachment? name = some a → a ≠ .null →
    ∃ bucket ∈ buckets, ∃ row ∈ bucket.2,
      a.toTree = (Value.obj row).toTree ∧ (name, a.toTree) ∈ ms

/-- all members are written, whatever their names are -/
theorem writtenIn_members {r : Record} {buckets : Buckets}
    (h : ∀ m ∈ r.attached, m.2 ≠ .null →
      ∃ bucket ∈ buckets, ∃ row ∈ bucket.2, m.2.toTree = (Value.obj row).toTree) :
    r.WrittenIn buckets r.members where
  attributes m hm := List.mem_append_left _ (List.mem_map.mpr ⟨m, hm, rfl⟩)
  nulls name hname :=
    List.mem_append_right _ (List.mem_map.mpr ⟨_, NameMap.mem_of_find? hname, rfl⟩)
  rows name a hname ha := by
    have hmem := NameMap.mem_of_find? hname
    obtain ⟨bucket, hbucket, row, hrow, he⟩ := h _ hmem ha
    exact ⟨bucket, hbucket, row, hrow, he,
      List.mem_append_right _ (List.mem_map.mpr ⟨_, hmem, rfl⟩)⟩

end Record

/-! ## resolved records -/

theorem mem_of_lastRow? {key : Value} {rows : List Row} {row : Row}
    (h : lastRow? key rows = some row) : row ∈ rows :=
  (List.mem_filter.mp (List.mem_of_getLast? h)).1

namespace Resolver

variable (rules : BucketRules) (matching : Matching)

/-- whatever form a relation asks for, a row is written as it came -/
theorem formed_toTree (row : Row) (target : TargetForm) :
    (({ rules, matching } : Resolver).formed row target).toTree = (Value.obj row).toTree := by
  cases target with
  | raw => rfl
  | record kind =>
    show Tree.obj (Value.toMembers row ++ []) = .obj (Value.toMembers row)
    rw [List.append_nil]

theorem row_of_outcome? {r : Resolver} {buckets : Buckets} {attributes : Row}
    {relation : Relation} {a : Attachment} (h : r.outcome? buckets attributes relation = some a)
    (ha : a ≠ .null) :
    ∃ bucket ∈ buckets, skeleton bucket.1 = skeleton (r.rules.bucketOf relation) ∧
      ∃ row ∈ bucket.2, a = r.formed row relation.target := by
  simp only [outcome?] at h
  split at h
  · cases h
  · split at h
    · exact absurd (Option.some.inj h).symm ha
    · split at h
      · next key rows hkey hrows =>
        obtain ⟨row, hrow, rfl⟩ := Option.map_eq_some_iff.mp h
        obtain ⟨name, hbucket, hsimilar⟩ := Matching.mem_of_lookup hrows
        exact ⟨(name, rows), hbucket, hsimilar, row, mem_of_lastRow? hrow, rfl⟩
      · cases h

/-- what is attached to a fresh record -/
theorem attached_of_resolveRecord {r : Resolver} {buckets : Buckets} {relations : List Relation}
    {kind : String} {row : Row} {m : String × Attachment}
    (hm : m ∈ (r.resolveRecord buckets relations (Record.ofRow kind row)).attached)
    (hnull : m.2 ≠ .null) :
    ∃ bucket ∈ buckets, ∃ row ∈ bucket.2, ∃ target, m.2 = r.formed row target := by
  have hout := (NameMap.mem_foldl hm).resolve_right List.not_mem_nil
  obtain ⟨relation, -, hrelation⟩ := List.mem_filterMap.mp hout
  obtain ⟨a, ha, rfl⟩ := Option.map_eq_some_iff.mp hrelation
  obtain ⟨bucket, hbucket, -, row, hrow, he⟩ := row_of_outcome? ha hnull
  exact ⟨bucket, hbucket, row, hrow, relation.target, he⟩

end Resolver

/-- the records of a response, with what relations lead to -/
def ResponseBody.resolved (b : ResponseBody) (r : Resolver) (relations : List Relation)
    (kind : String) : List Record :=
  r.resolve b.buckets relations (b.records kind)

section
variable (rules : BucketRules) (matching : Matching) (relations : List Relation) (kind : String)
  {body : ResponseBody}

theorem ResponseBody.resolved_eq (body : ResponseBody) (r : Resolver) :
    body.resolved r relations kind =
      body.data.map fun row => r.resolveRecord body.buckets relations (Record.ofRow kind row) := by
  unfold ResponseBody.resolved ResponseBody.records
  rw [Resolver.resolve_eq_map, List.map_map]
  rfl

/--
**The text of a resolved record.**  The records have the attributes of the rows of the response,
in their order.  The text of each of them is an object with all its attributes and all that is
attached, rows as they came.  But only where no relation has the name of an attribute is every
name there once; else a reader that keeps the last of two sees what is attached, not the attribute.
Rows are maps, so that no row has a name twice.
-/
theorem resolve_text (hrows : ∀ row ∈ body.data, (row.map Prod.fst).Nodup) :
    (body.resolved { rules, matching } relations kind).map Record.attributes = body.data ∧
      ∀ record ∈ body.resolved { rules, matching } relations kind,
        Tree.parse? record.toTree.compact = some (.object record.members) ∧
        Tree.parse? record.toTree.pretty = some (.object record.members) ∧
        record.WrittenIn body.buckets record.members ∧
        ((record.members.map Prod.fst).Nodup ↔
          ∀ name ∈ record.attributes.map Prod.fst, record.attachment? name = none) ∧
        ∀ name, NameMap.find? name (NameMap.ofList record.members) =
          ((record.attachment? name).map Attachment.toTree).or
            ((record.attribute? name).map Value.toTree) := by
  rw [ResponseBody.resolved_eq]
  refine ⟨?_, fun record hrecord => ?_⟩
  · rw [List.map_map]
    exact List.map_id' body.data
  · obtain ⟨row, hrow, rfl⟩ := List.mem_map.mp hrecord
    have hattributes := hrows row hrow
    have hattached := NameMap.nodup_of_ascending (NameMap.ascending_insertAll
      (Resolver.outcomes { rules, matching } body.buckets row relations) List.Pairwise.nil)
    refine ⟨?_, ?_, Record.writtenIn_members fun m hm hnull => ?_,
      Record.nodup_members_iff hattributes hattached,
      Record.find?_ofList_members hattributes hattached⟩
    · rw [Tree.parse?_compact, Record.toTree_eq]
    · rw [Tree.parse?_pretty, Record.toTree_eq]
    · obtain ⟨bucket, hbucket, row', hrow', target, he⟩ :=
        Resolver.attached_of_resolveRecord hm hnull
      refine ⟨bucket, hbucket, row', hrow', ?_⟩
      rw [he, Resolver.formed_toTree]

end

theorem fits_unitId : FitsWord 7 := by decide

def productBody : ResponseBody where
  data := [[("id", .int 1 (by decide)), ("note", .null), ("unitId", .int 7 fits_unitId)]]
  referenced := some [("Unit", [[("id", .str "7"), ("name", .str "pcs")]])]

/-- one relation leads to a row, one leads nowhere -/
theorem resolve_text_product :
    (∀ row ∈ productBody.data, (row.map Prod.fst).Nodup) ∧
      ∃ record, productBody.resolved {} [.ofName "unit", .ofName "vatRate"] "product" = [record] ∧
        Tree.parse? record.toTree.compact = some (.object
          [("id", .nat 1), ("note", .null), ("unitId", .nat 7),
           ("unit", .object [("id", .text "7"), ("name", .text "pcs")]), ("vatRate", .null)]) ∧
        (record.members.map Prod.fst).Nodup := by
  have hrows : ∀ row ∈ productBody.data, (row.map Prod.fst).Nodup := by decide
  obtain ⟨-, htext⟩ :=
    resolve_text {} .flexible [.ofName "unit", .ofName "vatRate"] "product" hrows
  have hresolved : productBody.resolved {} [.ofName "unit", .ofName "vatRate"] "product" = [
      { kind := "product"
        attributes := [("id", .int 1 (by decide)), ("note", .null), ("unitId", .int 7 (by decide))]
        attached :=
          [("unit", .row [("id", .str "7"), ("name", .str "pcs")]), ("vatRate", .null)] }] := by
    rw [ResponseBody.resolved_eq]
    rfl
  obtain ⟨hparse, -, -, hnodup, -⟩ := htext _ (hresolved ▸ List.mem_singleton_self _)
  refine ⟨hrows, _, hresolved, hparse.trans rfl, hnodup.mpr ?_⟩
  decide

/-- the relation has the name of an attribute, and its foreign key is missing -/
def noteBody : ResponseBody where
  data := [[("id", .int 1 (by decide)), ("note", .null)]]
  referenced := some [("unit", [])]

/-- an object that has a member twice -/
theorem resolve_text_note :
    ∃ record, noteBody.resolved {} [.ofName "note"] "record" = [record] ∧
      Tree.parse? record.toTree.compact =
        some (.object [("id", .nat 1), ("note", .null), ("note", .null)]) := by
  refine ⟨{ kind := "record", attributes := [("id", .int 1 (by decide)), ("note", .null)],
            attached := [("note", .null)] }, ?_, ?_⟩
  · rw [ResponseBody.resolved_eq]
    rfl
  · rw [Tree.parse?_compact]
    rfl

end RestQuery

import Mathlib
import RestQuery.Proofs.Relation.RecordText

/-!
# Raw rows and records

A relation asks for the row it leads to as it is, or for a record made of it.  Which of the two was
asked for does not show: the attributes are the same, and so is the text, since nothing is attached
to a record that was just made and its kind is not written.

* `RelationState`, `Record.state`   what is known of a relation of a record;
* `Attachment.seen`, `Record.seen`  what shows of an attachment, and of a record;
* `Relation.SameButTarget`          relations that differ in nothing but the form they ask for;
* `Resolver.outcome?_seen`          one such relation;
* `Resolver.resolveRecord_seen`     all relations of a record, one after the other;
* `Resolver.target_forms_unseen`    runs over lists of records.
-/

namespace RestQuery

open Json

/-! ## what shows -/

/-- what is known of a relation of a record -/
inductive RelationState where
  /-- nobody has resolved it -/
  | unset
  /-- there is no other record -/
  | null
  | loaded (attributes : Row)

namespace Attachment

def state : Attachment → RelationState
  | .null => .null
  | .row attributes => .loaded attributes
  | .record r => .loaded r.attributes

/-- state and JSON form, but not whether a record was made of the row -/
def seen (a : Attachment) : RelationState × Tree := (a.state, a.toTree)

end Attachment

namespace Record

def state (r : Record) (name : String) : RelationState :=
  match r.attachment? name with
  | none => .unset
  | some a => a.state

/-- the attributes, and what shows under the name of each relation -/
def seen (r : Record) : Row × NameMap (RelationState × Tree) :=
  (r.attributes, r.attached.map fun m => (m.1, m.2.seen))

section
variable {r r' : Record}

theorem state_of_seen (h : r.seen = r'.seen) (name : String) : r.state name = r'.state name := by
  have hstate (r : Record) :
      r.state name = ((NameMap.find? name r.seen.2).map Prod.fst).getD .unset := by
    show _ = ((NameMap.find? name (r.attached.map fun m => (m.1, m.2.seen))).map Prod.fst).getD _
    rw [NameMap.find?_map, Option.map_map]
    unfold state attachment?
    cases NameMap.find? name r.attached <;> rfl
  rw [hstate, hstate, h]

theorem toTree_of_seen (h : r.seen = r'.seen) : r.toTree = r'.toTree := by
  have htree (r : Record) : r.toTree =
      .object (r.seen.1.map (fun m => (m.1, m.2.toTree)) ++ r.seen.2.map fun m => (m.1, m.2.2)) := by
    rw [toTree_eq, members]
    show _ = Tree.object (_ ++ (r.attached.map fun m => (m.1, m.2.seen)).map _)
    rw [List.map_map]
    rfl
  rw [htree, htree, h]

end

/-- the same record as far as anybody can tell who does not look at the forms of attachments -/
structure SameOutside (r r' : Record) : Prop where
  kind : r.kind = r'.kind
  attributes : r.attributes = r'.attributes
  state : ∀ name, r.state name = r'.state name

end Record

/-! ## relations with other targets -/

/-- the same relation, which may ask for another form -/
structure Relation.SameButTarget (relation relation' : Relation) : Prop where
  name : relation.name = relation'.name
  foreignKey : relation.foreignKey = relation'.foreignKey
  bucket : relation.bucket = relation'.bucket

theorem BucketRules.bucketOf_of_sameButTarget (rules : BucketRules) {relation relation' : Relation}
    (h : relation.SameButTarget relation') : rules.bucketOf relation = rules.bucketOf relation' := by
  unfold BucketRules.bucketOf
  rw [h.bucket, h.foreignKey]

namespace Resolver

section
variable (rules : BucketRules) (matching : Matching) (buckets : Buckets)

theorem formed_seen (row : Row) (target target' : TargetForm) :
    (({ rules, matching } : Resolver).formed row target).seen =
      (({ rules, matching } : Resolver).formed row target').seen := by
  have hstate (target : TargetForm) :
      (({ rules, matching } : Resolver).formed row target).state = .loaded row := by
    cases target <;> rfl
  unfold Attachment.seen
  rw [hstate, hstate, formed_toTree, formed_toTree]

theorem outcome?_seen {relation relation' : Relation} (h : relation.SameButTarget relation')
    (attributes : Row) :
    (({ rules, matching } : Resolver).outcome? buckets attributes relation).map Attachment.seen =
      (({ rules, matching } : Resolver).outcome? buckets attributes relation').map
        Attachment.seen := by
  simp only [outcome?, h.foreignKey, rules.bucketOf_of_sameButTarget h]
  split
  · rfl
  · split
    · rfl
    · split
      · next key rows _ _ =>
        -- the row is looked up before its form is asked for
        rw [Option.map_map, Option.map_map]
        cases lastRow? key rows with
        | none => rfl
        | some row => exact congrArg some (formed_seen rules matching row _ _)
      · rfl

section
variable {relations relations' : List Relation}
  (h : List.Forall₂ Relation.SameButTarget relations relations')
include h

theorem outcomes_seen (attributes : Row) :
    (({ rules, matching } : Resolver).outcomes buckets attributes relations).map
        (fun m => (m.1, m.2.seen)) =
      (({ rules, matching } : Resolver).outcomes buckets attributes relations').map
        fun m => (m.1, m.2.seen) := by
  have hpairs (r : Resolver) (relations : List Relation) :
      (r.outcomes buckets attributes relations).map (fun m => (m.1, m.2.seen)) =
        relations.filterMap fun relation =>
          ((r.outcome? buckets attributes relation).map Attachment.seen).map
            fun s => (relation.name, s) := by
    unfold outcomes
    rw [List.map_filterMap]
    simp only [Option.map_map]
    rfl
  rw [hpairs, hpairs]
  induction h with
  | nil => rfl
  | cons hrelation _ ih =>
    rw [List.filterMap_cons, List.filterMap_cons, ih, hrelation.name,
      outcome?_seen rules matching buckets hrelation]

/-- no relation in the list lets the two runs over a record be told apart -/
theorem resolveRecord_seen (record : Record) :
    (({ rules, matching } : Resolver).resolveRecord buckets relations record).seen =
      (({ rules, matching } : Resolver).resolveRecord buckets relations' record).seen := by
  unfold resolveRecord Record.seen
  rw [NameMap.insertAll_map, NameMap.insertAll_map, outcomes_seen rules matching buckets h]

/--
**The form of a target does not show.**  Lists of relations that differ only in the forms they ask
for leave every relation of every record in the same state, with the same attributes where it is
loaded, and the texts of the records are the same.  What was attached before has no part in this.
-/
theorem target_forms_unseen (records here there : List Record)
    (hhere : ({ rules, matching } : Resolver).resolve buckets relations records = here)
    (hthere : ({ rules, matching } : Resolver).resolve buckets relations' records = there) :
    List.Forall₂ Record.SameOutside here there ∧
      (Tree.arr (here.map Record.toTree)).compact = (Tree.arr (there.map Record.toTree)).compact ∧
      (Tree.arr (here.map Record.toTree)).pretty = (Tree.arr (there.map Record.toTree)).pretty := by
  rw [resolve_eq_map] at hhere hthere
  subst hhere hthere
  have htrees : (records.map (({ rules, matching } : Resolver).resolveRecord buckets relations)).map
        Record.toTree =
      (records.map (({ rules, matching } : Resolver).resolveRecord buckets relations')).map
        Record.toTree := by
    rw [List.map_map, List.map_map]
    apply List.map_congr_left
    intro record _
    exact Record.toTree_of_seen (resolveRecord_seen rules matching buckets h record)
  refine ⟨?_, ?_, ?_⟩
  · rw [List.forall₂_map_left_iff, List.forall₂_map_right_iff, List.forall₂_same]
    intro record _
    exact ⟨rfl, rfl, Record.state_of_seen (resolveRecord_seen rules matching buckets h record)⟩
  · rw [htrees]
  · rw [htrees]

end

end

/-- the relations of the sale, with the payer as a row -/
def rawSaleRelations : List Relation :=
  [.ofName "customer", { name := "payer", foreignKey := "customerId" }, .ofName "supplier"]

/-- the payer of the sale, as a record and as a row -/
theorem target_forms_unseen_sale :
    List.Forall₂ Relation.SameButTarget saleRelations rawSaleRelations ∧
    ∃ here there,
      ({} : Resolver).resolve saleBuckets saleRelations [sale] = [here] ∧
      ({} : Resolver).resolve saleBuckets rawSaleRelations [sale] = [there] ∧
      here.attachment? "payer" =
        some (.record (Record.ofRow "party" [("id", .str "7"), ("name", .str "new")])) ∧
      there.attachment? "payer" = some (.row [("id", .str "7"), ("name", .str "new")]) ∧
      here.state "payer" = there.state "payer" ∧
      (Tree.arr [here.toTree]).compact = (Tree.arr [there.toTree]).compact := by
  have hsame : List.Forall₂ Relation.SameButTarget saleRelations rawSaleRelations :=
    .cons ⟨rfl, rfl, rfl⟩ (.cons ⟨rfl, rfl, rfl⟩ (.cons ⟨rfl, rfl, rfl⟩ .nil))
  have hhere := resolve_singleton {} saleBuckets saleRelations sale
  have hthere := resolve_singleton {} saleBuckets rawSaleRelations sale
  obtain ⟨hrecords, hcompact, -⟩ :=
    target_forms_unseen {} .flexible saleBuckets hsame [sale] _ _ hhere hthere
  obtain ⟨hrecord, -⟩ := List.forall₂_cons.mp hrecords
  exact ⟨hsame, _, _, hhere, hthere, rfl, rfl, hrecord.state "payer", hcompact⟩

end Resolver

end RestQuery

import Mathlib
import RestQuery.Proofs.Relation.Composition

/-!
# Matching buckets with slack

Slack only helps out where no bucket has the exact name.  So a run that matches with slack attaches
all that an exact run attaches, and where the two differ it has found a row that the exact run has
left alone.

* `Resolver.Attaches`, `Resolver.Leaves`   what a run does under a name, whatever was there before;
* `Resolver.attaches_iff`, `Resolver.leaves_iff`   both by the outcome of the relation of the name;
* `Resolver.outcome?_cases`                what slack can add;
* `Resolver.flexible_extends_strict`       the two runs side by side.
-/

namespace RestQuery

open Json

/-! ## looking up -/

namespace Matching

variable {α : Type} {m : NameMap α} {name : String}

theorem lookup_flexible_of_strict {a : α} (h : lookup .strict m name = some a) :
    lookup .flexible m name = some a := by
  have hfind : NameMap.find? name m = some a := h
  simp only [lookup, hfind]

/-- slack is for names that are no keys -/
theorem lookup_flexible_of_key (h : name ∈ m.map Prod.fst) :
    lookup .flexible m name = lookup .strict m name := by
  cases hstrict : lookup .strict m name with
  | none => exact absurd h ((NameMap.find?_eq_none_iff name m).mp hstrict)
  | some a => exact lookup_flexible_of_strict hstrict

end Matching

namespace Resolver

variable (r : Resolver) (buckets : Buckets)

/-! ## what a run does under a name -/

/-- after a run `a` is attached to the record under the name, whatever was there before -/
def Attaches (relations : List Relation) (record : Record) (name : String) (a : Attachment) :
    Prop :=
  ∀ attached, (r.resolve buckets relations [{ record with attached }]).map (·.attachment? name) =
    [some a]

/-- a run keeps whatever is attached to the record under the name -/
def Leaves (relations : List Relation) (record : Record) (name : String) : Prop :=
  ∀ attached, (r.resolve buckets relations [{ record with attached }]).map (·.attachment? name) =
    [NameMap.find? name attached]

section
variable {relations : List Relation} {record : Record} {relation : Relation}

theorem resolveRecord_attachment?_of_not_mem {name : String}
    (h : name ∉ relations.map Relation.name) :
    (r.resolveRecord buckets relations record).attachment? name = record.attachment? name := by
  apply NameMap.find?_insertAll_of_not_mem
  intro hmem
  exact h ((outcomes_names r buckets record.attributes relations).subset hmem)

variable (hnames : (relations.map Relation.name).Nodup)
include hnames

/-- with every name once, the outcome of its relation counts, and what was there before only if
there is none -/
theorem resolveRecord_attachment? (hr : relation ∈ relations) :
    (r.resolveRecord buckets relations record).attachment? relation.name =
      (r.outcome? buckets record.attributes relation).or (record.attachment? relation.name) := by
  show NameMap.find? relation.name (NameMap.insertAll _ record.attached) = _
  cases ho : r.outcome? buckets record.attributes relation with
  | some a =>
    have hmem : (relation.name, a) ∈ r.outcomes buckets record.attributes relations :=
      List.mem_filterMap.mpr ⟨relation, hr, by rw [ho, Option.map_some]⟩
    have hnodup := hnames.sublist (outcomes_names r buckets record.attributes relations)
    rw [NameMap.find?_insertAll_of_mem hnodup _ hmem, Option.some_or]
  | none =>
    rw [Option.none_or]
    apply NameMap.find?_insertAll_of_not_mem
    intro hmem
    obtain ⟨⟨name, a⟩, hp, hname⟩ := List.mem_map.mp hmem
    obtain ⟨other, hother, ha⟩ := List.mem_filterMap.mp hp
    obtain ⟨b, hb, he⟩ := Option.map_eq_some_iff.mp ha
    -- the outcome under the name would be the one of another relation with this name
    have hsame : other = relation := by
      apply List.inj_on_of_nodup_map hnames hother hr
      rw [← hname, ← he]
    rw [hsame, ho] at hb
    cases hb

theorem resolve_attachment? (hr : relation ∈ relations) (attached : NameMap Attachment) :
    (r.resolve buckets relations [{ record with attached }]).map (·.attachment? relation.name) =
      [(r.outcome? buckets record.attributes relation).or
        (NameMap.find? relation.name attached)] := by
  rw [resolve_singleton, List.map_singleton, resolveRecord_attachment? r buckets hnames hr]
  rfl

theorem resolve_attachment?_nil (hr : relation ∈ relations) :
    (r.resolve buckets relations [{ record with attached := [] }]).map
        (·.attachment? relation.name) =
      [r.outcome? buckets record.attributes relation] := by
  rw [resolve_attachment? r buckets hnames hr, NameMap.find?_nil, Option.or_none]

theorem attaches_iff (hr : relation ∈ relations) (a : Attachment) :
    r.Attaches buckets relations record relation.name a ↔
      r.outcome? buckets record.attributes relation = some a := by
  constructor
  · intro h
    have hempty := h []
    rw [resolve_attachment?_nil r buckets hnames hr] at hempty
    exact List.singleton_inj.mp hempty
  · intro h attached
    rw [resolve_attachment? r buckets hnames hr, h, Option.some_or]

theorem leaves_iff (hr : relation ∈ relations) :
    r.Leaves buckets relations record relation.name ↔
      r.outcome? buckets record.attributes relation = none := by
  constructor
  · intro h
    have hempty := h []
    rw [resolve_attachment?_nil r buckets hnames hr, NameMap.find?_nil] at hempty
    exact List.singleton_inj.mp hempty
  · intro h attached
    rw [resolve_attachment? r buckets hnames hr, h, Option.none_or]

end

theorem leaves_of_not_mem {relations : List Relation} (record : Record) {name : String}
    (h : name ∉ relations.map Relation.name) : r.Leaves buckets relations record name := by
  intro attached
  rw [resolve_singleton, List.map_singleton, resolveRecord_attachment?_of_not_mem r buckets h]
  rfl

theorem mem_of_attaches {relations : List Relation} {record : Record} {name : String}
    {a : Attachment} (h : r.Attaches buckets relations record name a) :
    ∃ relation ∈ relations, relation.name = name := by
  by_contra hnot
  have hmem : name ∉ relations.map Relation.name := fun hm => hnot (List.mem_map.mp hm)
  have hleft := leaves_of_not_mem r buckets record hmem []
  rw [h []] at hleft
  cases hleft

/-! ## exact runs and runs with slack -/

/-- the same resolver with another way of matching -/
def matchedBy (matching : Matching) : Resolver := { r with matching }

theorem formed_ne_null (row : Row) (form : TargetForm) : r.formed row form ≠ .null := by
  cases form with
  | raw => exact Attachment.noConfusion
  | record kind => exact Attachment.noConfusion

theorem outcome?_of_key (attributes : Row) {relation : Relation}
    (h : r.rules.bucketOf relation ∈ buckets.map Prod.fst) :
    (r.matchedBy .flexible).outcome? buckets attributes relation =
      (r.matchedBy .strict).outcome? buckets attributes relation := by
  have hlookup := Matching.lookup_flexible_of_key h
  simp only [outcome?, matchedBy, hlookup]
  rfl

/-- slack changes an outcome only from nothing to a row, and only where no bucket has the name -/
theorem outcome?_cases (attributes : Row) (relation : Relation) :
    (r.matchedBy .flexible).outcome? buckets attributes relation =
        (r.matchedBy .strict).outcome? buckets attributes relation ∨
      (r.matchedBy .strict).outcome? buckets attributes relation = none ∧
        r.rules.bucketOf relation ∉ buckets.map Prod.fst ∧
        ∃ a, a ≠ .null ∧
          (r.matchedBy .flexible).outcome? buckets attributes relation = some a := by
  by_cases hkey : r.rules.bucketOf relation ∈ buckets.map Prod.fst
  · exact .inl (outcome?_of_key r buckets attributes hkey)
  · have hstrict : Matching.lookup .strict buckets (r.rules.bucketOf relation) = none :=
      (NameMap.find?_eq_none_iff _ _).mpr hkey
    by_cases hb : buckets = []
    · left
      simp only [outcome?, if_pos hb]
    by_cases hnowhere : PointsNowhere (NameMap.find? relation.foreignKey attributes)
    · left
      simp only [outcome?, if_neg hb, if_pos hnowhere]
    · simp only [outcome?, matchedBy, if_neg hb, if_neg hnowhere, hstrict]
      cases NameMap.find? relation.foreignKey attributes with
      | none => exact .inl rfl
      | some key =>
        cases Matching.lookup .flexible buckets (r.rules.bucketOf relation) with
        | none => exact .inl rfl
        | some rows =>
          cases hrow : lastRow? key rows with
          | none => simp [hrow]
          | some row =>
            right
            refine ⟨rfl, hkey, r.formed row relation.target,
              formed_ne_null r row relation.target, ?_⟩
            simp only [hrow, Option.map_some]
            rfl

theorem attaches_flexible {relations : List Relation}
    (hnames : (relations.map Relation.name).Nodup) {record : Record} {name : String}
    {a : Attachment} (h : (r.matchedBy .strict).Attaches buckets relations record name a) :
    (r.matchedBy .flexible).Attaches buckets relations record name a := by
  obtain ⟨relation, hr, rfl⟩ := mem_of_attaches _ buckets h
  rw [attaches_iff _ buckets hnames hr] at h ⊢
  rcases outcome?_cases r buckets record.attributes relation with he | ⟨hnone, -, -⟩
  · rw [he, h]
  · rw [h] at hnone
    cases hnone

/-- a record, the same record resolved exactly, and resolved with slack -/
structure Extended (relations : List Relation) (record exact slack : Record) : Prop where
  kind : exact.kind = record.kind ∧ slack.kind = record.kind
  attributes : exact.attributes = record.attributes ∧ slack.attributes = record.attributes
  /-- whatever the exact run attaches is attached by both -/
  kept : ∀ name a, (r.matchedBy .strict).Attaches buckets relations record name a →
    (r.matchedBy .flexible).Attaches buckets relations record name a ∧
      exact.attachment? name = some a ∧ slack.attachment? name = some a
  /-- a difference is a row that the exact run did not look for under the name of its bucket -/
  added : ∀ name, exact.attachment? name ≠ slack.attachment? name →
    ((r.matchedBy .strict).Leaves buckets relations record name ∧
      exact.attachment? name = record.attachment? name) ∧
    (∃ a, a ≠ .null ∧ (r.matchedBy .flexible).Attaches buckets relations record name a ∧
      slack.attachment? name = some a) ∧
    ∃ relation ∈ relations, relation.name = name ∧
      r.rules.bucketOf relation ∉ buckets.map Prod.fst

theorem attachment?_of_attaches {relations : List Relation} {record : Record} {name : String}
    {a : Attachment} (h : r.Attaches buckets relations record name a) :
    (r.resolveRecord buckets relations record).attachment? name = some a := by
  have hown := h record.attached
  rw [resolve_singleton, List.map_singleton] at hown
  cases record
  exact List.singleton_inj.mp hown

theorem extended_resolveRecord {relations : List Relation}
    (hnames : (relations.map Relation.name).Nodup) (record : Record) :
    r.Extended buckets relations record
      ((r.matchedBy .strict).resolveRecord buckets relations record)
      ((r.matchedBy .flexible).resolveRecord buckets relations record) := by
  refine ⟨⟨rfl, rfl⟩, ⟨rfl, rfl⟩, ?_, ?_⟩
  · intro name a h
    have hflexible := attaches_flexible r buckets hnames h
    exact ⟨hflexible, attachment?_of_attaches _ buckets h,
      attachment?_of_attaches _ buckets hflexible⟩
  · intro name hdiffer
    have hmem : name ∈ relations.map Relation.name := by
      by_contra hnot
      apply hdiffer
      rw [resolveRecord_attachment?_of_not_mem _ buckets hnot,
        resolveRecord_attachment?_of_not_mem _ buckets hnot]
    obtain ⟨relation, hr, rfl⟩ := List.mem_map.mp hmem
    rw [resolveRecord_attachment? _ buckets hnames hr,
      resolveRecord_attachment? _ buckets hnames hr] at hdiffer ⊢
    rcases outcome?_cases r buckets record.attributes relation with
      he | ⟨hnone, hkey, a, ha, hsome⟩
    · exact absurd (by rw [he]) hdiffer
    · refine ⟨⟨(leaves_iff _ buckets hnames hr).mpr hnone, by rw [hnone, Option.none_or]⟩,
        ⟨a, ha, (attaches_iff _ buckets hnames hr a).mpr hsome, by rw [hsome, Option.some_or]⟩,
        relation, hr, rfl, hkey⟩

theorem resolve_of_keys {relations : List Relation} (records : List Record)
    (h : ∀ relation ∈ relations, r.rules.bucketOf relation ∈ buckets.map Prod.fst) :
    (r.matchedBy .flexible).resolve buckets relations records =
      (r.matchedBy .strict).resolve buckets relations records := by
  rw [resolve_eq_map, resolve_eq_map]
  apply List.map_congr_left
  intro record _
  have houtcomes : (r.matchedBy .flexible).outcomes buckets record.attributes relations =
      (r.matchedBy .strict).outcomes buckets record.attributes relations := by
    apply List.filterMap_congr
    intro relation hr
    rw [outcome?_of_key r buckets record.attributes (h relation hr)]
  unfold resolveRecord
  rw [houtcomes]

/--
**Slack only extends.**  Let no two relations have one name.  Whatever an exact run attaches, a run
with slack attaches as well; where they differ the exact run has left alone what was there, the
other one has attached a row or a record, and no bucket has the name that the relation looks for.
If every bucket that is looked for is there under its name, the two runs are the same.
-/
theorem flexible_extends_strict (relations : List Relation) (records : List Record)
    (hnames : (relations.map Relation.name).Nodup) :
    ((r.matchedBy .strict).resolve buckets relations records).length = records.length ∧
    ((r.matchedBy .flexible).resolve buckets relations records).length = records.length ∧
    (∀ (i : Nat) record, records[i]? = some record → ∃ exact slack,
      ((r.matchedBy .strict).resolve buckets relations records)[i]? = some exact ∧
      ((r.matchedBy .flexible).resolve buckets relations records)[i]? = some slack ∧
      r.Extended buckets relations record exact slack) ∧
    ((∀ relation ∈ relations, r.rules.bucketOf relation ∈ buckets.map Prod.fst) →
      (r.matchedBy .flexible).resolve buckets relations records =
        (r.matchedBy .strict).resolve buckets relations records) := by
  refine ⟨?_, ?_, ?_, resolve_of_keys r buckets records⟩
  · rw [resolve_eq_map, List.length_map]
  · rw [resolve_eq_map, List.length_map]
  · intro i record hi
    refine ⟨_, _, ?_, ?_, extended_resolveRecord r buckets hnames record⟩
    · rw [resolve_eq_map, List.getElem?_map, hi, Option.map_some]
    · rw [resolve_eq_map, List.getElem?_map, hi, Option.map_some]

def product : Record :=
  { kind := "product"
    attributes := [("unitId", .str "5"), ("vatRateId", .int 2 (by decide))]
    attached := [("unit", .null), ("vatRate", .null)] }

def productRelations : List Relation := [.ofName "unit", .ofName "vatRate", .ofName "brand"]

def productBuckets : Buckets :=
  [("unit", [[("id", .int 5 (by decide))]]), ("vat_rate", [[("id", .str "2")]])]

/-- both find the unit, only slack finds the rate, and a missing brand is no matter of buckets -/
theorem flexible_extends_strict_product :
    (productRelations.map Relation.name).Nodup ∧ ∃ exact slack,
      (matchedBy {} .strict).resolve productBuckets productRelations [product] = [exact] ∧
      (matchedBy {} .flexible).resolve productBuckets productRelations [product] = [slack] ∧
      exact.attached =
        [("brand", .null), ("unit", .row [("id", .int 5 (by decide))]), ("vatRate", .null)] ∧
      slack.attached =
        [("brand", .null), ("unit", .row [("id", .int 5 (by decide))]),
         ("vatRate", .row [("id", .str "2")])] ∧
      Extended {} productBuckets productRelations product exact slack := by
  have hnames : (productRelations.map Relation.name).Nodup := by decide
  obtain ⟨-, -, hrun, -⟩ :=
    flexible_extends_strict {} productBuckets productRelations [product] hnames
  obtain ⟨exact, slack, hexact, hslack, hextended⟩ := hrun 0 product rfl
  rw [resolve_singleton] at hexact hslack
  cases hexact
  cases hslack
  exact ⟨hnames, _, _, resolve_singleton _ _ _ _, resolve_singleton _ _ _ _, rfl, rfl, hextended⟩

end Resolver

end RestQuery

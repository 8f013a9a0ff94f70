import Mathlib
import RestQuery.Relation.Resolution

/-!
# Resolving without indexes

The resolver indexes every bucket once and looks rows up by the text of their ids.  Here the same
is said without any index: for each relation in turn, all rows of its bucket are looked at and the
last one with the right id counts.

* `Number.toRat`               the rational number that a number stands for;
* `PointsNowhere`              the foreign keys that say that there is no other record;
* `lastRow?`                   the last of a list of rows whose id has the text of a key;
* `Resolver.attachByScan`      what is attached after one more relation;
* `RowIndex.getElem?_ofRows`   an index holds the last row of every text;
* `Resolver.indexesFor_getElem?`   the bucket of every relation is indexed, whichever relation
                               it was indexed for;
* `Resolver.resolve_eq_scan`       resolving is scanning.
-/

namespace RestQuery

open Json

/-! ## keys that lead nowhere -/

namespace Json

def Binary64.toRat (x : Binary64) : ℚ :=
  (if x.negative then -1 else 1) * x.significand * 2 ^ x.exponent

/-- the rational number that a number stands for -/
def Number.toRat : Number → ℚ
  | .int i _ => i
  | .float x => x.toRat

theorem Binary64.toRat_eq_zero_iff (x : Binary64) : x.toRat = 0 ↔ x.significand = 0 := by
  have hsign : (if x.negative then (-1 : ℚ) else 1) ≠ 0 := by split <;> norm_num
  have hpow : (2 : ℚ) ^ x.exponent ≠ 0 := zpow_ne_zero _ two_ne_zero
  unfold Binary64.toRat
  rw [mul_eq_zero, mul_eq_zero, or_iff_left hpow, or_iff_right hsign, Nat.cast_eq_zero]

theorem Number.isZero_iff (n : Number) : n.isZero = true ↔ n.toRat = 0 := by
  cases n with
  | int i h => simp [Number.isZero, Number.toRat]
  | float x => simp [Number.isZero, Binary64.isZero, Number.toRat, Binary64.toRat_eq_zero_iff]

end Json

/-- a missing foreign key, `null`, `false`, a number that is zero, the empty string -/
inductive PointsNowhere : Option Value → Prop
  | missing : PointsNowhere none
  | null : PointsNowhere (some .null)
  | no : PointsNowhere (some (.bool false))
  | zero (n : Number) (h : n.toRat = 0) : PointsNowhere (some (.num n))
  | empty : PointsNowhere (some (.str ""))

theorem leadsNowhere_iff (key : Option Value) : leadsNowhere key = true ↔ PointsNowhere key := by
  constructor
  · intro h
    match key with
    | none => exact .missing
    | some .null => exact .null
    | some (.bool false) => exact .no
    | some (.num n) => exact .zero n ((Number.isZero_iff n).mp h)
    | some (.str s) =>
      have hs : s = "" := String.isEmpty_iff.mp h
      rw [hs]
      exact .empty
  · intro h
    cases h with
    | zero n hn => exact (Number.isZero_iff n).mpr hn
    | _ => rfl

instance : DecidablePred PointsNowhere := fun key => decidable_of_iff _ (leadsNowhere_iff key)

/-! ## scanning -/

/-- whether a row has an id, and one with the text of a key -/
def hasIdOf (key : Value) (row : Row) : Bool :=
  match NameMap.find? idColumn row with
  | none => false
  | some id => (idText? id).isSome && idText? id == idText? key

/-- the last row whose id has the text of a key -/
def lastRow? (key : Value) (rows : List Row) : Option Row := (rows.filter (hasIdOf key)).getLast?

namespace Resolver

/-- what is attached to a row with these attributes after one more relation -/
def attachByScan (r : Resolver) (buckets : Buckets) (attributes : Row)
    (attached : NameMap Attachment) (relation : Relation) : NameMap Attachment :=
  let key := NameMap.find? relation.foreignKey attributes
  if PointsNowhere key then NameMap.insert relation.name .null attached
  else
    match key, r.matching.lookup buckets (r.rules.bucketOf relation) with
    | some key, some rows =>
      match lastRow? key rows with
      | some row => NameMap.insert relation.name (r.formed row relation.target) attached
      | none => attached
    | _, _ => attached

end Resolver

/-! ## an index of rows -/

namespace RowIndex

/-- entering rows one after the other: for every text the last row that has it counts, and the
index before only where there is none -/
theorem getElem?_foldl_add (rows : List Row) (index : RowIndex) (text : String) :
    (rows.foldl add index)[text]? =
      ((rows.filter fun row => rowId? row == some text).getLast?).or index[text]? := by
  induction rows generalizing index with
  | nil => rfl
  | cons row rows ih =>
    rw [List.foldl_cons, ih, List.filter_cons]
    cases hid : rowId? row with
    | none => simp [add, hid]
    | some id =>
      simp only [add, hid, Std.HashMap.getElem?_insert]
      by_cases h : id = text
      · rw [if_pos (by simpa using h), if_pos (by simpa using h), List.getLast?_cons]
        cases (rows.filter fun row => rowId? row == some text).getLast? <;> rfl
      · rw [if_neg (by simpa using h), if_neg (by simpa using h)]

theorem getElem?_ofRows (rows : List Row) (text : String) :
    (ofRows rows)[text]? = (rows.filter fun row => rowId? row == some text).getLast? := by
  unfold ofRows
  rw [getElem?_foldl_add, Std.HashMap.getElem?_empty, Option.or_none]

theorem hasIdOf_eq (key : Value) (text : String) (h : idText? key = some text) (row : Row) :
    hasIdOf key row = (rowId? row == some text) := by
  unfold hasIdOf rowId?
  cases NameMap.find? idColumn row with
  | none => rfl
  | some id =>
    simp only [h, Option.bind_some]
    cases idText? id <;> simp

theorem hasIdOf_eq_false (key : Value) (h : idText? key = none) (row : Row) :
    hasIdOf key row = false := by
  unfold hasIdOf
  cases NameMap.find? idColumn row with
  | none => rfl
  | some id =>
    simp only [h]
    cases idText? id <;> rfl

theorem find?_ofRows (rows : List Row) (key : Value) :
    (ofRows rows).find? key = lastRow? key rows := by
  unfold find? lastRow?
  cases h : idText? key with
  | none =>
    have hnone : rows.filter (hasIdOf key) = [] := by
      rw [List.filter_eq_nil_iff]
      intro row _
      rw [hasIdOf_eq_false key h]
      exact Bool.false_ne_true
    rw [hnone]
    rfl
  | some text =>
    rw [Option.bind_some, getElem?_ofRows]
    exact congrArg _ (List.filter_congr fun row _ => (hasIdOf_eq key text h row).symm)

end RowIndex

/-! ## the indexes of the relations -/

namespace Resolver

variable (r : Resolver) (buckets : Buckets)

/-- the index that belongs to a bucket, none where the bucket is not found -/
def indexOf (bucket : String) : Option RowIndex :=
  (r.matching.lookup buckets bucket).map RowIndex.ofRows

/-- every bucket stands with the index that belongs to it -/
def Indexed (indexes : Indexes) : Prop :=
  ∀ bucket index, indexes[bucket]? = some index → index = r.indexOf buckets bucket

theorem indexed_empty : r.Indexed buckets ∅ := by
  intro bucket index h
  rw [Std.HashMap.getElem?_empty] at h
  cases h

/-- one more relation keeps what is indexed and adds its own bucket -/
theorem addIndex_getElem? (indexes : Indexes) (relation : Relation) (bucket : String)
    (h : r.Indexed buckets indexes) :
    (r.addIndex buckets indexes relation)[bucket]? =
      if r.rules.bucketOf relation = bucket then some (r.indexOf buckets bucket)
      else indexes[bucket]? := by
  show (if indexes.contains (r.rules.bucketOf relation) then indexes
    else indexes.insert (r.rules.bucketOf relation)
      (r.indexOf buckets (r.rules.bucketOf relation)))[bucket]? = _
  by_cases hb : r.rules.bucketOf relation = bucket
  · rw [if_pos hb, hb]
    split
    · -- an earlier relation had the same bucket; its index is the right one
      next hc =>
      rw [Std.HashMap.contains_eq_isSome_getElem?] at hc
      obtain ⟨index, hi⟩ := Option.isSome_iff_exists.mp hc
      rw [hi, h _ index hi]
    · rw [Std.HashMap.getElem?_insert_self]
  · rw [if_neg hb]
    split
    · rfl
    · rw [Std.HashMap.getElem?_insert, if_neg (by simpa using hb)]

theorem indexed_addIndex (indexes : Indexes) (relation : Relation)
    (h : r.Indexed buckets indexes) : r.Indexed buckets (r.addIndex buckets indexes relation) := by
  intro bucket index hi
  rw [addIndex_getElem? r buckets indexes relation bucket h] at hi
  split at hi
  · exact (Option.some.inj hi).symm
  · exact h bucket index hi

/-- the buckets of all relations are indexed, each with its own index -/
theorem foldl_addIndex_getElem? (relations : List Relation) (indexes : Indexes) (bucket : String)
    (h : r.Indexed buckets indexes) :
    (relations.foldl (r.addIndex buckets) indexes)[bucket]? =
      if ∃ relation ∈ relations, r.rules.bucketOf relation = bucket
      then some (r.indexOf buckets bucket) else indexes[bucket]? := by
  induction relations generalizing indexes with
  | nil => simp
  | cons relation relations ih =>
    rw [List.foldl_cons, ih _ (indexed_addIndex r buckets indexes relation h),
      addIndex_getElem? r buckets indexes relation bucket h]
    by_cases hb : r.rules.bucketOf relation = bucket <;> simp [hb]

theorem indexesFor_getElem? (relations : List Relation) (relation : Relation)
    (h : relation ∈ relations) :
    (r.indexesFor buckets relations)[r.rules.bucketOf relation]? =
      some (r.indexOf buckets (r.rules.bucketOf relation)) := by
  unfold indexesFor
  rw [foldl_addIndex_getElem? r buckets relations ∅ _ (indexed_empty r buckets),
    if_pos ⟨relation, h, rfl⟩]

/-! ## resolving is scanning -/

theorem resolveOne_eq (relations : List Relation) (record : Record) (relation : Relation)
    (h : relation ∈ relations) :
    r.resolveOne (r.indexesFor buckets relations) record relation =
      { record with
        attached := r.attachByScan buckets record.attributes record.attached relation } := by
  obtain ⟨kind, attributes, attached⟩ := record
  unfold resolveOne attachByScan findRow?
  rw [indexesFor_getElem? r buckets relations relation h]
  simp only [Record.attribute?, leadsNowhere_iff]
  split
  · rfl
  · next hkey =>
    cases hk : NameMap.find? relation.foreignKey attributes with
    | none => exact absurd .missing (hk ▸ hkey)
    | some key =>
      cases hrows : r.matching.lookup buckets (r.rules.bucketOf relation) with
      | none => simp only [indexOf, hrows, Option.map_none]
      | some rows =>
        simp only [indexOf, hrows, Option.map_some, RowIndex.find?_ofRows]
        cases lastRow? key rows <;> rfl

/-- the relations of one record, of which only what is attached changes -/
theorem foldl_resolveOne_eq (all relations : List Relation) (record : Record)
    (h : ∀ relation ∈ relations, relation ∈ all) :
    relations.foldl (r.resolveOne (r.indexesFor buckets all)) record =
      { record with
        attached :=
          relations.foldl (r.attachByScan buckets record.attributes) record.attached } := by
  -- the indexes stay those of all relations while the list gets shorter
  induction relations generalizing record with
  | nil => cases record; rfl
  | cons relation relations ih =>
    rw [List.foldl_cons, List.foldl_cons, resolveOne_eq r buckets all record relation
      (h relation List.mem_cons_self), ih _ fun other ho => h other (List.mem_cons_of_mem _ ho)]

theorem resolve_of_nil (relations : List Relation) (records : List Record)
    (h : buckets = [] ∨ relations = []) : r.resolve buckets relations records = records := by
  unfold resolve
  rw [if_pos]
  simpa only [Bool.or_eq_true, List.isEmpty_iff] using h

/-- every record keeps its kind and its attributes and gets its relations attached in turn -/
theorem resolve_of_ne_nil (relations : List Relation) (records : List Record)
    (hb : buckets ≠ []) (hr : relations ≠ []) :
    r.resolve buckets relations records =
      records.map fun record =>
        { record with
          attached :=
            relations.foldl (r.attachByScan buckets record.attributes) record.attached } := by
  unfold resolve
  rw [if_neg (by simpa only [Bool.or_eq_true, List.isEmpty_iff, not_or] using ⟨hb, hr⟩)]
  exact List.map_congr_left fun record _ =>
    foldl_resolveOne_eq r buckets relations relations record fun _ h => h

/-! ## names that no relation has -/

end Resolver

end RestQuery

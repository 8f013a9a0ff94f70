import Mathlib
import RestQuery.CommandLine.Relations

/-!
# Which bucket a relation reads

Four sources may name the bucket of a relation, and the first one that does counts.  Rules come
from arguments, of which the last one about a foreign key counts, whatever stands about other keys
before it, behind it or between.

* `keyStem_append`, `keyStem_of_not`   the ending of a foreign key;
* `entriesAbout`, `find?_ofList`       the last entry about a key;
* `UsualBucket`, `ReadsBucket`         the four sources, as a relation between keys and buckets;
* `bucketOf_ofList_iff`                that the rules follow it;
* `ReadsBucket.congr`, `ReadsBucket.ofName`   what has no part in it, and names;
* `CommandLine.IsEntry`                an argument that gives a bucket to a key;
* `CommandLine.bucket_precedence`      from arguments to buckets.
-/

namespace RestQuery

/-! ## the ending of a key -/

theorem keyStem_append {stem : String} (hne : stem ≠ "") : keyStem (stem ++ keyEnding) = stem := by
  have hreverse : (stem ++ keyEnding).toList.reverse = 'd' :: 'I' :: stem.toList.reverse := by
    rw [String.toList_append, List.reverse_append]
    rfl
  unfold keyStem
  rw [hreverse]
  cases hstem : stem.toList.reverse with
  | nil => exact absurd (String.toList_eq_nil_iff.mp (List.reverse_eq_nil_iff.mp hstem)) hne
  | cons c cs =>
    show String.ofList (c :: cs).reverse = stem
    rw [← hstem, List.reverse_reverse, String.ofList_toList]

theorem keyStem_of_not {key : String} (h : ∀ stem, stem ≠ "" → key ≠ stem ++ keyEnding) :
    keyStem key = key := by
  unfold keyStem
  split
  · next c cs hreverse =>
    refine absurd ?_ (h (String.ofList (c :: cs).reverse) (by simp))
    rw [← String.toList_inj, String.toList_append, String.toList_ofList,
      ← List.reverse_reverse key.toList, hreverse]
    simp [keyEnding]
  · rfl

/-! ## entries about a key -/

/-- the entries about a key, in their order -/
def entriesAbout (key : String) (entries : List (String × String)) : List (String × String) :=
  entries.filter fun e => e.1 == key

theorem entriesAbout_eq_nil_iff {key : String} {entries : List (String × String)} :
    entriesAbout key entries = [] ↔ key ∉ entries.map Prod.fst := by
  rw [entriesAbout, List.filter_eq_nil_iff, List.mem_map]
  constructor
  · rintro h ⟨e, he, rfl⟩
    exact h e he (beq_self_eq_true _)
  · intro h e he hkey
    exact h ⟨e, he, beq_iff_eq.mp hkey⟩

namespace BucketRules

theorem ofList_concat (entries : List (String × String)) (e : String × String) :
    ofList (entries ++ [e]) = (ofList entries).give e.1 e.2 := by
  rw [ofList, List.foldl_append]
  rfl

/-- the last entry about a key takes the place of all before it -/
theorem find?_ofList (key : String) (entries : List (String × String)) :
    NameMap.find? key (ofList entries).given =
      (entriesAbout key entries).getLast?.map Prod.snd := by
  induction entries using List.reverseRecOn with
  | nil => rfl
  | append_singleton entries e ih =>
    have happend : entriesAbout key (entries ++ [e]) =
        entriesAbout key entries ++ if e.1 = key then [e] else [] := by
      simp [entriesAbout, List.filter_append, List.filter_singleton]
    rw [ofList_concat, give, NameMap.find?_insert, ih, happend]
    by_cases he : e.1 = key
    · rw [if_pos he, if_pos he.symm, List.getLast?_concat, Option.map_some]
    · rw [if_neg he, if_neg (Ne.symm he), List.append_nil]

end BucketRules

/-! ## the four sources -/

/-- the bucket of a foreign key that no rule is about -/
inductive UsualBucket (key : String) : String → Prop
  | irregular {bucket : String} (h : (key, bucket) ∈ irregularBuckets) : UsualBucket key bucket
  | stem {stem : String} (hregular : key ∉ irregularBuckets.map Prod.fst) (hne : stem ≠ "")
    (h : key = stem ++ keyEnding) : UsualBucket key stem
  | whole (hregular : key ∉ irregularBuckets.map Prod.fst)
    (h : ∀ stem, stem ≠ "" → key ≠ stem ++ keyEnding) : UsualBucket key key

/-- the bucket that a relation reads, from the first source that names one -/
inductive ReadsBucket (entries : List (String × String)) (relation : Relation) : String → Prop
  | own {bucket : String} (h : relation.bucket = some bucket) : ReadsBucket entries relation bucket
  | given {e : String × String} (hown : relation.bucket = none)
    (h : (entriesAbout relation.foreignKey entries).getLast? = some e) :
    ReadsBucket entries relation e.2
  | usual {bucket : String} (hown : relation.bucket = none)
    (hgiven : entriesAbout relation.foreignKey entries = [])
    (h : UsualBucket relation.foreignKey bucket) : ReadsBucket entries relation bucket

/-- no key stands twice in the table -/
theorem irregularBucket?_eq_some_iff (key bucket : String) :
    irregularBucket? key = some bucket ↔ (key, bucket) ∈ irregularBuckets := by
  have hnodup : (irregularBuckets.map Prod.fst).Nodup := by decide
  rw [irregularBucket?, List.lookup_eq_some_iff]
  constructor
  · rintro ⟨before, after, heq, -⟩
    rw [heq]
    exact List.mem_append_right _ List.mem_cons_self
  · intro hmem
    obtain ⟨before, after, heq⟩ := List.append_of_mem hmem
    refine ⟨before, after, heq, fun p hp => ?_⟩
    rw [heq, List.map_append, List.nodup_append] at hnodup
    have hne : p.1 ≠ key := hnodup.2.2 p.1 (List.mem_map_of_mem hp) key List.mem_cons_self
    exact bne_iff_ne.mpr hne.symm

theorem irregularBucket?_eq_none_iff (key : String) :
    irregularBucket? key = none ↔ key ∉ irregularBuckets.map Prod.fst := by
  rw [Option.eq_none_iff_forall_ne_some]
  simp only [ne_eq, irregularBucket?_eq_some_iff, List.mem_map, Prod.exists, exists_and_right,
    exists_eq_right, not_exists]

theorem usualBucket_iff (key bucket : String) :
    (irregularBucket? key).getD (keyStem key) = bucket ↔ UsualBucket key bucket := by
  constructor
  · rintro rfl
    cases htable : irregularBucket? key with
    | some bucket => exact .irregular ((irregularBucket?_eq_some_iff key bucket).mp htable)
    | none =>
      have hregular := (irregularBucket?_eq_none_iff key).mp htable
      rw [Option.getD_none]
      by_cases hends : ∃ stem, stem ≠ "" ∧ key = stem ++ keyEnding
      · obtain ⟨stem, hne, rfl⟩ := hends
        rw [keyStem_append hne]
        exact .stem hregular hne rfl
      · push Not at hends
        rw [keyStem_of_not hends]
        exact .whole hregular hends
  · intro h
    cases h with
    | irregular h => rw [(irregularBucket?_eq_some_iff key bucket).mpr h, Option.getD_some]
    | stem hregular hne h =>
      rw [(irregularBucket?_eq_none_iff key).mpr hregular, Option.getD_none, h, keyStem_append hne]
    | whole hregular h =>
      rw [(irregularBucket?_eq_none_iff key).mpr hregular, Option.getD_none, keyStem_of_not h]

namespace BucketRules

section
variable {r : BucketRules} {relation : Relation} {bucket : String}

theorem bucketOf_of_own (h : relation.bucket = some bucket) : r.bucketOf relation = bucket := by
  rw [bucketOf, h]

theorem bucketOf_of_given (hown : relation.bucket = none)
    (h : NameMap.find? relation.foreignKey r.given = some bucket) :
    r.bucketOf relation = bucket := by
  simp only [bucketOf, hown, h]

theorem bucketOf_of_not_given (hown : relation.bucket = none)
    (h : NameMap.find? relation.foreignKey r.given = none) :
    r.bucketOf relation =
      (irregularBucket? relation.foreignKey).getD (keyStem relation.foreignKey) := by
  simp only [bucketOf, hown, h]

end

/-- the rules of some entries follow the four sources -/
theorem bucketOf_ofList_iff (entries : List (String × String)) (relation : Relation)
    (bucket : String) :
    (ofList entries).bucketOf relation = bucket ↔ ReadsBucket entries relation bucket := by
  have hfind := find?_ofList relation.foreignKey entries
  constructor
  · rintro rfl
    cases hown : relation.bucket with
    | some own =>
      rw [bucketOf_of_own hown]
      exact .own hown
    | none =>
      cases hlast : (entriesAbout relation.foreignKey entries).getLast? with
      | some e =>
        rw [hlast] at hfind
        rw [bucketOf_of_given hown hfind]
        exact .given hown hlast
      | none =>
        rw [hlast] at hfind
        rw [bucketOf_of_not_given hown hfind]
        exact .usual hown (List.getLast?_eq_none_iff.mp hlast) ((usualBucket_iff _ _).mp rfl)
  · intro h
    cases h with
    | own h => exact bucketOf_of_own h
    | given hown hlast =>
      rw [hlast] at hfind
      exact bucketOf_of_given hown hfind
    | usual hown hnil h =>
      rw [hnil] at hfind
      rw [bucketOf_of_not_given hown hfind]
      exact (usualBucket_iff _ _).mpr h

end BucketRules

/-- only the entries about its own key count for a relation, in their own order -/
theorem ReadsBucket.congr {entries entries' : List (String × String)} {relation : Relation}
    {bucket : String}
    (h : entriesAbout relation.foreignKey entries' = entriesAbout relation.foreignKey entries)
    (hr : ReadsBucket entries relation bucket) : ReadsBucket entries' relation bucket := by
  cases hr with
  | own hown => exact .own hown
  | given hown hlast => exact .given hown (h ▸ hlast)
  | usual hown hnil hu => exact .usual hown (h.trans hnil) hu

/-- a relation that is known by its name only reads the bucket of this name -/
theorem ReadsBucket.ofName {entries : List (String × String)} {name : String} (hne : name ≠ "")
    (hgiven : name ++ keyEnding ∉ entries.map Prod.fst)
    (hregular : name ++ keyEnding ∉ irregularBuckets.map Prod.fst) :
    ReadsBucket entries (.ofName name) name :=
  .usual rfl (entriesAbout_eq_nil_iff.mpr hgiven) (.stem hregular hne rfl)

/-! ## arguments -/

namespace CommandLine

/-- key and bucket of an argument, with its first equals sign between them -/
def IsEntry (argument : String) (entry : String × String) : Prop :=
  '=' ∉ entry.1.toList ∧ argument = entry.1 ++ "=" ++ entry.2

theorem bucketArgument_of_isEntry {argument : String} {entry : String × String}
    (h : IsEntry argument entry) : bucketArgument argument = .ok entry := by
  obtain ⟨hkey, rfl⟩ := h
  have hchars : (entry.1 ++ "=" ++ entry.2).toList = entry.1.toList ++ '=' :: entry.2.toList := by
    rw [String.toList_append, String.toList_append, List.append_assoc]
    rfl
  have hbefore := bne_of_not_mem hkey
  have hbucket : (entry.1 ++ "=" ++ entry.2).toList.dropWhile (· != '=') =
      '=' :: entry.2.toList := by
    rw [hchars, List.dropWhile_append_of_pos hbefore]
    rfl
  have htaken : (entry.1 ++ "=" ++ entry.2).toList.takeWhile (· != '=') = entry.1.toList := by
    rw [hchars, List.takeWhile_append_of_pos hbefore]
    exact List.append_nil _
  simp only [bucketArgument, hbucket, htaken, String.ofList_toList]

theorem bucketArgument_of_not {argument : String} (h : '=' ∉ argument.toList) :
    bucketArgument argument = .error (.noBucket argument) := by
  have hdrop : argument.toList.dropWhile (· != '=') = [] :=
    List.dropWhile_eq_nil_iff.mpr (bne_of_not_mem h)
  simp only [bucketArgument, hdrop]

theorem exists_isEntry {argument : String} (h : '=' ∈ argument.toList) :
    ∃ entry, IsEntry argument entry := by
  obtain ⟨key, bucket, hchars, hkey⟩ := List.eq_append_cons_of_mem h
  refine ⟨(String.ofList key, String.ofList bucket), ?_, ?_⟩
  · rwa [String.toList_ofList]
  · rw [← String.toList_inj, hchars]
    simp

theorem exists_entries {arguments : List String}
    (h : ∀ argument ∈ arguments, '=' ∈ argument.toList) :
    ∃ entries, List.Forall₂ IsEntry arguments entries := by
  induction arguments with
  | nil => exact ⟨[], .nil⟩
  | cons argument arguments ih =>
    obtain ⟨hargument, hrest⟩ := List.forall_mem_cons.mp h
    obtain ⟨entry, hentry⟩ := exists_isEntry hargument
    obtain ⟨entries, hentries⟩ := ih hrest
    exact ⟨entry :: entries, .cons hentry hentries⟩

theorem addRules_of_entries {arguments : List String} {entries : List (String × String)}
    (h : List.Forall₂ IsEntry arguments entries) (rules : BucketRules) :
    addRules rules arguments = .ok (entries.foldl (fun r e => r.give e.1 e.2) rules) := by
  induction h generalizing rules with
  | nil => rfl
  | cons hentry _ ih =>
    rw [addRules, bucketArgument_of_isEntry hentry]
    exact ih _

theorem addRules_of_not {arguments : List String} {argument : String} (hmem : argument ∈ arguments)
    (h : '=' ∉ argument.toList) (rules : BucketRules) :
    ∃ e, addRules rules arguments = .error e := by
  induction arguments generalizing rules with
  | nil => exact absurd hmem List.not_mem_nil
  | cons first arguments ih =>
    rw [addRules]
    cases hfirst : bucketArgument first with
    | error e => exact ⟨e, rfl⟩
    | ok entry =>
      rcases List.mem_cons.mp hmem with rfl | hmem
      · rw [bucketArgument_of_not h] at hfirst
        cases hfirst
      · exact ih hmem _

theorem ruleArguments_of_entries {arguments : List String} {entries : List (String × String)}
    (h : List.Forall₂ IsEntry arguments entries) :
    ruleArguments arguments = .ok (.ofList entries) :=
  addRules_of_entries h {}

theorem ruleArguments_iff (arguments : List String) :
    (∃ rules, ruleArguments arguments = .ok rules) ↔
      ∀ argument ∈ arguments, '=' ∈ argument.toList := by
  constructor
  · rintro ⟨rules, hrules⟩ argument hmem
    by_contra hnot
    obtain ⟨e, he⟩ := addRules_of_not hmem hnot {}
    rw [ruleArguments, he] at hrules
    cases hrules
  · intro h
    obtain ⟨entries, hentries⟩ := exists_entries h
    exact ⟨_, ruleArguments_of_entries hentries⟩

/--
**Which source names the bucket.**  Arguments are rules exactly when each of them has an equals
sign, the first of which parts key and bucket.  A relation then reads its own bucket, or the one of
the last entry about its foreign key, or the one of the table, or the one named like the foreign
key, without `Id` at its end where something else stands before it.  So entries about other keys
have no part in this, nor has their place among the others; and a relation known by its name reads
the bucket of this name unless an entry or the table is about its foreign key.
-/
theorem bucket_precedence (arguments : List String) :
    ((∃ rules, ruleArguments arguments = .ok rules) ↔
      ∀ argument ∈ arguments, '=' ∈ argument.toList) ∧
    ((∀ argument ∈ arguments, '=' ∈ argument.toList) →
      ∃ entries, List.Forall₂ IsEntry arguments entries) ∧
    ∀ entries, List.Forall₂ IsEntry arguments entries →
      ∃ rules, ruleArguments arguments = .ok rules ∧
        (∀ (relation : Relation) (bucket : String),
          rules.bucketOf relation = bucket ↔ ReadsBucket entries relation bucket) ∧
        (∀ (arguments' : List String) (entries' : List (String × String)) (rules' : BucketRules),
          List.Forall₂ IsEntry arguments' entries' → ruleArguments arguments' = .ok rules' →
          ∀ relation : Relation,
            entriesAbout relation.foreignKey entries' =
              entriesAbout relation.foreignKey entries →
            rules'.bucketOf relation = rules.bucketOf relation) ∧
        ∀ name, name ≠ "" → name ++ keyEnding ∉ entries.map Prod.fst →
          name ++ keyEnding ∉ irregularBuckets.map Prod.fst →
          rules.bucketOf (.ofName name) = name := by
  refine ⟨ruleArguments_iff arguments, exists_entries, fun entries hentries => ?_⟩
  refine ⟨_, ruleArguments_of_entries hentries, BucketRules.bucketOf_ofList_iff entries, ?_, ?_⟩
  · intro arguments' entries' rules' hentries' hrules' relation habout
    rw [ruleArguments_of_entries hentries'] at hrules'
    cases hrules'
    rw [BucketRules.bucketOf_ofList_iff]
    exact .congr habout ((BucketRules.bucketOf_ofList_iff entries relation _).mp rfl)
  · intro name hne hgiven hregular
    rw [BucketRules.bucketOf_ofList_iff]
    exact .ofName hne hgiven hregular

/-- a key twice, a bucket with an equals sign, and a key that is the ending twice -/
def bucketEntries : List (String × String) :=
  [("unitId", "a"), ("customerId", "b=c"), ("unitId", "d"), ("IdId", "e")]

theorem bucket_precedence_bucketEntries :
    ∃ rules, ruleArguments ["unitId=a", "customerId=b=c", "unitId=d", "IdId=e"] = .ok rules ∧
      rules.bucketOf (.ofName "unit") = "d" ∧ rules.bucketOf (.ofName "customer") = "b=c" ∧
      rules.bucketOf (.ofName "supplier") = "party" ∧ rules.bucketOf (.ofName "Id") = "e" ∧
      rules.bucketOf { name := "thing", foreignKey := "Id" } = "Id" ∧
      rules.bucketOf { name := "unit", foreignKey := "unitId", bucket := some "u" } = "u" ∧
      rules.bucketOf (.ofName "vat") = "vat" := by
  have hentries : List.Forall₂ IsEntry
      ["unitId=a", "customerId=b=c", "unitId=d", "IdId=e"] bucketEntries :=
    .cons ⟨by decide, rfl⟩ <| .cons ⟨by decide, rfl⟩ <| .cons ⟨by decide, rfl⟩ <|
      .cons ⟨by decide, rfl⟩ .nil
  obtain ⟨-, -, hrules⟩ := bucket_precedence ["unitId=a", "customerId=b=c", "unitId=d", "IdId=e"]
  obtain ⟨rules, hok, hreads, -, hname⟩ := hrules bucketEntries hentries
  have hwhole : ∀ stem, stem ≠ "" → "Id" ≠ stem ++ keyEnding := by
    intro stem hne heq
    have hsame : "" ++ keyEnding = stem ++ keyEnding := heq
    exact hne ((String.append_left_inj keyEnding).mp hsame).symm
  refine ⟨rules, hok, ?_, ?_, ?_, ?_, ?_, ?_, ?_⟩
  · exact (hreads _ _).mpr (.given (e := ("unitId", "d")) rfl (by decide))
  · exact (hreads _ _).mpr (.given (e := ("customerId", "b=c")) rfl (by decide))
  · exact (hreads _ _).mpr (.usual rfl (by decide) (.irregular (by decide)))
  · exact (hreads _ _).mpr (.given (e := ("IdId", "e")) rfl (by decide))
  · exact (hreads _ _).mpr (.usual rfl (by decide) (.whole (by decide) hwhole))
  · exact (hreads _ _).mpr (.own rfl)
  · exact hname "vat" (by decide) (by decide) (by decide)

end CommandLine

end RestQuery

import Mathlib
import RestQuery.CommandLine.Relations

/-!
# What an argument says of a relation

An argument has one to three parts between colons: a name, a foreign key, a bucket.  The name has
to be there; either of the others may be left out or left empty, and then says nothing.

* `IsParted`                    an argument and its parts;
* `Given`, `Describes`          a part that says something, and what all of them say;
* `ReadAs`                      the three ways in which an argument is read;
* `relationArgument_eq_iff`     every argument is read in one of them;
* `Writable`, `argumentOf`      the relations that an argument can be about, and an argument;
* `relation_argument_grammar`   arguments and relations, in both directions.
-/

namespace RestQuery.CommandLine

/-! ## parts -/

/-- the argument is these parts with colons between them, and none inside -/
structure IsParted (argument : String) (parts : List String) : Prop where
  ne_nil : parts ≠ []
  joined : joinTexts ':' parts = argument
  whole : ∀ part ∈ parts, ':' ∉ part.toList

theorem isParted_splitText (argument : String) : IsParted argument (splitText ':' argument) where
  ne_nil := splitText_ne_nil ':' argument
  joined := joinTexts_splitText ':' argument
  whole _ hpart := not_mem_of_mem_splitText hpart

theorem IsParted.splitText_eq {argument : String} {parts : List String}
    (h : IsParted argument parts) : splitText ':' argument = parts := by
  rw [← h.joined]
  exact splitText_joinTexts ':' parts h.ne_nil h.whole

theorem existsUnique_isParted (argument : String) : ∃! parts, IsParted argument parts :=
  ⟨_, isParted_splitText argument, fun _ h => h.splitText_eq.symm⟩

/-- a part that is there and says something -/
def Given (parts : List String) (place : Nat) (part : String) : Prop :=
  parts[place]? = some part ∧ part ≠ ""

theorem Given.unique {parts : List String} {place : Nat} {part part' : String}
    (h : Given parts place part) (h' : Given parts place part') : part = part' :=
  Option.some.inj (h.1.symm.trans h'.1)

theorem nonempty?_eq_some_iff {parts : List String} {place : Nat} {part : String} :
    nonempty? parts[place]? = some part ↔ Given parts place part := by
  unfold nonempty? Given
  rw [Option.filter_eq_some_iff, Bool.not_eq_true', ← Bool.not_eq_true, String.isEmpty_iff]

theorem nonempty?_eq_none_iff {parts : List String} {place : Nat} :
    nonempty? parts[place]? = none ↔ ∀ part, ¬ Given parts place part := by
  simp only [Option.eq_none_iff_forall_ne_some, ne_eq, nonempty?_eq_some_iff]

theorem Given.head?_ne {parts : List String} {name : String} (h : Given parts 0 name) :
    parts.head? ≠ some "" := by
  intro hhead
  rw [List.head?_eq_getElem?, h.1] at hhead
  exact h.2 (Option.some.inj hhead)

/-- there is a first part, so that only an empty one is no name -/
theorem head?_of_not_given {parts : List String} (hne : parts ≠ [])
    (h : ∀ name, ¬ Given parts 0 name) : parts.head? = some "" := by
  cases parts with
  | nil => exact absurd rfl hne
  | cons first rest =>
    have hfirst : first = "" := by
      by_contra hsays
      exact h first ⟨rfl, hsays⟩
    rw [List.head?_cons, hfirst]

/-! ## what parts say -/

/-- the relation that parts describe; without a part for it the foreign key goes by the name -/
structure Describes (parts : List String) (relation : Relation) : Prop where
  length : parts.length ≤ 3
  name : Given parts 0 relation.name
  foreignKey : ∀ key, Given parts 1 key → relation.foreignKey = key
  usualKey : (∀ key, ¬ Given parts 1 key) → relation.foreignKey = relation.name ++ keyEnding
  bucket : ∀ bucket, relation.bucket = some bucket ↔ Given parts 2 bucket
  target : relation.target = .raw

theorem Describes.foreignKey_cases {parts : List String} {relation : Relation}
    (h : Describes parts relation) :
    Given parts 1 relation.foreignKey ∨
      (∀ key, ¬ Given parts 1 key) ∧ relation.foreignKey = relation.name ++ keyEnding := by
  by_cases hgiven : ∃ key, Given parts 1 key
  · obtain ⟨key, hkey⟩ := hgiven
    rw [h.foreignKey key hkey]
    exact .inl hkey
  · have hnone : ∀ key, ¬ Given parts 1 key := not_exists.mp hgiven
    exact .inr ⟨hnone, h.usualKey hnone⟩

theorem Describes.unique {parts : List String} {relation relation' : Relation}
    (h : Describes parts relation) (h' : Describes parts relation') : relation = relation' := by
  have hname : relation.name = relation'.name := h.name.unique h'.name
  have hkey : relation.foreignKey = relation'.foreignKey := by
    rcases h.foreignKey_cases with hgiven | ⟨hnone, husual⟩
    · exact (h'.foreignKey _ hgiven).symm
    · rw [husual, h'.usualKey hnone, hname]
  have hbucket : relation.bucket = relation'.bucket := by
    ext bucket
    exact (h.bucket bucket).trans (h'.bucket bucket).symm
  have htarget : relation.target = relation'.target := h.target.trans h'.target.symm
  cases relation
  cases relation'
  simp_all only

/-- how an argument with these parts is read; a missing name counts before too many parts -/
inductive ReadAs (argument : String) (parts : List String) : Except RelationError Relation → Prop
  | noName (h : parts.head? = some "") : ReadAs argument parts (.error (.noName argument))
  | tooManyParts (hname : parts.head? ≠ some "") (h : 3 < parts.length) :
    ReadAs argument parts (.error (.tooManyParts argument))
  | relation {relation : Relation} (h : Describes parts relation) :
    ReadAs argument parts (.ok relation)

theorem readAs_ok_iff {argument : String} {parts : List String} {relation : Relation} :
    ReadAs argument parts (.ok relation) ↔ Describes parts relation := by
  constructor
  · intro h
    cases h with
    | relation h => exact h
  · exact .relation

theorem ReadAs.unique {argument : String} {parts : List String}
    {result result' : Except RelationError Relation} (h : ReadAs argument parts result)
    (h' : ReadAs argument parts result') : result = result' := by
  cases h with
  | noName h =>
    cases h' with
    | noName _ => rfl
    | tooManyParts hname _ => exact absurd h hname
    | relation h' => exact absurd h h'.name.head?_ne
  | tooManyParts hname h =>
    cases h' with
    | noName h' => exact absurd h' hname
    | tooManyParts _ _ => rfl
    | relation h' => exact absurd h (Nat.not_lt.mpr h'.length)
  | relation h =>
    cases h' with
    | noName h' => exact absurd h' h.name.head?_ne
    | tooManyParts _ h' => exact absurd h' (Nat.not_lt.mpr h.length)
    | relation h' => rw [h.unique h']

theorem readAs_relationArgument (argument : String) :
    ReadAs argument (splitText ':' argument) (relationArgument argument) := by
  simp only [relationArgument]
  split
  · next hname =>
    exact .noName (head?_of_not_given (splitText_ne_nil ':' argument)
      (nonempty?_eq_none_iff.mp hname))
  · next name hname =>
    have hgiven : Given (splitText ':' argument) 0 name := nonempty?_eq_some_iff.mp hname
    split
    · next hmany => exact .tooManyParts hgiven.head?_ne hmany
    · next hfew =>
      refine .relation ⟨Nat.not_lt.mp hfew, hgiven, ?_, ?_, ?_, rfl⟩
      · intro key hkey
        rw [nonempty?_eq_some_iff.mpr hkey, Option.getD_some]
      · intro hnone
        rw [nonempty?_eq_none_iff.mpr hnone, Option.getD_none]
      · intro bucket
        exact nonempty?_eq_some_iff

theorem relationArgument_eq_iff {argument : String} {parts : List String}
    (h : IsParted argument parts) (result : Except RelationError Relation) :
    relationArgument argument = result ↔ ReadAs argument parts result := by
  have hread := readAs_relationArgument argument
  rw [h.splitText_eq] at hread
  constructor
  · rintro rfl
    exact hread
  · intro hresult
    exact hread.unique hresult

theorem exists_relation_iff {argument : String} {parts : List String}
    (h : IsParted argument parts) :
    (∃ relation, relationArgument argument = .ok relation) ↔
      parts.length ≤ 3 ∧ parts.head? ≠ some "" := by
  constructor
  · rintro ⟨relation, hrelation⟩
    have hdescribes := readAs_ok_iff.mp ((relationArgument_eq_iff h _).mp hrelation)
    exact ⟨hdescribes.length, hdescribes.name.head?_ne⟩
  · rintro ⟨hfew, hname⟩
    -- the argument is read in some way, and neither failure fits its parts
    have hread := (relationArgument_eq_iff h _).mp rfl
    cases hresult : relationArgument argument with
    | ok relation => exact ⟨relation, rfl⟩
    | error e =>
      rw [hresult] at hread
      cases hread with
      | noName hnone => exact absurd hnone hname
      | tooManyParts _ hmany => exact absurd hmany (Nat.not_lt.mpr hfew)

/-! ## writing an argument -/

/-- a part that can stand between colons and says something there -/
def IsWord (part : String) : Prop := part ≠ "" ∧ ':' ∉ part.toList

/-- the relations that an argument can be about -/
structure Writable (relation : Relation) : Prop where
  name : IsWord relation.name
  foreignKey : IsWord relation.foreignKey
  bucket : ∀ bucket, relation.bucket = some bucket → IsWord bucket
  target : relation.target = .raw

/-- name and foreign key of a relation, and its bucket if it has one -/
def argumentOf (relation : Relation) : String :=
  match relation.bucket with
  | none => relation.name ++ ":" ++ relation.foreignKey
  | some bucket => relation.name ++ ":" ++ relation.foreignKey ++ ":" ++ bucket

def partsOf (relation : Relation) : List String :=
  relation.name :: relation.foreignKey :: relation.bucket.toList

theorem isParted_argumentOf {relation : Relation} (h : Writable relation) :
    IsParted (argumentOf relation) (partsOf relation) where
  ne_nil := List.cons_ne_nil _ _
  joined := by
    unfold argumentOf partsOf
    rw [← String.toList_inj]
    cases relation.bucket with
    | none => simp [joinTexts, joinChars]
    | some bucket => simp [joinTexts, joinChars]
  whole := by
    intro part hpart
    rcases List.mem_cons.mp hpart with rfl | hpart
    · exact h.name.2
    · rcases List.mem_cons.mp hpart with rfl | hpart
      · exact h.foreignKey.2
      · exact (h.bucket part (Option.mem_toList.mp hpart)).2

/-- no part of this argument is left to be filled in -/
theorem describes_partsOf {relation : Relation} (h : Writable relation) :
    Describes (partsOf relation) relation := by
  have hkey : Given (partsOf relation) 1 relation.foreignKey := ⟨rfl, h.foreignKey.1⟩
  have hplace : (partsOf relation)[2]? = relation.bucket := by
    unfold partsOf
    cases relation.bucket <;> rfl
  refine ⟨?_, ⟨rfl, h.name.1⟩, fun key hgiven => hkey.unique hgiven, ?_, ?_, h.target⟩
  · unfold partsOf
    cases relation.bucket <;> simp
  · intro hnone
    exact absurd hkey (hnone _)
  · intro bucket
    unfold Given
    rw [hplace]
    exact ⟨fun hbucket => ⟨hbucket, (h.bucket bucket hbucket).1⟩, fun hgiven => hgiven.1⟩

theorem IsParted.isWord {argument : String} {parts : List String} (h : IsParted argument parts)
    {place : Nat} {part : String} (hgiven : Given parts place part) : IsWord part :=
  ⟨hgiven.2, h.whole part (List.mem_of_getElem? hgiven.1)⟩

/-- whatever is read could have been written -/
theorem writable_of_describes {argument : String} {parts : List String} {relation : Relation}
    (hparted : IsParted argument parts) (h : Describes parts relation) : Writable relation where
  name := hparted.isWord h.name
  foreignKey := by
    rcases h.foreignKey_cases with hgiven | ⟨-, husual⟩
    · exact hparted.isWord hgiven
    · -- the ending has no colon, and no key is empty that has it
      have hname := hparted.isWord h.name
      rw [husual]
      constructor
      · intro hempty
        exact hname.1 (String.append_eq_empty_iff.mp hempty).1
      · rw [String.toList_append, List.mem_append, not_or]
        exact ⟨hname.2, by decide⟩
  bucket bucket hbucket := hparted.isWord ((h.bucket bucket).mp hbucket)
  target := h.target

/--
**The grammar of arguments about relations.**  An argument has its parts, in one way.  It is about
a relation exactly if there are at most three of them and the first one is not empty, and then
about the one that they describe; without a name it fails for that, however many parts there are,
and else for having too many.  The relations that are read are the raw ones whose name, foreign key
and bucket are words without colons, and each of these is read from the argument made of it.
-/
theorem relation_argument_grammar (argument : String) :
    (∃! parts, IsParted argument parts) ∧
    (∀ parts, IsParted argument parts →
      ((∃ relation, relationArgument argument = .ok relation) ↔
        parts.length ≤ 3 ∧ parts.head? ≠ some "") ∧
      ∀ result, relationArgument argument = result ↔ ReadAs argument parts result) ∧
    (∀ relation, relationArgument argument = .ok relation → Writable relation) ∧
    ∀ relation, Writable relation → relationArgument (argumentOf relation) = .ok relation := by
  refine ⟨existsUnique_isParted argument, ?_, ?_, ?_⟩
  · intro parts hparts
    exact ⟨exists_relation_iff hparts, relationArgument_eq_iff hparts⟩
  · intro relation hrelation
    have hparts := isParted_splitText argument
    have hdescribes := readAs_ok_iff.mp ((relationArgument_eq_iff hparts _).mp hrelation)
    exact writable_of_describes hparts hdescribes
  · intro relation h
    exact (relationArgument_eq_iff (isParted_argumentOf h) _).mpr (.relation (describes_partsOf h))

def customer : Relation :=
  { name := "customer", foreignKey := "customerId", bucket := some "company" }

/-- an empty part in the middle, one in front with too many behind it, and three at the end -/
theorem relation_argument_grammar_customer :
    relationArgument "customer::company" = .ok customer ∧ Writable customer ∧
      relationArgument "customer:customerId:company" = .ok customer ∧
      relationArgument ":a:b:c" = .error (.noName ":a:b:c") ∧
      relationArgument "a:::" = .error (.tooManyParts "a:::") := by
  have hcompany : IsParted "customer::company" ["customer", "", "company"] :=
    ⟨by decide, by decide, by decide⟩
  have hnone : IsParted ":a:b:c" ["", "a", "b", "c"] := ⟨by decide, by decide, by decide⟩
  have hmany : IsParted "a:::" ["a", "", "", ""] := ⟨by decide, by decide, by decide⟩
  have hdescribes : Describes ["customer", "", "company"] customer := by
    refine ⟨by decide, ⟨rfl, by decide⟩, ?_, fun _ => rfl, ?_, rfl⟩
    · rintro key ⟨hkey, hne⟩
      exact absurd (Option.some.inj hkey).symm hne
    · intro bucket
      constructor
      · intro hbucket
        cases hbucket
        exact ⟨rfl, by decide⟩
      · exact fun hbucket => hbucket.1
  obtain ⟨-, hparts, hwritable, hwritten⟩ := relation_argument_grammar "customer::company"
  have hok := ((hparts _ hcompany).2 _).mpr (.relation hdescribes)
  have hcustomer := hwritable customer hok
  refine ⟨hok, hcustomer, hwritten customer hcustomer, ?_, ?_⟩
  · obtain ⟨-, hparts, -⟩ := relation_argument_grammar ":a:b:c"
    exact ((hparts _ hnone).2 _).mpr (.noName rfl)
  · obtain ⟨-, hparts, -⟩ := relation_argument_grammar "a:::"
    exact ((hparts _ hmany).2 _).mpr (.tooManyParts (by decide) (by decide))

end RestQuery.CommandLine

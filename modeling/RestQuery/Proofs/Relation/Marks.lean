import Mathlib
import RestQuery.Proofs.Relation.RecordText

/-!
# What slack forgives

Slack is meant for names that differ in case and punctuation only.  It compares the ASCII letters
and digits of two names, so it forgives one thing more: characters beyond ASCII do not count, be
they letters or not.  Two names that it takes for one differ in these characters at most.

* `unmarked`         a name without case and punctuation;
* `eq_of_parts`      a list from its elements of one kind and the places of the others;
* `Forgiven`         two names that count the same, and when case and punctuation are the reason;
* `slack_forgives`   names that are looked up, and rows that are attached.
-/

namespace RestQuery

open Json

def isAscii (c : Char) : Bool := c.toNat < 128

/-- an ASCII character that is neither a letter nor a digit -/
def isMark (c : Char) : Bool := isAscii c && !c.isAlphanum

/-- without ASCII marks, ASCII letters in lower case -/
def unmarked (name : String) : List Char :=
  (name.toList.filter fun c => !isMark c).map Char.toLower

/-! ## characters -/

theorem isAscii_toLower (c : Char) : isAscii c.toLower = isAscii c := by
  unfold isAscii Char.toLower
  split
  · next h =>
    have hlow : 65 ≤ c.val.toNat := h.1
    have hhigh : c.val.toNat ≤ 90 := h.2
    have hlower : (c.val + ('a'.val - 'A'.val)).toNat = c.val.toNat + 32 := by
      show (c.val.toNat + 32) % 4294967296 = c.val.toNat + 32
      omega
    show decide ((c.val + ('a'.val - 'A'.val)).toNat < 128) = decide (c.val.toNat < 128)
    rw [hlower, decide_eq_true (by omega), decide_eq_true (by omega)]
  · rfl

theorem isAscii_of_isAlphanum {c : Char} (h : c.isAlphanum = true) : isAscii c = true := by
  have hle {d : Char} (hd : d.toNat < 128) (hcd : c.val ≤ d.val) : isAscii c = true :=
    decide_eq_true (lt_of_le_of_lt (UInt32.le_iff_toNat_le.mp hcd) hd)
  simp only [Char.isAlphanum, Char.isAlpha, Char.isUpper, Char.isLower, Char.isDigit,
    Bool.or_eq_true, Bool.and_eq_true, decide_eq_true_eq] at h
  rcases h with (⟨-, hupper⟩ | ⟨-, hlower⟩) | ⟨-, hdigit⟩
  · exact hle (d := 'Z') (by decide) hupper
  · exact hle (d := 'z') (by decide) hlower
  · exact hle (d := '9') (by decide) hdigit

/-- what counts of a name is the ASCII part of what is left without marks -/
theorem skeleton_eq (name : String) : skeleton name = (unmarked name).filter isAscii := by
  unfold skeleton unmarked
  rw [List.filter_map, List.filter_filter]
  congr 1
  apply List.filter_congr
  intro c _
  rw [Function.comp_apply, isAscii_toLower, isMark]
  cases halphanum : c.isAlphanum with
  | true => rw [isAscii_of_isAlphanum halphanum]; rfl
  | false => cases isAscii c <;> rfl

/-! ## two parts of a list -/

section
variable {α : Type} (p : α → Bool)

/-- the elements of the other kind, each with its place -/
def placesOfOthers (n : Nat) (l : List α) : List (α × Nat) :=
  (l.zipIdx n).filter fun x => !p x.1

variable {p}

theorem placesOfOthers_cons_of_pos {a : α} (ha : p a = true) (n : Nat) (l : List α) :
    placesOfOthers p n (a :: l) = placesOfOthers p (n + 1) l := by
  rw [placesOfOthers, List.zipIdx_cons, List.filter_cons_of_neg (by simp [ha]), placesOfOthers]

theorem placesOfOthers_cons_of_neg {a : α} (ha : p a = false) (n : Nat) (l : List α) :
    placesOfOthers p n (a :: l) = (a, n) :: placesOfOthers p (n + 1) l := by
  rw [placesOfOthers, List.zipIdx_cons, List.filter_cons_of_pos (by simp [ha]), placesOfOthers]

theorem placesOfOthers_ne_cons (a : α) (n : Nat) (l : List α) (rest : List (α × Nat)) :
    placesOfOthers p (n + 1) l ≠ (a, n) :: rest := by
  intro h
  have hmem : (a, n) ∈ placesOfOthers p (n + 1) l := h ▸ List.mem_cons_self
  have hle := List.le_snd_of_mem_zipIdx (List.mem_of_mem_filter hmem)
  exact absurd hle (Nat.not_succ_le_self n)

theorem eq_nil_of_parts {l : List α} {n : Nat} (hp : l.filter p = [])
    (hothers : placesOfOthers p n l = []) : l = [] := by
  cases l with
  | nil => rfl
  | cons a l =>
    cases ha : p a with
    | true =>
      rw [List.filter_cons_of_pos ha] at hp
      cases hp
    | false =>
      rw [placesOfOthers_cons_of_neg ha] at hothers
      cases hothers

theorem eq_of_parts {l l' : List α} {n : Nat} (hp : l.filter p = l'.filter p)
    (hothers : placesOfOthers p n l = placesOfOthers p n l') : l = l' := by
  induction l generalizing l' n with
  | nil => exact (eq_nil_of_parts hp.symm hothers.symm).symm
  | cons a l ih =>
    cases l' with
    | nil => exact eq_nil_of_parts hp hothers
    | cons b l' =>
      cases ha : p a <;> cases hb : p b
      case true.true =>
        rw [List.filter_cons_of_pos ha, List.filter_cons_of_pos hb] at hp
        rw [placesOfOthers_cons_of_pos ha, placesOfOthers_cons_of_pos hb] at hothers
        obtain ⟨hhead, hrest⟩ := List.cons.inj hp
        rw [hhead, ih hrest hothers]
      case false.false =>
        rw [List.filter_cons_of_neg (by simp [ha]), List.filter_cons_of_neg (by simp [hb])] at hp
        rw [placesOfOthers_cons_of_neg ha, placesOfOthers_cons_of_neg hb] at hothers
        obtain ⟨hhead, hrest⟩ := List.cons.inj hothers
        rw [(Prod.mk.inj hhead).1, ih hp hrest]
      -- an element of the other kind would stand in front of one list only
      case true.false =>
        rw [placesOfOthers_cons_of_pos ha, placesOfOthers_cons_of_neg hb] at hothers
        exact absurd hothers (placesOfOthers_ne_cons b n l _)
      case false.true =>
        rw [placesOfOthers_cons_of_neg ha, placesOfOthers_cons_of_pos hb] at hothers
        exact absurd hothers.symm (placesOfOthers_ne_cons a n l' _)

end

/-- the characters of a name beyond ASCII, and their places -/
def beyondAscii (name : String) : List (Char × Nat) := placesOfOthers isAscii 0 (unmarked name)

/-- two names that count the same: they agree in ASCII, and case and punctuation alone tell them
apart only when they agree beyond ASCII as well -/
structure Forgiven (k name : String) : Prop where
  ascii : (unmarked k).filter isAscii = (unmarked name).filter isAscii
  unmarked_eq_iff : unmarked k = unmarked name ↔ beyondAscii k = beyondAscii name

theorem forgiven_iff (k name : String) : Forgiven k name ↔ skeleton k = skeleton name := by
  rw [skeleton_eq, skeleton_eq]
  constructor
  · exact Forgiven.ascii
  · intro h
    exact ⟨h, fun he => congrArg (placesOfOthers isAscii 0) he, eq_of_parts h⟩

/-! ## what is attached -/

theorem NameMap.find?_of_insertAll {α : Type} {l : List (String × α)} {m : NameMap α}
    {name : String} {a : α} (h : find? name (insertAll l m) = some a) :
    (name, a) ∈ l ∨ find? name m = some a := by
  induction l generalizing m with
  | nil => exact .inr h
  | cons p l ih =>
    rw [insertAll_cons] at h
    rcases ih h with hl | hm
    · exact .inl (List.mem_cons_of_mem _ hl)
    · rw [find?_insert] at hm
      split at hm
      · next hname =>
        left
        rw [hname, ← Option.some.inj hm]
        exact List.mem_cons_self
      · exact .inr hm

namespace Resolver

/-- whatever a run attaches is a row of a bucket whose name counts the same as the one that is
looked for -/
theorem attachment?_of_resolveRecord {r : Resolver} {buckets : Buckets}
    {relations : List Relation} {record : Record} {name : String} {a : Attachment}
    (h : (r.resolveRecord buckets relations record).attachment? name = some a) (hnull : a ≠ .null) :
    record.attachment? name = some a ∨
      ∃ relation ∈ relations, relation.name = name ∧ ∃ bucket ∈ buckets,
        Forgiven bucket.1 (r.rules.bucketOf relation) ∧
          ∃ row ∈ bucket.2, a = r.formed row relation.target := by
  rcases NameMap.find?_of_insertAll h with hout | hbefore
  · right
    obtain ⟨relation, hrelation, ha⟩ := List.mem_filterMap.mp hout
    obtain ⟨b, hb, he⟩ := Option.map_eq_some_iff.mp ha
    obtain ⟨hname, rfl⟩ := Prod.mk.inj he
    obtain ⟨bucket, hbucket, hsimilar, row, hrow, hformed⟩ := row_of_outcome? hb hnull
    exact ⟨relation, hrelation, hname, bucket, hbucket, (forgiven_iff _ _).mpr hsimilar, row, hrow,
      hformed⟩
  · exact .inl hbefore

end Resolver

/--
**What slack forgives.**  What is found for a name stands under a name with the same ASCII letters
and digits, and every row that is attached lies in such a bucket.  Case and punctuation are all
that tells the two names apart exactly when they hold the same characters beyond ASCII at the same
places, as names in ASCII always do.
-/
theorem slack_forgives {α : Type} (m : NameMap α) (r : Resolver) (buckets : Buckets)
    (relations : List Relation) (record : Record) :
    (∀ name a, Matching.lookup .flexible m name = some a → ∃ k, (k, a) ∈ m ∧ Forgiven k name) ∧
      ∀ resolved ∈ r.resolve buckets relations [record], ∀ name a, a ≠ .null →
        resolved.attachment? name = some a →
          record.attachment? name = some a ∨
            ∃ relation ∈ relations, relation.name = name ∧ ∃ bucket ∈ buckets,
              Forgiven bucket.1 (r.rules.bucketOf relation) ∧
                ∃ row ∈ bucket.2, a = r.formed row relation.target := by
  constructor
  · intro name a h
    obtain ⟨k, hmem, hsimilar⟩ := Matching.mem_of_lookup h
    exact ⟨k, hmem, (forgiven_iff k name).mpr hsimilar⟩
  · intro resolved hresolved name a hnull hname
    rw [Resolver.resolve_singleton, List.mem_singleton] at hresolved
    rw [hresolved] at hname
    exact Resolver.attachment?_of_resolveRecord hname hnull

/-- one bucket, whose name holds a letter beyond ASCII and a mark -/
def addressBuckets : Buckets := [("Adresá-", [[("id", .str "1")]])]

theorem slack_forgives_address :
    ∃ rows, Matching.lookup .flexible addressBuckets "adresá" = some rows ∧
      (∃ k, (k, rows) ∈ addressBuckets ∧ unmarked k = unmarked "adresá") ∧
      ∃ resolved ∈ Resolver.resolve {} addressBuckets [.ofName "adresá"]
          [.ofRow "order" [("adresáId", .str "1")]],
        resolved.attachment? "adresá" = some (.row [("id", .str "1")]) ∧
          ∃ bucket ∈ addressBuckets, Forgiven bucket.1 "adresá" ∧
            [("id", Value.str "1")] ∈ bucket.2 := by
  have hlookup : Matching.lookup .flexible addressBuckets "adresá" =
      some [[("id", .str "1")]] := rfl
  obtain ⟨hfound, hrun⟩ := slack_forgives addressBuckets {} addressBuckets
    [.ofName "adresá"] (.ofRow "order" [("adresáId", .str "1")])
  obtain ⟨k, hk, hforgiven⟩ := hfound "adresá" _ hlookup
  have hname : k = "Adresá-" := (Prod.mk.inj (List.mem_singleton.mp hk)).1
  rw [Resolver.resolve_singleton] at hrun ⊢
  have hrow := hrun _ (List.mem_singleton_self _) "adresá"
    (.row [("id", .str "1")]) nofun rfl
  refine ⟨_, hlookup, ⟨k, hk, hforgiven.unmarked_eq_iff.mpr ?_⟩, _, List.mem_singleton_self _, rfl,
    ?_⟩
  · rw [hname]
    decide
  · obtain hnone | ⟨relation, hrelation, -, bucket, hbucket, hf, row, hmem, he⟩ := hrow
    · cases hnone
    · rw [List.mem_singleton.mp hrelation] at hf he
      cases he
      exact ⟨bucket, hbucket, hf, hmem⟩

/-- a letter beyond ASCII does not count, so another bucket is found and its row attached -/
theorem slack_forgives_letter :
    (¬ ∀ (m : NameMap Nat) name a, Matching.lookup .flexible m name = some a →
        ∃ k, (k, a) ∈ m ∧ unmarked k = unmarked name) ∧
      (Resolver.resolve {} [("adresá", [[("id", .str "1")]])] [.ofName "adres"]
          [.ofRow "order" [("adresId", .str "1")]]).map (·.attachment? "adres") =
        [some (.row [("id", .str "1")])] := by
  constructor
  · intro hmarks
    obtain ⟨k, hmem, hk⟩ := hmarks [("adresá", 1)] "adres" 1 rfl
    obtain ⟨rfl, -⟩ := Prod.mk.inj (List.mem_singleton.mp hmem)
    revert hk
    decide
  · rw [Resolver.resolve_singleton]
    rfl

end RestQuery

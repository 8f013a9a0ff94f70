import Mathlib
import RestQuery.Proofs.Compile.ChangedRecord
import RestQuery.Proofs.Compile.Count
import RestQuery.Proofs.Compile.OrPrefix
import RestQuery.Proofs.Json.ValueTree
import RestQuery.Proofs.Query.Parts

/-!
# What a parameter tells of its condition

No word of the query language has a dash, so the last dash of a key stands between the column and
the word.  A key therefore tells the word of its condition and, with one exception, its column and
how it is joined: `or-` may be the beginning of a column.  Key and value together tell everything
but the kind of a single value.

* `parameterKey_eq_iff`             which keys of conditions are equal;
* `Predicate.tag_eq`                the word tells the kind of predicate;
* `Json.Value.plainText_inj`        values that look alike;
* `parameters_unambiguous`          two conditions and their parameters.
-/

namespace RestQuery

open Json

/-! ## texts of values -/

namespace Json.Value

theorem compact_inj {v w : Value} (hv : v.FloatFree) (hv' : v.Sorted) (hw : w.FloatFree)
    (hw' : w.Sorted) (h : v.compact = w.compact) : v = w := by
  have htree : v.toTree = w.toTree := by
    have hparse : Tree.parse? v.toTree.compact = Tree.parse? w.toTree.compact :=
      congrArg Tree.parse? h
    rw [Tree.parse?_compact, Tree.parse?_compact] at hparse
    exact Option.some.inj hparse
  have hread := ofTree?_toTree hv hv' (le_refl v.toTree.depth)
  have hread' := ofTree?_toTree hw hw' (le_of_eq (congrArg Tree.depth htree.symm))
  rw [← htree, hread] at hread'
  exact Option.some.inj hread'

theorem sorted_of_atomic {v : Value} (h : v.kindWord ∈ listKinds) : v.Sorted := by
  cases v with
  | bool b => exact .bool b
  | num n => exact .num n
  | str s => exact .str s
  | null | arr _ | obj _ => simp [kindWord, listKinds] at h

theorem exists_str_of_kindWord {v : Value} (h : v.kindWord = "string") : ∃ s, v = .str s := by
  cases v with
  | str s => exact ⟨s, rfl⟩
  | null | bool _ | num _ | arr _ | obj _ => simp [kindWord] at h

theorem plainText_eq_compact {v : Value} (h : v.kindWord ∈ listKinds)
    (hs : v.kindWord ≠ "string") : v.plainText = v.compact := by
  cases v with
  | bool _ | num _ => rfl
  | str _ => exact absurd rfl hs
  | null | arr _ | obj _ => simp [kindWord, listKinds] at h

/-- a string may look like a number, but two values of one kind look different -/
theorem plainText_inj {v w : Value} (hv : v.kindWord ∈ listKinds) (hkind : v.kindWord = w.kindWord)
    (hvf : v.FloatFree) (hwf : w.FloatFree) (h : v.plainText = w.plainText) : v = w := by
  have hw : w.kindWord ∈ listKinds := hkind ▸ hv
  by_cases hs : v.kindWord = "string"
  · obtain ⟨s, rfl⟩ := exists_str_of_kindWord hs
    obtain ⟨t, rfl⟩ := exists_str_of_kindWord (hkind.symm.trans hs)
    exact congrArg Value.str h
  · rw [plainText_eq_compact hv hs, plainText_eq_compact hw (hkind ▸ hs)] at h
    exact compact_inj hvf (sorted_of_atomic hv) hwf (sorted_of_atomic hw) h

theorem arrayText_inj {vs ws : List Value} (hv : ∀ v ∈ vs, v.kindWord ∈ listKinds)
    (hw : ∀ w ∈ ws, w.kindWord ∈ listKinds) (hvf : ∀ v ∈ vs, v.FloatFree)
    (hwf : ∀ w ∈ ws, w.FloatFree) (h : arrayText vs = arrayText ws) : vs = ws := by
  have hsorted : (Value.arr vs).Sorted := .arr fun v hmem => sorted_of_atomic (hv v hmem)
  have hsorted' : (Value.arr ws).Sorted := .arr fun w hmem => sorted_of_atomic (hw w hmem)
  exact Value.arr.inj (compact_inj (.arr hvf) hsorted (.arr hwf) hsorted' h)

end Json.Value

/-! ## keys -/

/-- a column as it stands in a key -/
def markedColumn (column : String) (byOr : Bool) : String :=
  if byOr then "or-" ++ column else column

theorem markedColumn_eq_iff (column column' : String) (byOr byOr' : Bool) :
    markedColumn column byOr = markedColumn column' byOr' ↔
      (byOr = byOr' ∧ column = column') ∨
      (byOr = false ∧ byOr' = true ∧ column = "or-" ++ column') ∨
      (byOr = true ∧ byOr' = false ∧ column' = "or-" ++ column) := by
  cases byOr <;> cases byOr'
  · simp [markedColumn]
  · simp [markedColumn]
  · simp [markedColumn, eq_comm]
  · simp [markedColumn, String.append_right_inj]

theorem parameterKey_eq (column code : String) (byOr : Bool) :
    parameterKey column code byOr = markedColumn column byOr ++ String.singleton '-' ++ code := by
  cases byOr with
  | false => rfl
  | true =>
    show "or-" ++ (column ++ "-" ++ code) = "or-" ++ column ++ "-" ++ code
    simp only [String.append_assoc]

/-- the last dash parts a key, whatever dashes the column has -/
theorem cutAtLast?_parameterKey (column : String) {code : String} (byOr : Bool)
    (h : '-' ∉ code.toList) :
    cutAtLast? '-' (parameterKey column code byOr) = some (markedColumn column byOr, code) := by
  rw [parameterKey_eq, cutAtLast?_append '-' _ code h]

theorem parameterKey_eq_iff {column column' code code' : String} {byOr byOr' : Bool}
    (h : '-' ∉ code.toList) (h' : '-' ∉ code'.toList) :
    parameterKey column code byOr = parameterKey column' code' byOr' ↔
      code = code' ∧ markedColumn column byOr = markedColumn column' byOr' := by
  constructor
  · intro hkey
    have hcut := cutAtLast?_parameterKey column byOr h
    rw [hkey, cutAtLast?_parameterKey column' byOr' h'] at hcut
    obtain ⟨hmarked, hcode⟩ := Prod.mk.inj (Option.some.inj hcut)
    exact ⟨hcode.symm, hmarked.symm⟩
  · rintro ⟨rfl, hmarked⟩
    rw [parameterKey_eq, parameterKey_eq, hmarked]

/-! ## words -/

namespace Predicate

theorem code?_no_dash {p : Predicate} {code : String} (h : p.code? = some code) :
    '-' ∉ code.toList := by
  cases p with
  | compare column o v =>
    cases h
    cases o <;> decide
  | entity column v => cases h
  | among | notAmong | null | notNull =>
    cases h
    decide

theorem code?_of_not_entity {p : Predicate} (h : p.isEntity = false) :
    ∃ code, p.code? = some code := by
  cases p with
  | entity column v => cases h
  | compare | among | notAmong | null | notNull => exact ⟨_, rfl⟩

/-- the kind of a predicate -/
def tag : Predicate → PredicateTag
  | compare _ _ _ => .compare
  | among _ _ => .among
  | notAmong _ _ => .notAmong
  | null _ => .null
  | notNull _ => .notNull
  | entity _ _ => .entity

/-- the kind of predicate that a word stands for -/
def tagOfCode : Option String → PredicateTag
  | none => .entity
  | some code =>
    if code = amongCode then .among
    else if code = notAmongCode then .notAmong
    else if code = nullCode then .null
    else if code = notNullCode then .notNull
    else .compare

theorem tag_eq (p : Predicate) : p.tag = tagOfCode p.code? := by
  cases p with
  | compare column o v => cases o <;> rfl
  | among | notAmong | null | notNull | entity => rfl

/-- the one value that a column, or an owner, is compared with -/
def single? : Predicate → Option Value
  | compare _ _ v | entity _ v => some v
  | among _ _ | notAmong _ _ | null _ | notNull _ => none

/-- predicates with one word on one column are told by the texts of their values -/
theorem eq_of_valueText {p p' : Predicate} (hcode : p.code? = p'.code?)
    (hcolumn : p.column = p'.column) (htext : p.valueText = p'.valueText)
    (hp : ∀ v ∈ p.operands, v.kindWord ∈ listKinds)
    (hp' : ∀ v ∈ p'.operands, v.kindWord ∈ listKinds)
    (hfloat : ∀ v ∈ p.operands, v.FloatFree) (hfloat' : ∀ v ∈ p'.operands, v.FloatFree)
    (hkind : ∀ v v', p.single? = some v → p'.single? = some v' → v.kindWord = v'.kindWord) :
    p = p' := by
  have htag : p.tag = p'.tag := by rw [tag_eq, tag_eq, hcode]
  -- only the six pairs of predicates of one kind are left
  cases p <;> cases p' <;> cases htag
  case compare.compare column o v column' o' v' =>
    have ho : o = o' := Operator.code_injective (Option.some.inj hcode)
    have hv : v = v' := Value.plainText_inj (hp v (List.mem_singleton_self v))
      (hkind v v' rfl rfl) (hfloat v (List.mem_singleton_self v))
      (hfloat' v' (List.mem_singleton_self v')) htext
    exact congr (congrArg₂ compare hcolumn ho) hv
  case entity.entity column v column' v' =>
    have hv : v = v' := Value.plainText_inj (hp v (List.mem_singleton_self v))
      (hkind v v' rfl rfl) (hfloat v (List.mem_singleton_self v))
      (hfloat' v' (List.mem_singleton_self v')) htext
    exact congrArg₂ entity hcolumn hv
  case among.among column vs column' vs' =>
    exact congrArg₂ among hcolumn (Value.arrayText_inj hp hp' hfloat hfloat' htext)
  case notAmong.notAmong column vs column' vs' =>
    exact congrArg₂ notAmong hcolumn (Value.arrayText_inj hp hp' hfloat hfloat' htext)
  case null.null column column' => exact congrArg null hcolumn
  case notNull.notNull column column' => exact congrArg notNull hcolumn

end Predicate

/-! ## conditions -/

namespace Condition

/-- one column, or an `or` that makes the other column out of the one that it stands on -/
def MarksSameColumn (c c' : Condition) : Prop :=
  (c.conjunction = c'.conjunction ∧ c.column = c'.column) ∨
  (c.conjunction = .and ∧ c'.conjunction = .or ∧ c.column = "or-" ++ c'.column) ∨
  (c.conjunction = .or ∧ c'.conjunction = .and ∧ c'.column = "or-" ++ c.column)

theorem marksSameColumn_iff (c c' : Condition) :
    c.MarksSameColumn c' ↔
      markedColumn c.column c.joinsByOr = markedColumn c'.column c'.joinsByOr := by
  have hsame : c.joinsByOr = c'.joinsByOr ↔ c.conjunction = c'.conjunction := by
    unfold joinsByOr
    cases c.conjunction <;> cases c'.conjunction <;> decide
  rw [markedColumn_eq_iff, hsame, joinsByOr_eq_false_iff, joinsByOr_eq_false_iff, joinsByOr_iff,
    joinsByOr_iff]
  rfl

theorem key_eq_parameterKey {c : Condition} {code : String} (h : c.predicate.code? = some code) :
    c.key = parameterKey c.column code c.joinsByOr := by
  unfold key
  rw [h]

theorem key_eq_iff {c c' : Condition} (h : c.predicate.isEntity = false)
    (h' : c'.predicate.isEntity = false) :
    c.key = c'.key ↔ c.predicate.code? = c'.predicate.code? ∧ c.MarksSameColumn c' := by
  obtain ⟨code, hcode⟩ := Predicate.code?_of_not_entity h
  obtain ⟨code', hcode'⟩ := Predicate.code?_of_not_entity h'
  rw [key_eq_parameterKey hcode, key_eq_parameterKey hcode',
    parameterKey_eq_iff (Predicate.code?_no_dash hcode) (Predicate.code?_no_dash hcode'),
    marksSameColumn_iff, hcode, hcode', Option.some.injEq]

/-- a key of a condition on a column is none of an owner -/
theorem isEntity_of_key {c c' : Condition} (hc : c.Compatible) (hc' : c'.Compatible)
    (h : c.key = c'.key) : c.predicate.isEntity = c'.predicate.isEntity := by
  have howner := ownerKey_of_parameter (parameter_of_compatible c hc)
  have howner' := ownerKey_of_parameter (parameter_of_compatible c' hc')
  rw [← howner, ← howner', ownerKey, ownerKey, h]

/-- equal keys under one conjunction have one word and one column -/
theorem code?_column_of_key {c c' : Condition} (hc : c.Compatible) (hc' : c'.Compatible)
    (hj : c.conjunction = c'.conjunction) (h : c.key = c'.key) :
    c.predicate.code? = c'.predicate.code? ∧ c.column = c'.column := by
  have hentity := isEntity_of_key hc hc' h
  cases hp : c.predicate.isEntity with
  | true =>
    rw [hp] at hentity
    have hnone {d : Condition} (hd : d.predicate.isEntity = true) :
        d.predicate.code? = none ∧ d.key = d.column := by
      obtain ⟨j, predicate⟩ := d
      cases predicate with
      | entity column v => exact ⟨rfl, rfl⟩
      | compare | among | notAmong | null | notNull => cases hd
    obtain ⟨hcode, hkey⟩ := hnone hp
    obtain ⟨hcode', hkey'⟩ := hnone hentity.symm
    exact ⟨hcode.trans hcode'.symm, hkey.symm.trans (h.trans hkey')⟩
  | false =>
    rw [hp] at hentity
    obtain ⟨hcode, hmarks⟩ := (key_eq_iff hp hentity.symm).mp h
    refine ⟨hcode, ?_⟩
    rcases hmarks with ⟨-, hcolumn⟩ | ⟨hand, hor, -⟩ | ⟨hor, hand, -⟩
    · exact hcolumn
    · rw [hand, hor] at hj
      cases hj
    · rw [hand, hor] at hj
      cases hj

theorem operands_atomic {c : Condition} (h : c.Compatible) :
    ∀ v ∈ c.predicate.operands, v.kindWord ∈ listKinds := by
  obtain ⟨j, predicate⟩ := c
  cases predicate with
  | compare column o v =>
    have hkinds : o.operandKinds ⊆ listKinds := by cases o <;> decide
    exact fun w hw => List.mem_singleton.mp hw ▸ hkinds h
  | entity column v =>
    have hkinds : entityKinds ⊆ listKinds := by decide
    exact fun w hw => List.mem_singleton.mp hw ▸ hkinds h.2.2
  | among column vs | notAmong column vs => exact h.2
  | null column | notNull column => exact fun w hw => absurd hw List.not_mem_nil

/--
**What a parameter tells of its condition.**  The keys of conditions on columns never address an
owner.  Two of them are equal exactly when word and column are the same and both are joined alike,
or when the column of an `and` is `or-` before the column of an `or`.  Where no value is a double,
key and value tell everything but the conjunction and the kind of a single value.
-/
theorem parameters_unambiguous {c c' : Condition} {x x' : Parameter} (h : c.parameter = .ok x)
    (h' : c'.parameter = .ok x') :
    (c.predicate.isEntity = true → c'.predicate.isEntity = false → x.1 ≠ x'.1) ∧
    (c.predicate.isEntity = false → c'.predicate.isEntity = false →
      (x.1 = x'.1 ↔ c.predicate.code? = c'.predicate.code? ∧ c.MarksSameColumn c')) ∧
    (c.conjunction = c'.conjunction → x.1 = x'.1 → x.2 = x'.2 →
      (∀ v ∈ c.predicate.operands, v.FloatFree) → (∀ v ∈ c'.predicate.operands, v.FloatFree) →
      (∀ v v', c.predicate.single? = some v → c'.predicate.single? = some v' →
        v.kindWord = v'.kindWord) → c = c') := by
  obtain ⟨hc, rfl⟩ := (parameter_eq_ok_iff c x).mp h
  obtain ⟨hc', rfl⟩ := (parameter_eq_ok_iff c' x').mp h'
  refine ⟨?_, key_eq_iff, ?_⟩
  · intro hp hp' hkey
    have hentity := isEntity_of_key hc hc' hkey
    rw [hp, hp'] at hentity
    cases hentity
  · intro hj hkey htext hfloat hfloat' hkind
    obtain ⟨hcode, hcolumn⟩ := code?_column_of_key hc hc' hj hkey
    have hp : c.predicate = c'.predicate :=
      Predicate.eq_of_valueText hcode hcolumn htext (operands_atomic hc) (operands_atomic hc') hfloat
        hfloat' hkind
    obtain ⟨j, predicate⟩ := c
    obtain ⟨j', predicate'⟩ := c'
    cases hj
    cases hp
    rfl

/-- a string and a number that look alike are told by nothing but their kind -/
example : (Condition.compare "id" .eq (.str "7")).parameter =
    (Condition.compare "id" .eq (.int 7 (by decide))).parameter := rfl

/-- a column that begins with `or-`, a column named like an owner, and values that look alike -/
theorem parameters_unambiguous_status :
    (Condition.compare "or-status" .eq (.str "a")).parameter = .ok ("or-status-eq", "a") ∧
      (Condition.compare "status" .eq (.str "b")).joinedByOr.parameter =
        .ok ("or-status-eq", "b") ∧
      (Condition.compare "or-status" .eq (.str "a")).MarksSameColumn
        (Condition.compare "status" .eq (.str "b")).joinedByOr ∧
      "entityId" ≠ "entityId-eq" ∧
      (Condition.among "id" [.int 1 (by decide), .str "1"]).parameter =
        .ok ("id-in", "[1,\"1\"]") ∧
      Condition.among "id" [.int 1 (by decide), .str "1"] =
        ⟨.and, .among "id" [.num (.int 1 (by decide)), .str "1"]⟩ := by
  have hand : (Condition.compare "or-status" .eq (.str "a")).parameter =
      .ok ("or-status-eq", "a") := rfl
  have hor : (Condition.compare "status" .eq (.str "b")).joinedByOr.parameter =
      .ok ("or-status-eq", "b") := rfl
  have howner : (Condition.entity "entityId" (.str "8")).parameter = .ok ("entityId", "8") := rfl
  have hcolumn : (Condition.compare "entityId" .eq (.str "8")).parameter =
      .ok ("entityId-eq", "8") := rfl
  have hlist : (Condition.among "id" [.int 1 (by decide), .str "1"]).parameter =
      .ok ("id-in", "[1,\"1\"]") := by cbv
  have hfloat : ∀ v ∈ (Condition.among "id" [.int 1 (by decide), .str "1"]).predicate.operands,
      v.FloatFree := by
    intro v hv
    rcases List.mem_cons.mp hv with rfl | hv
    · exact .int 1 (by decide)
    · rw [List.mem_singleton.mp hv]
      exact .str "1"
  refine ⟨hand, hor, ?_, ?_, hlist, ?_⟩
  · exact (((parameters_unambiguous hand hor).2.1 rfl rfl).mp rfl).2
  · exact (parameters_unambiguous howner hcolumn).1 rfl rfl
  · exact (parameters_unambiguous hlist hlist).2.2 rfl rfl rfl hfloat hfloat fun _ _ h => by cases h

end Condition

end RestQuery

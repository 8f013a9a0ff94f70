import Mathlib
import RestQuery.Dialect
import RestQuery.Text.Parts
import RestQuery.Proofs.Json.TreeText

/-!
# Arrays on one line

On one line the text of a tree is the same at every depth, and the text of an array is the texts of
its items with a comma between each two.

* `Tree.print_compact`            no depth shows;
* `Tree.compact_arr`              an array from its items;
* `IsArrayText`                   the text of an array of items with these texts;
* `Value.isArrayText_arrayText`   a list of values in a request.
-/

namespace RestQuery.Json

namespace Tree

section
variable {d d' : Nat}

theorem printItems_congr {ts : List Tree}
    (h : ∀ t ∈ ts, t.print .compact d = t.print .compact d') :
    printItems .compact d ts = printItems .compact d' ts := by
  induction ts with
  | nil => rfl
  | cons t ts ih =>
    obtain ⟨ht, hts⟩ := List.forall_mem_cons.mp h
    rw [printItems, printItems, ht, ih hts]
    rfl

theorem printMembers_congr {ms : List (List CodePoint × Tree)}
    (h : ∀ m ∈ ms, m.2.print .compact d = m.2.print .compact d') :
    printMembers .compact d ms = printMembers .compact d' ms := by
  induction ms with
  | nil => rfl
  | cons m ms ih =>
    obtain ⟨hm, hms⟩ := List.forall_mem_cons.mp h
    rw [printMembers, printMembers, hm, ih hms]
    rfl

end

theorem print_compact (d d' : Nat) (t : Tree) : t.print .compact d = t.print .compact d' := by
  induction t using Tree.induct generalizing d d' with
  | null | num | str => simp only [print]
  | bool b => cases b <;> rfl
  | arr ts ih =>
    cases ts with
    | nil => rfl
    | cons t ts =>
      obtain ⟨ht, hts⟩ := List.forall_mem_cons.mp ih
      have hitems := printItems_congr fun t h => hts t h (d + 1) (d' + 1)
      rw [print, print, ht (d + 1) (d' + 1), hitems]
      rfl
  | obj ms ih =>
    cases ms with
    | nil => rfl
    | cons m ms =>
      obtain ⟨hm, hms⟩ := List.forall_mem_cons.mp ih
      have hmembers := printMembers_congr fun m h => hms m h (d + 1) (d' + 1)
      rw [print, print, hm (d + 1) (d' + 1), hmembers]
      rfl

theorem toList_compact (d : Nat) (t : Tree) : t.compact.toList = t.print .compact d := by
  rw [compact, String.toList_ofList]
  exact print_compact 0 d t

theorem append_printItems (d : Nat) (p : List Char) (ts : List Tree) :
    p ++ printItems .compact d ts =
      joinChars ',' (p :: ts.map fun t => t.compact.toList) := by
  induction ts generalizing p with
  | nil => simp only [printItems, List.append_nil, List.map_nil, joinChars]
  | cons t ts ih =>
    rw [List.map_cons, joinChars, ← ih, toList_compact d]
    rfl

theorem compact_arr (ts : List Tree) :
    (Tree.arr ts).compact = "[" ++ joinTexts ',' (ts.map compact) ++ "]" := by
  have hchars : (Tree.arr ts).print .compact 0 =
      '[' :: joinChars ',' (ts.map fun t => t.compact.toList) ++ [']'] := by
    cases ts with
    | nil => rfl
    | cons t ts =>
      rw [List.map_cons, ← append_printItems 1, toList_compact 1]
      simp only [print, Layout.compact, List.append_nil]
      rfl
  rw [compact, hchars, ← String.toList_inj]
  simp [joinTexts, Function.comp_def]

end Tree

/-- the text on one line of an array whose items have these texts -/
structure IsArrayText (text : String) (items : List String) : Prop where
  joined : text = "[" ++ joinTexts ',' items ++ "]"
  read : ∃ ts, Tree.parse? text = some (.arr ts) ∧ ts.map Tree.compact = items

theorem Tree.isArrayText_compact (ts : List Tree) :
    IsArrayText (Tree.arr ts).compact (ts.map Tree.compact) where
  joined := compact_arr ts
  read := ⟨ts, parse?_compact _, rfl⟩

theorem Value.isArrayText_arrayText (vs : List Value) :
    IsArrayText (arrayText vs) (vs.map Value.compact) := by
  have htext : arrayText vs = (Tree.arr (vs.map toTree)).compact := by
    rw [arrayText, compact, toTree, toTrees_eq_map]
  have hitems : vs.map Value.compact = (vs.map toTree).map Tree.compact := by
    rw [List.map_map]
    rfl
  rw [htext, hitems]
  exact Tree.isArrayText_compact (vs.map toTree)

end RestQuery.Json

import Mathlib
import RestQuery.Json.Reader
import RestQuery.Proofs.Json.Literal

/-!
# The text of a tree is read as the tree

In every layout that puts nothing but blanks between the parts of a text.

* `Tree.induct`             induction over trees;
* `Layout.Blank`            such layouts, of which both layouts are;
* `Reader.value_print`      the reader takes the text of a tree, whatever follows it;
* `Tree.parseChars?_print_blanks`   the whole text, whatever blanks follow it.
-/

namespace RestQuery.Json

/-- induction over trees, with the items and members of containers as members of lists -/
theorem Tree.induct {P : Tree → Prop} (null : P .null) (bool : ∀ b, P (.bool b))
    (num : ∀ n, P (.num n)) (str : ∀ cs, P (.str cs))
    (arr : ∀ ts, (∀ t ∈ ts, P t) → P (.arr ts))
    (obj : ∀ ms : List (List CodePoint × Tree), (∀ m ∈ ms, P m.2) → P (.obj ms)) (t : Tree) :
    P t :=
  @Tree.rec P (fun ts => ∀ t ∈ ts, P t) (fun ms => ∀ m ∈ ms, P m.2) (fun m => P m.2)
    null bool num str arr obj
    (fun _ h => absurd h List.not_mem_nil)
    (fun _ _ ht hts => List.forall_mem_cons.mpr ⟨ht, hts⟩)
    (fun _ h => absurd h List.not_mem_nil)
    (fun _ _ hm hms => List.forall_mem_cons.mpr ⟨hm, hms⟩)
    (fun _ _ h => h) t

/-! ## blanks -/

/-- only blanks -/
def Blanks (b : List Char) : Prop := ∀ c ∈ b, Reader.isBlank c = true

/-- only blanks between the parts of a text -/
structure Layout.Blank (l : Layout) : Prop where
  lineBreak : ∀ depth, Blanks (l.lineBreak depth)
  gap : Blanks l.gap

theorem Layout.compact_blank : Layout.compact.Blank where
  lineBreak _ _ hc := absurd hc List.not_mem_nil
  gap _ hc := absurd hc List.not_mem_nil

theorem Layout.pretty_blank : Layout.pretty.Blank where
  lineBreak depth c hc := by
    rcases List.mem_cons.mp hc with rfl | hc
    · rfl
    · rw [(List.mem_replicate.mp hc).2]
      rfl
  gap c hc := by
    rw [List.mem_singleton.mp hc]
    rfl

namespace Reader

theorem skip_cons {c : Char} (h : isBlank c = false) (s : List Char) : skip (c :: s) = c :: s :=
  List.dropWhile_cons_of_neg (by rw [h]; exact Bool.false_ne_true)

theorem skip_blanks {b : List Char} (hb : Blanks b) (s : List Char) : skip (b ++ s) = skip s :=
  List.dropWhile_append_of_pos hb

theorem isBlank_iff (c : Char) :
    isBlank c = true ↔ c = ' ' ∨ c = '\n' ∨ c = '\t' ∨ c = '\r' := by
  simp only [isBlank, Bool.or_eq_true, beq_iff_eq, or_assoc]

/-- a closing bracket ends a number literal, also behind blanks -/
theorem endsNumeral_blanks {b s : List Char} (hb : Blanks b) (hs : EndsNumeral s) :
    EndsNumeral (b ++ s) := by
  cases b with
  | nil => exact hs
  | cons c b =>
    intro d hd
    obtain rfl : c = d := Option.some.inj hd
    have hc := hb c List.mem_cons_self
    rw [isBlank_iff] at hc
    rcases hc with rfl | rfl | rfl | rfl <;> decide

theorem endsNumeral_cons {c : Char} (h : c.isDigit = false ∧ c ≠ '.' ∧ c ≠ 'e' ∧ c ≠ 'E')
    (s : List Char) : EndsNumeral (c :: s) := by
  intro d hd
  obtain rfl : c = d := Option.some.inj hd
  exact h

section
variable {b : List Char} (hb : Blanks b) (fuel : Nat) (s : List Char)
include hb

theorem value_blanks : value fuel (b ++ s) = value fuel s := by
  cases fuel with
  | zero => rfl
  | succ fuel => simp only [value, skip_blanks hb]

theorem items_blanks : items fuel (b ++ s) = items fuel s := by
  cases fuel with
  | zero => rfl
  | succ fuel => simp only [items, value_blanks hb]

theorem members_blanks : members fuel (b ++ s) = members fuel s := by
  cases fuel with
  | zero => rfl
  | succ fuel => simp only [members, memberName, skip_blanks hb]

end

/-! ## literals -/

/-- the characters that a number literal begins with -/
def StartsNumeral (c : Char) : Prop := c = '-' ∨ c.isDigit = true

instance (c : Char) : Decidable (StartsNumeral c) := inferInstanceAs (Decidable (_ ∨ _))

theorem StartsNumeral.ne {c d : Char} (h : StartsNumeral c) (hd : ¬ StartsNumeral d) : c ≠ d :=
  fun e => hd (e ▸ h)

theorem StartsNumeral.isBlank {c : Char} (h : StartsNumeral c) : isBlank c = false := by
  rw [← Bool.not_eq_true, isBlank_iff]
  rintro (hc | hc | hc | hc)
  · exact h.ne (by decide) hc
  · exact h.ne (by decide) hc
  · exact h.ne (by decide) hc
  · exact h.ne (by decide) hc

theorem value_numeral (fuel : Nat) (n : Numeral) {rest : List Char} (h : EndsNumeral rest) :
    value (fuel + 1) (n.chars ++ rest) = some (.num n, rest) := by
  have hread := Numeral.read_chars n h
  obtain ⟨c, s, hchars, hc⟩ := n.chars_head
  rw [hchars, List.cons_append] at hread ⊢
  simp only [value, skip_cons (StartsNumeral.isBlank hc)]
  split
  case h_7 => rw [hread, Option.map_some]
  -- no other tree begins with a minus sign or a digit
  all_goals
    next heq => exact absurd (List.cons.inj heq).1 (StartsNumeral.ne hc (by decide))

theorem value_write (fuel : Nat) (cs : List CodePoint) (rest : List Char) :
    value (fuel + 1) (Quoted.write cs ++ rest) = some (.str cs, rest) := by
  rw [Quoted.write_append]
  simp only [value, skip_cons (show isBlank '"' = false from rfl), Quoted.read_points,
    Option.map_some]

theorem memberName_write (k : List CodePoint) (rest : List Char) :
    memberName (Quoted.write k ++ ':' :: rest) = some (k, rest) := by
  rw [Quoted.write_append]
  simp only [memberName, skip_cons (show isBlank '"' = false from rfl), Quoted.read_points,
    skip_cons (show isBlank ':' = false from rfl)]

/-! ## containers -/

/-- the text of a tree begins with neither a blank nor a closing bracket -/
theorem print_head (l : Layout) (depth : Nat) (t : Tree) :
    ∃ c s, t.print l depth = c :: s ∧ isBlank c = false ∧ c ≠ ']' := by
  cases t with
  | null => exact ⟨'n', _, by rw [Tree.print], rfl, by decide⟩
  | bool b =>
    cases b with
    | true => exact ⟨'t', _, by rw [Tree.print], rfl, by decide⟩
    | false => exact ⟨'f', _, by rw [Tree.print], rfl, by decide⟩
  | num n =>
    obtain ⟨c, s, hchars, hc⟩ := n.chars_head
    exact ⟨c, s, by rw [Tree.print, hchars], StartsNumeral.isBlank hc,
      StartsNumeral.ne hc (by decide)⟩
  | str cs => exact ⟨'"', _, by rw [Tree.print]; rfl, rfl, by decide⟩
  | arr ts =>
    cases ts with
    | nil => exact ⟨'[', _, by rw [Tree.print], rfl, by decide⟩
    | cons t ts => exact ⟨'[', _, by rw [Tree.print]; rfl, rfl, by decide⟩
  | obj ms =>
    cases ms with
    | nil => exact ⟨'{', _, by rw [Tree.print], rfl, by decide⟩
    | cons m ms => exact ⟨'{', _, by rw [Tree.print]; rfl, rfl, by decide⟩

/-- the reader takes the text of the tree, at every depth and whatever follows -/
def ReadsBack (l : Layout) (t : Tree) : Prop :=
  ∀ fuel depth rest, 2 * (t.print l depth).length ≤ fuel → EndsNumeral rest →
    value fuel (t.print l depth ++ rest) = some (t, rest)

section
variable {l : Layout} (hl : l.Blank) (depth : Nat) (rest : List Char)
include hl

theorem closing_ends {c : Char} (h : c.isDigit = false ∧ c ≠ '.' ∧ c ≠ 'e' ∧ c ≠ 'E') :
    EndsNumeral (l.lineBreak depth ++ c :: rest) :=
  endsNumeral_blanks (hl.lineBreak depth) (endsNumeral_cons h rest)

/-- items up to the closing bracket, which may stand on a line of its own -/
theorem items_print (t : Tree) (ts : List Tree) (h : ∀ x ∈ t :: ts, ReadsBack l x) (fuel : Nat)
    (hfuel : 2 * ((t.print l (depth + 1)).length + (Tree.printItems l (depth + 1) ts).length) ≤
      fuel) :
    items (fuel + 1) (t.print l (depth + 1) ++ (Tree.printItems l (depth + 1) ts ++
      (l.lineBreak depth ++ ']' :: rest))) = some (t :: ts, rest) := by
  induction ts generalizing t fuel with
  | nil =>
    have hend := closing_ends hl depth rest (c := ']') (by decide)
    have ht := h t List.mem_cons_self fuel (depth + 1) _ (by omega) hend
    simp only [items, Tree.printItems, List.nil_append, ht, skip_blanks (hl.lineBreak depth),
      skip_cons (show isBlank ']' = false from rfl)]
  | cons t' ts ih =>
    have hlength : (Tree.printItems l (depth + 1) (t' :: ts)).length =
        1 + (l.lineBreak (depth + 1)).length + (t'.print l (depth + 1)).length +
          (Tree.printItems l (depth + 1) ts).length := by
      simp only [Tree.printItems, List.length_append, List.length_cons]
      omega
    obtain ⟨fuel, rfl⟩ : ∃ k, fuel = k + 1 := ⟨fuel - 1, by omega⟩
    have hcomma (s : List Char) : EndsNumeral (',' :: s) := endsNumeral_cons (by decide) s
    have ht (s : List Char) := h t List.mem_cons_self (fuel + 1) (depth + 1) (',' :: s) (by omega)
      (hcomma s)
    have hts := ih t' (fun x hx => h x (List.mem_cons_of_mem _ hx)) fuel (by omega)
    rw [items]
    simp only [Tree.printItems, List.cons_append, List.append_assoc, ht,
      skip_cons (show isBlank ',' = false from rfl), items_blanks (hl.lineBreak (depth + 1)), hts,
      Option.map_some]

theorem members_print (k : List CodePoint) (t : Tree) (ms : List (List CodePoint × Tree))
    (ht : ReadsBack l t) (hms : ∀ m ∈ ms, ReadsBack l m.2) (fuel : Nat)
    (hfuel : 2 * ((t.print l (depth + 1)).length + (Tree.printMembers l (depth + 1) ms).length) ≤
      fuel) :
    members (fuel + 1) (Quoted.write k ++ ':' :: (l.gap ++ (t.print l (depth + 1) ++
      (Tree.printMembers l (depth + 1) ms ++ (l.lineBreak depth ++ '}' :: rest))))) =
      some ((k, t) :: ms, rest) := by
  induction ms generalizing k t fuel with
  | nil =>
    have hend := closing_ends hl depth rest (c := '}') (by decide)
    have hvalue := ht fuel (depth + 1) _ (by omega) hend
    simp only [members, Tree.printMembers, List.nil_append, memberName_write,
      value_blanks hl.gap, hvalue, skip_blanks (hl.lineBreak depth),
      skip_cons (show isBlank '}' = false from rfl)]
  | cons m ms ih =>
    obtain ⟨k', t'⟩ := m
    have hlength : (Tree.printMembers l (depth + 1) ((k', t') :: ms)).length =
        2 + (l.lineBreak (depth + 1)).length + (Quoted.write k').length + l.gap.length +
          (t'.print l (depth + 1)).length + (Tree.printMembers l (depth + 1) ms).length := by
      simp only [Tree.printMembers, List.length_append, List.length_cons]
      omega
    obtain ⟨fuel, rfl⟩ : ∃ k, fuel = k + 1 := ⟨fuel - 1, by omega⟩
    have hcomma (s : List Char) : EndsNumeral (',' :: s) := endsNumeral_cons (by decide) s
    have hvalue (s : List Char) := ht (fuel + 1) (depth + 1) (',' :: s) (by omega) (hcomma s)
    have hrest := ih k' t' (hms (k', t') List.mem_cons_self)
      (fun x hx => hms x (List.mem_cons_of_mem _ hx)) fuel (by omega)
    rw [members]
    simp only [Tree.printMembers, List.cons_append, List.append_assoc, memberName_write,
      value_blanks hl.gap, hvalue, skip_cons (show isBlank ',' = false from rfl),
      members_blanks (hl.lineBreak (depth + 1)), hrest, Option.map_some]

theorem readsBack_arr (t : Tree) (ts : List Tree) (h : ∀ x ∈ t :: ts, ReadsBack l x) :
    ReadsBack l (.arr (t :: ts)) := by
  intro fuel depth rest hfuel hrest
  have hlength : ((Tree.arr (t :: ts)).print l depth).length =
      2 + (l.lineBreak (depth + 1)).length + (t.print l (depth + 1)).length +
        (Tree.printItems l (depth + 1) ts).length + (l.lineBreak depth).length := by
    simp only [Tree.print, List.length_append, List.length_cons, List.length_nil]
    omega
  obtain ⟨fuel, rfl⟩ : ∃ k, fuel = k + 2 := ⟨fuel - 2, by omega⟩
  have hitems := items_print hl depth rest t ts h fuel (by omega)
  obtain ⟨c, s, hprint, hblank, hbracket⟩ := print_head l (depth + 1) t
  rw [hprint] at hitems
  simp only [Tree.print, List.cons_append, List.append_assoc, List.nil_append, value,
    skip_cons (show isBlank '[' = false from rfl), skip_blanks (hl.lineBreak (depth + 1)), hprint,
    skip_cons hblank] at hitems ⊢
  split
  · next heq => exact absurd (List.cons.inj heq).1 hbracket
  · rw [hitems, Option.map_some]

theorem readsBack_obj (k : List CodePoint) (t : Tree) (ms : List (List CodePoint × Tree))
    (ht : ReadsBack l t) (hms : ∀ m ∈ ms, ReadsBack l m.2) : ReadsBack l (.obj ((k, t) :: ms)) := by
  intro fuel depth rest hfuel hrest
  have hlength : ((Tree.obj ((k, t) :: ms)).print l depth).length =
      3 + (l.lineBreak (depth + 1)).length + (Quoted.write k).length + l.gap.length +
        (t.print l (depth + 1)).length + (Tree.printMembers l (depth + 1) ms).length +
        (l.lineBreak depth).length := by
    simp only [Tree.print, List.length_append, List.length_cons, List.length_nil]
    omega
  obtain ⟨fuel, rfl⟩ : ∃ k, fuel = k + 2 := ⟨fuel - 2, by omega⟩
  have hmembers := members_print hl depth rest k t ms ht hms fuel (by omega)
  rw [Quoted.write_append] at hmembers
  simp only [Tree.print, List.cons_append, List.append_assoc, List.nil_append, value,
    skip_cons (show isBlank '{' = false from rfl), skip_blanks (hl.lineBreak (depth + 1)),
    Quoted.write_append, skip_cons (show isBlank '"' = false from rfl)]
  split
  · next heq => exact absurd (List.cons.inj heq).1 (by decide)
  · rw [hmembers, Option.map_some]

theorem value_print (t : Tree) : ReadsBack l t := by
  have hpos (fuel depth : Nat) (t : Tree) (h : 2 * (t.print l depth).length ≤ fuel) :
      ∃ k, fuel = k + 1 := by
    obtain ⟨c, s, hprint, -, -⟩ := print_head l depth t
    rw [hprint, List.length_cons] at h
    exact ⟨fuel - 1, by omega⟩
  induction t using Tree.induct with
  | null =>
    intro fuel depth rest hfuel hrest
    obtain ⟨fuel, rfl⟩ := hpos fuel depth _ hfuel
    simp only [Tree.print, List.cons_append, List.nil_append, value,
      skip_cons (show isBlank 'n' = false from rfl)]
  | bool b =>
    intro fuel depth rest hfuel hrest
    obtain ⟨fuel, rfl⟩ := hpos fuel depth _ hfuel
    cases b with
    | true =>
      simp only [Tree.print, List.cons_append, List.nil_append, value,
        skip_cons (show isBlank 't' = false from rfl)]
    | false =>
      simp only [Tree.print, List.cons_append, List.nil_append, value,
        skip_cons (show isBlank 'f' = false from rfl)]
  | num n =>
    intro fuel depth rest hfuel hrest
    obtain ⟨fuel, rfl⟩ := hpos fuel depth _ hfuel
    rw [Tree.print]
    exact value_numeral fuel n hrest
  | str cs =>
    intro fuel depth rest hfuel hrest
    obtain ⟨fuel, rfl⟩ := hpos fuel depth _ hfuel
    rw [Tree.print]
    exact value_write fuel cs rest
  | arr ts ih =>
    cases ts with
    | nil =>
      intro fuel depth rest hfuel hrest
      obtain ⟨fuel, rfl⟩ := hpos fuel depth _ hfuel
      simp only [Tree.print, List.cons_append, List.nil_append, value,
        skip_cons (show isBlank '[' = false from rfl),
        skip_cons (show isBlank ']' = false from rfl)]
    | cons t ts => exact readsBack_arr hl t ts ih
  | obj ms ih =>
    cases ms with
    | nil =>
      intro fuel depth rest hfuel hrest
      obtain ⟨fuel, rfl⟩ := hpos fuel depth _ hfuel
      simp only [Tree.print, List.cons_append, List.nil_append, value,
        skip_cons (show isBlank '{' = false from rfl),
        skip_cons (show isBlank '}' = false from rfl)]
    | cons m ms =>
      exact readsBack_obj hl m.1 m.2 ms (ih m List.mem_cons_self)
        fun x hx => ih x (List.mem_cons_of_mem _ hx)

end

end Reader

/-! ## whole texts -/

namespace Tree

/-- the text of a tree in any such layout is read as the tree, also in front of blanks -/
theorem parseChars?_print_blanks {l : Layout} (hl : l.Blank) (t : Tree) {b : List Char}
    (hb : Blanks b) : parseChars? (t.print l 0 ++ b) = some t := by
  have hend : EndsNumeral (b ++ []) :=
    Reader.endsNumeral_blanks hb fun c hc => absurd hc (by simp)
  rw [List.append_nil] at hend
  have hskip : Reader.skip (b ++ []) = [] := Reader.skip_blanks hb []
  rw [List.append_nil] at hskip
  have hlength : (t.print l 0 ++ b).length = (t.print l 0).length + b.length :=
    List.length_append
  have hread := Reader.value_print hl t (2 * (t.print l 0 ++ b).length + 2) 0 b (by omega) hend
  unfold parseChars?
  simp only [hread, hskip, List.isEmpty_nil, if_true]

theorem parseChars?_print {l : Layout} (hl : l.Blank) (t : Tree) :
    parseChars? (t.print l 0) = some t := by
  have h := parseChars?_print_blanks hl t (b := []) fun c hc => absurd hc List.not_mem_nil
  rwa [List.append_nil] at h

theorem parse?_compact (t : Tree) : parse? t.compact = some t := by
  unfold parse? compact
  rw [String.toList_ofList]
  exact parseChars?_print Layout.compact_blank t

theorem parse?_pretty (t : Tree) : parse? t.pretty = some t := by
  unfold parse? pretty
  rw [String.toList_ofList]
  exact parseChars?_print Layout.pretty_blank t

/-- a line break behind the text, as printing puts it there, is passed over -/
theorem parse?_pretty_line (t : Tree) : parse? (t.pretty ++ "\n") = some t := by
  have hline : Blanks ['\n'] := fun c hc => by
    rw [List.mem_singleton.mp hc]
    rfl
  unfold parse? pretty
  rw [String.toList_append, String.toList_ofList]
  exact parseChars?_print_blanks Layout.pretty_blank t hline

end Tree

end RestQuery.Json

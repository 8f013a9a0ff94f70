import Mathlib
import RestQuery.Proofs.Compile.ReadParts

/-!
# Lists in one parameter

Columns, sort keys and included keys stand in one parameter each, with a comma between every two.
Nothing in them is marked, so a list can be read back exactly when no entry holds a comma; and a
sort key can be told from its text exactly when no ascending column begins with a minus sign.

* `splitText_joinTexts_eq_iff`   the lists of texts that can be read back;
* `SortKey.ofText`, `readSortKeys`   sort keys as they are read;
* `SortKey.Readable`             the sort keys that can be read back;
* `readSortKeys_eq_iff`          lists of them;
* `Query.ShowsLists`             the lists in the request of a read;
* `comma_lists_read_back`        the three lists of a read.
-/

namespace RestQuery

/-! ## texts -/

theorem splitText_joinTexts_eq_iff (sep : Char) {ps : List String} (hne : ps ≠ []) :
    splitText sep (joinTexts sep ps) = ps ↔ ∀ p ∈ ps, sep ∉ p.toList := by
  refine ⟨fun h p hp => ?_, splitText_joinTexts sep ps hne⟩
  rw [← h] at hp
  exact not_mem_of_mem_splitText hp

/-! ## sort keys -/

namespace SortKey

/-- a column behind a minus sign is descending, any other ascending -/
def ofText (s : String) : SortKey :=
  match s.toList with
  | '-' :: column => ⟨String.ofList column, .desc⟩
  | _ => ⟨s, .asc⟩

/-- no comma, and no minus sign in front of an ascending column -/
structure Readable (k : SortKey) : Prop where
  no_comma : ',' ∉ k.column.toList
  no_minus : k.direction = .asc → k.column.toList.head? ≠ some '-'

theorem ofText_of_minus {s : String} {column : List Char} (h : s.toList = '-' :: column) :
    ofText s = ⟨String.ofList column, .desc⟩ := by
  unfold ofText
  rw [h]
  rfl

theorem ofText_of_not_minus {s : String} (h : s.toList.head? ≠ some '-') :
    ofText s = ⟨s, .asc⟩ := by
  unfold ofText
  split
  · next heq =>
    rw [heq] at h
    exact absurd rfl h
  · rfl

theorem mem_of_mem_column {s : String} {c : Char} (h : c ∈ (ofText s).column.toList) :
    c ∈ s.toList := by
  by_cases hminus : s.toList.head? = some '-'
  · obtain ⟨column, hs⟩ := List.head?_eq_some_iff.mp hminus
    rw [ofText_of_minus hs, String.toList_ofList] at h
    rw [hs]
    exact List.mem_cons_of_mem _ h
  · rw [ofText_of_not_minus hminus] at h
    exact h

theorem text_of_desc (column : String) :
    (SortKey.mk column .desc).text.toList = '-' :: column.toList := by
  rw [text, String.toList_append]
  rfl

theorem comma_mem_text_iff (k : SortKey) : ',' ∈ k.text.toList ↔ ',' ∈ k.column.toList := by
  obtain ⟨column, direction⟩ := k
  cases direction with
  | asc => exact Iff.rfl
  | desc =>
    rw [text_of_desc, List.mem_cons]
    exact or_iff_right (by decide)

/-- only an ascending column can be mistaken, and only for a descending one -/
theorem ofText_text_eq_iff (k : SortKey) :
    ofText k.text = k ↔ (k.direction = .asc → k.column.toList.head? ≠ some '-') := by
  obtain ⟨column, direction⟩ := k
  cases direction with
  | asc =>
    show ofText column = _ ↔ (_ → column.toList.head? ≠ some '-')
    rw [forall_prop_of_true rfl]
    refine ⟨fun h hminus => ?_, ofText_of_not_minus⟩
    obtain ⟨rest, hrest⟩ := List.head?_eq_some_iff.mp hminus
    rw [ofText_of_minus hrest] at h
    cases congrArg direction h
  | desc =>
    have hread : ofText (SortKey.mk column .desc).text = ⟨column, .desc⟩ := by
      rw [ofText_of_minus (text_of_desc column), String.ofList_toList]
    refine iff_of_true hread fun hasc => ?_
    cases hasc

end SortKey

/-- the sort keys of a text with commas between them -/
def readSortKeys (s : String) : List SortKey := (splitText ',' s).map SortKey.ofText

theorem readSortKeys_eq_iff {ks : List SortKey} (hne : ks ≠ []) :
    readSortKeys (joinTexts ',' (ks.map SortKey.text)) = ks ↔ ∀ k ∈ ks, k.Readable := by
  have hne' : ks.map SortKey.text ≠ [] := by simpa using hne
  -- without commas the pieces are the texts, and each text is read on its own
  have hread (hcomma : ∀ k ∈ ks, ',' ∉ k.column.toList) :
      readSortKeys (joinTexts ',' (ks.map SortKey.text)) = ks ↔
        ∀ k ∈ ks, SortKey.ofText k.text = k := by
    have htexts : ∀ s ∈ ks.map SortKey.text, ',' ∉ s.toList := by
      intro s hs
      obtain ⟨k, hk, rfl⟩ := List.mem_map.mp hs
      rw [SortKey.comma_mem_text_iff]
      exact hcomma k hk
    rw [readSortKeys, splitText_joinTexts ',' _ hne' htexts, List.map_map]
    constructor
    · intro h k hk
      exact (List.map_inj_left.mp (h.trans (List.map_id ks).symm)) k hk
    · intro h
      exact (List.map_inj_left.mpr h).trans (List.map_id ks)
  constructor
  · intro h
    have hcomma : ∀ k ∈ ks, ',' ∉ k.column.toList := by
      intro k hk hmem
      rw [← h] at hk
      obtain ⟨s, hs, rfl⟩ := List.mem_map.mp hk
      exact not_mem_of_mem_splitText hs (SortKey.mem_of_mem_column hmem)
    exact fun k hk => ⟨hcomma k hk, (SortKey.ofText_text_eq_iff k).mp ((hread hcomma).mp h k hk)⟩
  · intro h
    exact (hread fun k hk => (h k hk).no_comma).mpr fun k hk =>
      (SortKey.ofText_text_eq_iff k).mpr (h k hk).no_minus

/-! ## requests -/

namespace Query

/-- the lists of a read under their keys, one value each, and when it can be read back -/
structure ShowsLists (q : Query) (r : Request) : Prop where
  sort : q.sortKeys ≠ [] → ∃ v, r.values "sort" = [v] ∧
    (readSortKeys v = q.sortKeys ↔ ∀ k ∈ q.sortKeys, k.Readable)
  properties : ∀ names, q.projection = .columns names → names ≠ [] →
    ∃ v, r.values "properties" = [v] ∧
      (splitText ',' v = names ↔ ∀ name ∈ names, ',' ∉ name.toList)
  expansion : q.expandedKeys ≠ [] → ∃ v, r.values "includeReferencedEntities" = [v] ∧
    (splitText ',' v = q.expandedKeys ↔ ∀ key ∈ q.expandedKeys, ',' ∉ key.toList)

theorem TakenApart.showsLists {q : Query} {r : Request} (h : q.TakenApart r.parameters) :
    q.ShowsLists r where
  sort hne :=
    ⟨_, h.values_of_mem (by decide) ((h.sort _).mpr ⟨hne, rfl⟩), readSortKeys_eq_iff hne⟩
  properties names hnames hne :=
    ⟨_, h.values_of_mem (by decide) ((h.properties _).mpr ⟨names, hnames, hne, rfl⟩),
      splitText_joinTexts_eq_iff ',' hne⟩
  expansion hne :=
    ⟨_, h.values_of_mem (by decide) ((h.expansion _).mpr ⟨hne, rfl⟩),
      splitText_joinTexts_eq_iff ',' hne⟩

end Query

/-- under the names of any dialect the lists stand in the request, in this order -/
theorem lists_sublist_of_read {p : Provider} {q : Query} {a : Addressing} {r : Request}
    (hm : q.mutation = .read) (hcount : q.countOnly = false) (h : compile p q a = .ok r) :
    (projectionParameters p.dialect q.projection ++ sortParameters p.dialect q.sortKeys ++
      includeParameters p.dialect q.expandedKeys).Sublist r.parameters := by
  obtain ⟨ps, page, -, -, rfl⟩ := basis_of_read hm h
  rw [readRequest_list p.dialect hcount]
  refine List.Sublist.append ?_ (List.Sublist.refl _)
  refine List.Sublist.trans ?_ (List.sublist_append_left _ _)
  rw [List.append_assoc]
  exact List.sublist_append_right _ _

/--
**When lists can be read back.**  Cut at the commas, with a minus sign for descending, the text of
some sort keys gives these keys back exactly when no column holds a comma and no ascending one
begins with a minus sign.  Columns and included keys come back exactly when none holds a comma.  An
accepted read carries the texts of its lists, and no other values under their keys.
-/
theorem comma_lists_read_back :
    (∀ (d : Dialect) (ks : List SortKey), ks ≠ [] →
      ∃ v, sortParameters d ks = [(d.orderKey, v)] ∧
        (readSortKeys v = ks ↔ ∀ k ∈ ks, k.Readable)) ∧
    (∀ (d : Dialect) (names : List String), names ≠ [] →
      ∃ v, projectionParameters d (.columns names) = [(d.columnsKey, v)] ∧
        includeParameters d names = [(d.expansionKey, v)] ∧
        (splitText ',' v = names ↔ ∀ name ∈ names, ',' ∉ name.toList)) ∧
    ∀ (p : Provider) (q : Query) (a : Addressing) (r : Request), compile p q a = .ok r →
      q.mutation = .read → q.countOnly = false →
      (projectionParameters p.dialect q.projection ++ sortParameters p.dialect q.sortKeys ++
        includeParameters p.dialect q.expandedKeys).Sublist r.parameters ∧
      (p.dialect = .standard → a = {} → q.ShowsLists r) := by
  refine ⟨fun d ks hne => ?_, fun d names hne => ?_, fun p q a r h hm hcount => ?_⟩
  · have hks : ¬ ks.isEmpty = true := by rwa [List.isEmpty_iff]
    refine ⟨_, ?_, readSortKeys_eq_iff hne⟩
    rw [sortParameters, if_neg hks]
  · have hnames : ¬ names.isEmpty = true := by rwa [List.isEmpty_iff]
    refine ⟨_, ?_, ?_, splitText_joinTexts_eq_iff ',' hne⟩
    · rw [projectionParameters, if_neg hnames]
    · rw [includeParameters, if_neg hnames]
  · refine ⟨lists_sublist_of_read hm hcount h, ?_⟩
    rintro hd rfl
    exact (takenApart_of_read hd hm hcount h).showsLists

/-- a descending column that begins with a minus sign, and an ascending one without a name -/
def sortedInvoices : Query where
  resource := "invoice"
  sortKeys := [⟨"-a", .desc⟩, ⟨"", .asc⟩]
  projection := .columns ["", "-a"]
  expandedKeys := ["a,b"]
  mutation := .read

theorem comma_lists_read_back_sortedInvoices :
    (∃ v, sortParameters .standard [⟨"-a", .asc⟩] = [("sort", v)] ∧
      readSortKeys v ≠ [⟨"-a", .asc⟩]) ∧
    (∃ v, includeParameters .standard ["a,b"] = [("includeReferencedEntities", v)] ∧
      splitText ',' v ≠ ["a,b"]) ∧
    ∃ r v names, compile {} sortedInvoices = .ok r ∧
      r.values "sort" = [v] ∧ readSortKeys v = sortedInvoices.sortKeys ∧
      r.values "properties" = [names] ∧ splitText ',' names = ["", "-a"] := by
  obtain ⟨hsorts, hnames, hreads⟩ := comma_lists_read_back
  obtain ⟨v, hv, hback⟩ := hsorts .standard [⟨"-a", .asc⟩] (by decide)
  obtain ⟨w, -, hw, hcut⟩ := hnames .standard ["a,b"] (by decide)
  have h : compile {} sortedInvoices = .ok
      { method := .get, path := "invoice"
        parameters := [("properties", ",-a"), ("sort", "--a,"),
          ("includeReferencedEntities", "a,b")] } := by cbv
  have hshows : sortedInvoices.ShowsLists _ := (hreads {} sortedInvoices {} _ h rfl rfl).2 rfl rfl
  obtain ⟨sort, hsort, hsorted⟩ := hshows.sort (by decide)
  obtain ⟨names, hproperties, hcolumns⟩ := hshows.properties ["", "-a"] rfl (by decide)
  have hreadable : ∀ k ∈ sortedInvoices.sortKeys, k.Readable := by
    intro k hk
    rcases List.mem_cons.mp hk with rfl | hk
    · exact ⟨by decide, by decide⟩
    · obtain rfl := List.mem_singleton.mp hk
      exact ⟨by decide, fun _ => by decide⟩
  refine ⟨⟨v, hv, fun h => ?_⟩, ⟨w, hw, fun h => ?_⟩, _, sort, names, h, hsort,
    hsorted.mpr hreadable, hproperties, hcolumns.mpr (by decide)⟩
  · exact (hback.mp h _ List.mem_cons_self).no_minus rfl rfl
  · exact hcut.mp h _ List.mem_cons_self (by decide)

end RestQuery

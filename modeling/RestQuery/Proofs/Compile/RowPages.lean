import Mathlib
import RestQuery.Proofs.Compile.ReadParts

/-!
# Rows on pages

Pages of a positive size part the rows: every row lies on exactly one of them.  A limit and an
offset ask for the page that holds the row of the offset.  Its number is a word, except for the
last row of all on pages of one row.

* `HoldsRow`                  a page holds a row, in exact numbers;
* `existsUnique_holdsRow`     every row lies on exactly one page;
* `Page.Found`                what a positive limit comes to, given the number of that page;
* `Query.CarriesPage`, `Query.ShowsPage`   size and number of the page in the request of a read;
* `rows_on_pages`             limits, offsets and requests together.
-/

namespace RestQuery

/-- among pages of this size, counted from 1, the one with this number holds the row -/
structure HoldsRow (size number row : Nat) : Prop where
  counted : 1 ≤ number
  first_le : (number - 1) * size ≤ row
  lt_next : row < number * size

namespace HoldsRow

variable {size number row : Nat}

theorem size_pos (h : HoldsRow size number row) : 0 < size :=
  Nat.pos_of_mul_pos_left (Nat.zero_lt_of_lt h.lt_next)

theorem iff_div (hs : 0 < size) : HoldsRow size number row ↔ number = row / size + 1 := by
  constructor
  · rintro ⟨hcounted, hfirst, hnext⟩
    obtain ⟨before, rfl⟩ : ∃ before, number = before + 1 := ⟨number - 1, by omega⟩
    rw [Nat.add_sub_cancel] at hfirst
    rw [Nat.div_eq_of_lt_le hfirst hnext]
  · rintro rfl
    refine ⟨Nat.le_add_left 1 _, Nat.div_mul_le_self row size, ?_⟩
    rw [Nat.succ_mul]
    exact Nat.lt_div_mul_add hs

theorem number_of_first {k : Nat} (h : HoldsRow size number row) (hrow : row = k * size) :
    number = k + 1 := by
  rw [(iff_div h.size_pos).mp h, hrow, Nat.mul_div_cancel k h.size_pos]

end HoldsRow

theorem existsUnique_holdsRow {size : Nat} (hs : 0 < size) (row : Nat) :
    ∃! number, HoldsRow size number row :=
  ⟨_, (HoldsRow.iff_div hs).mpr rfl, fun _ h => (HoldsRow.iff_div hs).mp h⟩

/-! ## limits and offsets -/

namespace Page

/-- what a positive limit and an offset come to, given the number of the page with that row -/
structure Found (size offset : UInt64) (number : Nat) : Prop where
  /-- the page, where its number is a word -/
  page : number < UInt64.size → ∃ page, ofRows (some size) offset = .ok (some page) ∧
    page.size = size ∧ page.number.toNat = number
  /-- an error, exactly where it is none -/
  error : (∃ e, ofRows (some size) offset = .error e ∧ e.kind = .invalidPagination) ↔
    UInt64.size ≤ number
  /-- this happens to the last row of all, on pages of one row -/
  last : UInt64.size ≤ number ↔ size = 1 ∧ offset = 18446744073709551615
  /-- full pages before the row are counted -/
  aligned : ∀ k, offset.toNat = k * size.toNat → number = k + 1

section
variable {size offset : UInt64} (hs : 0 < size)
include hs

theorem off_some_iff : Off (some size) offset ↔ size = 1 ∧ offset = 18446744073709551615 := by
  have hlast : some size = some 1 ∧ offset.toNat = 18446744073709551615 ↔
      size = 1 ∧ offset = 18446744073709551615 := by
    rw [Option.some.injEq, ← UInt64.toNat_inj (a := offset)]
    rfl
  rw [Off, hlast]
  exact or_iff_right fun h => not_unlimited rfl hs h.2

/-- only the last row of all, on pages of one row, lies on a page whose number is no word -/
theorem le_number_iff :
    UInt64.size ≤ offset.toNat / size.toNat + 1 ↔ size = 1 ∧ offset = 18446744073709551615 := by
  constructor
  · intro h
    by_contra hlast
    rw [← UInt64.toNat_inj (a := offset)] at hlast
    have hlt := full_pages_lt size offset hs hlast
    rw [UInt64.toNat_div] at hlt
    exact absurd hlt (Nat.not_lt.mpr h)
  · rintro ⟨rfl, rfl⟩
    decide

theorem found_of_holdsRow {number : Nat} (h : HoldsRow size.toNat number offset.toNat) :
    Found size offset number := by
  have hnumber := (HoldsRow.iff_div h.size_pos).mp h
  have hlast : UInt64.size ≤ number ↔ size = 1 ∧ offset = 18446744073709551615 := by
    rw [hnumber, le_number_iff hs]
  have hoff : Off (some size) offset ↔ UInt64.size ≤ number := by
    rw [off_some_iff hs, hlast]
  have hpage (hlt : ¬ UInt64.size ≤ number) : ∃ page, ofRows (some size) offset = .ok (some page) ∧
      page.size = size ∧ page.number.toNat = number := by
    obtain ⟨page, hok, hof⟩ := ofRows_of_not_off (some size) offset fun ho => hlt (hoff.mp ho)
    cases page with
    | none => exact absurd hof (not_unlimited rfl hs)
    | some page =>
      obtain ⟨hsize, -, hpage⟩ := hof
      obtain rfl := Option.some.inj hsize
      exact ⟨page, hok, rfl, hpage.trans hnumber.symm⟩
  refine ⟨fun hlt => hpage (Nat.not_le.mpr hlt), ⟨?_, ?_⟩, hlast, fun k => h.number_of_first⟩
  · rintro ⟨e, he, -⟩
    by_contra hlt
    obtain ⟨page, hok, -⟩ := hpage hlt
    rw [he] at hok
    cases hok
  · exact fun hle => ofRows_of_off (some size) offset (hoff.mpr hle)

end

theorem isOf_of_ofRows {limit : Option UInt64} {offset : UInt64} {page : Option Page}
    (h : ofRows limit offset = .ok page) : IsOf limit offset page := by
  by_cases hoff : Off limit offset
  · obtain ⟨e, he, -⟩ := ofRows_of_off limit offset hoff
    rw [he] at h
    cases h
  · obtain ⟨page', hok, hof⟩ := ofRows_of_not_off limit offset hoff
    rw [hok] at h
    exact Except.ok.inj h ▸ hof

theorem ofRows_unlimited {limit : Option UInt64} (h : limit = none ∨ limit = some 0)
    (offset : UInt64) :
    (offset = 0 → ofRows limit offset = .ok none) ∧
      (0 < offset → ∃ e, ofRows limit offset = .error e ∧ e.kind = .invalidPagination) := by
  refine ⟨?_, fun hpos => ofRows_of_off limit offset (.inl ⟨hpos, h⟩)⟩
  rintro rfl
  rcases h with rfl | rfl <;> rfl

end Page

/-! ## requests -/

namespace Query

/-- the same query without limit and offset -/
def unpaged (q : Query) : Query := { q with limit := none, offset := 0 }

/-- size and number of the page, and nothing else of limit and offset, between these parameters -/
structure CarriesPage (q : Query) (d : Dialect) (before after ps : List Parameter) : Prop where
  unlimited : q.limit = none ∨ q.limit = some 0 → ps = before ++ after
  page : ∀ size number, q.limit = some size → HoldsRow size.toNat number q.offset.toNat →
    ps = before ++ [(d.rowsPerPageKey, Nat.repr size.toNat),
      (d.pageNumberKey, Nat.repr number)] ++ after

/-- size and number of the page under their keys, once each -/
structure ShowsPage (q : Query) (r : Request) : Prop where
  unlimited : q.limit = none ∨ q.limit = some 0 → r.values "pageSize" = [] ∧ r.values "page" = []
  page : ∀ size number, q.limit = some size → HoldsRow size.toNat number q.offset.toNat →
    r.values "pageSize" = [Nat.repr size.toNat] ∧ r.values "page" = [Nat.repr number]

variable {q : Query}

theorem carriesPage {page : Option Page} (h : Page.IsOf q.limit q.offset page) (d : Dialect)
    (before after : List Parameter) :
    q.CarriesPage d before after (before ++ pageParameters d page ++ after) where
  unlimited hlimit := by
    cases page with
    | none => rw [pageParameters, List.append_nil]
    | some page =>
      obtain ⟨hsome, hpos, -⟩ := h
      exact absurd hlimit (Page.not_unlimited hsome hpos)
  page size number hlimit hrow := by
    have hpos : 0 < size := UInt64.lt_iff_toNat_lt.mpr hrow.size_pos
    have hnumber := (HoldsRow.iff_div hrow.size_pos).mp hrow
    cases page with
    | none => exact absurd h (Page.not_unlimited hlimit hpos)
    | some page =>
      obtain ⟨hsome, -, hpage⟩ := h
      rw [hlimit] at hsome
      obtain rfl := Option.some.inj hsome
      rw [pageParameters, hpage, hnumber]

theorem TakenApart.showsPage {r : Request} (h : q.TakenApart r.parameters) : q.ShowsPage r where
  unlimited hlimit := by
    have hnone : ¬ ∃ size, q.limit = some size ∧ 0 < size := by
      rintro ⟨size, hsome, hpos⟩
      exact Page.not_unlimited hsome hpos hlimit
    constructor
    · refine values_of_forall_not_mem fun v hv => hnone ?_
      obtain ⟨size, hsome, hpos, -⟩ := (h.pageSize v).mp hv
      exact ⟨size, hsome, hpos⟩
    · refine values_of_forall_not_mem fun v hv => hnone ?_
      obtain ⟨size, hsome, hpos, -⟩ := (h.page v).mp hv
      exact ⟨size, hsome, hpos⟩
  page size number hlimit hrow := by
    have hpos : 0 < size := UInt64.lt_iff_toNat_lt.mpr hrow.size_pos
    have hnumber := (HoldsRow.iff_div hrow.size_pos).mp hrow
    rw [hnumber]
    exact ⟨h.values_of_mem (by decide) ((h.pageSize _).mpr ⟨size, hlimit, hpos, rfl⟩),
      h.values_of_mem (by decide) ((h.page _).mpr ⟨size, hlimit, hpos, rfl⟩)⟩

end Query

/-- the page is the only part that limit and offset have in a read -/
theorem readBasis_unpaged {p : Provider} {q : Query} {a : Addressing} {ps : List Parameter}
    {page : Option Page} (h : readBasis p q a = .ok (ps, page)) :
    Page.IsOf q.limit q.offset page ∧ readBasis p q.unpaged a = .ok (ps, none) := by
  obtain ⟨howner, hps, hpage⟩ := (readBasis_eq_ok_iff p q a ps page).mp h
  exact ⟨Page.isOf_of_ofRows hpage,
    (readBasis_eq_ok_iff p q.unpaged a ps none).mpr ⟨howner, hps, rfl⟩⟩

section
variable {p : Provider} {q : Query} {r : Request} (hm : q.mutation = .read)
  (hcount : q.countOnly = false)
include hm hcount

/-- without limit and offset a read is accepted as well, and has all other parameters -/
theorem carriesPage_of_read {a : Addressing} (h : compile p q a = .ok r) :
    ∃ before after, compile p q.unpaged a = .ok { r with parameters := before ++ after } ∧
      q.CarriesPage p.dialect before after r.parameters := by
  obtain ⟨ps, page, hj, hbasis, rfl⟩ := basis_of_read hm h
  obtain ⟨hof, hunpaged⟩ := readBasis_unpaged hbasis
  have hcount' : q.unpaged.countOnly = false := hcount
  rw [readRequest_list p.dialect hcount]
  refine ⟨_, _, ?_, Query.carriesPage hof p.dialect _ _⟩
  rw [compile_of_read p q.unpaged hj hm, compileReading_eq_map, hunpaged]
  show Except.ok (readRequest p.dialect q.unpaged ps none) = _
  rw [readRequest_list p.dialect hcount', pageParameters, List.append_nil]
  rfl

end

/--
**Pages hold the row that is asked for.**  Every row lies on exactly one page.  A positive limit
gives the page of that size that holds the row of the offset, or an error where the number of this
page is no word, which is the case for the last row of all on pages of one row only.  No limit, or
0, allows no offset.  An accepted read carries size and number of its page in decimal, and nothing
else of limit and offset.
-/
theorem rows_on_pages :
    (∀ size : UInt64, 0 < size →
      (∀ row, ∃! number, HoldsRow size.toNat number row) ∧
      ∀ (offset : UInt64) (number : Nat), HoldsRow size.toNat number offset.toNat →
        Page.Found size offset number) ∧
    (∀ limit : Option UInt64, limit = none ∨ limit = some 0 → ∀ offset : UInt64,
      (offset = 0 → Page.ofRows limit offset = .ok none) ∧
      (0 < offset → ∃ e, Page.ofRows limit offset = .error e ∧ e.kind = .invalidPagination)) ∧
    ∀ (p : Provider) (q : Query) (a : Addressing) (r : Request), compile p q a = .ok r →
      q.mutation = .read → q.countOnly = false →
      (∃ before after, compile p q.unpaged a = .ok { r with parameters := before ++ after } ∧
        q.CarriesPage p.dialect before after r.parameters) ∧
      (p.dialect = .standard → a = {} → q.ShowsPage r) := by
  refine ⟨fun size hs => ⟨?_, fun offset number h => Page.found_of_holdsRow hs h⟩,
    fun limit h offset => Page.ofRows_unlimited h offset, ?_⟩
  · exact existsUnique_holdsRow (UInt64.lt_iff_toNat_lt.mp hs)
  · intro p q a r h hm hcount
    refine ⟨carriesPage_of_read hm hcount h, ?_⟩
    rintro hd rfl
    exact (takenApart_of_read hd hm hcount h).showsPage

/-- invoices from the 26th on, ten on a page -/
def laterInvoices : Query where
  resource := "invoice"
  limit := some 10
  offset := 25
  mutation := .read

theorem rows_on_pages_laterInvoices :
    HoldsRow 10 3 25 ∧
      (∃ page, Page.ofRows (some 10) 25 = .ok (some page) ∧ page.size = 10 ∧
        page.number.toNat = 3) ∧
      HoldsRow 1 18446744073709551616 18446744073709551615 ∧
      (∃ e, Page.ofRows (some 1) 18446744073709551615 = .error e ∧
        e.kind = .invalidPagination) ∧
      ∃ r, compile {} laterInvoices = .ok r ∧ r.values "pageSize" = ["10"] ∧
        r.values "page" = ["3"] := by
  obtain ⟨hpages, -, hreads⟩ := rows_on_pages
  have hrow : HoldsRow 10 3 25 := ⟨by decide, by decide, by decide⟩
  have hlast : HoldsRow 1 18446744073709551616 18446744073709551615 :=
    ⟨by decide, by decide, by decide⟩
  have hpage : Page.Found 10 25 3 := (hpages 10 (by decide)).2 25 3 hrow
  have hnone : Page.Found 1 18446744073709551615 18446744073709551616 :=
    (hpages 1 (by decide)).2 _ _ hlast
  have h : compile {} laterInvoices = .ok
      { method := .get, path := "invoice"
        parameters := [("pageSize", "10"), ("page", "3")] } := by cbv
  have hshows : laterInvoices.ShowsPage _ := (hreads {} laterInvoices {} _ h rfl rfl).2 rfl rfl
  exact ⟨hrow, hpage.page (by decide), hlast, hnone.error.mpr (by decide), _, h,
    hshows.page 10 3 rfl hrow⟩

end RestQuery

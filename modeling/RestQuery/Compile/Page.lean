import RestQuery.Compile.Error

/-!
# Pages

The provider addresses rows by pages, which are counted from 1.

* `Page.ofRows`   the page of a limit and an offset: the one that holds the first row asked for.
-/

namespace RestQuery

/-- a page and how many rows it has -/
structure Page where
  size : UInt64
  number : UInt64
deriving DecidableEq, Inhabited

namespace Page

/-- without a limit there is no page, and then no row can be skipped either -/
def withoutLimit (offset : UInt64) : Except CompileError (Option Page) :=
  if offset = 0 then .ok none else .error (.offsetWithoutLimit offset)

/-- the page of a limit and an offset; a limit of 0 is none -/
def ofRows (limit : Option UInt64) (offset : UInt64) : Except CompileError (Option Page) :=
  match limit with
  | some size =>
    if size = 0 then withoutLimit offset
    else
      let before := offset / size
      if before.toNat + 1 < UInt64.size then .ok (some { size, number := before + 1 })
      else .error (.pageOutOfRange offset size)
  | none => withoutLimit offset

end Page

end RestQuery

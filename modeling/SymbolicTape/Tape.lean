import SymbolicTape.Error
import SymbolicTape.Value

/-!
# Symbolic tapes

A symbolic tape has a fixed number of cells, kept in pages of equal size.  A
change to one cell rebuilds its page and keeps all others, so tapes that come
from one another have most of their pages in common.  The last page may reach
past the last cell; the surplus is never looked at and always holds zero.
-/

namespace SymbolicTape

/-- The number of cells in a page. -/
abbrev pageSize : Nat := 256

/-- A page of cells. -/
abbrev Page := Vector Value pageSize

/-- The number of pages that hold a number of cells. -/
def pageCount (capacity : Nat) : Nat := (capacity + 255) / pageSize

/-- The page of an existing cell exists. -/
theorem div_pageSize_lt_pageCount
    {index capacity : Nat}
    (cellExists : index < capacity) :
    index / pageSize < pageCount capacity := by
  unfold pageCount pageSize
  omega

/-- The place of a cell in its page exists. -/
theorem mod_pageSize_lt (index : Nat) : index % pageSize < pageSize :=
  Nat.mod_lt index (by decide)

/-- A tape of symbolic values. -/
structure Tape where
  /-- The number of cells. -/
  capacity : Nat
  /-- The pages that hold them. -/
  pages : Vector Page (pageCount capacity)
  deriving DecidableEq

namespace Tape

/-- The page of which all cells hold zero. -/
def blankPage : Page := Vector.replicate pageSize Value.zero

/-- The tape of which all cells hold zero. -/
def blank (capacity : Nat) : Tape :=
  ⟨capacity, Vector.replicate (pageCount capacity) blankPage⟩

/-- The cell at a pointer, if the pointer lies on the tape. -/
def index?
    (tape : Tape)
    (pointer : Int64) : Except Fault (Fin tape.capacity) :=
  if onTape : 0 ≤ pointer ∧ pointer.toNatClampNeg < tape.capacity then
    .ok ⟨pointer.toNatClampNeg, onTape.2⟩
  else
    .error (.memoryAccess pointer tape.capacity)

/-- The value of a cell. -/
def cell (tape : Tape) (index : Fin tape.capacity) : Value :=
  have pageExists := div_pageSize_lt_pageCount index.isLt
  have placeExists := mod_pageSize_lt index.val
  tape.pages[index.val / pageSize][index.val % pageSize]

/-- The pages with one cell changed. -/
def storeIn
    (pages : Vector Page count)
    (index : Nat)
    (value : Value) : Vector Page count :=
  ⟨pages.toArray.modify (index / pageSize) fun page =>
      page.set (index % pageSize) value (mod_pageSize_lt index),
    by simp⟩

/-- Only the page of the cell is changed. -/
theorem getElem_storeIn
    (pages : Vector Page count)
    (index : Nat)
    (value : Value)
    {page : Nat}
    (pageExists : page < count) :
    (storeIn pages index value)[page] =
      if index / pageSize = page then
        pages[page].set (index % pageSize) value (mod_pageSize_lt index)
      else
        pages[page] := by
  unfold storeIn
  rw [Vector.getElem_mk, Array.getElem_modify]
  rfl

/-- The tape with a value, made canonical, stored in a cell. -/
def store
    (tape : Tape)
    (index : Fin tape.capacity)
    (value : Value) : Tape :=
  ⟨tape.capacity, storeIn tape.pages index value.canonicalize⟩

/-- A stored value is found in its cell, and all other cells are as before. -/
@[simp] theorem cell_store
    (tape : Tape)
    (index other : Fin tape.capacity)
    (value : Value) :
    (tape.store index value).cell other =
      if other = index then value.canonicalize else tape.cell other := by
  unfold cell store
  dsimp only
  rw [getElem_storeIn]
  by_cases samePage : index.val / pageSize = other.val / pageSize
  · rw [if_pos samePage, Vector.getElem_set]
    by_cases samePlace : index.val % pageSize = other.val % pageSize
    · have same : other = index := by
        apply Fin.ext
        rw [← Nat.div_add_mod other.val pageSize, ← samePage, ← samePlace,
          Nat.div_add_mod]
      rw [if_pos samePlace, if_pos same]
    · have differ : other ≠ index := fun same => samePlace (by rw [same])
      rw [if_neg samePlace, if_neg differ]
  · have differ : other ≠ index := fun same => samePage (by rw [same])
    rw [if_neg samePage, if_neg differ]

/-- The value at a pointer. -/
def get (tape : Tape) (pointer : Int64) : Except Fault Value :=
  (tape.index? pointer).map tape.cell

/-- The tape with a value, made canonical, stored at a pointer. -/
def set
    (tape : Tape)
    (pointer : Int64)
    (value : Value) : Except Fault Tape :=
  (tape.index? pointer).map fun index => tape.store index value

/-- All values of the tape in order, page by page.  What the last page holds
past the last cell is left out. -/
def cells (tape : Tape) : List Value :=
  tape.pages.flatten.toList.take tape.capacity

/-- The cells of a page that do not hold the known byte zero, with their
indices, of which `first` is the first. -/
def nonZeroIn (first : Nat) (page : Page) : List (Nat × Value) :=
  if page = blankPage then
    []
  else
    (page.toList.zipIdx first).filterMap fun (value, index) =>
      if value = Value.zero then none else some (index, value)

/-- The cells that do not hold the known byte zero, with their indices. -/
def nonZeroCells (tape : Tape) : List (Nat × Value) :=
  (tape.pages.toList.zipIdx.flatMap fun (page, number) =>
      nonZeroIn (number * pageSize) page).filter
    fun (index, _) => index < tape.capacity

end Tape
end SymbolicTape

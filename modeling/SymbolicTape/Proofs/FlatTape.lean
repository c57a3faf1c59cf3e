import Mathlib.Algebra.Group.Nat.Defs
import SymbolicTape.Tape

/-!
# A paged tape is an array of its cells

A tape holds an array if the array lists its cells and if all that its pages
hold behind the last cell is zero.  The blank tape holds an array of zeros, and
storing a value on a tape is storing it in the array.  Since nothing but zeros is
kept behind the last cell, two tapes are equal exactly if they have the same
number of cells and the same value at every pointer.

A pointer has 64 bits, so on a tape of more than `2 ^ 63` cells there are some
that no pointer leads to.  They are zero forever.
-/

namespace SymbolicTape

/-! ## Pointers -/

theorem int64_zero_le_ofNat {index : Nat} (inRange : index < 2 ^ 63) :
    0 ≤ Int64.ofNat index := by
  rw [Int64.le_iff_toInt_le, Int64.toInt_ofNat_of_lt inRange]
  exact Int.natCast_nonneg index

/-- Pointers that lead to the same cell are the same. -/
theorem int64_eq_of_toNatClampNeg_eq
    {first second : Int64}
    (firstNonneg : 0 ≤ first)
    (secondNonneg : 0 ≤ second)
    (same : first.toNatClampNeg = second.toNatClampNeg) :
    first = second := by
  rw [Int64.le_iff_toInt_le, Int64.toInt_zero] at firstNonneg secondNonneg
  apply Int64.toInt_inj.mp
  unfold Int64.toNatClampNeg at same
  omega

/-! ## Arrays of cells -/

/-- A tape as the array of its cells. -/
abbrev FlatTape := Array Value

namespace FlatTape

/-- The array of which all cells hold zero. -/
def blank (capacity : Nat) : FlatTape := Array.replicate capacity Value.zero

/-- The value at a pointer. -/
def get (cells : FlatTape) (pointer : Int64) : Except Fault Value :=
  if onTape : 0 ≤ pointer ∧ pointer.toNatClampNeg < cells.size then
    .ok cells[pointer.toNatClampNeg]
  else
    .error (.memoryAccess pointer cells.size)

/-- The array with a value, made canonical, stored at a pointer.  If the pointer
does not lead to a cell, nothing is stored. -/
def set (cells : FlatTape) (pointer : Int64) (value : Value) : FlatTape :=
  if 0 ≤ pointer then
    cells.setIfInBounds pointer.toNatClampNeg value.canonicalize
  else
    cells

end FlatTape

namespace Tape

/-! ## Pages -/

/-- A tape holds the cells of an array and zeros behind them.  There are zeros,
too, where no pointer leads to. -/
structure Holds (tape : Tape) (cells : FlatTape) : Prop where
  capacity : tape.capacity = cells.size
  pages : ∀ {page place : Nat}
    (pageExists : page < pageCount tape.capacity)
    (placeExists : place < pageSize),
    tape.pages[page][place] =
      cells.getD (page * pageSize + place) Value.zero
  beyond : ∀ {index : Nat}, 2 ^ 63 ≤ index ->
    cells.getD index Value.zero = Value.zero

theorem holds_blank (capacity : Nat) :
    (blank capacity).Holds (FlatTape.blank capacity) := by
  have allZero (index : Nat) :
      (FlatTape.blank capacity).getD index Value.zero = Value.zero := by
    simp only [FlatTape.blank, Array.getD_eq_getD_getElem?,
      Array.getElem?_replicate]
    split <;> rfl
  refine ⟨?_, ?_, ?_⟩
  · simp [blank, FlatTape.blank]
  · intro page place pageExists placeExists
    simp [allZero, blank, blankPage]
  · intro index far
    exact allZero index

/-- A cell is told by its page and its place in the page. -/
theorem eq_iff_div_and_mod
    {index page place : Nat}
    (placeExists : place < pageSize) :
    index = page * pageSize + place ↔
      index / pageSize = page ∧ index % pageSize = place := by
  unfold pageSize at *
  omega

section Holds

variable {tape : Tape} {cells : FlatTape}

/-- The value of a cell is the one in the array. -/
theorem Holds.cell
    (holds : tape.Holds cells)
    (index : Fin tape.capacity) :
    tape.cell index = cells.getD index Value.zero := by
  have cell_eq := holds.pages (div_pageSize_lt_pageCount index.isLt)
    (mod_pageSize_lt index.val)
  rw [Nat.div_add_mod'] at cell_eq
  exact cell_eq

/-- Storing a value on the tape stores it in the array. -/
theorem Holds.store
    (holds : tape.Holds cells)
    {index : Fin tape.capacity}
    (inRange : index.val < 2 ^ 63)
    (value : Value) :
    (tape.store index value).Holds
      (cells.setIfInBounds index value.canonicalize) := by
  have getD_eq (other : Nat) :
      (cells.setIfInBounds index value.canonicalize).getD other Value.zero =
        if index.val = other then
          value.canonicalize
        else
          cells.getD other Value.zero := by
    have inBounds : index.val < cells.size := holds.capacity ▸ index.isLt
    simp only [Array.getD_eq_getD_getElem?, Array.getElem?_setIfInBounds,
      inBounds, if_true]
    split <;> rfl
  refine ⟨?_, ?_, ?_⟩
  · rw [Array.size_setIfInBounds]
    exact holds.capacity
  · intro page place pageExists placeExists
    have stored := getElem_storeIn tape.pages index value.canonicalize
      pageExists
    have before := holds.pages pageExists placeExists
    refine (congrArg (fun changed : Page => changed[place]) stored).trans ?_
    rw [getD_eq, ← before]
    simp only [eq_iff_div_and_mod placeExists]
    by_cases samePage : index.val / pageSize = page
    · simp [samePage, Vector.getElem_set]
    · simp [samePage]
  · intro other far
    rw [getD_eq, if_neg (by omega)]
    exact holds.beyond far

/-- The value at a pointer is the one in the array. -/
theorem Holds.get (holds : tape.Holds cells) (pointer : Int64) :
    tape.get pointer = cells.get pointer := by
  unfold Tape.get index? FlatTape.get
  by_cases onTape : 0 ≤ pointer ∧ pointer.toNatClampNeg < tape.capacity
  · have alsoOnTape : 0 ≤ pointer ∧ pointer.toNatClampNeg < cells.size :=
      holds.capacity ▸ onTape
    rw [dif_pos onTape, dif_pos alsoOnTape]
    have cell_eq := holds.cell ⟨pointer.toNatClampNeg, onTape.2⟩
    simp only [Array.getD_eq_getD_getElem?, alsoOnTape.2,
      Array.getElem?_eq_getElem, Option.getD_some] at cell_eq
    exact congrArg Except.ok cell_eq
  · have alsoOff : ¬(0 ≤ pointer ∧ pointer.toNatClampNeg < cells.size) :=
      holds.capacity ▸ onTape
    rw [dif_neg onTape, dif_neg alsoOff]
    exact congrArg (fun size => Except.error (Fault.memoryAccess pointer size))
      holds.capacity

/-- The cells are read off page by page. -/
theorem Holds.cells_eq (holds : tape.Holds cells) :
    tape.cells = cells.toList := by
  have enough : tape.capacity ≤ pageCount tape.capacity * pageSize := by
    unfold pageCount pageSize
    omega
  apply List.ext_getElem
  · simp only [Tape.cells, List.length_take, Vector.length_toList,
      Array.length_toList, ← holds.capacity]
    omega
  · intro index inTape inArray
    have inBounds : index < cells.size := by simpa using inArray
    have inPages : index < pageCount tape.capacity * pageSize := by
      have capacity_eq := holds.capacity
      omega
    have page := holds.pages (Nat.div_lt_of_lt_mul (Nat.mul_comm _ _ ▸ inPages))
      (mod_pageSize_lt index)
    rw [Nat.div_add_mod', Array.getD_eq_getD_getElem?,
      Array.getElem?_eq_getElem inBounds, Option.getD_some] at page
    simp only [Tape.cells, List.getElem_take, Vector.getElem_toList,
      Array.getElem_toList]
    rw [Vector.getElem_flatten, page]

/-- What the array holds behind its last cell and where no pointer leads to does
not matter, because there is nothing but zero. -/
theorem Holds.getD_eq_of_get_eq
    {other : Tape}
    {otherCells : FlatTape}
    (holds : tape.Holds cells)
    (otherHolds : other.Holds otherCells)
    (capacity_eq : tape.capacity = other.capacity)
    (get_eq : ∀ pointer, tape.get pointer = other.get pointer)
    (index : Nat) :
    cells.getD index Value.zero = otherCells.getD index Value.zero := by
  have size_eq : cells.size = otherCells.size := by
    rw [← holds.capacity, capacity_eq, otherHolds.capacity]
  by_cases far : 2 ^ 63 ≤ index
  · rw [holds.beyond far, otherHolds.beyond far]
  · have near : index < 2 ^ 63 := by omega
    have here := get_eq (Int64.ofNat index)
    rw [holds.get, otherHolds.get] at here
    simp only [FlatTape.get, int64_zero_le_ofNat near, true_and,
      Int64.toNatClampNeg_ofNat_of_lt near, size_eq] at here
    rw [Array.getD_eq_getD_getElem?, Array.getD_eq_getD_getElem?]
    by_cases inBounds : index < otherCells.size
    · simpa [inBounds, size_eq] using here
    · simp [inBounds, size_eq]

/-- Two tapes are equal exactly if they have as many cells and the same value at
every pointer. -/
theorem Holds.eq_iff
    {other : Tape}
    {otherCells : FlatTape}
    (holds : tape.Holds cells)
    (otherHolds : other.Holds otherCells) :
    tape = other ↔
      tape.capacity = other.capacity ∧
        ∀ pointer, tape.get pointer = other.get pointer := by
  constructor
  · rintro rfl
    exact ⟨rfl, fun _ => rfl⟩
  · rintro ⟨capacity_eq, get_eq⟩
    have getD_eq := holds.getD_eq_of_get_eq otherHolds capacity_eq get_eq
    obtain ⟨capacity, pages⟩ := tape
    obtain ⟨otherCapacity, otherPages⟩ := other
    obtain rfl : capacity = otherCapacity := capacity_eq
    congr 1
    ext page pageExists place placeExists
    rw [holds.pages pageExists placeExists, getD_eq,
      otherHolds.pages pageExists placeExists]

end Holds
end Tape
end SymbolicTape

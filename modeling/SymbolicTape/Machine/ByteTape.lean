import SymbolicTape.Error

/-!
# Tapes of bytes

The tape of the concrete machine holds bytes.  It either has a fixed number of
cells or grows to the right whenever a cell past its end is looked at.  Cells
left of the first one do not exist on either kind of tape.
-/

namespace SymbolicTape

/-- Where a tape of bytes ends on the right. -/
inductive TapeBound
  /-- The tape grows on demand. -/
  | growable
  /-- The tape has exactly this many cells. -/
  | fixed (capacity : Nat)
  deriving DecidableEq

/-- A tape of bytes. -/
structure ByteTape where
  /-- Whether the tape may grow. -/
  bound : TapeBound
  /-- The cells that exist so far. -/
  cells : Array UInt8
  deriving DecidableEq

namespace ByteTape

/-- The tape before a run: all cells that exist hold zero. -/
def blank : TapeBound -> ByteTape
  | .growable => ⟨.growable, #[]⟩
  | .fixed capacity => ⟨.fixed capacity, Array.replicate capacity 0⟩

/-- The tape on which the cell at `pointer` exists, grown if it has to be.
The number of cells in the fault is the one before any growth. -/
def reach (tape : ByteTape) (pointer : Int64) : Except Fault ByteTape :=
  if pointer < 0 then
    .error (.memoryAccess pointer tape.cells.size)
  else if pointer.toNatClampNeg < tape.cells.size then
    .ok tape
  else
    match tape with
    | ⟨.growable, cells⟩ =>
        .ok ⟨.growable, cells.rightpad (pointer.toNatClampNeg + 1) 0⟩
    | ⟨.fixed _, cells⟩ => .error (.memoryAccess pointer cells.size)

/-- The byte at `pointer`, with the tape that looking at it leaves behind. -/
def get
    (tape : ByteTape)
    (pointer : Int64) : Except Fault (UInt8 × ByteTape) := do
  let tape <- tape.reach pointer
  return (tape.cells.getD pointer.toNatClampNeg 0, tape)

/-- The tape with `byte` stored at `pointer`. -/
def set
    (tape : ByteTape)
    (pointer : Int64)
    (byte : UInt8) : Except Fault ByteTape := do
  let ⟨bound, cells⟩ <- tape.reach pointer
  return ⟨bound, cells.setIfInBounds pointer.toNatClampNeg byte⟩

end ByteTape
end SymbolicTape

import SymbolicTape.Error

/-!
# Lists of located errors

Errors are collected in a list.  Adding one by its location keeps the list
sorted by location, and errors of equal location stay in the order in which
they were added; adding one that is located already leaves the order alone.
-/

namespace SymbolicTape

/-- A collection of located errors, in the order in which it is shown. -/
structure ErrorList (ε : Type) where
  /-- The errors of the collection. -/
  payloads : List (Located ε)

namespace ErrorList

/-- The collection without errors. -/
def empty : ErrorList ε := ⟨[]⟩

/-- The collection of a single error. -/
def single (error : Located ε) : ErrorList ε := ⟨[error]⟩

/-- The errors sorted by location; equal locations keep their order. -/
def sorted (errors : List (Located ε)) : ErrorList ε :=
  ⟨errors.mergeSort fun first second => first.location ≤ second.location⟩

/-- Add an error after all others. -/
def add (error : Located ε) (errors : ErrorList ε) : ErrorList ε :=
  ⟨errors.payloads ++ [error]⟩

/-- Add an error at its place in the order of locations, sorting the whole
collection by location. -/
def addLocated (error : Located ε) (errors : ErrorList ε) : ErrorList ε :=
  sorted (errors.add error).payloads

/-- Add the errors of a list one after another, each at its place. -/
def collect (errors : List (Located ε)) : ErrorList ε :=
  errors.foldl (fun collected error => collected.addLocated error) empty

@[simp] theorem collect_nil : collect ([] : List (Located ε)) = empty := rfl

@[simp] theorem collect_concat
    (errors : List (Located ε))
    (error : Located ε) :
    collect (errors ++ [error]) = (collect errors).addLocated error := by
  simp [collect]

/-- Convert every error, keeping locations and order. -/
def map (convert : ε -> δ) (errors : ErrorList ε) : ErrorList δ :=
  ⟨errors.payloads.map (Located.map convert)⟩

/-- The collection in reverse order. -/
def reverse (errors : ErrorList ε) : ErrorList ε :=
  ⟨errors.payloads.reverse⟩

/-- The number of errors. -/
def size (errors : ErrorList ε) : Nat := errors.payloads.length

/-- Whether there are no errors. -/
def isEmpty (errors : ErrorList ε) : Bool := errors.payloads.isEmpty

/-- A header with the number of errors, then one error on each line. -/
def render (message : ε -> String) (errors : ErrorList ε) : String :=
  if errors.isEmpty then
    "Encountered no errors"
  else
    "Encountered " ++ toString errors.size ++ " errors:\n"
      ++ String.join (errors.payloads.map fun error =>
        error.render message ++ "\n")

end ErrorList
end SymbolicTape

/-!
# Worklists

A worklist holds what is still to be explored, in a row.  New entries go to the
back.  Depth first, the next entry is taken from the back, and breadth first,
from the front.

The row is kept in two halves, so that both ends are at hand.  Its view is
`Worklist.toList`, the row from front to back.
-/

namespace SymbolicTape

/-- The order in which entries are taken. -/
inductive Strategy
  /-- The newest entry first. -/
  | depthFirst
  /-- The oldest entry first. -/
  | breadthFirst
  deriving DecidableEq, Inhabited

/-- A row of entries with both ends at hand. -/
structure Worklist (α : Type) where
  /-- The order in which entries are taken. -/
  strategy : Strategy
  /-- The first entries, front to back. -/
  front : List α := []
  /-- The other entries, back to front. -/
  back : List α := []
  /-- The number of entries. -/
  size : Nat := 0
  /-- The number of entries is right. -/
  size_eq : size = front.length + back.length := by rfl

namespace Worklist

/-- The row from front to back. -/
def toList (worklist : Worklist α) : List α :=
  worklist.front ++ worklist.back.reverse

@[simp] theorem length_toList (worklist : Worklist α) :
    worklist.toList.length = worklist.size := by
  simp [toList, worklist.size_eq]

/-- The worklist without entries. -/
def empty (strategy : Strategy) : Worklist α := { strategy := strategy }

@[simp] theorem toList_empty (strategy : Strategy) :
    (empty strategy : Worklist α).toList = [] := rfl

/-- Whether there are no entries. -/
def isEmpty (worklist : Worklist α) : Bool := worklist.size == 0

/-- Add an entry at the back. -/
def pushBack (worklist : Worklist α) (entry : α) : Worklist α :=
  { worklist with
    back := entry :: worklist.back
    size := worklist.size + 1
    size_eq := by simp [worklist.size_eq, Nat.add_assoc] }

@[simp] theorem toList_pushBack (worklist : Worklist α) (entry : α) :
    (worklist.pushBack entry).toList = worklist.toList ++ [entry] := by
  simp [toList, pushBack]

@[simp] theorem size_pushBack (worklist : Worklist α) (entry : α) :
    (worklist.pushBack entry).size = worklist.size + 1 := rfl

/-- Add an entry at the front. -/
def pushFront (worklist : Worklist α) (entry : α) : Worklist α :=
  { worklist with
    front := entry :: worklist.front
    size := worklist.size + 1
    size_eq := by simp [worklist.size_eq, Nat.add_right_comm] }

@[simp] theorem toList_pushFront (worklist : Worklist α) (entry : α) :
    (worklist.pushFront entry).toList = entry :: worklist.toList := by
  simp [toList, pushFront]

/-- The last entry and the row before it. -/
def popBack? (worklist : Worklist α) : Option (α × Worklist α) :=
  match backCase : worklist.back with
  | entry :: back =>
      some (entry, {
        strategy := worklist.strategy
        front := worklist.front
        back := back
        size := worklist.size - 1
        size_eq := by simp [worklist.size_eq, backCase, Nat.add_succ_sub_one] })
  | [] =>
      match frontCase : worklist.front.reverse with
      | [] => none
      | entry :: back =>
          some (entry, {
            strategy := worklist.strategy
            back := back
            size := worklist.size - 1
            size_eq := by
              have length_eq := congrArg List.length frontCase
              simp only [List.length_reverse, List.length_cons] at length_eq
              simp [worklist.size_eq, backCase, length_eq] })

/-- The first entry and the row behind it. -/
def popFront? (worklist : Worklist α) : Option (α × Worklist α) :=
  match frontCase : worklist.front with
  | entry :: front =>
      some (entry, {
        strategy := worklist.strategy
        front := front
        back := worklist.back
        size := worklist.size - 1
        size_eq := by
          simp [worklist.size_eq, frontCase, Nat.add_right_comm] })
  | [] =>
      match backCase : worklist.back.reverse with
      | [] => none
      | entry :: front =>
          some (entry, {
            strategy := worklist.strategy
            front := front
            size := worklist.size - 1
            size_eq := by
              have length_eq := congrArg List.length backCase
              simp only [List.length_reverse, List.length_cons] at length_eq
              simp [worklist.size_eq, frontCase, length_eq] })

/-- Taking the last entry splits it off the row. -/
theorem toList_of_popBack?
    {worklist rest : Worklist α}
    {entry : α}
    (popped : worklist.popBack? = some (entry, rest)) :
    worklist.toList = rest.toList ++ [entry] := by
  unfold popBack? at popped
  split at popped
  · rename_i back backCase
    cases popped
    simp [toList, backCase]
  · rename_i backCase
    split at popped
    · cases popped
    · rename_i back frontCase
      cases popped
      have front_eq := congrArg List.reverse frontCase
      simp only [List.reverse_reverse, List.reverse_cons] at front_eq
      simp [toList, backCase, front_eq]

/-- Taking the first entry splits it off the row. -/
theorem toList_of_popFront?
    {worklist rest : Worklist α}
    {entry : α}
    (popped : worklist.popFront? = some (entry, rest)) :
    worklist.toList = entry :: rest.toList := by
  unfold popFront? at popped
  split at popped
  · rename_i front frontCase
    cases popped
    simp [toList, frontCase]
  · rename_i frontCase
    split at popped
    · cases popped
    · rename_i front backCase
      cases popped
      simp [toList, frontCase, backCase]

/-- The entry that is next, and the worklist without it. -/
def take? (worklist : Worklist α) : Option (α × Worklist α) :=
  match worklist.strategy with
  | .depthFirst => worklist.popBack?
  | .breadthFirst => worklist.popFront?

/-- Taking an entry leaves one entry less. -/
theorem size_of_take?
    {worklist rest : Worklist α}
    {entry : α}
    (taken : worklist.take? = some (entry, rest)) :
    worklist.size = rest.size + 1 := by
  rw [← length_toList, ← length_toList]
  unfold take? at taken
  split at taken
  · rw [toList_of_popBack? taken]
    simp
  · rw [toList_of_popFront? taken]
    simp

/-- Add a new entry. -/
def push (worklist : Worklist α) (entry : α) : Worklist α :=
  worklist.pushBack entry

/-- Return an entry that was taken, so that it is next again. -/
def putBack (worklist : Worklist α) (entry : α) : Worklist α :=
  match worklist.strategy with
  | .depthFirst => worklist.pushBack entry
  | .breadthFirst => worklist.pushFront entry

/-- Add the two sides of a fork, so that the first one is taken before the
second. -/
def pushFork (worklist : Worklist α) (first second : α) : Worklist α :=
  match worklist.strategy with
  | .depthFirst => (worklist.pushBack second).pushBack first
  | .breadthFirst => (worklist.pushBack first).pushBack second

/-- Add the sides of a fork that there are. -/
def pushSides (worklist : Worklist α) : Option α -> Option α -> Worklist α
  | some first, some second => worklist.pushFork first second
  | some single, none => worklist.push single
  | none, some single => worklist.push single
  | none, none => worklist

end Worklist
end SymbolicTape

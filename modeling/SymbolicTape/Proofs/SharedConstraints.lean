import Mathlib.Logic.Function.Basic
import SymbolicTape.Constraint.Shared

/-!
# Constraints that share their clauses are lists of clauses

Two constraints of a family are compared from the newest clause on, and the
comparison ends at the first addition that both hold.  This is sound because an
addition is never made twice: what was there when a serial number was given out
is there in every constraint that holds this number.

The invariant is therefore a record of the family, which has for every serial
number the clauses up to that addition.  An operation on the family only adds to
the record, under a number that no constraint holds yet.  A constraint that
keeps to a record can be compared as the list of its clauses.
-/

namespace SymbolicTape

/-! ## Building families -/

/-- A way to append a constraint to a family. -/
inductive ConstraintOperation
  /-- Append a constraint without clauses. -/
  | create
  /-- Append a copy of a constraint. -/
  | copy (index : Nat)
  /-- Append a constraint with the clauses of another one and then more. -/
  | extend (index : Nat) (clauses : List Predicate)

/-- Carry out an operation on a family. -/
def ConstraintFamily.apply
    (family : ConstraintFamily) : ConstraintOperation -> ConstraintFamily
  | .create => family.create
  | .copy index => family.copy index
  | .extend index clauses => family.extend index clauses

/-- The family that a sequence of operations builds. -/
def ConstraintFamily.build
    (operations : List ConstraintOperation) : ConstraintFamily :=
  operations.foldl ConstraintFamily.apply {}

/-- A row of lists of clauses, each of which is kept apart from the others. -/
abbrev ClauseLists := Array (List Predicate)

namespace ClauseLists

/-- The list at an index; there are only empty lists past the last. -/
def list (lists : ClauseLists) (index : Nat) : List Predicate :=
  lists.getD index []

/-- Carry out an operation on a row of lists. -/
def apply (lists : ClauseLists) : ConstraintOperation -> ClauseLists
  | .create => lists.push []
  | .copy index => lists.push (lists.list index)
  | .extend index clauses => lists.push (lists.list index ++ clauses)

/-- The row of lists that a sequence of operations builds. -/
def build (operations : List ConstraintOperation) : ClauseLists :=
  operations.foldl apply #[]

end ClauseLists

/-! ## Records of additions -/

namespace SharedConstraint

/-- The clauses, in the order in which they were added. -/
def clauses (constraint : SharedConstraint) : List Predicate :=
  constraint.toConstraint.clauses

theorem clauses_eq_reverse (constraint : SharedConstraint) :
    constraint.clauses =
      (constraint.newestFirst.map SharedClause.clause).reverse := rfl

@[simp] theorem clauses_and
    (constraint : SharedConstraint)
    (serial : Nat)
    (clause : Predicate) :
    (constraint.and serial clause).clauses =
      constraint.clauses ++ [clause] := by
  simp [clauses_eq_reverse, SharedConstraint.and]

/-- A record has for each addition in a list of clauses, newest first, this
clause and all clauses before it. -/
def Recorded (record : Nat -> List Predicate) : List SharedClause -> Prop
  | [] => True
  | newest :: older =>
      record newest.serial = newest.clause :: older.map SharedClause.clause ∧
        Recorded record older

theorem Recorded.drop
    {record : Nat -> List Predicate}
    {list : List SharedClause}
    (recorded : Recorded record list)
    (count : Nat) :
    Recorded record (list.drop count) := by
  induction count generalizing list with
  | zero => exact recorded
  | succ count inductionHypothesis =>
      cases list with
      | nil => exact recorded
      | cons newest older => exact inductionHypothesis recorded.2

/-- Only the additions of a list of clauses matter to its record. -/
theorem Recorded.congr
    {record other : Nat -> List Predicate}
    {list : List SharedClause}
    (recorded : Recorded record list)
    (same : ∀ node ∈ list, other node.serial = record node.serial) :
    Recorded other list := by
  induction list with
  | nil => exact recorded
  | cons newest older inductionHypothesis =>
      obtain ⟨newestSame, olderSame⟩ := List.forall_mem_cons.mp same
      exact ⟨newestSame.trans recorded.1,
        inductionHypothesis recorded.2 olderSame⟩

/-- Comparing recorded lists finds out whether they have the same clauses. -/
theorem sameClauses_iff
    {record : Nat -> List Predicate}
    {first second : List SharedClause}
    (firstRecorded : Recorded record first)
    (secondRecorded : Recorded record second) :
    sameClauses first second = true ↔
      first.map SharedClause.clause = second.map SharedClause.clause := by
  fun_induction sameClauses first second with
  | case1 => simp
  | case2 newest older other olderThanOther inductionHypothesis =>
      have olderSame := inductionHypothesis firstRecorded.2 secondRecorded.2
      rw [Bool.or_eq_true, Bool.and_eq_true, beq_iff_eq, beq_iff_eq, olderSame,
        List.map_cons, List.map_cons, List.cons.injEq]
      refine or_iff_right_of_imp ?_
      intro sameSerial
      -- One addition has one entry in the record, with all clauses before it.
      have sameEntry := firstRecorded.1
      rw [sameSerial, secondRecorded.1] at sameEntry
      exact List.cons.inj sameEntry.symm
  | case3 first second notBothEmpty notBothCons =>
      cases first with
      | nil =>
          cases second with
          | nil => exact absurd rfl (notBothEmpty rfl)
          | cons => simp
      | cons newest older =>
          cases second with
          | nil => simp
          | cons other olderThanOther =>
              exact absurd rfl
                (notBothCons newest older other olderThanOther rfl)

/-- A constraint that keeps to a record of the additions below a number. -/
structure KeepsTo
    (record : Nat -> List Predicate)
    (bound : Nat)
    (constraint : SharedConstraint) : Prop where
  recorded : Recorded record constraint.newestFirst
  below : ∀ node ∈ constraint.newestFirst, node.serial < bound
  length : constraint.length = constraint.newestFirst.length

namespace KeepsTo

variable {record : Nat -> List Predicate} {bound : Nat}
variable {constraint other : SharedConstraint}

theorem empty (record : Nat -> List Predicate) (bound : Nat) :
    KeepsTo record bound {} :=
  ⟨True.intro, List.forall_mem_nil _, rfl⟩

/-- An entry for a new addition does not matter to the constraints so far. -/
theorem update
    (keeps : constraint.KeepsTo record bound)
    (entry : List Predicate) :
    constraint.KeepsTo (Function.update record bound entry) (bound + 1) where
  recorded := by
    apply keeps.recorded.congr
    intro node member
    exact Function.update_of_ne (Nat.ne_of_lt (keeps.below node member)) _ _
  below := by
    intro node member
    exact Nat.lt_succ_of_lt (keeps.below node member)
  length := keeps.length

/-- The constraint with one more clause keeps to the record with one more
entry. -/
theorem and
    (keeps : constraint.KeepsTo record bound)
    (clause : Predicate) :
    (constraint.and bound clause).KeepsTo
      (Function.update record bound
        (clause :: constraint.newestFirst.map SharedClause.clause))
      (bound + 1) where
  recorded := ⟨Function.update_self _ _ _, (keeps.update _).recorded⟩
  below := List.forall_mem_cons.mpr
    ⟨Nat.lt_succ_self bound, (keeps.update []).below⟩
  length := congrArg Nat.succ keeps.length

theorem length_clauses (keeps : constraint.KeepsTo record bound) :
    constraint.length = constraint.clauses.length := by
  rw [keeps.length]
  simp [clauses_eq_reverse]

/-- Constraints are equal if they have the same clauses. -/
theorem equals_iff
    (keeps : constraint.KeepsTo record bound)
    (otherKeeps : other.KeepsTo record bound) :
    constraint.equals other = true ↔ constraint.clauses = other.clauses := by
  unfold equals
  rw [Bool.and_eq_true, beq_iff_eq,
    sameClauses_iff keeps.recorded otherKeeps.recorded, clauses_eq_reverse,
    clauses_eq_reverse, List.reverse_inj]
  refine and_iff_right_of_imp ?_
  intro sameClauses
  rw [keeps.length, otherKeeps.length]
  simpa using congrArg List.length sameClauses

/-- A constraint extends another one if it begins with its clauses. -/
theorem isExtendedBy_iff
    (keeps : constraint.KeepsTo record bound)
    (otherKeeps : other.KeepsTo record bound) :
    constraint.isExtendedBy other = true ↔
      constraint.clauses <+: other.clauses := by
  unfold isExtendedBy
  rw [Bool.and_eq_true, decide_eq_true_iff,
    sameClauses_iff keeps.recorded (otherKeeps.recorded.drop _),
    clauses_eq_reverse, clauses_eq_reverse, List.reverse_prefix,
    List.suffix_iff_eq_drop, List.map_drop, keeps.length, otherKeeps.length,
    List.length_map, List.length_map]
  refine and_iff_right_of_imp ?_
  intro isRest
  have length_eq := congrArg List.length isRest
  rw [List.length_map, List.length_drop, List.length_map] at length_eq
  omega

/-- Constraints that share their newest addition have the same clauses. -/
theorem clauses_eq_of_sharesClausesWith
    (keeps : constraint.KeepsTo record bound)
    (otherKeeps : other.KeepsTo record bound)
    (shared : constraint.sharesClausesWith other = true) :
    constraint.clauses = other.clauses := by
  have recorded := keeps.recorded
  have otherRecorded := otherKeeps.recorded
  unfold sharesClausesWith at shared
  rw [clauses_eq_reverse, clauses_eq_reverse]
  split at shared
  · rename_i empty otherEmpty
    rw [empty, otherEmpty]
  · rename_i newest older otherNewest otherOlder nonempty otherNonempty
    rw [nonempty] at recorded ⊢
    rw [otherNonempty] at otherRecorded ⊢
    rw [beq_iff_eq] at shared
    rw [List.map_cons, List.map_cons, ← recorded.1, shared, otherRecorded.1]
  · cases shared

end KeepsTo

/-- The constraint with more clauses, added under consecutive numbers. -/
def extended
    (constraint : SharedConstraint)
    (serial : Nat) : List Predicate -> SharedConstraint
  | [] => constraint
  | clause :: rest => (constraint.and serial clause).extended (serial + 1) rest

theorem clauses_extended
    (constraint : SharedConstraint)
    (serial : Nat)
    (added : List Predicate) :
    (constraint.extended serial added).clauses =
      constraint.clauses ++ added := by
  induction added generalizing constraint serial with
  | nil => simp [extended]
  | cons clause rest inductionHypothesis =>
      rw [extended, inductionHypothesis, clauses_and, List.append_assoc,
        List.singleton_append]

/-- A constraint is extended by clauses that are added to the record, and all
constraints so far keep to that record too. -/
theorem KeepsTo.exists_extended
    {record : Nat -> List Predicate}
    {bound : Nat}
    {constraint : SharedConstraint}
    (keeps : constraint.KeepsTo record bound)
    (added : List Predicate) :
    ∃ longer : Nat -> List Predicate,
      (constraint.extended bound added).KeepsTo longer
          (bound + added.length) ∧
        ∀ {other : SharedConstraint}, other.KeepsTo record bound ->
          other.KeepsTo longer (bound + added.length) := by
  induction added generalizing constraint record bound with
  | nil => exact ⟨record, keeps, fun otherKeeps => otherKeeps⟩
  | cons clause rest inductionHypothesis =>
      obtain ⟨longer, extendedKeeps, othersKeep⟩ :=
        inductionHypothesis (keeps.and clause)
      rw [Nat.add_right_comm] at extendedKeeps othersKeep
      exact ⟨longer, extendedKeeps,
        fun otherKeeps => othersKeep (otherKeeps.update _)⟩

end SharedConstraint

/-! ## Families -/

namespace ConstraintFamily

theorem addToNewest_of_push
    {family : ConstraintFamily}
    {older : Array SharedConstraint}
    {newest : SharedConstraint}
    (members_eq : family.members = older.push newest)
    (clause : Predicate) :
    family.addToNewest clause =
      ⟨older.push (newest.and family.nextSerial clause),
        family.nextSerial + 1⟩ := by
  unfold addToNewest
  rw [members_eq, Array.size_push, Nat.add_sub_cancel]
  congr 1
  apply Array.ext
  · simp
  · intro index inRow inPushed
    rw [Array.getElem_modify, Array.getElem_push, Array.getElem_push]
    have atMost : index ≤ older.size := by
      rw [Array.size_push] at inPushed
      exact Nat.le_of_lt_succ inPushed
    by_cases isNewest : older.size = index
    · simp [isNewest]
    · have isOlder : index < older.size := by omega
      simp [isNewest, isOlder]

/-- The family with one more constraint, which has the clauses of a given one
and then more. -/
def push
    (family : ConstraintFamily)
    (constraint : SharedConstraint)
    (added : List Predicate) : ConstraintFamily :=
  ⟨family.members.push (constraint.extended family.nextSerial added),
    family.nextSerial + added.length⟩

theorem foldl_addToNewest
    {family : ConstraintFamily}
    {older : Array SharedConstraint}
    {newest : SharedConstraint}
    (members_eq : family.members = older.push newest)
    (added : List Predicate) :
    added.foldl addToNewest family =
      push ⟨older, family.nextSerial⟩ newest added := by
  induction added generalizing family newest with
  | nil =>
      obtain ⟨members, nextSerial⟩ := family
      obtain rfl := members_eq
      rfl
  | cons clause rest inductionHypothesis =>
      rw [List.foldl_cons, addToNewest_of_push members_eq,
        inductionHypothesis rfl]
      simp [push, SharedConstraint.extended, Nat.add_assoc, Nat.add_comm 1]

theorem extend_eq_push
    (family : ConstraintFamily)
    (index : Nat)
    (added : List Predicate) :
    family.extend index added = family.push (family.member index) added :=
  foldl_addToNewest rfl added

section Push

variable (family : ConstraintFamily) (constraint : SharedConstraint)
variable (added : List Predicate)

/-- A constraint that is appended leaves all others as they were. -/
theorem member_push_of_lt
    {index : Nat}
    (isOld : index < family.members.size) :
    (family.push constraint added).member index = family.member index := by
  simp [push, member, Array.getD_eq_getD_getElem?, Array.getElem?_push,
    Nat.ne_of_lt isOld]

theorem member_push_size :
    (family.push constraint added).member family.members.size =
      constraint.extended family.nextSerial added := by
  simp [push, member]

end Push

/-- The members of a family keep to a record, and each has the clauses of its
own list. -/
structure Mirrors
    (family : ConstraintFamily)
    (record : Nat -> List Predicate)
    (lists : ClauseLists) : Prop where
  keeps : ∀ constraint ∈ family.members,
    constraint.KeepsTo record family.nextSerial
  clauses : family.members.map SharedConstraint.clauses = lists

section Mirrors

variable {family : ConstraintFamily} {record : Nat -> List Predicate}
variable {lists : ClauseLists}

theorem Mirrors.keepsTo_member
    (mirrors : family.Mirrors record lists)
    (index : Nat) :
    (family.member index).KeepsTo record family.nextSerial := by
  unfold member
  rw [Array.getD_eq_getD_getElem?]
  cases found : family.members[index]? with
  | none => exact .empty record family.nextSerial
  | some constraint =>
      exact mirrors.keeps constraint (Array.mem_of_getElem? found)

theorem Mirrors.clauses_member
    (mirrors : family.Mirrors record lists)
    (index : Nat) :
    (family.member index).clauses = lists.list index := by
  unfold member ClauseLists.list
  rw [← mirrors.clauses, Array.getD_eq_getD_getElem?,
    Array.getD_eq_getD_getElem?, Array.getElem?_map]
  cases family.members[index]? with
  | none => rfl
  | some constraint => rfl

/-- A constraint that is appended gets a list of its own. -/
theorem Mirrors.exists_push
    {constraint : SharedConstraint}
    (mirrors : family.Mirrors record lists)
    (keeps : constraint.KeepsTo record family.nextSerial)
    (added : List Predicate) :
    ∃ longer, (family.push constraint added).Mirrors longer
      (lists.push (constraint.clauses ++ added)) := by
  obtain ⟨longer, extendedKeeps, othersKeep⟩ := keeps.exists_extended added
  refine ⟨longer, ?_, ?_⟩
  · intro member isMember
    rcases Array.mem_push.mp isMember with old | rfl
    · exact othersKeep (mirrors.keeps member old)
    · exact extendedKeeps
  · rw [push, Array.map_push, mirrors.clauses,
      SharedConstraint.clauses_extended]

/-- Every operation appends a constraint to the family and its list to the row
of lists. -/
theorem Mirrors.exists_apply
    (mirrors : family.Mirrors record lists)
    (operation : ConstraintOperation) :
    ∃ longer, (family.apply operation).Mirrors longer
      (lists.apply operation) := by
  cases operation with
  | create => exact mirrors.exists_push (.empty record family.nextSerial) []
  | copy index =>
      have copied := mirrors.exists_push (mirrors.keepsTo_member index) []
      rwa [List.append_nil, mirrors.clauses_member] at copied
  | extend index added =>
      have extended := mirrors.exists_push (mirrors.keepsTo_member index) added
      rwa [← extend_eq_push, mirrors.clauses_member] at extended

end Mirrors

theorem exists_mirrors_build (operations : List ConstraintOperation) :
    ∃ record, (build operations).Mirrors record
      (ClauseLists.build operations) := by
  refine List.foldl_rel
    (r := fun family lists => ∃ record, Mirrors family record lists) ?_ ?_
  · refine ⟨fun _ => [], ?_, Array.map_empty⟩
    intro constraint isMember
    exact absurd isMember (Array.not_mem_empty constraint)
  · intro operation _ family lists kept
    obtain ⟨record, mirrors⟩ := kept
    exact mirrors.exists_apply operation

/-- The members of a family of constraints behave as lists of clauses. -/
structure BehavesAs
    (family : ConstraintFamily)
    (lists : ClauseLists) : Prop where
  /-- There is a list for every member, and a member for every list. -/
  size : family.members.size = lists.size
  /-- A member has the clauses of its list. -/
  clauses : ∀ index,
    (family.member index).toConstraint.clauses = lists.list index
  /-- The length of a member is the number of its clauses. -/
  length : ∀ index,
    (family.member index).length =
      (family.member index).toConstraint.clauses.length
  /-- A clause that is added to a member makes a new member, which has the
  clauses of the old one and then the new clause, and leaves all others as they
  were. -/
  extended : ∀ index clause,
    let after := family.extend index [clause]
    after.members.size = family.members.size + 1 ∧
      (after.member family.members.size).toConstraint.clauses =
        (family.member index).toConstraint.clauses ++ [clause] ∧
      ∀ other < family.members.size, after.member other = family.member other
  /-- A copy of a member has the same clauses, and leaves all others as they
  were. -/
  copied : ∀ index,
    let after := family.copy index
    after.members.size = family.members.size + 1 ∧
      after.member family.members.size = family.member index ∧
      ∀ other < family.members.size, after.member other = family.member other
  /-- Members are equal if they have the same clauses. -/
  equals_iff : ∀ first second,
    (family.member first).equals (family.member second) = true ↔
      (family.member first).toConstraint.clauses =
        (family.member second).toConstraint.clauses
  /-- A member extends another one if it begins with its clauses. -/
  isExtendedBy_iff : ∀ first second,
    (family.member first).isExtendedBy (family.member second) = true ↔
      (family.member first).toConstraint.clauses <+:
        (family.member second).toConstraint.clauses
  /-- Members that share their clauses are equal. -/
  equals_of_shares : ∀ first second,
    (family.member first).sharesClausesWith (family.member second) = true ->
      (family.member first).equals (family.member second) = true

theorem Mirrors.behavesAs
    {family : ConstraintFamily}
    {record : Nat -> List Predicate}
    {lists : ClauseLists}
    (mirrors : family.Mirrors record lists) :
    family.BehavesAs lists where
  size := by rw [← mirrors.clauses, Array.size_map]
  clauses := mirrors.clauses_member
  length := fun index => (mirrors.keepsTo_member index).length_clauses
  extended := by
    intro index clause
    dsimp only
    rw [extend_eq_push, member_push_size]
    refine ⟨Array.size_push _, SharedConstraint.clauses_extended _ _ _, ?_⟩
    intro other isOld
    exact member_push_of_lt _ _ _ isOld
  copied := by
    intro index
    refine ⟨Array.size_push _, family.member_push_size _ [], ?_⟩
    intro other isOld
    exact family.member_push_of_lt _ [] isOld
  equals_iff := fun first second =>
    (mirrors.keepsTo_member first).equals_iff (mirrors.keepsTo_member second)
  isExtendedBy_iff := fun first second =>
    (mirrors.keepsTo_member first).isExtendedBy_iff
      (mirrors.keepsTo_member second)
  equals_of_shares := by
    intro first second shared
    have keeps := mirrors.keepsTo_member first
    have otherKeeps := mirrors.keepsTo_member second
    rw [keeps.equals_iff otherKeeps]
    exact keeps.clauses_eq_of_sharesClausesWith otherKeeps shared

end ConstraintFamily

/-- However a family of constraints was built, its members behave as the lists
of their clauses, and clauses in common are never felt. -/
theorem ConstraintFamily.members_are_clause_lists
    (operations : List ConstraintOperation) :
    (ConstraintFamily.build operations).BehavesAs
      (ClauseLists.build operations) := by
  obtain ⟨record, mirrors⟩ := exists_mirrors_build operations
  exact mirrors.behavesAs

end SymbolicTape

import Mathlib.Data.Int.GCD
import Mathlib.Data.Nat.Prime.Basic
import Mathlib.Tactic.ByContra
import Mathlib.Tactic.Choose
import SymbolicTape.Constraint.Feasibility
import SymbolicTape.Proofs.Linear

/-!
# What the check for impossible paths decides

The check passes over the clauses that it does not understand and decides the
others exactly: it finds a constraint infeasible if and only if no assignment
satisfies the clauses that it understands.  What it finds infeasible is
therefore never satisfiable, and for a constraint of which it understands every
clause the converse holds, too.  The clauses that it understands are those that
can be solved on their own, because a byte can be inverted modulo 256 exactly if
it is odd.

The argument keeps track of the assignments that take the values left so far.
Every clause that is understood removes exactly the assignments under which it is
false.  Since the values are kept for each unknown byte on its own, no assignment
is left only if the clauses cannot be reconciled or if one byte has no value
left.
-/

namespace SymbolicTape

namespace Constraint

@[simp] theorem holds_trivial (assignment : Assignment) :
    trivial.holds assignment = true := rfl

@[simp] theorem holds_and
    (assignment : Assignment)
    (constraint : Constraint)
    (clause : Predicate) :
    (constraint.and clause).holds assignment =
      (constraint.holds assignment && clause.holds assignment) := by
  simp [holds]

/-- A constraint holds if all of its clauses do. -/
theorem holds_iff (assignment : Assignment) (constraint : Constraint) :
    constraint.holds assignment = true ↔
      ∀ clause ∈ constraint.clauses, clause.holds assignment = true := by
  simp [holds]

/-- Some assignment of bytes to names satisfies the constraint. -/
def Satisfiable (constraint : Constraint) : Prop :=
  ∃ assignment, constraint.holds assignment = true

end Constraint

namespace Predicate

@[simp] theorem holds_negate
    (assignment : Assignment)
    (predicate : Predicate) :
    predicate.negate.holds assignment = !predicate.holds assignment := by
  cases predicate <;>
    simp [negate, holds, accepts, term, bne]

/-- Whether the check understands a clause: its form is constant, or it has a
root. -/
def isUnderstood (clause : Predicate) : Bool :=
  (LinearForm.ofTerm clause.term).isConstant
    || (LinearForm.ofTerm clause.term).root?.isSome

end Predicate

/-- What is found is an inverse. -/
theorem mul_of_inverse?
    {value inverse : UInt8}
    (found : inverse? value = some inverse) :
    value * inverse = 1 := by
  unfold inverse? at found
  simpa using List.find?_some found

/-- A byte can be inverted modulo 256 exactly if it is odd. -/
theorem isSome_inverse?_iff (value : UInt8) :
    (inverse? value).isSome = true ↔ Odd value.toNat := by
  unfold inverse?
  rw [List.find?_isSome]
  constructor
  · rintro ⟨candidate, -, product⟩
    have product_eq : value.toNat * candidate.toNat % 256 = 1 := by
      rw [← UInt8.toNat_mul, beq_iff_eq.mp product]
      rfl
    apply Nat.Odd.of_mul_left (n := candidate.toNat)
    rw [Nat.odd_iff]
    omega
  · intro isOdd
    have coprime : value.toNat.Coprime (2 ^ 8) :=
      Nat.Coprime.pow_right 8 (Nat.coprime_two_right.mpr isOdd)
    obtain ⟨inverse, inRange, product_eq⟩ :=
      Nat.exists_mul_mod_eq_one_of_coprime coprime (by decide)
    have inverseOdd : Odd inverse := by
      apply Nat.Odd.of_mul_right (m := value.toNat)
      rw [Nat.odd_iff]
      omega
    rw [Nat.odd_iff] at inverseOdd
    refine ⟨UInt8.ofNat inverse, ?_, ?_⟩
    · rw [List.mem_map]
      refine ⟨inverse / 2, List.mem_range.mpr (by omega), ?_⟩
      have half : 2 * (inverse / 2) + 1 = inverse := by omega
      rw [half]
    · rw [beq_iff_eq, ← UInt8.toNat_inj, UInt8.toNat_mul,
        UInt8.toNat_ofNat_of_lt' inRange]
      exact product_eq

namespace Predicate

/-- Whether a clause can be solved on its own: its linear form is constant, or
it has exactly one unknown byte, with an odd coefficient. -/
def isSolvable (clause : Predicate) : Bool :=
  match (LinearForm.ofTerm clause.term).coefficients with
  | [] => true
  | [(_, coefficient)] => coefficient.toNat % 2 == 1
  | _ => false

/-- The check understands the clauses that can be solved on their own. -/
theorem isUnderstood_eq_isSolvable (clause : Predicate) :
    clause.isUnderstood = clause.isSolvable := by
  unfold isUnderstood isSolvable LinearForm.isConstant LinearForm.root?
    LinearForm.single?
  generalize LinearForm.ofTerm clause.term = form
  obtain ⟨coefficients, offset⟩ := form
  match coefficients with
  | [] => rfl
  | [(name, coefficient)] =>
      have invertible := isSome_inverse?_iff coefficient
      rw [Nat.odd_iff] at invertible
      rw [Bool.eq_iff_iff]
      simp [← invertible, Option.isSome_bind]
  | first :: second :: rest => rfl

end Predicate

namespace LinearForm

/-- A constant form has its offset for a value. -/
theorem eval_of_isConstant
    {form : LinearForm}
    (constant : form.isConstant = true)
    (assignment : Assignment) :
    form.eval assignment = form.constant := by
  obtain ⟨coefficients, offset⟩ := form
  have noCoefficients : coefficients = [] := List.isEmpty_iff.mp constant
  subst noCoefficients
  rfl

/-- A form is zero at its root and nowhere else. -/
theorem eval_eq_zero_iff_of_root?
    {form : LinearForm}
    {name : String}
    {root : UInt8}
    (found : form.root? = some (name, root))
    (assignment : Assignment) :
    form.eval assignment = 0 ↔ assignment name = root := by
  obtain ⟨coefficients, offset⟩ := form
  unfold root? single? at found
  dsimp only at found
  split at found
  · rename_i single
    obtain ⟨unknown, coefficient⟩ := single
    cases inverted : inverse? coefficient with
    | none => simp [inverted] at found
    | some inverse =>
        have product := mul_of_inverse? inverted
        simp only [Option.bind_eq_bind, Option.bind_some, inverted,
          Option.pure_def, Option.some.injEq, Prod.mk.injEq] at found
        obtain ⟨rfl, rfl⟩ := found
        rw [eval_cons, eval_nil]
        grind
  · simp at found

end LinearForm

/-- The truth of a clause without unknown bytes is the same under every
assignment. -/
theorem Predicate.truth?_of_isConstant
    {clause : Predicate}
    (constant : (LinearForm.ofTerm clause.term).isConstant = true)
    (assignment : Assignment) :
    clause.truth? = some (clause.holds assignment) := by
  have value := LinearForm.eval_of_isConstant constant assignment
  rw [LinearForm.eval_ofTerm] at value
  have noCoefficients := List.isEmpty_iff.mp constant
  unfold truth? holds Term.simplify LinearForm.toTerm
  rw [noCoefficients, value]
  rfl

namespace Domain

/-- Whether a value is left. -/
def contains (domain : Domain) (value : UInt8) : Bool :=
  domain.pinned.all (· == value) && !domain.excludes value

@[simp] theorem contains_default (value : UInt8) :
    ({} : Domain).contains value = true := by
  simp [contains, excludes]

/-- A domain is empty if no value is left. -/
theorem isEmpty_iff (domain : Domain) :
    domain.isEmpty = true ↔ ∀ value, domain.contains value = false := by
  unfold isEmpty contains
  cases domain.pinned with
  | some pinned => simp
  | none =>
      simp only [Vector.all_eq_true, id_eq, Option.all_none, Bool.true_and,
        Bool.not_eq_false', excludes]
      constructor
      · intro all value
        exact all value.toNat value.toNat_lt
      · intro all index inRange
        have excluded := all (UInt8.ofNat index)
        have same : (UInt8.ofNat index).toNat = index :=
          UInt8.toNat_ofNat_of_lt' inRange
        simpa only [same] using excluded

@[simp] theorem contains_exclude (domain : Domain) (excluded value : UInt8) :
    (domain.exclude excluded).contains value =
      (value != excluded && domain.contains value) := by
  unfold contains
  rw [excludes_exclude, Bool.not_or, Bool.and_left_comm]
  rfl

/-- Pinning leaves the one value, if it was left before. -/
theorem exists_pin?_iff (domain : Domain) (root value : UInt8) :
    (∃ narrowed, domain.pin? root = some narrowed ∧
        narrowed.contains value = true) ↔
      domain.contains value = true ∧ value = root := by
  obtain ⟨pinned, excluded⟩ := domain
  unfold pin?
  cases pinned with
  | none =>
      simp only [Option.some.injEq, exists_eq_left', contains, excludes,
        Option.all_some, Option.all_none, Bool.true_and, Bool.and_eq_true,
        beq_iff_eq]
      rw [and_comm, @eq_comm _ root]
  | some existing =>
      by_cases same : existing = root
      · subst same
        simp only [if_true, Option.some.injEq, exists_eq_left']
        refine (and_iff_left_of_imp ?_).symm
        intro contained
        simp only [contains, Option.all_some, Bool.and_eq_true,
          beq_iff_eq] at contained
        exact contained.1.symm
      · simp only [if_neg same, reduceCtorEq, false_and, exists_false,
          false_iff, contains, Option.all_some, Bool.and_eq_true, beq_iff_eq]
        rintro ⟨⟨rfl, -⟩, isRoot⟩
        exact same isRoot

/-- Narrowing keeps the values that the clause accepts at its root. -/
theorem exists_narrow?_iff
    (domain : Domain)
    (root value : UInt8)
    (clause : Predicate) :
    (∃ narrowed, domain.narrow? root clause = some narrowed ∧
        narrowed.contains value = true) ↔
      domain.contains value = true ∧
        (clause.accepts 0 = true ↔ value = root) := by
  cases clause with
  | isZero term => simp [narrow?, exists_pin?_iff, Predicate.accepts]
  | isNonZero term => simp [narrow?, Predicate.accepts, and_comm]

end Domain

namespace Domains

/-- An assignment takes the values that are left. -/
def Allows (domains : Domains) (assignment : Assignment) : Prop :=
  ∀ name, (domains.domain name).contains (assignment name) = true

/-- An assignment takes the values that are left, if the clauses could be
reconciled. -/
def Admits (learned : Option Domains) (assignment : Assignment) : Prop :=
  ∃ domains, learned = some domains ∧ domains.Allows assignment

@[simp] theorem admits_some
    {domains : Domains}
    {assignment : Assignment} :
    Admits (some domains) assignment ↔ domains.Allows assignment := by
  simp [Admits]

/-- Before any clause every assignment is possible. -/
theorem allows_empty (assignment : Assignment) :
    Allows ∅ assignment := by
  intro name
  simp [domain]

/-- The domains of different bytes are independent of each other. -/
theorem allows_insert
    {domains : Domains}
    {name : String}
    {narrowed : Domain}
    {assignment : Assignment} :
    Allows (domains.insert name narrowed) assignment ↔
      narrowed.contains (assignment name) = true ∧
        ∀ other, other ≠ name ->
          (domains.domain other).contains (assignment other) = true := by
  unfold Allows domain
  constructor
  · intro allowed
    refine ⟨by simpa using allowed name, ?_⟩
    intro other differ
    have there := allowed other
    rwa [Std.HashMap.getD_insert, if_neg (by simpa using differ.symm)] at there
  · rintro ⟨contained, others⟩ other
    rw [Std.HashMap.getD_insert]
    split
    · rename_i same
      rwa [← beq_iff_eq.mp same]
    · rename_i differ
      apply others
      rintro rfl
      exact differ (beq_self_eq_true other)

/-- A clause with a root removes the assignments under which it is false. -/
theorem admits_narrowed
    {clause : Predicate}
    {name : String}
    {root : UInt8}
    (found : (LinearForm.ofTerm clause.term).root? = some (name, root))
    (domains : Domains)
    (assignment : Assignment) :
    Admits
        (((domains.domain name).narrow? root clause).map (domains.insert name))
        assignment ↔
      domains.Allows assignment ∧ clause.holds assignment = true := by
  have atRoot := LinearForm.eval_eq_zero_iff_of_root? found assignment
  rw [LinearForm.eval_ofTerm] at atRoot
  have accepted :
      clause.holds assignment = true ↔
        (clause.accepts 0 = true ↔ assignment name = root) := by
    rw [← atRoot]
    cases clause <;>
      simp [Predicate.holds, Predicate.accepts, Predicate.term]
  have narrowed_iff := (domains.domain name).exists_narrow?_iff root
    (assignment name) clause
  rw [← accepted] at narrowed_iff
  constructor
  · rintro ⟨learned, learned_eq, allowed⟩
    obtain ⟨narrowed, narrowed_eq, rfl⟩ := Option.map_eq_some_iff.mp learned_eq
    obtain ⟨contained, others⟩ := allows_insert.mp allowed
    obtain ⟨containedBefore, holds⟩ :=
      narrowed_iff.mp ⟨narrowed, narrowed_eq, contained⟩
    refine ⟨?_, holds⟩
    intro other
    by_cases same : other = name
    · rwa [same]
    · exact others other same
  · rintro ⟨allowed, holds⟩
    obtain ⟨narrowed, narrowed_eq, contained⟩ :=
      narrowed_iff.mpr ⟨allowed name, holds⟩
    exact ⟨_, Option.map_eq_some_iff.mpr ⟨narrowed, narrowed_eq, rfl⟩,
      allows_insert.mpr ⟨contained, fun other _ => allowed other⟩⟩

/-- Learning a clause that is understood removes the assignments under which it
is false, and learning any other clause removes none. -/
theorem admits_learn?
    (domains : Domains)
    (clause : Predicate)
    (assignment : Assignment) :
    Admits (domains.learn? clause) assignment ↔
      domains.Allows assignment ∧
        (clause.isUnderstood = true -> clause.holds assignment = true) := by
  unfold learn? Predicate.isUnderstood
  dsimp only
  cases constant : (LinearForm.ofTerm clause.term).isConstant with
  | true =>
      rw [Predicate.truth?_of_isConstant constant assignment]
      cases clause.holds assignment <;> simp [Admits]
  | false =>
      cases found : (LinearForm.ofTerm clause.term).root? with
      | none => simp
      | some entry =>
          obtain ⟨name, root⟩ := entry
          simpa using admits_narrowed found domains assignment

/-- Learning a number of clauses removes the assignments under which one of
them that is understood is false. -/
theorem admits_foldlM_learn?
    (domains : Domains)
    (clauses : List Predicate)
    (assignment : Assignment) :
    Admits (clauses.foldlM learn? domains) assignment ↔
      domains.Allows assignment ∧
        ∀ clause ∈ clauses,
          clause.isUnderstood = true -> clause.holds assignment = true := by
  induction clauses generalizing domains with
  | nil => simp
  | cons clause rest inductionHypothesis =>
      rw [List.foldlM_cons, List.forall_mem_cons, ← and_assoc, ← admits_learn?]
      cases domains.learn? clause with
      | none => simp [Admits]
      | some learned => simpa using inductionHypothesis learned

/-- A byte with an empty domain is one that was met. -/
theorem anyEmpty_iff (domains : Domains) :
    domains.anyEmpty = true ↔
      ∃ name, (domains.domain name).isEmpty = true := by
  unfold anyEmpty domain
  rw [List.any_eq_true]
  constructor
  · rintro ⟨⟨name, domain⟩, met, empty⟩
    rw [Std.HashMap.mem_toList_iff_getElem?_eq_some] at met
    refine ⟨name, ?_⟩
    rwa [Std.HashMap.getD_eq_getD_getElem?, met, Option.getD_some]
  · rintro ⟨name, empty⟩
    rw [Std.HashMap.getD_eq_getD_getElem?] at empty
    cases met : domains[name]? with
    | none =>
        rw [met, Option.getD_none, Domain.isEmpty_iff] at empty
        exact absurd (empty 0) (by simp)
    | some domain =>
        refine ⟨(name, domain),
          Std.HashMap.mem_toList_iff_getElem?_eq_some.mpr met, ?_⟩
        rwa [met, Option.getD_some] at empty

/-- A byte has no value left if no assignment is left.  The values of different
bytes are chosen independently of each other. -/
theorem anyEmpty_iff_forall_not_allows (domains : Domains) :
    domains.anyEmpty = true ↔
      ∀ assignment, ¬domains.Allows assignment := by
  rw [anyEmpty_iff]
  constructor
  · rintro ⟨name, empty⟩ assignment allowed
    rw [Domain.isEmpty_iff] at empty
    have contained := allowed name
    rw [empty] at contained
    cases contained
  · intro noAssignment
    by_contra nonempty
    rw [not_exists] at nonempty
    have choice : ∀ name, ∃ value,
        (domains.domain name).contains value = true := by
      intro name
      have someValue := nonempty name
      rw [Domain.isEmpty_iff, not_forall] at someValue
      obtain ⟨value, contained⟩ := someValue
      exact ⟨value, by simpa using contained⟩
    choose assignment contained using choice
    exact noAssignment assignment contained

end Domains

namespace Constraint

/-- The check finds a constraint infeasible exactly if every assignment makes
one of the clauses false that it understands. -/
theorem feasibility_eq_infeasible_iff (constraint : Constraint) :
    constraint.feasibility = .infeasible ↔
      ∀ assignment, ∃ clause ∈ constraint.clauses,
        clause.isUnderstood = true ∧ clause.holds assignment = false := by
  have infeasible : constraint.feasibility = .infeasible ↔
      ∀ assignment, ¬Domains.Admits
        (constraint.clauses.foldlM Domains.learn? ∅) assignment := by
    unfold feasibility
    cases constraint.clauses.foldlM Domains.learn? ∅ with
    | none => simp [Domains.Admits]
    | some domains =>
        simp only [Domains.admits_some]
        rw [← Domains.anyEmpty_iff_forall_not_allows]
        cases domains.anyEmpty <;> simp
  rw [infeasible]
  refine forall_congr' fun assignment => ?_
  rw [Domains.admits_foldlM_learn?]
  simp [Domains.allows_empty]

/-- A constraint that the check finds infeasible has no solution. -/
theorem holds_eq_false_of_infeasible
    {constraint : Constraint}
    (infeasible : constraint.feasibility = .infeasible)
    (assignment : Assignment) :
    constraint.holds assignment = false := by
  rw [feasibility_eq_infeasible_iff] at infeasible
  obtain ⟨clause, member, -, violated⟩ := infeasible assignment
  rw [← Bool.not_eq_true, holds_iff]
  intro allHold
  rw [allHold clause member] at violated
  cases violated

theorem not_satisfiable_of_infeasible
    {constraint : Constraint}
    (infeasible : constraint.feasibility = .infeasible) :
    ¬constraint.Satisfiable := by
  rintro ⟨assignment, satisfied⟩
  rw [holds_eq_false_of_infeasible infeasible assignment] at satisfied
  cases satisfied

/-- If the check understands every clause, it finds every constraint infeasible
that has no solution. -/
theorem infeasible_iff_of_isUnderstood
    {constraint : Constraint}
    (understood : ∀ clause ∈ constraint.clauses, clause.isUnderstood = true) :
    constraint.feasibility = .infeasible ↔ ¬constraint.Satisfiable := by
  constructor
  · exact not_satisfiable_of_infeasible
  · intro unsatisfiable
    rw [feasibility_eq_infeasible_iff]
    intro assignment
    by_contra allHold
    refine unsatisfiable ⟨assignment, (holds_iff assignment constraint).mpr ?_⟩
    intro clause member
    by_contra violated
    exact allHold ⟨clause, member, understood clause member,
      by simpa using violated⟩

/-! ## Clauses that can be solved on their own -/

/-- The clauses that can be solved on their own. -/
def solvable (constraint : Constraint) : Constraint :=
  ⟨constraint.newestFirst.filter Predicate.isSolvable⟩

@[simp] theorem clauses_solvable (constraint : Constraint) :
    constraint.solvable.clauses =
      constraint.clauses.filter Predicate.isSolvable := by
  simp [solvable, clauses]

/-- The check finds a constraint infeasible exactly if no assignment satisfies
all of its clauses that can be solved on their own. -/
theorem infeasible_iff_solvable (constraint : Constraint) :
    constraint.feasibility = .infeasible ↔
      ¬constraint.solvable.Satisfiable := by
  unfold Satisfiable
  rw [feasibility_eq_infeasible_iff, not_exists]
  refine forall_congr' fun assignment => ?_
  rw [holds_iff, not_forall]
  simp [Predicate.isUnderstood_eq_isSolvable]

/-- Fewer clauses are satisfied by no fewer assignments. -/
theorem Satisfiable.mono
    {constraint other : Constraint}
    (satisfiable : other.Satisfiable)
    (included : constraint.clauses ⊆ other.clauses) :
    constraint.Satisfiable := by
  obtain ⟨assignment, satisfied⟩ := satisfiable
  rw [holds_iff] at satisfied
  refine ⟨assignment, (holds_iff assignment constraint).mpr ?_⟩
  intro clause member
  exact satisfied clause (included member)

/-- A constraint that the check finds infeasible stays so with more clauses. -/
theorem infeasible_of_subset
    {constraint other : Constraint}
    (included : constraint.clauses ⊆ other.clauses)
    (infeasible : constraint.feasibility = .infeasible) :
    other.feasibility = .infeasible := by
  rw [infeasible_iff_solvable] at infeasible ⊢
  intro satisfiable
  apply infeasible
  apply satisfiable.mono
  simpa using List.filter_subset _ included

/-- Only which clauses there are matters to the check. -/
theorem feasibility_congr
    {constraint other : Constraint}
    (same : ∀ clause, clause ∈ other.clauses ↔ clause ∈ constraint.clauses) :
    other.feasibility = constraint.feasibility := by
  have agree : other.feasibility = .infeasible ↔
      constraint.feasibility = .infeasible :=
    ⟨infeasible_of_subset fun clause => (same clause).mp,
      infeasible_of_subset fun clause => (same clause).mpr⟩
  cases found : constraint.feasibility with
  | infeasible => exact agree.mpr found
  | unknown =>
      cases otherFound : other.feasibility with
      | infeasible =>
          rw [agree.mp otherFound] at found
          cases found
      | unknown => rfl

/-- The check decides a part of every constraint exactly.  It answers that a
constraint is infeasible if and only if no assignment satisfies those clauses
whose linear form is constant or has a single unknown byte with an odd
coefficient.  No assignment then satisfies the whole constraint, the answer does
not depend on the order of the clauses or on their repetition, and it stays the
same when clauses are added. -/
theorem feasibility_check_is_exact (constraint : Constraint) :
    (constraint.feasibility = .infeasible ↔
        ¬constraint.solvable.Satisfiable) ∧
      (constraint.feasibility = .infeasible -> ¬constraint.Satisfiable) ∧
      (∀ other : Constraint,
        (∀ clause, clause ∈ other.clauses ↔ clause ∈ constraint.clauses) ->
          other.feasibility = constraint.feasibility) ∧
      (∀ other : Constraint, constraint.clauses ⊆ other.clauses ->
        constraint.feasibility = .infeasible ->
          other.feasibility = .infeasible) := by
  refine ⟨constraint.infeasible_iff_solvable, not_satisfiable_of_infeasible,
    ?_, ?_⟩
  · intro other same
    exact feasibility_congr same
  · intro other included
    exact infeasible_of_subset included

/-- Three times a byte plus five. -/
def triple : Term :=
  .add (.add (.add (.symbol "x") (.symbol "x")) (.symbol "x")) (.constant 5)

/-- Three times a byte plus five is zero, the byte and another one add up to
zero, and the byte is not 169. -/
def tripled : Constraint :=
  ((trivial.and (.isZero triple)).and
    (.isZero (.add (.symbol "x") (.symbol "y")))).and
      (.isNonZero (.sub (.symbol "x") (.constant 169)))

/-- Three times a byte plus five is zero for the byte 169 only, which the last
clause excludes.  The clause on two bytes is passed over, and the answer is the
same with the clauses in the opposite order. -/
theorem feasibility_check_is_exact_tripled :
    tripled.feasibility = .infeasible ∧ ¬tripled.Satisfiable ∧
      Constraint.feasibility ⟨tripled.clauses⟩ = .infeasible := by
  have solvable_eq : tripled.solvable.clauses =
      [.isZero triple, .isNonZero (.sub (.symbol "x") (.constant 169))] := by
    decide
  have unsatisfiable : ¬tripled.solvable.Satisfiable := by
    rintro ⟨assignment, satisfied⟩
    rw [holds_iff, solvable_eq] at satisfied
    have isZero := satisfied _ List.mem_cons_self
    have isOther := satisfied _ (List.mem_cons_of_mem _ List.mem_cons_self)
    simp only [Predicate.holds, Predicate.term, Predicate.accepts, triple,
      Term.eval_add, Term.eval_sub, Term.eval_symbol, Term.eval_constant,
      beq_iff_eq, bne_iff_ne, ← UInt8.toNat_inj, UInt8.toNat_add,
      UInt8.toNat_sub, ne_eq] at isZero isOther
    have inRange := (assignment "x").toNat_lt
    simp only [UInt8.toNat_ofNat] at isZero isOther
    omega
  obtain ⟨decides, sound, unordered, -⟩ := feasibility_check_is_exact tripled
  have infeasible := decides.mpr unsatisfiable
  refine ⟨infeasible, sound infeasible, ?_⟩
  rw [unordered]
  · exact infeasible
  · intro clause
    exact List.mem_reverse

end Constraint
end SymbolicTape

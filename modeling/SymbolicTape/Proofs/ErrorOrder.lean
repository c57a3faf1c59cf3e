import Mathlib.Data.List.Induction
import SymbolicTape.Exploration
import SymbolicTape.Proofs.Engine

/-!
# The order of reported errors

An exploration reports one error for each path that faulted.  The errors are
collected one at a time, and the whole collection is sorted by location after
each of them.

A stable sort is described by what it keeps, and this description fits a single
list (`StablySorted.unique`).  Sorting again after each addition is therefore
the same as sorting once at the end (`ErrorList.collect_eq_sorted`), and the
errors of an exploration are its faults in this order
(`Exploration.errors_are_stably_sorted`).  A further call of the engine puts the
errors it finds at a location behind those that were reported there before
(`Engine.later_errors_follow`).
-/

namespace SymbolicTape

/-! ## Stable sorting -/

/-- A list is another one in the order of a key, in which elements of the same
key follow each other as before. -/
structure StablySorted (key : α -> Nat) (list sorted : List α) : Prop where
  /-- Every element is there as often as before. -/
  perm : sorted.Perm list
  /-- The keys never decrease. -/
  ordered : sorted.Pairwise fun first second => key first ≤ key second
  /-- The elements of one key are those from before, in the same order. -/
  stable : ∀ value,
    sorted.filter (fun element => key element = value) =
      list.filter (fun element => key element = value)

section

variable {key : α -> Nat}

/-- The first element of an ordered list has the least key. -/
theorem key_head_le
    {head element : α}
    {tail : List α}
    (ordered : (head :: tail).Pairwise
      fun first second => key first ≤ key second)
    (member : element ∈ head :: tail) :
    key head ≤ key element := by
  rcases List.mem_cons.mp member with rfl | later
  · exact Nat.le_refl _
  · exact List.rel_of_pairwise_cons ordered later

/-- An ordered list is determined by its elements and their order within each
key. -/
theorem eq_of_filter_key_eq
    {list other : List α}
    (perm : list.Perm other)
    (ordered : list.Pairwise fun first second => key first ≤ key second)
    (otherOrdered : other.Pairwise
      fun first second => key first ≤ key second)
    (same : ∀ value,
      list.filter (fun element => key element = value) =
        other.filter (fun element => key element = value)) :
    list = other := by
  induction list generalizing other with
  | nil => exact perm.nil_eq
  | cons head tail inductionHypothesis =>
      cases other with
      | nil => exact perm.eq_nil
      | cons otherHead otherTail =>
          -- Both heads have the least key, and each is the first of that key.
          have sameKey : key head = key otherHead := Nat.le_antisymm
            (key_head_le ordered (perm.mem_iff.mpr List.mem_cons_self))
            (key_head_le otherOrdered (perm.mem_iff.mp List.mem_cons_self))
          have sameFirst := same (key head)
          rw [List.filter_cons_of_pos (by simp),
            List.filter_cons_of_pos (by simp [sameKey])] at sameFirst
          obtain ⟨rfl, -⟩ := List.cons.inj sameFirst
          have sameTails (value : Nat) :
              tail.filter (fun element => key element = value) =
                otherTail.filter (fun element => key element = value) := by
            have sameValue := same value
            rw [List.filter_cons, List.filter_cons] at sameValue
            split at sameValue
            · exact (List.cons.inj sameValue).2
            · exact sameValue
          rw [inductionHypothesis perm.cons_inv ordered.of_cons
            otherOrdered.of_cons sameTails]

/-- Merging halves sorts stably. -/
theorem stablySorted_mergeSort (key : α -> Nat) (list : List α) :
    StablySorted key list
      (list.mergeSort fun first second => key first ≤ key second) := by
  have trans (first second third : α)
      (firstLe : decide (key first ≤ key second) = true)
      (secondLe : decide (key second ≤ key third) = true) :
      decide (key first ≤ key third) = true := by
    simp only [decide_eq_true_eq] at firstLe secondLe ⊢
    exact Nat.le_trans firstLe secondLe
  have total (first second : α) :
      (decide (key first ≤ key second) || decide (key second ≤ key first)) =
        true := by
    simpa using Nat.le_total (key first) (key second)
  have perm := List.mergeSort_perm list
    fun first second => key first ≤ key second
  refine ⟨perm, ?_, ?_⟩
  · have ordered := List.pairwise_mergeSort trans total list
    simpa using ordered
  · intro value
    -- The elements of one key are in order already, so sorting keeps them as
    -- they are; there is no room for others.
    have level : (list.filter fun element => key element = value).Pairwise
        fun first second => decide (key first ≤ key second) = true := by
      rw [List.pairwise_filter]
      refine List.pairwise_of_forall fun first second => ?_
      simp only [decide_eq_true_eq]
      intro firstKey secondKey
      omega
    have kept := (List.sublist_mergeSort trans total level
      List.filter_sublist).filter fun element => key element = value
    simp only [List.filter_filter, Bool.and_self] at kept
    exact (kept.eq_of_length (perm.filter _).length_eq.symm).symm

namespace StablySorted

variable {list sorted : List α}

theorem unique
    {other : List α}
    (sorts : StablySorted key list sorted)
    (otherSorts : StablySorted key list other) :
    sorted = other :=
  eq_of_filter_key_eq (sorts.perm.trans otherSorts.perm.symm) sorts.ordered
    otherSorts.ordered
    fun value => (sorts.stable value).trans (otherSorts.stable value).symm

/-- Elements may be sorted before others are appended and all are sorted. -/
theorem resort
    {appended resorted : List α}
    (sorts : StablySorted key list sorted)
    (resorts : StablySorted key (sorted ++ appended) resorted) :
    StablySorted key (list ++ appended) resorted where
  perm := resorts.perm.trans (sorts.perm.append_right appended)
  ordered := resorts.ordered
  stable value := by
    rw [resorts.stable, List.filter_append, sorts.stable, List.filter_append]

/-- Elements may be converted after they were sorted, if their keys stay. -/
theorem map
    {converted : β -> Nat}
    (convert : α -> β)
    (sameKey : ∀ element, converted (convert element) = key element)
    (sorts : StablySorted key list sorted) :
    StablySorted converted (list.map convert) (sorted.map convert) where
  perm := sorts.perm.map convert
  ordered := by
    rw [List.pairwise_map]
    simpa only [sameKey] using sorts.ordered
  stable value := by
    simp only [List.filter_map, Function.comp_def, sameKey, sorts.stable]

end StablySorted
end

/-! ## Collections of errors -/

namespace ErrorList

theorem stablySorted_sorted (errors : List (Located ε)) :
    StablySorted Located.location errors (sorted errors).payloads :=
  stablySorted_mergeSort Located.location errors

/-- An error can be added to the others before or after these are sorted. -/
theorem addLocated_sorted (errors : List (Located ε)) (error : Located ε) :
    (sorted errors).addLocated error = sorted (errors ++ [error]) := by
  have before := (stablySorted_sorted errors).resort
    (stablySorted_sorted ((sorted errors).payloads ++ [error]))
  have after := stablySorted_sorted (errors ++ [error])
  exact congrArg ErrorList.mk (before.unique after)

/-- Sorting after each addition comes to sorting once. -/
theorem collect_eq_sorted (errors : List (Located ε)) :
    collect errors = sorted errors := by
  induction errors using List.reverseRecOn with
  | nil => simp [sorted, empty]
  | append_singleton errors error inductionHypothesis =>
      rw [collect_concat, inductionHypothesis, addLocated_sorted]

example :
    (collect [⟨7, Fault.unbalancedLoop⟩, ⟨2, .memoryAccess (-1) 8⟩,
        ⟨7, .noMatchingLoopExit⟩]).payloads =
      [⟨2, .memoryAccess (-1) 8⟩, ⟨7, .unbalancedLoop⟩,
        ⟨7, .noMatchingLoopExit⟩] := by
  cbv

end ErrorList

/-! ## Errors of an exploration -/

namespace Exploration

theorem stablySorted_errors (exploration : Exploration) :
    StablySorted Located.location
      (exploration.errored.map fun faulted =>
        faulted.fault.map Error.execution)
      exploration.errors.payloads := by
  have sorts := ErrorList.stablySorted_sorted
    (exploration.errored.map FaultedPath.fault)
  have converted := sorts.map (Located.map Error.execution)
    (Located.location_map Error.execution)
  rw [List.map_map] at converted
  unfold errors
  rw [ErrorList.collect_eq_sorted]
  exact converted

/-- The errors of an exploration are the faults of its paths, one for each path
that faulted, by location and at one location in the order in which the paths
faulted; no other list is like this. -/
theorem errors_are_stably_sorted
    (exploration : Exploration)
    (listed : List (Located Error)) :
    listed = exploration.errors.payloads ↔
      StablySorted Located.location
        (exploration.errored.map fun faulted =>
          faulted.fault.map Error.execution)
        listed := by
  constructor
  · rintro rfl
    exact exploration.stablySorted_errors
  · intro sorts
    exact sorts.unique exploration.stablySorted_errors

end Exploration

namespace Engine

/-- A path that faults is filed behind those that have faulted before. -/
theorem Advances.faulted_grow
    {before after : Engine}
    (advances : Advances before after) :
    before.faulted.toList <+: after.faulted.toList := by
  cases advances with
  | rests rests => exact rests.faulted ▸ List.prefix_refl _
  | @runs path rest budget taken =>
      have filed := filed_afterSlice before path rest
        (before.runSlice budget path)
      rw [filed.faulted]
      exact List.prefix_append _ _

theorem faulted_execute_grow (engine : Engine) :
    engine.faulted.toList <+: engine.execute.2.faulted.toList := by
  have advances := advances_execute engine
  generalize engine.execute.2 = after at advances
  induction advances with
  | refl => exact List.prefix_refl _
  | tail _ last inductionHypothesis =>
      exact inductionHypothesis.trans last.faulted_grow

/-- What a further call reports at a location starts with what was reported
there before. -/
theorem later_errors_follow (engine : Engine) (location : Nat) :
    engine.result.errors.payloads.filter
        (fun error => error.location = location) <+:
      engine.execute.2.result.errors.payloads.filter
        (fun error => error.location = location) := by
  rw [engine.result.stablySorted_errors.stable location,
    engine.execute.2.result.stablySorted_errors.stable location]
  exact (engine.faulted_execute_grow.map _).filter _

end Engine
end SymbolicTape

import Mathlib.Data.List.NodupEquivFin
import SymbolicTape.Proofs.FlatTape
import SymbolicTape.Tape.Family

/-!
# Tapes that share their pages are independent

The members of a family keep their pages in one store, and several references
may lead to one page.  A value is stored on the page itself if no other
reference leads to it, and on a copy otherwise.  So what is stored on a member
is seen by no other, and on no other page of the same member.

A family mirrors a row of arrays if each member holds the cells of its own
array.  Every operation on the family keeps this, with the same operation on the
arrays.  It also keeps that members with a page in common have as many cells as
each other, so that a common page is read alike through both.
-/

namespace SymbolicTape

/-! ## References -/

/-- An entry that occurs once in a list stands at one place only. -/
theorem eq_of_count_le_one
    {list : List Nat}
    {entry : Nat}
    (atMostOnce : list.count entry ≤ 1)
    {first second : Nat}
    (firstFound : list[first]? = some entry)
    (secondFound : list[second]? = some entry) :
    first = second := by
  have twice
      {earlier later : Nat}
      (before : earlier < later)
      (earlierFound : list[earlier]? = some entry)
      (laterFound : list[later]? = some entry) :
      2 ≤ list.count entry := by
    obtain ⟨earlierLt, earlier_eq⟩ := List.getElem?_eq_some_iff.mp earlierFound
    obtain ⟨laterLt, later_eq⟩ := List.getElem?_eq_some_iff.mp laterFound
    rw [← List.duplicate_iff_two_le_count,
      List.duplicate_iff_exists_distinct_get]
    exact ⟨⟨earlier, earlierLt⟩, ⟨later, laterLt⟩, before, earlier_eq.symm,
      later_eq.symm⟩
  rcases Nat.lt_trichotomy first second with before | same | after
  · have isTwice := twice before firstFound secondFound
    omega
  · exact same
  · have isTwice := twice after secondFound firstFound
    omega

/-- An entry that occurs once in a number of lists stands at one place only. -/
theorem eq_of_count_flatten_le_one
    {lists : List (List Nat)}
    {entry : Nat}
    (atMostOnce : lists.flatten.count entry ≤ 1)
    {first second firstPlace secondPlace : Nat}
    (firstFound : lists[first]?.bind (·[firstPlace]?) = some entry)
    (secondFound : lists[second]?.bind (·[secondPlace]?) = some entry) :
    first = second ∧ firstPlace = secondPlace := by
  induction lists generalizing first second with
  | nil => simp at firstFound
  | cons head rest inductionHypothesis =>
      rw [List.flatten_cons, List.count_append] at atMostOnce
      have later
          {place index : Nat}
          (found : rest[index]?.bind (·[place]?) = some entry) :
          0 < rest.flatten.count entry := by
        obtain ⟨list, list_eq, entry_eq⟩ := Option.bind_eq_some_iff.mp found
        rw [List.count_pos_iff, List.mem_flatten]
        exact ⟨list, List.mem_of_getElem? list_eq,
          List.mem_of_getElem? entry_eq⟩
      have now {place : Nat} (found : head[place]? = some entry) :
          0 < head.count entry :=
        List.count_pos_iff.mpr (List.mem_of_getElem? found)
      cases first with
      | zero =>
          cases second with
          | zero =>
              exact ⟨rfl,
                eq_of_count_le_one (by omega) firstFound secondFound⟩
          | succ second =>
              have inHead := now firstFound
              have inRest := later secondFound
              omega
      | succ first =>
          cases second with
          | zero =>
              have inHead := now secondFound
              have inRest := later firstFound
              omega
          | succ second =>
              obtain ⟨same, samePlace⟩ := inductionHypothesis (by omega)
                firstFound secondFound
              exact ⟨congrArg Nat.succ same, samePlace⟩

namespace SharedTape

section Contents

variable {pages : Array Page} {shared : SharedTape}

theorem getElem_contents
    {page : Nat}
    (pageExists : page < pageCount shared.capacity) :
    (shared.contents pages)[page] =
      pages.getD shared.addresses[page] Tape.blankPage := by
  simp [contents]

theorem getElem?_contents
    {page address : Nat}
    (refers : shared.addresses[page]? = some address) :
    (shared.contents pages)[page]? =
      some (pages.getD address Tape.blankPage) := by
  simp [contents, Vector.getElem?_map, refers]

/-- Only the pages that a tape refers to matter to it. -/
theorem contents_congr
    {others : Array Page}
    (same : ∀ address ∈ shared.addresses,
      others.getD address Tape.blankPage =
        pages.getD address Tape.blankPage) :
    shared.contents others = shared.contents pages :=
  Vector.map_congr_left same

/-- A page that is added to the store does not matter to the tapes so far. -/
theorem contents_push
    (stored : ∀ address ∈ shared.addresses, address < pages.size)
    (page : Page) :
    shared.contents (pages.push page) = shared.contents pages := by
  apply contents_congr
  intro address refers
  have inStore := stored address refers
  simp [Array.getD_eq_getD_getElem?, Array.getElem?_push, inStore.ne]

/-- A page to which a tape does not refer does not matter to it. -/
theorem contents_setIfInBounds_of_not_mem
    {address : Nat}
    (notReferred : address ∉ shared.addresses)
    (changed : Page) :
    shared.contents (pages.setIfInBounds address changed) =
      shared.contents pages := by
  apply contents_congr
  intro other refers
  have differ : address ≠ other := by
    rintro rfl
    exact notReferred refers
  simp [Array.getD_eq_getD_getElem?, differ]

/-- A change to a page in the store is a change to the tape, at the one place
that refers to it. -/
theorem contents_setIfInBounds
    {page : Nat}
    (pageExists : page < pageCount shared.capacity)
    (inStore : shared.addresses[page] < pages.size)
    (unique : ∀ other,
      shared.addresses[other]? = some shared.addresses[page] -> other = page)
    (changed : Page) :
    shared.contents (pages.setIfInBounds shared.addresses[page] changed) =
      (shared.contents pages).set page changed := by
  apply Vector.ext
  intro other otherExists
  rw [getElem_contents, Vector.getElem_set, getElem_contents]
  by_cases same : page = other
  · subst same
    simp [Array.getD_eq_getD_getElem?, inStore]
  · have differ : shared.addresses[page] ≠ shared.addresses[other] := by
      intro address_eq
      apply same
      exact (unique other (by simp [otherExists, address_eq])).symm
    simp [Array.getD_eq_getD_getElem?, same, differ]

/-- Turning a reference to a new page changes the page on the tape. -/
theorem read_redirect
    (stored : ∀ address ∈ shared.addresses, address < pages.size)
    {page : Nat}
    (pageExists : page < pageCount shared.capacity)
    (changed : Page) :
    (shared.redirect page pageExists pages.size).read (pages.push changed) =
      ⟨shared.capacity, (shared.contents pages).set page changed⟩ := by
  have kept := contents_push stored changed
  unfold contents at kept
  unfold read redirect contents
  rw [Vector.map_set, kept]
  simp [Array.getD_eq_getD_getElem?]

end Contents
end SharedTape

/-- Storing a value changes the page of its cell. -/
theorem Tape.storeIn_eq_set
    {count index : Nat}
    (pages : Vector Page count)
    (pageExists : index / pageSize < count)
    (value : Value) :
    Tape.storeIn pages index value =
      pages.set (index / pageSize)
        (pages[index / pageSize].set (index % pageSize) value
          (mod_pageSize_lt index)) := by
  apply Vector.ext
  intro page _
  rw [Tape.getElem_storeIn, Vector.getElem_set]
  split
  · rename_i samePage
    subst samePage
    rfl
  · rfl

namespace TapeFamily

/-- The contents of a member. -/
def tape? (family : TapeFamily) (index : Nat) : Option Tape :=
  (family.member? index).map LabelledTape.tape

section Views

variable (family : TapeFamily)

theorem tape?_eq_map_read (index : Nat) :
    family.tape? index =
      family.members[index]?.map (SharedTape.read family.pages) := by
  simp [tape?, member?, Function.comp_def]

theorem exists_member_of_tape?
    {index : Nat}
    {tape : Tape}
    (found : family.tape? index = some tape) :
    ∃ member, family.members[index]? = some member ∧
      member.read family.pages = tape := by
  rw [tape?_eq_map_read] at found
  exact Option.map_eq_some_iff.mp found

/-- A page that is added to the store changes no member. -/
theorem map_read_push (page : Page) (index : Nat) :
    family.members[index]?.map (SharedTape.read (family.pages.push page)) =
      family.tape? index := by
  rw [tape?_eq_map_read]
  apply Option.map_congr
  intro member found
  unfold SharedTape.read
  rw [SharedTape.contents_push
    (family.stored member (Array.mem_of_getElem? found))]

theorem tape?_create (capacity index : Nat) :
    (family.create capacity).tape? index =
      if index = family.members.size then
        some (Tape.blank capacity)
      else
        family.tape? index := by
  rw [tape?_eq_map_read]
  unfold create
  dsimp only
  rw [Array.getElem?_push]
  split
  · simp [SharedTape.read, SharedTape.contents, Tape.blank,
      Array.getD_eq_getD_getElem?, Vector.map_replicate]
  · exact family.map_read_push _ index

theorem tape?_copy
    {source : Nat}
    {tape : Tape}
    (found : family.tape? source = some tape)
    (index : Nat) :
    (family.copy source).tape? index =
      if index = family.members.size then
        some tape
      else
        family.tape? index := by
  obtain ⟨member, member_eq, rfl⟩ := family.exists_member_of_tape? found
  unfold copy
  split
  · rename_i none
    rw [none] at member_eq
    cases member_eq
  · rename_i other other_eq
    cases other_eq.symm.trans member_eq
    rw [tape?_eq_map_read, tape?_eq_map_read, Array.getElem?_push]
    split <;> rfl

/-- A page to which one reference leads is the page of one member at one place
only. -/
theorem eq_of_references_eq_one
    {address first second firstPage secondPage : Nat}
    (single : family.references address = 1)
    {firstMember secondMember : SharedTape}
    (first_eq : family.members[first]? = some firstMember)
    (second_eq : family.members[second]? = some secondMember)
    (firstRefers : firstMember.addresses[firstPage]? = some address)
    (secondRefers : secondMember.addresses[secondPage]? = some address) :
    first = second ∧ firstPage = secondPage := by
  unfold references at single
  rw [List.flatMap_def] at single
  refine eq_of_count_flatten_le_one single.le ?_ ?_
  · simp [first_eq, firstRefers]
  · simp [second_eq, secondRefers]

/-- Changing a page of a member changes this page of this member, and nothing
else on any tape. -/
theorem tape?_changePage
    {index page : Nat}
    (indexLt : index < family.members.size)
    (pageExists : page < pageCount family.members[index].capacity)
    (change : Page -> Page)
    (other : Nat) :
    (family.changePage index page indexLt pageExists change).tape? other =
      if other = index then
        let contents := family.members[index].contents family.pages
        some ⟨_, contents.set page (change contents[page])⟩
      else
        family.tape? other := by
  have index_eq : family.members[index]? = some family.members[index] :=
    Array.getElem?_eq_getElem indexLt
  have stored := family.stored _ (Array.getElem_mem indexLt)
  have page_eq := @SharedTape.getElem_contents family.pages _ _ pageExists
  unfold changePage
  dsimp only
  rw [page_eq]
  by_cases single :
      family.references family.members[index].addresses[page] = 1
  -- The page is changed in place, and no other place leads to it.
  · rw [if_pos single]
    have unique
        {member : SharedTape}
        {place : Nat}
        (member_eq : family.members[other]? = some member)
        (refers : member.addresses[place]? =
          some family.members[index].addresses[page]) :
        other = index ∧ place = page :=
      family.eq_of_references_eq_one single member_eq index_eq refers
        (Vector.getElem?_eq_getElem pageExists)
    rw [tape?_eq_map_read, tape?_eq_map_read]
    dsimp only
    split
    · rename_i same
      subst same
      have inStore := stored _ (Vector.getElem_mem pageExists)
      rw [index_eq, Option.map_some, SharedTape.read,
        SharedTape.contents_setIfInBounds pageExists inStore
          fun place refers => (unique index_eq refers).2]
    · rename_i differ
      apply Option.map_congr
      intro member found
      unfold SharedTape.read
      rw [SharedTape.contents_setIfInBounds_of_not_mem]
      intro refers
      obtain ⟨place, placeExists, address_eq⟩ := Vector.getElem_of_mem refers
      apply differ
      exact (unique found (Vector.getElem?_eq_some_iff.mpr
        ⟨placeExists, address_eq⟩)).1
  -- A copy is added to the store, where no reference led before.
  · rw [if_neg single, tape?_eq_map_read]
    dsimp only
    rw [Array.getElem?_set]
    by_cases same : other = index
    · subst same
      rw [if_pos rfl, if_pos rfl, Option.map_some,
        SharedTape.read_redirect stored pageExists]
    · rw [if_neg (Ne.symm same), if_neg same]
      exact family.map_read_push _ other

/-- A value can be stored on a member exactly where it can be stored on its
contents. -/
theorem set_eq_error_iff
    {index : Nat}
    {pointer : Int64}
    {value : Value}
    {fault : Fault} :
    family.set index pointer value = .error fault ↔
      ∃ tape, family.tape? index = some tape ∧
        tape.set pointer value = .error fault := by
  rw [tape?_eq_map_read]
  unfold set Tape.set
  by_cases indexLt : index < family.members.size
  · rw [dif_pos indexLt, Array.getElem?_eq_getElem indexLt]
    dsimp only
    cases cell_eq :
        (family.members[index].read family.pages).index? pointer with
    | error reason => simp [cell_eq, Except.map]
    | ok cell => simp [cell_eq, Except.map]
  · rw [dif_neg indexLt, Array.getElem?_eq_none (Nat.le_of_not_lt indexLt)]
    simp

section Stored

variable {index : Nat} {pointer : Int64} {value : Value}
variable {after : TapeFamily}

/-- What storing a value comes to: there is no such member, or one of its pages
is changed. -/
theorem eq_or_exists_changePage_of_set
    (stored : family.set index pointer value = .ok after) :
    (family.members.size ≤ index ∧ after = family) ∨
      ∃ (indexLt : index < family.members.size)
        (cell : Fin family.members[index].capacity),
        (family.members[index].read family.pages).index? pointer = .ok cell ∧
          after = family.changePage index (cell.val / pageSize) indexLt
            (div_pageSize_lt_pageCount cell.isLt)
            fun page => page.set (cell.val % pageSize) value.canonicalize
              (mod_pageSize_lt cell.val) := by
  unfold set at stored
  by_cases indexLt : index < family.members.size
  · rw [dif_pos indexLt] at stored
    dsimp only at stored
    right
    cases cell_eq :
        (family.members[index].read family.pages).index? pointer with
    | error reason =>
        rw [cell_eq] at stored
        cases stored
    | ok cell =>
        rw [cell_eq] at stored
        cases stored
        exact ⟨indexLt, cell, cell_eq, rfl⟩
  · rw [dif_neg indexLt] at stored
    cases stored
    exact .inl ⟨Nat.le_of_not_lt indexLt, rfl⟩

theorem size_set (stored : family.set index pointer value = .ok after) :
    after.members.size = family.members.size := by
  rcases family.eq_or_exists_changePage_of_set stored with
    ⟨-, rfl⟩ | ⟨indexLt, cell, -, rfl⟩
  · rfl
  · unfold changePage
    dsimp only
    split <;> simp

/-- Storing a value on a member stores it on its contents, and the contents of
all other members stay as they are. -/
theorem tape?_set
    (stored : family.set index pointer value = .ok after)
    (other : Nat) :
    after.tape? other =
      if other = index then
        (family.tape? index).bind fun tape =>
          (tape.set pointer value).toOption
      else
        family.tape? other := by
  rcases family.eq_or_exists_changePage_of_set stored with
    ⟨noMember, rfl⟩ | ⟨indexLt, cell, cell_eq, rfl⟩
  · have none : after.tape? index = none := by
      simp [tape?_eq_map_read, noMember]
    split
    · rename_i same
      rw [same, none, Option.bind_none]
    · rfl
  · have found : family.tape? index =
        some (family.members[index].read family.pages) := by
      simp [tape?_eq_map_read, indexLt]
    rw [tape?_changePage, found, Option.bind_some, Tape.set, cell_eq]
    refine congrArg (ite (other = index) · (family.tape? other)) ?_
    refine congrArg (fun pages => some (Tape.mk _ pages)) ?_
    exact (Tape.storeIn_eq_set _ (div_pageSize_lt_pageCount cell.isLt) _).symm

end Stored

theorem copy_of_tape?_eq_none
    {source : Nat}
    (noMember : family.tape? source = none) :
    family.copy source = family := by
  have noSource : family.members[source]? = none := by
    simpa [tape?_eq_map_read] using noMember
  unfold copy
  split
  · rfl
  · rename_i found
    rw [noSource] at found
    cases found

theorem size_copy
    {source : Nat}
    {tape : Tape}
    (found : family.tape? source = some tape) :
    (family.copy source).members.size = family.members.size + 1 := by
  obtain ⟨member, member_eq, -⟩ := family.exists_member_of_tape? found
  unfold copy
  split
  · rename_i none
    rw [none] at member_eq
    cases member_eq
  · simp

end Views
end TapeFamily

/-! ## Histories -/

/-- What can be done to a family of tapes. -/
inductive TapeOperation
  /-- Append a tape of zeros. -/
  | create (capacity : Nat)
  /-- Append a copy of a tape. -/
  | copy (index : Nat)
  /-- Store a value on a tape. -/
  | set (index : Nat) (pointer : Int64) (value : Value)

/-- A family after one more operation.  A value that cannot be stored changes
nothing. -/
def TapeFamily.apply (family : TapeFamily) : TapeOperation -> TapeFamily
  | .create capacity => family.create capacity
  | .copy index => family.copy index
  | .set index pointer value =>
      match family.set index pointer value with
      | .ok after => after
      | .error _ => family

/-- The family that a number of operations build. -/
def TapeFamily.build (operations : List TapeOperation) : TapeFamily :=
  operations.foldl TapeFamily.apply {}

namespace FlatTape

/-- Independent arrays after one more operation. -/
def apply (arrays : Array FlatTape) : TapeOperation -> Array FlatTape
  | .create capacity => arrays.push (blank capacity)
  | .copy index =>
      match arrays[index]? with
      | none => arrays
      | some cells => arrays.push cells
  | .set index pointer value =>
      arrays.modify index fun cells => cells.set pointer value

/-- The arrays that a number of operations build. -/
def build (operations : List TapeOperation) : Array FlatTape :=
  operations.foldl apply #[]

end FlatTape

namespace Tape

section Set

variable {tape : Tape} {cells : FlatTape}

section Pointer

variable {pointer : Int64} {value : Value}

theorem get_eq_cell
    (onTape : 0 ≤ pointer ∧ pointer.toNatClampNeg < tape.capacity) :
    tape.get pointer = .ok (tape.cell ⟨pointer.toNatClampNeg, onTape.2⟩) := by
  unfold Tape.get index?
  rw [dif_pos onTape]
  rfl

theorem get_eq_error
    (offTape : ¬(0 ≤ pointer ∧ pointer.toNatClampNeg < tape.capacity)) :
    tape.get pointer = .error (.memoryAccess pointer tape.capacity) := by
  unfold Tape.get index?
  rw [dif_neg offTape]
  rfl

/-- A value can be stored at the pointers to a cell only. -/
theorem set_eq_error_iff {fault : Fault} :
    tape.set pointer value = .error fault ↔
      ¬(0 ≤ pointer ∧ pointer.toNatClampNeg < tape.capacity) ∧
        fault = .memoryAccess pointer tape.capacity := by
  unfold Tape.set index?
  split
  · rename_i onTape
    simp [Except.map, onTape]
  · rename_i offTape
    simp [Except.map, offTape, eq_comm]

section Changed

variable {changed : Tape}

theorem exists_store_of_set
    (stored : tape.set pointer value = .ok changed) :
    ∃ onTape : 0 ≤ pointer ∧ pointer.toNatClampNeg < tape.capacity,
      changed = tape.store ⟨pointer.toNatClampNeg, onTape.2⟩ value := by
  unfold Tape.set index? at stored
  split at stored
  · rename_i onTape
    cases stored
    exact ⟨onTape, rfl⟩
  · cases stored

theorem capacity_of_set (stored : tape.set pointer value = .ok changed) :
    changed.capacity = tape.capacity := by
  obtain ⟨-, rfl⟩ := exists_store_of_set stored
  rfl

/-- A stored value is found at its pointer, and at no other. -/
theorem get_of_set
    (stored : tape.set pointer value = .ok changed)
    (place : Int64) :
    changed.get place =
      if place = pointer then .ok value.canonicalize else tape.get place := by
  obtain ⟨onTape, rfl⟩ := exists_store_of_set stored
  by_cases placeOnTape : 0 ≤ place ∧ place.toNatClampNeg < tape.capacity
  · have sameCell :
        (⟨place.toNatClampNeg, placeOnTape.2⟩ : Fin tape.capacity) =
          ⟨pointer.toNatClampNeg, onTape.2⟩ ↔ place = pointer := by
      rw [Fin.mk.injEq]
      refine ⟨int64_eq_of_toNatClampNeg_eq placeOnTape.1 onTape.1, ?_⟩
      exact congrArg Int64.toNatClampNeg
    have stored_eq := cell_store tape
      ⟨pointer.toNatClampNeg, onTape.2⟩ ⟨place.toNatClampNeg, placeOnTape.2⟩
      value
    refine (@get_eq_cell (tape.store _ value) place placeOnTape).trans ?_
    refine (congrArg Except.ok stored_eq).trans ?_
    rw [get_eq_cell placeOnTape, apply_ite Except.ok]
    simp only [sameCell]
  · have differ : place ≠ pointer := by
      rintro rfl
      exact placeOnTape onTape
    rw [if_neg differ, get_eq_error placeOnTape]
    exact @get_eq_error (tape.store _ value) place placeOnTape

/-- Storing a value at a pointer stores it in the array. -/
theorem Holds.set
    (holds : tape.Holds cells)
    (stored : tape.set pointer value = .ok changed) :
    changed.Holds (cells.set pointer value) := by
  obtain ⟨onTape, rfl⟩ := exists_store_of_set stored
  unfold FlatTape.set
  rw [if_pos onTape.1]
  exact holds.store pointer.toNatClampNeg_lt value

end Changed

/-- A value that cannot be stored on a tape cannot be stored in the array. -/
theorem Holds.set_eq_self
    (holds : tape.Holds cells)
    {fault : Fault}
    (failed : tape.set pointer value = .error fault) :
    cells.set pointer value = cells := by
  obtain ⟨offTape, -⟩ := set_eq_error_iff.mp failed
  unfold FlatTape.set
  split
  · rename_i nonneg
    have outOfBounds : cells.size ≤ pointer.toNatClampNeg := by
      rw [← holds.capacity]
      by_contra inBounds
      exact offTape ⟨nonneg, Nat.lt_of_not_le inBounds⟩
    exact Array.setIfInBounds_eq_of_size_le outOfBounds
  · rfl

/-- The cells in order are the values at the pointers to them. -/
theorem Holds.getElem?_cells
    (holds : tape.Holds cells)
    (nonneg : 0 ≤ pointer) :
    tape.cells[pointer.toNatClampNeg]? = (tape.get pointer).toOption := by
  rw [holds.get, holds.cells_eq, Array.getElem?_toList]
  unfold FlatTape.get
  by_cases inBounds : pointer.toNatClampNeg < cells.size
  · rw [dif_pos ⟨nonneg, inBounds⟩, Array.getElem?_eq_getElem inBounds]
    rfl
  · rw [dif_neg fun onTape => inBounds onTape.2,
      Array.getElem?_eq_none (Nat.le_of_not_lt inBounds)]
    rfl

end Pointer

/-- The values on a page depend on nothing but the page and the number of
cells. -/
theorem get_eq_of_page_eq
    {other : Tape}
    {pointer : Int64}
    (capacity_eq : tape.capacity = other.capacity)
    (page_eq : tape.pages[pointer.toNatClampNeg / pageSize]? =
      other.pages[pointer.toNatClampNeg / pageSize]?) :
    tape.get pointer = other.get pointer := by
  obtain ⟨capacity, pages⟩ := tape
  obtain ⟨otherCapacity, otherPages⟩ := other
  obtain rfl : capacity = otherCapacity := capacity_eq
  unfold Tape.get index?
  split
  · rename_i onTape
    have pageExists := div_pageSize_lt_pageCount onTape.2
    rw [Vector.getElem?_eq_getElem pageExists,
      Vector.getElem?_eq_getElem pageExists, Option.some_inj] at page_eq
    simp [Except.map, cell, page_eq]
  · rfl

end Set
end Tape

namespace TapeFamily

/-- The members of a family hold the cells of independent arrays. -/
structure Mirrors (family : TapeFamily) (arrays : Array FlatTape) : Prop where
  size : family.members.size = arrays.size
  holds : ∀ {index tape cells}, family.tape? index = some tape ->
    arrays[index]? = some cells -> tape.Holds cells

section Mirrors

variable {family : TapeFamily} {arrays : Array FlatTape}

theorem mirrors_empty : Mirrors {} #[] := by
  refine ⟨rfl, ?_⟩
  intro index tape cells tape_eq
  simp [tape?_eq_map_read] at tape_eq

/-- There is an array for every member. -/
theorem Mirrors.exists_cells
    (mirrors : family.Mirrors arrays)
    {index : Nat}
    {tape : Tape}
    (tape_eq : family.tape? index = some tape) :
    ∃ cells, arrays[index]? = some cells ∧ tape.Holds cells := by
  obtain ⟨member, member_eq, -⟩ := family.exists_member_of_tape? tape_eq
  obtain ⟨indexLt, -⟩ := Array.getElem?_eq_some_iff.mp member_eq
  have cells_eq := Array.getElem?_eq_getElem (mirrors.size ▸ indexLt)
  exact ⟨_, cells_eq, mirrors.holds tape_eq cells_eq⟩

/-- Appending a tape and the array that it holds. -/
theorem Mirrors.push
    {after : TapeFamily}
    {added : Tape}
    {addedCells : FlatTape}
    (mirrors : family.Mirrors arrays)
    (size_eq : after.members.size = family.members.size + 1)
    (tape?_eq : ∀ index, after.tape? index =
      if index = family.members.size then some added else family.tape? index)
    (addedHolds : added.Holds addedCells) :
    after.Mirrors (arrays.push addedCells) := by
  refine ⟨?_, ?_⟩
  · rw [size_eq, Array.size_push, mirrors.size]
  · intro index tape cells tape_eq cells_eq
    rw [tape?_eq, mirrors.size] at tape_eq
    rw [Array.getElem?_push] at cells_eq
    split at tape_eq
    · rename_i isLast
      rw [if_pos isLast] at cells_eq
      cases tape_eq
      cases cells_eq
      exact addedHolds
    · rename_i notLast
      rw [if_neg notLast] at cells_eq
      exact mirrors.holds tape_eq cells_eq

theorem Mirrors.copy
    (mirrors : family.Mirrors arrays)
    (source : Nat) :
    (family.copy source).Mirrors (FlatTape.apply arrays (.copy source)) := by
  unfold FlatTape.apply
  dsimp only
  cases tape_eq : family.tape? source with
  | none =>
      have noCells : arrays[source]? = none := by
        rw [Array.getElem?_eq_none_iff, ← mirrors.size]
        simpa [tape?_eq_map_read] using tape_eq
      rw [family.copy_of_tape?_eq_none tape_eq, noCells]
      exact mirrors
  | some tape =>
      obtain ⟨cells, cells_eq, holds⟩ := mirrors.exists_cells tape_eq
      rw [cells_eq]
      exact mirrors.push (family.size_copy tape_eq) (family.tape?_copy tape_eq)
        holds

theorem Mirrors.set
    (mirrors : family.Mirrors arrays)
    {index : Nat}
    {pointer : Int64}
    {value : Value}
    {after : TapeFamily}
    (stored : family.set index pointer value = .ok after) :
    after.Mirrors
      (arrays.modify index fun cells => cells.set pointer value) := by
  refine ⟨?_, ?_⟩
  · rw [family.size_set stored, Array.size_modify, mirrors.size]
  · intro other tape cells tape_eq cells_eq
    rw [family.tape?_set stored] at tape_eq
    rw [Array.getElem?_modify] at cells_eq
    split at tape_eq
    · rename_i same
      subst same
      rw [if_pos rfl] at cells_eq
      obtain ⟨before, before_eq, changed_eq⟩ :=
        Option.bind_eq_some_iff.mp tape_eq
      obtain ⟨beforeCells, beforeCells_eq, rfl⟩ :=
        Option.map_eq_some_iff.mp cells_eq
      have holds := mirrors.holds before_eq beforeCells_eq
      cases changed : before.set pointer value with
      | ok _ =>
          rw [changed] at changed_eq
          cases changed_eq
          exact holds.set changed
      | error fault =>
          rw [changed] at changed_eq
          cases changed_eq
    · rename_i differ
      rw [if_neg (Ne.symm differ)] at cells_eq
      exact mirrors.holds tape_eq cells_eq

/-- A value that cannot be stored on a member cannot be stored in its array. -/
theorem Mirrors.modify_eq_self
    (mirrors : family.Mirrors arrays)
    {index : Nat}
    {pointer : Int64}
    {value : Value}
    {fault : Fault}
    (failed : family.set index pointer value = .error fault) :
    (arrays.modify index fun cells => cells.set pointer value) = arrays := by
  obtain ⟨tape, tape_eq, notStored⟩ := family.set_eq_error_iff.mp failed
  obtain ⟨cells, cells_eq, holds⟩ := mirrors.exists_cells tape_eq
  apply Array.ext_getElem?
  intro other
  rw [Array.getElem?_modify]
  split
  · rename_i same
    subst same
    rw [cells_eq, Option.map_some, holds.set_eq_self notStored]
  · rfl

/-- One operation is the same on the family and on the arrays. -/
theorem Mirrors.apply
    (mirrors : family.Mirrors arrays)
    (operation : TapeOperation) :
    (family.apply operation).Mirrors (FlatTape.apply arrays operation) := by
  cases operation with
  | create capacity =>
      exact mirrors.push (Array.size_push _) (family.tape?_create capacity)
        (Tape.holds_blank capacity)
  | copy index => exact mirrors.copy index
  | set index pointer value =>
      unfold TapeFamily.apply FlatTape.apply
      dsimp only
      split
      · rename_i stored
        exact mirrors.set stored
      · rename_i failed
        rw [mirrors.modify_eq_self failed]
        exact mirrors

/-- The same operations build a family and the arrays that it mirrors. -/
theorem mirrors_build (operations : List TapeOperation) :
    (build operations).Mirrors (FlatTape.build operations) := by
  apply List.foldl_rel mirrors_empty
  intro operation _ family arrays mirrors
  exact mirrors.apply operation

end Mirrors

/-! ## Pages in common -/

/-- Members that have a page in common have as many cells as each other. -/
def IsLineal (family : TapeFamily) : Prop :=
  ∀ first ∈ family.members, ∀ second ∈ family.members,
    ∀ address ∈ first.addresses, address ∈ second.addresses ->
      first.capacity = second.capacity

section Lineal

variable {family : TapeFamily}

/-- A new member keeps the family lineal if it has the number of cells of all
members with which it has a page in common. -/
theorem IsLineal.push
    {after : TapeFamily}
    {added : SharedTape}
    (lineal : family.IsLineal)
    (members_eq : ∀ member ∈ after.members,
      member ∈ family.members ∨ member = added)
    (agrees : ∀ member ∈ family.members, ∀ address ∈ member.addresses,
      address ∈ added.addresses -> member.capacity = added.capacity) :
    after.IsLineal := by
  intro first isFirst second isSecond address inFirst inSecond
  rcases members_eq first isFirst with firstOld | rfl
  · rcases members_eq second isSecond with secondOld | rfl
    · exact lineal first firstOld second secondOld address inFirst inSecond
    · exact agrees first firstOld address inFirst inSecond
  · rcases members_eq second isSecond with secondOld | rfl
    · exact (agrees second secondOld address inSecond inFirst).symm
    · rfl

theorem IsLineal.create
    (lineal : family.IsLineal)
    (capacity : Nat) :
    (family.create capacity).IsLineal := by
  apply lineal.push (fun member => Array.mem_push.mp)
  intro member isMember address refers isNew
  have inStore := family.stored member isMember address refers
  rw [Vector.eq_of_mem_replicate isNew] at inStore
  exact absurd inStore (Nat.lt_irrefl _)

theorem IsLineal.copy
    (lineal : family.IsLineal)
    (source : Nat) :
    (family.copy source).IsLineal := by
  unfold TapeFamily.copy
  split
  · exact lineal
  · rename_i copied found
    apply lineal.push (fun member => Array.mem_push.mp)
    intro member isMember
    exact lineal member isMember copied (Array.mem_of_getElem? found)

theorem IsLineal.changePage
    (lineal : family.IsLineal)
    {index page : Nat}
    (indexLt : index < family.members.size)
    (pageExists : page < pageCount family.members[index].capacity)
    (change : Page -> Page) :
    (family.changePage index page indexLt pageExists change).IsLineal := by
  unfold TapeFamily.changePage
  dsimp only
  split
  · exact lineal
  · have isOld : family.members[index] ∈ family.members :=
      Array.getElem_mem indexLt
    have members_eq :
        ∀ member ∈ family.members.set index
          (family.members[index].redirect page pageExists family.pages.size),
        member ∈ family.members ∨
          member =
            family.members[index].redirect page pageExists family.pages.size :=
      fun member => Array.mem_or_eq_of_mem_set
    apply lineal.push members_eq
    intro member isMember address refers isNew
    rcases SharedTape.mem_addresses_redirect isNew with kept | rfl
    · exact lineal member isMember family.members[index] isOld address refers
        kept
    · have inStore := family.stored member isMember _ refers
      exact absurd inStore (Nat.lt_irrefl _)

/-- Every operation keeps a family lineal. -/
theorem IsLineal.apply
    (lineal : family.IsLineal)
    (operation : TapeOperation) :
    (family.apply operation).IsLineal := by
  cases operation with
  | create capacity => exact lineal.create capacity
  | copy source => exact lineal.copy source
  | set index pointer value =>
      unfold TapeFamily.apply
      dsimp only
      split
      · rename_i stored
        rcases family.eq_or_exists_changePage_of_set stored with
          ⟨-, rfl⟩ | ⟨indexLt, cell, -, rfl⟩
        · exact lineal
        · exact lineal.changePage indexLt _ _
      · exact lineal

theorem isLineal_build (operations : List TapeOperation) :
    (build operations).IsLineal := by
  apply List.foldlRecOn
  · intro first isFirst
    simp at isFirst
  · intro family lineal operation _
    exact lineal.apply operation

/-- Members share a page if they refer to the same address. -/
theorem exists_address_of_sharesPage
    {first second cell : Nat}
    {firstMember secondMember : SharedTape}
    (shared : family.sharesPage first second cell = true)
    (first_eq : family.members[first]? = some firstMember)
    (second_eq : family.members[second]? = some secondMember) :
    ∃ address, firstMember.addresses[cell / pageSize]? = some address ∧
      secondMember.addresses[cell / pageSize]? = some address := by
  unfold sharesPage member? at shared
  rw [first_eq, second_eq] at shared
  dsimp only [Option.map_some] at shared
  split at shared
  · rename_i firstLabel secondLabel firstRefers secondRefers
    rw [beq_iff_eq] at shared
    subst shared
    exact ⟨firstLabel, by simpa using firstRefers, by simpa using secondRefers⟩
  · cases shared

/-- The tapes of members that share the page of a cell have the same value at
every pointer to that page. -/
theorem IsLineal.get_eq_of_sharesPage
    (lineal : family.IsLineal)
    {first second cell : Nat}
    {firstTape secondTape : Tape}
    {pointer : Int64}
    (shared : family.sharesPage first second cell = true)
    (first_eq : family.tape? first = some firstTape)
    (second_eq : family.tape? second = some secondTape)
    (onPage : pointer.toNatClampNeg / pageSize = cell / pageSize) :
    firstTape.get pointer = secondTape.get pointer := by
  obtain ⟨firstMember, firstFound, rfl⟩ :=
    family.exists_member_of_tape? first_eq
  obtain ⟨secondMember, secondFound, rfl⟩ :=
    family.exists_member_of_tape? second_eq
  obtain ⟨address, firstRefers, secondRefers⟩ :=
    exists_address_of_sharesPage shared firstFound secondFound
  have capacity_eq := lineal
    firstMember (Array.mem_of_getElem? firstFound)
    secondMember (Array.mem_of_getElem? secondFound)
    address (Vector.mem_of_getElem? firstRefers)
    (Vector.mem_of_getElem? secondRefers)
  apply Tape.get_eq_of_page_eq capacity_eq
  rw [onPage]
  exact (SharedTape.getElem?_contents firstRefers).trans
    (SharedTape.getElem?_contents secondRefers).symm

end Lineal

/-! ## Independence -/

/-- Every member of a family of tapes behaves as an array of its own. -/
structure Independent (family : TapeFamily) (arrays : Array FlatTape) :
    Prop where
  /-- There is an array for every member, and a member for every array. -/
  size : family.members.size = arrays.size
  /-- A member has the cells of its array, at every pointer and in order. -/
  array : ∀ {index tape cells}, family.tape? index = some tape ->
    arrays[index]? = some cells ->
      tape.capacity = cells.size ∧
        (∀ pointer, tape.get pointer = cells.get pointer) ∧
        tape.cells = cells.toList
  /-- The cells of a member in order are its values at the pointers to them. -/
  cells : ∀ {index tape}, family.tape? index = some tape ->
    tape.cells.length = tape.capacity ∧
      ∀ pointer, 0 ≤ pointer ->
        tape.cells[pointer.toNatClampNeg]? = (tape.get pointer).toOption
  /-- A value cannot be stored where there is no cell. -/
  failed : ∀ {index tape pointer value fault},
    family.tape? index = some tape ->
      (family.set index pointer value = .error fault ↔
        ¬(0 ≤ pointer ∧ pointer.toNatClampNeg < tape.capacity) ∧
          fault = .memoryAccess pointer tape.capacity)
  /-- If a value cannot be stored, nothing changes. -/
  unchanged : ∀ {index pointer value fault},
    family.set index pointer value = .error fault ->
      family.apply (.set index pointer value) = family
  /-- A value that is stored changes one cell of one member. -/
  stored : ∀ {index pointer value after},
    family.set index pointer value = .ok after ->
      after.members.size = family.members.size ∧
        ∀ {other tape}, family.tape? other = some tape ->
          ∃ changed, after.tape? other = some changed ∧
            changed.capacity = tape.capacity ∧
            ∀ place, changed.get place =
              if other = index ∧ place = pointer then
                .ok value.canonicalize
              else
                tape.get place
  /-- Members are equal if nothing tells them apart. -/
  eq_iff : ∀ {first second firstTape secondTape},
    family.tape? first = some firstTape ->
    family.tape? second = some secondTape ->
      (firstTape = secondTape ↔
        firstTape.capacity = secondTape.capacity ∧
          ∀ pointer, firstTape.get pointer = secondTape.get pointer)
  /-- A page that two members share has the same values on both. -/
  shared : ∀ {first second cell firstTape secondTape},
    family.sharesPage first second cell = true ->
    family.tape? first = some firstTape ->
    family.tape? second = some secondTape ->
      ∀ pointer : Int64,
        pointer.toNatClampNeg / pageSize = cell / pageSize ->
          firstTape.get pointer = secondTape.get pointer

section Independent

variable {family : TapeFamily} {arrays : Array FlatTape}

/-- Storing a value changes one cell of one member. -/
theorem exists_changed_of_set
    {index other : Nat}
    {pointer : Int64}
    {value : Value}
    {after : TapeFamily}
    {tape : Tape}
    (stored : family.set index pointer value = .ok after)
    (tape_eq : family.tape? other = some tape) :
    ∃ changed, after.tape? other = some changed ∧
      changed.capacity = tape.capacity ∧
      ∀ place, changed.get place =
        if other = index ∧ place = pointer then
          .ok value.canonicalize
        else
          tape.get place := by
  rw [family.tape?_set stored]
  by_cases same : other = index
  · subst same
    rw [if_pos rfl, tape_eq, Option.bind_some]
    cases changed_eq : tape.set pointer value with
    | ok changed =>
        refine ⟨changed, rfl, Tape.capacity_of_set changed_eq, ?_⟩
        intro place
        rw [Tape.get_of_set changed_eq]
        simp
    | error fault =>
        have failed := family.set_eq_error_iff.mpr ⟨tape, tape_eq, changed_eq⟩
        rw [failed] at stored
        cases stored
  · rw [if_neg same]
    refine ⟨tape, tape_eq, rfl, ?_⟩
    intro place
    rw [if_neg fun both => same both.1]

theorem Mirrors.independent
    (mirrors : family.Mirrors arrays)
    (lineal : family.IsLineal) :
    family.Independent arrays where
  size := mirrors.size
  array := by
    intro index tape cells tape_eq cells_eq
    have holds := mirrors.holds tape_eq cells_eq
    exact ⟨holds.capacity, holds.get, holds.cells_eq⟩
  cells := by
    intro index tape tape_eq
    obtain ⟨cells, -, holds⟩ := mirrors.exists_cells tape_eq
    refine ⟨?_, fun pointer => holds.getElem?_cells⟩
    rw [holds.cells_eq, Array.length_toList, holds.capacity]
  failed := by
    intro index tape pointer value fault tape_eq
    rw [set_eq_error_iff]
    simp [tape_eq, Tape.set_eq_error_iff]
  unchanged := by
    intro index pointer value fault failed
    simp [TapeFamily.apply, failed]
  stored := by
    intro index pointer value after stored
    exact ⟨family.size_set stored, exists_changed_of_set stored⟩
  eq_iff := by
    intro first second firstTape secondTape first_eq second_eq
    obtain ⟨_, -, firstHolds⟩ := mirrors.exists_cells first_eq
    obtain ⟨_, -, secondHolds⟩ := mirrors.exists_cells second_eq
    exact firstHolds.eq_iff secondHolds
  shared := by
    intro first second cell firstTape secondTape shared first_eq second_eq
      pointer
    exact lineal.get_eq_of_sharesPage shared first_eq second_eq

end Independent
end TapeFamily

/-- However a family of tapes was built, each of its members behaves as an array
of its own, and pages in common are never felt. -/
theorem TapeFamily.members_are_independent_arrays
    (operations : List TapeOperation) :
    (TapeFamily.build operations).Independent (FlatTape.build operations) := by
  have mirrors := mirrors_build operations
  have lineal := isLineal_build operations
  exact mirrors.independent lineal

-- A copy shares its pages with the original until a value is stored on one.
example :
    let family := TapeFamily.build
      [.create 300, .copy 0, .set 1 299 (.concrete 7),
        .set 0 300 (.concrete 1)]
    family.sharesPage 0 1 0 = true ∧ family.sharesPage 0 1 299 = false := by
  decide +kernel

end SymbolicTape

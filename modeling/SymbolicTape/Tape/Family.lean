import SymbolicTape.Tape

/-!
# Tapes that share their pages

A family of tapes grows by new tapes and copies.  The pages of all members are
kept in one store, and a member refers to its pages by their addresses.  All
pages of a new tape are one and the same blank page, and a copy refers to the
pages of the tape that it was copied from.

A page is changed in place only if a single reference leads to it.  To store a
value on a page that is shared, the page is copied, and the reference is turned
to the copy.  Pages are never taken out of the store, so an address stays what it
was.
-/

namespace SymbolicTape

/-- A tape whose pages are kept in a store. -/
structure SharedTape where
  /-- The number of cells. -/
  capacity : Nat
  /-- The addresses of the pages that hold them. -/
  addresses : Vector Nat (pageCount capacity)

/-- A tape with a label for each page.  Pages of equal label are one and the
same. -/
structure LabelledTape where
  /-- The tape. -/
  tape : Tape
  /-- The labels of its pages. -/
  labels : Array Nat

namespace SharedTape

/-- The pages that a tape refers to. -/
def contents
    (pages : Array Page)
    (shared : SharedTape) : Vector Page (pageCount shared.capacity) :=
  shared.addresses.map fun address => pages.getD address Tape.blankPage

/-- The tape with the pages that it refers to. -/
def read (pages : Array Page) (shared : SharedTape) : Tape :=
  ⟨shared.capacity, shared.contents pages⟩

/-- The tape with one of its references turned to another address. -/
def redirect
    (shared : SharedTape)
    (page : Nat)
    (pageExists : page < pageCount shared.capacity)
    (address : Nat) : SharedTape :=
  { shared with addresses := shared.addresses.set page address }

/-- Redirecting a tape adds no reference but the new one. -/
theorem mem_addresses_redirect
    {shared : SharedTape}
    {page added address : Nat}
    {pageExists : page < pageCount shared.capacity}
    (refers : address ∈ (shared.redirect page pageExists added).addresses) :
    address ∈ shared.addresses ∨ address = added :=
  @Vector.mem_or_eq_of_mem_set _ _ _ _ _ _ pageExists refers

end SharedTape

/-- Tapes that were built from one another. -/
structure TapeFamily where
  /-- The pages of all tapes, by their addresses. -/
  pages : Array Page := #[]
  /-- The tapes, by the order in which they were built. -/
  members : Array SharedTape := #[]
  /-- Every reference leads to a page. -/
  stored : ∀ member ∈ members, ∀ address ∈ member.addresses,
    address < pages.size := by
      intro member isMember
      exact absurd isMember (Array.not_mem_empty member)

namespace TapeFamily

/-- Append a tape on which all cells hold zero. -/
def create (family : TapeFamily) (capacity : Nat) : TapeFamily :=
  { pages := family.pages.push Tape.blankPage
    members := family.members.push
      ⟨capacity, Vector.replicate (pageCount capacity) family.pages.size⟩
    stored := by
      intro member isMember address refers
      rw [Array.size_push]
      rcases Array.mem_push.mp isMember with old | rfl
      · exact Nat.lt_succ_of_lt (family.stored member old address refers)
      · rw [Vector.eq_of_mem_replicate refers]
        exact Nat.lt_succ_self _ }

/-- The member at an index. -/
def member? (family : TapeFamily) (index : Nat) : Option LabelledTape :=
  family.members[index]?.map fun member =>
    ⟨member.read family.pages, member.addresses.toArray⟩

/-- Append a copy of a member, which refers to the same pages. -/
def copy (family : TapeFamily) (index : Nat) : TapeFamily :=
  match found : family.members[index]? with
  | none => family
  | some member =>
      { family with
        members := family.members.push member
        stored := by
          intro other isMember
          rcases Array.mem_push.mp isMember with old | rfl
          · exact family.stored other old
          · exact family.stored other (Array.mem_of_getElem? found) }

/-- The number of references that lead to a page. -/
def references (family : TapeFamily) (address : Nat) : Nat :=
  (family.members.toList.flatMap fun member =>
    member.addresses.toList).count address

/-- Change a page of a member.  A page that is shared stays as it is, and a copy
of it is changed. -/
def changePage
    (family : TapeFamily)
    (index page : Nat)
    (indexLt : index < family.members.size)
    (pageExists : page < pageCount family.members[index].capacity)
    (change : Page -> Page) : TapeFamily :=
  let member := family.members[index]
  let address := member.addresses[page]
  let changed := change (family.pages.getD address Tape.blankPage)
  if family.references address = 1 then
    { family with
      pages := family.pages.setIfInBounds address changed
      stored := by simpa using family.stored }
  else
    { pages := family.pages.push changed
      members := family.members.set index
        (member.redirect page pageExists family.pages.size)
      stored := by
        intro other isMember address refers
        rw [Array.size_push]
        rcases Array.mem_or_eq_of_mem_set isMember with old | rfl
        · exact Nat.lt_succ_of_lt (family.stored other old address refers)
        · rcases SharedTape.mem_addresses_redirect refers with kept | rfl
          · have isOld : member ∈ family.members := Array.getElem_mem indexLt
            exact Nat.lt_succ_of_lt (family.stored member isOld address kept)
          · exact Nat.lt_succ_self _ }

/-- Store a value on a member. -/
def set
    (family : TapeFamily)
    (index : Nat)
    (pointer : Int64)
    (value : Value) : Except Fault TapeFamily :=
  if indexLt : index < family.members.size then
    let tape := family.members[index].read family.pages
    (tape.index? pointer).map fun cell =>
      family.changePage index (cell.val / pageSize) indexLt
        (div_pageSize_lt_pageCount cell.isLt)
        fun page => page.set (cell.val % pageSize) value.canonicalize
          (mod_pageSize_lt cell.val)
  else
    .ok family

/-- Whether two members have the page of a cell in common.  A page that one of
them lacks is not in common. -/
def sharesPage
    (family : TapeFamily)
    (first second cell : Nat) : Bool :=
  match family.member? first, family.member? second with
  | some first, some second =>
      match first.labels[cell / pageSize]?, second.labels[cell / pageSize]? with
      | some firstLabel, some secondLabel => firstLabel == secondLabel
      | _, _ => false
  | _, _ => false

end TapeFamily
end SymbolicTape

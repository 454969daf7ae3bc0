import PhysMem.Frame.Owner

/-!
# Descriptors — what is known about one frame

A descriptor says whether its frame is in use and for whom, whether the frame is on its way to or
from swap, where it stands on the resident chain, and which slot of the TLB last mapped it. The
descriptor of a free frame is `free` in every field.
-/

namespace PhysMem

/-- What is known about one frame. -/
structure Descriptor where
  allocated : Bool := false
  /-- Holds a page; otherwise, while allocated, a kernel frame. -/
  isUser : Bool := false
  /-- The next frame belongs to the same kernel run. -/
  tail : Bool := false
  /-- Taken off the chain, its contents on the way to swap. -/
  evicting : Bool := false
  /-- Given up by its owner while evicting or pinned. -/
  orphaned : Bool := false
  /-- Not on the chain yet, because a page-in is still filling it. -/
  pinned : Bool := false
  /-- The page a user frame holds. -/
  page : Option Page := none
  /-- The neighbour on the chain that has been resident longer. -/
  prev : Option Nat := none
  /-- The neighbour on the chain that has been resident for less time. -/
  next : Option Nat := none
  /-- The TLB slot that last mapped the frame. -/
  tlbSlot : Option Nat := none
  deriving DecidableEq, Repr, Inhabited

namespace Descriptor

/-- The descriptor of a free frame. -/
def free : Descriptor := {}

/-- The descriptor of a frame just claimed. -/
def claimed (owner : FrameOwner) (tail pinned : Bool) : Descriptor where
  allocated := true
  isUser := owner.kind = .user
  tail
  pinned
  page := owner.page?

/-- The kind of an allocated frame. -/
def kind? (d : Descriptor) : Option FrameKind :=
  if d.allocated then some (if d.isUser then .user else .kernel) else none

/-- On its way to or from swap. -/
def inTransit (d : Descriptor) : Bool := d.evicting || d.pinned

/-- A resident user frame: these and no others stand on the chain. -/
def isResident (d : Descriptor) : Bool :=
  d.kind? == some .user && !d.evicting && !d.pinned

/-- Whether the frame holds a page of `space`. -/
def holdsPageOf (d : Descriptor) (space : Nat) : Bool :=
  match d.page with
  | some page => page.space == space
  | none => false

/-- An optional value as text. -/
def describeOption (value : Option String) : String :=
  match value with
  | some text => "Some(" ++ text ++ ")"
  | none => "None"

/-- The text that shows every field. -/
def describe (d : Descriptor) : String :=
  "CoreMapEntry \x7b owner: " ++ describeOption (d.kind?.map FrameKind.name) ++
    ", contiguous_tail: " ++ toString d.tail ++ ", evicting: " ++ toString d.evicting ++
    ", orphaned: " ++ toString d.orphaned ++ ", pinned: " ++ toString d.pinned ++
    ", owning_entry: " ++ describeOption (d.page.map Page.describe) ++
    ", chain_prev: " ++ describeOption (d.prev.map index) ++
    ", chain_next: " ++ describeOption (d.next.map index) ++
    ", translation_slot: " ++ describeOption (d.tlbSlot.map toString) ++ " \x7d"
where
  index (i : Nat) : String := "FrameIndex(" ++ toString i ++ ")"

end Descriptor

end PhysMem

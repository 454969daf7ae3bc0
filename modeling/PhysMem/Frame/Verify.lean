import PhysMem.Frame.Coremap

/-!
# Verification — is a coremap well formed?

The chain is walked from both ends and compared with the descriptors, and the counters are
recounted. The first thing found wrong is the answer.

* **`Coremap.flaw?`** is the check, **`Coremap.Flaw`** what it can find.
-/

namespace PhysMem

/-- What can be wrong with a coremap. -/
inductive Coremap.Flaw where
  | strangerOnChain
  | backLinkMismatch
  | cycle
  | endMismatch
  | lengthMismatch
  | linkedKernelFrame
  | ownerlessUserFrame
  | staleFreeFrame
  | missingFromChain
  | counterMismatch
  deriving DecidableEq, Repr

/-- The text that names the flaw. -/
def Coremap.Flaw.message : Coremap.Flaw → String
  | .strangerOnChain => "chain holds a frame that is not a resident user frame"
  | .backLinkMismatch => "chain back link does not match forward walk"
  | .cycle => "chain has a cycle"
  | .endMismatch => "forward walk does not end at newest"
  | .lengthMismatch => "forward and backward walks differ in length"
  | .linkedKernelFrame => "kernel frame is linked into the chain"
  | .ownerlessUserFrame => "user frame without an owning entry"
  | .staleFreeFrame => "free frame has stale descriptor state"
  | .missingFromChain => "chain does not cover every resident user frame"
  | .counterMismatch => "frame counters out of sync with descriptors"

/-- What is wrong with a descriptor on its own. -/
def Descriptor.flaw? (d : Descriptor) : Option Coremap.Flaw :=
  match d.kind? with
  | some .kernel => if d.prev.isSome || d.next.isSome then some .linkedKernelFrame else none
  | some .user => if d.page.isNone then some .ownerlessUserFrame else none
  | none =>
    if d.isUser || d.tail || d.evicting || d.orphaned || d.pinned || d.page.isSome then
      some .staleFreeFrame
    else none

namespace Coremap

/-- What is wrong with the frames of a forward walk, the first of which should have `before` as its
older neighbour. -/
def walkFlaw? (m : Coremap) : Option Nat → List Nat → Option Flaw
  | _, [] => none
  | before, i :: rest =>
    let d := m.frames[i]?.getD .free
    if !d.isResident then some .strangerOnChain
    else if d.prev ≠ before then some .backLinkMismatch
    else m.walkFlaw? (some i) rest

/-- What is wrong with the chain. -/
def chainFlaw? (m : Coremap) : Option Flaw :=
  let forward := m.chain
  match m.walkFlaw? none forward with
  | some flaw => some flaw
  | none =>
    if forward.length = m.walkLimit then some .cycle
    else if forward.getLast? ≠ m.newest then some .endMismatch
    else if m.chainBack.length ≠ forward.length then some .lengthMismatch
    else none

/-- How many frames satisfy `p`. -/
def countFrames (m : Coremap) (p : Descriptor → Bool) : Nat := m.frames.countP p

/-- What is wrong with the number of frames of each sort. -/
def countFlaw? (m : Coremap) : Option Flaw :=
  if m.countFrames (·.isResident) ≠ m.chain.length then some .missingFromChain
  else if m.countFrames (·.kind? == some .kernel) ≠ m.kernelCount ∨
      m.countFrames (·.kind? == some .user) ≠ m.userCount ∨
      m.countFrames (fun d => d.kind? == some .user && d.evicting) ≠ m.evictingCount then
    some .counterMismatch
  else none

/-- What is wrong with the coremap, nothing if it is well formed. -/
def flaw? (m : Coremap) : Option Flaw :=
  match m.chainFlaw? with
  | some flaw => some flaw
  | none =>
    match m.frames.toList.findSome? Descriptor.flaw? with
    | some flaw => some flaw
    | none => m.countFlaw?

end Coremap

end PhysMem

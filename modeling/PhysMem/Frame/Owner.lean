import PhysMem.Page

/-!
# Frame owners — who a frame is handed out to

Kernel frames are never evicted and belong to nobody in particular. A user frame holds one page.
-/

namespace PhysMem

/-- The two kinds of frames in use. -/
inductive FrameKind where
  | kernel
  | user
  deriving DecidableEq, Repr

/-- The name of the kind in messages. -/
def FrameKind.name : FrameKind → String
  | .kernel => "Kernel"
  | .user => "User"

/-- Who frames are claimed for. -/
inductive FrameOwner where
  | kernel
  | user (page : Page)
  deriving DecidableEq, Repr

namespace FrameOwner

/-- The kind of frame the owner gets. -/
def kind : FrameOwner → FrameKind
  | .kernel => .kernel
  | .user _ => .user

/-- The page the frame will hold. -/
def page? : FrameOwner → Option Page
  | .kernel => none
  | .user page => some page

end FrameOwner

end PhysMem

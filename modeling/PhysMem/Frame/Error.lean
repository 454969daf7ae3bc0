import PhysMem.Swap.Error

/-!
# Frame errors — why a request for memory was not met
-/

namespace PhysMem

/-- Why a request to the frame allocator failed. -/
inductive FrameError where
  | outOfMemory
  /-- There was no free run, and the eviction that should have made one failed. -/
  | evictionFailed (cause : EvictError)
  | invalidArgument (reason : String)
  | invalidAddress (address : Nat)
  /-- A page-in could not complete. -/
  | restoreFailed (cause : SwapError)
  /-- The address space was torn down while one of its pages was brought back. -/
  | ownerReleased
  | bootstrapExhausted
  deriving DecidableEq, Repr

namespace FrameError

/-- A request for no frames at all. -/
def noFrames : FrameError := .invalidArgument "zero frames requested"

/-- A request that names a page for kernel frames. -/
def ownedKernelFrames : FrameError := .invalidArgument "kernel frames have no owning entry"

/-- A request for a user frame that names no page. -/
def unownedUserFrame : FrameError := .invalidArgument "user frames need an owning entry"

/-- A request for a run of user frames. -/
def userFrameRun : FrameError := .invalidArgument "user frames are allocated one at a time"

/-- The text shown to people. -/
def message : FrameError → String
  | .outOfMemory => "out of physical frames"
  | .evictionFailed cause => "out of physical frames, eviction failed: " ++ cause.message
  | .invalidArgument reason => "invalid frame request: " ++ reason
  | .invalidAddress address =>
    Numeral.hex address ++ " is not the base of an allocated frame run"
  | .restoreFailed cause => "could not restore page from swap: " ++ cause.message
  | .ownerReleased => "owner released while its page was being restored"
  | .bootstrapExhausted => "not enough memory to hold the coremap"

/-- A text in quotes, with quotes, backslashes and control characters escaped. -/
def quoted (text : String) : String :=
  "\"" ++ String.join (text.toList.map escape) ++ "\""
where
  escape (c : Char) : String :=
    if c = '"' then "\\\"" else if c = '\\' then "\\\\"
    else if c = '\n' then "\\n" else if c = '\r' then "\\r" else if c = '\t' then "\\t"
    else if c = '\x00' then "\\0"
    else if c.toNat < 0x20 ∨ c.toNat = 0x7f then
      "\\u\x7b" ++ String.ofList (Nat.toDigits 16 c.toNat) ++ "\x7d"
    else c.toString

/-- The text shown to developers. -/
def describe : FrameError → String
  | .outOfMemory => "OutOfMemory"
  | .evictionFailed cause => "EvictionFailed(" ++ cause.describe ++ ")"
  | .invalidArgument reason => "InvalidArgument(" ++ quoted reason ++ ")"
  | .invalidAddress address => s!"InvalidAddress({address})"
  | .restoreFailed cause => "RestoreFailed(" ++ cause.describe ++ ")"
  | .ownerReleased => "OwnerReleased"
  | .bootstrapExhausted => "BootstrapExhausted"

/-- The texts of the errors behind this one. -/
def causes : FrameError → List String
  | .evictionFailed cause => cause.message :: cause.causes
  | .restoreFailed cause => cause.message :: cause.causes
  | _ => []

/-- Whether the request failed for lack of memory: none is left, or none could be made. -/
def isOutOfMemory : FrameError → Bool
  | .outOfMemory | .evictionFailed _ => true
  | _ => false

end FrameError

end PhysMem

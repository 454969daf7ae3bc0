/-!
# Block kinds — what a block device is used for
-/

namespace PhysMem

/-- What a block device is used for. -/
inductive BlockKind where
  | kernel
  | fileSystem
  | swap
  | raw
  /-- Owned by another system, and never written. -/
  | foreign
  deriving DecidableEq, Repr

namespace BlockKind

/-- The name shown to people. -/
def name : BlockKind → String
  | .kernel => "Kernel"
  | .fileSystem => "File System"
  | .swap => "Swap"
  | .raw => "Raw"
  | .foreign => "Foreign"

/-- The name shown to developers. -/
def describe : BlockKind → String
  | .fileSystem => "FileSystem"
  | kind => kind.name

end BlockKind

end PhysMem

import PhysMem.Page

/-!
# Page entries — what the processor reads about a page

An entry is one word of 32 bits. Bits 12 to 31 are a field: while `present` is set it holds a frame
number, and once the page has been evicted (`present` clear, `swapped` set) it holds the number of
a swap slot. The remaining bits without a name are kept as they are.

* **`mapping?`** is the entry of a resident user page, **`evicted?`** that of an evicted one.
* **`frameAddress?`** and **`slot?`** read the two back; no entry answers both.
-/

namespace PhysMem

/-- One entry of a page table. -/
structure PageEntry where
  raw : BitVec 32
  deriving DecidableEq, Repr

namespace PageEntry

/-- The named single bits of an entry. -/
inductive Flag where
  | present
  | writable
  | user
  | accessed
  | dirty
  | swapped
  deriving DecidableEq, Repr

/-- The place of the bit in the entry. -/
def Flag.place : Flag → Nat
  | .present => 0
  | .writable => 1
  | .user => 2
  | .accessed => 5
  | .dirty => 6
  | .swapped => 9

/-- The entry of a page that was never mapped. -/
def empty : PageEntry := ⟨0⟩

/-- Whether the bit is set. -/
def has (e : PageEntry) (flag : Flag) : Bool := e.raw.getLsbD flag.place

/-- The entry with the bit set to `value`. -/
def put (e : PageEntry) (flag : Flag) (value : Bool) : PageEntry :=
  let mask := BitVec.twoPow 32 flag.place
  ⟨if value then e.raw ||| mask else e.raw &&& ~~~mask⟩

/-- Bits 12 to 31. -/
def field (e : PageEntry) : BitVec 20 := e.raw.extractLsb' 12 20

/-- The entry with bits 12 to 31 replaced. -/
def putField (e : PageEntry) (value : BitVec 20) : PageEntry :=
  ⟨(e.raw &&& 0xFFF#32) ||| (value.setWidth 32 <<< 12)⟩

/-- The number `value` as a field, if it fits. -/
def fieldOf? (value : Nat) : Option (BitVec 20) :=
  if value < Word.span 20 then some (BitVec.ofNat 20 value) else none

/-- A writable user mapping of the frame at `address`; nothing at or above 4 GiB. -/
def mapping? (address : Nat) : Option PageEntry :=
  (fieldOf? (address / Address.frameSize)).map fun frame =>
    (((empty.put .present true).put .writable true).put .user true).putField frame

/-- The entry once its page is in swap slot `slot`; nothing if the slot does not fit. -/
def evicted? (e : PageEntry) (slot : Nat) : Option PageEntry :=
  (fieldOf? slot).map fun place =>
    ((((e.put .present false).put .accessed false).put .dirty false).put .swapped true).putField
      place

/-- The frame a present entry maps. -/
def frameAddress? (e : PageEntry) : Option Nat :=
  if e.has .present then some (e.field.toNat * Address.frameSize) else none

/-- The slot an evicted entry names. -/
def slot? (e : PageEntry) : Option Nat :=
  if !e.has .present && e.has .swapped then some e.field.toNat else none

end PageEntry

end PhysMem

import PhysMem.Address

/-!
# Pages — who a user frame belongs to

A page is named by its address space and its number within it. The name is a key: it says which
page-table entry maps the frame that holds the page, and nothing more.
-/

namespace PhysMem

/-- A page of an address space. -/
structure Page where
  space : Nat
  number : Nat
  deriving DecidableEq, Repr, Inhabited

namespace Page

/-- The page of `space` that holds virtual address `address`. -/
def ofAddress (space address : Nat) : Page := ⟨space, address / Address.frameSize⟩

/-- The first virtual address of the page. -/
def address (p : Page) : Except Fault Nat := Word.mul Word.bits p.number Address.frameSize

/-- Pages are ordered by address space, then by number. -/
def le (p q : Page) : Bool := p.space < q.space || (p.space == q.space && p.number ≤ q.number)

/-- The pages in order, each once. -/
def sorted (pages : List Page) : List Page := (pages.mergeSort le).eraseReps

/-- The text that names an address space. -/
def describeSpace (space : Nat) : String := "AddressSpaceId(" ++ toString space ++ ")"

/-- The text that names the page. -/
def describe (p : Page) : String :=
  "PteRef \x7b space: " ++ describeSpace p.space ++ ", vpn: " ++ toString p.number ++ " \x7d"

/-- The page at the start of a virtual page is that page. -/
theorem ofAddress_address {p : Page} {a : Nat} (h : p.address = .ok a) :
    ofAddress p.space a = p := by
  unfold address Word.mul at h
  split at h
  · cases h
    simp [ofAddress, Address.frameSize]
  · cases h

end Page

end PhysMem

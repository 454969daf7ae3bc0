import PhysMem.Fault

/-!
# Bit words — a machine word as an array of bits

A `BitWord w` is one word of `w` bits, bit zero the least significant. Reading or writing a bit
past the width is a shift by too much, and a fault.

* **`get`** and **`put`** read and write one bit.
* **`firstClear`** finds the lowest clear bit, **`count`** the number of set ones.
-/

namespace PhysMem

/-- One machine word, viewed as `w` bits. -/
structure BitWord (w : Nat) where
  word : BitVec w
  deriving DecidableEq, Repr

namespace BitWord

variable {w : Nat}

/-- The word with every bit clear. -/
def zero : BitWord w := ⟨0⟩

/-- The word with every bit set. -/
def full : BitWord w := ⟨BitVec.allOnes w⟩

/-- Bit `i` of the word, clear beyond its width. -/
def bit (b : BitWord w) (i : Nat) : Bool := b.word.getLsbD i

/-- Bit `i` of the word. -/
def get (b : BitWord w) (i : Nat) : Except Fault Bool :=
  if i < w then .ok (b.bit i) else .error (.overflow .shiftRight)

/-- The word with bit `i` set to `value`. -/
def put (b : BitWord w) (value : Bool) (i : Nat) : Except Fault (BitWord w) :=
  if i < w then
    let mask := BitVec.twoPow w i
    .ok ⟨if value then b.word ||| mask else b.word &&& ~~~mask⟩
  else .error (.overflow .shiftLeft)

/-- The lowest clear bit: the lowest set bit of the complement. -/
def firstClear (b : BitWord w) : Option Nat :=
  if b = full then none else some (~~~b.word).ctz.toNat

/-- How many bits are set. -/
def count (b : BitWord w) : Nat := b.word.cpop.toNat

/-! ## Reading what was written -/

theorem get_eq_ok (b : BitWord w) {i : Nat} (h : i < w) : b.get i = .ok (b.bit i) := if_pos h

theorem put_eq_ok (b : BitWord w) (value : Bool) {i : Nat} (h : i < w) :
    ∃ b', b.put value i = .ok b' ∧
      ∀ j, j < w → b'.bit j = if j = i then value else b.bit j := by
  refine ⟨_, if_pos h, fun j hj => ?_⟩
  by_cases hji : j = i
  · subst hji
    cases value <;> simp [bit, hj]
  · have hij : i ≠ j := fun e => hji e.symm
    cases value with
    | true => simp [bit, hji, hij]
    | false => simp [bit, hj, hji]

/-- The text that names the word by its value. -/
def describe (b : BitWord w) : String := "BitArray(" ++ toString b.word.toNat ++ ")"

end BitWord

end PhysMem

import PhysMem.Bits.Word

/-!
# Packed bits — a bit vector in words of 64

Bit `i` lives in word `i / 64` at place `i % 64`. Places of the last word past the length asked for
exist and can be read and written like all others; words past the last one do not, and an index
that falls there is a fault.
-/

namespace PhysMem

/-- A bit vector, packed into words of 64 bits. -/
structure Bits where
  words : Array (BitWord 64)
  deriving DecidableEq, Repr

namespace Bits

/-- The bits of one word. -/
def wordBits : Nat := 64

/-- A map of `n` clear bits, rounded up to whole words. -/
def clear (n : Nat) : Bits := ⟨Array.replicate ((n + (wordBits - 1)) / wordBits) .zero⟩

/-- Bit `i`, clear where there is no word. -/
def bit (b : Bits) (i : Nat) : Bool :=
  match b.words[i / wordBits]? with
  | some word => word.bit (i % wordBits)
  | none => false

/-- Bit `i`. -/
def get (b : Bits) (i : Nat) : Except Fault Bool :=
  match b.words[i / wordBits]? with
  | some word => word.get (i % wordBits)
  | none => .error (.indexOutOfRange b.words.size (i / wordBits))

/-- The vector with bit `i` set to `value`. -/
def set (b : Bits) (i : Nat) (value : Bool) : Except Fault Bits :=
  match b.words[i / wordBits]? with
  | some word => (word.put value (i % wordBits)).map fun word' =>
      ⟨b.words.setIfInBounds (i / wordBits) word'⟩
  | none => .error (.indexOutOfRange b.words.size (i / wordBits))

/-- The lowest clear bit of the words, the unused places of the last one included. -/
def firstClear (b : Bits) : Option Nat := go b.words.toList 0
where
  go : List (BitWord 64) → Nat → Option Nat
    | [], _ => none
    | word :: rest, index =>
      match word.firstClear with
      | some place => some (index * wordBits + place)
      | none => go rest (index + 1)

end Bits

end PhysMem

/-!
# Numerals — how numbers are written in messages

Addresses are written in hexadecimal behind `0x`, counters in decimal, padded on the left where a
line of figures is meant to stay aligned.
-/

namespace PhysMem.Numeral

/-- The number `n` in lower-case hexadecimal behind `0x`, without padding. -/
def hex (n : Nat) : String := "0x" ++ String.ofList (Nat.toDigits 16 n)

/-- The number `n` in decimal, padded with zeros on the left to at least `width` digits. -/
def padded (width n : Nat) : String :=
  let digits := Nat.toDigits 10 n
  String.ofList (List.replicate (width - digits.length) '0' ++ digits)

end PhysMem.Numeral

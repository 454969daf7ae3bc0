import PhysMem.Page.Entry

/-!
# Entries — one field with two meanings

Bits 12 to 31 of an entry are a frame number or a slot number, and two of the bits below say which.
So an entry is known by its bits: a flag that is written changes one bit below the field, the field
that is written changes no bit below. What an entry answers depends on `present`, `swapped` and the
field alone, and each of them is read as it was written last.

* **`bit_put`** and **`bit_putField`** — every bit of an entry that was written to.
* **`has_put`**, **`field_put`**, **`has_putField`**, **`field_putField`** — the same for flags and
  field.
* **`evicted?_isSome`** and **`mapping?_isSome`** — how much fits.
* **`decode_away`** and **`decode_home`** — what is encoded is decoded.
-/

namespace PhysMem

namespace PageEntry

variable {e e' : PageEntry} {flag other : Flag} {value : Bool} {frame : BitVec 20}
  {slot address i : Nat}

/-- Bit `i` of the entry. -/
def bit (e : PageEntry) (i : Nat) : Bool := e.raw.getLsbD i

/-! ## Bits -/

/-- The flags lie below the field. -/
theorem Flag.place_lt (flag : Flag) : flag.place < 12 := by
  cases flag <;> decide

theorem Flag.place_inj : flag.place = other.place ↔ flag = other := by
  cases flag <;> cases other <;> decide

/-- A flag that is written is one bit. -/
theorem bit_put (e : PageEntry) (flag : Flag) (value : Bool) (i : Nat) :
    (e.put flag value).bit i = if i = flag.place then value else e.bit i := by
  have hplace := flag.place_lt
  cases value with
  | true =>
      show (e.raw ||| BitVec.twoPow 32 flag.place).getLsbD i = _
      rw [BitVec.getLsbD_or, BitVec.getLsbD_twoPow]
      by_cases hi : i = flag.place
      · simp [hi, Nat.lt_trans hplace]
      · simp [hi, Ne.symm hi, bit]
  | false =>
      show (e.raw &&& ~~~BitVec.twoPow 32 flag.place).getLsbD i = _
      rw [BitVec.getLsbD_and, BitVec.getLsbD_not, BitVec.getLsbD_twoPow]
      by_cases hi : i = flag.place
      · simp [hi, Nat.lt_trans hplace]
      · by_cases hin : i < 32
        · simp [hi, hin, Ne.symm hi, bit]
        · simp [hi, hin, bit, BitVec.getLsbD_of_ge e.raw i (Nat.le_of_not_lt hin)]

/-- The field that is written is the bits from 12 on. -/
theorem bit_putField (e : PageEntry) (frame : BitVec 20) (i : Nat) :
    (e.putField frame).bit i = if i < 12 then e.bit i else frame.getLsbD (i - 12) := by
  have hlow : (0xFFF#32).getLsbD i = decide (i < 12) := by
    show (BitVec.ofNat 32 (2 ^ 12 - 1)).getLsbD i = _
    rw [BitVec.getLsbD_ofNat, Nat.testBit_two_pow_sub_one]
    by_cases hi : i < 12
    · simp [hi, Nat.lt_trans hi]
    · simp [hi]
  show ((e.raw &&& 0xFFF#32) ||| (frame.setWidth 32 <<< 12)).getLsbD i = _
  rw [BitVec.getLsbD_or, BitVec.getLsbD_and, hlow, BitVec.getLsbD_shiftLeft,
    BitVec.getLsbD_setWidth]
  by_cases hi : i < 12
  · simp [hi, bit]
  · by_cases hin : i < 32
    · simp [hi, hin, show i - 12 < 32 by omega]
    · simp [hi, hin, BitVec.getLsbD_of_ge frame (i - 12) (by omega)]

theorem getLsbD_field (e : PageEntry) (i : Nat) :
    e.field.getLsbD i = (decide (i < 20) && e.bit (12 + i)) :=
  BitVec.getLsbD_extractLsb' 12 20 e.raw i

/-! ## Flags and field -/

@[simp] theorem has_put (e : PageEntry) (flag other : Flag) (value : Bool) :
    (e.put flag value).has other = if other = flag then value else e.has other := by
  show (e.put flag value).bit other.place = _
  rw [bit_put]
  simp only [Flag.place_inj]
  rfl

@[simp] theorem field_put (e : PageEntry) (flag : Flag) (value : Bool) :
    (e.put flag value).field = e.field := by
  refine BitVec.eq_of_getLsbD_eq fun i _ => ?_
  have hplace := flag.place_lt
  rw [getLsbD_field, getLsbD_field, bit_put, if_neg (by omega)]

@[simp] theorem has_putField (e : PageEntry) (frame : BitVec 20) (flag : Flag) :
    (e.putField frame).has flag = e.has flag := by
  show (e.putField frame).bit flag.place = _
  rw [bit_putField, if_pos flag.place_lt]
  rfl

@[simp] theorem field_putField (e : PageEntry) (frame : BitVec 20) :
    (e.putField frame).field = frame := by
  refine BitVec.eq_of_getLsbD_eq fun i hi => ?_
  rw [getLsbD_field, bit_putField, if_neg (by omega), Nat.add_sub_cancel_left]
  simp [hi]

/-! ## What is encoded -/

theorem fieldOf?_eq_some {n : Nat} (h : n < Word.span 20) :
    fieldOf? n = some (BitVec.ofNat 20 n) := if_pos h

theorem fieldOf?_eq_none {n : Nat} (h : ¬ n < Word.span 20) : fieldOf? n = none := if_neg h

theorem toNat_fieldOf {n : Nat} (h : n < Word.span 20) : (BitVec.ofNat 20 n).toNat = n := by
  rw [BitVec.toNat_ofNat]
  exact Nat.mod_eq_of_lt h

/-- An address has a frame number that fits exactly below 4 GiB. -/
theorem frame_lt_iff : address / Address.frameSize < Word.span 20 ↔ address < Word.span 32 := by
  have hspan : Word.span 20 * Address.frameSize = Word.span 32 := by decide
  rw [Nat.div_lt_iff_lt_mul (by decide), hspan]

theorem evicted?_isSome : (e.evicted? slot).isSome = true ↔ slot < Word.span 20 := by
  rw [evicted?, Option.isSome_map]
  by_cases h : slot < Word.span 20
  · simp [fieldOf?_eq_some h, h]
  · simp [fieldOf?_eq_none h, h]

theorem mapping?_isSome : (mapping? address).isSome = true ↔ address < Word.span 32 := by
  rw [mapping?, Option.isSome_map, ← frame_lt_iff]
  by_cases h : address / Address.frameSize < Word.span 20
  · simp [fieldOf?_eq_some h, h]
  · simp [fieldOf?_eq_none h, h]

/-- The entry of an evicted page: the flags that are written, and the field. -/
def away (e : PageEntry) (slot : Nat) : PageEntry :=
  ((((e.put .present false).put .accessed false).put .dirty false).put .swapped true).putField
    (BitVec.ofNat 20 slot)

/-- The entry of a resident page. -/
def home (address : Nat) : PageEntry :=
  (((empty.put .present true).put .writable true).put .user true).putField
    (BitVec.ofNat 20 (address / Address.frameSize))

theorem evicted?_eq (h : slot < Word.span 20) : e.evicted? slot = some (e.away slot) := by
  rw [evicted?, fieldOf?_eq_some h]
  rfl

theorem mapping?_eq (h : address < Word.span 32) : mapping? address = some (home address) := by
  rw [mapping?, fieldOf?_eq_some (frame_lt_iff.mpr h)]
  rfl

/-- **A slot that is encoded is decoded**, and not taken for a frame. -/
theorem decode_away (h : slot < Word.span 20) :
    (e.away slot).slot? = some slot ∧ (e.away slot).frameAddress? = none := by
  simp [away, slot?, frameAddress?, toNat_fieldOf h]

/-- All bits but four flags and the field are as they were. -/
theorem bit_away (e : PageEntry) (slot : Nat) (hi : i < 12)
    (hflags : ∀ flag ∈ [Flag.present, .accessed, .dirty, .swapped], i ≠ flag.place) :
    (e.away slot).bit i = e.bit i := by
  rw [away, bit_putField, if_pos hi, bit_put, if_neg (hflags .swapped (by decide)), bit_put,
    if_neg (hflags .dirty (by decide)), bit_put, if_neg (hflags .accessed (by decide)), bit_put,
    if_neg (hflags .present (by decide))]

/-- **A frame that is encoded is decoded**, and not taken for a slot. -/
theorem decode_home (h : address < Word.span 32) :
    (home address).frameAddress? = some (address / Address.frameSize * Address.frameSize) ∧
      (home address).slot? = none := by
  simp [home, slot?, frameAddress?, toNat_fieldOf (frame_lt_iff.mpr h)]

/-- **No entry names a frame and a slot.** -/
theorem frameAddress?_or_slot? (e : PageEntry) : e.frameAddress? = none ∨ e.slot? = none := by
  cases h : e.has .present with
  | true => exact Or.inr (by simp [slot?, h])
  | false => exact Or.inl (by simp [frameAddress?, h])

end PageEntry

end PhysMem

import Vey.Schemes.Bytes

/-! Numbers written in ASCII digits: reading a numeral and the lower-case hexadecimal format. -/

namespace Vey.Schemes

open List

def decVal (b : UInt8) : Option Nat :=
  if 48 ≤ b ∧ b ≤ 57 then some (b.toNat - 48) else none

def hexVal (b : UInt8) : Option Nat :=
  if 48 ≤ b ∧ b ≤ 57 then some (b.toNat - 48)
  else if 97 ≤ b ∧ b ≤ 102 then some (b.toNat - 87)
  else if 65 ≤ b ∧ b ≤ 70 then some (b.toNat - 55)
  else none

/-- The value of a numeral, most significant digit first. -/
def numeral (radix : Nat) (dig : UInt8 → Option Nat) (bs : Bytes) : Nat :=
  bs.foldl (fun acc b => acc * radix + (dig b).getD 0) 0

/-- The digits at the front of a text. -/
def digits (dig : UInt8 → Option Nat) (bs : Bytes) : Bytes := bs.takeWhile fun b => (dig b).isSome

/-- `from_str` of an unsigned integer of `bits` bits: digits only, after at most one plus sign. -/
def parseUnsigned (bits : Nat) (s : Bytes) : Option Nat :=
  let ds := if s.head? = some 43 then s.tail else s
  if ds = [] ∨ digits decVal ds ≠ ds ∨ 2 ^ bits ≤ numeral 10 decVal ds then none
  else some (numeral 10 decVal ds)

def hexChar (d : Nat) : UInt8 := UInt8.ofNat (if d < 10 then 48 + d else 87 + d)

variable (n : Nat)

/-- The format `{n:x}`. -/
def hexFmt : Bytes :=
  if n = 0 then [48] else (Nat.digits 16 n).reverse.map hexChar

/-- The format `{n}`. -/
def decFmt : Bytes :=
  if n = 0 then [48] else (Nat.digits 10 n).reverse.map hexChar

theorem hexVal_hexChar : ∀ d < 16, hexVal (hexChar d) = some d := by decide

theorem hexFmt_digit {n : Nat} {b : UInt8} (h : b ∈ hexFmt n) : (hexVal b).isSome = true := by
  unfold hexFmt at h
  split at h
  · rw [mem_singleton.mp h]; rfl
  · simp only [mem_map, mem_reverse] at h
    obtain ⟨d, hd, rfl⟩ := h
    rw [hexVal_hexChar d (Nat.digits_lt_base (by decide) hd)]; rfl

theorem hexFmt_ne_nil : hexFmt n ≠ [] := by
  unfold hexFmt
  split
  · simp
  · simpa using Nat.digits_ne_nil_iff_ne_zero.mpr ‹_›

/-- Reading the format back gives the number. -/
theorem numeral_hexFmt : numeral 16 hexVal (hexFmt n) = n := by
  unfold hexFmt
  split
  · subst n; decide
  · have hfold : ∀ l : List Nat, (∀ d ∈ l, d < 16) →
        l.foldr (fun d acc => acc * 16 + (hexVal (hexChar d)).getD 0) 0 = Nat.ofDigits 16 l := by
      intro l hl
      induction l with
      | nil => rfl
      | cons d l ih =>
        rw [foldr_cons, ih fun e he => hl e (by simp [he]), Nat.ofDigits_cons,
          hexVal_hexChar d (hl d (by simp))]
        simp; omega
    rw [numeral, foldl_map, foldl_reverse]
    rw [hfold _ fun d hd => Nat.digits_lt_base (by decide) hd, Nat.ofDigits_digits]

variable {dig : UInt8 → Option Nat}

/-- The digits in front of a byte that is none. -/
theorem digits_append {a : Bytes} {b : UInt8} (c : Bytes)
    (ha : ∀ x ∈ a, (dig x).isSome = true) (hb : dig b = none) : digits dig (a ++ b :: c) = a := by
  rw [digits, takeWhile_append_of_pos ha]
  simp [hb]

theorem mem_digits {bs : Bytes} {b : UInt8} (h : b ∈ digits dig bs) : (dig b).isSome = true :=
  mem_takeWhile_imp (p := fun b => (dig b).isSome) h

/-- `FromRadix10Checked::from_radix_10_checked` of the `atoi` crate, for a number of `bits` bits: the
    number in the decimal digits at the front (absent when it overflows) and how many digits there
    are. The laws are what its documentation promises. -/
class AtoiRadix10 where
  fromRadix10Checked : Nat → Bytes → Option Nat × Nat
  used : ∀ bits b, (fromRadix10Checked bits b).2 = (digits decVal b).length
  value : ∀ bits b, (fromRadix10Checked bits b).1 =
    if numeral 10 decVal (digits decVal b) < 2 ^ bits then
      some (numeral 10 decVal (digits decVal b))
    else none

/-- The function that the laws describe. -/
instance (priority := low) : AtoiRadix10 where
  fromRadix10Checked bits b :=
    let n := numeral 10 decVal (digits decVal b)
    (if n < 2 ^ bits then some n else none, (digits decVal b).length)
  used _ _ := rfl
  value _ _ := rfl

export AtoiRadix10 (fromRadix10Checked)

/-- A format in digits holds no line end. -/
theorem cr_not_mem_hexFmt : cr ∉ hexFmt n := by
  intro h
  have := hexFmt_digit h
  simp [hexVal, cr] at this

theorem lf_not_mem_decFmt : lf ∉ decFmt n := by
  have hchar : ∀ d < 10, hexChar d ≠ lf := by decide
  unfold decFmt
  split
  · decide
  · intro h
    simp only [mem_map, mem_reverse] at h
    obtain ⟨d, hd, he⟩ := h
    exact hchar d (Nat.digits_lt_base (by decide) hd) he

end Vey.Schemes

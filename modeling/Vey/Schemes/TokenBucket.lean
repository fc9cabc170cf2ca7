import Mathlib

/-! A bucket of tokens, kept in a machine word.

        0 ........ tokens ...... burst
                   <- taken
                        refilled ->

    Tokens are taken by subtraction. A refill adds tokens to a bucket that is below its burst limit,
    and stops at the limit; a bucket above the limit is left as it is. -/

namespace Vey.Schemes

/-- The tokens behind a refill with `n`; the sum is computed in 64 bits. -/
def refill (tokens n burst : Nat) : Nat :=
  if tokens < burst then min ((tokens + n) % 2 ^ 64) burst else tokens

variable {tokens n burst : Nat}

/-- A refill adds no more than it was given. -/
theorem refill_le_add (tokens n burst : Nat) : refill tokens n burst ≤ tokens + n := by
  unfold refill
  split <;> omega

theorem refill_le_max (tokens n burst : Nat) : refill tokens n burst ≤ max tokens burst := by
  unfold refill
  split <;> omega

/-- A refill adds all that it was given when there is room for it. -/
theorem refill_eq_add_iff (hfit : tokens + n < 2 ^ 64) :
    refill tokens n burst = tokens + n ↔ n = 0 ∨ tokens + n ≤ burst := by
  unfold refill
  split <;> omega

/-- What was taken from a bucket can be given back. -/
theorem refill_back (h : tokens + n ≤ burst) (hburst : burst < 2 ^ 64) :
    refill tokens n burst = tokens + n :=
  (refill_eq_add_iff (by omega)).mpr (Or.inr h)

@[simp] theorem refill_zero (hburst : burst < 2 ^ 64) : refill tokens 0 burst = tokens := by
  unfold refill
  split <;> omega

@[simp] theorem refill_empty (tokens n : Nat) : refill tokens n 0 = tokens := by
  simp [refill]

/-! ### Paying in advance

    `n` tokens are taken, of which all but `k` are given back, and later all but `p`. -/

/-- The tokens behind a payment, of a bucket that may not be in use. -/
def pay (limited : Prop) [Decidable limited] (tokens n : Nat) : Nat :=
  if limited then tokens - n else tokens

variable {limited : Prop} [Decidable limited] {k p : Nat}

/-- A bucket in use is charged for `p` in the end. -/
theorem refill_pay (h : tokens ≤ burst) (hburst : burst < 2 ^ 64) (hlim : limited) (hn : n ≤ tokens)
    (hk : k ≤ n) (hp : p ≤ k) :
    refill (refill (pay limited tokens n) (n - k) burst) (k - p) burst + p = tokens := by
  have hfirst : refill (tokens - n) (n - k) burst = tokens - k := by
    rw [refill_back (by omega) hburst]
    omega
  rw [pay, if_pos hlim, hfirst, refill_back (by omega) hburst]
  omega

end Vey.Schemes

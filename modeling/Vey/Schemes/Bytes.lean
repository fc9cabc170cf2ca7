import Mathlib

/-! Byte strings, the search for one byte, and windows of a fixed buffer.

    A window `win buf w r` is the live part of a buffer with a write cursor `w` and a read cursor
    `r`; `overwrite buf off d` is what a fill or a compaction leaves behind.

        buf:  [ dead | w ... live ... r | free ] -/

namespace Vey.Schemes

open List

abbrev Bytes := List UInt8

/-- What comes first in a computation that succeeds. -/
theorem bind_ok {ε α β : Type} {x : Except ε α} {f : α → Except ε β} {r : β}
    (h : (x >>= f) = .ok r) : ∃ a, x = .ok a ∧ f a = .ok r := by
  cases x with
  | error => cases h
  | ok a => exact ⟨a, rfl, h⟩

abbrev cr : UInt8 := 13
abbrev lf : UInt8 := 10

/-- The bytes of a text. -/
def ascii (s : String) : Bytes := s.toUTF8.data.toList

/-- `to_ascii_lowercase` -/
def lower (b : UInt8) : UInt8 := if 65 ≤ b ∧ b ≤ 90 then b + 32 else b

/-- `to_ascii_uppercase` -/
def upper (b : UInt8) : UInt8 := if 97 ≤ b ∧ b ≤ 122 then b - 32 else b

/-- `eq_ignore_ascii_case` -/
def eqIgnoreCase (a b : Bytes) : Bool := a.map lower == b.map lower

/-- `strip_suffix` -/
def stripSuffix (tail b : Bytes) : Option Bytes :=
  if tail <:+ b then some (b.take (b.length - tail.length)) else none

theorem stripSuffix_append (a tail : Bytes) : stripSuffix tail (a ++ tail) = some a := by
  rw [stripSuffix, if_pos (suffix_append a tail), length_append, Nat.add_sub_cancel,
    take_left]

/-- Position of the first `c`. -/
def memchr (c : UInt8) : Bytes → Option Nat
  | [] => none
  | b :: bs => if b = c then some 0 else (memchr c bs).map (· + 1)

variable {c : UInt8}

theorem memchr_none : ∀ {b : Bytes}, memchr c b = none → c ∉ b
  | [], _ => by simp
  | x :: xs, h => by
    unfold memchr at h
    by_cases hx : x = c
    · simp [hx] at h
    · simp only [if_neg hx, Option.map_eq_none_iff] at h
      simp [memchr_none h, Ne.symm hx]

/-- A hit splits the bytes at the first `c`. -/
theorem memchr_some : ∀ {b : Bytes} {i : Nat}, memchr c b = some i →
    c ∉ b.take i ∧ b = b.take i ++ c :: b.drop (i + 1)
  | [], _, h => by simp [memchr] at h
  | x :: xs, i, h => by
    unfold memchr at h
    by_cases hx : x = c
    · simp only [if_pos hx, Option.some.injEq] at h
      subst h; simp [hx]
    · simp only [if_neg hx, Option.map_eq_some_iff] at h
      obtain ⟨j, hj, rfl⟩ := h
      obtain ⟨hn, hs⟩ := memchr_some hj
      refine ⟨by simp [hn, Ne.symm hx], ?_⟩
      simpa using hs

variable {b : Bytes}

theorem memchr_lt {i : Nat} (h : memchr c b = some i) : i < b.length := by
  have hs := (memchr_some h).2
  by_contra hn
  rw [take_of_length_le (by omega), drop_eq_nil_of_le (by omega)] at hs
  have := congrArg length hs
  simp at this

/-- Cutting after a hit keeps the hit as the last byte. -/
theorem memchr_take {i : Nat} (h : memchr c b = some i) : b.take (i + 1) = b.take i ++ [c] := by
  have hlt := memchr_lt h
  have hs := (memchr_some h).2
  have hget : b[i]? = some c := by
    rw [hs, getElem?_append_right (length_take_le i b)]
    simp [Nat.min_eq_left (Nat.le_of_lt hlt)]
  rw [take_add_one, hget]; rfl

/-- The first `c` is found right behind bytes that have none. -/
theorem memchr_append_cons : ∀ {a : Bytes} (b : Bytes), c ∉ a →
    memchr c (a ++ c :: b) = some a.length
  | [], b, _ => by simp [memchr]
  | x :: xs, b, h => by
    have hx : x ≠ c := fun e => h (by simp [e])
    have hxs : c ∉ xs := fun e => h (by simp [e])
    simp [memchr, hx, memchr_append_cons b hxs]

theorem take_succ_getD {n : Nat} (h : n < b.length) (d : UInt8) :
    b.take (n + 1) = b.take n ++ [b.getD n d] := by
  rw [take_add_one, getD_eq_getElem?_getD, getElem?_eq_getElem h]; rfl

/-- Position of the last `c`. -/
def memrchr (c : UInt8) (b : Bytes) : Option Nat :=
  (memchr c b.reverse).map fun i => b.length - 1 - i

/-- The last `c` is found right before bytes that have none. -/
theorem memrchr_append_cons (a : Bytes) (h : c ∉ b) : memrchr c (a ++ c :: b) = some a.length := by
  have hrev : (a ++ c :: b).reverse = b.reverse ++ c :: a.reverse := by simp
  rw [memrchr, hrev, memchr_append_cons _ (by simpa using h), Option.map_some]
  simp only [length_append, length_cons, length_reverse]
  congr 1
  omega

/-- A hit splits the bytes at the last `c`. -/
theorem memrchr_some {i : Nat} (h : memrchr c b = some i) :
    b = b.take i ++ c :: b.drop (i + 1) := by
  obtain ⟨j, hj, rfl⟩ := Option.map_eq_some_iff.mp h
  have hlt := memchr_lt hj
  have hs := congrArg reverse (memchr_some hj).2
  rw [reverse_reverse, reverse_append, reverse_cons, append_assoc,
    singleton_append] at hs
  have hlen : (b.reverse.drop (j + 1)).reverse.length = b.length - 1 - j := by
    simp only [length_reverse, length_drop]; omega
  generalize (b.reverse.drop (j + 1)).reverse = front at hs hlen
  generalize (b.reverse.take j).reverse = back at hs
  rw [← hlen, hs]
  simp

/-! ### Windows of a buffer -/

/-- The bytes of `buf` between the cursors `w` and `r`. -/
def win (buf : Bytes) (w r : Nat) : Bytes := (buf.drop w).take (r - w)

/-- `buf` with `d` written over it from `off` on. -/
def overwrite (buf : Bytes) (off : Nat) (d : Bytes) : Bytes :=
  buf.take off ++ d ++ buf.drop (off + d.length)

variable {buf : Bytes}

theorem win_length {w r : Nat} (hr : r ≤ buf.length) : (win buf w r).length = r - w := by
  simp [win]; omega

@[simp] theorem win_self (buf : Bytes) (w : Nat) : win buf w w = [] := by simp [win]

theorem overwrite_length {off : Nat} {d : Bytes} (h : off + d.length ≤ buf.length) :
    (overwrite buf off d).length = buf.length := by
  simp [overwrite]; omega

/-- A fill right behind the live bytes appends to them. -/
theorem win_overwrite_fill {buf d : Bytes} {w r : Nat} (hwr : w ≤ r)
    (h : r + d.length ≤ buf.length) :
    win (overwrite buf r d) w (r + d.length) = win buf w r ++ d := by
  have hlen : (buf.take r).length = r := by simp; omega
  have hsub : r + d.length - w = (r - w) + d.length := by omega
  have hdrop : ((buf.take r).drop w).length = r - w := by simp; omega
  unfold win overwrite
  rw [append_assoc, drop_append_of_le_length (by omega), hsub, take_append,
    hdrop, take_of_length_le (by omega)]
  congr 1
  · rw [drop_take]
  · rw [show r - w + d.length - (r - w) = d.length by omega, take_left']
    rfl

/-- Moving the live bytes to the front leaves them as they were. -/
theorem win_overwrite_front {w r : Nat} (hr : r ≤ buf.length) :
    win (overwrite buf 0 (win buf w r)) 0 (r - w) = win buf w r := by
  have hl : (win buf w r).length = r - w := win_length hr
  unfold overwrite
  rw [win]
  simp only [take_zero, nil_append, drop_zero, Nat.sub_zero]
  exact take_left' hl

/-- Writing `n` live bytes out takes them off the front of the window. -/
theorem win_drop {w r n : Nat} : win buf (w + n) r = (win buf w r).drop n := by
  unfold win
  rw [drop_take, drop_drop, Nat.sub_sub]

end Vey.Schemes

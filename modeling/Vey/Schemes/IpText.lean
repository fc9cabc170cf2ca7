import Vey.Schemes.IpNet
import Vey.Schemes.Numeral

/-! The texts of IP addresses.

        1.2.3.4             four decimal numbers
        2001:db8::1.2.3.4   eight groups of hexadecimal digits, `::` for a run of zero groups and an
                            IPv4 address in place of the last two
        [2001:db8::1%7]:80  with a scope and a port

    The parsers are a class; the functions below, which read a text from its front, are its default. -/

namespace Vey.Schemes

open List

/-- A letter of a hexadecimal number. -/
def isHexLetter (b : UInt8) : Bool := (97 ≤ b && b ≤ 102) || (65 ≤ b && b ≤ 70)

namespace IpText

/-- A number of at most `maxDigits` digits that is below `bound`. -/
def readNumber (radix : Nat) (dig : UInt8 → Option Nat) (maxDigits : Option Nat) (bound : Nat)
    (zeroPrefix : Bool) (s : Bytes) : Option (Nat × Bytes) :=
  let ds := digits dig s
  let n := numeral radix dig ds
  if ds = [] then none
  else if maxDigits.any (· < ds.length) then none
  else if bound ≤ n then none
  else if !zeroPrefix && s.head? == some 48 && decide (1 < ds.length) then none
  else some (n, s.drop ds.length)

def readGivenChar (c : UInt8) : Bytes → Option Bytes
  | b :: bs => if b = c then some bs else none
  | [] => none

/-- A separator stands before every item but the first. -/
def readSeparator (c : UInt8) (first : Bool) (s : Bytes) : Option Bytes :=
  if first then some s else readGivenChar c s

/-- `n` numbers with dots between them. -/
def readNumbers : Nat → Bool → Bytes → Option (List Nat × Bytes)
  | 0, _, s => some ([], s)
  | n + 1, first, s => do
    let s ← readSeparator 46 first s
    let (x, s) ← readNumber 10 decVal (some 3) 256 false s
    let (xs, s) ← readNumbers n false s
    return (x :: xs, s)

/-- The number with these digits in base `b`, most significant digit first. -/
def compose (b : Nat) (xs : List Nat) : Nat := xs.foldl (fun n x => n * b + x) 0

def readIpv4Addr (s : Bytes) : Option (Ipv4Addr × Bytes) := do
  let (xs, s) ← readNumbers 4 true s
  return (BitVec.ofNat 32 (compose 256 xs), s)

/-- At most `n` groups, whether the last two are an IPv4 address, and the rest. -/
def readGroups : Nat → Bool → Bytes → List Nat × Bool × Bytes
  | 0, _, s => ([], false, s)
  | n + 1, first, s =>
    match if n = 0 then none else (readSeparator 58 first s).bind readIpv4Addr with
    | some (a, s') => ([a.toNat / 65536, a.toNat % 65536], true, s')
    | none =>
      match (readSeparator 58 first s).bind (readNumber 16 hexVal (some 4) 65536 true) with
      | none => ([], false, s)
      | some (g, s') =>
        let r := readGroups n false s'
        (g :: r.1, r.2.1, r.2.2)

/-- Eight groups, or fewer with `::` for at least one missing group. -/
def readIpv6Addr (s : Bytes) : Option (Ipv6Addr × Bytes) :=
  let head := readGroups 8 true s
  if head.1.length = 8 then some (BitVec.ofNat 128 (compose 65536 head.1), head.2.2)
  else if head.2.1 then none
  else do
    let s ← readGivenChar 58 head.2.2
    let s ← readGivenChar 58 s
    let tail := readGroups (8 - (head.1.length + 1)) true s
    let zeros := List.replicate (8 - head.1.length - tail.1.length) 0
    return (BitVec.ofNat 128 (compose 65536 (head.1 ++ zeros ++ tail.1)), tail.2.2)

/-- The whole text has to be read. -/
def parseWith {α : Type} (read : Bytes → Option (α × Bytes)) (s : Bytes) : Option α :=
  (read s).bind fun r => if r.2 = [] then some r.1 else none

/-- `[address%scope]:port` -/
def readSocketAddrV6 (s : Bytes) : Option ((Ipv6Addr × Nat) × Bytes) := do
  let s ← readGivenChar 91 s
  let (ip, s) ← readIpv6Addr s
  let s := match (readGivenChar 37 s).bind (readNumber 10 decVal none (2 ^ 32) true) with
    | some (_, s') => s'
    | none => s
  let s ← readGivenChar 93 s
  let s ← readGivenChar 58 s
  let (port, s) ← readNumber 10 decVal none 65536 true s
  return ((ip, port), s)

/-! ### A text that starts with a letter -/

variable {radix bound n : Nat} {m : Option Nat} {z : Bool} {s' bs : Bytes} {ip : Ipv6Addr}

theorem le_numeral (dig : UInt8 → Option Nat) (hr : 0 < radix) (ds : Bytes) :
    ∀ n, n ≤ ds.foldl (fun acc b => acc * radix + (dig b).getD 0) n := by
  induction ds with
  | nil => exact fun n => le_refl n
  | cons d ds ih =>
    intro n
    calc n ≤ n * radix := Nat.le_mul_of_pos_right n hr
      _ ≤ n * radix + (dig d).getD 0 := Nat.le_add_right _ _
      _ ≤ _ := ih _

theorem readNumber_lt {dig : UInt8 → Option Nat} {s : Bytes}
    (h : readNumber radix dig m bound z s = some (n, s')) : n < bound := by
  simp only [readNumber] at h
  split_ifs at h with _ _ hb
  cases h
  exact Nat.lt_of_not_le hb

variable {b : UInt8}

section

variable (h : isHexLetter b = true)

include h

theorem hexVal_letter : ∃ d, hexVal b = some (d + 10) := by
  simp only [isHexLetter, Bool.or_eq_true, Bool.and_eq_true, decide_eq_true_eq] at h
  rcases h with h | h
  · refine ⟨b.toNat - 97, ?_⟩
    have h1 : 97 ≤ b.toNat := h.1
    have hd : ¬(48 ≤ b ∧ b ≤ 57) := fun hd => absurd (show b.toNat ≤ 57 from hd.2) (by omega)
    rw [hexVal, if_neg hd, if_pos h]
    congr 1
    omega
  · refine ⟨b.toNat - 65, ?_⟩
    have h1 : 65 ≤ b.toNat := h.1
    have h2 : b.toNat ≤ 70 := h.2
    have hd : ¬(48 ≤ b ∧ b ≤ 57) := fun hd => absurd (show b.toNat ≤ 57 from hd.2) (by omega)
    have hl : ¬(97 ≤ b ∧ b ≤ 102) := fun hl => absurd (show 97 ≤ b.toNat from hl.1) (by omega)
    rw [hexVal, if_neg hd, if_neg hl, if_pos h]
    congr 1
    omega

theorem decVal_letter : decVal b = none := by
  simp only [isHexLetter, Bool.or_eq_true, Bool.and_eq_true, decide_eq_true_eq] at h
  refine if_neg fun hd => ?_
  have h9 : b.toNat ≤ 57 := hd.2
  rcases h with h | h
  · exact absurd (show 97 ≤ b.toNat from h.1) (by omega)
  · exact absurd (show 65 ≤ b.toNat from h.1) (by omega)

/-- No IPv4 address starts with a letter. -/
theorem readIpv4Addr_letter (bs : Bytes) : readIpv4Addr (b :: bs) = none := by
  have hds : digits decVal (b :: bs) = [] := by simp [digits, decVal_letter h]
  simp [readIpv4Addr, readNumbers, readSeparator, readNumber, hds]

/-- A hexadecimal number that starts with a letter is not zero. -/
theorem readNumber_letter (hr : readNumber 16 hexVal m bound z (b :: bs) = some (n, s')) :
    0 < n := by
  obtain ⟨d, hd⟩ := hexVal_letter h
  have hds : digits hexVal (b :: bs) = b :: digits hexVal bs := by simp [digits, hd]
  simp only [readNumber] at hr
  split_ifs at hr
  cases hr
  rw [hds, numeral, foldl_cons, hd]
  exact lt_of_lt_of_le (by simp) (le_numeral hexVal (by decide) _ _)

end

theorem readGroups_lt : ∀ (n : Nat) (first : Bool) (s : Bytes),
    ∀ g ∈ (readGroups n first s).1, g < 65536 := by
  intro n
  induction n with
  | zero => simp [readGroups]
  | succ n ih =>
    intro first s
    rw [readGroups]
    split
    next a s' _ =>
      have ha : a.toNat < 2 ^ 32 := a.isLt
      intro g hg
      rcases mem_pair.mp hg with rfl | rfl <;> omega
    next =>
      split
      next => simp
      next g s' hg =>
        obtain ⟨t, -, ht⟩ := Option.bind_eq_some_iff.mp hg
        intro g' hg'
        rcases mem_cons.mp hg' with rfl | hg'
        · exact readNumber_lt ht
        · exact ih false s' g' hg'

/-- The groups of a text that starts with a letter start with one that is not zero. -/
theorem readGroups_letter (n : Nat) (bs : Bytes) (h : isHexLetter b = true) :
    readGroups n true (b :: bs) = ([], false, b :: bs) ∨
      ∃ g gs, (readGroups n true (b :: bs)).1 = g :: gs ∧ 0 < g := by
  cases n with
  | zero => exact .inl rfl
  | succ n =>
    have h4 : (if n = 0 then none
        else (readSeparator 58 true (b :: bs)).bind readIpv4Addr) = none := by
      split
      · rfl
      · exact readIpv4Addr_letter h bs
    rw [readGroups, h4]
    cases hr : (readSeparator 58 true (b :: bs)).bind
        (readNumber 16 hexVal (some 4) 65536 true) with
    | none => exact .inl rfl
    | some r =>
      obtain ⟨t, ht, hn⟩ := Option.bind_eq_some_iff.mp hr
      cases ht
      exact .inr ⟨r.1, _, rfl, readNumber_letter h hn⟩

theorem compose_acc (b : Nat) (xs : List Nat) :
    ∀ n, xs.foldl (fun n x => n * b + x) n = n * b ^ xs.length + compose b xs := by
  induction xs with
  | nil => simp [compose]
  | cons x xs ih =>
    intro n
    rw [compose, foldl_cons, foldl_cons, ih, ih (0 * b + x), length_cons,
      Nat.pow_succ']
    ring

theorem compose_cons (b x : Nat) (xs : List Nat) :
    compose b (x :: xs) = x * b ^ xs.length + compose b xs := by
  rw [compose, foldl_cons, compose_acc, Nat.zero_mul, Nat.zero_add]

theorem compose_lt {b : Nat} {xs : List Nat} (h : ∀ x ∈ xs, x < b) :
    compose b xs < b ^ xs.length := by
  induction xs with
  | nil => simp [compose]
  | cons x xs ih =>
    have hx : x + 1 ≤ b := h x (by simp)
    have hxs := ih fun y hy => h y (by simp [hy])
    rw [compose_cons, length_cons, Nat.pow_succ']
    calc x * b ^ xs.length + compose b xs < x * b ^ xs.length + b ^ xs.length := by omega
      _ = (x + 1) * b ^ xs.length := by ring
      _ ≤ b * b ^ xs.length := Nat.mul_le_mul_right _ hx

/-- Eight groups of which the first is not zero. -/
theorem compose_high {g : Nat} {gs : List Nat} (hlen : gs.length = 7) (hg : 0 < g)
    (hlt : ∀ x ∈ g :: gs, x < 65536) : BitVec.ofNat 128 (compose 65536 (g :: gs)) >>> 112 ≠ 0 := by
  have hall : compose 65536 (g :: gs) < 2 ^ 128 := by
    have := compose_lt hlt
    rwa [length_cons, hlen] at this
  have hle : 2 ^ 112 ≤ compose 65536 (g :: gs) := by
    rw [compose_cons, hlen]
    exact le_trans (Nat.le_mul_of_pos_left _ hg) (Nat.le_add_right _ _)
  intro h0
  have hz := congrArg BitVec.toNat h0
  rw [BitVec.toNat_ushiftRight, BitVec.toNat_ofNat, Nat.shiftRight_eq_div_pow,
    Nat.mod_eq_of_lt hall] at hz
  exact absurd hz (Nat.pos_iff_ne_zero.mp (Nat.div_pos hle (by decide)))

theorem readGroups_length : ∀ (n : Nat) (first : Bool) (s : Bytes),
    (readGroups n first s).1.length ≤ n := by
  intro n
  induction n with
  | zero => simp [readGroups]
  | succ n ih =>
    intro first s
    rw [readGroups]
    split
    next a s' ha =>
      split at ha
      · cases ha
      · simp; omega
    next =>
      split
      next => simp
      next g s' _ =>
        have := ih false s'
        simp; omega

theorem readIpv6Addr_letter (h : isHexLetter b = true)
    (hr : readIpv6Addr (b :: bs) = some (ip, s')) : ip >>> 112 ≠ 0 := by
  have hlt := readGroups_lt 8 true (b :: bs)
  have hlen := readGroups_length 8 true (b :: bs)
  rw [readIpv6Addr] at hr
  dsimp only at hr
  rcases readGroups_letter 8 bs h with hnil | ⟨g, gs, hcons, hg⟩
  · -- no group at all: a letter is not the colon that would have to follow
    have hb : readGivenChar 58 (b :: bs) = none :=
      if_neg fun hb => absurd h (by rw [hb]; decide)
    rw [hnil] at hr
    simp [hb] at hr
  · rw [hcons] at hlt hlen hr
    split_ifs at hr with h8
    · cases hr
      exact compose_high (by simpa using h8) hg hlt
    · obtain ⟨t, -, hr⟩ := Option.bind_eq_some_iff.mp hr
      obtain ⟨t', -, hr⟩ := Option.bind_eq_some_iff.mp hr
      cases hr
      have htl := readGroups_length (8 - ((g :: gs).length + 1)) true t'
      have htlt := readGroups_lt (8 - ((g :: gs).length + 1)) true t'
      rw [append_assoc, cons_append]
      refine compose_high ?_ hg fun x hx => ?_
      · simp only [length_append, length_replicate, length_cons] at *
        omega
      · rw [← cons_append] at hx
        rcases mem_append.mp hx with hx | hx
        · exact hlt x hx
        · rcases mem_append.mp hx with hx | hx
          · rw [eq_of_mem_replicate hx]
            decide
          · exact htlt x hx

theorem parseWith_letter (h : isHexLetter b = true)
    (hp : parseWith readIpv6Addr (b :: bs) = some ip) : ip >>> 112 ≠ 0 := by
  obtain ⟨r, hr, hnil⟩ := Option.bind_eq_some_iff.mp hp
  split_ifs at hnil
  cases hnil
  exact readIpv6Addr_letter h hr

end IpText

/-- The parsers of address texts, as the standard library has them. -/
class IpText where
  parseIpv4 : Bytes → Option Ipv4Addr
  parseIpv6 : Bytes → Option Ipv6Addr
  parseSocketAddrV6 : Bytes → Option (Ipv6Addr × Nat)
  /-- a text that starts with a letter starts with a group that is not zero -/
  parseIpv6_letter : ∀ {b : UInt8} {bs : Bytes} {ip : Ipv6Addr},
    isHexLetter b = true → parseIpv6 (b :: bs) = some ip → ip >>> 112 ≠ 0

instance (priority := low) : IpText where
  parseIpv4 s := if 15 < s.length then none else IpText.parseWith IpText.readIpv4Addr s
  parseIpv6 := IpText.parseWith IpText.readIpv6Addr
  parseSocketAddrV6 := IpText.parseWith IpText.readSocketAddrV6
  parseIpv6_letter := IpText.parseWith_letter

/-- The text of an address of any family. -/
def IpText.parseIp [IpText] (s : Bytes) : Option IpAddr :=
  match parseIpv4 s with
  | some a => some (.v4 a)
  | none => (parseIpv6 s).map .v6

end Vey.Schemes

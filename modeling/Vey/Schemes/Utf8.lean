import Vey.Schemes.Bytes

/-! UTF-8 text as bytes: which byte strings are text, and trimming the white space around a text.

    The table of well-formed sequences is the one of `core::str::from_utf8`; white space is every
    code point with the Unicode property White_Space. -/

namespace Vey.Schemes

open List

def isCont (b : UInt8) : Bool := 0x80 ≤ b && b ≤ 0xBF

/-- `str::from_utf8` succeeds. -/
def validUtf8 : Bytes → Bool
  | [] => true
  | b :: bs =>
    if b < 0x80 then validUtf8 bs
    else if 0xC2 ≤ b ∧ b ≤ 0xDF then
      match bs with
      | c :: r => isCont c && validUtf8 r
      | _ => false
    else if 0xE0 ≤ b ∧ b ≤ 0xEF then
      match bs with
      | c :: d :: r =>
        (if b = 0xE0 then 0xA0 ≤ c && c ≤ 0xBF
          else if b = 0xED then 0x80 ≤ c && c ≤ 0x9F
          else isCont c) && isCont d && validUtf8 r
      | _ => false
    else if 0xF0 ≤ b ∧ b ≤ 0xF4 then
      match bs with
      | c :: d :: e :: r =>
        (if b = 0xF0 then 0x90 ≤ c && c ≤ 0xBF
          else if b = 0xF4 then 0x80 ≤ c && c ≤ 0x8F
          else isCont c) && isCont d && isCont e && validUtf8 r
      | _ => false
    else false

/-- White space of one byte. -/
def isAsciiSpace (b : UInt8) : Bool := (9 ≤ b && b ≤ 13) || b == 32

/-- White space of two bytes: U+0085, U+00A0. -/
def isSpace2 (b c : UInt8) : Bool := b == 0xC2 && (c == 0x85 || c == 0xA0)

/-- White space of three bytes: U+1680, U+2000 to U+200A, U+2028, U+2029, U+202F, U+205F, U+3000. -/
def isSpace3 (b c d : UInt8) : Bool :=
  (b == 0xE1 && c == 0x9A && d == 0x80) ||
  (b == 0xE2 && c == 0x80 &&
    ((0x80 ≤ d && d ≤ 0x8A) || d == 0xA8 || d == 0xA9 || d == 0xAF)) ||
  (b == 0xE2 && c == 0x81 && d == 0x9F) ||
  (b == 0xE3 && c == 0x80 && d == 0x80)

section

variable (space2 : UInt8 → UInt8 → Bool) (space3 : UInt8 → UInt8 → UInt8 → Bool)

/-- The text behind the white space at its front. -/
def trimFront : Bytes → Bytes
  | [] => []
  | b :: bs =>
    if isAsciiSpace b then trimFront bs
    else
      match bs with
      | c :: r =>
        if space2 b c then trimFront r
        else
          match r with
          | d :: r' => if space3 b c d then trimFront r' else b :: c :: d :: r'
          | [] => [b, c]
      | [] => [b]

theorem trimFront_suffix (b : Bytes) : trimFront space2 space3 b <:+ b := by
  fun_induction trimFront space2 space3 b with
  | case1 => exact suffix_rfl
  | case2 b bs _ ih => exact ih.trans (suffix_cons b bs)
  | case3 b _ c r _ ih => exact ih.trans (suffix_append [b, c] r)
  | case4 b _ c _ d r' _ ih => exact ih.trans (suffix_append [b, c, d] r')
  | case5 | case6 | case7 => exact suffix_rfl

end

/-- `str::trim_start` -/
def trimStart : Bytes → Bytes := trimFront isSpace2 isSpace3

/-- `trim_end` on a text that is read from its end. -/
def trimEndRev : Bytes → Bytes :=
  trimFront (fun b c => isSpace2 c b) fun b c d => isSpace3 d c b

variable (b : Bytes)

/-- `str::trim_end` -/
def trimEnd : Bytes := (trimEndRev b.reverse).reverse

/-- `str::trim` -/
def trim : Bytes := (trimEndRev (trimStart b).reverse).reverse

example : trim (ascii " \tA b\r\n") = ascii "A b" := by decide

theorem trimEndRev_space {b : UInt8} (hb : isAsciiSpace b = true) (bs : Bytes) :
    trimEndRev (b :: bs) = trimEndRev bs := by
  rw [trimEndRev, trimFront.eq_def]
  simp [hb]

/-- A line feed at the end of a text is trimmed. -/
theorem lf_not_mem_trim {b : Bytes} (h : lf ∉ b.dropLast) : lf ∉ trim b := by
  obtain ⟨front, hfront⟩ : trimStart b <:+ b := trimFront_suffix _ _ b
  rcases eq_nil_or_concat (trimStart b) with hnil | ⟨a, x, hx⟩
  · rw [trim, hnil]
    exact not_mem_nil
  · have ha : lf ∉ a := by
      intro hm
      apply h
      rw [← hfront, hx, concat_eq_append, ← append_assoc, dropLast_concat]
      exact mem_append_right _ hm
    have hrev : lf ∉ trimEndRev (x :: a.reverse) := by
      by_cases hlf : x = lf
      · rw [hlf, trimEndRev_space (by decide)]
        exact fun hm => ha (mem_reverse.mp ((trimFront_suffix _ _ _).subset hm))
      · intro hm
        rcases mem_cons.mp ((trimFront_suffix _ _ _).subset hm) with hm | hm
        · exact hlf hm.symm
        · exact ha (mem_reverse.mp hm)
    rw [trim, hx, concat_eq_append, reverse_append]
    simpa using hrev

end Vey.Schemes

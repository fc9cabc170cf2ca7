import Vey.Schemes.Numeral
import Vey.Schemes.Utf8

/-! `HttpChunkedLine`: the size line of a chunk, and the errors of the HTTP line parsers.

    The number is read by the `atoi` crate, which is a parameter here: `AtoiRadix16` states what
    its documentation promises of `from_radix_16_checked::<u64>`. -/

namespace Vey.Http
open Schemes

inductive HttpLineParseError where
  | notLongEnough
  | lineTooLong (max : Nat)
  | invalidUtf8Encoding
  | noDelimiterFound (c : Char)
  | invalidHeaderName
  | invalidHeaderValue
  | invalidVersion
  | invalidStatusCode
  | invalidChunkSize
  deriving DecidableEq

/-- `<u64 as FromRadix16Checked>::from_radix_16_checked`: the number in the hexadecimal digits at
    the front (absent when it overflows) and how many digits there are. -/
class AtoiRadix16 where
  fromRadix16Checked : Bytes → Option Nat × Nat
  used : ∀ b, (fromRadix16Checked b).2 = (digits hexVal b).length
  value : ∀ b, (fromRadix16Checked b).1 =
    if numeral 16 hexVal (digits hexVal b) < 2 ^ 64 then some (numeral 16 hexVal (digits hexVal b))
    else none

/-- The function that the laws describe. -/
instance (priority := low) : AtoiRadix16 where
  fromRadix16Checked b :=
    let n := numeral 16 hexVal (digits hexVal b)
    (if n < 2 ^ 64 then some n else none, (digits hexVal b).length)
  used _ := rfl
  value _ := rfl

variable [AtoiRadix16]

export AtoiRadix16 (fromRadix16Checked)

structure HttpChunkedLine where
  chunkSize : Nat
  extension : Option Bytes

def HttpChunkedLine.parse (buf : Bytes) : Except HttpLineParseError HttpChunkedLine :=
  match fromRadix16Checked buf with
  | (none, _) => .error .invalidChunkSize
  | (some chunkSize, offset) =>
    if offset = 0 then .error .invalidChunkSize
    else if buf.length = offset then .error .notLongEnough
    else
      let c := buf.getD offset 0
      if c = cr ∨ c = lf then .ok ⟨chunkSize, none⟩
      else if c = 59 then
        -- `;` starts the extensions
        let rest := buf.drop (offset + 1)
        if validUtf8 rest then .ok ⟨chunkSize, some (trim rest)⟩ else .error .invalidUtf8Encoding
      else .error .invalidChunkSize

/-- What a size line says, if it is one. -/
def sizeOf (line : Bytes) : Option Nat := (HttpChunkedLine.parse line).toOption.map (·.chunkSize)

/-- A size is a machine word. -/
theorem parse_lt {buf : Bytes} {line : HttpChunkedLine} (h : HttpChunkedLine.parse buf = .ok line) :
    line.chunkSize < 2 ^ 64 := by
  have hsize : (fromRadix16Checked buf).1 = some line.chunkSize := by
    unfold HttpChunkedLine.parse at h
    split at h
    case h_1 => simp at h
    case h_2 n offset hn =>
      rw [hn]
      dsimp only at h
      repeat' split at h
      all_goals simp only [Except.ok.injEq, reduceCtorEq] at h
      all_goals rw [← h]
  rw [AtoiRadix16.value] at hsize
  split at hsize
  case isTrue hlt => rw [← Option.some.inj hsize]; exact hlt
  case isFalse => simp at hsize

/-- The size line that a writer makes is read back. -/
theorem parse_hexFmt {n : Nat} (hn : n < 2 ^ 64) :
    HttpChunkedLine.parse (hexFmt n ++ [cr, lf]) = .ok ⟨n, none⟩ := by
  have hd : digits hexVal (hexFmt n ++ cr :: [lf]) = hexFmt n :=
    digits_append [lf] (fun _ => hexFmt_digit) (by decide)
  have hv : (fromRadix16Checked (hexFmt n ++ [cr, lf])).1 = some n := by
    rw [AtoiRadix16.value, hd, numeral_hexFmt, if_pos hn]
  have hu : (fromRadix16Checked (hexFmt n ++ [cr, lf])).2 = (hexFmt n).length := by
    rw [AtoiRadix16.used, hd]
  have hpos : (hexFmt n).length ≠ 0 := by simpa using hexFmt_ne_nil n
  unfold HttpChunkedLine.parse
  rw [show fromRadix16Checked (hexFmt n ++ [cr, lf]) = (some n, (hexFmt n).length) from
    Prod.ext hv hu]
  simp [hpos]

theorem sizeOf_hexFmt {n : Nat} (hn : n < 2 ^ 64) : sizeOf (hexFmt n ++ [cr, lf]) = some n := by
  rw [sizeOf, parse_hexFmt hn]; rfl

end Vey.Http

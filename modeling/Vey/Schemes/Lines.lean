import Vey.Schemes.Bytes

/-! Texts cut into lines, and the header of a message: a start line, fields and a blank line.

        start CR LF
        name ": " value CR LF
        ...
        CR LF

    `splitLines` cuts a text behind every line feed; `readHead` is how a recipient reads the
    fields of a header, and it reads back what `writeHead` wrote. -/

namespace Vey.Schemes

open List

/-- The complete lines of a text, each with its line feed, and what is left behind the last. -/
def splitLines : Bytes → List Bytes × Bytes
  | [] => ([], [])
  | b :: bs =>
    if b = lf then ([lf] :: (splitLines bs).1, (splitLines bs).2)
    else
      match splitLines bs with
      | ([], rest) => ([], b :: rest)
      | (l :: ls, rest) => ((b :: l) :: ls, rest)

/-- Bytes that end with their only line feed. -/
def IsLine (l : Bytes) : Prop := ∃ a, lf ∉ a ∧ l = a ++ [lf]

theorem IsLine.ne_nil {l : Bytes} (h : IsLine l) : l ≠ [] := by
  obtain ⟨a, -, rfl⟩ := h
  simp

/-- A text has only one first line. -/
theorem IsLine.eq_of_prefixes {l m u : Bytes} (hl : IsLine l) (hm : IsLine m) (hlu : l <+: u)
    (hmu : m <+: u) : l = m := by
  obtain ⟨a, ha, rfl⟩ := hl
  obtain ⟨b, hb, rfl⟩ := hm
  obtain ⟨x, rfl⟩ := hlu
  obtain ⟨y, hy⟩ := hmu
  have hlen : a.length = b.length := by
    have h := congrArg (memchr lf) hy
    rw [append_assoc, append_assoc, singleton_append, singleton_append,
      memchr_append_cons _ ha, memchr_append_cons _ hb] at h
    exact (Option.some.inj h).symm
  rw [append_assoc, append_assoc] at hy
  rw [(append_inj hy hlen.symm).1]

theorem splitLines_of_not_mem : ∀ {a : Bytes}, lf ∉ a → splitLines a = ([], a)
  | [], _ => rfl
  | x :: xs, h => by
    obtain ⟨hx, hxs⟩ := ne_and_not_mem_of_not_mem_cons h
    rw [splitLines, if_neg (Ne.symm hx), splitLines_of_not_mem hxs]

/-- The first line is cut off at the first line feed. -/
theorem splitLines_line : ∀ {a : Bytes} (b : Bytes), lf ∉ a →
    splitLines (a ++ lf :: b) = ((a ++ [lf]) :: (splitLines b).1, (splitLines b).2)
  | [], b, _ => by simp [splitLines]
  | x :: xs, b, h => by
    obtain ⟨hx, hxs⟩ := ne_and_not_mem_of_not_mem_cons h
    rw [cons_append, splitLines, if_neg (Ne.symm hx), splitLines_line b hxs]
    rfl

theorem splitLines_memchr {a : Bytes} {p : Nat} (h : memchr lf a = some p) :
    splitLines a = (a.take (p + 1) :: (splitLines (a.drop (p + 1))).1,
      (splitLines (a.drop (p + 1))).2) := by
  obtain ⟨hn, hs⟩ := memchr_some h
  rw [memchr_take h]
  nth_rewrite 1 [hs]
  exact splitLines_line _ hn

/-- More text leaves the complete lines as they are. -/
theorem splitLines_append : ∀ (a b : Bytes), (splitLines a).1 <+: (splitLines (a ++ b)).1
  | [], _ => nil_prefix
  | x :: xs, b => by
    have ih := splitLines_append xs b
    rw [cons_append, splitLines, splitLines]
    by_cases hx : x = lf
    · rw [if_pos hx, if_pos hx]
      exact (prefix_cons_inj _).mpr ih
    · rw [if_neg hx, if_neg hx]
      rcases hs : splitLines xs with ⟨_ | ⟨l, ls⟩, rest⟩
      · exact nil_prefix
      · rw [hs] at ih
        rcases ht : splitLines (xs ++ b) with ⟨_ | ⟨m, ms⟩, rest'⟩
        · rw [ht] at ih; simp at ih
        · rw [ht] at ih
          obtain ⟨rfl, hls⟩ := cons_prefix_cons.mp ih
          exact (prefix_cons_inj _).mpr hls

theorem splitLines_flatten : ∀ {ls : List Bytes} (rest : Bytes), (∀ l ∈ ls, IsLine l) →
    splitLines (ls.flatten ++ rest) = (ls ++ (splitLines rest).1, (splitLines rest).2)
  | [], _, _ => rfl
  | l :: ls, rest, h => by
    obtain ⟨a, ha, rfl⟩ := h l (by simp)
    have ih := splitLines_flatten rest fun m (hm : m ∈ ls) => h m (mem_cons_of_mem _ hm)
    have happ : ((a ++ [lf]) :: ls).flatten ++ rest = a ++ lf :: (ls.flatten ++ rest) := by simp
    rw [happ, splitLines_line _ ha, ih]
    rfl

/-! ### The header of a message -/

/-- A name and a value. -/
abbrev Field := Bytes × Bytes

/-- The line that ends a header. -/
def isBlankLine (l : Bytes) : Bool := l == [lf] || l == [cr, lf]

def isBlankByte (b : UInt8) : Bool := b == 32 || b == 9 || b == cr || b == lf

/-- A text without the blanks and the line end around it. -/
def strip (v : Bytes) : Bytes := (v.rdropWhile isBlankByte).dropWhile isBlankByte

/-- A field line, its name in lower case. -/
def readField (l : Bytes) : Field :=
  ((l.takeWhile (· ≠ 58)).map lower, strip ((l.dropWhile (· ≠ 58)).drop 1))

/-- The fields between the start line and the blank line. -/
def readHead (b : Bytes) : List Field :=
  (((splitLines b).1.drop 1).takeWhile fun l => !isBlankLine l).map readField

def writeField (f : Field) : Bytes := f.1 ++ ascii ": " ++ f.2 ++ [cr, lf]

def writeHead (start : Bytes) (fs : List Field) : Bytes :=
  start ++ [cr, lf] ++ fs.flatMap writeField ++ [cr, lf]

theorem lf_ne_cr : lf ≠ cr := by decide

/-- A field that its line cannot be mistaken about. -/
structure Field.Clean (f : Field) : Prop where
  colon : 58 ∉ f.1
  name : lf ∉ f.1
  value : lf ∉ f.2

theorem strip_cons_blank {b : UInt8} (hb : isBlankByte b = true) (v : Bytes) :
    strip (b :: v) = strip v := by
  unfold strip
  rcases eq_nil_or_concat (v.rdropWhile isBlankByte) with hv | ⟨w, c, hw⟩
  · have hall : ∀ x ∈ b :: v, isBlankByte x = true :=
      forall_mem_cons.mpr ⟨hb, rdropWhile_eq_nil_iff.mp hv⟩
    rw [hv, rdropWhile_eq_nil_iff.mpr hall]
  · have hcons : (b :: v).rdropWhile isBlankByte = b :: v.rdropWhile isBlankByte := by
      have hne : v.rdropWhile isBlankByte ≠ [] := by simp [hw]
      rw [rdropWhile, reverse_cons, dropWhile_append]
      rw [if_neg (by simpa [rdropWhile] using hne)]
      simp [rdropWhile]
    rw [hcons, dropWhile_cons_of_pos hb]

theorem strip_concat_blank {b : UInt8} (hb : isBlankByte b = true) (v : Bytes) :
    strip (v ++ [b]) = strip v := by
  unfold strip
  rw [rdropWhile_concat_pos _ _ _ hb]

theorem readField_writeField {f : Field} (h : f.Clean) :
    readField (writeField f) = (f.1.map lower, strip f.2) := by
  have hne : ∀ b ∈ f.1, decide (b ≠ 58) = true := by
    intro b hb
    rw [decide_eq_true_iff]
    rintro rfl
    exact h.colon hb
  have hform : writeField f = f.1 ++ 58 :: (32 :: f.2 ++ [cr] ++ [lf]) := by
    simp [writeField, show ascii ": " = [58, 32] by decide]
  unfold readField
  rw [hform, takeWhile_append_of_pos hne, dropWhile_append_of_pos hne]
  rw [takeWhile_cons_of_neg (by decide), dropWhile_cons_of_neg (by decide)]
  rw [append_nil, drop_one, tail_cons, strip_concat_blank (by decide),
    strip_concat_blank (by decide), strip_cons_blank (by decide)]

theorem isLine_writeField {f : Field} (h : f.Clean) : IsLine (writeField f) := by
  refine ⟨f.1 ++ ascii ": " ++ f.2 ++ [cr], ?_, by simp [writeField]⟩
  have hsep : lf ∉ ascii ": " := by decide
  simp [h.name, h.value, hsep, lf_ne_cr]

theorem not_isBlankLine_writeField (f : Field) : isBlankLine (writeField f) = false := by
  have hlen : 4 ≤ (writeField f).length := by
    simp [writeField, show (ascii ": ").length = 2 by decide]; omega
  unfold isBlankLine
  rw [Bool.or_eq_false_iff]
  constructor
  all_goals
    rw [beq_eq_false_iff_ne]
    intro he
    rw [he] at hlen
    simp at hlen

/-- A recipient reads the fields that were written. -/
theorem readHead_writeHead {start : Bytes} {fs : List Field} (body : Bytes) (hstart : lf ∉ start)
    (hfs : ∀ f ∈ fs, f.Clean) :
    readHead (writeHead start fs ++ body) = fs.map fun f => (f.1.map lower, strip f.2) := by
  have hlines : ∀ l ∈ (start ++ [cr, lf]) :: (fs.map writeField ++ [[cr, lf]]), IsLine l := by
    intro l hl
    rcases mem_cons.mp hl with rfl | hl
    · exact ⟨start ++ [cr], by simp [hstart, lf_ne_cr], by simp⟩
    · rcases mem_append.mp hl with hl | hl
      · obtain ⟨f, hf, rfl⟩ := mem_map.mp hl
        exact isLine_writeField (hfs f hf)
      · rw [mem_singleton.mp hl]; exact ⟨[cr], by decide, rfl⟩
  have hform : writeHead start fs ++ body =
      ((start ++ [cr, lf]) :: (fs.map writeField ++ [[cr, lf]])).flatten ++ body := by
    simp [writeHead, flatMap]
  have hnb : ∀ l ∈ fs.map writeField, (!isBlankLine l) = true := by
    intro l hl
    obtain ⟨f, -, rfl⟩ := mem_map.mp hl
    rw [not_isBlankLine_writeField]; rfl
  unfold readHead
  rw [hform, splitLines_flatten _ hlines]
  rw [cons_append, drop_one, tail_cons, append_assoc,
    takeWhile_append_of_pos hnb, singleton_append,
    takeWhile_cons_of_neg (by decide), append_nil, map_map]
  exact map_congr_left fun f hf => readField_writeField (hfs f hf)

end Vey.Schemes

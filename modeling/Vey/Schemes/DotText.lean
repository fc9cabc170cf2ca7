import Vey.Schemes.Lines

/-! Texts that end with a line of a single dot.

        text            on the wire
        hello CR LF     hello CR LF
        .dot CR LF      ..dot CR LF       a dot at the start of a line is doubled
                        . CR LF           the end

    `dotEncode` is the text on the wire, `undot` takes the extra dot off a line again. Where a stream
    ends is the business of its lines (`EndState.found_iff`); `EndState` finds it byte by byte, and so
    does not depend on how the stream is cut. -/

namespace Vey.Schemes

open List

/-- The line that ends a text. -/
def endLine : Bytes := [46, cr, lf]

theorem isLine_endLine : IsLine endLine := ⟨[46, cr], by decide, rfl⟩

/-- What is behind the complete lines has no line feed. -/
theorem splitLines_spec : ∀ b : Bytes, b = (splitLines b).1.flatten ++ (splitLines b).2 ∧
    (∀ l ∈ (splitLines b).1, IsLine l) ∧ lf ∉ (splitLines b).2
  | [] => ⟨rfl, by simp [splitLines], by simp [splitLines]⟩
  | x :: xs => by
    obtain ⟨heq, hlines, hrest⟩ := splitLines_spec xs
    rw [splitLines]
    by_cases hx : x = lf
    · rw [if_pos hx]
      refine ⟨by simpa [hx] using heq, ?_, hrest⟩
      rintro l (_ | ⟨_, hl⟩)
      · exact ⟨[], by simp, rfl⟩
      · exact hlines l hl
    · rw [if_neg hx]
      rcases hs : splitLines xs with ⟨_ | ⟨l, ls⟩, rest⟩
      · rw [hs] at heq hrest
        refine ⟨by simpa using heq, by simp, ?_⟩
        simpa [Ne.symm hx] using hrest
      · rw [hs] at heq hlines hrest
        refine ⟨by simpa using heq, ?_, hrest⟩
        rintro m (_ | ⟨_, hm⟩)
        · obtain ⟨a, ha, rfl⟩ := hlines l mem_cons_self
          exact ⟨x :: a, by simpa [Ne.symm hx] using ha, rfl⟩
        · exact hlines m (mem_cons_of_mem _ hm)

/-! ### Dots at the start of a line -/

/-- Double the dots at the start of lines; `start` says whether the text begins at one. -/
def stuffFrom : Bool → Bytes → Bytes
  | _, [] => []
  | start, b :: bs =>
    (if start && b == 46 then [46] else []) ++ b :: stuffFrom (b == lf) bs

variable (start : Bool)

/-- Whether a line starts behind the text. -/
def startsLine (b : Bytes) : Bool := (b.getLast?.map (· == lf)).getD start

@[simp] theorem startsLine_nil : startsLine start [] = start := rfl

theorem startsLine_concat (a : Bytes) (x : UInt8) : startsLine start (a ++ [x]) = (x == lf) := by
  simp [startsLine]

theorem startsLine_append (a b : Bytes) :
    startsLine start (a ++ b) = startsLine (startsLine start a) b := by
  rcases eq_nil_or_concat b with rfl | ⟨b, x, rfl⟩
  · simp
  · rw [concat_eq_append, ← append_assoc, startsLine_concat, startsLine_concat]

/-- A text can be encoded part by part. -/
theorem stuffFrom_append : ∀ (start : Bool) (a b : Bytes),
    stuffFrom start (a ++ b) = stuffFrom start a ++ stuffFrom (startsLine start a) b
  | _, [], _ => rfl
  | start, x :: xs, b => by
    have hstart : startsLine start (x :: xs) = startsLine (x == lf) xs := by
      rw [show x :: xs = [x] ++ xs from rfl, startsLine_append]
      rfl
    rw [cons_append, stuffFrom, stuffFrom, stuffFrom_append, hstart]
    simp

/-- The start of a line is looked at on its own. -/
theorem stuffFrom_start (a : Bytes) :
    stuffFrom true a = (if a.head? = some 46 then [46] else []) ++ stuffFrom false a := by
  cases a with
  | nil => rfl
  | cons x xs => by_cases hx : x = 46 <;> simp [stuffFrom, hx]

/-- Inside a line nothing is added. -/
theorem stuffFrom_inside : ∀ {a : Bytes}, lf ∉ a → stuffFrom false a = a
  | [], _ => rfl
  | x :: xs, h => by
    obtain ⟨hx, hxs⟩ := ne_and_not_mem_of_not_mem_cons h
    rw [stuffFrom]
    simp only [Bool.false_and, Bool.false_eq_true, if_false, nil_append]
    rw [show (x == lf) = false by simpa using Ne.symm hx, stuffFrom_inside hxs]

theorem startsLine_inside {a : Bytes} (h : lf ∉ a) : startsLine false a = false := by
  rcases eq_nil_or_concat a with rfl | ⟨b, x, rfl⟩
  · rfl
  · rw [concat_eq_append] at h ⊢
    have hne : x ≠ lf := by
      rintro rfl
      exact h (by simp)
    rw [startsLine_concat, beq_eq_false_iff_ne.mpr hne]

/-- Nor up to the end of the line. -/
theorem stuffFrom_toEnd {a : Bytes} (h : lf ∉ a.dropLast) : stuffFrom false a = a := by
  rcases eq_nil_or_concat a with rfl | ⟨b, x, rfl⟩
  · rfl
  · rw [concat_eq_append] at h ⊢
    rw [dropLast_concat] at h
    rw [stuffFrom_append, stuffFrom_inside h, startsLine_inside h]
    simp [stuffFrom]

variable (l : Bytes)

/-- One line on the wire. -/
def stuffLine : Bytes := if l.head? = some 46 then 46 :: l else l

/-- A line of the wire without its extra dot. -/
def undot : Bytes := if l.head? = some 46 then l.tail else l

theorem undot_stuffLine : undot (stuffLine l) = l := by
  unfold stuffLine
  split
  case isTrue => rfl
  case isFalse h => rw [undot, if_neg h]

theorem stuffLine_ne_endLine : stuffLine l ≠ endLine := by
  unfold stuffLine
  split
  case isTrue h =>
    intro heq
    obtain ⟨-, rfl⟩ := cons.inj heq
    revert h
    decide
  case isFalse h =>
    rintro rfl
    exact h rfl

theorem isLine_stuffLine {l : Bytes} (h : IsLine l) : IsLine (stuffLine l) := by
  unfold stuffLine
  split
  case isTrue =>
    obtain ⟨a, ha, rfl⟩ := h
    exact ⟨46 :: a, by simpa using ⟨by decide, ha⟩, rfl⟩
  case isFalse => exact h

/-- The first bytes of a line, up to its end. -/
theorem stuffFrom_true {a : Bytes} (h : lf ∉ a.dropLast) : stuffFrom true a = stuffLine a := by
  cases a with
  | nil => rfl
  | cons x xs =>
    have htail : stuffFrom (x == lf) xs = xs := by
      cases xs with
      | nil => rfl
      | cons y ys =>
        rw [dropLast_cons_cons] at h
        obtain ⟨hx, hys⟩ := ne_and_not_mem_of_not_mem_cons h
        rw [beq_eq_false_iff_ne.mpr (Ne.symm hx), stuffFrom_toEnd hys]
    rw [stuffFrom, htail, stuffLine]
    by_cases hx : x = 46
    · subst hx; rfl
    · simp [hx]

theorem stuffFrom_lines : ∀ {ls : List Bytes} (rest : Bytes), (∀ l ∈ ls, IsLine l) →
    stuffFrom true (ls.flatten ++ rest) = (ls.map stuffLine).flatten ++ stuffFrom true rest
  | [], _, _ => rfl
  | l :: ls, rest, h => by
    have hl := h l mem_cons_self
    have ih := stuffFrom_lines rest fun m hm => h m (mem_cons_of_mem _ hm)
    obtain ⟨a, ha, rfl⟩ := hl
    rw [flatten_cons, append_assoc, stuffFrom_append, startsLine_concat,
      stuffFrom_true (by rwa [dropLast_concat]), beq_self_eq_true, ih]
    simp

/-! ### Whole texts -/

/-- The text as it is sent. A text that does not end a line is given a line end. -/
def dotEncode (d : Bytes) : Bytes :=
  stuffFrom true d ++ if startsLine true d then endLine else [cr, lf] ++ endLine

/-- The text that arrives. -/
def dotText (d : Bytes) : Bytes := if startsLine true d then d else d ++ [cr, lf]

/-- Lines of which none ends a text. -/
def IsMessage (lines : List Bytes) : Prop := ∀ l ∈ lines, IsLine l ∧ l ≠ endLine

/-- What is sent are lines that do not end the text, and the one that does. -/
theorem dotEncode_eq (d : Bytes) : ∃ lines, IsMessage lines ∧
    dotEncode d = lines.flatten ++ endLine ∧ (lines.map undot).flatten = dotText d := by
  have hmessage : ∀ {ls : List Bytes}, (∀ l ∈ ls, IsLine l) → IsMessage (ls.map stuffLine) := by
    intro ls h l hl
    obtain ⟨m, hm, rfl⟩ := mem_map.mp hl
    exact ⟨isLine_stuffLine (h m hm), stuffLine_ne_endLine m⟩
  have hback : ∀ ls : List Bytes, (ls.map stuffLine).map undot = ls := by
    intro ls
    rw [map_map]
    exact (map_congr_left fun l _ => undot_stuffLine l).trans (map_id ls)
  obtain ⟨heq, hlines, hrest⟩ := splitLines_spec d
  generalize (splitLines d).1 = ls at heq hlines
  generalize (splitLines d).2 = rest at heq hrest
  subst heq
  have hstart : startsLine true ls.flatten = true := by
    rcases eq_nil_or_concat ls with rfl | ⟨ls, l, rfl⟩
    · rfl
    · obtain ⟨a, -, rfl⟩ := hlines l (by simp)
      rw [concat_eq_append, flatten_append, flatten_singleton, ← append_assoc,
        startsLine_concat, beq_self_eq_true]
  have hinside : startsLine true (ls.flatten ++ rest) = rest.isEmpty := by
    rw [startsLine_append, hstart]
    rcases eq_nil_or_concat rest with rfl | ⟨xs, x, rfl⟩
    · rfl
    · rw [concat_eq_append] at hrest ⊢
      rw [startsLine_concat]
      have hne : x ≠ lf := by
        rintro rfl
        exact hrest (by simp)
      rw [beq_eq_false_iff_ne.mpr hne]
      simp
  rw [dotEncode, dotText, hinside, stuffFrom_lines rest hlines]
  cases rest with
  | nil =>
    refine ⟨ls.map stuffLine, hmessage hlines, by simp [stuffFrom], ?_⟩
    rw [hback]
    simp
  | cons x xs =>
    -- the part behind the last line becomes a line
    have hline : IsLine ((x :: xs) ++ [cr, lf]) :=
      ⟨(x :: xs) ++ [cr], by simpa [cr, lf] using hrest, by simp⟩
    have hall : ∀ l ∈ ls ++ [(x :: xs) ++ [cr, lf]], IsLine l := by
      intro l hl
      rcases mem_append.mp hl with hl | hl
      · exact hlines l hl
      · exact mem_singleton.mp hl ▸ hline
    refine ⟨(ls ++ [(x :: xs) ++ [cr, lf]]).map stuffLine, hmessage hall, ?_, ?_⟩
    · have hlast : lf ∉ (x :: xs).dropLast := fun h => hrest (dropLast_subset _ h)
      have hcut : stuffLine ((x :: xs) ++ [cr, lf]) = stuffLine (x :: xs) ++ [cr, lf] := by
        by_cases hx : x = 46 <;> simp [stuffLine, hx]
      rw [stuffFrom_true hlast, map_append, map_singleton, hcut]
      simp
    · rw [hback]
      simp

/-- Lines that were taken off a stream are the first lines of the text. -/
theorem IsMessage.ahead : ∀ {done lines : List Bytes} {x rest : Bytes}, IsMessage done →
    IsMessage lines → done.flatten ++ x = lines.flatten ++ (endLine ++ rest) →
    ∃ todo, lines = done ++ todo ∧ x = todo.flatten ++ (endLine ++ rest)
  | [], lines, _, _, _, _, h => ⟨lines, rfl, h⟩
  | l :: done, lines, x, rest, hd, hl, h => by
    have hline := hd l mem_cons_self
    have hin : l <+: lines.flatten ++ (endLine ++ rest) := by
      rw [← h, flatten_cons, append_assoc]
      exact prefix_append _ _
    cases lines with
    | nil =>
      exact absurd (hline.1.eq_of_prefixes isLine_endLine hin (prefix_append _ _)) hline.2
    | cons m lines =>
      have hm := hl m mem_cons_self
      have hfirst : m <+: (m :: lines).flatten ++ (endLine ++ rest) := by
        rw [flatten_cons, append_assoc]
        exact prefix_append _ _
      obtain rfl : l = m := hline.1.eq_of_prefixes hm.1 hin hfirst
      rw [flatten_cons, flatten_cons, append_assoc, append_assoc] at h
      obtain ⟨todo, rfl, hx⟩ := IsMessage.ahead (fun k hk => hd k (mem_cons_of_mem _ hk))
        (fun k hk => hl k (mem_cons_of_mem _ hk)) (append_cancel_left h)
      exact ⟨todo, rfl, hx⟩

/-- Where the end is next, all lines of the text have been taken. -/
theorem IsMessage.ended {done lines : List Bytes} {x rest : Bytes} (hd : IsMessage done)
    (hl : IsMessage lines) (h : done.flatten ++ x = lines.flatten ++ (endLine ++ rest))
    (hx : endLine <+: x) : done = lines ∧ x = endLine ++ rest := by
  obtain ⟨todo, rfl, rfl⟩ := hd.ahead hl h
  cases todo with
  | nil => exact ⟨(append_nil _).symm, rfl⟩
  | cons l todo =>
    have hline := hl l (by simp)
    rw [flatten_cons, append_assoc] at hx
    exact absurd (hline.1.eq_of_prefixes isLine_endLine (prefix_append _ _) hx) hline.2

/-- The text at the start of a stream: its lines up to the one that ends it. -/
def textOf (stream : Bytes) : Bytes :=
  (((splitLines stream).1.takeWhile (· ≠ endLine)).map undot).flatten

theorem IsMessage.textOf_append {done : List Bytes} (h : IsMessage done) (rest : Bytes) :
    textOf (done.flatten ++ rest) = (done.map undot).flatten ++ textOf rest := by
  rw [textOf, splitLines_flatten rest fun l hl => (h l hl).1,
    takeWhile_append_of_pos fun l hl => decide_eq_true (h l hl).2, map_append,
    flatten_append, textOf]

theorem textOf_endLine (rest : Bytes) : textOf (endLine ++ rest) = [] := by
  have hend : ∀ l ∈ [endLine], IsLine l := fun l hl => mem_singleton.mp hl ▸ isLine_endLine
  have hlines := splitLines_flatten rest hend
  rw [flatten_singleton] at hlines
  rw [textOf, hlines]
  simp

/-! ### The end of a stream -/

/-- How far the current line agrees with the line that ends a text. -/
inductive EndState where
  | lineStart
  | dot
  | dotCr
  | inLine
  | found
  deriving DecidableEq

namespace EndState

variable (s : EndState)

def step (b : UInt8) : EndState :=
  match s with
  | .found => .found
  | .dotCr => if b = lf then .found else .inLine
  | .dot => if b = cr then .dotCr else if b = lf then .lineStart else .inLine
  | .lineStart => if b = 46 then .dot else if b = lf then .lineStart else .inLine
  | .inLine => if b = lf then .lineStart else .inLine

/-- The state behind some bytes. -/
def run (b : Bytes) : EndState := b.foldl step s

@[simp] theorem run_nil : s.run [] = s := rfl

@[simp] theorem run_cons (x : UInt8) (b : Bytes) : s.run (x :: b) = (s.step x).run b := rfl

@[simp] theorem run_append (a b : Bytes) : s.run (a ++ b) = (s.run a).run b :=
  foldl_append

@[simp] theorem run_found : ∀ b : Bytes, EndState.found.run b = .found
  | [] => rfl
  | _ :: b => run_found b

/-- Only a line feed ends a text. -/
theorem run_ne_found : ∀ {b : Bytes} {s : EndState}, s ≠ .found → lf ∉ b → s.run b ≠ .found
  | [], _, hs, _ => hs
  | x :: b, s, hs, h => by
    obtain ⟨hx, hb⟩ := ne_and_not_mem_of_not_mem_cons h
    rw [run_cons]
    refine run_ne_found ?_ hb
    cases s with
    | found => exact absurd rfl hs
    | dotCr => simp [step, Ne.symm hx]
    | dot => by_cases hcr : x = cr <;> simp [step, hcr, Ne.symm hx]
    | lineStart => by_cases hdot : x = 46 <;> simp [step, hdot, Ne.symm hx]
    | inLine => simp [step, Ne.symm hx]

theorem run_inLine : ∀ {b : Bytes}, lf ∉ b → EndState.inLine.run b = .inLine
  | [], _ => rfl
  | x :: b, h => by
    obtain ⟨hx, hb⟩ := ne_and_not_mem_of_not_mem_cons h
    rw [run_cons, step, if_neg (Ne.symm hx), run_inLine hb]

/-- The state inside a line, read off its bytes. -/
theorem run_inside {b : Bytes} (h : lf ∉ b) : EndState.lineStart.run b =
    if b = [] then .lineStart else if b = [46] then .dot else if b = [46, cr] then .dotCr
    else .inLine := by
  rcases b with _ | ⟨x, _ | ⟨y, _ | ⟨z, b⟩⟩⟩
  · rfl
  · have hx : lf ≠ x := by simpa using h
    by_cases h46 : x = 46
    · simp [h46, step]
    · simp [h46, step, Ne.symm hx]
  · obtain ⟨hx, hy⟩ : lf ≠ x ∧ lf ≠ y := by simpa using h
    by_cases h46 : x = 46
    · by_cases hcr : y = cr
      · simp [h46, hcr, step]
      · simp [h46, hcr, step, Ne.symm hy]
    · simp [h46, step, Ne.symm hx, Ne.symm hy]
  · obtain ⟨hx, hy, hz, hb⟩ : lf ≠ x ∧ lf ≠ y ∧ lf ≠ z ∧ lf ∉ b := by simpa using h
    have htwo : (EndState.lineStart.step x).step y = .inLine ∨
        (EndState.lineStart.step x).step y = .dotCr := by
      by_cases h46 : x = 46
      · by_cases hcr : y = cr
        · simp [h46, hcr, step]
        · simp [h46, hcr, step, Ne.symm hy]
      · simp [h46, step, Ne.symm hx, Ne.symm hy]
    have hthree : ((EndState.lineStart.step x).step y).step z = .inLine := by
      rcases htwo with h | h <;> rw [h] <;> exact if_neg (Ne.symm hz)
    rw [run_cons, run_cons, run_cons, hthree, run_inLine hb]
    simp

theorem run_line {l : Bytes} (h : IsLine l) (hne : l ≠ endLine) :
    EndState.lineStart.run l = .lineStart := by
  obtain ⟨a, ha, rfl⟩ := h
  have hend : a ≠ [46, cr] := by
    rintro rfl
    exact hne rfl
  rw [run_append, run_inside ha, if_neg hend]
  split
  · rfl
  · split
    · simp [step, lf, cr]
    · rfl

theorem run_endLine : EndState.lineStart.run endLine = .found := by decide

/-- The end is found exactly when the line that ends a text is among the complete lines. -/
theorem found_iff (b : Bytes) : EndState.lineStart.run b = .found ↔ endLine ∈ (splitLines b).1 := by
  have hlines : ∀ {ls : List Bytes} {rest : Bytes}, (∀ l ∈ ls, IsLine l) → lf ∉ rest →
      (EndState.lineStart.run (ls.flatten ++ rest) = .found ↔ endLine ∈ ls) := by
    intro ls rest hls hrest
    induction ls with
    | nil =>
      refine iff_of_false ?_ not_mem_nil
      rw [flatten_nil, nil_append, run_inside hrest]
      split
      · nofun
      · split
        · nofun
        · split <;> nofun
    | cons l ls ih =>
      have ih := ih fun m hm => hls m (mem_cons_of_mem _ hm)
      by_cases hl : l = endLine
      · subst hl
        refine iff_of_true ?_ mem_cons_self
        rw [flatten_cons, append_assoc, run_append, run_endLine, run_found]
      · rw [flatten_cons, append_assoc, run_append, run_line (hls l mem_cons_self) hl, ih]
        simp [Ne.symm hl]
  obtain ⟨heq, hls, hrest⟩ := splitLines_spec b
  nth_rewrite 1 [heq]
  exact hlines hls hrest

end EndState

end Vey.Schemes

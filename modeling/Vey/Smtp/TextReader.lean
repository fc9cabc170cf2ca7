import Vey.Schemes.DotText
import Vey.Schemes.Poll

/-! `TextDataReader`: the text of a mail as it is on the wire, up to the line that ends it.

    `EndChecker` looks at what a read brought, line by line, and keeps in three flags how much of the
    last line the end of the text may still be. -/

namespace Vey.Smtp
open Schemes List EndState

/-- What the next bytes are checked for. -/
structure EndChecker where
  checkEmpty : Bool := true
  checkRN : Bool := false
  checkN : Bool := false
  found : Bool := false

namespace EndChecker

/-- One look at the start of what is left: where `check` returns, or `none` when it goes on to the
    next line. -/
def look (c : EndChecker) (left : Bytes) : EndChecker × Option Nat :=
  match left with
  | [] => (c, some 0)
  | [x] =>
    if c.checkN then
      if x = lf then ({ c with checkN := false, found := true }, some 1)
      else ({ c with checkN := false }, none)
    else if c.checkRN then
      if x = cr then ({ c with checkRN := false, checkN := true }, some 1)
      else ({ c with checkRN := false }, none)
    else if c.checkEmpty then
      if x = 46 then ({ c with checkEmpty := false, checkRN := true }, some 1)
      else ({ c with checkEmpty := false }, none)
    else (c, none)
  | [x, y] =>
    if c.checkN then
      if x = lf then ({ c with checkN := false, found := true }, some 1)
      else ({ c with checkN := false }, none)
    else if c.checkRN then
      if [x, y] = [cr, lf] then ({ c with checkRN := false, found := true }, some 2)
      else ({ c with checkRN := false }, none)
    else if c.checkEmpty then
      if [x, y] = [46, cr] then ({ c with checkEmpty := false, checkN := true }, some 2)
      else ({ c with checkEmpty := false }, none)
    else (c, none)
  | x :: y :: z :: _ =>
    if c.checkN then
      if x = lf then ({ c with checkN := false, found := true }, some 1)
      else ({ c with checkN := false }, none)
    else if c.checkRN then
      if [x, y] = [cr, lf] then ({ c with checkRN := false, found := true }, some 2)
      else ({ c with checkRN := false }, none)
    else if c.checkEmpty then
      if [x, y, z] = [46, cr, lf] then ({ c with checkEmpty := false, found := true }, some 3)
      else ({ c with checkEmpty := false }, none)
    else (c, none)

/-- The loop of `check`; every round but the last skips a line, so the length of the data bounds the
    rounds. -/
def checkLoop : Nat → EndChecker → Bytes → Nat → EndChecker × Nat
  | 0, c, _, offset => (c, offset)
  | fuel + 1, c, left, offset =>
    match c.look left with
    | (c, some n) => (c, offset + n)
    | (c, none) =>
      match memchr lf left with
      | some p => checkLoop fuel { c with checkEmpty := true } (left.drop (p + 1)) (offset + p + 1)
      | none => (c, offset + left.length)

def check (c : EndChecker) (data : Bytes) : EndChecker × Nat := checkLoop (data.length + 1) c data 0

/-! ### The flags as a state -/

/-- The flags that stand for a state. -/
def ofState : EndState → EndChecker
  | .lineStart => {}
  | .dot => ⟨false, true, false, false⟩
  | .dotCr => ⟨false, false, true, false⟩
  | .inLine => ⟨false, false, false, false⟩
  | .found => ⟨false, false, false, true⟩

@[simp] theorem ofState_found (s : EndState) : (ofState s).found = decide (s = .found) := by
  cases s <;> rfl

variable {s : EndState}

/-- Behind a line feed a line starts, unless it is the end. -/
theorem run_concat_lf {a : Bytes} (hs : s.run a ≠ .found) (hend : s.run a ≠ .dotCr) :
    s.run (a ++ [lf]) = .lineStart := by
  rw [run_append, EndState.run_cons, run_nil]
  cases h : s.run a with
  | found => exact absurd h hs
  | dotCr => exact absurd h hend
  | dot => simp [step, cr, lf]
  | lineStart => simp [step, lf]
  | inLine => simp [step]

/-- The rest of a line that a look has given up. -/
structure GivesUp (s : EndState) (left : Bytes) : Prop where
  alive : s ≠ .found
  left_ne : left ≠ []
  dotCr : s = .dotCr → left.head? ≠ some lf
  dot : s = .dot → left ≠ [cr] ∧ ¬ [cr, lf] <+: left
  lineStart : s = .lineStart → left ≠ [46] ∧ left ≠ [46, cr] ∧ ¬ endLine <+: left

/-- Inside such a line there is no end. -/
theorem GivesUp.run_inside {a left : Bytes} (h : GivesUp s left) (ha : lf ∉ a)
    (hcut : a = left ∨ a ++ [lf] <+: left) :
    s.run a ≠ .found ∧ s.run a ≠ .dotCr ∧ (a = left → s.run a = .inLine) := by
  have hfirst : ∀ {t : EndState} {x : UInt8} {b : Bytes}, lf ∉ b → t.step x = .inLine →
      t.run (x :: b) ≠ .found ∧ t.run (x :: b) ≠ .dotCr ∧
        (x :: b = left → t.run (x :: b) = .inLine) := by
    intro t x b hb ht
    rw [EndState.run_cons, ht, run_inLine hb]
    exact ⟨by simp, by simp, fun _ => rfl⟩
  cases s with
  | found => exact absurd rfl h.alive
  | inLine =>
    rw [run_inLine ha]
    exact ⟨by simp, by simp, fun _ => rfl⟩
  | dotCr =>
    cases a with
    | nil =>
      rcases hcut with rfl | ⟨b, rfl⟩
      · exact absurd rfl h.left_ne
      · exact absurd rfl (h.dotCr rfl)
    | cons x b =>
      obtain ⟨hx, hb⟩ := ne_and_not_mem_of_not_mem_cons ha
      exact hfirst hb (by simp [step, Ne.symm hx])
  | dot =>
    obtain ⟨hcr, hend⟩ := h.dot rfl
    cases a with
    | nil => exact ⟨by simp, by simp, fun heq => absurd heq.symm h.left_ne⟩
    | cons x b =>
      obtain ⟨hx, hb⟩ := ne_and_not_mem_of_not_mem_cons ha
      by_cases hxcr : x = cr
      · subst hxcr
        cases b with
        | nil =>
          rcases hcut with rfl | hle
          · exact absurd rfl hcr
          · exact absurd hle hend
        | cons y b =>
          obtain ⟨hy, hb⟩ := ne_and_not_mem_of_not_mem_cons hb
          have hrun : EndState.dot.run (cr :: y :: b) = .inLine := by
            rw [EndState.run_cons, EndState.run_cons]
            have hstep : (EndState.dot.step cr).step y = .inLine := by
              simp [step, Ne.symm hy]
            rw [hstep, run_inLine hb]
          rw [hrun]
          exact ⟨by simp, by simp, fun _ => rfl⟩
      · exact hfirst hb (by simp [step, hxcr, Ne.symm hx])
  | lineStart =>
    obtain ⟨hdot, hcr, hend⟩ := h.lineStart rfl
    rw [run_inside ha]
    have hne : a ≠ [46, cr] := by
      rintro rfl
      rcases hcut with rfl | hle
      · exact hcr rfl
      · exact hend hle
    split
    case isTrue hnil => exact ⟨by simp, by simp, fun heq => absurd (heq ▸ hnil) h.left_ne⟩
    case isFalse =>
      split
      case isTrue hone => exact ⟨by simp, by simp, fun heq => absurd (heq ▸ hone) hdot⟩
      case isFalse => exact ⟨by simp, by simp, fun _ => rfl⟩

/-- What `check` found behind `n` bytes, none of which but the last ends the text. -/
structure Stops (s : EndState) (data : Bytes) (n : Nat) : Prop where
  le : n ≤ data.length
  last : s.run (data.take n) = .found ∨ n = data.length
  first : ∀ m < n, s.run (data.take m) ≠ .found

/-- Without a line feed before the last byte, nothing ends there. -/
theorem Stops.of_not_mem {data : Bytes} {n : Nat} (hs : s ≠ .found) (hle : n ≤ data.length)
    (hlast : s.run (data.take n) = .found ∨ n = data.length) (hlf : lf ∉ data.take (n - 1)) :
    Stops s data n :=
  ⟨hle, hlast, fun _ hm => run_ne_found hs fun h => hlf (take_subset_take_left _ (by omega) h)⟩

/-- One look: it returns where the data or the text ends, or the line holds no end. -/
theorem look_spec (hs : s ≠ .found) (left : Bytes) :
    (∃ n, Stops s left n ∧ (ofState s).look left = (ofState (s.run (left.take n)), some n)) ∨
    ((ofState s).look left = (ofState .inLine, none) ∧ GivesUp s left) := by
  have hstop := @Stops.of_not_mem s left
  rcases left with _ | ⟨x, left⟩
  · exact .inl ⟨0, hstop hs (by simp) (.inr rfl) (by simp), by cases s <;> rfl⟩
  cases s with
  | found => exact absurd rfl hs
  | inLine =>
    refine .inr ⟨?_, by simp, by simp, by simp, by simp, by simp⟩
    rcases left with _ | ⟨y, _ | ⟨z, left⟩⟩ <;> rfl
  | dotCr =>
    by_cases hx : x = lf
    · subst hx
      refine .inl ⟨1, hstop hs (by simp) (.inl rfl) (by simp), ?_⟩
      rcases left with _ | ⟨y, _ | ⟨z, left⟩⟩ <;> rfl
    · refine .inr ⟨?_, by simp, by simp, fun _ => by simpa using hx, by simp, by simp⟩
      rcases left with _ | ⟨y, _ | ⟨z, left⟩⟩ <;> simp [look, ofState, hx]
  | dot =>
    rcases left with _ | ⟨y, left⟩
    · by_cases hx : x = cr
      · subst hx
        exact .inl ⟨1, hstop hs (by simp) (.inr rfl) (by simp), rfl⟩
      · exact .inr ⟨by simp [look, ofState, hx], by simp, by simp, by simp,
          fun _ => ⟨by simpa using hx, by simp [cons_prefix_cons]⟩, by simp⟩
    · by_cases hxy : x = cr ∧ y = lf
      · obtain ⟨rfl, rfl⟩ := hxy
        refine .inl ⟨2, hstop hs (by simp) (.inl (by simp [step])) (by simp [cr, lf]), ?_⟩
        rcases left with _ | ⟨z, left⟩ <;> simp [look, ofState, step]
      · refine .inr ⟨?_, by simp, by simp, by simp,
          fun _ => ⟨by simp, by simpa [cons_prefix_cons, eq_comm] using hxy⟩, by simp⟩
        rcases left with _ | ⟨z, left⟩ <;> simp [look, ofState, hxy]
  | lineStart =>
    rcases left with _ | ⟨y, _ | ⟨z, left⟩⟩
    · by_cases hx : x = 46
      · subst hx
        exact .inl ⟨1, hstop hs (by simp) (.inr rfl) (by simp), rfl⟩
      · exact .inr ⟨by simp [look, ofState, hx], by simp, by simp, by simp, by simp,
          fun _ => ⟨by simpa using hx, by simp, by simp [endLine, cons_prefix_cons]⟩⟩
    · by_cases hxy : x = 46 ∧ y = cr
      · obtain ⟨rfl, rfl⟩ := hxy
        exact .inl ⟨2, hstop hs (by simp) (.inr rfl) (by simp [lf]), by simp [look, ofState, step]⟩
      · exact .inr ⟨by simp [look, ofState, hxy], by simp, by simp, by simp, by simp,
          fun _ => ⟨by simp, by simpa using hxy, by simp [endLine, cons_prefix_cons]⟩⟩
    · by_cases hxyz : x = 46 ∧ y = cr ∧ z = lf
      · obtain ⟨rfl, rfl, rfl⟩ := hxyz
        exact .inl ⟨3, hstop hs (by simp) (.inl (by simp [step])) (by simp [cr, lf]),
          by simp [look, ofState, step]⟩
      · exact .inr ⟨by simp [look, ofState, hxyz], by simp, by simp, by simp, by simp,
          fun _ => ⟨by simp, by simp, by simpa [endLine, cons_prefix_cons, eq_comm] using hxyz⟩⟩

theorem checkLoop_spec : ∀ {fuel : Nat} {s : EndState} {left : Bytes} (offset : Nat), s ≠ .found →
    left.length < fuel → ∃ n, Stops s left n ∧
      checkLoop fuel (ofState s) left offset = (ofState (s.run (left.take n)), offset + n)
  | 0, _, _, _, _, h => absurd h (Nat.not_lt_zero _)
  | fuel + 1, s, left, offset, hs, hfuel => by
    unfold checkLoop
    rcases look_spec hs left with ⟨n, hstop, hlook⟩ | ⟨hlook, hgive⟩
    · exact ⟨n, hstop, by rw [hlook]⟩
    · rw [hlook]
      dsimp only
      split
      case h_1 p hp =>
        obtain ⟨hnot, hcut⟩ := memchr_some hp
        have hlt := memchr_lt hp
        have htake : left.take (p + 1) = left.take p ++ [lf] := memchr_take hp
        have hline : s.run (left.take (p + 1)) = .lineStart := by
          have hin := hgive.run_inside hnot (.inr (htake ▸ take_prefix _ _))
          rw [htake]
          exact run_concat_lf hin.1 hin.2.1
        have hrest : (left.drop (p + 1)).length < fuel := by rw [length_drop]; omega
        obtain ⟨n, hstop, heq⟩ := checkLoop_spec (s := .lineStart) (offset + p + 1) nofun hrest
        have hrun : ∀ m, s.run (left.take (p + 1 + m)) =
            lineStart.run ((left.drop (p + 1)).take m) := by
          intro m
          rw [take_add, run_append, hline]
        refine ⟨p + 1 + n, ⟨?_, ?_, ?_⟩, ?_⟩
        · have := hstop.le
          rw [length_drop] at this
          omega
        · rw [hrun]
          refine hstop.last.imp id fun hn => ?_
          rw [hn, length_drop]
          omega
        · intro m hm
          by_cases hmp : m ≤ p
          · refine run_ne_found hs ?_
            intro hin
            refine hnot ?_
            rw [show left.take m = (left.take p).take m by rw [take_take, Nat.min_eq_left hmp]] at hin
            exact take_subset _ _ hin
          · obtain ⟨k, rfl⟩ : ∃ k, m = p + 1 + k := ⟨m - (p + 1), by omega⟩
            rw [hrun]
            exact hstop.first k (by omega)
        · rw [hrun, show offset + (p + 1 + n) = offset + p + 1 + n by omega]
          exact heq
      case h_2 hp =>
        have hnot := memchr_none hp
        have hin := hgive.run_inside hnot (.inl rfl)
        refine ⟨left.length, ⟨Nat.le_refl _, .inr rfl, ?_⟩, ?_⟩
        · intro m _
          exact run_ne_found hs fun h => hnot (take_subset _ _ h)
        · rw [take_length, hin.2.2 rfl]

/-- `check` computes the state behind the data, and stops behind the end of the text. -/
theorem check_spec (hs : s ≠ .found) (data : Bytes) : ∃ n, Stops s data n ∧
    check (ofState s) data = (ofState (s.run data), n) := by
  obtain ⟨n, hstop, heq⟩ := checkLoop_spec 0 hs (Nat.lt_succ_self data.length)
  refine ⟨n, hstop, ?_⟩
  have hrun : s.run (data.take n) = s.run data := by
    rcases hstop.last with hfound | hlen
    · rw [hfound]
      conv_rhs => rw [← take_append_drop n data, run_append, hfound]
      rw [run_found]
    · rw [hlen, take_length]
  rw [← hrun]
  simpa [check] using heq

end EndChecker

/-! ### The reader -/

structure TextDataReader where
  inner : Source
  ending : EndChecker := {}

namespace TextDataReader

def new (inner : Source) : TextDataReader := { inner := inner }

def finished (r : TextDataReader) : Bool := r.ending.found

/-- What a read brought behind the end of the text is not given to the caller, and it is not in the
    stream any more. -/
def pollRead (r : TextDataReader) (cap : Nat) : IoPoll Bytes × TextDataReader :=
  if r.ending.found then (.ready (.ok []), r)
  else
    match r.inner.pollRead cap with
    | (.pending, inner) => (.pending, { r with inner := inner })
    | (.ready (.error e), inner) => (.ready (.error e), { r with inner := inner })
    | (.ready (.ok d), inner) =>
      if d = [] then (.ready (.ok []), { r with inner := inner })
      else
        match r.ending.check d with
        | (ending, n) => (.ready (.ok (d.take n)), ⟨inner, ending⟩)

/-- The reader has taken `seen` off the stream, and the flags say what that was. -/
structure Inv (stream seen : Bytes) (r : TextDataReader) : Prop where
  split : seen ++ r.inner.content = stream
  state : r.ending = .ofState (EndState.lineStart.run seen)

variable {stream seen : Bytes} {r r' : TextDataReader} {cap : Nat} {a : IoPoll Bytes}

theorem Inv.finished_iff (h : r.Inv stream seen) :
    r.finished = true ↔ endLine ∈ (splitLines seen).1 := by
  rw [finished, h.state, EndChecker.ofState_found, decide_eq_true_eq, found_iff]

/-- What a call leaves: the reader as it was behind the end, or with what the stream brought. -/
def Leaves (stream : Bytes) (r : TextDataReader) (cap : Nat) (r' : TextDataReader) : Prop :=
  (r.finished = true ∧ r' = r) ∨ (r.finished = false ∧ ∃ seen', r'.Inv stream seen' ∧
    r'.inner = (r.inner.pollRead cap).2)

/-- A call fails with the stream only. -/
theorem pollRead_inv (h : r.Inv stream seen) (hp : r.pollRead cap = (a, r')) :
    ((∀ e, a ≠ .ready (.error e)) ∧ r.Leaves stream cap r') ∨
      ∃ e i, a = .ready (.error e) ∧ r.inner.pollRead cap = (.ready (.error e), i) := by
  unfold pollRead at hp
  split at hp
  case isTrue hf =>
    obtain ⟨rfl, rfl⟩ := Prod.mk.inj hp
    exact .inl ⟨nofun, .inl ⟨hf, rfl⟩⟩
  case isFalse hf =>
    have hrun : lineStart.run seen ≠ .found := by
      intro hrun
      rw [h.state, hrun] at hf
      exact hf rfl
    have hfin : r.finished = false := by simpa [finished] using hf
    split at hp
    case h_1 i hi =>
      obtain ⟨rfl, rfl⟩ := Prod.mk.inj hp
      refine .inl ⟨nofun, .inr ⟨hfin, seen, ⟨?_, h.state⟩, by rw [hi]⟩⟩
      rw [Source.pollRead_pending hi, h.split]
    case h_2 e i hi =>
      obtain ⟨rfl, -⟩ := Prod.mk.inj hp
      exact .inr ⟨e, i, rfl, hi⟩
    case h_3 d i hi =>
      have hcont := (Source.pollRead_ok hi).1
      split at hp
      case isTrue hnil =>
        obtain ⟨rfl, rfl⟩ := Prod.mk.inj hp
        rw [hnil, nil_append] at hcont
        exact .inl ⟨nofun, .inr ⟨hfin, seen, ⟨by rw [hcont, h.split], h.state⟩, by rw [hi]⟩⟩
      case isFalse =>
        obtain ⟨n, -, heq⟩ := EndChecker.check_spec hrun d
        rw [h.state, heq] at hp
        obtain ⟨rfl, rfl⟩ := Prod.mk.inj hp
        refine .inl ⟨nofun, .inr ⟨hfin, seen ++ d, ⟨?_, ?_⟩, by rw [hi]⟩⟩
        · rw [append_assoc, hcont, h.split]
        · rw [run_append]

end TextDataReader

end Vey.Smtp

import Vey.Schemes.ChunkFrame

/-! What a stream comes to when it is read as one chunked body whose lines have a bound.

        5 CR LF a b c d e CR LF 0 CR LF CR LF | next message
                                              finished, 5 bytes of payload
        5 CR X ...                            failed, none
        5 CR LF a b c                         failed, 3

    The verdict is a function of the bytes alone. It fails where the framing is broken, where a
    line reaches the bound and where the stream stops inside the body. -/

namespace Vey.Schemes

/-- `rest` is the stream behind the body, `size` the number of payload bytes. -/
inductive Verdict where
  | finished (rest : Bytes) (size : Nat)
  | failed (size : Nat)
  deriving DecidableEq

namespace Frame

/-- The line that the reading is in has reached the bound. -/
def TooLong (max : Nat) : FrameSt → Prop
  | .sizeLine line => 0 < line.length ∧ max ≤ line.length
  | .sizeLf line => max ≤ line.length
  | .trailer len => 0 < len ∧ max ≤ len
  | .trailerLf len => max ≤ len + 1
  | _ => False

instance (max : Nat) : ∀ st : FrameSt, Decidable (TooLong max st)
  | .sizeLine _ => inferInstanceAs (Decidable (_ ∧ _))
  | .sizeLf _ => inferInstanceAs (Decidable (_ ≤ _))
  | .trailer _ => inferInstanceAs (Decidable (_ ∧ _))
  | .trailerLf _ => inferInstanceAs (Decidable (_ ≤ _))
  | .data _ | .dataCr | .dataLf | .done | .bad => inferInstanceAs (Decidable False)

section

variable (size : Bytes → Option Nat) (max : Nat)

def verdict : Frame → Bytes → Verdict
  | f, [] => if f.st = .done then .finished [] f.body.length else .failed f.body.length
  | f, b :: bs =>
    if f.st = .done then .finished (b :: bs) f.body.length
    else if TooLong max f.st then .failed f.body.length
    else verdict (step size f b) bs

end

variable {size : Bytes → Option Nat} {max : Nat} {d line rest : Bytes} {b : UInt8}

theorem verdict_done (d rest : Bytes) :
    verdict size max ⟨.done, d⟩ rest = .finished rest d.length := by
  cases rest <;> rfl

variable {f : Frame}

theorem verdict_nil (hst : f.st ≠ .done) :
    verdict size max f [] = .failed f.body.length := if_neg hst

theorem verdict_cons (hst : f.st ≠ .done) (hfit : ¬TooLong max f.st) :
    verdict size max f (b :: rest) = verdict size max (step size f b) rest := by
  rw [verdict, if_neg hst, if_neg hfit]

variable {st : FrameSt}

theorem verdict_tooLong (h : TooLong max st) :
    verdict size max ⟨st, d⟩ rest = .failed d.length := by
  have hst : st ≠ .done := by
    rintro rfl
    exact h
  cases rest with
  | nil => exact verdict_nil hst
  | cons b rest => rw [verdict, if_neg hst, if_pos h]

theorem verdict_bad (d : Bytes) : ∀ rest : Bytes, verdict size max ⟨.bad, d⟩ rest = .failed d.length
  | [] => rfl
  | b :: rest => by
    have hstep : verdict size max ⟨.bad, d⟩ (b :: rest) = verdict size max ⟨.bad, d⟩ rest :=
      verdict_cons nofun id
    rw [hstep]
    exact verdict_bad d rest

/-- Broken, or about to be. -/
def Doomed (max : Nat) (st : FrameSt) : Prop := st = .bad ∨ TooLong max st

theorem verdict_doomed (h : Doomed max f.st) (rest : Bytes) :
    verdict size max f rest = .failed f.body.length := by
  obtain ⟨st, d⟩ := f
  rcases h with rfl | h
  · exact verdict_bad d rest
  · exact verdict_tooLong h

/-! ### Bytes that a reading gets past -/

/-- A reading is open at every byte of `bs`, and what follows is judged from the state behind them. -/
structure Gets (size : Bytes → Option Nat) (max : Nat) (f : Frame) (bs : Bytes) : Prop where
  live : Live size f bs
  passes : ∀ rest, verdict size max f (bs ++ rest) = verdict size max (feed size f bs) rest

theorem gets_nil (f : Frame) : Gets size max f [] := ⟨trivial, fun _ => rfl⟩

theorem Gets.append {x y : Bytes} (hx : Gets size max f x)
    (hy : Gets size max (feed size f x) y) : Gets size max f (x ++ y) := by
  refine ⟨live_append.mpr ⟨hx.live, hy.live⟩, fun rest => ?_⟩
  rw [List.append_assoc, hx.passes, hy.passes, feed_append]

theorem gets_one (hopen : f.Open) (hfit : ¬TooLong max f.st) : Gets size max f [b] :=
  ⟨⟨hopen, trivial⟩, fun _ => verdict_cons hopen.1 hfit⟩

/-- Inside a line, before its CR. -/
def InLine : FrameSt → Prop
  | .sizeLine _ | .trailer _ => True
  | _ => False

/-- A line that has reached the bound stays too long, so its bytes can be read at once. -/
theorem gets_line_one (h : InLine st) : Gets size max ⟨st, d⟩ [b] := by
  have hopen : Open ⟨st, d⟩ := by constructor <;> rintro rfl <;> exact h
  have hgrow : TooLong max st → TooLong max (step size ⟨st, d⟩ b).st ∧
      (step size ⟨st, d⟩ b).body = d := by
    intro hlong
    cases st with
    | sizeLine | trailer =>
      refine ⟨?_, rfl⟩
      by_cases hb : b = cr <;> simp [step, hb, TooLong] <;> have := hlong.2 <;> omega
    | _ => exact h.elim
  refine ⟨⟨hopen, trivial⟩, fun rest => ?_⟩
  by_cases hlong : TooLong max st
  · obtain ⟨hmore, hbody⟩ := hgrow hlong
    have hlater : verdict size max (step size ⟨st, d⟩ b) rest = .failed d.length := by
      rw [verdict_doomed (.inr hmore), hbody]
    exact (verdict_tooLong hlong).trans hlater.symm
  · exact verdict_cons hopen.1 hlong

theorem gets_line {bs : Bytes} : ∀ {st : FrameSt}, InLine st → cr ∉ bs →
    Gets size max ⟨st, d⟩ bs ∧ ∃ st', feed size ⟨st, d⟩ bs = ⟨st', d⟩ ∧ InLine st' := by
  induction bs with
  | nil => exact fun h _ => ⟨gets_nil _, _, rfl, h⟩
  | cons b bs ih =>
    intro st h hno
    obtain ⟨hb, hbs⟩ := not_or.mp (mt List.mem_cons.mpr hno)
    obtain ⟨st', hstep, h'⟩ : ∃ st', step size ⟨st, d⟩ b = ⟨st', d⟩ ∧ InLine st' := by
      cases st with
      | sizeLine line => exact ⟨.sizeLine (line ++ [b]), by simp only [step, if_neg (Ne.symm hb)],
        trivial⟩
      | trailer len => exact ⟨.trailer (len + 1), by simp only [step, if_neg (Ne.symm hb)], trivial⟩
      | _ => exact h.elim
    obtain ⟨hgets, hfeed⟩ := ih h' hbs
    refine ⟨(gets_line_one h).append (y := bs) ?_, ?_⟩
    · rw [feed_cons, hstep]
      exact hgets
    · rw [feed_cons, hstep]
      exact hfeed

/-- A line up to its CR. -/
theorem gets_cr {c : Bytes} {i : Nat} (h : InLine st) (hm : memchr cr c = some i) :
    Gets size max ⟨st, d⟩ (c.take (i + 1)) := by
  have hline : Gets size max ⟨st, d⟩ (c.take i) ∧ _ := gets_line h (memchr_some hm).1
  obtain ⟨hgets, st', hfeed, h'⟩ := hline
  rw [memchr_take hm]
  exact hgets.append (hfeed ▸ gets_line_one h')

theorem gets_data {bs : Bytes} : ∀ {left : Nat} {d : Bytes}, bs.length ≤ left →
    Gets size max ⟨.data left, d⟩ bs := by
  induction bs with
  | nil => exact fun _ => gets_nil _
  | cons b bs ih =>
    intro left d hle
    rw [List.length_cons] at hle
    refine Gets.append (x := [b]) (gets_one ⟨nofun, nofun⟩ id) ?_
    by_cases hl : left ≤ 1
    · obtain rfl : bs = [] := List.length_eq_zero_iff.mp (by omega)
      exact gets_nil _
    · simp only [feed_cons, feed_nil, step, if_neg hl]
      exact ih (by omega)

/-! The states behind a line and behind payload are at the start of something. -/

theorem not_tooLong_sizeLf_step : ¬TooLong max (step size ⟨.sizeLf line, d⟩ b).st := by
  simp only [step]
  split
  · rcases size (line ++ [b]) with _ | _ | n
    · exact id
    · exact fun h => absurd h.1 (Nat.lt_irrefl 0)
    · exact id
  · exact id

theorem not_tooLong_dataSt (left : Nat) : ¬TooLong max (dataSt left) := by
  unfold dataSt
  split <;> exact id

end Frame

end Vey.Schemes

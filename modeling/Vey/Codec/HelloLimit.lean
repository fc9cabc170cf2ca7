import Vey.Codec.TlsRecord
import Vey.Schemes.Steps

/-! The size limit of a handshake message, over every way to cut the message into records.

        record     | frag₀ |   | frag₁ |   | frag₂ ...
        coalescer  ---> buf ------> buf, at four bytes the length is known

    The coalescer compares the length with its limit as soon as it knows it. A message that lies in
    the first fragment does not come to the coalescer. -/

namespace Vey.Codec
open Schemes List HandshakeCoalescer

/-- A peer's records are read one after the other. -/
structure RecordReader where
  record : Record
  further : List Record
  coalescer : HandshakeCoalescer
  /-- the messages that were taken from the records -/
  yielded : List HandshakeMessage := []

namespace RecordReader

inductive Move where
  | consumeHandshake
  | nextRecord

/-- An error ends the reading. The next record comes when the last one is consumed. -/
def step (s : RecordReader) : Move → Option RecordReader
  | .consumeHandshake =>
    match s.record.consumeHandshake s.coalescer with
    | .error _ => none
    | .ok (msg, record, coalescer) =>
      some { s with record, coalescer, yielded := msg.toList ++ s.yielded }
  | .nextRecord =>
    if s.record.consumeDone then
      match s.further with
      | [] => none
      | record :: further => some { s with record, further }
    else none

def start (maxMessageSize : Nat) (record : Record) (further : List Record) : RecordReader where
  record := record
  further := further
  coalescer := { maxMessageSize }

end RecordReader

open RecordReader (Move start step)

/-- A handshake record that was parsed, before any of it is consumed. -/
structure Record.IsFresh (r : Record) : Prop where
  handshake : r.header.contentType = contentTypeHandshake
  untouched : r.consumeOffset = 0
  nonempty : r.fragment ≠ []

namespace Handshake

variable (m : Handshake) {limit : Nat} {record : Record} {further : List Record} {tail : Bytes}

/-- The records carry the message, and maybe others behind it. -/
structure IsSplit (records : List Record) (tail : Bytes) : Prop where
  fresh : ∀ r ∈ records, r.IsFresh
  content : records.flatMap (·.fragment) = m.message ++ tail

/-- The message is handed out neither from a record nor from the coalescer. -/
def Withheld (s : RecordReader) : Prop :=
  ⟨m.header, m.message⟩ ∉ s.yielded ∧ ∀ ch, s.coalescer.parseClientHello ≠ .ok (some ch)

/-- Up to here less than the header of the message was read. -/
structure Headless (limit : Nat) (tail : Bytes) (s : RecordReader) : Prop where
  handshake : s.record.header.contentType = contentTypeHandshake
  fresh : ∀ r ∈ s.further, r.IsFresh
  coalescer : s.coalescer = { maxMessageSize := limit, buf := s.coalescer.buf }
  short : s.coalescer.buf.length < 4
  content : s.coalescer.buf ++ (s.record.fragment.drop s.record.consumeOffset ++
    s.further.flatMap (·.fragment)) = m.message ++ tail
  first : s.coalescer.buf = [] → s.record.consumeOffset < s.record.fragment.length ∧
    (s.record.fragment.drop s.record.consumeOffset).length < m.message.length
  yielded : s.yielded = []

variable {m}

theorem Headless.withheld {s : RecordReader} (h : m.Headless limit tail s) : m.Withheld s := by
  refine ⟨by simp [h.yielded], fun ch => ?_⟩
  rw [h.coalescer]
  simp [parseClientHello]

/-- What the coalescer makes of bytes behind less than a header: more of the header, or an error. -/
theorem coalesceFragment_headless (hlong : limit < m.body.length) {buf data rest : Bytes}
    (hcontent : buf ++ (data ++ rest) = m.message ++ tail) {c : HandshakeCoalescer}
    (hc : c = { maxMessageSize := limit, buf := buf }) :
    c.coalesceFragment data =
      if 4 ≤ (buf ++ data).length then .error (.tooLargeMessageSize m.body.length)
      else .ok (data.length, { c with buf := buf ++ data }) := by
  have hsplit : (buf ++ data) ++ rest = m.message ++ tail := by rw [append_assoc, hcontent]
  have hparse := m.tryParse_start hsplit
  have hlen : limit < m.header.msgLength := hlong
  subst hc
  rcases eq_or_ne buf [] with rfl | hne
  · rw [nil_append] at hparse ⊢
    simp only [coalesceFragment, addFirstFragment, if_pos,
      hparse, nil_append]
    by_cases hfour : 4 ≤ data.length
    · simp only [if_pos hfour, if_pos hlen]
      rfl
    · simp only [if_neg hfour]
  · simp only [coalesceFragment, if_neg hne, hparse]
    by_cases hfour : 4 ≤ (buf ++ data).length
    · simp only [if_pos hfour, if_pos hlen]
      rfl
    · simp only [if_neg hfour]

variable {s s' : RecordReader}

theorem Headless.consumeHandshake (hlong : limit < m.body.length)
    (h : m.Headless limit tail s) (hstep : s.step .consumeHandshake = some s') :
    m.Headless limit tail s' := by
  have hnone : (if s.coalescer.isEmpty then HandshakeMessage.tryParseFragment
      (s.record.fragment.drop s.record.consumeOffset) else none) = none := by
    rcases eq_or_ne s.coalescer.buf [] with hnil | hne
    · have hcontent := h.content
      rw [hnil, nil_append] at hcontent
      rw [m.tryParseFragment_start hcontent, if_neg (Nat.not_le.mpr (h.first hnil).2), ite_self]
    · rw [if_neg]
      simpa [HandshakeCoalescer.isEmpty] using hne
  have hcoalesce := coalesceFragment_headless hlong h.content h.coalescer
  simp only [step, Record.consumeHandshake, h.handshake, hnone, hcoalesce] at hstep
  cases hdone : s.record.consumeDone
  case true =>
    simp only [hdone] at hstep
    cases hstep
    exact h
  case false =>
    have hoff : s.record.consumeOffset < s.record.fragment.length := by
      simpa [Record.consumeDone] using hdone
    by_cases hfour : 4 ≤ (s.coalescer.buf ++ s.record.fragment.drop s.record.consumeOffset).length
    · simp only [hdone, if_pos hfour] at hstep
      cases hstep
    simp only [hdone, if_neg hfour] at hstep
    cases hstep
    have hend : s.record.fragment.drop (s.record.consumeOffset +
        (s.record.fragment.drop s.record.consumeOffset).length) = [] := by
      rw [drop_eq_nil_iff, length_drop]
      omega
    refine ⟨h.handshake, h.fresh, ?_, Nat.lt_of_not_le hfour, ?_, fun hnil => ?_, h.yielded⟩
    · rw [h.coalescer]
    · simp only [hend, nil_append, append_assoc]
      exact h.content
    · have hlen := congrArg length (append_eq_nil_iff.mp hnil).2
      rw [length_drop, length_nil] at hlen
      omega

theorem Headless.nextRecord (h : m.Headless limit tail s)
    (hstep : s.step .nextRecord = some s') : m.Headless limit tail s' := by
  simp only [step] at hstep
  split at hstep
  case isFalse => cases hstep
  case isTrue hdone =>
    split at hstep
    case h_1 => cases hstep
    case h_2 record further hfurther =>
      cases hstep
      have hoff : s.record.fragment.length ≤ s.record.consumeOffset := by
        simpa [Record.consumeDone] using hdone
      have hfresh := h.fresh
      have hcontent := h.content
      rw [hfurther] at hfresh hcontent
      rw [drop_eq_nil_of_le hoff, nil_append, flatMap_cons] at hcontent
      refine ⟨(hfresh _ mem_cons_self).handshake,
        fun r hr => hfresh r (mem_cons_of_mem _ hr), h.coalescer, h.short, ?_, fun hnil => ?_,
        h.yielded⟩
      · rwa [(hfresh _ mem_cons_self).untouched, drop_zero]
      · exact absurd (h.first hnil).1 (Nat.not_lt.mpr hoff)

theorem Headless.step (hlong : limit < m.body.length) {e : Move}
    (h : m.Headless limit tail s) (hstep : s.step e = some s') : m.Headless limit tail s' := by
  cases e with
  | consumeHandshake => exact h.consumeHandshake hlong hstep
  | nextRecord => exact h.nextRecord hstep

theorem IsSplit.headless (hsplit : m.IsSplit (record :: further) tail)
    (hpart : record.fragment.length < m.message.length) :
    m.Headless limit tail (.start limit record further) := by
  have hfresh := hsplit.fresh record mem_cons_self
  refine ⟨hfresh.handshake, fun r hr => hsplit.fresh r (mem_cons_of_mem _ hr), rfl,
    Nat.succ_pos 3, ?_, fun _ => ⟨?_, ?_⟩, rfl⟩
  · simp only [start, hfresh.untouched, drop_zero, nil_append]
    exact hsplit.content
  · simp only [start, hfresh.untouched]
    exact length_pos_iff.mpr hfresh.nonempty
  · simpa only [start, hfresh.untouched, drop_zero] using hpart

/-- A message that lies in the first fragment is taken from there, whatever the limit is. -/
theorem IsSplit.yields_whole (hsplit : m.IsSplit (record :: further) tail) (limit : Nat)
    (hwhole : m.message.length ≤ record.fragment.length) :
    ∃ s, (start limit record further).step .consumeHandshake = some s ∧
      s.yielded = [⟨m.header, m.message⟩] := by
  have hfresh := hsplit.fresh record mem_cons_self
  have hdone : record.consumeDone = false := by
    simpa [Record.consumeDone, hfresh.untouched] using hfresh.nonempty
  have hmsg : HandshakeMessage.tryParseFragment record.fragment = some ⟨m.header, m.message⟩ := by
    have hcontent := hsplit.content
    rw [flatMap_cons] at hcontent
    rw [m.tryParseFragment_start hcontent, if_pos hwhole]
  simp [step, start, Record.consumeHandshake, hfresh.handshake, hdone,
    hfresh.untouched, hmsg, HandshakeCoalescer.isEmpty]

/-- A message above the limit is never handed out, unless the first record has all of it. -/
theorem withheld_iff (hlong : limit < m.body.length) (hsplit : m.IsSplit (record :: further) tail) :
    (∀ moves s, run RecordReader.step (.start limit record further) moves = some s →
      m.Withheld s) ↔ record.fragment.length < m.message.length := by
  constructor
  · intro hnever
    by_contra hwhole
    obtain ⟨s, hstep, hs⟩ := hsplit.yields_whole limit (Nat.not_lt.mp hwhole)
    have hrun : run step (.start limit record further) [.consumeHandshake] = some s := by
      rw [run, hstep]
      rfl
    exact (hnever _ s hrun).1 (by rw [hs]; exact mem_singleton_self _)
  · intro hpart moves s hrun
    have h : m.Headless limit tail s :=
      run_inv (fun hI hs => hI.step hlong hs) (hsplit.headless hpart) hrun
    exact h.withheld

/-! ### A message of three bytes, with a limit of two -/

def threeBytes : Handshake := ⟨handshakeTypeClientHello, [7, 8, 9], by decide⟩

def handshakeRecord (fragment : Bytes) : Record where
  header := ⟨⟨3, 3⟩, contentTypeHandshake, fragment.length⟩
  fragment := fragment

theorem isFresh_handshakeRecord {fragment : Bytes} (h : fragment ≠ []) :
    (handshakeRecord fragment).IsFresh := ⟨rfl, rfl, h⟩

/-- In one record it passes. -/
theorem threeBytes_yielded : ∃ s,
    run RecordReader.step (.start 2 (handshakeRecord [1, 0, 0, 3, 7, 8, 9]) [])
      [.consumeHandshake] = some s ∧ ¬threeBytes.Withheld s := by
  refine exists_run (p := fun s => s.yielded = [⟨threeBytes.header, threeBytes.message⟩])
    (by decide) fun s _ hs h => ?_
  exact h.1 (hs ▸ mem_singleton_self _)

/-- In two it does not. -/
theorem threeBytes_withheld : ∃ s,
    run RecordReader.step (.start 2 (handshakeRecord [1, 0]) [handshakeRecord [0, 3, 7, 8, 9]])
      [.consumeHandshake, .nextRecord] = some s ∧ threeBytes.Withheld s := by
  have hsplit : threeBytes.IsSplit [handshakeRecord [1, 0], handshakeRecord [0, 3, 7, 8, 9]] [] := by
    refine ⟨?_, rfl⟩
    simp only [mem_cons, not_mem_nil, or_false]
    rintro r (rfl | rfl) <;> exact isFresh_handshakeRecord (cons_ne_nil _ _)
  refine exists_run (p := fun _ => True) (by decide +kernel) fun s hrun _ => ?_
  exact (withheld_iff (by decide) hsplit).mpr (by decide) _ s hrun

end Handshake

end Vey.Codec

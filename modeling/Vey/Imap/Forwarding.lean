import Vey.Imap.Answers

/-! What the relay does with the bytes of the client.

    At every point of a run the bytes of the client are divided in two: what is sent to the server or
    on its way there (`out`), and what nobody has looked at (`ahead`).

        client stream:  ... handled ... | ahead ...
        server:         out

    `View out ahead s` says so of a state; a literal that a line announced belongs to `out` as soon as
    the line is sent on. A step leaves the two as they are, or takes a line from `ahead`, or a literal
    that the server asked for, and nothing ever comes back (`step_moved`). -/

namespace Vey.Imap
open Schemes Vey.Types IoExt Serve List LineRecvBuf

theorem AfterClt.Quiet.owes_eq {next : AfterClt} (h : next.Quiet) : next.owes = 0 := by
  cases next with
  | recvClientLiteral size => exact absurd rfl (h.2 size)
  | _ => rfl

namespace Relay

variable {cmdCap rspCap : Nat} {χ ω : Type} (s : Relay cmdCap rspCap χ ω)

/-- The bytes of the client from the current line on. -/
def unread : Bytes := LineRecvBuf.pendingOf (s.cmdRecvBuf, s.cltR)

/-- The bytes of the client behind the current line. -/
def behind : Bytes := s.unread.drop s.cmdRecvBuf.line.length

theorem line_append_behind : s.cmdRecvBuf.line ++ s.behind = s.unread := by
  have hle : s.cmdRecvBuf.line <+: s.unread :=
    s.cmdRecvBuf.line_le_unread.trans (prefix_append _ _)
  nth_rewrite 1 [prefix_iff_eq_take.mp hle]
  exact take_append_drop _ _

theorem behind_suffix : s.behind <:+ s.unread := drop_suffix _ _

/-- The state is done with the current line. -/
def Rests (out ahead : Bytes) (s : Relay cmdCap rspCap χ (Tapped ω)) : Prop :=
  s.upsW.log = out ∧ s.behind = ahead

/-- What is sent to the server with the present line and its literal, and what is left of the
    client. -/
def View (out ahead : Bytes) (s : Relay cmdCap rspCap χ (Tapped ω)) : Prop :=
  match s.pc with
  | .sendUps w next => w.writer = s.upsW ∧
      s.upsW.log ++ w.buf ++ s.behind.take next.owes = out ∧ s.behind.drop next.owes = ahead
  | .sendClt _ next =>
      s.upsW.log ++ s.behind.take next.owes = out ∧ s.behind.drop next.owes = ahead
  | .clientLiteral u => u.writer = s.upsW ∧ s.cmdRecvBuf.line = [] ∧
      ∃ rest, u.Will out rest ∧ s.cmdRecvBuf.unread ++ rest = ahead
  | .cmdLine line =>
    s.readsBoth = true ∧ s.upsW.log = out ∧ s.unread = ahead ∧ s.cmdRecvBuf.line = line
  | .recvAuthLine => s.upsW.log = out ∧ s.unread = ahead
  | .select | .pollCmd _ | .tick => s.readsBoth = true ∧ s.upsW.log = out ∧ s.unread = ahead
  | .pollRsp _ | .rspLine _ =>
    s.upsW.log = out ∧ (if s.readsBoth then s.unread else s.behind) = ahead
  | .top | .serverLiteral _ => s.Rests out ahead

/-- From `out` and `ahead` on: more may be sent and less is left, unless the step stands `still`. -/
def Moved (still : Prop) (out ahead : Bytes) (s : Relay cmdCap rspCap χ (Tapped ω)) : Prop :=
  ∃ out' ahead', s.View out' ahead' ∧ out <+: out' ∧ ahead' <:+ ahead ∧
    (still → out' = out ∧ ahead' = ahead)

variable {out ahead : Bytes} {s : Relay cmdCap rspCap χ (Tapped ω)} {still : Prop}

theorem View.moved (h : s.View out ahead) : s.Moved still out ahead :=
  ⟨out, ahead, h, prefix_rfl, suffix_rfl, fun _ => ⟨rfl, rfl⟩⟩

/-- A block of `n` bytes goes to the server. -/
theorem View.moved_take {n : Nat} (h : s.View (out ++ ahead.take n) (ahead.drop n))
    (hn : still → n = 0) : s.Moved still out ahead := by
  refine ⟨_, _, h, prefix_append _ _, drop_suffix _ _, ?_⟩
  intro hs
  rw [hn hs, take_zero, append_nil, drop_zero]
  exact ⟨rfl, rfl⟩

theorem Moved.view (h : s.Moved still out ahead) (hs : still) : s.View out ahead := by
  obtain ⟨out', ahead', hv, -, -, hstill⟩ := h
  obtain ⟨rfl, rfl⟩ := hstill hs
  exact hv

/-- Moving on from a later point. -/
theorem Moved.trans {out' ahead' : Bytes} {still' : Prop} (h : s.Moved still' out' ahead')
    (hout : out <+: out') (hahead : ahead' <:+ ahead) : s.Moved False out ahead := by
  obtain ⟨o, a, hv, ho, ha, -⟩ := h
  exact ⟨o, a, hv, hout.trans ho, ha.trans hahead, False.elim⟩

/-- What the server has got is the start of what is sent to it. -/
theorem View.log_le (h : s.View out ahead) : s.upsW.log <+: out := by
  unfold View at h
  split at h
  case h_1 => rw [← h.2.1, append_assoc]; exact prefix_append _ _
  case h_2 => rw [← h.1]; exact prefix_append _ _
  case h_3 =>
    obtain ⟨hw, -, rest, hwill, -⟩ := h
    rw [← hw]; exact hwill.log_le
  case h_4 | h_6 | h_7 | h_8 => exact h.2.1 ▸ prefix_rfl
  all_goals exact h.1 ▸ prefix_rfl

/-! ### Literals -/

section

variable (h : s.Rests out ahead)

include h

/-- A literal moves from the client to the server. -/
theorem sendClientLiteral_ensures (n : Nat) :
    (s.sendClientLiteral n).Keeps (View (out ++ ahead.take n) (ahead.drop n)) := by
  obtain ⟨rfl, rfl⟩ := h
  unfold sendClientLiteral
  split
  next cached buf hc =>
    obtain ⟨hsent, hleft⟩ := consumeLeft_split s.cltR.content hc
    have hbehind : s.cmdRecvBuf.consumeLine.unread ++ s.cltR.content = s.behind :=
      pendingOf_consumeLine _ _
    rw [hbehind] at hsent hleft
    refine ⟨rfl, (consumeLeft_spec hc).2.2, _, ⟨s.upsW.log ++ cached,
      n - cached.length, s.cltR.content, ⟨rfl, rfl, rfl⟩, ?_, rfl⟩, hleft⟩
    rw [append_assoc, hsent]

theorem relayClientLiteral_ensures (n : Nat) :
    (s.relayClientLiteral n).Keeps (View (out ++ ahead.take n) (ahead.drop n)) :=
  relayClientLiteral_rule fun icap => by
    have h' : { s with icap := icap }.Rests out ahead := h
    exact sendClientLiteral_ensures h' n

theorem relayServerLiteral_ensures (n : Nat) : (s.relayServerLiteral n).Keeps (View out ahead) := by
  unfold relayServerLiteral
  split
  exact h

/-! ### Behind a line that was sent -/

/-- Going on with nothing owed. -/
theorem Rests.next {t : Relay cmdCap rspCap χ (Tapped ω)} (ht : t.View s.upsW.log s.behind) :
    (Ctrl.next t : Step cmdCap rspCap χ (Tapped ω)).Keeps
      (View (out ++ ahead.take 0) (ahead.drop 0)) := by
  obtain ⟨rfl, rfl⟩ := h
  rwa [take_zero, append_nil, drop_zero]

theorem afterUps_ensures (next : AfterUps) :
    (s.afterUps next).Keeps (View (out ++ ahead.take next.owes) (ahead.drop next.owes)) := by
  cases next with
  | logout => exact trivial
  | sendLiteral n => exact relayClientLiteral_ensures h n
  | continued cmd =>
    obtain ⟨tag, parsed, _ | ⟨n, _ | _⟩⟩ := cmd
    case none => exact h.next (by exact ⟨rfl, rfl⟩)
    case some.false =>
      let cmd : Command := ⟨tag, parsed, some ⟨n, false⟩⟩
      have h' : { s with cmdPipeline := s.cmdPipeline.setOngoingCommand cmd }.Rests out ahead := h
      exact relayClientLiteral_ensures h' n
    case some.true => exact h.next (by exact ⟨rfl, rfl⟩)
  | loop | authenticate | startTls | idle | idleDone =>
    exact h.next (by exact ⟨rfl, rfl⟩)

theorem afterClt_ensures (next : AfterClt) :
    (s.afterClt next).Keeps (View (out ++ ahead.take next.owes) (ahead.drop next.owes)) := by
  have hfollows := afterClt_follows s next
  generalize s.afterClt next = c at hfollows
  cases hfollows with
  | ends => exact trivial
  | top _ _ howes =>
    rw [howes]
    exact h.next (by exact ⟨rfl, rfl⟩)
  | authLine hnext =>
    subst hnext
    exact h.next (by exact ⟨rfl, pendingOf_consumeLine _ _⟩)
  | @server p howes =>
    have h' : { s with cmdPipeline := p }.Rests s.upsW.log s.behind := ⟨rfl, rfl⟩
    rw [howes]
    exact (relayServerLiteral_ensures h' _).mono (h.next (t := _)) id
  | client hnext =>
    subst hnext
    exact relayClientLiteral_ensures h _

/-! ### One step -/

/-- A line to the server takes its literal along. -/
theorem sendUps_moved {p : CommandPipeline} (line : Bytes) (next : AfterUps) :
    ({ s with cmdPipeline := p }.sendUps line next).Keeps (Moved False out ahead) := by
  obtain ⟨rfl, rfl⟩ := h
  refine ⟨_, _, ⟨rfl, rfl, rfl⟩, ?_, drop_suffix _ _, False.elim⟩
  rw [append_assoc]
  exact prefix_append _ _

end

section

variable [TextFunctions] [AtoiRadix10] {line : Bytes} {c : Step cmdCap rspCap χ (Tapped ω)}

theorem CmdAnswer.ensures (hc : s.CmdAnswer line c) (h : s.Rests out ahead) :
    c.Keeps (Moved False out ahead) := by
  cases hc with
  | fail => exact trivial
  | reply =>
    obtain ⟨rfl, rfl⟩ := h
    exact ⟨_, _, ⟨rfl, rfl⟩, prefix_append _ _, drop_suffix _ _, False.elim⟩
  | send => exact sendUps_moved h _ _

/-- A line to the client takes bytes of the client when it asks for them. -/
theorem RspAnswer.ensures (hc : s.RspAnswer line still c) (h : s.Rests out ahead) :
    c.Keeps (Moved still out ahead) := by
  cases hc with
  | fail => exact trivial
  | @send p hp sent next hnext =>
    obtain ⟨rfl, rfl⟩ := h
    have hview : View (s.upsW.log ++ s.behind.take next.owes) (s.behind.drop next.owes)
        { s with cmdPipeline := p, pc := .sendClt ⟨sent, s.cltW⟩ next } := ⟨rfl, rfl⟩
    exact hview.moved_take fun hs => (hnext hs).owes_eq
  | @skip p hp next hnext =>
    have h' : { s with cmdPipeline := p }.Rests out ahead := h
    refine (afterClt_ensures h' next).mono ?_ id
    intro t ht
    exact ht.moved_take fun _ => hnext.owes_eq

end

/-- The line of the client that a server line or a tick drops unseen. -/
def skipped (s : Relay cmdCap rspCap χ ω) : Bytes :=
  match s.pc with
  | .rspLine _ | .tick => if s.readsBoth then s.cmdRecvBuf.line else []
  | _ => []

theorem nextRound_ensures (h : s.Rests out ahead) : s.nextRound.Keeps (View out ahead) := by
  have hread : pendingOf (s.cmdRecvBuf.consumeLine, s.cltR) = ahead :=
    (pendingOf_consumeLine _ _).trans h.2
  unfold nextRound
  split
  case h_1 hl | h_2 hl => exact ⟨by simp [readsBoth, hl], h.1, hread⟩
  case h_3 hl | h_4 hl => exact ⟨h.1, (if_neg (by simp [readsBoth, hl])).trans h.2⟩

theorem chooseBranch_ensures (hboth : s.readsBoth = true) (hlog : s.upsW.log = out)
    (hread : s.unread = ahead) : s.chooseBranch.Keeps (View out ahead) := by
  unfold chooseBranch
  split
  case h_1 | h_2 => exact ⟨hboth, hlog, hread⟩
  case h_3 => exact ⟨hlog, (if_pos hboth).trans hread⟩
  case h_4 =>
    split <;> exact ⟨hboth, hlog, hread⟩

theorem pollCmd_ensures (more : Bool) (hpc : s.pc = .pollCmd more) (hboth : s.readsBoth = true)
    (hlog : s.upsW.log = out) (hread : s.unread = ahead) :
    (s.pollCmd more).Keeps (View out ahead) := by
  have hline := readLine_ensures hread
  unfold pollCmd
  split
  case h_1 b r heq =>
    rw [heq] at hline
    show View out ahead { s with cmdRecvBuf := b, cltR := r }
    simp only [View, hpc]
    exact ⟨hboth, hlog, hline⟩
  case h_2 b r heq =>
    rw [heq] at hline
    split
    · exact ⟨hlog, (if_pos hboth).trans hline⟩
    · exact ⟨hboth, hlog, hline⟩
  case h_3 => exact trivial
  case h_4 line b r heq =>
    rw [heq] at hline
    obtain ⟨hpend, -, heq', -⟩ := hline
    exact ⟨hboth, hlog, hpend, heq'.symm⟩

theorem pollRsp_ensures (more : Bool) (hpc : s.pc = .pollRsp more)
    (hlog : s.upsW.log = out) (hread : (if s.readsBoth then s.unread else s.behind) = ahead) :
    (s.pollRsp more).Keeps (View out ahead) := by
  unfold pollRsp
  split
  case h_1 b r heq =>
    show View out ahead { s with rspRecvBuf := b, upsR := r }
    simp only [View, hpc]
    exact ⟨hlog, hread⟩
  case h_2 b r heq =>
    have hpend : s.readsBoth = true → (if more then
        { s with rspRecvBuf := b, upsR := r }.goto (.pollCmd false) else
        Ctrl.ret Poll.pending { s with rspRecvBuf := b, upsR := r, pc := .select }).Keeps
          (View out ahead) := by
      intro hboth
      rw [if_pos hboth] at hread
      split <;> exact ⟨hboth, hlog, hread⟩
    have hstay : (Ctrl.ret Poll.pending { s with rspRecvBuf := b, upsR := r } :
        Step cmdCap rspCap χ (Tapped ω)).Keeps (View out ahead) := by
      show View out ahead { s with rspRecvBuf := b, upsR := r }
      simp only [View, hpc]
      exact ⟨hlog, hread⟩
    dsimp only
    split
    case h_1 hl | h_2 hl => exact hpend (by simp [readsBoth, hl])
    case h_3 => exact hstay
  case h_3 => exact trivial
  case h_4 => exact ⟨hlog, hread⟩

section

variable [TextFunctions] [AtoiRadix10] [AsyncWrite χ] [AsyncWrite ω]

/-- The step takes no byte of the client: it handles no line of it, drops none and asks for none. -/
structure Still (s : Relay cmdCap rspCap χ ω) : Prop where
  noLine : ∀ line, s.pc ≠ .cmdLine line
  noAuthLine : s.pc ≠ .recvAuthLine
  noSkip : s.skipped = []
  noRequest : ∀ line, s.pc = .rspLine line → s.readsBoth = true ∧ ¬ s.Accepts line

/-- One step: every byte of the client goes to the server, is handled in a line or stays. -/
theorem step_moved (h : s.View out ahead) : s.step.Keeps (Moved s.Still out ahead) := by
  unfold step
  unfold View at h
  cases hpc : s.pc
  all_goals simp only [hpc] at h ⊢
  case top => exact (nextRound_ensures h).mono View.moved id
  case select => exact (chooseBranch_ensures h.1 h.2.1 h.2.2).mono View.moved id
  case pollCmd more => exact (pollCmd_ensures more hpc h.1 h.2.1 h.2.2).mono View.moved id
  case pollRsp more => exact (pollRsp_ensures more hpc h.1 h.2).mono View.moved id
  case tick =>
    obtain ⟨hboth, hlog, rfl⟩ := h
    refine ⟨_, _, ⟨hlog, rfl⟩, prefix_rfl, behind_suffix s, ?_⟩
    intro hs
    have hnil : s.cmdRecvBuf.line = [] := by simpa [skipped, hpc, hboth] using hs.noSkip
    refine ⟨rfl, ?_⟩
    rw [← line_append_behind s, hnil]
    rfl
  case cmdLine line =>
    obtain ⟨-, hlog, rfl, hline⟩ := h
    have hmoved : ∀ c : Step cmdCap rspCap χ (Tapped ω),
        c.Keeps (Moved False out s.behind) →
        c.Keeps (Moved s.Still out s.unread) := by
      intro c hc
      refine hc.mono ?_ id
      rintro t ⟨out', ahead', hv, ho, ha, -⟩
      exact ⟨out', ahead', hv, ho, ha.trans (behind_suffix s), fun hs => absurd hpc (hs.noLine line)⟩
    split
    · unfold handleIdleLine
      split
      · exact hmoved _ (sendUps_moved (p := s.cmdPipeline) ⟨hlog, rfl⟩ _ _)
      · exact trivial
    · exact hmoved _ ((handleCmdLine_answer s line).ensures ⟨hlog, rfl⟩)
  case rspLine line =>
    obtain ⟨hlog, rfl⟩ := h
    have hanswer := (handleRspIn_answer s line).ensures ⟨hlog, rfl⟩
    refine hanswer.mono ?_ id
    rintro t ⟨out', ahead', hv, ho, ha, hstill⟩
    refine ⟨out', ahead', hv, ho, ?_, ?_⟩
    · split
      · exact ha.trans (behind_suffix s)
      · exact ha
    · intro hs
      have hreq := hs.noRequest line hpc
      obtain ⟨rfl, rfl⟩ := hstill hreq
      have hnil : s.cmdRecvBuf.line = [] := by simpa [skipped, hpc, hreq.1] using hs.noSkip
      rw [if_pos hreq.1, ← line_append_behind s, hnil]
      exact ⟨rfl, rfl⟩
  case recvAuthLine =>
    obtain ⟨hlog, hread⟩ := h
    refine (readLine_ensures hread).await ?_ ?_
    · intro p hp
      exact View.moved (by exact ⟨hlog, hp⟩)
    · rintro line p ⟨hp, -, rfl, -⟩
      refine ⟨_, _, ⟨rfl, rfl, rfl⟩, ?_, ?_, fun hs => absurd hpc hs.noAuthLine⟩
      · rw [← hlog, append_assoc]; exact prefix_append _ _
      · rw [← hp]; exact behind_suffix { s with cmdRecvBuf := p.1, cltR := p.2 }
  case sendUps w next =>
    obtain ⟨hw, rfl, rfl⟩ := h
    have hall : w.writer.log ++ w.buf = s.upsW.log ++ w.buf := by rw [hw]
    refine (WriteAllFlush.poll_ensures hall).await ?_ ?_
    · intro w' hw'
      have hview : View (s.upsW.log ++ w.buf ++ s.behind.take next.owes) (s.behind.drop next.owes)
          { s with upsW := w'.writer, pc := .sendUps w' next } := ⟨rfl, by rw [← hw']; rfl, rfl⟩
      exact hview.moved
    · intro _ w' hw'
      have hrests : { s with upsW := w'.writer, pc := .sendUps w next }.Rests
          (s.upsW.log ++ w.buf) s.behind := ⟨hw', rfl⟩
      exact (afterUps_ensures hrests next).mono View.moved id
  case sendClt w next =>
    obtain ⟨rfl, rfl⟩ := h
    refine w.poll.ensures_true.await ?_ ?_
    · intro w' _
      have hview : View (s.upsW.log ++ s.behind.take next.owes) (s.behind.drop next.owes)
          { s with cltW := w'.writer, pc := .sendClt w' next } := ⟨rfl, rfl⟩
      exact hview.moved
    · intro _ w' _
      have hrests : { s with cltW := w'.writer, pc := .sendClt w next }.Rests s.upsW.log
          s.behind := ⟨rfl, rfl⟩
      exact (afterClt_ensures hrests next).mono View.moved id
  case clientLiteral u =>
    obtain ⟨-, hnil, rest, hwill, rfl⟩ := h
    refine (hwill.poll {}).await ?_ ?_
    · intro u' hu'
      exact View.moved (by exact ⟨rfl, hnil, rest, hu', rfl⟩)
    · rintro _ u' ⟨hlog, hrest⟩
      have hview : View out (s.cmdRecvBuf.unread ++ rest)
          { s with cltR := u'.reader, upsW := u'.writer, pc := .top } := by
        refine ⟨hlog, ?_⟩
        rw [behind, hnil, unread, pendingOf, hrest]
        rfl
      exact hview.moved
  case serverLiteral u =>
    refine (u.poll {}).ensures_true.await ?_ ?_
    · intro u' _
      exact View.moved (by exact h)
    · intro _ u' _
      exact View.moved (by exact h)

omit [TextFunctions] [AtoiRadix10] [AsyncWrite χ] [AsyncWrite ω] in
theorem View.enter (h : s.View out ahead) : s.enter.View out ahead := by
  unfold Relay.enter
  split
  case h_1 u hpc =>
    simp only [View, hpc] at h
    obtain ⟨hw, hnil, rest, hwill, hrest⟩ := h
    refine ⟨?_, hnil, rest, hwill.enter, hrest⟩
    rw [← hw]
    cases u <;> rfl
  case h_2 u hpc =>
    simp only [View, hpc] at h
    exact h
  case h_3 => exact h

/-! ### Runs -/

variable {t : Relay cmdCap rspCap χ (Tapped ω)}

theorem moves_moved (h : s.View out ahead) (hm : (future cmdCap rspCap χ (Tapped ω)).Moves s t) :
    t.Moved s.Still out ahead := by
  refine hm.ensures ?_ (step_moved h)
  rintro u ⟨out', ahead', hv, hrest⟩
  exact ⟨out', ahead', hv.enter, hrest⟩

/-- A move that takes nothing of the client. -/
theorem moves_view (h : s.View out ahead) (hs : s.Still)
    (hm : (future cmdCap rspCap χ (Tapped ω)).Moves s t) : t.View out ahead :=
  (moves_moved h hm).view hs

/-- Along a run the server gets more and less is left of the client. -/
theorem runs_moved {P : Relay cmdCap rspCap χ (Tapped ω) → Prop} (h : s.Moved False out ahead)
    (hr : (future cmdCap rspCap χ (Tapped ω)).Runs P s t) : t.Moved False out ahead := by
  refine hr.inv (I := Moved False out ahead) h ?_
  rintro u v ⟨out', ahead', hv, ho, ha, -⟩ - hm
  exact (moves_moved hv hm).trans ho ha

end

end Relay

end Vey.Imap

import Vey.Imap.Answers

/-! What the relay does with the bytes of the server: the counterpart of `Vey.Imap.Forwarding`.

        server stream:  ... handled ... | ahead ...
        client:         out

    `Shown out ahead s` says of a state what the client gets with the present line and its literal,
    and what is left of the server. A step shows more and leaves less (`step_shows`); as long as it
    leaves as much as before, a response that is through stays so. -/

namespace Vey.Imap
open Schemes Vey.Types IoExt Serve List LineRecvBuf

namespace Relay

variable {cmdCap rspCap : Nat} {χ ω : Type} (s : Relay cmdCap rspCap χ ω)

/-- The bytes of the server from the current line on. -/
def rspUnread : Bytes := LineRecvBuf.pendingOf (s.rspRecvBuf, s.upsR)

/-- The bytes of the server behind the current line. -/
def rspBehind : Bytes := s.rspUnread.drop s.rspRecvBuf.line.length

theorem line_append_rspBehind : s.rspRecvBuf.line ++ s.rspBehind = s.rspUnread := by
  have hle : s.rspRecvBuf.line <+: s.rspUnread :=
    s.rspRecvBuf.line_le_unread.trans (prefix_append _ _)
  rw [rspBehind]
  nth_rewrite 1 [prefix_iff_eq_take.mp hle]
  exact take_append_drop _ _

/-- The response that was begun is past. -/
def Closed : Prop :=
  match s.pc with
  | .sendClt _ (.continued rsp) => rsp.literalData = none ∧ s.cmdPipeline.ongoingResponse = none
  | _ => s.cmdPipeline.ongoingResponse = none

/-- The state is done with the current line of the server. -/
def Quits (out ahead : Bytes) (s : Relay cmdCap rspCap (Tapped χ) ω) : Prop :=
  s.cltW.log = out ∧ s.rspBehind = ahead

/-- What is sent to the client with the present line and its literal, and what is left of the
    server. -/
def Shown (out ahead : Bytes) (s : Relay cmdCap rspCap (Tapped χ) ω) : Prop :=
  match s.pc with
  | .sendClt w next => w.writer = s.cltW ∧
      s.cltW.log ++ w.buf ++ s.rspBehind.take next.brings = out ∧ s.rspBehind.drop next.brings = ahead
  | .serverLiteral u => u.writer = s.cltW ∧ s.rspRecvBuf.line = [] ∧
      ∃ rest, u.Will out rest ∧ s.rspRecvBuf.unread ++ rest = ahead
  | .rspLine line =>
    s.cltW.log = out ∧ s.rspUnread = ahead ∧ s.rspRecvBuf.line = line ∧ IsLine line
  | .select | .pollCmd _ | .pollRsp _ | .tick | .cmdLine _ => s.cltW.log = out ∧ s.rspUnread = ahead
  | .top | .sendUps _ _ | .clientLiteral _ | .recvAuthLine => s.Quits out ahead

/-- From `out` and `ahead` on: more is shown, and less is left; if nothing was taken, what was
    `past` stays so. -/
def Shows (past : Prop) (out ahead : Bytes) (s : Relay cmdCap rspCap (Tapped χ) ω) : Prop :=
  ∃ out' ahead', s.Shown out' ahead' ∧ out <+: out' ∧
    ((ahead' = ahead ∧ (past → s.Closed)) ∨ (ahead' <:+ ahead ∧ ahead'.length < ahead.length))

variable {out ahead : Bytes} {s : Relay cmdCap rspCap (Tapped χ) ω} {past : Prop}

theorem Shown.shows (h : s.Shown out ahead) (hc : past → s.Closed) : s.Shows past out ahead :=
  ⟨out, ahead, h, prefix_rfl, .inl ⟨rfl, hc⟩⟩

/-- What the client has got is the start of what is sent to it. -/
theorem Shown.log_le (h : s.Shown out ahead) : s.cltW.log <+: out := by
  unfold Shown at h
  split at h
  case h_1 => rw [← h.2.1, append_assoc]; exact prefix_append _ _
  case h_2 =>
    obtain ⟨hw, -, rest, hwill, -⟩ := h
    rw [← hw]; exact hwill.log_le
  all_goals exact h.1 ▸ prefix_rfl

/-! ### Behind a line -/

/-- A literal moves from the server to the client. -/
theorem relayServerLiteral_shown (h : s.Quits out ahead) (n : Nat) :
    (s.relayServerLiteral n).Keeps (Shown (out ++ ahead.take n) (ahead.drop n)) := by
  obtain ⟨rfl, rfl⟩ := h
  unfold relayServerLiteral
  split
  next cached buf hc =>
    obtain ⟨hsent, hleft⟩ := consumeLeft_split s.upsR.content hc
    have hbehind : s.rspRecvBuf.consumeLine.unread ++ s.upsR.content = s.rspBehind :=
      pendingOf_consumeLine _ _
    rw [hbehind] at hsent hleft
    refine ⟨rfl, (consumeLeft_spec hc).2.2, _, ⟨s.cltW.log ++ cached,
      n - cached.length, s.upsR.content, ⟨rfl, rfl, rfl⟩, ?_, rfl⟩, hleft⟩
    rw [append_assoc, hsent]

variable {t : Relay cmdCap rspCap (Tapped χ) ω}

/-- Going on with nothing taken. -/
theorem Quits.next (h : s.Quits out ahead) (ht : t.Shown s.cltW.log s.rspBehind) :
    (Ctrl.next t : Step cmdCap rspCap (Tapped χ) ω).Keeps
      (Shown (out ++ ahead.take 0) (ahead.drop 0)) := by
  obtain ⟨rfl, rfl⟩ := h
  rwa [take_zero, append_nil, drop_zero]

/-- A literal of the client leaves the server alone. -/
theorem relayClientLiteral_shown (h : s.Quits out ahead) (n : Nat) :
    (s.relayClientLiteral n).Keeps
      (fun t => t.Shown out ahead ∧ t.cmdPipeline = s.cmdPipeline ∧ t.mode = s.mode ∧
        t.inLoop = s.inLoop ∧ ∃ u, t.pc = .clientLiteral u) :=
  relayClientLiteral_rule fun _ => ⟨h, rfl, rfl, rfl, _, rfl⟩

theorem afterClt_shown (h : s.Quits out ahead) (next : AfterClt) :
    (s.afterClt next).Keeps (Shown (out ++ ahead.take next.brings) (ahead.drop next.brings)) := by
  have hfollows := afterClt_follows s next
  generalize s.afterClt next = c at hfollows
  cases hfollows with
  | ends => exact trivial
  | top _ hbrings =>
    rw [hbrings]
    exact h.next (by exact ⟨rfl, rfl⟩)
  | authLine hnext =>
    subst hnext
    exact h.next (by exact ⟨rfl, rfl⟩)
  | @server p =>
    have h' : { s with cmdPipeline := p }.Quits out ahead := h
    exact relayServerLiteral_shown h' _
  | client hnext =>
    subst hnext
    refine (relayClientLiteral_shown h _).mono ?_ id
    rintro t ⟨ht, -⟩
    simpa only [AfterClt.brings, take_zero, append_nil, drop_zero] using ht

/-! ### One step -/

/-- Where no response is being continued, one is past when the slot is empty. -/
theorem closed_iff {s : Relay cmdCap rspCap χ ω}
    (hpc : ∀ w rsp, s.pc ≠ .sendClt w (.continued rsp)) :
    s.Closed ↔ s.cmdPipeline.ongoingResponse = none := by
  unfold Closed
  split
  case h_1 w rsp h => exact absurd h (hpc w rsp)
  case h_2 => rfl

theorem Coasts.closed {s t : Relay cmdCap rspCap χ ω} (h : s.Coasts t)
    (hpc : ∀ w rsp, s.pc ≠ .sendClt w (.continued rsp)) (hs : s.Closed) : t.Closed :=
  (closed_iff fun w _ => h.clt w _).mpr (h.pipeline ▸ (closed_iff hpc).mp hs)

/-- A response that is past stays past behind the line that is sent. -/
theorem afterClt_closed {s : Relay cmdCap rspCap χ ω} {next : AfterClt}
    (hnone : s.cmdPipeline.ongoingResponse = none)
    (hnext : ∀ rsp, next = .continued rsp → rsp.literalData = none) :
    (s.afterClt next).Keeps Closed := by
  have hfollows := afterClt_follows s next
  generalize s.afterClt next = c at hfollows
  cases hfollows with
  | ends => exact trivial
  | top | authLine => exact hnone
  | server _ hp =>
    rcases hp with rfl | ⟨rsp, rfl, hlit, -⟩
    · exact hnone
    · exact absurd (hnext rsp rfl) hlit
  | client => exact relayClientLiteral_rule fun _ => hnone

/-- Behind a line to the server its own side is as it was. -/
structure LeavesServer (out ahead : Bytes) (s : Relay cmdCap rspCap (Tapped χ) ω) (next : AfterUps)
    (t : Relay cmdCap rspCap (Tapped χ) ω) : Prop where
  shown : t.Shown out ahead
  response : t.cmdPipeline.ongoingResponse = s.cmdPipeline.ongoingResponse
  mode : t.mode = s.mode
  loops : next ≠ .authenticate → next ≠ .startTls → s.readsBoth = true → t.readsBoth = true
  pc : t.pc = .top ∨ ∃ u, t.pc = .clientLiteral u

theorem afterUps_leaves (h : s.Quits out ahead) (next : AfterUps) :
    (s.afterUps next).Keeps (LeavesServer out ahead s next) := by
  have hliteral : ∀ t : Relay cmdCap rspCap (Tapped χ) ω, t.Quits out ahead →
      t.cmdPipeline.ongoingResponse = s.cmdPipeline.ongoingResponse → t.mode = s.mode →
      t.inLoop = s.inLoop → ∀ n, (t.relayClientLiteral n).Keeps (LeavesServer out ahead s next) := by
    intro t ht hr hm hl n
    refine (relayClientLiteral_shown ht n).mono ?_ id
    rintro u ⟨hu, hp, hmu, hlu, hpc⟩
    refine ⟨hu, by rw [hp, hr], hmu.trans hm, fun _ _ hb => ?_, .inr hpc⟩
    rw [← hb]
    simp only [readsBoth, hlu, hl]
  cases next with
  | logout => exact trivial
  | sendLiteral n => exact hliteral s h rfl rfl rfl n
  | continued cmd =>
    unfold afterUps
    dsimp only
    split
    · split
      · exact ⟨h, rfl, rfl, fun _ _ hb => hb, .inl rfl⟩
      · exact hliteral { s with cmdPipeline := s.cmdPipeline.setOngoingCommand cmd } h rfl rfl rfl _
    · exact ⟨h, rfl, rfl, fun _ _ hb => hb, .inl rfl⟩
  | loop => exact ⟨h, rfl, rfl, fun _ _ hb => hb, .inl rfl⟩
  | authenticate => exact ⟨h, rfl, rfl, fun hne => absurd rfl hne, .inl rfl⟩
  | startTls => exact ⟨h, rfl, rfl, fun _ hne => absurd rfl hne, .inl rfl⟩
  | idle | idleDone => exact ⟨h, rfl, rfl, fun _ _ _ => rfl, .inl rfl⟩

/-- Without a current line there is nothing to drop; otherwise the line is gone. -/
theorem rspBehind_cases (s : Relay cmdCap rspCap χ ω) :
    (s.rspRecvBuf.line = [] ∧ s.rspBehind = s.rspUnread) ∨
      (s.rspBehind <:+ s.rspUnread ∧ s.rspBehind.length < s.rspUnread.length) := by
  have hsplit := line_append_rspBehind s
  cases hline : s.rspRecvBuf.line with
  | nil =>
    rw [hline] at hsplit
    exact .inl ⟨rfl, hsplit⟩
  | cons b bs =>
    rw [hline] at hsplit
    refine .inr ⟨⟨_, hsplit⟩, ?_⟩
    rw [← hsplit]
    simp only [length_append, length_cons]
    omega

/-- A state that is done with a line, current or not. -/
theorem shows_of_quits (hlog : out <+: t.cltW.log) (ht : t.Shown t.cltW.log s.rspBehind)
    (hc : past → t.Closed) : t.Shows past out s.rspUnread := by
  rcases rspBehind_cases s with ⟨-, heq⟩ | hless
  · exact ⟨_, _, ht, hlog, .inl ⟨heq, hc⟩⟩
  · exact ⟨_, _, ht, hlog, .inr hless⟩

theorem nextRound_shown (h : s.Quits out ahead) : s.nextRound.Keeps (Shown out ahead) := by
  have hread : pendingOf (s.rspRecvBuf.consumeLine, s.upsR) = ahead :=
    (pendingOf_consumeLine _ _).trans h.2
  unfold nextRound
  split <;> exact ⟨h.1, hread⟩

theorem chooseBranch_shown (hlog : s.cltW.log = out) (hread : s.rspUnread = ahead) :
    s.chooseBranch.Keeps (Shown out ahead) := by
  unfold chooseBranch
  split
  case h_4 => split <;> exact ⟨hlog, hread⟩
  all_goals exact ⟨hlog, hread⟩

theorem pollCmd_shown (more : Bool) (hpc : s.pc = .pollCmd more) (hlog : s.cltW.log = out)
    (hread : s.rspUnread = ahead) : (s.pollCmd more).Keeps (Shown out ahead) := by
  unfold pollCmd
  split
  case h_1 b r heq =>
    show Shown out ahead { s with cmdRecvBuf := b, cltR := r }
    simp only [Shown, hpc]
    exact ⟨hlog, hread⟩
  case h_2 => dsimp only; split <;> exact ⟨hlog, hread⟩
  case h_3 => exact trivial
  case h_4 => exact ⟨hlog, hread⟩

theorem pollRsp_shown (more : Bool) (hpc : s.pc = .pollRsp more) (hlog : s.cltW.log = out)
    (hread : s.rspUnread = ahead) : (s.pollRsp more).Keeps (Shown out ahead) := by
  have hline := readLine_ensures hread
  unfold pollRsp
  split
  case h_1 b r heq =>
    rw [heq] at hline
    show Shown out ahead { s with rspRecvBuf := b, upsR := r }
    simp only [Shown, hpc]
    exact ⟨hlog, hline⟩
  case h_2 b r heq =>
    rw [heq] at hline
    dsimp only
    split
    case h_3 =>
      show Shown out ahead { s with rspRecvBuf := b, upsR := r }
      simp only [Shown, hpc]
      exact ⟨hlog, hline⟩
    all_goals split <;> exact ⟨hlog, hline⟩
  case h_3 => exact trivial
  case h_4 line b r heq =>
    rw [heq] at hline
    obtain ⟨hpend, his, heq', -⟩ := hline
    exact ⟨hlog, hpend, heq'.symm, his⟩

section

variable [TextFunctions] [AtoiRadix10] {line : Bytes} {c : Step cmdCap rspCap (Tapped χ) ω}

theorem Records.response {sent : Bytes} {p : CommandPipeline} {next : AfterUps}
    {s : Relay cmdCap rspCap χ ω} (h : s.Records line sent p next) :
    p.ongoingResponse = s.cmdPipeline.ongoingResponse := by
  cases h <;> rfl

/-- A line of the client leaves the server alone, apart from a current line that is dropped. -/
theorem CmdAnswer.shows (hc : s.CmdAnswer line c) (hpc : s.pc = .cmdLine line) :
    c.Keeps (Shows s.Closed s.cltW.log s.rspUnread) := by
  have hclosed : s.Closed → s.cmdPipeline.ongoingResponse = none :=
    (closed_iff (by simp [hpc])).mp
  cases hc with
  | fail => exact trivial
  | reply _ _ _ _ sent =>
    have hview : Shown (s.cltW.log ++ sent) s.rspBehind
        { s with pc := .sendClt ⟨sent, s.cltW⟩ .loop } := by
      refine ⟨rfl, ?_, rfl⟩
      show s.cltW.log ++ sent ++ [] = _
      rw [append_nil]
    rcases rspBehind_cases s with ⟨-, heq⟩ | hless
    · exact ⟨_, _, hview, prefix_append _ _, .inl ⟨heq, hclosed⟩⟩
    · exact ⟨_, _, hview, prefix_append _ _, .inr hless⟩
  | send hrec =>
    refine shows_of_quits prefix_rfl ⟨rfl, rfl⟩ fun h => ?_
    exact hrec.response.trans (hclosed h)

/-- A line of the server is gone from what is left. -/
theorem RspAnswer.shows {quiet : Prop} (hc : s.RspAnswer line quiet c) (hlog : s.cltW.log = out)
    (hless : s.rspBehind <:+ ahead ∧ s.rspBehind.length < ahead.length) :
    c.Keeps (Shows past out ahead) := by
  have htail : ∀ n, s.rspBehind.drop n <:+ ahead ∧ (s.rspBehind.drop n).length < ahead.length := by
    intro n
    refine ⟨(drop_suffix _ _).trans hless.1, ?_⟩
    rw [length_drop]
    omega
  cases hc with
  | fail => exact trivial
  | @send p hp sent next hnext =>
    refine ⟨_, _, ⟨rfl, rfl, rfl⟩, ?_, .inr (htail _)⟩
    rw [← hlog, append_assoc]
    exact prefix_append _ _
  | @skip p hp next hnext =>
    have h' : { s with cmdPipeline := p }.Quits s.cltW.log s.rspBehind := ⟨rfl, rfl⟩
    refine (afterClt_shown h' next).mono ?_ id
    intro t ht
    exact ⟨_, _, ht, hlog ▸ prefix_append _ _, .inr (htail _)⟩

variable [AsyncWrite χ] [AsyncWrite ω]

/-- A step without a line shows nothing new. -/
theorem step_shown (h : s.Shown out ahead) (hcoast : s.Coasting) :
    s.step.Keeps (Shown out ahead) := by
  unfold step
  unfold Shown at h
  cases hpc : s.pc
  case tick | cmdLine | rspLine | sendUps | sendClt => simp only [Coasting, hpc] at hcoast
  all_goals simp only [hpc] at h ⊢
  case top => exact nextRound_shown h
  case select => exact chooseBranch_shown h.1 h.2
  case pollCmd more => exact pollCmd_shown more hpc h.1 h.2
  case pollRsp more => exact pollRsp_shown more hpc h.1 h.2
  case recvAuthLine =>
    exact (readLine (s.cmdRecvBuf, s.cltR)).ensures_true.await (fun _ => h) fun _ => h
  case clientLiteral u => exact (u.poll {}).ensures_true.await (fun _ => h) fun _ => h
  case serverLiteral u =>
    obtain ⟨-, hnil, rest, hwill, rfl⟩ := h
    refine (hwill.poll {}).await ?_ ?_
    · intro u' hu'
      exact ⟨rfl, hnil, rest, hu', rfl⟩
    · rintro _ u' ⟨hlog, hrest⟩
      refine ⟨hlog, ?_⟩
      rw [rspBehind, hnil, rspUnread, pendingOf, hrest]
      rfl

/-- One step: what the server sends is shown to the client, handled in a line or left. -/
theorem step_shows (h : s.Shown out ahead) : s.step.Keeps (Shows s.Closed out ahead) := by
  rcases s.step_kinds with hcoast | hpc | ⟨line, hpc⟩ | ⟨line, hpc⟩ | ⟨w, next, hpc⟩ | ⟨w, next, hpc⟩
  · refine ((step_shown h hcoast).and (step_coasts hcoast)).mono ?_ id
    rintro t ⟨ht, hc⟩
    exact ht.shows (hc.closed fun w _ => hcoast.not_sendClt w _)
  all_goals simp only [Shown, hpc] at h; simp only [step, hpc]
  · obtain ⟨rfl, rfl⟩ := h
    exact shows_of_quits prefix_rfl ⟨rfl, rfl⟩ (closed_iff (by simp [hpc])).mp
  · obtain ⟨rfl, rfl⟩ := h
    split
    · unfold handleIdleLine
      split
      · exact shows_of_quits prefix_rfl ⟨rfl, rfl⟩ (closed_iff (by simp [hpc])).mp
      · exact trivial
    · exact (handleCmdLine_answer s line).shows hpc
  · obtain ⟨hlog, rfl, hcur, hline⟩ := h
    refine (handleRspIn_answer s line).shows hlog ?_
    rcases rspBehind_cases s with ⟨hnil, -⟩ | hless
    · exact absurd (hcur.symm.trans hnil) hline.ne_nil
    · exact hless
  · have hnone : s.Closed → s.cmdPipeline.ongoingResponse = none := (closed_iff (by simp [hpc])).mp
    refine w.poll.ensures_true.await ?_ ?_
    · intro w' _
      exact Shown.shows (by exact h) hnone
    · intro _ w' _
      have hq : { s with upsW := w'.writer, pc := .sendUps w next }.Quits out ahead := h
      refine (afterUps_leaves hq next).mono ?_ id
      intro t ht
      refine ht.shown.shows fun hs => (closed_iff ?_).mpr (ht.response.trans (hnone hs))
      rcases ht.pc with htop | ⟨u, hu⟩ <;> simp [*]
  · obtain ⟨hw, rfl, rfl⟩ := h
    have hall : w.writer.log ++ w.buf = s.cltW.log ++ w.buf := by rw [hw]
    have hclosed : s.Closed → s.cmdPipeline.ongoingResponse = none ∧
        ∀ rsp, next = .continued rsp → rsp.literalData = none := by
      intro hs
      unfold Closed at hs
      rw [hpc] at hs
      split at hs
      case h_1 heq =>
        obtain ⟨-, rfl⟩ := RelayAt.sendClt.inj heq
        refine ⟨hs.2, ?_⟩
        rintro rsp hrsp
        obtain rfl := AfterClt.continued.inj hrsp
        exact hs.1
      case h_2 hne =>
        refine ⟨hs, ?_⟩
        rintro rsp rfl
        exact absurd rfl (hne w rsp)
    refine (WriteAllFlush.poll_ensures hall).await ?_ ?_
    · intro w' hw'
      refine Shown.shows (by exact ⟨rfl, by rw [← hw']; rfl, rfl⟩) fun hs => ?_
      obtain ⟨hnone, hlit⟩ := hclosed hs
      unfold Closed
      split
      case h_1 heq =>
        obtain ⟨-, rfl⟩ := RelayAt.sendClt.inj heq
        exact ⟨hlit _ rfl, hnone⟩
      case h_2 => exact hnone
    · intro _ w' hw'
      have hq : { s with cltW := w'.writer, pc := .sendClt w next }.Quits (s.cltW.log ++ w.buf)
          s.rspBehind := ⟨hw', rfl⟩
      by_cases hs : s.Closed
      · obtain ⟨hnone, hlit⟩ := hclosed hs
        have hboth := (afterClt_shown hq next).and
          (afterClt_closed (s := { s with cltW := w'.writer, pc := .sendClt w next }) hnone hlit)
        refine hboth.mono ?_ id
        rintro t ⟨ht, hct⟩
        exact ht.shows fun _ => hct
      · refine (afterClt_shown hq next).mono ?_ id
        intro t ht
        exact ht.shows fun h => absurd h hs

/-! ### Runs -/

section

omit [TextFunctions] [AtoiRadix10] [AsyncWrite χ] [AsyncWrite ω]

theorem Shown.enter (h : s.Shown out ahead) : s.enter.Shown out ahead := by
  unfold Relay.enter
  split
  case h_1 u hpc =>
    simp only [Shown, hpc] at h
    exact h
  case h_2 u hpc =>
    simp only [Shown, hpc] at h
    obtain ⟨hw, hnil, rest, hwill, hrest⟩ := h
    refine ⟨?_, hnil, rest, hwill.enter, hrest⟩
    rw [← hw]
    cases u <;> rfl
  case h_3 => exact h

theorem Closed.enter (h : s.Closed) : s.enter.Closed := by
  unfold Relay.enter
  split
  case h_1 hpc | h_2 hpc =>
    have hnone := (closed_iff (s := s) (by simp [hpc])).mp h
    exact hnone
  case h_3 => exact h

theorem Shows.enter (h : s.Shows past out ahead) : s.enter.Shows past out ahead := by
  obtain ⟨out', ahead', hv, ho, ha⟩ := h
  refine ⟨out', ahead', hv.enter, ho, ha.imp ?_ id⟩
  rintro ⟨heq, hc⟩
  exact ⟨heq, fun h => (hc h).enter⟩

end

/-- Along a run the client gets more and less is left of the server; what is past stays so until
    the next line. -/
theorem runs_shows
    {P : Relay cmdCap rspCap (Tapped χ) ω → Prop} (h : s.Shows past out ahead)
    (hr : (future cmdCap rspCap (Tapped χ) ω).Runs P s t) : t.Shows past out ahead := by
  refine hr.inv (I := Shows past out ahead) h ?_
  rintro u v ⟨out', ahead', hv, ho, ha⟩ - hm
  obtain ⟨out'', ahead'', hv', ho', ha'⟩ :=
    hm.ensures (I := Shows u.Closed out' ahead') Shows.enter (step_shows hv)
  refine ⟨out'', ahead'', hv', ho.trans ho', ?_⟩
  rcases ha with ⟨rfl, hc⟩ | ⟨hsuf, hlt⟩
  · rcases ha' with ⟨rfl, hc'⟩ | hless
    · exact .inl ⟨rfl, fun h => hc' (hc h)⟩
    · exact .inr hless
  · rcases ha' with ⟨rfl, -⟩ | ⟨hsuf', hlt'⟩
    · exact .inr ⟨hsuf, hlt⟩
    · exact .inr ⟨hsuf'.trans hsuf, by omega⟩

end

end Relay

end Vey.Imap

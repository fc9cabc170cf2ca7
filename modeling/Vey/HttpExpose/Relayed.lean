import Vey.HttpExpose.Forward

/-! A forwarded request is relayed unchanged, whatever its connections do.

        client   [ own body bytes ......... ] [ next request ...
                   taken ........|
        connection 1   header, own bytes ...|  fails
        connection 2   header, own bytes ......|

    A retry is harmless as long as the body can be sent again: nothing of it was read, or what was
    read is still held in a buffer. The buffer lives inside `run_with_connection`, so an error that
    leaves this function must not make `run_forward` retry once the body was read from. It does
    when the reconnect of an inner loop fails: the flag that asked for the reconnect is still
    set. -/

namespace Vey.HttpExpose
open Schemes IoExt Http Serve List

/-- What is left of a client stream; a request may come without one. -/
def contentOf (s : Option Source) : Bytes := s.elim [] Source.content

section

variable [HttpTypes] [AtoiRadix16]

/-- The bytes of the client's stream that are the body of the request. -/
def ownBody (req : HttpProxyClientRequest) (input : Bytes) : Bytes :=
  match req.bodyType with
  | none => []
  | some bodyType => bodyType.own input

variable {bodyType : HttpBodyType}

omit [AtoiRadix16] in
/-- The body of a request has an end of its own and is not empty. -/
theorem bodyType_ends {req : HttpProxyClientRequest} (h : req.bodyType = some bodyType) :
    bodyType ≠ .contentLength 0 ∧ bodyType ≠ .readUntilEnd := by
  unfold HttpProxyClientRequest.bodyType RequestHead.checkBodyType at h
  split at h
  · cases h
  · split at h
    · obtain rfl := Option.some.inj h
      exact ⟨nofun, nofun⟩
    · split at h
      case isTrue hpos =>
        obtain rfl := Option.some.inj h
        refine ⟨fun h0 => ?_, nofun⟩
        rw [HttpBodyType.contentLength.inj h0] at hpos
        exact absurd hpos (by decide)
      case isFalse => cases h

variable (req : HttpProxyClientRequest) (input : Bytes) {ω : Type}

/-- A connection has got a part of the header followed by own bytes of the body. -/
def Within (c : Connection (Tapped ω)) : Prop :=
  c.writer.log <+: c.serialize req ++ ownBody req input

/-- The bytes that are missing from the front of the client's stream are own bytes of the body. -/
def Taken (rest : Bytes) : Prop := ∃ taken, taken ++ rest = input ∧ taken <+: ownBody req input

/-- The request can be sent once more from what a sending function holds. -/
def Restartable (cltR : Option Source) : Sending → Prop
  | .noBody => contentOf cltR = input
  | .allBody body => body <+: ownBody req input ∧ body ++ contentOf cltR = input
  | .body fast r => ∃ bodyType, req.bodyType = some bodyType ∧
      HttpBodyReader.Reading bodyType input (fast.getD []) r

/-- What a sending function leaves of the client's stream. -/
def restOf (cltR : Option Source) : Sending → Bytes
  | .body _ r => r.stream.content
  | _ => contentOf cltR

/-- What a sending function holds while it waits for the response. -/
def Awaiting (retry : Bool) (cltR : Option Source) : Sending → Prop
  | .body _ r => retry = false ∧ Taken req input r.stream.content
  | how => Restartable req input cltR how

/-- The copy of `run_with_body` behind the header. -/
def Copying (c : Connection (Tapped ω)) (fast : Option Bytes)
    (copy : StreamCopy HttpBodyReader (Tapped ω)) : Prop :=
  ∃ bodyType, req.bodyType = some bodyType ∧
    copy.Inv (HttpBodyReader.bodySpec bodyType input (fast.getD [])) (c.serialize req).length
      (c.serialize req ++ fast.getD [])

namespace HttpExposeForwardTask

variable (t : HttpExposeForwardTask ω)

/-- The final responses that the client was sent. -/
def finals : Nat := t.replies.countP Reply.isFinal

/-- The client's stream, wherever it is lent to. -/
def client : Option Source :=
  match t.pc with
  | .connect (.withBody _ r) => some r.stream
  | .readAllNow _ r _ => some r.stream
  | .send _ (.body _ r) _ => some r.stream
  | .flush _ (.body _ r) => some r.stream
  | .select _ _ cltToUps => some cltToUps.reader.stream
  | .copy _ _ cltToUps _ => some cltToUps.reader.stream
  | .recvFinal _ (.body _ r) => some r.stream
  | .respond _ (.body _ r) _ => some r.stream
  | _ => t.cltR

/-- The connections that the request was given to. -/
def connections : List (Connection (Tapped ω)) :=
  t.used ++ match t.pc with
    | .run c => [c]
    | .readAllNow c _ _ => [c]
    | .send c _ _ => [c]
    | .flush c _ => [c]
    | .select c _ cltToUps => [{ c with writer := cltToUps.writer }]
    | .copy c _ cltToUps _ => [{ c with writer := cltToUps.writer }]
    | .recvFinal c _ => [c]
    | .respond c _ _ => [c]
    | _ => []

/-- The request is relayed unchanged up to here. -/
structure Relayed : Prop where
  upstream : ∀ c ∈ t.connections, Within req input c
  client : Taken req input (contentOf t.client)
  replies : t.finals ≤ 1

/-- The reconnect of an inner loop is about to fail. -/
def reconnectFails : Bool :=
  match t.pc, t.connects with
  | .connect (.withAllBody _), .error _ :: _ => true
  | .connect (.withBody _ _), .error _ :: _ => true
  | _, _ => false

/-! ### The invariant -/

/-- No final response yet. -/
def Quiet : Prop := t.sendErrorResponse = true ∧ t.finals = 0

/-- One final response at most, and an error is not replied to after it. -/
def Sent : Prop :=
  t.finals ≤ 1 ∧ (t.sendErrorResponse = true → t.finals = 0)

/-- What holds at each place of the task. -/
def At : ForwardAt ω → Prop
  | .start => contentOf t.cltR = input ∧ t.Quiet
  | .connect .runForward => contentOf t.cltR = input ∧ t.Quiet
  | .connect (.withAllBody body) => Restartable req input t.cltR (.allBody body) ∧ t.Quiet
  | .connect (.withBody buf r) => Restartable req input t.cltR (.body (some buf) r) ∧ t.Quiet
  | .run c => contentOf t.cltR = input ∧ t.Quiet ∧ c.writer.log = [] ∧
      (t.renewed = false → t.retryNewConnection = false)
  | .readAllNow c r buf => Restartable req input t.cltR (.body (some buf) r) ∧ t.Quiet ∧
      c.writer.log = [] ∧ (t.renewed = false → t.retryNewConnection = false)
  | .send c how offset => Restartable req input t.cltR how ∧ t.Quiet ∧
      c.writer.log ++ (how.data (c.serialize req)).drop offset = how.data (c.serialize req)
  | .flush c how => Restartable req input t.cltR how ∧ t.Quiet ∧
      c.writer.log = how.data (c.serialize req)
  | .select c fast cltToUps => Copying req input c fast cltToUps ∧ t.Quiet ∧
      t.retryNewConnection = false
  | .copy c fast cltToUps _ => Copying req input c fast cltToUps ∧ t.Quiet ∧
      t.retryNewConnection = false
  | .recvFinal c how => Within req input c ∧ t.Quiet ∧
      Awaiting req input t.retryNewConnection t.cltR how
  | .respond c how _ => Within req input c ∧ t.Quiet ∧ t.retryNewConnection = false ∧
      Taken req input (restOf t.cltR how)
  | .fail _ => Taken req input (contentOf t.cltR) ∧ t.Sent ∧
      (t.renewed = false → t.retryNewConnection = true → contentOf t.cltR = input ∧ t.Quiet)
  | .done _ => Taken req input (contentOf t.cltR) ∧ t.finals ≤ 1

structure Inv : Prop where
  same : t.req = req
  used : ∀ c ∈ t.used, Within req input c
  at_ : t.At req input t.pc

end HttpExposeForwardTask

/-! ### What is held of the client's stream -/

variable {req input}

theorem taken_nothing : Taken req input input := ⟨[], rfl, nil_prefix⟩

variable {r : HttpBodyReader}

theorem taken_of_reading {d : Bytes}
    (h : req.bodyType = some bodyType) (hr : HttpBodyReader.Reading bodyType input d r) :
    Taken req input r.stream.content :=
  ⟨d, hr.stream, by rw [ownBody, h]; exact hr.own⟩

variable {cltR : Option Source} {how : Sending}

theorem Restartable.taken
    (h : Restartable req input cltR how) : Taken req input (restOf cltR how) := by
  cases how with
  | noBody => exact ⟨[], h, nil_prefix⟩
  | allBody body => exact ⟨body, h.2, h.1⟩
  | body fast r =>
    obtain ⟨bodyType, hty, hr⟩ := h
    exact taken_of_reading hty hr

/-- What is sent first is a part of the header and the body. -/
theorem Restartable.data {header : Bytes}
    (h : Restartable req input cltR how) : how.data header <+: header ++ ownBody req input := by
  cases how with
  | noBody => exact prefix_append _ _
  | allBody body => exact (prefix_append_right_inj header).mpr h.1
  | body fast r => exact prefix_append _ _

section

variable {c : Connection (Tapped ω)} {fast : Option Bytes}
  {copy copy' : StreamCopy HttpBodyReader (Tapped ω)}

/-- What is in the writer of a copy is header and own bytes. -/
theorem within_of_flow {d acc : Bytes} (hty : req.bodyType = some bodyType)
    (hr : HttpBodyReader.Reading bodyType input (fast.getD [] ++ d) r)
    (hflow : copy.writer.log ++ acc = c.serialize req ++ fast.getD [] ++ d) :
    Within req input { c with writer := copy.writer } := by
  have hown : fast.getD [] ++ d <+: ownBody req input := by rw [ownBody, hty]; exact hr.own
  have hlog : copy.writer.log <+: c.serialize req ++ (fast.getD [] ++ d) :=
    ⟨acc, by rw [hflow, append_assoc]⟩
  exact hlog.trans ((prefix_append_right_inj _).mpr hown)

section

variable (h : Copying req input c fast copy)

include h

theorem Copying.within : Within req input { c with writer := copy.writer } := by
  obtain ⟨bodyType, hty, d, hr, hcons, -⟩ := h
  exact within_of_flow hty hr hcons.flow

theorem Copying.taken : Taken req input copy.reader.stream.content := by
  obtain ⟨bodyType, hty, d, hr, -⟩ := h
  exact taken_of_reading hty hr

/-- A copy that has read nothing can be started again. -/
theorem Copying.restartable (h0 : copy.buf.totalRead = 0) :
    Restartable req input cltR (.body fast copy.reader) := by
  obtain ⟨bodyType, hty, d, hr, hcons, -⟩ := h
  obtain rfl : d = [] := length_eq_zero_iff.mp (by rw [← hcons.read, h0])
  refine ⟨bodyType, hty, ?_⟩
  have hr' : HttpBodyReader.Reading bodyType input (fast.getD [] ++ []) copy.reader := hr
  rwa [append_nil] at hr'

end

/-- A copy that fails has taken no foreign byte and sent none. -/
theorem Copying.fails (hty : req.bodyType = some bodyType)
    (hf : copy.Broken (HttpBodyReader.bodySpec bodyType input (fast.getD []))
      (c.serialize req).length (c.serialize req ++ fast.getD [])) :
    Within req input { c with writer := copy.writer } ∧
      Taken req input copy.reader.stream.content := by
  obtain ⟨d, r, hr, hcons, hreader⟩ := hf
  refine ⟨within_of_flow hty hr hcons.flow, ?_⟩
  rcases hreader with he | ⟨cap, e, -, hp⟩
  · rw [he]
    exact taken_of_reading hty hr
  · obtain ⟨taken, hin, hown⟩ := HttpBodyReader.Reading.fail hr hp
    exact ⟨taken, hin, by rw [ownBody, hty]; exact hown⟩

/-- The copy that `run_with_body` starts behind the header. -/
theorem Copying.start (config : StreamCopyConfig)
    (h : Restartable req input cltR (.body fast r)) (hlog : c.writer.log = c.serialize req) :
    Copying req input c fast (cltToUps config r c.writer fast) := by
  obtain ⟨bodyType, hty, hr⟩ := h
  refine ⟨bodyType, hty, [], ?_⟩
  cases fast with
  | none =>
    have hcons := (Conserves.new config).behind (c.serialize req)
    exact ⟨hr, by rw [← hlog] at hcons ⊢; exact hcons, nofun⟩
  | some buf =>
    have hcons := (Conserves.withData config ⟨buf, buf.length, Nat.le_refl _⟩).behind
      (c.serialize req)
    refine ⟨?_, by rw [← hlog] at hcons ⊢; exact hcons, nofun⟩
    change HttpBodyReader.Reading bodyType input (buf ++ []) r
    rw [append_nil]; exact hr

end

/-! ### One step -/

namespace HttpExposeForwardTask

section

variable {t : HttpExposeForwardTask ω} {c : Connection (Tapped ω)}

theorem Inv.here {p : ForwardAt ω} (h : t.Inv req input) (hpc : t.pc = p) : t.At req input p :=
  hpc ▸ h.at_

omit [AtoiRadix16] in
theorem Quiet.sent (h : t.Quiet) : t.Sent := ⟨by rw [h.2]; exact Nat.zero_le 1, fun _ => h.2⟩

theorem used_leave (hused : ∀ c ∈ t.used, Within req input c) (hc : Within req input c) :
    ∀ d ∈ (t.leave c).used, Within req input d := by
  intro d hd
  rcases mem_append.mp hd with hd | hd
  · exact hused d hd
  · rw [mem_singleton.mp hd]; exact hc

/-- No final response yet, and nothing foreign was sent. -/
structure Open (req : HttpProxyClientRequest) (input : Bytes) (t : HttpExposeForwardTask ω) :
    Prop where
  same : t.req = req
  used : ∀ c ∈ t.used, Within req input c
  quiet : t.Quiet

/-- Where a sending function may fail: another try is asked for only if the request can be sent
    again and the client has no response yet. -/
structure Raisable (req : HttpProxyClientRequest) (input : Bytes) (t : HttpExposeForwardTask ω)
    (c : Connection (Tapped ω)) (how : Sending) : Prop where
  same : t.req = req
  used : ∀ c ∈ t.used, Within req input c
  within : Within req input c
  taken : Taken req input (restOf t.cltR how)
  sent : t.Sent
  retry : t.retryNewConnection = true → t.Quiet ∧ Restartable req input t.cltR how

theorem raise_inv (h : Raisable req input t c how) (e : ServerTaskError) :
    (t.raise c how e).state.Inv req input := by
  have hused := used_leave h.used h.within
  match how, h with
  | .noBody, h =>
    refine ⟨h.same, hused, h.taken, h.sent, fun _ hretry => ?_⟩
    obtain ⟨hquiet, hrest⟩ := h.retry hretry
    exact ⟨hrest, hquiet⟩
  | .body none r, h =>
    refine ⟨h.same, hused, h.taken, h.sent, fun _ hretry => ?_⟩
    obtain ⟨hquiet, bodyType, -, hr⟩ := h.retry hretry
    exact ⟨hr.stream, hquiet⟩
  | .allBody _, h | .body (some _) _, h =>
    unfold raise
    dsimp only
    split
    case isTrue hboth =>
      obtain ⟨hquiet, hrest⟩ := h.retry (Bool.and_eq_true _ _ ▸ hboth).2
      exact ⟨h.same, hused, hrest, hquiet⟩
    case isFalse => exact ⟨h.same, hused, h.taken, h.sent, nofun⟩

omit [AtoiRadix16] in
theorem finals_reply (t : HttpExposeForwardTask ω) (r : Reply) :
    (t.reply r).finals = t.finals + if r.isFinal then 1 else 0 := by
  rw [finals, reply, countP_append, countP_singleton, finals]

omit [AtoiRadix16] in
theorem Quiet.reply_le (h : t.Quiet) (r : Reply) : (t.reply r).finals ≤ 1 := by
  rw [finals_reply, h.2]
  split
  · exact Nat.le_refl 1
  · exact Nat.zero_le 1

/-- Two states of the task that differ in nothing a retry depends on. -/
structure Alike (t t' : HttpExposeForwardTask ω) : Prop where
  req : t'.req = t.req
  used : t'.used = t.used
  cltR : t'.cltR = t.cltR
  retry : t'.retryNewConnection = t.retryNewConnection
  quiet : t.Quiet → t'.Quiet

theorem Alike.opened {u : HttpExposeForwardTask ω} (h : Alike t u) (ht : Open req input t) :
    Open req input u :=
  ⟨h.req.trans ht.same, by rw [h.used]; exact ht.used, h.quiet ht.quiet⟩

variable (t)

omit [AtoiRadix16] in
/-- Informational responses are not final ones. -/
theorem sendResponseHeader_alike (rsp : HttpForwardRemoteResponse) :
    Alike t (t.sendResponseHeader rsp).2 := by
  have hfinals : ∀ u : HttpExposeForwardTask ω,
      (u.reply (.informational rsp.code)).finals = u.finals := fun u => finals_reply u _
  unfold sendResponseHeader
  split
  · exact ⟨rfl, rfl, rfl, rfl, fun h => ⟨h.1, (hfinals t).trans h.2⟩⟩
  · exact ⟨rfl, rfl, rfl, rfl, fun h => ⟨h.1, (hfinals _).trans h.2⟩⟩
  · exact ⟨rfl, rfl, rfl, rfl, fun h => h⟩

omit [AtoiRadix16] in
theorem checkOutFinalResponse_alike (hdr : HttpForwardRemoteResponse) :
    Alike t (t.checkOutFinalResponse hdr).2 := by
  have hsend := sendResponseHeader_alike t hdr
  have hself : Alike t t := ⟨rfl, rfl, rfl, rfl, id⟩
  unfold checkOutFinalResponse
  split
  · split
    · split
      case h_1 u hu => rw [hu] at hsend; exact ⟨hsend.1, hsend.2, hsend.3, hsend.4, hsend.5⟩
      case h_2 e u hu => rw [hu] at hsend; exact hsend
    · exact hself
  · split
    · split
      all_goals next hu => rw [hu] at hsend; exact hsend
    · exact hself

variable {t}

theorem getNewConnection_inv {caller : Caller} (h : t.Inv req input) (hpc : t.pc = .connect caller)
    (hok : t.reconnectFails = false) : (t.getNewConnection caller).state.Inv req input := by
  have hat := h.here hpc
  unfold getNewConnection
  split
  case h_1 => exact ⟨h.same, h.used, hat⟩
  case h_2 c cs hcs =>
    cases caller with
    | runForward => exact ⟨h.same, h.used, hat.1, hat.2, rfl, nofun⟩
    | withAllBody | withBody => exact ⟨h.same, h.used, hat.1, hat.2, rfl⟩
  case h_3 e cs hcs =>
    cases caller with
    | runForward =>
      exact ⟨h.same, h.used, ⟨[], hat.1, nil_prefix⟩, hat.2.reply_le (.connectErr e)⟩
    | withAllBody | withBody => rw [reconnectFails, hpc, hcs] at hok; cases hok

/-- A request that can be sent again is sent from its start. -/
theorem sendOn_inv (h : Open req input t) (hrest : Restartable req input t.cltR how)
    (hlog : c.writer.log = []) : (t.sendOn c how).state.Inv req input :=
  ⟨h.same, h.used, hrest, h.quiet, by rw [hlog]; rfl⟩

theorem within_nil (hlog : c.writer.log = []) : Within req input c := by
  rw [Within, hlog]; exact nil_prefix

theorem runWithConnection_inv (h : t.Inv req input) (hpc : t.pc = .run c) :
    (t.runWithConnection c).state.Inv req input := by
  obtain ⟨hfresh, hquiet, hlog, hretry⟩ := h.here hpc
  have htaken : Taken req input (contentOf t.cltR) := by rw [hfresh]; exact taken_nothing
  unfold runWithConnection
  generalize hidle : (if t.reusedConnection then c.fillWaitData else (.pending, c)) = a
  obtain ⟨idle, c'⟩ := a
  have hc' : c'.writer.log = [] := by
    split at hidle
    · unfold Connection.fillWaitData at hidle
      split at hidle <;> rw [← (Prod.mk.inj hidle).2] <;> exact hlog
    · rw [← (Prod.mk.inj hidle).2]; exact hlog
  have hleft := used_leave h.used (within_nil hc')
  cases idle with
  | ready r => exact ⟨h.same, hleft, htaken, hquiet.sent, fun _ _ => ⟨hfresh, hquiet⟩⟩
  | pending =>
    dsimp only
    split
    case h_1 hb => exact sendOn_inv ⟨h.same, h.used, hquiet⟩ hfresh hc'
    case h_2 => exact ⟨h.same, hleft, htaken, hquiet.sent, fun _ _ => ⟨hfresh, hquiet⟩⟩
    case h_3 bodyType cltR hb hr =>
      obtain ⟨hlen, hend⟩ := bodyType_ends hb
      have hcont : cltR.content = input := by rw [hr] at hfresh; exact hfresh
      have hread := HttpBodyReader.Reading.start cltR t.config.bodyLineMaxLen hlen hend
      rw [hcont] at hread
      rw [h.same] at hb
      split
      case isTrue => exact sendOn_inv ⟨h.same, h.used, hquiet⟩ ⟨bodyType, hb, hread⟩ hc'
      case isFalse => exact ⟨h.same, h.used, ⟨bodyType, hb, hread⟩, hquiet, hc', hretry⟩

theorem afterReadAllNow_inv {buf : Bytes} (h : Open req input t) (hlog : c.writer.log = [])
    (hrest : Restartable req input t.cltR (.body (some buf) r)) :
    (t.afterReadAllNow c r buf).state.Inv req input := by
  unfold afterReadAllNow
  split
  case isTrue h0 =>
    subst h0
    exact sendOn_inv h hrest hlog
  case isFalse =>
    split
    case isTrue =>
      obtain ⟨bodyType, hty, hr⟩ := hrest
      refine sendOn_inv ⟨h.same, h.used, h.quiet⟩ ⟨?_, hr.stream⟩ hlog
      rw [ownBody, hty]; exact hr.own
    case isFalse => exact sendOn_inv h hrest hlog

theorem readAllNow_inv {buf : Bytes} (h : t.Inv req input)
    (hpc : t.pc = .readAllNow c r buf) : (t.readAllNow c r buf).state.Inv req input := by
  obtain ⟨⟨bodyType, hty, hr⟩, hquiet, hlog, hretry⟩ := h.here hpc
  have hnil : Within req input c := within_nil hlog
  have hleft := used_leave h.used hnil
  -- an error before the request is sent asks for no retry
  have hfail : t.renewed = false → t.retryNewConnection = true → False := fun hn ht => by
    rw [hretry hn] at ht; cases ht
  unfold readAllNow
  split
  case isTrue => exact afterReadAllNow_inv ⟨h.same, h.used, hquiet⟩ hlog ⟨bodyType, hty, hr⟩
  case isFalse =>
    split
    case h_1 d r' hp =>
      have hr' := hr.read hp
      split
      case isTrue =>
        exact ⟨h.same, hleft, taken_of_reading hty hr', hquiet.sent,
          fun hn ht => (hfail hn ht).elim⟩
      case isFalse =>
        split
        case isTrue h0 =>
          rw [h0, append_nil] at hr'
          exact afterReadAllNow_inv ⟨h.same, h.used, hquiet⟩ hlog ⟨bodyType, hty, hr'⟩
        case isFalse => exact ⟨h.same, h.used, ⟨bodyType, hty, hr'⟩, hquiet, hlog, hretry⟩
    case h_2 e r' hp =>
      obtain ⟨taken, hin, hown⟩ := hr.fail hp
      refine ⟨h.same, hleft, ⟨taken, hin, ?_⟩, hquiet.sent, fun hn ht => (hfail hn ht).elim⟩
      rw [ownBody, hty]; exact hown
    case h_3 r' hp =>
      exact afterReadAllNow_inv ⟨h.same, h.used, hquiet⟩ hlog ⟨bodyType, hty, hr.stall hp⟩

/-- Before the request is sent whole it can be sent again. -/
theorem Raisable.of_restartable (h : Open req input t) (hrest : Restartable req input t.cltR how)
    (hc : Within req input c) : Raisable req input t c how :=
  ⟨h.same, h.used, hc, hrest.taken, h.quiet.sent, fun _ => ⟨h.quiet, hrest⟩⟩

section

variable [AsyncWrite ω]

theorem sendRequestHeader_inv {offset : Nat} (h : t.Inv req input)
    (hpc : t.pc = .send c how offset) : (t.sendRequestHeader c how offset).state.Inv req input := by
  obtain ⟨hrest, hquiet, hlog⟩ := h.here hpc
  have hwithin : ∀ w : Tapped ω, w.log <+: how.data (c.serialize req) →
      Within req input { c with writer := w } := fun w hw => hw.trans hrest.data
  have hnow : c.writer.log <+: how.data (c.serialize req) := ⟨_, hlog⟩
  unfold sendRequestHeader
  rw [h.same]
  dsimp only
  split
  case isTrue hall =>
    refine ⟨h.same, h.used, hrest, hquiet, ?_⟩
    rw [drop_eq_nil_of_le hall, append_nil] at hlog
    exact hlog
  case isFalse =>
    split
    case h_1 w hw =>
      have hw' := tapped_write_pending hw
      exact ⟨h.same, h.used, hrest, hquiet, by dsimp only; rw [hw']; exact hlog⟩
    case h_2 e w hw | h_3 w hw =>
      have hw' : w.log = c.writer.log := by rw [tapped_pollWrite hw]; simp [acceptedBy]
      exact raise_inv (.of_restartable ⟨h.same, h.used, hquiet⟩ hrest
        (hwithin w (by rw [hw']; exact hnow))) _
    case h_4 n w hn hw =>
      refine ⟨h.same, h.used, hrest, hquiet, ?_⟩
      rw [tapped_write_rest hw]; exact hlog

theorem flushRequest_inv (h : t.Inv req input) (hpc : t.pc = .flush c how) :
    (t.flushRequest c how).state.Inv req input := by
  obtain ⟨hrest, hquiet, hlog⟩ := h.here hpc
  have hwithin : ∀ w : Tapped ω, w.log = c.writer.log → Within req input { c with writer := w } := by
    intro w hw
    rw [Within, hw, hlog]; exact hrest.data
  unfold flushRequest
  split
  case h_1 w hw =>
    exact ⟨h.same, h.used, hrest, hquiet, (tapped_pollFlush hw).trans hlog⟩
  case h_2 e w hw =>
    exact raise_inv (.of_restartable ⟨h.same, h.used, hquiet⟩ hrest
      (hwithin w (tapped_pollFlush hw))) _
  case h_3 w hw =>
    have hw' := tapped_pollFlush hw
    cases how with
    | noBody | allBody => exact ⟨h.same, h.used, hwithin w hw', hquiet, hrest⟩
    | body fast r =>
      refine ⟨h.same, h.used, ?_, hquiet, rfl⟩
      exact Copying.start (c := { c with writer := w }) t.config.tcpCopy hrest (hw'.trans hlog)

end

section

variable {fast : Option Bytes} {copy : StreamCopy HttpBodyReader (Tapped ω)}

/-- The loop of `run_with_body` is left with an error and without the wish to retry. -/
theorem stopCopy_inv (t : HttpExposeForwardTask ω) (c : Connection (Tapped ω))
    (h : Open req input t) (hwithin : Within req input { c with writer := copy.writer })
    (htaken : Taken req input copy.reader.stream.content)
    (hretry : t.retryNewConnection = false) (e : ServerTaskError) :
    (t.stopCopy c fast copy e).state.Inv req input := by
  have hraise : Raisable req input t { c with writer := copy.writer } (.body fast copy.reader) :=
    ⟨h.same, h.used, hwithin, htaken, h.quiet.sent, fun ht => by rw [hretry] at ht; cases ht⟩
  exact raise_inv hraise e

theorem selectUpstream_inv (h : t.Inv req input) (hpc : t.pc = .select c fast copy) :
    (t.selectUpstream c fast copy).state.Inv req input := by
  obtain ⟨hcopy, hquiet, hretry⟩ := h.here hpc
  -- the upstream is gone: the body can be sent again if nothing more of it was read
  have hclosed : Raisable req input ({ t with
      retryNewConnection := if copy.buf.totalRead = 0 then true else t.retryNewConnection })
        { c with writer := copy.writer } (.body fast copy.reader) := by
    refine ⟨h.same, h.used, hcopy.within, hcopy.taken, hquiet.sent, fun ht => ?_⟩
    by_cases h0 : copy.buf.totalRead = 0
    · exact ⟨hquiet, hcopy.restartable h0⟩
    · simp only [h0, if_false, hretry] at ht
      cases ht
  unfold selectUpstream
  dsimp only
  split
  case h_1 | h_2 | h_3 => exact ⟨h.same, h.used, hcopy, hquiet, hretry⟩
  case h_4 | h_5 => exact raise_inv hclosed _
  case h_6 size r es hev =>
    have hwithin : Within req input { c with events := es, writer := copy.writer } := hcopy.within
    cases r with
    | error e =>
      exact stopCopy_inv (t.countRead size) { c with events := es } ⟨h.same, h.used, hquiet⟩ hwithin
        hcopy.taken hretry e
    | ok hdr =>
      dsimp only
      have halike := checkOutFinalResponse_alike (t.countRead size) hdr
      generalize (t.countRead size).checkOutFinalResponse hdr = a at halike
      obtain ⟨r, u⟩ := a
      have hu := halike.opened ⟨h.same, h.used, hquiet⟩
      have hr : u.retryNewConnection = false := halike.retry.trans hretry
      match r with
      | .error e => exact stopCopy_inv u { c with events := es } hu hwithin hcopy.taken hr e
      | .ok none => exact ⟨hu.same, hu.used, hcopy, hu.quiet, hr⟩
      | .ok (some hdr') => exact ⟨hu.same, hu.used, hwithin, hu.quiet, hr, hcopy.taken⟩

theorem selectCopy_inv [AsyncWrite ω] {tick : Option ServerTaskError} (h : t.Inv req input)
    (hpc : t.pc = .copy c fast copy tick) : (t.selectCopy c fast copy tick).state.Inv req input := by
  obtain ⟨hcopy, hquiet, hretry⟩ := h.here hpc
  obtain ⟨bodyType, hty, hinv⟩ := hcopy
  have hstep := StreamCopy.pollCopy_settles hinv
  unfold selectCopy
  cases hp : copy.pollCopy with
  | next copy' =>
    rw [hp] at hstep
    exact ⟨h.same, h.used, ⟨bodyType, hty, hstep⟩, hquiet, hretry⟩
  | ret r copy' =>
    rw [hp] at hstep
    match r with
    | .pending =>
      have hcopy' : Copying req input c fast copy' := ⟨bodyType, hty, hstep⟩
      cases tick with
      | none => exact ⟨h.same, h.used, hcopy', hquiet, hretry⟩
      | some e => exact stopCopy_inv t c ⟨h.same, h.used, hquiet⟩ hcopy'.within hcopy'.taken hretry e
    | .ready (.ok n) =>
      have hcopy' : Copying req input c fast copy' := ⟨bodyType, hty, hstep.inv⟩
      exact ⟨h.same, h.used, hcopy'.within, hquiet, hretry, hcopy'.taken⟩
    | .ready (.error e) =>
      obtain ⟨hwithin, htaken⟩ := Copying.fails hty hstep
      exact stopCopy_inv t c ⟨h.same, h.used, hquiet⟩ hwithin htaken hretry _

end

/-- Without a response nothing forbids to send the request again that can be. -/
theorem afterRecvErr_raisable (t : HttpExposeForwardTask ω) (h : Open req input t)
    (hwithin : Within req input c)
    (hhow : Awaiting req input t.retryNewConnection t.cltR how) (e : ServerTaskError) :
    Raisable req input (t.afterRecvErr how e) c how := by
  cases how with
  | noBody | allBody => exact .of_restartable ⟨h.same, h.used, h.quiet⟩ hhow hwithin
  | body fast r =>
    refine ⟨h.same, h.used, hwithin, hhow.2, h.quiet.sent, fun ht => ?_⟩
    rw [show (t.afterRecvErr (.body fast r) e).retryNewConnection = false from hhow.1] at ht
    cases ht

theorem recvFinalResponseHeader_inv (h : t.Inv req input) (hpc : t.pc = .recvFinal c how) :
    (t.recvFinalResponseHeader c how).state.Inv req input := by
  obtain ⟨hwithin, hquiet, hhow⟩ := h.here hpc
  have hraise : ∀ e, ((t.afterRecvErr how e).raise c how e).state.Inv req input := fun e =>
    raise_inv (afterRecvErr_raisable t ⟨h.same, h.used, hquiet⟩ hwithin hhow e) e
  unfold recvFinalResponseHeader
  split
  case h_1 | h_2 => exact ⟨h.same, h.used, hwithin, hquiet, hhow⟩
  case h_3 | h_4 | h_5 => exact hraise _
  case h_6 size r es hev =>
    have hwithin' : Within req input { c with events := es } := hwithin
    cases r with
    | error e =>
      exact raise_inv
        (afterRecvErr_raisable (t.countRead size) ⟨h.same, h.used, hquiet⟩ hwithin' hhow e) e
    | ok hdr =>
      dsimp only
      have halike := checkOutFinalResponse_alike (t.countRead size) hdr
      generalize (t.countRead size).checkOutFinalResponse hdr = a at halike
      obtain ⟨r, u⟩ := a
      have hu := halike.opened ⟨h.same, h.used, hquiet⟩
      have hhow' : Awaiting req input u.retryNewConnection u.cltR how := by
        rw [halike.retry, halike.cltR]; exact hhow
      match r with
      | .error e => exact raise_inv (afterRecvErr_raisable u hu hwithin' hhow' e) e
      | .ok none => exact ⟨hu.same, hu.used, hwithin', hu.quiet, hhow'⟩
      | .ok (some hdr') =>
        cases how with
        | noBody | allBody => exact ⟨hu.same, hu.used, hwithin', hu.quiet, rfl, Restartable.taken hhow'⟩
        | body fast r => exact ⟨hu.same, hu.used, hwithin', hu.quiet, hhow'.1, hhow'.2⟩

theorem sendResponse_inv {rsp : HttpForwardRemoteResponse} (h : t.Inv req input)
    (hpc : t.pc = .respond c how rsp) : (t.sendResponse c how rsp).state.Inv req input := by
  obtain ⟨hwithin, hquiet, hretry, htaken⟩ := h.here hpc
  have hused := used_leave h.used hwithin
  have hle : (t.reply (.response rsp.code)).finals ≤ 1 := hquiet.reply_le _
  have hno : t.retryNewConnection = true → False := fun ht => by rw [hretry] at ht; cases ht
  unfold sendResponse
  cases hrel : c.relayed with
  | ok _ =>
    cases how with
    | noBody | allBody | body => exact ⟨h.same, hused, htaken, hle⟩
  | error e =>
    cases how with
    | noBody | allBody => exact ⟨h.same, hused, htaken, ⟨hle, nofun⟩, fun _ ht => (hno ht).elim⟩
    | body fast r =>
      have hraise : Raisable req input (t.answer rsp) c (.body fast r) :=
        ⟨h.same, h.used, hwithin, htaken, ⟨hle, nofun⟩, fun ht => (hno ht).elim⟩
      exact raise_inv hraise e

theorem giveUp_inv {e : ServerTaskError} (h : t.Inv req input) (hpc : t.pc = .fail e) :
    (t.giveUp e).state.Inv req input := by
  obtain ⟨htaken, hsent, -⟩ := h.here hpc
  unfold giveUp
  dsimp only
  split
  case isTrue hflag =>
    have hquiet : t.Quiet := by
      have hf : t.sendErrorResponse = true := (Bool.and_eq_true _ _ ▸ hflag).1
      exact ⟨hf, hsent.2 hf⟩
    exact ⟨h.same, h.used, htaken, hquiet.reply_le (.taskErr e)⟩
  case isFalse => exact ⟨h.same, h.used, htaken, hsent.1⟩

/-- Every step keeps the invariant, the failure of an inner reconnect apart. -/
theorem step_inv [AsyncWrite ω] (h : t.Inv req input) (hok : t.reconnectFails = false) :
    t.step.state.Inv req input := by
  have hat := h.at_
  unfold step
  cases hpc : t.pc with
  | start =>
    rw [hpc] at hat
    dsimp only
    split
    · exact ⟨h.same, h.used, hat.1, hat.2, rfl, fun _ => rfl⟩
    · exact ⟨h.same, h.used, hat⟩
  | connect caller => exact getNewConnection_inv h hpc hok
  | run c => exact runWithConnection_inv h hpc
  | readAllNow c r buf => exact readAllNow_inv h hpc
  | send c how offset => exact sendRequestHeader_inv h hpc
  | flush c how => exact flushRequest_inv h hpc
  | select c fast copy => exact selectUpstream_inv h hpc
  | copy c fast copy tick => exact selectCopy_inv h hpc
  | recvFinal c how => exact recvFinalResponseHeader_inv h hpc
  | respond c how rsp => exact sendResponse_inv h hpc
  | fail e =>
    dsimp only
    split
    case isTrue hboth =>
      rw [hpc] at hat
      rw [Bool.and_eq_true, Bool.not_eq_true'] at hboth
      exact ⟨h.same, h.used, hat.2.2 hboth.1 hboth.2⟩
    case isFalse => exact giveUp_inv h hpc
  | done r => exact h

end

/-! ### Whole runs -/

section

variable {t : HttpExposeForwardTask ω}

theorem Inv.upstream (h : t.Inv req input) : ∀ c ∈ t.connections, Within req input c := by
  have hat := h.at_
  intro c hc
  rcases mem_append.mp hc with hc | hc
  · exact h.used c hc
  · cases hpc : t.pc with
    | run | readAllNow =>
      rw [hpc] at hc hat
      rw [mem_singleton.mp hc]; exact within_nil hat.2.2.1
    | send d how offset =>
      rw [hpc] at hc hat
      obtain ⟨hrest, -, hlog⟩ := hat
      rw [mem_singleton.mp hc]
      exact IsPrefix.trans ⟨_, hlog⟩ hrest.data
    | flush d how =>
      rw [hpc] at hc hat
      obtain ⟨hrest, -, hlog⟩ := hat
      rw [mem_singleton.mp hc, Within, hlog]
      exact hrest.data
    | select | copy =>
      rw [hpc] at hc hat
      rw [mem_singleton.mp hc]; exact hat.1.within
    | recvFinal | respond =>
      rw [hpc] at hc hat
      rw [mem_singleton.mp hc]; exact hat.1
    | _ => rw [hpc] at hc; cases hc

theorem Awaiting.taken {retry : Bool}
    (h : Awaiting req input retry cltR how) : Taken req input (restOf cltR how) := by
  cases how with
  | noBody | allBody => exact Restartable.taken h
  | body => exact h.2

theorem Inv.client_taken (h : t.Inv req input) : Taken req input (contentOf t.client) := by
  have hat := h.at_
  unfold client
  cases hpc : t.pc with
  | start | run => rw [hpc] at hat; exact ⟨[], hat.1, nil_prefix⟩
  | connect caller =>
    rw [hpc] at hat
    cases caller with
    | runForward => exact ⟨[], hat.1, nil_prefix⟩
    | withAllBody | withBody => exact Restartable.taken hat.1
  | readAllNow => rw [hpc] at hat; exact Restartable.taken hat.1
  | send c how | flush c how => rw [hpc] at hat; cases how <;> exact Restartable.taken hat.1
  | select | copy => rw [hpc] at hat; exact hat.1.taken
  | recvFinal c how => rw [hpc] at hat; cases how <;> exact Awaiting.taken hat.2.2
  | respond c how rsp => rw [hpc] at hat; cases how <;> exact hat.2.2.2
  | fail | done => rw [hpc] at hat; exact hat.1

theorem Inv.finals_le (h : t.Inv req input) : t.finals ≤ 1 := by
  have hat := h.at_
  cases hpc : t.pc with
  | start => rw [hpc] at hat; exact hat.2.sent.1
  | connect caller => rw [hpc] at hat; cases caller <;> exact hat.2.sent.1
  | run | readAllNow | send | flush | select | copy | recvFinal | respond =>
    rw [hpc] at hat; exact hat.2.1.sent.1
  | fail e => rw [hpc] at hat; exact hat.2.1.1
  | done r => rw [hpc] at hat; exact hat.2

theorem Inv.relayed (h : t.Inv req input) : t.Relayed req input :=
  ⟨h.upstream, h.client_taken, h.finals_le⟩

theorem inv_new (req : HttpProxyClientRequest) (config : Config) (cltR : Option Source)
    (alive : Option (Connection ω)) (connects : List (Except TcpConnectError (Connection ω)))
    (cltW : List (Except IoError Unit)) :
    (new req config cltR alive connects cltW).Inv req (contentOf cltR) :=
  ⟨rfl, nofun, rfl, rfl, rfl⟩

variable [AsyncWrite ω]

/-- In every run in which no reconnect of an inner loop fails the request is relayed unchanged at
    every place: each connection got a part of the header followed by own bytes of the body, no
    byte behind the body was taken off the client's stream, and the client was sent one final
    response at most. -/
theorem relayed_of_reconnects (req : HttpProxyClientRequest) (config : Config)
    (cltR : Option Source) (alive : Option (Connection ω))
    (connects : List (Except TcpConnectError (Connection ω))) (cltW : List (Except IoError Unit))
    (hrun : (future ω).Runs (fun t => t.reconnectFails = false)
      (new req config cltR alive connects cltW) t) : t.Relayed req (contentOf cltR) := by
  refine Inv.relayed (Future.Runs.inv (inv_new req config cltR alive connects cltW) ?_ hrun)
  intro u v hu hok hmove
  have hstep := step_inv hu hok
  cases hmove with
  | next hb | repoll hb => rw [show u.step = _ from hb] at hstep; exact hstep

end

end HttpExposeForwardTask

end

/-! A client sends a request with a body of three bytes, and the next request behind it. The
    upstream closes the connection that is reused before it answers. -/

namespace HttpExposeForwardTask

/-- `PUT / HTTP/1.1` with `content-length: 3` -/
def put : HttpProxyClientRequest where
  head := { method := ⟨ascii "PUT", by decide⟩, version := .http11, uri := ⟨ascii "/", by decide⟩
            contentLength := 3 }

def pipelined : Source := ⟨ascii "abcGET", [], by decide⟩

def upstream (events : List UpsEvent) : Connection Sink where
  serialize _ := ascii "PUT /"
  writer := ⟨[]⟩
  events := events
  relayed := .ok ()

/-- The task whose connects will have these outcomes. -/
def closedOnReuse (connects : List (Except TcpConnectError (Connection Sink))) :
    HttpExposeForwardTask Sink :=
  new put ⟨1024, {}⟩ (some pipelined) (some (upstream [.stall, .closed])) connects []

/-- The reconnect succeeds. -/
theorem relayed_of_reconnects_put : ∃ t, (future Sink).Runs (fun t => t.reconnectFails = false)
      (closedOnReuse [.ok (upstream [.header 19 (.ok ⟨200, true⟩)])]) t ∧
    t.connections.map (·.writer.log) = [ascii "PUT /abc", ascii "PUT /abc"] ∧
    t.Relayed put (ascii "abcGET") := by
  have hend : ((future Sink).afterWhile (!·.reconnectFails) 14
      (closedOnReuse [.ok (upstream [.header 19 (.ok ⟨200, true⟩)])])).map
        (·.connections.map (·.writer.log)) = some [ascii "PUT /abc", ascii "PUT /abc"] := by
    decide +kernel
  obtain ⟨t, ht, hlogs⟩ := Option.map_eq_some_iff.mp hend
  have hrun := Future.afterWhile_runs (P := fun t => t.reconnectFails = false)
    (fun s hs => by simpa using hs) ht
  exact ⟨t, hrun, hlogs, relayed_of_reconnects _ _ _ _ _ _ hrun⟩

/-- The reconnect of the inner loop fails and the one of `run_forward` succeeds: the client is sent
    an error and a response, and the second connection gets bytes of the next request. -/
theorem not_relayed_reconnect : ∃ t, (future Sink).Runs (fun _ => True)
      (closedOnReuse [.error ⟨"connection refused"⟩,
        .ok (upstream [.header 19 (.ok ⟨200, true⟩)])]) t ∧
    t.replies = [.connectErr ⟨"connection refused"⟩, .response 200] ∧
    t.connections.map (·.writer.log) = [ascii "PUT /abc", ascii "PUT /GET"] ∧
    ¬ t.Relayed put (ascii "abcGET") := by
  have hend : ((future Sink).afterWhile (fun _ => true) 19
      (closedOnReuse [.error ⟨"connection refused"⟩,
        .ok (upstream [.header 19 (.ok ⟨200, true⟩)])])).map
        (fun t => (t.replies, t.connections.map (·.writer.log))) =
      some ([.connectErr ⟨"connection refused"⟩, .response 200],
        [ascii "PUT /abc", ascii "PUT /GET"]) := by
    decide +kernel
  obtain ⟨t, ht, hres⟩ := Option.map_eq_some_iff.mp hend
  obtain ⟨hreplies, hlogs⟩ := Prod.mk.inj hres
  have hrun := Future.afterWhile_runs (P := fun _ => True) (fun _ _ => trivial) ht
  refine ⟨t, hrun, hreplies, hlogs, fun h => ?_⟩
  have hle := h.replies
  rw [finals, hreplies] at hle
  exact absurd hle (by decide)

end HttpExposeForwardTask

end Vey.HttpExpose

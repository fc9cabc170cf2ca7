import Vey.IoExt.LineRecv
import Vey.IoExt.Upload
import Vey.Serve.TaskError
import Vey.Smtp.Proto

/-! A mail transaction of an intercepted SMTP connection: `Transaction::do_relay`.

    One command of the client at a time is received, judged and sent on, and the reply of the server
    is relayed before the next command is looked at.

        recvCmd --refused--> replyError ------------------------------+
           |                                                          |
           +--> sendCmd --> [sendBinData] --> recvRsp <-> relayRsp ---+--> next command

    The part of a BDAT chunk that is already buffered is taken out of the line buffer, whose current
    line is the command itself: `consume_left` starts at that line. So the command line is sent a
    second time as the start of the chunk, and as many bytes of the chunk are left for the command
    parser. -/

namespace Vey.Smtp
open Schemes Vey.Types IoExt Serve List LineRecvBuf Command

/-- A command that is sent on. -/
inductive Relayed where
  | recipient (p : RecipientParam)
  | data
  | binaryData (size : Nat) (last : Bool)
  | dataByUrl (last : Bool)
  | noOperation
  | reset
  | quit

/-- Where `do_relay` waits; the stream that an inner future works on is lent to it. -/
inductive TransactionAt (χ ω : Type) where
  | recvCmd
  | replyError (w : WriteAllFlush χ)
  | sendCmd (cmd : Relayed) (w : WriteAllFlush ω)
  | sendBinData (cmd : Relayed) (u : Upload ω)
  | recvRsp (cmd : Relayed) (rsp : ResponseParser)
  | relayRsp (cmd : Relayed) (rsp : ResponseParser) (w : WriteAllFlush χ)

/-- The transaction, its buffers and the four streams; `inChunking` is the local variable of
    `do_relay`. -/
structure Transaction (χ ω : Type) where
  allowChunking : Bool
  allowBurl : Bool
  copyConfig : StreamCopyConfig
  mailTo : List RecipientParam := []
  quit : Bool := false
  inChunking : Bool := false
  cmdRecvBuf : LineRecvBuf commandMaxLineSize := .new
  rspRecvBuf : LineRecvBuf responseMaxLineSize := .new
  cltR : Source
  cltW : χ
  upsR : Source
  upsW : ω
  pc : TransactionAt χ ω := .recvCmd

/-- How the loop goes on behind a command: with the next one, out of `do_relay`, or with the text
    of the mail, which is not part of the model. -/
inductive Next where
  | again
  | finished
  | text

namespace Transaction

variable {χ ω : Type}

abbrev Step (χ ω α : Type) := Ctrl (Transaction χ ω) (Poll (Except ServerTaskError α))

def handleLineError : RecvLineError → ServerTaskError
  | .ioError e => .clientTcpReadFailed e
  | .ioClosed => .closedByClient
  | .lineTooLong => .clientAppError (ascii "SMTP command line too long")

def rspLineError : RecvLineError → ServerTaskError
  | .ioError e => .upstreamReadFailed e
  | .ioClosed => .closedByUpstream
  | .lineTooLong => .upstreamAppError (ascii "SMTP response line too long")

def copyError : StreamCopyError → ServerTaskError
  | .readFailed e => .clientTcpReadFailed e
  | .writeFailed e => .upstreamWriteFailed e

variable (t : Transaction χ ω)

def sendErrorToClient (reply : Bytes) : Step χ ω Next :=
  .next { t with pc := .replyError ⟨reply, t.cltW⟩ }

def sendCmd (cmd : Relayed) (line : Bytes) : Step χ ω Next :=
  .next { t with pc := .sendCmd cmd ⟨line, t.upsW⟩ }

/-- The match on the command in `do_relay`. -/
def handleCmd (cmd : Command) (line : Bytes) : Step χ ω Next :=
  match cmd with
  | .recipient p =>
    if t.inChunking then t.sendErrorToClient badSequenceOfCommands else t.sendCmd (.recipient p) line
  | .data => if t.inChunking then t.sendErrorToClient badSequenceOfCommands else t.sendCmd .data line
  | .binaryData size =>
    if !t.allowChunking then t.sendErrorToClient commandNotImplemented
    else t.sendCmd (.binaryData size false) line
  | .lastBinaryData size =>
    if !t.allowChunking then t.sendErrorToClient commandNotImplemented
    else t.sendCmd (.binaryData size true) line
  | .dataByUrl _ =>
    if !t.allowBurl || !t.allowChunking then t.sendErrorToClient commandNotImplemented
    else t.sendCmd (.dataByUrl false) line
  | .lastDataByUrl _ =>
    if !t.allowBurl then t.sendErrorToClient commandNotImplemented
    else t.sendCmd (.dataByUrl true) line
  | .noOperation => t.sendCmd .noOperation line
  | .reset => t.sendCmd .reset line
  | .quit => t.sendCmd .quit line
  | _ => t.sendErrorToClient badSequenceOfCommands

variable (cmd : Relayed)

/-- `consume_line` at the top of the loop of `recv_relay_rsp`. -/
def nextRspLine (rsp : ResponseParser) : Step χ ω Next :=
  .next { t with rspRecvBuf := t.rspRecvBuf.consumeLine, pc := .recvRsp cmd rsp }

/-- The start of `send_bin_data`. -/
def sendBinData (size : Nat) : Step χ ω Next :=
  match t.cmdRecvBuf.consumeLeft size with
  | (cache, buf) =>
    .next { t with
      cmdRecvBuf := buf
      pc := .sendBinData cmd (
        if cache = [] then .copy (.new ⟨t.cltR, size⟩ t.upsW t.copyConfig)
        else .writeAll cache (size - cache.length) t.cltR t.upsW) }

/-- Behind the command line that was sent. -/
def cmdSent : Step χ ω Next :=
  match cmd with
  | .binaryData size _ => t.sendBinData cmd size
  | _ => t.nextRspLine cmd {}

/-- Behind the reply that was relayed. -/
def rspRelayed (code : ReplyCode) : Step χ ω Next :=
  match cmd with
  | .recipient p => .ret (.ready (.ok .again)) { t with mailTo := t.mailTo ++ [p] }
  | .data =>
    if code = .startMailInput then .ret (.ready (.ok .text)) t else .ret (.ready (.ok .again)) t
  | .binaryData _ last | .dataByUrl last =>
    if last then .ret (.ready (.ok .finished)) t
    else .ret (.ready (.ok .again)) { t with inChunking := true }
  | .noOperation =>
    if code = .ok then .ret (.ready (.ok .again)) t
    else .ret (.ready (.error (.upstreamAppError (ascii "unexpected NOOP reply code " ++ code.text)))) t
  | .reset =>
    if code = .ok then .ret (.ready (.ok .finished)) t
    else .ret (.ready (.error (.upstreamAppError
      (ascii "unexpected RESET reply code " ++ code.text)))) t
  | .quit => .ret (.ready (.ok .finished)) { t with quit := true }

section

variable [TextFunctions] [SmtpHosts] [AsyncWrite χ] [AsyncWrite ω]

/-- One step of a round of the loop in `do_relay`. -/
def relayCommand (t : Transaction χ ω) : Step χ ω Next :=
  match t.pc with
  | .recvCmd =>
    (LineRecvBuf.readLine (t.cmdRecvBuf, t.cltR)).await
      (fun p => { t with cmdRecvBuf := p.1, cltR := p.2 }) handleLineError fun line p =>
        let t := { t with cmdRecvBuf := p.1, cltR := p.2 }
        match Command.parseLine line with
        | .ok cmd => t.handleCmd cmd line
        | .error e =>
          .ret (.ready (.error (.clientAppError (ascii "invalid SMTP command line: " ++ e.text)))) t
  | .replyError w =>
    w.poll.await (fun w => { t with cltW := w.writer, pc := .replyError w })
      .clientTcpWriteFailed fun _ w => .ret (.ready (.ok .again)) { t with cltW := w.writer }
  | .sendCmd cmd w =>
    w.poll.await (fun w => { t with upsW := w.writer, pc := .sendCmd cmd w })
      .upstreamWriteFailed fun _ w => { t with upsW := w.writer }.cmdSent cmd
  | .sendBinData cmd u =>
    (u.poll t.copyConfig).await
      (fun u => { t with cltR := u.reader, upsW := u.writer, pc := .sendBinData cmd u }) copyError
      fun _ u => { t with cltR := u.reader, upsW := u.writer }.nextRspLine cmd {}
  | .recvRsp cmd rsp =>
    (LineRecvBuf.readLine (t.rspRecvBuf, t.upsR)).await
      (fun p => { t with rspRecvBuf := p.1, upsR := p.2 }) rspLineError fun line p =>
        let t := { t with rspRecvBuf := p.1, upsR := p.2 }
        match rsp.feedLine line with
        | .ok rsp => .next { t with pc := .relayRsp cmd rsp ⟨line, t.cltW⟩ }
        | .error e =>
          .ret (.ready (.error
            (.upstreamAppError (ascii "invalid SMTP QUIT response line: " ++ e.text)))) t
  | .relayRsp cmd rsp w =>
    w.poll.await (fun w => { t with cltW := w.writer, pc := .relayRsp cmd rsp w })
      .clientTcpWriteFailed fun _ w =>
        let t := { t with cltW := w.writer }
        if rsp.finished then
          if rsp.code = .serviceNotAvailable then
            .ret (.ready (.error .upstreamAppUnavailable)) t
          else t.rspRelayed cmd rsp.code
        else t.nextRspLine cmd rsp

/-- A further poll of the copy inside. -/
def enter : Transaction χ ω :=
  match t.pc with
  | .sendBinData cmd u => { t with pc := .sendBinData cmd u.enter }
  | _ => t

/-- One round of the loop as a future. -/
def round (χ ω : Type) [AsyncWrite χ] [AsyncWrite ω] :
    Future (Transaction χ ω) (Except ServerTaskError Next) := ⟨enter, relayCommand⟩

end

/-! ### What a BDAT command does -/

/-- The bytes of the client from the current line on. -/
def unread : Bytes := LineRecvBuf.pendingOf (t.cmdRecvBuf, t.cltR)

/-- The bytes from which the next command is parsed: `Transaction` and `Forward` alike drop the
    current line first. -/
def unparsed : Bytes := t.cmdRecvBuf.consumeLine.unread ++ t.cltR.content

/-- The server has got `sent`, and what is behind the chunk is `rest`. -/
structure Settled (sent rest : Bytes) (t : Transaction χ (Tapped ω)) : Prop where
  log : t.upsW.log = sent
  unread : t.unread = rest
  line : t.cmdRecvBuf.line = []

theorem Settled.unparsed {sent rest : Bytes} {t : Transaction χ (Tapped ω)}
    (h : t.Settled sent rest) : t.unparsed = rest := by
  rw [Transaction.unparsed, unread_consumeLine_of_nil h.line]
  exact h.unread

/-- The law of a round that handles `line`, a BDAT command of size `n`, with `rest` behind it and
    `log` at the server before it. -/
def BdatInv (log line rest : Bytes) (n : Nat) (t : Transaction χ (Tapped ω)) : Prop :=
  let sent := log ++ line ++ (line ++ rest).take n
  let left := (line ++ rest).drop n
  match t.pc with
  | .recvCmd => t.allowChunking = true ∧ t.upsW.log = log ∧ t.unread = line ++ rest
  | .replyError _ => False
  | .sendCmd cmd w => (∃ last, cmd = .binaryData n last) ∧ w.writer.log ++ w.buf = log ++ line ∧
      t.unread = line ++ rest ∧ t.cmdRecvBuf.line = line
  | .sendBinData cmd u => (∃ last, cmd = .binaryData n last) ∧ t.cmdRecvBuf.line = [] ∧
      ∃ head m input, u.Inv head m input ∧ head ++ input.take m = sent ∧
        t.cmdRecvBuf.unread ++ input.drop m = left
  | .recvRsp cmd _ | .relayRsp cmd _ _ => (∃ last, cmd = .binaryData n last) ∧ t.Settled sent left

section

variable [TextFunctions] [SmtpHosts] [AsyncWrite χ] [AsyncWrite ω]
  {log line rest : Bytes} {n : Nat} {t : Transaction χ (Tapped ω)}

/-- What a round owes when it is through. -/
def BdatDone (log line rest : Bytes) (n : Nat) (_ : Next) (t : Transaction χ (Tapped ω)) : Prop :=
  t.Settled (log ++ line ++ (line ++ rest).take n) ((line ++ rest).drop n)

section

omit [TextFunctions] [SmtpHosts] [AsyncWrite χ] [AsyncWrite ω]

theorem BdatInv.enter (h : t.BdatInv log line rest n) : t.enter.BdatInv log line rest n := by
  unfold Transaction.enter
  split
  case h_1 cmd u hpc =>
    unfold BdatInv at h
    rw [hpc] at h
    obtain ⟨hcmd, hline, head, m, input, hu, hsent, hleft⟩ := h
    exact ⟨hcmd, hline, head, m, input, hu.enter, hsent, hleft⟩
  case h_2 => exact h

/-- The chunk is cut off the front of the unread bytes, command line and all. -/
theorem sendBinData_ensures {cmd : Relayed} (hcmd : ∃ last, cmd = .binaryData n last)
    (hlog : t.upsW.log = log ++ line) (hun : t.unread = line ++ rest) :
    (t.sendBinData cmd n).Ensures (BdatInv log line rest n) (BdatDone log line rest n) := by
  unfold sendBinData
  split
  next cache buf hc =>
    obtain ⟨hsent, hleft⟩ := consumeLeft_split t.cltR.content hc
    have hpend : t.cmdRecvBuf.unread ++ t.cltR.content = line ++ rest := hun
    rw [hpend] at hsent hleft
    refine ⟨hcmd, (consumeLeft_spec hc).2.2, log ++ line ++ cache,
      n - cache.length, t.cltR.content, ?_, by rw [append_assoc, hsent], hleft⟩
    split
    case isTrue hnil =>
      rw [hnil, append_nil]
      exact Upload.inv_copy _ hlog rfl
    case isFalse => exact ⟨by rw [hlog], rfl, rfl⟩

theorem rspRelayed_ensures {cmd : Relayed} {code : ReplyCode}
    (hcmd : ∃ last, cmd = .binaryData n last) (h : BdatDone log line rest n .again t) :
    (t.rspRelayed cmd code).Ensures (BdatInv log line rest n) (BdatDone log line rest n) := by
  obtain ⟨last, rfl⟩ := hcmd
  unfold rspRelayed
  cases last with
  | true => exact h
  | false => exact ⟨h.log, h.unread, h.line⟩

end

/-- One step of a round keeps the law. -/
theorem relayCommand_ensures (hline : IsLine line)
    (hparse : parseLine line = .ok (.binaryData n) ∨
      parseLine line = .ok (.lastBinaryData n))
    (h : t.BdatInv log line rest n) :
    t.relayCommand.Ensures (BdatInv log line rest n) (BdatDone log line rest n) := by
  unfold BdatInv at h
  unfold relayCommand
  split
  case h_1 hpc =>
    rw [hpc] at h
    obtain ⟨hallow, hlog, hun⟩ := h
    refine (readLine_ensures hun).await ?_ ?_
    · intro p hp
      unfold BdatInv
      simp only [hpc]
      exact ⟨hallow, hlog, hp⟩
    · rintro l p ⟨hp, hl, hcur, hle⟩
      -- the first line of what is left is the command
      obtain rfl : l = line := hl.eq_of_prefixes hline hle (prefix_append _ _)
      have hun' : ({ t with cmdRecvBuf := p.1, cltR := p.2 } : Transaction χ (Tapped ω)).unread
          = l ++ rest := hp
      rcases hparse with hparse | hparse
      all_goals
        simp only [hparse, handleCmd, hallow, Bool.not_true, Bool.false_eq_true, if_false]
        exact ⟨⟨_, rfl⟩, by rw [hlog], hun', hcur.symm⟩
  case h_2 w hpc => rw [hpc] at h; exact h.elim
  case h_3 cmd w hpc =>
    rw [hpc] at h
    obtain ⟨⟨last, rfl⟩, hlog, hun, hcur⟩ := h
    refine (WriteAllFlush.poll_ensures hlog).await (fun hw => ⟨⟨last, rfl⟩, hw, hun, hcur⟩) ?_
    intro _ w' hw
    exact sendBinData_ensures ⟨last, rfl⟩ hw hun
  case h_4 cmd u hpc =>
    rw [hpc] at h
    obtain ⟨hcmd, hcur, head, m, input, hu, hsent, hleft⟩ := h
    refine (Upload.poll_ensures t.copyConfig hu).await
      (fun hu' => ⟨hcmd, hcur, head, m, input, hu', hsent, hleft⟩) ?_
    rintro _ u' ⟨hlog, hcont⟩
    exact ⟨hcmd, hlog.trans hsent, (congrArg (t.cmdRecvBuf.unread ++ ·) hcont).trans hleft, hcur⟩
  case h_5 cmd rsp hpc =>
    rw [hpc] at h
    obtain ⟨hcmd, hset⟩ := h
    refine (Ctrl.ensures_true (readLine (t.rspRecvBuf, t.upsR))).await ?_ ?_
    · intro p _
      unfold BdatInv
      simp only [hpc]
      exact ⟨hcmd, hset.log, hset.unread, hset.line⟩
    · rintro l p -
      split
      case h_1 => exact ⟨hcmd, hset.log, hset.unread, hset.line⟩
      case h_2 => exact trivial
  case h_6 cmd rsp w hpc =>
    rw [hpc] at h
    obtain ⟨hcmd, hset⟩ := h
    refine (Ctrl.ensures_true w.poll).await
      (fun _ => ⟨hcmd, hset.log, hset.unread, hset.line⟩) ?_
    rintro _ w' -
    have hset' : BdatDone log line rest n .again { t with cltW := w'.writer } :=
      ⟨hset.log, hset.unread, hset.line⟩
    split
    case isTrue =>
      split
      case isTrue => exact trivial
      case isFalse => exact rspRelayed_ensures hcmd hset'
    case isFalse => exact ⟨hcmd, hset.log, hset.unread, hset.line⟩

variable {s : Transaction χ (Tapped ω)}

/-- The server gets the command line, and then as the chunk the first `n` bytes of the command line
    and what follows it; the next command is parsed from behind these. -/
theorem bdat_relayed {next : Next} (hpc : s.pc = .recvCmd)
    (hallow : s.allowChunking = true) (hun : s.unread = line ++ rest) (hline : IsLine line)
    (hparse : parseLine line = .ok (.binaryData n) ∨
      parseLine line = .ok (.lastBinaryData n))
    (h : (round χ (Tapped ω)).Completes s (.ok next) t) :
    t.upsW.log = s.upsW.log ++ line ++ (line ++ rest).take n ∧
      t.unparsed = (line ++ rest).drop n := by
  have hs : s.BdatInv s.upsW.log line rest n := by
    unfold BdatInv
    rw [hpc]
    exact ⟨hallow, rfl, hun⟩
  have hdone : BdatDone s.upsW.log line rest n next t :=
    Future.Completes.ensures BdatInv.enter (relayCommand_ensures hline hparse) hs h
  exact ⟨hdone.log, hdone.unparsed⟩

/-- A BDAT command that is relayed exactly: the server gets the command line and the `n` bytes behind
    it, and the next command is parsed from the byte behind these. -/
def BdatExact (line rest : Bytes) (n : Nat) (s t : Transaction χ (Tapped ω)) : Prop :=
  t.upsW.log = s.upsW.log ++ line ++ rest.take n ∧ t.unparsed = rest.drop n

/-- No BDAT command is relayed exactly: whatever is buffered and however the rest of the stream
    arrives, the next command is parsed from too early. -/
theorem not_bdatExact (s t : Transaction χ (Tapped ω)) (line rest : Bytes) (n : Nat) (next : Next)
    (hpc : s.pc = .recvCmd) (hallow : s.allowChunking = true) (hun : s.unread = line ++ rest)
    (hline : IsLine line)
    (hparse : Command.parseLine line = .ok (.binaryData n) ∨
      Command.parseLine line = .ok (.lastBinaryData n))
    (hrest : n ≤ rest.length) (h : (round χ (Tapped ω)).Completes s (.ok next) t) :
    ¬ BdatExact line rest n s t := by
  rintro ⟨-, hnext⟩
  have hlen := congrArg length ((bdat_relayed hpc hallow hun hline hparse h).2.symm.trans hnext)
  have hpos : 0 < line.length := length_pos_iff.mpr hline.ne_nil
  rw [length_drop, length_drop, length_append] at hlen
  omega

end

/-! ### Two clients -/

/-- A client that sends `input` at once, and a server that accepts. -/
def clientOf (input : Bytes) (fits : input.length < 2 ^ 64) :
    Transaction (Tapped Sink) (Tapped Sink) where
  allowChunking := true
  allowBurl := false
  copyConfig := {}
  cltR := ⟨input, [], fits⟩
  cltW := tap ⟨[]⟩
  upsR := ⟨ascii "250 OK\r\n", [], by decide⟩
  upsW := tap ⟨[]⟩

/-- A chunk of four bytes: the server gets the start of the command line in its place, and what is
    left of the line is parsed as the next command. -/
theorem bdat_fourBytes : ∃ t,
    (round (Tapped Sink) (Tapped Sink)).Completes
      (clientOf (ascii "BDAT 4\r\nmailNOOP\r\n") (by decide)) (.ok .again) t ∧
    t.upsW.log = ascii "BDAT 4\r\nBDAT" ∧ t.unparsed = ascii " 4\r\nmailNOOP\r\n" ∧
    ¬ BdatExact (ascii "BDAT 4\r\n") (ascii "mailNOOP\r\n") 4
      (clientOf (ascii "BDAT 4\r\nmailNOOP\r\n") (by decide)) t := by
  refine ⟨_, Future.drive_completes (n := 20) .start rfl, rfl, rfl, ?_⟩
  rintro ⟨hlog, -⟩
  revert hlog
  decide

/-- The last chunk of a mail. -/
theorem not_bdatExact_lastChunk : ∃ t,
    (round (Tapped Sink) (Tapped Sink)).Completes
      (clientOf (ascii "BDAT 4 LAST\r\nmail") (by decide)) (.ok .finished) t ∧
    ¬ BdatExact (ascii "BDAT 4 LAST\r\n") (ascii "mail") 4
      (clientOf (ascii "BDAT 4 LAST\r\nmail") (by decide)) t := by
  refine ⟨_, Future.drive_completes (n := 20) .start rfl, ?_⟩
  exact not_bdatExact _ _ _ _ _ .finished rfl rfl rfl ⟨ascii "BDAT 4 LAST\r", by decide, by decide⟩
    (.inr rfl) (by decide) (Future.drive_completes (n := 20) .start rfl)

end Transaction

end Vey.Smtp

import Vey.Imap.Proto
import Vey.IoExt.LineRecv
import Vey.IoExt.Upload
import Vey.Serve.TaskError

/-! The relay of an intercepted IMAP connection: `relay_not_authenticated` and
    `relay_authenticated` with the loops inside them.

        top --> select --> cmdLine --> [reply or send on] --> [client literal] --+
         ^         |                                                             |
         |         +-----> rspLine --> [send on] --> [literal of either side] ---+
         +-----------------------------------------------------------------------+

    `select!` polls its branches in any order; `order` says which one comes first in which round.
    While AUTHENTICATE or STARTTLS waits for its result only the server is read, and while IDLE waits
    for its DONE the client has no other line to send. -/

namespace Vey.Imap
open Schemes Vey.Types IoExt Serve

/-- Which relay is running. -/
inductive Mode where
  | notAuthenticated
  | authenticated
  deriving DecidableEq

/-- Which loop of the relay is running. -/
inductive RelayLoop where
  | main
  | authenticate
  | startTls
  | idle
  deriving DecidableEq

/-- The branch of `select!` that is polled first. -/
inductive Branch where
  | client
  | upstream
  | tick

/-- What `imap_message_adaptor` answers for an APPEND literal: there is no ICAP client, an adapter, or
    an error that may be bypassed. -/
inductive IcapAnswer where
  | absent
  | ready
  | failed (bypass : Bool)

/-- How the relay ends; with an adapter it goes on outside the model. -/
inductive Outcome where
  | serverClose
  | clientClose
  | startTls
  | adapted

/-- What follows a line that was sent to the server. -/
inductive AfterUps where
  | loop
  | logout
  | authenticate
  | startTls
  | idle
  | idleDone
  | sendLiteral (size : Nat)
  | continued (cmd : Command)
  deriving DecidableEq

/-- What follows a line that was sent to the client. -/
inductive AfterClt where
  | loop
  | close
  | result (cmd : ParsedCommand) (result : CommandResult)
  | authenticated (result : CommandResult)
  | startTls (result : CommandResult)
  | authLine
  | sendLiteral (size : Nat)
  | recvClientLiteral (size : Nat)
  | continued (rsp : UntaggedResponse)
  deriving DecidableEq

/-- Where the relay is; the streams that an inner future works on are lent to it. -/
inductive RelayAt (χ ω : Type) where
  | top
  | select
  | pollCmd (more : Bool)
  | pollRsp (more : Bool)
  | tick
  | cmdLine (line : Bytes)
  | rspLine (line : Bytes)
  | recvAuthLine
  | sendUps (w : WriteAllFlush ω) (next : AfterUps)
  | sendClt (w : WriteAllFlush χ) (next : AfterClt)
  | clientLiteral (u : Upload ω)
  | serverLiteral (u : Upload χ)
  deriving DecidableEq

/-- `ImapInterceptObject`, the relay buffers of the given sizes and the four streams. -/
structure Relay (cmdCap rspCap : Nat) (χ ω : Type) where
  fromStarttls : Bool
  mailboxSelected : Bool := false
  cmdPipeline : CommandPipeline := {}
  cmdRecvBuf : LineRecvBuf cmdCap := .new
  rspRecvBuf : LineRecvBuf rspCap := .new
  cltR : Source
  cltW : χ
  upsR : Source
  upsW : ω
  order : List Branch := []
  icap : List IcapAnswer := []
  mode : Mode
  inLoop : RelayLoop := .main
  pc : RelayAt χ ω := .top

namespace Relay

variable {cmdCap rspCap : Nat} {χ ω : Type}

abbrev Step (cmdCap rspCap : Nat) (χ ω : Type) :=
  Ctrl (Relay cmdCap rspCap χ ω) (Poll (Except ServerTaskError Outcome))

variable (s : Relay cmdCap rspCap χ ω)

def fail (e : ServerTaskError) : Step cmdCap rspCap χ ω :=
  .ret (.ready (.error e)) s

def finish (o : Outcome) : Step cmdCap rspCap χ ω :=
  .ret (.ready (.ok o)) s

def goto (pc : RelayAt χ ω) : Step cmdCap rspCap χ ω :=
  .next { s with pc := pc }

def recvCmdLineError : RecvLineError → ServerTaskError
  | .ioError e => .clientTcpReadFailed e
  | .ioClosed => .closedByClient
  | .lineTooLong => .invalidClientProtocol (ascii "too long IMAP command line")

def recvRspLineError : RecvLineError → ServerTaskError
  | .ioError e => .upstreamReadFailed e
  | .ioClosed => .closedByUpstream
  | .lineTooLong => .invalidUpstreamProtocol (ascii "too long IMAP response line")

def invalidCommandLine (e : CommandLineError) : ServerTaskError :=
  .clientAppError (ascii "invalid IMAP command line: " ++ e.text)

def sendUps (line : Bytes) (next : AfterUps) :
    Step cmdCap rspCap χ ω :=
  s.goto (.sendUps ⟨line, s.upsW⟩ next)

def sendClt (line : Bytes) (next : AfterClt) :
    Step cmdCap rspCap χ ω :=
  s.goto (.sendClt ⟨line, s.cltW⟩ next)

/-! ### Literals -/

/-- The end of `relay_client_literal`: the buffered part and the copy behind it. -/
def sendClientLiteral (size : Nat) : Step cmdCap rspCap χ ω :=
  match s.cmdRecvBuf.consumeLine.consumeLeft size with
  | (cached, buf) =>
    .next { s with
      cmdRecvBuf := buf
      pc := .clientLiteral (.writeAll cached (size - cached.length) s.cltR s.upsW) }

/-- The literal of APPEND may go to an ICAP server. -/
def relayClientLiteral (size : Nat) : Step cmdCap rspCap χ ω :=
  match s.cmdPipeline.ongoingCommand with
  | none =>
    s.fail (.internalServerError
      (ascii "no ongoing IMAP command set while transferring literal data"))
  | some cmd =>
    if cmd.parsed = .append then
      match s.icap with
      | .ready :: icap => { s with icap := icap }.finish .adapted
      | .failed false :: icap => { s with icap := icap }.fail .internalAdapterError
      | _ :: icap => { s with icap := icap }.sendClientLiteral size
      | [] => s.sendClientLiteral size
    else s.sendClientLiteral size

def relayServerLiteral (size : Nat) : Step cmdCap rspCap χ ω :=
  match s.rspRecvBuf.consumeLine.consumeLeft size with
  | (cached, buf) =>
    .next { s with
      rspRecvBuf := buf
      pc := .serverLiteral (.writeAll cached (size - cached.length) s.upsR s.cltW) }

/-! ### Behind a line that was sent -/

/-- Back to the main loop. -/
def toMain : Relay cmdCap rspCap χ ω :=
  { s with inLoop := .main, pc := .top }

/-- What follows a line sent to the server. -/
def afterUps (next : AfterUps) : Step cmdCap rspCap χ ω :=
  match next with
  | .loop => s.goto .top
  | .logout => s.finish .clientClose
  | .authenticate => .next { s with inLoop := .authenticate, pc := .top }
  | .startTls => .next { s with inLoop := .startTls, pc := .top }
  | .idle => .next { s with inLoop := .idle, pc := .top }
  | .idleDone => .next s.toMain
  | .sendLiteral size => s.relayClientLiteral size
  | .continued cmd =>
    match cmd.literalArg with
    | some literal =>
      let s := { s with cmdPipeline := s.cmdPipeline.setOngoingCommand cmd }
      if literal.waitContinuation then s.goto .top else s.relayClientLiteral literal.size
    | none => { s with cmdPipeline := s.cmdPipeline.insertCompleted cmd }.goto .top

/-- The state of the connection behind the result of a command. -/
def withResult (cmd : ParsedCommand) (result : CommandResult) : Relay cmdCap rspCap χ ω :=
  if result = .success then
    match cmd with
    | .login => { s with mode := .authenticated }
    | .select | .examine => { s with mailboxSelected := true }
    | .close | .unselect => { s with mailboxSelected := false }
    | _ => s
  else s

/-- What follows a line sent to the client. -/
def afterClt (next : AfterClt) : Step cmdCap rspCap χ ω :=
  match next with
  | .loop => s.goto .top
  | .close => s.finish .serverClose
  | .result cmd result => (s.withResult cmd result).goto .top
  | .authenticated result =>
    let mode := if result = .success then .authenticated else s.mode
    .next { s with mode := mode, inLoop := .main, pc := .top }
  | .startTls result => if result = .success then s.finish .startTls else .next s.toMain
  | .authLine => .next { s with cmdRecvBuf := s.cmdRecvBuf.consumeLine, pc := .recvAuthLine }
  | .sendLiteral size => s.relayServerLiteral size
  | .recvClientLiteral size => s.relayClientLiteral size
  | .continued rsp =>
    match rsp.literalData with
    | some size =>
      -- IDLE forgets that the response goes on
      if s.inLoop = .idle then s.relayServerLiteral size
      else
        { s with cmdPipeline := s.cmdPipeline.setOngoingResponse rsp }.relayServerLiteral size
    | none => s.goto .top

/-! ### Command lines -/

variable (cmd : Command)

/-- `reply_invalid_command`; control bytes of the tag are blanked. -/
def replyInvalidCommand : Step cmdCap rspCap χ ω :=
  let tag := cmd.tag.map fun b => if b < 32 ∨ b = 127 then 32 else b
  s.sendClt (tag ++ ascii " BAD invalid command\r\n") .loop

/-- The command is complete, its line is sent on. -/
def forwardCompleted (line : Bytes) (next : AfterUps) : Step cmdCap rspCap χ ω :=
  { s with cmdPipeline := s.cmdPipeline.insertCompleted cmd }.sendUps line next

/-- The line is sent on, and a literal behind it belongs to the command. -/
def forwardWithLiteral (line : Bytes) : Step cmdCap rspCap χ ω :=
  match cmd.literalArg with
  | some literal =>
    { s with cmdPipeline := s.cmdPipeline.setOngoingCommand cmd }.sendUps line
      (if literal.waitContinuation then .loop else .sendLiteral literal.size)
  | none => s.forwardCompleted cmd line .loop

/-- Commands before the login. -/
def handleNotAuthenticatedCmd (line : Bytes) : Step cmdCap rspCap χ ω :=
  match cmd.parsed with
  | .capability | .noOperation | .id => s.forwardCompleted cmd line .loop
  | .logout => s.forwardCompleted cmd line .logout
  | .startTls =>
    if s.fromStarttls then s.replyInvalidCommand cmd else s.forwardCompleted cmd line .startTls
  | .auth => s.forwardCompleted cmd line .authenticate
  | .login => s.forwardWithLiteral cmd line
  | _ => s.replyInvalidCommand cmd

/-- `handle_enable_command`: the unsupported capabilities are taken out of the line. A line with
    less than two words panics. -/
def handleEnableCommand (line : Bytes) : Step cmdCap rspCap χ ω :=
  if validUtf8 line then
    match splitWhitespace (trimEnd line) with
    | tag :: name :: items =>
      match supportedItems false items with
      | [] => s.sendClt (tag ++ ascii " OK no enabled\r\n") .loop
      | caps =>
        s.forwardCompleted cmd
          (tag ++ ascii " " ++ name ++ caps.flatMap (ascii " " ++ ·) ++ ascii "\r\n") .loop
    | _ => s.fail (.internalServerError (ascii "called `Option::unwrap()` on a `None` value"))
  else s.fail (invalidCommandLine .invalidUtf8Command)

/-- Commands for which no mailbox has to be selected. -/
def anyMailbox (c : ParsedCommand) : Bool :=
  c ∈ [.select, .examine, .namespace, .create, .delete, .rename, .subscribe, .unsubscribe, .list,
    .lsub, .status, .append, .language, .comparator, .getQuota, .getQuotaRoot, .setQuota, .setAcl,
    .getAcl, .deleteAcl, .listRights, .myRights, .conversions, .convert, .getMetadata,
    .setMetadata, .notify, .resetKey, .urlFetch, .genUrlAuth]

/-- Commands on the selected mailbox. -/
def onMailbox (c : ParsedCommand) : Bool :=
  c ∈ [.close, .unselect, .expunge, .search, .fetch, .store, .copy, .move, .uid, .cancelUpdate,
    .sort, .thread, .esearch]

/-- Commands behind the login. -/
def handleAuthenticatedCmd (line : Bytes) : Step cmdCap rspCap χ ω :=
  match cmd.parsed with
  | .capability | .noOperation | .id => s.forwardCompleted cmd line .loop
  | .logout => s.forwardCompleted cmd line .logout
  | .startTls | .auth | .login => s.replyInvalidCommand cmd
  | .enable => s.handleEnableCommand cmd line
  | .idle => { s with cmdPipeline := s.cmdPipeline.setOngoingCommand cmd }.sendUps line .idle
  | parsed =>
    if anyMailbox parsed then s.forwardWithLiteral cmd line
    else if onMailbox parsed then
      if s.mailboxSelected then s.forwardWithLiteral cmd line else s.replyInvalidCommand cmd
    else s.replyInvalidCommand cmd

section

variable [TextFunctions] [AtoiRadix10]

/-- A line of the client in the main loop. -/
def handleCmdLine (line : Bytes) : Step cmdCap rspCap χ ω :=
  match s.cmdPipeline.ongoingCommand with
  | some cmd =>
    let s := { s with cmdPipeline := s.cmdPipeline.withoutOngoingCommand }
    match cmd.parseContinueLine line with
    | .ok cmd => s.sendUps line (.continued cmd)
    | .error e => s.fail (invalidCommandLine e)
  | none =>
    match Command.parseLine line with
    | .error e => s.fail (invalidCommandLine e)
    | .ok cmd =>
      match s.mode with
      | .notAuthenticated => s.handleNotAuthenticatedCmd cmd line
      | .authenticated => s.handleAuthenticatedCmd cmd line

/-- The line that ends IDLE. -/
def handleIdleLine (line : Bytes) : Step cmdCap rspCap χ ω :=
  if line = ascii "DONE\r\n" then s.sendUps line .idleDone
  else s.fail (.clientAppError (ascii "invalid IMAP IDLE ending line"))

/-! ### Response lines -/

def invalidResponseLine (e : ResponseLineError) : ServerTaskError :=
  .upstreamAppError (ascii "invalid IMAP response line: " ++ e.text)

/-- `write_capability_response` -/
def writeCapabilityResponse (line : Bytes) (next : AfterClt) : Step cmdCap rspCap χ ω :=
  if validUtf8 line then
    let head := ascii "* CAPABILITY "
    let orig := trimEnd line
    if eqIgnoreCase (orig.take head.length) head then
      let caps := supportedItems false (((orig.drop head.length).splitOn 32).filter (· ≠ []))
      s.sendClt (ascii "* CAPABILITY" ++ caps.flatMap (ascii " " ++ ·) ++ ascii "\r\n") next
    else
      s.fail (.upstreamAppError (ascii "invalid IMAP CAPABILITY response line prefix"))
  else s.fail (invalidResponseLine .invalidUtf8Response)

/-- `write_enabled_response`: a line of which nothing is left is not sent. -/
def writeEnabledResponse (line : Bytes) (next : AfterClt) : Step cmdCap rspCap χ ω :=
  if validUtf8 line then
    match splitWhitespace (trimEnd line) with
    | tag :: name :: items =>
      match supportedItems false items with
      | [] => s.afterClt next
      | caps =>
        s.sendClt (tag ++ ascii " " ++ name ++ caps.flatMap (ascii " " ++ ·) ++ ascii "\r\n") next
    | _ => s.fail (.internalServerError (ascii "called `Option::unwrap()` on a `None` value"))
  else s.fail (invalidResponseLine .invalidUtf8Response)

def unexpectedTag (tag : Bytes) : ServerTaskError :=
  .upstreamAppError (ascii "unexpected IMAP command result for tag " ++ tag)

/-- The line of command data, some of which is filtered. -/
def writeCommandData (line : Bytes) (kind : CommandData)
    (next : AfterClt) : Step cmdCap rspCap χ ω :=
  match kind with
  | .capability => s.writeCapabilityResponse line next
  | .enabled => s.writeEnabledResponse line next
  | _ => s.sendClt line next

/-- Data of a command; its literal is relayed behind the line. -/
def handleCommandData (line : Bytes) (d : UntaggedResponse) : Step cmdCap rspCap χ ω :=
  match d.literalData with
  | some size =>
    { s with cmdPipeline := s.cmdPipeline.setOngoingResponse d }.writeCommandData line
      d.commandData (.sendLiteral size)
  | none => s.writeCommandData line d.commandData .loop

/-- A continuation request of the server. -/
def handleContinuation (line : Bytes) : Step cmdCap rspCap χ ω :=
  match s.cmdPipeline.ongoingCommand with
  | none =>
    s.fail (.upstreamAppError
      (ascii "no ongoing IMAP command found when received continuation request"))
  | some cmd =>
    if cmd.parsed = .idle then s.sendClt line .loop
    else
      match cmd.literalArg with
      | none => s.fail (.upstreamAppError (ascii "unexpected IMAP continuation request"))
      | some literal => s.sendClt line (.recvClientLiteral literal.size)

/-- The first line of a response. -/
def handleRspLine (line : Bytes) : Step cmdCap rspCap χ ω :=
  match Response.parseLine line with
  | .error e => s.fail (invalidResponseLine e)
  | .ok (.commandResult r) =>
    match s.cmdPipeline.remove r.tag with
    | (none, _) => s.fail (unexpectedTag r.tag)
    | (some cmd, pipeline) =>
      { s with cmdPipeline := pipeline }.sendClt line (.result cmd.parsed r.result)
  | .ok (.serverStatus .close) => s.sendClt line .close
  | .ok (.serverStatus _) => s.sendClt line .loop
  | .ok (.commandData d) => s.handleCommandData line d
  | .ok .continuationRequest => s.handleContinuation line

/-- A response line in the main loop or in IDLE. -/
def handleRsp (line : Bytes) : Step cmdCap rspCap χ ω :=
  match s.mode, s.cmdPipeline.ongoingResponse with
  | .authenticated, some rsp =>
    let s := { s with cmdPipeline := s.cmdPipeline.withoutOngoingResponse }
    match rsp.parseContinueLine line with
    | .ok rsp => s.sendClt line (.continued rsp)
    | .error e => s.fail (.clientAppError (ascii "invalid IMAP command line: " ++ e.text))
  | _, _ => s.handleRspLine line

/-- The command that a result is for, when it is not `cmd`: AUTHENTICATE shows the command itself. -/
def unexpectedResult (cmd : ParsedCommand) (name : Bytes) (c : Command) : Bytes :=
  if cmd = .auth then ascii "command " ++ c.display else name ++ ascii " command"

/-- A response line while AUTHENTICATE or STARTTLS (`cmd`, under its `name`) waits for its result. -/
def handleRspOf (cmd : ParsedCommand) (name : Bytes)
    (done : CommandResult → AfterClt) (line : Bytes) : Step cmdCap rspCap χ ω :=
  match Response.parseLine line with
  | .error e =>
    s.fail (.upstreamAppError (ascii "invalid IMAP " ++ name ++ ascii " response line: " ++ e.text))
  | .ok (.commandResult r) =>
    match s.cmdPipeline.remove r.tag with
    | (none, _) => s.fail (unexpectedTag r.tag)
    | (some c, pipeline) =>
      let s := { s with cmdPipeline := pipeline }
      if c.parsed = cmd then s.sendClt line (done r.result)
      else
        s.fail (.upstreamAppError (ascii "unexpected IMAP command result for "
          ++ unexpectedResult cmd name c))
  | .ok (.serverStatus .close) => s.sendClt line .close
  | .ok (.serverStatus _) => s.sendClt line .loop
  | .ok (.commandData d) =>
    if d.commandData = .capability then s.writeCapabilityResponse line .loop
    else s.sendClt line .loop
  | .ok .continuationRequest =>
    if cmd = .auth then s.sendClt line .authLine
    else
      s.fail (.upstreamAppError (ascii "unexpected IMAP continuation request response for "
        ++ name ++ ascii " command"))

/-- A response line, by the loop that reads it. -/
def handleRspIn (line : Bytes) : Step cmdCap rspCap χ ω :=
  match s.inLoop with
  | .main | .idle => s.handleRsp line
  | .authenticate => s.handleRspOf .auth (ascii "AUTHENTICATE") .authenticated line
  | .startTls => s.handleRspOf .startTls (ascii "STARTTLS") .startTls line

end

/-! ### The loop -/

/-- Consume the lines that were handled. -/
def nextRound : Step cmdCap rspCap χ ω :=
  match s.inLoop with
  | .main | .idle =>
    .next { s with
      cmdRecvBuf := s.cmdRecvBuf.consumeLine
      rspRecvBuf := s.rspRecvBuf.consumeLine
      pc := .select }
  | .authenticate | .startTls =>
    .next { s with rspRecvBuf := s.rspRecvBuf.consumeLine, pc := .pollRsp false }

/-- Which branch comes first; there is no timer before the client is authenticated. -/
def chooseBranch : Step cmdCap rspCap χ ω :=
  match s.order with
  | [] => s.goto (.pollCmd true)
  | .client :: order => { s with order := order }.goto (.pollCmd true)
  | .upstream :: order => { s with order := order }.goto (.pollRsp true)
  | .tick :: order =>
    { s with order := order }.goto (if s.mode = Mode.authenticated then .tick else .pollCmd true)

/-- A poll of the client branch; when it is pending the other branch is polled, or the task waits. -/
def pollCmd (more : Bool) : Step cmdCap rspCap χ ω :=
  match LineRecvBuf.readLine (s.cmdRecvBuf, s.cltR) with
  | .next (b, r) => .next { s with cmdRecvBuf := b, cltR := r }
  | .ret .pending (b, r) =>
    let s := { s with cmdRecvBuf := b, cltR := r }
    if more then s.goto (.pollRsp false) else .ret .pending { s with pc := .select }
  | .ret (.ready (.error e)) (b, r) => { s with cmdRecvBuf := b, cltR := r }.fail (recvCmdLineError e)
  | .ret (.ready (.ok line)) (b, r) => { s with cmdRecvBuf := b, cltR := r }.goto (.cmdLine line)

/-- A poll of the server branch; in the inner loops it is the only one. -/
def pollRsp (more : Bool) : Step cmdCap rspCap χ ω :=
  match LineRecvBuf.readLine (s.rspRecvBuf, s.upsR) with
  | .next (b, r) => .next { s with rspRecvBuf := b, upsR := r }
  | .ret .pending (b, r) =>
    let s := { s with rspRecvBuf := b, upsR := r }
    match s.inLoop with
    | .main | .idle =>
      if more then s.goto (.pollCmd false) else .ret .pending { s with pc := .select }
    | _ => .ret .pending s
  | .ret (.ready (.error e)) (b, r) => { s with rspRecvBuf := b, upsR := r }.fail (recvRspLineError e)
  | .ret (.ready (.ok line)) (b, r) => { s with rspRecvBuf := b, upsR := r }.goto (.rspLine line)

def copyError (read write : IoError → ServerTaskError) : StreamCopyError → ServerTaskError
  | .readFailed e => read e
  | .writeFailed e => write e

/-- The buffered part of a literal for the client is written and flushed as if to the server. -/
def serverLiteralError (u : Upload χ) : StreamCopyError → ServerTaskError :=
  copyError .upstreamReadFailed
    (match u with
    | .copy _ => .clientTcpWriteFailed
    | _ => .upstreamWriteFailed)

section

variable [TextFunctions] [AtoiRadix10] [AsyncWrite χ] [AsyncWrite ω]

/-- One step of the relay. -/
def step (s : Relay cmdCap rspCap χ ω) : Step cmdCap rspCap χ ω :=
  match s.pc with
  | .top => s.nextRound
  | .select => s.chooseBranch
  | .pollCmd more => s.pollCmd more
  | .pollRsp more => s.pollRsp more
  | .tick => s.goto .top
  | .cmdLine line => if s.inLoop = .idle then s.handleIdleLine line else s.handleCmdLine line
  | .rspLine line => s.handleRspIn line
  | .recvAuthLine =>
    (LineRecvBuf.readLine (s.cmdRecvBuf, s.cltR)).await
      (fun p => { s with cmdRecvBuf := p.1, cltR := p.2 }) recvCmdLineError
      fun line p => { s with cmdRecvBuf := p.1, cltR := p.2 }.sendUps line .loop
  | .sendUps w next =>
    w.poll.await (fun w => { s with upsW := w.writer, pc := .sendUps w next })
      .upstreamWriteFailed fun _ w => { s with upsW := w.writer }.afterUps next
  | .sendClt w next =>
    w.poll.await (fun w => { s with cltW := w.writer, pc := .sendClt w next })
      .clientTcpWriteFailed fun _ w => { s with cltW := w.writer }.afterClt next
  | .clientLiteral u =>
    (u.poll {}).await (fun u => { s with cltR := u.reader, upsW := u.writer, pc := .clientLiteral u })
      (copyError .clientTcpReadFailed .upstreamWriteFailed)
      fun _ u => { s with cltR := u.reader, upsW := u.writer }.goto .top
  | .serverLiteral u =>
    (u.poll {}).await (fun u => { s with upsR := u.reader, cltW := u.writer, pc := .serverLiteral u })
      (serverLiteralError u)
      fun _ u => { s with upsR := u.reader, cltW := u.writer }.goto .top

/-- A further poll of the copy inside. -/
def enter : Relay cmdCap rspCap χ ω :=
  match s.pc with
  | .clientLiteral u => { s with pc := .clientLiteral u.enter }
  | .serverLiteral u => { s with pc := .serverLiteral u.enter }
  | _ => s

/-- The relay as a future. -/
def future (cmdCap rspCap : Nat) (χ ω : Type) [AsyncWrite χ] [AsyncWrite ω] :
    Future (Relay cmdCap rspCap χ ω) (Except ServerTaskError Outcome) := ⟨enter, step⟩

end

end Relay

end Vey.Imap

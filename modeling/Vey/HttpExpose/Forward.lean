import Vey.Http.BodyOwn
import Vey.Http.ProxyRequest
import Vey.IoExt.StreamCopy
import Vey.Serve.TaskError

/-! `HttpExposeForwardTask`: forward one HTTP/1 request to an upstream of its site.

        run_forward
          alive connection --> run_with_connection --Err, retry_new_connection--+
          none ---------------------------------------------+                   |
                                                            v                   v
                                            get_new_connection --> run_with_connection

        run_with_connection
          no body              --> run_without_body
          expect, nothing read --> run_with_body(None)
          all read at once     --> run_with_all_body        --reused, retry--> get_new_connection
          some read            --> run_with_body(Some(buf)) --reused, retry--> get_new_connection

    A reconnect is made in three places, which share the flags `reused_connection` and
    `retry_new_connection`. The task is one future; an `await` on a connection, on the client or
    on a timer takes its outcome from scripts, so a run stands for any sequence of outcomes. -/

namespace Vey.HttpExpose
open Schemes IoExt Http Serve

structure HttpForwardRemoteResponse where
  code : Nat
  keepAlive : Bool := true

/-- What comes next on the reading side of a connection to the upstream. -/
inductive UpsEvent where
  /-- nothing yet -/
  | stall
  /-- `size` bytes, which are read as a response header or rejected -/
  | header (size : Nat) (r : Except ServerTaskError HttpForwardRemoteResponse)
  | closed
  | failed (e : IoError)
  /-- a timer of the task runs out before anything comes -/
  | tick (e : ServerTaskError)

section

variable [HttpTypes]

/-- `BoxHttpForwardConnection` -/
structure Connection (ω : Type) where
  /-- the request header as this connection's writer puts it on the wire -/
  serialize : HttpProxyClientRequest → Bytes
  writer : ω
  events : List UpsEvent
  /-- how it ends to pass the response of this connection on to the client -/
  relayed : Except ServerTaskError Unit

def Connection.tap {ω : Type} (c : Connection ω) : Connection (Tapped ω) :=
  { c with writer := Schemes.tap c.writer }

/-- The answer of `fill_wait_data`: is there data, or has the upstream closed? -/
def Connection.fillWaitData {ω : Type} (c : Connection ω) : IoPoll Bool × Connection ω :=
  match c.events with
  | [] => (.pending, c)
  | .stall :: es => (.pending, { c with events := es })
  | .tick _ :: _ => (.pending, c)
  | .header _ _ :: _ => (.ready (.ok true), c)
  | .closed :: _ => (.ready (.ok false), c)
  | .failed e :: _ => (.ready (.error e), c)

/-- What the client is sent; the last three are final responses. -/
inductive Reply where
  | informational (code : Nat)
  | response (code : Nat)
  | connectErr (e : TcpConnectError)
  | taskErr (e : ServerTaskError)
  deriving DecidableEq

def Reply.isFinal : Reply → Bool
  | .informational _ => false
  | _ => true

/-- `from_task_err` finds a response to this error. -/
def hasResponse : ServerTaskError → Bool
  | .clientTcpReadFailed _ => false
  | .clientTcpWriteFailed _ => false
  | .closedByClient => false
  | _ => true

/-- Which function sends the request, with what it has of the body. -/
inductive Sending where
  /-- `run_without_body` -/
  | noBody
  /-- `run_with_all_body` -/
  | allBody (body : Bytes)
  /-- `run_with_body` -/
  | body (fastReadBuf : Option Bytes) (cltBodyReader : HttpBodyReader)

/-- What `send_request_header` writes. -/
def Sending.data (header : Bytes) : Sending → Bytes
  | .allBody b => header ++ b
  | _ => header

/-- The copy of `run_with_body`. -/
def cltToUps {ω : Type} (config : StreamCopyConfig) (r : HttpBodyReader) (w : ω) :
    Option Bytes → StreamCopy HttpBodyReader ω
  | some buf => .withData r w config ⟨buf, buf.length, Nat.le_refl _⟩
  | none => .new r w config

/-- Where `get_new_connection` was called. -/
inductive Caller where
  | runForward
  /-- the loop of `run_with_all_body` -/
  | withAllBody (body : Bytes)
  /-- the loop of `run_with_connection` -/
  | withBody (buf : Bytes) (cltBodyReader : HttpBodyReader)

/-- Where the task is, with its local variables. -/
inductive ForwardAt (ω : Type) where
  | start
  | connect (caller : Caller)
  | run (upsC : Connection (Tapped ω))
  | readAllNow (upsC : Connection (Tapped ω)) (reader : HttpBodyReader) (buf : Bytes)
  | send (upsC : Connection (Tapped ω)) (how : Sending) (offset : Nat)
  | flush (upsC : Connection (Tapped ω)) (how : Sending)
  | select (upsC : Connection (Tapped ω)) (fast : Option Bytes)
      (cltToUps : StreamCopy HttpBodyReader (Tapped ω))
  | copy (upsC : Connection (Tapped ω)) (fast : Option Bytes)
      (cltToUps : StreamCopy HttpBodyReader (Tapped ω)) (tick : Option ServerTaskError)
  | recvFinal (upsC : Connection (Tapped ω)) (how : Sending)
  | respond (upsC : Connection (Tapped ω)) (how : Sending) (rsp : HttpForwardRemoteResponse)
  /-- `run_with_connection` has returned an error -/
  | fail (e : ServerTaskError)
  | done (r : Except ServerTaskError Unit)

structure Config where
  bodyLineMaxLen : Nat
  tcpCopy : StreamCopyConfig

structure HttpExposeForwardTask (ω : Type) where
  req : HttpProxyClientRequest
  config : Config
  cltR : Option Source
  /-- what `take_alive_origin_connection` finds -/
  alive : Option (Connection ω)
  /-- the outcomes of the connects to come -/
  connects : List (Except TcpConnectError (Connection ω))
  /-- the outcomes of the writes of informational responses to come -/
  cltW : List (Except IoError Unit)
  reusedConnection : Bool := false
  retryNewConnection : Bool := false
  sendErrorResponse : Bool := true
  allowContinue : Bool
  shouldClose : Bool := false
  /-- the call of `run_with_connection` that ends `run_forward` is made -/
  renewed : Bool := false
  /-- `task_stats.ups.read` -/
  upsRead : Nat := 0
  /-- what the client was sent -/
  replies : List Reply := []
  /-- the connections that the request was given to, the current one apart -/
  used : List (Connection (Tapped ω)) := []
  pc : ForwardAt ω := .start

namespace HttpExposeForwardTask

variable {ω : Type}

def new (req : HttpProxyClientRequest) (config : Config) (cltR : Option Source)
    (alive : Option (Connection ω)) (connects : List (Except TcpConnectError (Connection ω)))
    (cltW : List (Except IoError Unit)) : HttpExposeForwardTask ω :=
  { req, config, cltR, alive, connects, cltW, allowContinue := req.head.expect100Continue }

abbrev Step (ω : Type) :=
  Ctrl (HttpExposeForwardTask ω) (Poll (Except ServerTaskError Unit))

variable (t : HttpExposeForwardTask ω)

def goto (pc : ForwardAt ω) : Step ω := .next { t with pc := pc }

def wait (pc : ForwardAt ω) : Step ω :=
  .ret .pending { t with pc := pc }

variable (c : Connection (Tapped ω))

/-- `ups_c` is dropped, or kept for another request. -/
def leave : HttpExposeForwardTask ω :=
  { t with used := t.used ++ [c] }

def reply (r : Reply) : HttpExposeForwardTask ω :=
  { t with replies := t.replies ++ [r] }

/-- `n` bytes came from the upstream. -/
def countRead (n : Nat) : HttpExposeForwardTask ω :=
  { t with upsRead := t.upsRead + n }

/-- The body reader gives the client's stream back. -/
def giveBack (r : HttpBodyReader) : HttpExposeForwardTask ω :=
  { t with cltR := some r.stream }

/-- The request is sent from the start: `send_full_req_and_recv_rsp` and the other two begin so. -/
def sendOn (how : Sending) : Step ω :=
  goto { t with retryNewConnection := true } (.send c how 0)

/-- A sending function has failed: its caller retries on a new connection or gives up. -/
def raise (how : Sending) (e : ServerTaskError) : Step ω :=
  let t := t.leave c
  match how with
  | .noBody => t.goto (.fail e)
  | .body none r => (t.giveBack r).goto (.fail e)
  | .allBody body =>
    if t.reusedConnection && t.retryNewConnection then
      { t with upsRead := 0 }.goto (.connect (.withAllBody body))
    else { t with retryNewConnection := false }.goto (.fail e)
  | .body (some buf) r =>
    if t.reusedConnection && t.retryNewConnection then
      { t with upsRead := 0 }.goto (.connect (.withBody buf r))
    else { t.giveBack r with retryNewConnection := false }.goto (.fail e)

/-- The last lines of `run_forward` for an error. -/
def giveUp (e : ServerTaskError) : Step ω :=
  let t := { t with shouldClose := true }
  if t.sendErrorResponse && hasResponse e then (t.reply (.taskErr e)).goto (.done (.error e))
  else t.goto (.done (.error e))

/-- `get_new_connection` -/
def getNewConnection (caller : Caller) : Step ω :=
  match t.connects with
  | [] => t.wait (.connect caller)
  | .ok c :: cs =>
    let t := { t with connects := cs, reusedConnection := false }
    match caller with
    | .runForward => { t with renewed := true }.goto (.run c.tap)
    | .withAllBody body => t.sendOn c.tap (.allBody body)
    | .withBody buf r => t.sendOn c.tap (.body (some buf) r)
  | .error e :: cs =>
    let t := ({ t with connects := cs, reusedConnection := false, shouldClose := true }
      : HttpExposeForwardTask ω).reply (.connectErr e)
    match caller with
    | .runForward => t.goto (.done (.error (.tcpConnect e)))
    | .withAllBody _ => t.goto (.fail (.tcpConnect e))
    | .withBody _ r => (t.giveBack r).goto (.fail (.tcpConnect e))

/-- `send_response_header`, for an informational response. -/
def sendResponseHeader (rsp : HttpForwardRemoteResponse) :
    Except ServerTaskError Unit × HttpExposeForwardTask ω :=
  match t.cltW with
  | [] => (.ok (), t.reply (.informational rsp.code))
  | .ok () :: rs => (.ok (), { t with cltW := rs }.reply (.informational rsp.code))
  | .error e :: rs => (.error (.clientTcpWriteFailed e), { t with cltW := rs })

/-- `check_out_final_response`: informational responses are passed on at once. -/
def checkOutFinalResponse (hdr : HttpForwardRemoteResponse) :
    Except ServerTaskError (Option HttpForwardRemoteResponse) × HttpExposeForwardTask ω :=
  if hdr.code = 100 then
    if t.allowContinue then
      match t.sendResponseHeader hdr with
      | (.ok (), t) => (.ok none, { t with allowContinue := false })
      | (.error e, t) => (.error e, t)
    else (.error (.upstreamAppError (ascii "invalid 100-continue response")), t)
  else if hdr.code = 102 ∨ hdr.code = 103 then
    match t.sendResponseHeader hdr with
    | (.ok (), t) => (.ok none, t)
    | (.error e, t) => (.error e, t)
  else (.ok (some hdr), t)

/-- The flag after a response header could not be received. -/
def afterRecvErr (how : Sending) (e : ServerTaskError) : HttpExposeForwardTask ω :=
  match how with
  | .body _ _ => t
  | _ =>
    let retry := if t.upsRead = 0 then
        match e with
        | .closedByUpstream => true
        | .upstreamReadFailed _ => true
        | _ => false
      else false
    { t with retryNewConnection := retry }

/-- `recv_final_response_header` under its timeout. -/
def recvFinalResponseHeader (how : Sending) : Step ω :=
  let err (t : HttpExposeForwardTask ω) (c : Connection (Tapped ω)) (e : ServerTaskError) : Step ω :=
    (t.afterRecvErr how e).raise c how e
  match c.events with
  | [] => t.wait (.recvFinal c how)
  | .stall :: es => t.wait (.recvFinal { c with events := es } how)
  | .closed :: _ => err t c .closedByUpstream
  | .failed e :: _ => err t c (.upstreamReadFailed e)
  | .tick _ :: _ =>
    err t c (.upstreamAppTimeout (ascii "timeout to receive response header"))
  | .header size r :: es =>
    let c := { c with events := es }
    let t := t.countRead size
    match r with
    | .error e => err t c e
    | .ok hdr =>
      match t.checkOutFinalResponse hdr with
      | (.error e, t) => err t c e
      | (.ok none, t) => t.goto (.recvFinal c how)
      | (.ok (some hdr), t) =>
        match how with
        | .body _ _ => t.goto (.respond c how hdr)
        | _ => { t with retryNewConnection := false }.goto (.respond c how hdr)

/-- The final response is sent, so no error is replied to from now on. -/
def answer (rsp : HttpForwardRemoteResponse) : HttpExposeForwardTask ω :=
  ({ t with sendErrorResponse := false, shouldClose := t.shouldClose || !rsp.keepAlive }
    : HttpExposeForwardTask ω).reply (.response rsp.code)

/-- `send_response`, and what follows it. -/
def sendResponse (how : Sending) (rsp : HttpForwardRemoteResponse) : Step ω :=
  let t := t.answer rsp
  match c.relayed, how with
  | .ok (), .body _ r => ((t.leave c).giveBack r).goto (.done (.ok ()))
  | .ok (), _ => (t.leave c).goto (.done (.ok ()))
  | .error e, .body _ _ => t.raise c how e
  -- the loop of `run_with_all_body` is left without a look at the flags
  | .error e, _ => (t.leave c).goto (.fail e)

section

variable [AtoiRadix16]

/-- The body is read as far as it is there: `read_all_now` has `nr` bytes in its buffer. -/
def afterReadAllNow (r : HttpBodyReader) (buf : Bytes) : Step ω :=
  if buf = [] then t.sendOn c (.body none r)
  else if r.finished then (t.giveBack r).sendOn c (.allBody buf)
  else t.sendOn c (.body (some buf) r)

/-- One round of `read_all_now`. It never waits. -/
def readAllNow (r : HttpBodyReader) (buf : Bytes) : Step ω :=
  if t.config.tcpCopy.bufferSize ≤ buf.length then t.afterReadAllNow c r buf
  else
    match r.pollRead (t.config.tcpCopy.bufferSize - buf.length) with
    | (.ready (.ok d), r) =>
      if buf ++ d = [] then ((t.leave c).giveBack r).goto (.fail .closedByClient)
      else if d = [] then t.afterReadAllNow c r buf
      else t.goto (.readAllNow c r (buf ++ d))
    | (.ready (.error e), r) => ((t.leave c).giveBack r).goto (.fail (.clientTcpReadFailed e))
    | (.pending, r) => t.afterReadAllNow c r buf

/-- `run_with_connection` up to its first `await` on the client. -/
def runWithConnection : Step ω :=
  let (idle, c) := if t.reusedConnection then c.fillWaitData else (.pending, c)
  match idle with
  | .ready r =>
    let e : ServerTaskError := match r with
      | .ok true => .upstreamAppError (ascii "unexpected data found when polling IDLE connection")
      | .ok false => .closedByUpstream
      | .error e => .upstreamReadFailed e
    ({ t with retryNewConnection := true }.leave c).goto (.fail e)
  | .pending =>
    match t.req.bodyType, t.cltR with
    | none, _ => t.sendOn c .noBody
    | some _, none => (t.leave c).goto
        (.fail (.internalServerError (ascii "http body is expected but no body reader supplied")))
    | some bodyType, some cltR =>
      let r := HttpBodyReader.new cltR bodyType t.config.bodyLineMaxLen
      if t.req.head.endToEndHeaders.any (·.1 == ascii "expect") then t.sendOn c (.body none r)
      else t.goto (.readAllNow c r [])

variable [AsyncWrite ω]

/-- `send_request_header`: the header, with the body behind it if it is all there, is offered to
    the writer until it is accepted. -/
def sendRequestHeader (how : Sending) (offset : Nat) : Step ω :=
  let data := how.data (c.serialize t.req)
  if data.length ≤ offset then t.goto (.flush c how)
  else
    match pollWrite c.writer (data.drop offset) with
    | (.pending, w) => t.wait (.send { c with writer := w } how offset)
    | (.ready (.error e), w) => t.raise { c with writer := w } how (.upstreamWriteFailed e)
    | (.ready (.ok 0), w) =>
      t.raise { c with writer := w } how (.upstreamWriteFailed ⟨.writeZero, "write zero"⟩)
    | (.ready (.ok n), w) => t.goto (.send { c with writer := w } how (offset + n))

/-- The flush behind the header; `run_with_body` then starts the copy. -/
def flushRequest (how : Sending) : Step ω :=
  match pollFlush c.writer with
  | (.pending, w) => t.wait (.flush { c with writer := w } how)
  | (.ready (.error e), w) => t.raise { c with writer := w } how (.upstreamWriteFailed e)
  | (.ready (.ok ()), w) =>
    let c := { c with writer := w }
    match how with
    | .body fast r =>
      { t with retryNewConnection := false }.goto (.select c fast (cltToUps t.config.tcpCopy r w fast))
    | _ => t.goto (.recvFinal c how)

variable (fast : Option Bytes) (cltToUps : StreamCopy HttpBodyReader (Tapped ω))

omit [AtoiRadix16] [AsyncWrite ω] in
/-- The loop of `run_with_body` is left with an error. -/
def stopCopy (e : ServerTaskError) : Step ω :=
  t.raise { c with writer := cltToUps.writer } (.body fast cltToUps.reader) e

/-- The first branch of the `select!` of `run_with_body`: the upstream is looked at before the
    copy. -/
def selectUpstream : Step ω :=
  let copying (c : Connection (Tapped ω)) (tick : Option ServerTaskError) : Step ω :=
    t.goto (.copy c fast cltToUps.enter tick)
  let closed (e : ServerTaskError) : Step ω :=
    -- `read_size`: nothing was read for the copy, so the body can be sent once more
    let retry := if cltToUps.buf.totalRead = 0 then true else t.retryNewConnection
    { t with retryNewConnection := retry }.stopCopy c fast cltToUps e
  match c.events with
  | [] => copying c none
  | .stall :: es => copying { c with events := es } none
  | .tick e :: es => copying { c with events := es } (some e)
  | .closed :: _ => closed .closedByUpstream
  | .failed e :: _ => closed (.upstreamReadFailed e)
  | .header size r :: es =>
    let c := { c with events := es }
    let t := t.countRead size
    match r with
    | .error e => t.stopCopy c fast cltToUps e
    | .ok hdr =>
      match t.checkOutFinalResponse hdr with
      | (.error e, t) => t.stopCopy c fast cltToUps e
      | (.ok none, t) => t.goto (.select c fast cltToUps)
      | (.ok (some hdr), t) =>
        { t with shouldClose := t.shouldClose || !cltToUps.reader.finished }.goto
          (.respond { c with writer := cltToUps.writer } (.body fast cltToUps.reader) hdr)

/-- The second branch: one step of the copy. Where it waits, the timers are looked at. -/
def selectCopy (tick : Option ServerTaskError) : Step ω :=
  match cltToUps.pollCopy with
  | .next cltToUps => t.goto (.copy c fast cltToUps tick)
  | .ret .pending cltToUps =>
    match tick with
    | none => t.wait (.select c fast cltToUps)
    | some e => t.stopCopy c fast cltToUps e
  | .ret (.ready (.ok _)) cltToUps =>
    t.goto (.recvFinal { c with writer := cltToUps.writer } (.body fast cltToUps.reader))
  | .ret (.ready (.error e)) cltToUps =>
    t.stopCopy c fast cltToUps (match e with
      | .readFailed e => .clientTcpReadFailed e
      | .writeFailed e => .upstreamWriteFailed e)

/-- One step of `run_forward`, from where an upstream is chosen. -/
def step : Step ω :=
  match t.pc with
  | .start =>
    match t.alive with
    | some c =>
      { t with alive := none, reusedConnection := true, retryNewConnection := false }.goto
        (.run c.tap)
    | none => t.goto (.connect .runForward)
  | .connect caller => t.getNewConnection caller
  | .run c => t.runWithConnection c
  | .readAllNow c r buf => t.readAllNow c r buf
  | .send c how offset => t.sendRequestHeader c how offset
  | .flush c how => t.flushRequest c how
  | .select c fast cltToUps => t.selectUpstream c fast cltToUps
  | .copy c fast cltToUps tick => t.selectCopy c fast cltToUps tick
  | .recvFinal c how => t.recvFinalResponseHeader c how
  | .respond c how rsp => t.sendResponse c how rsp
  | .fail e =>
    if !t.renewed && t.retryNewConnection then
      { t with upsRead := 0 }.goto (.connect .runForward)
    else t.giveUp e
  | .done r => .ret (.ready r) t

def future (ω : Type) [AsyncWrite ω] :
    Future (HttpExposeForwardTask ω) (Except ServerTaskError Unit) := ⟨id, (·.step)⟩

end

end HttpExposeForwardTask

end

end Vey.HttpExpose

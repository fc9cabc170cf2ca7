import Vey.Keyless.Protocol
import Vey.Schemes.Steps
import Vey.Schemes.Table

/-! One upstream connection of the keyless backend, shared by many requesters.

        requests --> send task --id n--> upstream --id n--> receive task --> requesters
                         |                                      |
                         +----> cur_cache --tick--> old_cache --+--tick--> timed out

    The send task registers a request under the next id and writes it; the receive task fetches the
    request that a response has the id of. When reading fails, the receive task first tells the send
    task and then drains what is registered. -/

namespace Vey.Keyless
open Schemes

/-- A request and the sending half of the `oneshot` channel of its requester. -/
structure KeylessForwardRequest where
  req : KeylessRequest
  rspSender : Nat
  deriving DecidableEq

/-- Who asked, and with which header. -/
structure CachedValue where
  reqHeader : KeylessHeader
  rspSender : Nat

/-- What a requester receives. -/
structure Reply where
  rspSender : Nat
  response : KeylessResponse
  deriving DecidableEq

namespace CachedValue

def sendUpstreamRsp (v : CachedValue) (rsp : KeylessUpstreamResponse) : Reply :=
  ⟨v.rspSender, .upstream (rsp.refresh v.reqHeader)⟩

def sendInternalError (v : CachedValue) : Reply := ⟨v.rspSender, .ofLocal (internalError v.reqHeader)⟩

end CachedValue

/-- The requests that wait, in two generations. -/
structure StreamState where
  curCache : Table UInt32 CachedValue := ∅
  oldCache : Table UInt32 CachedValue := ∅

namespace StreamState

variable (s : StreamState)

def addRequest (id : UInt32) (origHeader : KeylessHeader) (rspSender : Nat) : StreamState :=
  { s with curCache := s.curCache.insert id ⟨origHeader, rspSender⟩ }

/-- Takes the request with a message id. -/
def fetchRequest (id : UInt32) : Option CachedValue × StreamState :=
  match s.curCache.lookup id with
  | some v => (some v, { s with curCache := s.curCache.erase id })
  | none =>
    match s.oldCache.lookup id with
    | some v => (some v, { s with oldCache := s.oldCache.erase id })
    | none => (none, s)

def hasPending : Bool := !(s.curCache.entries.isEmpty && s.oldCache.entries.isEmpty)

/-- All values, and nothing is left. -/
def drain : List CachedValue × StreamState :=
  (s.curCache.values ++ s.oldCache.values, {})

/-- The values that have been there for two ticks. -/
def rotateTimeout : List CachedValue × StreamState :=
  (s.oldCache.values, ⟨∅, s.curCache⟩)

end StreamState

/-- Where the send task is: in its `select!`, with a request in hand, or writing it. -/
inductive SendAt where
  | idle
  | taken (data : KeylessForwardRequest)
  | writing (data : KeylessForwardRequest)
  | ended
  deriving DecidableEq

/-- Where the receive task is: in `run_online`, `run_offline` or `recv_all_pending`, or before and
    behind its `drain`. -/
inductive RecvAt where
  | online
  | offline
  | pending
  | closed
  | ended
  deriving DecidableEq

/-- The two tasks of a connection; for the statements also the requests it took, those it sent (as
    written, and as they came), the responses it read and what the requesters received. -/
structure Connection where
  maxRequestCount : Nat
  state : StreamState := {}
  messageId : UInt32 := 0
  requestCount : Nat := 0
  sendTask : SendAt := .idle
  recvTask : RecvAt := .online
  wire : Bytes := []
  taken : List KeylessForwardRequest := []
  sent : List (KeylessRequest × KeylessForwardRequest) := []
  received : List KeylessUpstreamResponse := []
  replies : List Reply := []

inductive Event where
  /-- the send task gets a request -/
  | take (data : KeylessForwardRequest)
  | addRequest
  /-- the request is written -/
  | wrote
  | writeFailed
  /-- another branch of its `select!` ends the send task -/
  | stop
  /-- bytes come from the upstream -/
  | arrive (b : Bytes)
  /-- the receive task reads a response -/
  | respond
  | readFailed
  | quit
  /-- the receive task sees that the send task has ended -/
  | senderGone
  | tick
  /-- nothing is pending any more, or `recv_all_pending` has run out of time -/
  | enough
  | drain
  deriving DecidableEq

namespace Connection

variable (c : Connection)

/-- A response that nobody waits for is dropped. -/
def handleRsp (rsp : KeylessUpstreamResponse) : Connection :=
  match c.state.fetchRequest rsp.id with
  | (some v, state) => { c with state := state, replies := c.replies ++ [v.sendUpstreamRsp rsp] }
  | (none, _) => c

/-- The values get an internal error each. -/
def sendErrors (r : List CachedValue × StreamState) : Connection :=
  { c with state := r.2, replies := c.replies ++ r.1.map CachedValue.sendInternalError }

/-- The end of `send_data` when the write fails. -/
def dropRequest : Connection :=
  match c.state.fetchRequest c.messageId with
  | (some v, state) => { c with state := state, replies := c.replies ++ [v.sendInternalError] }
  | (none, _) => c

def reading : RecvAt → Bool
  | .online | .offline | .pending => true
  | _ => false

/-- One step of one of the tasks, or of the upstream. -/
def step : Event → Option Connection
  | .take data =>
    if c.sendTask = .idle ∧ data.rspSender ∉ c.taken.map (·.rspSender) then
      some { c with
        sendTask := .taken data, requestCount := c.requestCount + 1, taken := c.taken ++ [data] }
    else none
  | .addRequest =>
    match c.sendTask with
    | .taken data =>
      some { c with
        state := c.state.addRequest c.messageId data.req.header data.rspSender
        sendTask := .writing data
        sent := c.sent ++ [(data.req.refresh c.messageId, data)] }
    | _ => none
  | .wrote =>
    match c.sendTask with
    | .writing _ =>
      some { c with
        messageId := c.messageId + 1
        sendTask := if c.maxRequestCount ≤ c.requestCount then .ended else .idle }
    | _ => none
  | .writeFailed =>
    match c.sendTask with
    | .writing _ => some { c.dropRequest with sendTask := .ended }
    | _ => none
  | .stop => if c.sendTask = .idle then some { c with sendTask := .ended } else none
  | .arrive b => some { c with wire := c.wire ++ b }
  | .respond =>
    if reading c.recvTask then
      match KeylessUpstreamResponse.recv c.wire with
      | some (rsp, rest) =>
        some (handleRsp { c with wire := rest, received := c.received ++ [rsp] } rsp)
      | none => none
    else none
  | .readFailed => if reading c.recvTask then some { c with recvTask := .closed } else none
  | .quit =>
    if c.recvTask = .online ∨ c.recvTask = .offline then some { c with recvTask := .pending }
    else none
  | .senderGone =>
    if c.recvTask = .online ∧ c.sendTask = .ended then some { c with recvTask := .offline } else none
  | .tick =>
    if c.recvTask = .online ∨ c.recvTask = .offline then
      some (c.sendErrors c.state.rotateTimeout)
    else none
  | .enough =>
    if c.recvTask = .pending ∨ c.recvTask = .offline ∧ c.state.hasPending = false then
      some { c with recvTask := .closed }
    else none
  | .drain =>
    if c.recvTask = .closed then some { c.sendErrors c.state.drain with recvTask := .ended }
    else none

end Connection

end Vey.Keyless

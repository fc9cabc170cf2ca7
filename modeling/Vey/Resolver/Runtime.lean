import Vey.Resolver.Record
import Vey.Schemes.Steps

/-! `ResolverRuntime`: one task that answers queries from a cache and asks a driver for the others.

        requests --> | cache   --expired--> trash --cleaned--> gone
                     | doing   (domain ↦ waiting requesters)
                     +--> driver --> responses --> |

    The tables are kept for each of the two families. The task runs a poll loop: a command, all
    responses, all expired records, some requests; it answers requesters through `oneshot` channels.
    The world holds the channels, the queries that are with the driver, and for the statements all
    requests that were made, all answers that the driver gave and all that was sent to requesters. -/

namespace Vey.Resolver
open Schemes Vey.Types

/-- The sending half of the `oneshot` channel of a requester. -/
structure Sender where
  id : Nat
  deriving DecidableEq

inductive Family where
  | v4
  | v6
  deriving DecidableEq

/-- `ResolveDriverRequest`: `GetV4` or `GetV6`. -/
structure ResolveDriverRequest where
  family : Family
  domain : DomainName
  sender : Sender
  deriving DecidableEq

/-- `ResolveDriverResponse`: `V4` or `V6`. -/
structure ResolveDriverResponse where
  family : Family
  record : ResolvedRecord

structure ResolverConfig where
  /-- the answer of `spawn_resolver_driver` -/
  driver : Except String Unit
  batchRequestCount : Nat

inductive ResolverCommand where
  | quit
  | update (config : ResolverConfig)

/-- What was sent through a `oneshot` channel. -/
structure Reply where
  sender : Sender
  record : ResolvedRecord
  source : ResolvedRecordSource

structure CachedRecord where
  inner : ResolvedRecord
  expireAt : Instant
  expireKey : Option Nat

/-- An expired record, of use until `vanishAt`. -/
structure TrashedRecord where
  inner : ResolvedRecord
  vanishAt : Instant

inductive Panic where
  | timer (p : TimerPanic)
  | unreachable
  deriving DecidableEq

/-- The tables of one family. -/
structure Tables where
  expired : DelayQueue DomainName := {}
  cache : Table DomainName CachedRecord := ∅
  doing : Table DomainName (List Sender) := ∅
  trash : Table DomainName TrashedRecord := ∅

/-- What a handler did: the tables, what it sent, whether it asked the driver, and its panic. -/
structure Turn where
  tables : Tables
  replies : List Reply := []
  query : Bool := false
  panic : Option Panic := none

namespace Tables

def updateCache (cache : Table DomainName CachedRecord) (queue : DelayQueue DomainName)
    (record : ResolvedRecord) (expireAt : Instant) (timer : Timer) :
    Except TimerPanic (Table DomainName CachedRecord × DelayQueue DomainName) :=
  putAt CachedRecord.expireKey cache queue record.domain expireAt timer
    fun expireKey => ⟨record, expireAt, some expireKey⟩

/-- The requester that came last counts as the one that caused the query. -/
def answerAll (record : ResolvedRecord) (vec : List Sender) : List Reply :=
  match vec.getLast? with
  | none => []
  | some sender => ⟨sender, record, .query⟩ :: vec.dropLast.map (⟨·, record, .cache⟩)

variable (t : Tables)

/-- The second half of `handle_rsp`: answer the requesters and keep the record. -/
def settle (record : ResolvedRecord) (timer : Timer) : Turn :=
  let replies := answerAll record ((t.doing.lookup record.domain).getD [])
  let t := { t with doing := t.doing.erase record.domain }
  match record.expire with
  | none => { tables := t, replies := replies }
  | some expireAt =>
    match updateCache t.cache t.expired record expireAt timer with
    | .ok (cache, expired) =>
      { tables := { t with cache := cache, expired := expired }, replies := replies }
    | .error p => { tables := t, replies := replies, panic := some (.timer p) }

/-- A bad answer gives way to a trashed record. -/
def handleRsp (record : ResolvedRecord) (timer : Timer) : Turn :=
  if record.isAcceptable then
    settle { t with trash := t.trash.erase record.domain } record timer
  else
    match t.trash.lookup record.domain with
    | some v =>
      { tables := { t with doing := t.doing.erase record.domain }
        replies := ((t.doing.lookup record.domain).getD []).map (⟨·, v.inner, .trash⟩) }
    | none => settle t record timer

/-- An expired record may still serve as trash. -/
def handleExpired (domain : DomainName) : Tables :=
  match t.cache.lookup domain with
  | none => t
  | some r =>
    match r.inner.vanish with
    | none => { t with cache := t.cache.erase domain }
    | some vanishAt =>
      { t with
        cache := t.cache.erase domain
        trash := t.trash.insert r.inner.domain ⟨r.inner, vanishAt⟩ }

/-- From the cache, the trash or the driver. -/
def handleReq (driver : Bool) (domain : DomainName) (sender : Sender) : Turn :=
  match t.cache.lookup domain with
  | some r => { tables := t, replies := [⟨sender, r.inner, .cache⟩] }
  | none =>
    match t.trash.lookup domain with
    | some r =>
      match t.doing.lookup domain with
      | some _ => { tables := t, replies := [⟨sender, r.inner, .trash⟩] }
      | none =>
        { tables := { t with doing := t.doing.insert domain [] }
          replies := [⟨sender, r.inner, .trash⟩]
          query := driver }
    | none =>
      match t.doing.lookup domain with
      | some vec => { tables := { t with doing := t.doing.insert domain (vec ++ [sender]) } }
      | none =>
        { tables := { t with doing := t.doing.insert domain [sender] }
          query := driver
          panic := if driver then none else some .unreachable }

def cleanTrash (now : Instant) : Tables :=
  { t with trash := t.trash.retain fun _ v => now < v.vanishAt }

end Tables

/-! ### The world of the task -/

/-- Where `poll_loop` is. -/
inductive PollAt where
  | idle
  | ctl
  | rsp
  | expired (f : Family)
  | req (left : Nat)
  | ended (r : Except String Unit)
  | panicked (p : Panic)
  deriving DecidableEq

/-- A reply, and the family whose tables it came from. -/
structure Answer extends Reply where
  family : Family

/-- The task, its channels and what went through them. -/
structure World where
  config : ResolverConfig
  driver : Bool := false
  tables : Family → Tables := fun _ => {}
  pc : PollAt := .idle
  requests : List ResolveDriverRequest := []
  commands : List ResolverCommand := []
  queries : List (Family × DomainName) := []
  responses : List ResolveDriverResponse := []
  issued : List ResolveDriverRequest := []
  given : List ResolveDriverResponse := []
  answers : List Answer := []

/-- What a response answers. -/
def ResolveDriverResponse.query (r : ResolveDriverResponse) : Family × DomainName :=
  (r.family, r.record.domain)

inductive Event where
  /-- somebody asks -/
  | request (r : ResolveDriverRequest)
  | command (c : ResolverCommand)
  /-- the driver answers one of its queries -/
  | answer (r : ResolveDriverResponse)
  /-- the task is polled at this time -/
  | poll (now : Instant)
  /-- there is nothing where the task looks -/
  | pending
  /-- the channel that the task looks at has no senders any more -/
  | closed
  | handleCmd
  | handleRsp (timer : Timer)
  | handleExpired (key : Nat) (now : Instant)
  | handleReq

namespace World

/-- The loop over the requests, of which `n` may still be taken. -/
def atReq (n : Nat) : PollAt := if n = 0 then .ctl else .req n

def cleanTrash (w : World) (now : Instant) : World :=
  { w with tables := fun f => (w.tables f).cleanTrash now }

variable (w : World)

/-- The head of `poll_loop`. -/
def enter (now : Instant) : World :=
  if w.driver then { w.cleanTrash now with pc := .ctl }
  else
    match w.config.driver with
    | .ok _ => { w.cleanTrash now with driver := true, pc := .ctl }
    | .error e => { w with pc := .ended (.error e) }

def pending : Option World :=
  match w.pc with
  | .ctl => some { w with pc := .rsp }
  | .rsp => some { w with pc := .expired .v4 }
  | .expired .v4 => some { w with pc := .expired .v6 }
  | .expired .v6 => some { w with pc := atReq w.config.batchRequestCount }
  | .req _ => some { w with pc := .idle }
  | _ => none

def handleCmd : ResolverCommand → World
  | .quit => { w with pc := .ended (.ok ()) }
  | .update config =>
    match config.driver with
    | .ok _ => { w with driver := true, config := config, pc := .rsp }
    | .error _ => { w with pc := .rsp }

/-- The effects of a handler, and where the loop goes on. -/
def after (f : Family) (domain : DomainName) (o : Turn) (pc : PollAt) : World :=
  { w with
    tables := Function.update w.tables f o.tables
    answers := w.answers ++ o.replies.map (⟨·, f⟩)
    queries := if o.query then w.queries ++ [(f, domain)] else w.queries
    pc := match o.panic with
      | some p => .panicked p
      | none => pc }

/-- One step of the task or of its surroundings. -/
def step : Event → Option World
  | .request r =>
    if r.sender ∈ w.issued.map (·.sender) then none
    else some { w with requests := w.requests ++ [r], issued := w.issued ++ [r] }
  | .command c => some { w with commands := w.commands ++ [c] }
  | .answer r =>
    if r.query ∈ w.queries then
      some { w with
        queries := w.queries.erase r.query
        responses := w.responses ++ [r]
        given := w.given ++ [r] }
    else none
  | .poll now => if w.pc = .idle then some (w.enter now) else none
  | .pending => w.pending
  | .closed =>
    match w.pc with
    | .ctl => some { w with pc := .ended (.ok ()) }
    | .req _ => some { w with pc := .ended (.ok ()) }
    | _ => none
  | .handleCmd =>
    match w.pc, w.commands with
    | .ctl, c :: cs => some (handleCmd { w with commands := cs } c)
    | _, _ => none
  | .handleRsp timer =>
    match w.pc, w.responses with
    | .rsp, r :: rs =>
      if ((w.tables r.family).expired.get timer.slot).isSome then none
      else some (after { w with responses := rs } r.family r.record.domain
        ((w.tables r.family).handleRsp r.record timer) .rsp)
    | _, _ => none
  | .handleExpired key now =>
    match w.pc with
    | .expired f =>
      match (w.tables f).expired.pollExpired key now with
      | none => none
      | some (domain, expired) =>
        let t := Tables.handleExpired { w.tables f with expired := expired } domain
        some { w with tables := Function.update w.tables f t }
    | _ => none
  | .handleReq =>
    match w.pc, w.requests with
    | .req n, r :: rs =>
      some (after { w with requests := rs } r.family r.domain
        ((w.tables r.family).handleReq w.driver r.domain r.sender) (atReq (n - 1)))
    | _, _ => none

end World

end Vey.Resolver

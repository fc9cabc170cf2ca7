import Vey.Net.Host
import Vey.Types.Header

/-! The HTTP forward contexts of the proxy: direct, route and failover.

    A client sends one request after another, and the context keeps the upstream connection of the
    last one:

        check_in_final_escaper(U, t)       does the saved connection fit?
        get_alive_connection               take it
        make_new_http(s)_connection        or make one
        save_alive_connection              and keep it for the next request

    What the saved connection is for is remembered in `last_upstream`, written at the check-in, and in
    `last_is_tls`, written when a connection is made. The escapers, the poller that watches a saved
    connection, and the clock are the environment: their answers are arguments. -/

namespace Vey.Types

namespace KeepAliveValue

def isExhausted (v : KeepAliveValue) : Bool := v.max == some 0

/-- Set fields of `v` win. -/
def orFrom (v other : KeepAliveValue) : KeepAliveValue :=
  ⟨v.timeout.or other.timeout, v.max.or other.max⟩

def decrementMax (v : KeepAliveValue) : KeepAliveValue :=
  { v with max := v.max.map fun n => if n = 0 then 0 else n - 1 }

end KeepAliveValue

structure HttpForwardCapability where
  forwardHttps : Bool := false
  forwardFtpAll : Bool := false
  forwardFtpGet : Bool := false
  forwardFtpPut : Bool := false
  forwardFtpDel : Bool := false
  sessionBasedAuth : Option Bool := none

/-- `&` -/
def HttpForwardCapability.bitand (a b : HttpForwardCapability) : HttpForwardCapability where
  forwardHttps := a.forwardHttps && b.forwardHttps
  forwardFtpAll := a.forwardFtpAll && b.forwardFtpAll
  forwardFtpGet := a.forwardFtpGet && b.forwardFtpGet
  forwardFtpPut := a.forwardFtpPut && b.forwardFtpPut
  forwardFtpDel := a.forwardFtpDel && b.forwardFtpDel
  sessionBasedAuth :=
    match a.sessionBasedAuth, b.sessionBasedAuth with
    | some true, some true => some true
    | some false, _ => some false
    | _, some false => some false
    | _, _ => none

end Vey.Types

namespace Vey.HttpForward
open Net Vey.Types

/-- An escaper, by its identity. -/
abbrev Escaper := Nat

/-- A connection, with the call that made it: `make_new_https_connection` for `upstream` if `isTls`, and
    `make_new_http_connection` for it otherwise. -/
structure HttpForwardConnection where
  id : Nat
  upstream : UpstreamAddr
  isTls : Bool
  deriving DecidableEq

/-! ### The saved connection -/

structure HttpAliveConnection where
  connection : HttpForwardConnection
  lastUsed : Nat

/-- The saved connection and how long it may serve. -/
structure HttpAliveReuseState where
  last : Option HttpAliveConnection := none
  keepAliveLeftover : KeepAliveValue := {}
  expireAt : Option Nat := none

namespace HttpAliveReuseState

variable (s : HttpAliveReuseState)

def clearKeepAliveLeftover : HttpAliveReuseState :=
  { s with keepAliveLeftover := {}, expireAt := none }

def dropSaved : HttpAliveReuseState :=
  { s with last := none }.clearKeepAliveLeftover

def overlayKeepAlive (keepAlive : KeepAliveValue) : HttpAliveReuseState :=
  { s with keepAliveLeftover := keepAlive.orFrom s.keepAliveLeftover }

def capExpire (expire : Option Nat) : HttpAliveReuseState :=
  { s with expireAt :=
    match s.expireAt, expire with
    | some x, some y => some (min x y)
    | a, b => a.or b }

def isExpired (now : Nat) : Bool := s.expireAt.any fun d => d - now == 0

/-- `received` says whether the poller still has the connection to give. -/
def getAlive (now idleExpire : Nat) (received : Bool) :
    Option (HttpForwardConnection × KeepAliveValue) × HttpAliveReuseState :=
  match s.last with
  | none => (none, s.clearKeepAliveLeftover)
  | some conn =>
    let s := { s with last := none }
    if s.keepAliveLeftover.isExhausted || decide (idleExpire ≤ now - conn.lastUsed) ||
        s.isExpired now then
      (none, s.clearKeepAliveLeftover)
    else
      let s := { s with keepAliveLeftover := s.keepAliveLeftover.decrementMax }
      if received then (some (conn.connection, s.keepAliveLeftover), s) else (none, s)

/-- Saves the connection, unless it is of no use. -/
def save (connection : HttpForwardConnection) (keepAlive : KeepAliveValue)
    (expire : Option Nat) (idleExpire now : Nat) : HttpAliveReuseState :=
  let s := (s.overlayKeepAlive keepAlive).capExpire expire
  if s.keepAliveLeftover.isExhausted || idleExpire == 0 || s.isExpired now then s
  else { s with last := some ⟨connection, now⟩ }

end HttpAliveReuseState

/-! ### What the environment answers -/

/-- The field of the egress notes that the contexts read. -/
structure EgressNotes where
  expireAt : Option Nat := none

/-- The answers during a check-in: whether the poller has closed the saved connection, the next escaper
    of a route, and what an escaper's context can forward. -/
structure CheckInAnswers where
  savedClosed : Bool := false
  nextEscaper : Option Escaper := none
  capability : Escaper → HttpForwardCapability := fun _ => {}

/-- How an escaper's context got on with a new connection: the connection and the escaper that made it,
    or an error, and its notes. -/
structure ConnectAnswer where
  result : Except String (Nat × Escaper)
  egressNotes : EgressNotes := {}

/-- The answers during a connect: those of each escaper, and which one of two came first. -/
structure ConnectAnswers where
  answer : Escaper → ConnectAnswer
  primaryInTime : Bool := true
  primaryFirst : Bool := true

structure HttpAliveReuseNotes where
  keepAliveLeftover : KeepAliveValue
  escaper : Escaper

/-- The answer of `make_new_http_connection` and `make_new_https_connection`. -/
abbrev Made := Except String (HttpForwardConnection × Escaper)

/-- The trait. -/
class HttpForwardContext (κ : Type) where
  checkInFinalEscaper : κ → UpstreamAddr → Bool → CheckInAnswers → HttpForwardCapability × κ
  getAliveConnection : κ → (now idleExpire : Nat) → (received : Bool) →
    Option (HttpForwardConnection × HttpAliveReuseNotes) × κ
  makeNewHttpConnection : κ → UpstreamAddr → ConnectAnswers → Made × κ
  makeNewHttpsConnection : κ → UpstreamAddr → ConnectAnswers → Made × κ
  saveAliveConnection : κ → HttpForwardConnection → KeepAliveValue → (idleExpire now : Nat) → κ

export HttpForwardContext (checkInFinalEscaper getAliveConnection makeNewHttpConnection
  makeNewHttpsConnection saveAliveConnection)

/-- The connection of an answer, made for `upstream` in the mode `isTls`. -/
def ConnectAnswer.made (a : ConnectAnswer) (upstream : UpstreamAddr) (isTls : Bool) : Made :=
  a.result.map fun (id, escaper) => (⟨id, upstream, isTls⟩, escaper)

/-! ### Direct -/

structure DirectHttpForwardContext where
  escaper : Escaper
  egressNotes : EgressNotes := {}
  lastUpstream : UpstreamAddr
  lastIsTls : Bool := false
  reuse : HttpAliveReuseState := {}

/-- `UpstreamAddr::empty()` -/
def emptyUpstream : UpstreamAddr := ⟨.ip (.v4 0), 0⟩

namespace DirectHttpForwardContext

def new (escaper : Escaper) : DirectHttpForwardContext :=
  { escaper := escaper, lastUpstream := emptyUpstream }

variable (c : DirectHttpForwardContext)

/-- Another target drops the saved connection. -/
def checkIn (upstream : UpstreamAddr) (isTls : Bool)
    (a : CheckInAnswers) : HttpForwardCapability × DirectHttpForwardContext :=
  (a.capability c.escaper,
    if c.lastUpstream ≠ upstream ∨ c.lastIsTls ≠ isTls then
      { c with lastUpstream := upstream, egressNotes := {}, reuse := c.reuse.dropSaved }
    else c)

def getAlive (now idleExpire : Nat) (received : Bool) :
    Option (HttpForwardConnection × HttpAliveReuseNotes) × DirectHttpForwardContext :=
  let (conn, reuse) := c.reuse.getAlive now idleExpire received
  (conn.map fun (connection, leftover) => (connection, ⟨leftover, c.escaper⟩),
    { c with reuse := reuse })

def makeNew (isTls : Bool) (c : DirectHttpForwardContext) (upstream : UpstreamAddr)
    (a : ConnectAnswers) : Made × DirectHttpForwardContext :=
  let answer := a.answer c.escaper
  let c := { c with
    lastIsTls := isTls, reuse := c.reuse.clearKeepAliveLeftover, egressNotes := answer.egressNotes }
  ((answer.made upstream isTls).map fun (conn, _) => (conn, c.escaper), c)

def save (connection : HttpForwardConnection)
    (keepAlive : KeepAliveValue) (idleExpire now : Nat) : DirectHttpForwardContext :=
  { c with reuse := c.reuse.save connection keepAlive c.egressNotes.expireAt idleExpire now }

instance : HttpForwardContext DirectHttpForwardContext where
  checkInFinalEscaper := checkIn
  getAliveConnection := getAlive
  makeNewHttpConnection := makeNew false
  makeNewHttpsConnection := makeNew true
  saveAliveConnection := save

end DirectHttpForwardContext

/-! ### Route -/

/-- `fwdCtx` is the escaper whose context is checked in. -/
structure RouteHttpForwardContext where
  escaper : Escaper
  fwdCtx : Option Escaper := none
  runLocalUpdate : Bool := false
  finalEscaper : Escaper
  egressNotes : EgressNotes := {}
  lastUpstream : UpstreamAddr
  lastIsTls : Bool := false
  reuse : HttpAliveReuseState := {}

namespace RouteHttpForwardContext

def new (escaper : Escaper) : RouteHttpForwardContext :=
  { escaper := escaper, finalEscaper := escaper, lastUpstream := emptyUpstream }

variable (c : RouteHttpForwardContext)

/-- Another escaper is picked for the request. -/
def checkOut (upstream : UpstreamAddr) (a : CheckInAnswers) :
    HttpForwardCapability × RouteHttpForwardContext :=
  let c := { c with lastUpstream := upstream, runLocalUpdate := true }
  match a.nextEscaper with
  | some next => (a.capability next, { c with fwdCtx := some next })
  | none =>
    if c.escaper ≠ c.finalEscaper then
      (a.capability c.finalEscaper, { c with fwdCtx := some c.finalEscaper })
    else ({}, { c with fwdCtx := none })

def checkIn (upstream : UpstreamAddr) (isTls : Bool)
    (a : CheckInAnswers) : HttpForwardCapability × RouteHttpForwardContext :=
  match c.reuse.last with
  | some _ =>
    if c.lastIsTls = isTls ∧ c.lastUpstream = upstream ∧ a.savedClosed = false then
      -- reconnect on the same escaper
      (a.capability c.finalEscaper,
        { c with fwdCtx := some c.finalEscaper, runLocalUpdate := false })
    else { c with reuse := { c.reuse with last := none } }.checkOut upstream a
  | none => c.checkOut upstream a

def getAlive (now idleExpire : Nat) (received : Bool) :
    Option (HttpForwardConnection × HttpAliveReuseNotes) × RouteHttpForwardContext :=
  let (conn, reuse) := c.reuse.getAlive now idleExpire received
  (conn.map fun (connection, leftover) => (connection, ⟨leftover, c.finalEscaper⟩),
    { c with reuse := reuse })

def makeNew (isTls : Bool) (c : RouteHttpForwardContext) (upstream : UpstreamAddr)
    (a : ConnectAnswers) : Made × RouteHttpForwardContext :=
  let c := { c with lastIsTls := isTls, reuse := c.reuse.clearKeepAliveLeftover }
  match c.fwdCtx with
  | none => (.error "no next escaper selected", c)
  | some fwd =>
    let c := { c with fwdCtx := none }
    match (a.answer fwd).made upstream isTls with
    | .error e => (.error e, c)
    | .ok (conn, escaper) =>
      (.ok (conn, escaper), { c with
        egressNotes := (a.answer fwd).egressNotes, finalEscaper := escaper })

def save (connection : HttpForwardConnection)
    (keepAlive : KeepAliveValue) (idleExpire now : Nat) : RouteHttpForwardContext :=
  { c with reuse := c.reuse.save connection keepAlive c.egressNotes.expireAt idleExpire now }

instance : HttpForwardContext RouteHttpForwardContext where
  checkInFinalEscaper := checkIn
  getAliveConnection := getAlive
  makeNewHttpConnection := makeNew false
  makeNewHttpsConnection := makeNew true
  saveAliveConnection := save

end RouteHttpForwardContext

/-! ### Failover -/

structure FailoverHttpForwardContext where
  primaryEscaper : Escaper
  standbyEscaper : Escaper
  primaryForwardCtx : Option Escaper := none
  standbyForwardCtx : Option Escaper := none
  finalEscaper : Escaper
  egressNotes : EgressNotes := {}
  lastUpstream : UpstreamAddr
  lastIsTls : Bool := false
  reuse : HttpAliveReuseState := {}

namespace FailoverHttpForwardContext

def new (primaryEscaper standbyEscaper : Escaper) : FailoverHttpForwardContext :=
  { primaryEscaper := primaryEscaper, standbyEscaper := standbyEscaper
    finalEscaper := primaryEscaper, lastUpstream := emptyUpstream }

variable (c : FailoverHttpForwardContext)

def checkIn (upstream : UpstreamAddr) (isTls : Bool)
    (a : CheckInAnswers) : HttpForwardCapability × FailoverHttpForwardContext :=
  let c :=
    if c.reuse.last.isSome ∧ c.lastIsTls = isTls ∧ c.lastUpstream = upstream then c
    else { c with
      lastUpstream := upstream, egressNotes := {}, reuse := { c.reuse with last := none } }
  ((a.capability c.primaryEscaper).bitand (a.capability c.standbyEscaper),
    { c with
      primaryForwardCtx := some c.primaryEscaper, standbyForwardCtx := some c.standbyEscaper })

def getAlive (now idleExpire : Nat) (received : Bool) :
    Option (HttpForwardConnection × HttpAliveReuseNotes) × FailoverHttpForwardContext :=
  let (conn, reuse) := c.reuse.getAlive now idleExpire received
  (conn.map fun (connection, leftover) => (connection, ⟨leftover, c.finalEscaper⟩),
    { c with reuse := reuse })

/-- The notes of the escaper whose answer is taken, which makes the last connection if there is one. -/
def finish (answer : ConnectAnswer) (made : Made) : Made × FailoverHttpForwardContext :=
  (made, { c with
    egressNotes := answer.egressNotes
    finalEscaper := match made with | .ok (_, escaper) => escaper | .error _ => c.finalEscaper })

def makeNew (isTls : Bool) (c : FailoverHttpForwardContext) (upstream : UpstreamAddr)
    (a : ConnectAnswers) : Made × FailoverHttpForwardContext :=
  let c := { c with lastIsTls := isTls, reuse := c.reuse.clearKeepAliveLeftover }
  match c.primaryForwardCtx with
  | none => (.error "no next primary escaper available", c)
  | some primary =>
    let c := { c with primaryForwardCtx := none }
    match c.standbyForwardCtx with
    | none => (.error "no next standby escaper available", c)
    | some standby =>
      let c := { c with standbyForwardCtx := none }
      let p := a.answer primary
      let s := a.answer standby
      if a.primaryInTime || a.primaryFirst then
        -- the primary one answers first, and the standby one is asked if it has failed
        match p.made upstream isTls with
        | .ok made => c.finish p (.ok made)
        | .error _ => c.finish s (s.made upstream isTls)
      else
        match s.made upstream isTls with
        | .ok made => c.finish s (.ok made)
        | .error _ => c.finish p (p.made upstream isTls)

def save (connection : HttpForwardConnection)
    (keepAlive : KeepAliveValue) (idleExpire now : Nat) : FailoverHttpForwardContext :=
  { c with reuse := c.reuse.save connection keepAlive c.egressNotes.expireAt idleExpire now }

instance : HttpForwardContext FailoverHttpForwardContext where
  checkInFinalEscaper := checkIn
  getAliveConnection := getAlive
  makeNewHttpConnection := makeNew false
  makeNewHttpsConnection := makeNew true
  saveAliveConnection := save

end FailoverHttpForwardContext

end Vey.HttpForward

import Vey.Escape.PeerHealth
import Vey.Schemes.Bytes

/-! `SiteUpstream`: the weighted peers of a site, and the table from which one is picked.

        config.peers ---- weight > 0 ----> peers ---- available ----> pick
        runtime_weight ------^                            ^
                                                        health

    The pick table is built from the other parts and kept until it is built again. An object gets its
    health records from the one that it was reloaded from, and has them in common with it when the
    strategy stays the same.

    The time stands still during a call; it is given to each function. -/

namespace Vey.Site
open Schemes Escape

/-- The weight of a peer, a floating point number in the source. -/
class Weight (W : Type) where
  /-- `is_finite() && > 0.0` -/
  isPositive : W → Bool
  /-- `is_finite() && >= 0.0` -/
  isValid : W → Bool
  /-- `>=` -/
  ge : W → W → Bool

instance (priority := low) instWeightNat : Weight Nat where
  isPositive w := decide (0 < w)
  isValid _ := true
  ge v w := decide (w ≤ v)

structure WeightedValue (α W : Type) where
  inner : α
  weight : W

inductive UpstreamAddr (α : Type) where
  | socket (addr : α)
  | domain (name : Bytes) (port : Nat)
  deriving DecidableEq

def UpstreamAddr.socketAddr {α : Type} : UpstreamAddr α → Option α
  | socket addr => some addr
  | domain _ _ => none

structure SiteUpstreamConfig (α W : Type) where
  single : Option (UpstreamAddr α) := none
  peers : List (WeightedValue α W) := []

/-- `SelectiveVecBuilder::build`: the nodes by their weight, equal ones in their order. -/
def selectiveVec {α W : Type} [Weight W] (peers : List (WeightedValue α W)) :
    Option (List (WeightedValue α W)) :=
  if peers.isEmpty then none
  else some (peers.insertionSort fun a b => Weight.ge a.weight b.weight = true)

structure SiteUpstream (α W : Type) where
  config : SiteUpstreamConfig α W
  runtimeWeight : Table α W := ∅
  pick : Option (List (WeightedValue α W)) := none
  /-- Which health records it has, if any. -/
  health : Option Nat := none

namespace SiteUpstream

variable {α W : Type} [DecidableEq α] [Weight W]

/-- An object with its health records behind a call. -/
abbrev Held (α W : Type) := SiteUpstream α W × Option (PeerHealth α)

variable (now : Nat) (u : SiteUpstream α W)

/-- The configured peers with a positive weight. -/
def positivePeers : List (WeightedValue α W) :=
  u.config.peers.filterMap fun peer =>
    let weight := (u.runtimeWeight.lookup peer.inner).getD peer.weight
    if Weight.isPositive weight then some ⟨peer.inner, weight⟩ else none

/-- The peers that `health` does not hold to be unavailable. -/
def filterHealthy (now : Nat) : PeerHealth α → List (WeightedValue α W) →
    List (WeightedValue α W) × PeerHealth α
  | h, [] => ([], h)
  | h, peer :: peers =>
    let asked := h.unavailable peer.inner now
    let rest := filterHealthy now asked.2 peers
    (if asked.1 then rest.1 else peer :: rest.1, rest.2)

/-- With no healthy peer, all are kept. -/
def withoutUnavailable (health : Option (PeerHealth α))
    (peers : List (WeightedValue α W)) : List (WeightedValue α W) × Option (PeerHealth α) :=
  match health with
  | none => (peers, none)
  | some h =>
    if peers.length < 2 then (peers, some h)
    else
      let healthy := filterHealthy now h peers
      (if healthy.1.isEmpty then peers else healthy.1, some healthy.2)

/-- Builds the pick table again. -/
def rebuild (health : Option (PeerHealth α)) : Held α W :=
  if u.config.peers.isEmpty then ({ u with pick := none }, health)
  else
    let peers := withoutUnavailable now health u.positivePeers
    ({ u with pick := selectiveVec peers.1 }, peers.2)

def recoverExpired : Option (PeerHealth α) → Held α W
  | none => (u, none)
  | some h =>
    let swept := h.sweepExpired now
    if swept.1 then u.rebuild now (some swept.2) else (u, some swept.2)

/-- Whether an address is still one to use, and the health records behind the question. -/
def accepts (addr : UpstreamAddr α)
    (health : Option (PeerHealth α)) : Bool × Option (PeerHealth α) :=
  match u.config.single with
  | some single => (decide (single = addr), health)
  | none =>
    match addr.socketAddr with
    | none => (false, health)
    | some peer =>
      let bad := (health.map fun h => (h.unavailable peer now).1).getD false
      let health := health.map fun h => (h.unavailable peer now).2
      if bad then (false, health)
      else (u.config.peers.any fun configured =>
        decide (configured.inner = peer) &&
          Weight.isPositive ((u.runtimeWeight.lookup peer).getD configured.weight), health)

/-- `select_new`, up to the choice of one of the nodes. -/
def selectNew (health : Option (PeerHealth α)) : Held α W :=
  match u.config.single with
  | some _ => (u, health)
  | none => u.recoverExpired now health

def selectKeeping (previous : Option (UpstreamAddr α))
    (health : Option (PeerHealth α)) : Held α W :=
  match previous with
  | none => u.selectNew now health
  | some previous =>
    let answer := u.accepts now previous health
    if answer.1 then (u, answer.2) else u.selectNew now answer.2

def listPeerHealthStatus :
    Option (PeerHealth α) → Held α W
  | none => (u, none)
  | some h =>
    if u.config.peers.isEmpty then (u, some h)
    else
      let recovered := u.recoverExpired now (some h)
      (recovered.1, recovered.2.map fun h =>
        u.config.peers.foldl (fun h peer => (h.failureStatus peer.inner now).2) h)

def setWeight (addr : α) (weight : W) (health : Option (PeerHealth α)) : Held α W :=
  if u.config.peers.isEmpty then (u, health)
  else if !Weight.isValid weight then (u, health)
  else if !u.config.peers.any (fun peer => decide (peer.inner = addr)) then (u, health)
  else { u with runtimeWeight := u.runtimeWeight.insert addr weight }.rebuild now health

def recordPeerConnectResult (addr : UpstreamAddr α)
    (connected : Bool) : Option (PeerHealth α) → Held α W
  | none => (u, none)
  | some h =>
    match addr.socketAddr with
    | none => (u, some h)
    | some peer =>
      if !u.config.peers.any (fun item => decide (item.inner = peer)) then (u, some h)
      else
        let swept := h.sweepExpired now
        let noted := swept.2.noteResult peer connected now
        if swept.1 || noted.1 then u.rebuild now (some noted.2) else (u, some noted.2)

/-- The runtime weights that a reloaded object takes over. -/
def keptWeights (config : SiteUpstreamConfig α W) : Table α W :=
  if config.single.isNone && !config.peers.isEmpty then
    config.peers.foldl (fun weights peer =>
      match u.runtimeWeight.lookup peer.inner with
      | some weight => weights.insert peer.inner weight
      | none => weights) ∅
  else ∅

end SiteUpstream

/-! ### All the objects -/

/-- The objects that there are, old ones too, with the health records they share. -/
structure World (α W : Type) where
  now : Nat
  tables : List (PeerHealth α) := []
  sites : List (SiteUpstream α W) := []

namespace World

variable {α W : Type} (w : World α W)

def tableOf (u : SiteUpstream α W) : Option (PeerHealth α) :=
  u.health.bind (w.tables[·]?)

/-- The records `t` behind a call; those of a new object are new. -/
def store : Option Nat → Option (PeerHealth α) → List (PeerHealth α)
  | some t, some h => if t < w.tables.length then w.tables.set t h else w.tables ++ [h]
  | _, _ => w.tables

/-- The objects and records behind a call on the object `i`. -/
def put (i : Nat) (held : SiteUpstream.Held α W) : World α W where
  now := w.now
  tables := w.store held.1.health held.2
  sites := w.sites.set i held.1

/-- A call on the object `i`. -/
def call (i : Nat)
    (f : SiteUpstream α W → Option (PeerHealth α) → SiteUpstream.Held α W) : World α W :=
  match w.sites[i]? with
  | none => w
  | some u => w.put i (f u (w.tableOf u))

/-- One more object. -/
def add (held : SiteUpstream.Held α W) : World α W where
  now := w.now
  tables := w.store held.1.health held.2
  sites := w.sites ++ [held.1]

inductive Op (α W : Type) where
  | new (config : SiteUpstreamConfig α W) (health : Option PeerHealthCheckConfig)
  | reload (i : Nat) (config : SiteUpstreamConfig α W) (health : Option PeerHealthCheckConfig)
  | selectKeeping (i : Nat) (previous : Option (UpstreamAddr α))
  | accepts (i : Nat) (addr : UpstreamAddr α)
  | listPeerHealthStatus (i : Nat)
  | setWeight (i : Nat) (addr : α) (weight : W)
  | recordPeerConnectResult (i : Nat) (addr : UpstreamAddr α) (connected : Bool)
  | advance (d : Nat)

variable [DecidableEq α] [Weight W]

/-- The health records of a reloaded object: those of the old one, a copy of them for another
    strategy, or new ones. -/
def reloadHealth (old : SiteUpstream α W) :
    Option PeerHealthCheckConfig → Option Nat × Option (PeerHealth α)
  | none => (none, none)
  | some strategy =>
    match old.health, w.tableOf old with
    | some t, some h =>
      if h.strategy = strategy then (some t, some h)
      else (some w.tables.length, some ⟨strategy, h.inner⟩)
    | _, _ => (some w.tables.length, some ⟨strategy, ∅⟩)

def step (w : World α W) : Op α W → World α W
  | .new config health =>
    let u : SiteUpstream α W := { config, health := health.map fun _ => w.tables.length }
    w.add (u.rebuild w.now (health.map (⟨·, ∅⟩)))
  | .reload i config health =>
    match w.sites[i]? with
    | none => w
    | some old =>
      let records := w.reloadHealth old health
      let u : SiteUpstream α W :=
        { config, runtimeWeight := old.keptWeights config, health := records.1 }
      w.add (u.rebuild w.now records.2)
  | .selectKeeping i previous => w.call i fun u h => u.selectKeeping w.now previous h
  | .accepts i addr => w.call i fun u h => (u, (u.accepts w.now addr h).2)
  | .listPeerHealthStatus i => w.call i fun u h => u.listPeerHealthStatus w.now h
  | .setWeight i addr weight => w.call i fun u h => u.setWeight w.now addr weight h
  | .recordPeerConnectResult i addr connected =>
    w.call i fun u h => u.recordPeerConnectResult w.now addr connected h
  | .advance d => { w with now := w.now + d }

end World

end Vey.Site

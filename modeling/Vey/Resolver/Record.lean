import Vey.Schemes.DelayQueue
import Vey.Schemes.IpNet
import Vey.Types.ServerName

/-! `ResolvedRecord`: the answer to one query of a resolver. -/

namespace Vey.Resolver
open Schemes Vey.Types

inductive ResolveServerError where
  | formErr
  | servFail
  | notFound
  | notImp
  | refused
  | other (code : Nat)
  deriving DecidableEq

inductive ResolveError where
  | emptyDomain
  | emptyResult
  | invalidRedirectionDomain
  | noResolverSet
  | noResolverRunning
  | requestTimeout
  | serverError (e : ResolveServerError)
  | driverError (reason : String)
  | driverTimeout
  deriving DecidableEq

inductive ResolvedRecordSource where
  | cache
  | trash
  | query
  deriving DecidableEq

structure ResolvedRecord where
  domain : DomainName
  created : Instant
  expire : Option Instant
  vanish : Option Instant
  result : Except ResolveError (List IpAddr)

/-- `checked_add` of a duration in seconds, for instants in nanoseconds. -/
def checkedAddSecs (now : Instant) (secs : Nat) : Option Instant :=
  if now + secs * 1000000000 < 2 ^ 63 * 1000000000 then some (now + secs * 1000000000) else none

def saturatingAdd (a b : UInt32) : Nat := min (a.toNat + b.toNat) (2 ^ 32 - 1)

namespace ResolvedRecord

def isAcceptable (r : ResolvedRecord) : Bool :=
  match r.result with
  | .ok _ => true
  | .error e => e == .serverError .notFound

/-- The seconds until a record expires, and until it vanishes. -/
def ttls (ttl minTtl maxTtl : UInt32) : Nat × Nat :=
  if saturatingAdd maxTtl minTtl < ttl.toNat then (maxTtl.toNat, ttl.toNat)
  else if saturatingAdd minTtl minTtl < ttl.toNat then (ttl.toNat - minTtl.toNat, ttl.toNat)
  else if minTtl < ttl then (minTtl.toNat, ttl.toNat)
  else (minTtl.toNat, saturatingAdd minTtl 1)

variable (now : Instant) (domain : DomainName)

def resolved (ttl minTtl maxTtl : UInt32) (ips : List IpAddr) : ResolvedRecord where
  domain := domain
  created := now
  expire := checkedAddSecs now (ttls ttl minTtl maxTtl).1
  vanish := checkedAddSecs now (ttls ttl minTtl maxTtl).2
  result := .ok ips

end ResolvedRecord

end Vey.Resolver

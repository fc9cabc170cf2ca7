import Vey.Schemes.IpNet

/-! `AclNetworkRule`: what to do with an address, by the longest network that it lies in. -/

namespace Vey.Acl
open Schemes

inductive AclAction where
  | forbidAndLog
  | forbid
  | permitAndLog
  | permit

def AclAction.forbidEarly : AclAction → Bool
  | .forbidAndLog | .forbid => true
  | .permitAndLog | .permit => false

structure AclNetworkRule (α : Type) where
  inner : Table IpNetwork α
  defaultAction : α

/-- Whether a network matched, and the action. -/
def AclNetworkRule.check [IpNetworkTable] {α : Type} (r : AclNetworkRule α) (ip : IpAddr) :
    Bool × α :=
  match longestMatch r.inner ip with
  | some (_, action) => (true, action)
  | none => (false, r.defaultAction)

structure AclNetworkRuleBuilder (α : Type) where
  inner : Table IpNetwork α
  missedAction : α

namespace AclNetworkRuleBuilder

def new {α : Type} (missedAction : α) : AclNetworkRuleBuilder α := ⟨∅, missedAction⟩

def addNetwork {α : Type} (b : AclNetworkRuleBuilder α) (network : IpNetwork) (action : α) :
    AclNetworkRuleBuilder α :=
  { b with inner := b.inner.insert network action }

def build {α : Type} (b : AclNetworkRuleBuilder α) : AclNetworkRule α where
  inner := b.inner.entries.foldl (fun inner e => inner.insert e.1 e.2) ∅
  defaultAction := b.missedAction

/-- DEFAULT_EGRESS_RULE -/
def defaultEgressRule : List IpNetwork := [
  -- unspecified, loopback and link-local addresses
  .v4 { base := 0x00000000, len := 32 },
  .v4 { base := 0x7f000000, len := 8 },
  .v4 { base := 0xa9fe0000, len := 16 },
  .v6 { base := 0, len := 128 },
  .v6 { base := 1, len := 128 },
  .v6 { base := 0xfe800000000000000000000000000000, len := 10 },
  -- discard-only addresses
  .v6 { base := 0x01000000000000000000000000000000, len := 64 }]

def newEgress (missedAction : AclAction) : AclNetworkRuleBuilder AclAction :=
  defaultEgressRule.foldl (fun b network => b.addNetwork network .forbid) (new missedAction)

end AclNetworkRuleBuilder

end Vey.Acl

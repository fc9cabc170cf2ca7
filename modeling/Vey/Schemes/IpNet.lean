import Vey.Schemes.Table

/-! IP addresses and tables of networks.

    An IPv4 address has a second spelling among the IPv6 addresses:

        ::ffff:a.b.c.d      96 bits of the mapped prefix, 32 bits of the IPv4 address

    A table of networks answers with the longest network that an address lies in; networks of the
    two families never match each other's addresses. -/

namespace Vey.Schemes

abbrev Ipv4Addr := BitVec 32
abbrev Ipv6Addr := BitVec 128

inductive IpAddr where
  | v4 (a : Ipv4Addr)
  | v6 (a : Ipv6Addr)
  deriving DecidableEq

/-- `::ffff:a.b.c.d` -/
def toIpv6Mapped (a : Ipv4Addr) : Ipv6Addr := 0xffff#96 ++ a

def toIpv4Mapped (a : Ipv6Addr) : Option Ipv4Addr :=
  if a.extractLsb' 32 96 = 0xffff#96 then some (a.extractLsb' 0 32) else none

theorem toIpv4Mapped_mapped (a : Ipv4Addr) : toIpv4Mapped (toIpv6Mapped a) = some a := by
  have hhi : (toIpv6Mapped a).extractLsb' 32 96 = 0xffff#96 := by
    rw [toIpv6Mapped]
    exact BitVec.extractLsb'_append_eq_left
  have hlo : (toIpv6Mapped a).extractLsb' 0 32 = a := by
    rw [toIpv6Mapped]
    exact BitVec.extractLsb'_append_eq_right
  rw [toIpv4Mapped, if_pos hhi, hlo]

/-- The mapped prefix starts with zeros. -/
theorem toIpv4Mapped_of_high {a : Ipv6Addr} (h : a >>> 112 ≠ 0) : toIpv4Mapped a = none := by
  rw [toIpv4Mapped, if_neg]
  intro hp
  apply h
  have hhi : a >>> 112 = ((a.extractLsb' 32 96) >>> 80).setWidth 128 := by
    apply BitVec.eq_of_toNat_eq
    simp only [BitVec.toNat_ushiftRight, BitVec.extractLsb'_toNat, BitVec.toNat_setWidth,
      Nat.shiftRight_eq_div_pow]
    omega
  rw [hhi, hp]
  rfl

/-! ### Networks -/

/-- A network of one family: a base address without host bits and the length of its mask. -/
structure Network (w : Nat) where
  base : BitVec w
  len : Nat
  len_le : len ≤ w := by decide
  host : base <<< len = 0 := by decide
  deriving DecidableEq

def Network.contains {w : Nat} (n : Network w) (a : BitVec w) : Bool :=
  a >>> (w - n.len) == n.base >>> (w - n.len)

inductive IpNetwork where
  | v4 (n : Network 32)
  | v6 (n : Network 128)
  deriving DecidableEq

namespace IpNetwork

def netmask : IpNetwork → Nat
  | .v4 n => n.len
  | .v6 n => n.len

def contains : IpNetwork → IpAddr → Bool
  | .v4 n, .v4 a => n.contains a
  | .v6 n, .v6 a => n.contains a
  | _, _ => false

end IpNetwork

/-- `ip_network_table`, over the networks that are stored with their values. -/
class IpNetworkTable where
  longestMatch {α : Type} : Table IpNetwork α → IpAddr → Option (IpNetwork × α)
  /-- the longest of the networks that hold the address -/
  longest : ∀ {α : Type} {t : Table IpNetwork α} {ip n v}, longestMatch t ip = some (n, v) →
    (t.lookup n = some v ∧ n.contains ip = true) ∧
      ∀ m w, t.lookup m = some w → m.contains ip = true → m.netmask ≤ n.netmask
  missing : ∀ {α : Type} {t : Table IpNetwork α} {ip}, longestMatch t ip = none →
    ∀ m w, t.lookup m = some w → m.contains ip = false

instance (priority := low) : IpNetworkTable where
  longestMatch t ip :=
    ((t.entries.filter (·.1.contains ip)).argmax (·.1.netmask)).map fun e => (e.1, e.2)
  longest {_ t ip n v} h := by
    obtain ⟨e, he, heq⟩ := Option.map_eq_some_iff.mp h
    cases heq
    refine ⟨?_, fun m w hm hc => ?_⟩
    · simpa [Table.lookup_eq_some] using List.argmax_mem he
    · have hmem : ⟨m, w⟩ ∈ t.entries.filter (·.1.contains ip) := by
        simpa [hc] using Table.lookup_eq_some.mp hm
      exact List.le_of_mem_argmax (f := fun e : Sigma _ => e.1.netmask) hmem he
  missing {_ t ip} h m w hm := by
    have hnil := List.argmax_eq_none.mp (Option.map_eq_none_iff.mp h)
    simpa using List.filter_eq_nil_iff.mp hnil _ (Table.lookup_eq_some.mp hm)

export IpNetworkTable (longestMatch)

end Vey.Schemes

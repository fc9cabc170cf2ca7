import Vey.Net.Host
import Vey.Schemes.Poll
import Vey.Schemes.Utf8

/-! `Socks5Request`: the request of a client.

        05  command  rsv  01  4 bytes         port
        05  command  rsv  03  len  len bytes  port
        05  command  rsv  04  16 bytes        port -/

namespace Vey.Socks
open Schemes Vey.Types Net List

inductive SocksCommand where
  | tcpConnect
  | tcpBind
  | udpAssociate

inductive SocksNegotiationError where
  | invalidVersion
  | invalidCommand
  | invalidDomainString
  | invalidAddrType

inductive SocksRequestParseError where
  | readFailed (e : IoError)
  | invalidProtocol (e : SocksNegotiationError)
  | clientClosed

def SocksCommand.tryFrom (value : UInt8) : Except SocksNegotiationError SocksCommand :=
  if value = 1 then .ok .tcpConnect
  else if value = 2 then .ok .tcpBind
  else if value = 3 then .ok .udpAssociate
  else .error .invalidCommand

/-- What the client sends, and how its stream ends. -/
structure Client where
  bytes : Bytes
  failed : Option IoError := none

/-- A reader of the client's stream that may fail. -/
abbrev Recv := StateT Client (Except SocksRequestParseError)

variable {c : Client}

namespace Recv

def invalid {α : Type} (e : SocksNegotiationError) : Recv α := throw (.invalidProtocol e)

/-- Go on only if the condition holds. -/
def ensure (ok : Bool) (e : SocksNegotiationError) : Recv Unit := if ok then pure () else invalid e

def negotiated {α : Type} : Except SocksNegotiationError α → Recv α
  | .ok a => pure a
  | .error e => invalid e

/-- `read_exact` -/
def readExact (n : Nat) : Recv Bytes := fun c =>
  if c.bytes.length < n then
    .error (match c.failed with
      | some e => .readFailed e
      | none => .clientClosed)
  else .ok (c.bytes.take n, { c with bytes := c.bytes.drop n })

def readU8 : Recv UInt8 := do
  return (← readExact 1).headD 0

def readU16 : Recv Nat := do
  let b ← readExact 2
  return be16 (b.getD 0 0) (b.getD 1 0)

theorem bind_ok {α β : Type} {x : Recv α} {f : α → Recv β} {r : β × Client}
    (h : (x >>= f).run c = .ok r) : ∃ p, x.run c = .ok p ∧ (f p.1).run p.2 = .ok r := by
  rw [StateT.run_bind] at h
  cases hx : x.run c with
  | error e => rw [hx] at h; cases h
  | ok p => rw [hx] at h; exact ⟨p, rfl, h⟩

theorem ensure_ok {ok : Bool} {e : SocksNegotiationError} {r : Unit × Client}
    (h : (ensure ok e).run c = .ok r) : r.2 = c := by
  cases ok <;> cases h
  rfl

theorem negotiated_ok {α : Type} {x : Except SocksNegotiationError α}
    {r : α × Client} (h : (negotiated x).run c = .ok r) : r.2 = c := by
  cases x <;> cases h
  rfl

theorem readExact_ok {n : Nat} {r : Bytes × Client} (h : (readExact n).run c = .ok r) :
    r = (c.bytes.take n, { c with bytes := c.bytes.drop n }) := by
  rw [StateT.run, readExact] at h
  split at h
  · cases h
  · cases h
    rfl

theorem readU8_ok {r : UInt8 × Client} (h : readU8.run c = .ok r) :
    r = (c.bytes.headD 0, { c with bytes := c.bytes.tail }) := by
  obtain ⟨p, hp, hr⟩ := bind_ok h
  rw [readExact_ok hp] at hr
  cases hr
  cases c.bytes <;> rfl

end Recv

/-- The bytes of a number, most significant byte first. -/
def beValue (b : Bytes) : Nat := b.foldl (fun n x => n * 256 + x.toNat) 0

structure Socks5Request where
  command : SocksCommand
  upstream : UpstreamAddr

namespace Socks5Request

variable [Idna] [IpText]

/-- The address type `0x03`. -/
def recvDomain : Recv UpstreamAddr := do
  let len ← Recv.readU8
  Recv.ensure (len ≠ 0) .invalidDomainString
  let domain ← Recv.readExact len.toNat
  Recv.ensure (validUtf8 domain) .invalidDomainString
  let port ← Recv.readU16
  match UpstreamAddr.fromHostStrAndPort domain port with
  | .ok upstream => return upstream
  | .error _ => Recv.invalid .invalidDomainString

def recvUpstream (addrType : UInt8) : Recv UpstreamAddr := do
  if addrType = 0x01 then
    let ipBytes ← Recv.readExact 4
    let port ← Recv.readU16
    return .fromIpAndPort (.v4 (BitVec.ofNat 32 (beValue ipBytes))) port
  else if addrType = 0x03 then recvDomain
  else if addrType = 0x04 then
    let ipBytes ← Recv.readExact 16
    let port ← Recv.readU16
    return .fromIpAndPort (.v6 (BitVec.ofNat 128 (beValue ipBytes))) port
  else Recv.invalid .invalidAddrType

def recv : Recv Socks5Request := do
  let version ← Recv.readU8
  Recv.ensure (version = 0x05) .invalidVersion
  let code ← Recv.readU8
  let command ← Recv.negotiated (SocksCommand.tryFrom code)
  let _rsv ← Recv.readU8
  let addrType ← Recv.readU8
  let upstream ← recvUpstream addrType
  return { command, upstream }

/-! ### The address that is read -/

/-- A domain request is read as a text. -/
theorem recvDomain_unmapped {r : UpstreamAddr × Client}
    (h : recvDomain.run c = .ok r) : r.1.host.Unmapped := by
  obtain ⟨len, -, h⟩ := Recv.bind_ok h
  obtain ⟨_, -, h⟩ := Recv.bind_ok h
  obtain ⟨domain, -, h⟩ := Recv.bind_ok h
  obtain ⟨_, -, h⟩ := Recv.bind_ok h
  obtain ⟨port, -, h⟩ := Recv.bind_ok h
  cases hu : UpstreamAddr.fromHostStrAndPort domain.1 port.1 with
  | error e => simp only [hu] at h; cases h
  | ok u =>
    simp only [hu] at h
    cases h
    exact UpstreamAddr.fromHostStrAndPort_unmapped hu

theorem recv_domain {r : Socks5Request × Client} (h : recv.run c = .ok r)
    (htype : c.bytes[3]? = some 0x03) : r.1.upstream.host.Unmapped := by
  obtain ⟨version, hv, h⟩ := Recv.bind_ok h
  obtain ⟨c1, hc1, h⟩ := Recv.bind_ok h
  obtain ⟨code, hcode, h⟩ := Recv.bind_ok h
  obtain ⟨command, hcommand, h⟩ := Recv.bind_ok h
  obtain ⟨rsv, hrsv, h⟩ := Recv.bind_ok h
  obtain ⟨addrType, haddr, h⟩ := Recv.bind_ok h
  obtain ⟨upstream, hup, h⟩ := Recv.bind_ok h
  cases h
  -- the checks in between leave the stream alone
  have htypeb : addrType.1 = 0x03 := by
    rw [Recv.readU8_ok haddr, Recv.readU8_ok hrsv, Recv.negotiated_ok hcommand,
      Recv.readU8_ok hcode, Recv.ensure_ok hc1, Recv.readU8_ok hv]
    rcases hb : c.bytes with _ | ⟨_, _ | ⟨_, _ | ⟨_, _ | ⟨b, bs⟩⟩⟩⟩ <;> rw [hb] at htype <;>
      cases htype
    rfl
  rw [htypeb] at hup
  exact recvDomain_unmapped hup

variable (a : Ipv4Addr)

/-- The bytes of an IPv4 address. -/
def octets : Bytes :=
  [UInt8.ofNat (a.toNat / 2 ^ 24), UInt8.ofNat (a.toNat / 2 ^ 16), UInt8.ofNat (a.toNat / 2 ^ 8),
    UInt8.ofNat a.toNat]

/-- An IPv6 request for the mapped spelling of an IPv4 address. -/
def mappedRequest (port : UInt8 × UInt8) : Bytes :=
  [5, 1, 0, 4, 0, 0, 0, 0, 0, 0, 0, 0, 0, 0, 0xff, 0xff] ++ octets a ++ [port.1, port.2]

omit [Idna] [IpText] in
theorem beValue_mapped :
    BitVec.ofNat 128 (beValue ([0, 0, 0, 0, 0, 0, 0, 0, 0, 0, 0xff, 0xff] ++ octets a)) =
      toIpv6Mapped a := by
  have ha : a.toNat < 2 ^ 32 := a.isLt
  have hval : beValue ([0, 0, 0, 0, 0, 0, 0, 0, 0, 0, 0xff, 0xff] ++ octets a) =
      0xffff * 2 ^ 32 + a.toNat := by
    have h0 : (0 : UInt8).toNat = 0 := rfl
    have h255 : (0xff : UInt8).toNat = 255 := rfl
    simp only [beValue, octets, cons_append, nil_append, foldl_cons,
      foldl_nil, UInt8.toNat_ofNat', h0, h255]
    omega
  apply BitVec.eq_of_toNat_eq
  rw [hval, toIpv6Mapped, BitVec.toNat_append, ← Nat.shiftLeft_add_eq_or_of_lt ha,
    Nat.shiftLeft_eq, BitVec.toNat_ofNat, Nat.mod_eq_of_lt (by omega)]
  rfl

/-- It is taken over as it is. -/
theorem recv_mapped (port : UInt8 × UInt8) :
    recv.run ⟨mappedRequest a port, none⟩ =
      .ok (⟨.tcpConnect, .fromIpAndPort (.v6 (toIpv6Mapped a)) (be16 port.1 port.2)⟩,
        ⟨[], none⟩) := by
  rw [← beValue_mapped]
  rfl

end Socks5Request

end Vey.Socks

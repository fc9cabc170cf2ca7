import Vey.Schemes.IpText
import Vey.Types.ServerName

/-! `Host` and `UpstreamAddr`: where a client wants to go.

        "[::ffff:1.2.3.4]"     from_str     Ip(1.2.3.4)            normalised
        url::Host::Ipv6(..)    try_from     Ip(::ffff:1.2.3.4)     kept
        IpAddr::V6(..)         from         Ip(::ffff:1.2.3.4)     kept

    A text never gives the mapped spelling of an IPv4 address; an address taken over as it is does. -/

namespace Vey.Net
open Schemes Vey.Types

inductive Host where
  | ip (ip : IpAddr)
  | domain (d : DomainName)
  deriving DecidableEq

/-- An error with its text, or the error of the domain name. -/
inductive AddrParseError where
  | msg (text : String)
  | domain (e : DomainNameParseError)

/-- `url::Host` -/
inductive UrlHost where
  | ipv4 (ip : Ipv4Addr)
  | ipv6 (ip : Ipv6Addr)
  | domain (s : Bytes)

def isDigit (b : UInt8) : Bool := 48 ≤ b && b ≤ 57

section
variable [Idna] [IpText]

namespace Host

def fromMaybeMappedIp6 (ip6 : Ipv6Addr) : Host :=
  match toIpv4Mapped ip6 with
  | some ip4 => .ip (.v4 ip4)
  | none => .ip (.v6 ip6)

def fromDomainStr (domain : Bytes) : Except AddrParseError Host :=
  match DomainName.parse domain with
  | .ok d => .ok (.domain d)
  | .error e => .error (.domain e)

/-- `TryFrom<url::Host<&str>>` -/
def tryFromUrl : UrlHost → Except DomainNameParseError Host
  | .ipv4 ip4 => .ok (.ip (.v4 ip4))
  | .ipv6 ip6 => .ok (.ip (.v6 ip6))
  | .domain s => (DomainName.parse s).map .domain

def fromStr : Bytes → Except AddrParseError Host
  | [] => .error (.msg "empty string")
  | b :: bs =>
    let s := b :: bs
    if b = 91 then
      -- [ .. ]
      match if s.getLast? = some 93 then IpText.parseIpv6 bs.dropLast else none with
      | some ip6 => .ok (fromMaybeMappedIp6 ip6)
      | none => .error (.msg "invalid ipv6 ip in squared brackets")
    else if b = 58 then
      match IpText.parseIpv6 s with
      | some ip6 => .ok (fromMaybeMappedIp6 ip6)
      | none => .error (.msg "invalid ipv6 ip")
    else if isDigit b then
      match IpText.parseIp s with
      | some (.v4 ip4) => .ok (.ip (.v4 ip4))
      | some (.v6 ip6) => .ok (fromMaybeMappedIp6 ip6)
      | none => fromDomainStr s
    else if isHexLetter b then
      match IpText.parseIpv6 s with
      | some ip6 => .ok (.ip (.v6 ip6))
      | none => fromDomainStr s
    else fromDomainStr s

end Host

structure UpstreamAddr where
  host : Host
  port : Nat
  deriving DecidableEq

namespace UpstreamAddr

def fromIpAndPort (ip : IpAddr) (port : Nat) : UpstreamAddr := ⟨.ip ip, port⟩

def fromDomainStrAndPort (domain : Bytes) (port : Nat) : Except AddrParseError UpstreamAddr :=
  (Host.fromDomainStr domain).map (⟨·, port⟩)

def fromHostStrAndPort (host : Bytes) (port : Nat) : Except AddrParseError UpstreamAddr :=
  (Host.fromStr host).map (⟨·, port⟩)

def fromFullDomainStr (s : Bytes) : Except AddrParseError UpstreamAddr :=
  match memchr 58 s with
  | some i =>
    match parseUnsigned 16 (s.drop (i + 1)) with
    | some port => fromDomainStrAndPort (s.take i) port
    | none => .error (.msg "invalid port")
  | none => fromDomainStrAndPort s 0

def fromMaybeMappedIp6 (ip6 : Ipv6Addr) (port : Nat) : UpstreamAddr :=
  ⟨Host.fromMaybeMappedIp6 ip6, port⟩

/-- `TryFrom<&Url>`, of the host and the port (or the known default port) of the URL. -/
def tryFromUrl (host : Option UrlHost) (port : Option Nat) : Except AddrParseError UpstreamAddr :=
  match host with
  | none => .error (.msg "no host found in this url")
  | some host =>
    match port with
    | none => .error (.msg "unable to detect port in this url")
    | some port =>
      match Host.tryFromUrl host with
      | .ok host => .ok ⟨host, port⟩
      | .error e => .error (.domain e)

/-- An IPv6 text without a port. -/
def fromIp6Str (msg : String) (s : Bytes) : Except AddrParseError UpstreamAddr :=
  match IpText.parseIpv6 s with
  | some ip6 => .ok (fromMaybeMappedIp6 ip6 0)
  | none => .error (.msg msg)

/-- An IPv4 text or a domain name, with a port that is known. -/
def fromIp4OrDomainStr (s : Bytes) (port : Nat) : Except AddrParseError UpstreamAddr :=
  match IpText.parseIpv4 s with
  | some ip4 => .ok (fromIpAndPort (.v4 ip4) port)
  | none => fromDomainStrAndPort s port

def fromStr : Bytes → Except AddrParseError UpstreamAddr
  | [] => .error (.msg "empty str")
  | b :: bs =>
    let s := b :: bs
    if b = 91 then
      if s.getLast? = some 93 then fromIp6Str "invalid ipv6 ip in squared brackets" bs.dropLast
      else if s.getLast?.any isDigit then
        match IpText.parseSocketAddrV6 s with
        | some (ip6, port) => .ok (fromMaybeMappedIp6 ip6 port)
        | none => .error (.msg "invalid ipv6 addr")
      else .error (.msg "invalid ipv6 ip or addr")
    else if b = 58 then fromIp6Str "invalid ipv6 ip" s
    else if isDigit b then
      match memchr 58 s with
      | some i =>
        if (memchr 58 (s.drop (i + 1))).isSome then fromIp6Str "invalid ipv6 ip" s
        else
          match parseUnsigned 16 (s.drop (i + 1)) with
          | some port => fromIp4OrDomainStr (s.take i) port
          | none => .error (.msg "invalid port")
      | none => fromIp4OrDomainStr s 0
    else if isHexLetter b then
      match IpText.parseIpv6 s with
      | some ip6 => .ok (fromIpAndPort (.v6 ip6) 0)
      | none => fromFullDomainStr s
    else fromFullDomainStr s

end UpstreamAddr

/-! ### No text gives a mapped address -/

/-- The host is not the mapped spelling of an IPv4 address. -/
def Host.Unmapped (h : Host) : Prop := ∀ ip6, h = .ip (.v6 ip6) → toIpv4Mapped ip6 = none

variable {s : Bytes}

namespace Host

omit [Idna] [IpText] in
theorem fromMaybeMappedIp6_unmapped (ip6 : Ipv6Addr) : (fromMaybeMappedIp6 ip6).Unmapped := by
  intro ip h
  cases hm : toIpv4Mapped ip6 with
  | some ip4 => simp [fromMaybeMappedIp6, hm] at h
  | none =>
    simp only [fromMaybeMappedIp6, hm, Host.ip.injEq, IpAddr.v6.injEq] at h
    rw [← h, hm]

omit [IpText] in
theorem fromDomainStr_unmapped {h : Host} (hs : fromDomainStr s = .ok h) : h.Unmapped := by
  intro ip he
  rw [fromDomainStr] at hs
  split at hs
  · cases hs
    cases he
  · cases hs

omit [Idna] in
/-- "won't be ipv4 mapped" -/
theorem letter_unmapped {b : UInt8} {bs : Bytes} {ip6 : Ipv6Addr} (hb : isHexLetter b = true)
    (hp : IpText.parseIpv6 (b :: bs) = some ip6) : (Host.ip (.v6 ip6)).Unmapped := by
  intro ip h
  cases h
  exact toIpv4Mapped_of_high (IpText.parseIpv6_letter hb hp)

theorem fromStr_unmapped {h : Host} (hs : fromStr s = .ok h) : h.Unmapped := by
  cases s with
  | nil => cases hs
  | cons b bs =>
    simp only [fromStr] at hs
    split_ifs at hs with h1 h2 h3 h4 h5
    · split at hs <;> cases hs
      exact fromMaybeMappedIp6_unmapped _
    · split at hs <;> cases hs
      exact fromMaybeMappedIp6_unmapped _
    · split at hs
      · cases hs
        intro ip he
        cases he
      · cases hs
        exact fromMaybeMappedIp6_unmapped _
      · exact fromDomainStr_unmapped hs
    · split at hs
      next ip6 hp =>
        cases hs
        exact letter_unmapped h5 hp
      next => exact fromDomainStr_unmapped hs
    · exact fromDomainStr_unmapped hs

end Host

namespace UpstreamAddr

variable {u : UpstreamAddr}

omit [IpText] in
theorem fromDomainStrAndPort_unmapped {port : Nat}
    (hs : fromDomainStrAndPort s port = .ok u) : u.host.Unmapped := by
  rw [fromDomainStrAndPort] at hs
  cases hd : Host.fromDomainStr s with
  | error e => rw [hd] at hs; cases hs
  | ok h =>
    rw [hd] at hs
    cases hs
    exact Host.fromDomainStr_unmapped hd

theorem fromHostStrAndPort_unmapped {port : Nat}
    (hs : fromHostStrAndPort s port = .ok u) : u.host.Unmapped := by
  rw [fromHostStrAndPort] at hs
  cases hd : Host.fromStr s with
  | error e => rw [hd] at hs; cases hs
  | ok h =>
    rw [hd] at hs
    cases hs
    exact Host.fromStr_unmapped hd

omit [IpText] in
theorem fromFullDomainStr_unmapped (hs : fromFullDomainStr s = .ok u) : u.host.Unmapped := by
  rw [fromFullDomainStr] at hs
  split at hs
  · split at hs
    · exact fromDomainStrAndPort_unmapped hs
    · cases hs
  · exact fromDomainStrAndPort_unmapped hs

omit [Idna] in
theorem fromIp6Str_unmapped {msg : String} (hs : fromIp6Str msg s = .ok u) : u.host.Unmapped := by
  rw [fromIp6Str] at hs
  split at hs <;> cases hs
  exact Host.fromMaybeMappedIp6_unmapped _

theorem fromIp4OrDomainStr_unmapped {port : Nat}
    (hs : fromIp4OrDomainStr s port = .ok u) : u.host.Unmapped := by
  rw [fromIp4OrDomainStr] at hs
  split at hs
  · cases hs
    intro ip he
    cases he
  · exact fromDomainStrAndPort_unmapped hs

theorem fromStr_unmapped (hs : fromStr s = .ok u) : u.host.Unmapped := by
  cases s with
  | nil => cases hs
  | cons b bs =>
    simp only [fromStr] at hs
    split_ifs at hs with h1 h2 h3 h4 h5 h6
    · exact fromIp6Str_unmapped hs
    · split at hs <;> cases hs
      exact Host.fromMaybeMappedIp6_unmapped _
    · exact fromIp6Str_unmapped hs
    · split at hs
      · split_ifs at hs
        · exact fromIp6Str_unmapped hs
        · split at hs
          · exact fromIp4OrDomainStr_unmapped hs
          · cases hs
      · exact fromIp4OrDomainStr_unmapped hs
    · split at hs
      next ip6 hp =>
        cases hs
        exact Host.letter_unmapped h6 hp
      next => exact fromFullDomainStr_unmapped hs
    · exact fromFullDomainStr_unmapped hs

end UpstreamAddr

end

end Vey.Net

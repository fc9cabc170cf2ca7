import Vey.Schemes.Bytes

/-! `DomainName` and `TlsServerName`: the name in a server name extension. -/

namespace Vey.Types
open Schemes

/-- `u16::from_be_bytes` -/
def be16 (hi lo : UInt8) : Nat := hi.toNat * 256 + lo.toNat

/-- `domain_to_ascii_cow` of the `idna` crate. -/
class Idna where
  domainToAscii : Bytes → Option Bytes

instance (priority := low) instIdnaPlain : Idna where
  domainToAscii := some

inductive DomainNameParseError where
  | empty
  | tooLong
  | invalid
  deriving DecidableEq

structure DomainName where
  fqdn : Bytes
  deriving DecidableEq

namespace DomainName

/-- MAX_LEN -/
def maxLen : Nat := 254

/-- MAX_FQDN_LEN -/
def maxFqdnLen : Nat := 255

def parse [Idna] (b : Bytes) : Except DomainNameParseError DomainName :=
  let b := b.dropWhile (· = 46)
  if b = [] then .error .empty
  else match Idna.domainToAscii b with
    | none => .error .invalid
    | some domain =>
      if domain.getLast? = some 46 then
        if maxFqdnLen < domain.length then .error .tooLong else .ok ⟨domain⟩
      else if maxLen < domain.length then .error .tooLong
      else .ok ⟨domain ++ [46]⟩

def asBytes (d : DomainName) : Bytes := d.fqdn.dropLast

end DomainName

inductive TlsServerNameError where
  | notEnoughData (len : Nat)
  | invalidListLength (len : Nat)
  | invalidNameType (nameType : UInt8)
  | invalidNameLength (len : Nat)
  | invalidDomain (e : DomainNameParseError)
  deriving DecidableEq

structure TlsServerName where
  domain : DomainName
  deriving DecidableEq

def TlsServerName.fromExtensionValue [Idna] : Bytes → Except TlsServerNameError TlsServerName
  | listHi :: listLo :: nameType :: nameHi :: nameLo :: rest =>
    let bufLen := rest.length + 5
    let listLen := be16 listHi listLo
    let nameLen := be16 nameHi nameLo
    if listLen + 2 ≠ bufLen then .error (.invalidListLength listLen)
    else if nameType ≠ 0 then .error (.invalidNameType nameType)
    else if bufLen < nameLen + 5 then .error (.invalidNameLength nameLen)
    else match DomainName.parse (rest.take nameLen) with
      | .error e => .error (.invalidDomain e)
      | .ok domain => .ok ⟨domain⟩
  | buf => .error (.notEnoughData buf.length)

end Vey.Types

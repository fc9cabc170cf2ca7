import Vey.Types.ServerName

/-! The ClientHello message.

        type  length(24)  | version  random(32)  session id  cipher suites  compression  [extensions]
        `---- header ---'   `---------------------------- body -----------------------------------'

    The body is checked field by field; an extension is looked up by walking the list of extensions. -/

namespace Vey.Codec
open Schemes Vey.Types List

structure RawVersion where
  major : UInt8
  minor : UInt8
  deriving DecidableEq

/-- TLCP 1.1, SSL 3.0, TLS 1.0, TLS 1.1, TLS 1.2 and TLS 1.3 -/
def RawVersion.supported (v : RawVersion) : Bool :=
  [(1, 1), (3, 0), (3, 1), (3, 2), (3, 3)].contains (v.major, v.minor)

/-- `HandshakeType::ClientHello` -/
def handshakeTypeClientHello : UInt8 := 1

structure HandshakeHeader where
  msgType : UInt8
  msgLength : Nat
  deriving DecidableEq

namespace HandshakeHeader

/-- SIZE -/
def size : Nat := 4

def tryParse : Bytes → Option HandshakeHeader
  | msgType :: b₁ :: b₂ :: b₃ :: _ =>
    some ⟨msgType, b₁.toNat * 65536 + b₂.toNat * 256 + b₃.toNat⟩
  | _ => none

def encodedLen (h : HandshakeHeader) : Nat := size + h.msgLength

end HandshakeHeader

/-- A handshake message as it is sent. -/
structure Handshake where
  msgType : UInt8
  body : Bytes
  fits : body.length < 2 ^ 24

namespace Handshake
variable (m : Handshake)

def header : HandshakeHeader := ⟨m.msgType, m.body.length⟩

def message : Bytes :=
  m.msgType :: UInt8.ofNat (m.body.length / 65536) ::
    UInt8.ofNat (m.body.length / 256 % 256) :: UInt8.ofNat (m.body.length % 256) :: m.body

theorem length_message : m.message.length = 4 + m.body.length := by
  rw [message]
  simp only [length_cons]
  omega

theorem encodedLen_header : m.header.encodedLen = m.message.length := m.length_message.symm

/-- The header is there with the first four bytes. -/
theorem tryParse_start {p tail rest : Bytes} (h : p ++ tail = m.message ++ rest) :
    HandshakeHeader.tryParse p = if 4 ≤ p.length then some m.header else none := by
  have hfits := m.fits
  have hlen : (UInt8.ofNat (m.body.length / 65536)).toNat * 65536 +
      (UInt8.ofNat (m.body.length / 256 % 256)).toNat * 256 +
        (UInt8.ofNat (m.body.length % 256)).toNat = m.body.length := by
    simp only [UInt8.toNat_ofNat']
    omega
  match p, h with
  | [], _ => rfl
  | [_], _ => rfl
  | [_, _], _ => rfl
  | [_, _, _], _ => rfl
  | b₀ :: b₁ :: b₂ :: b₃ :: q, h =>
    simp only [message, cons_append, cons.injEq] at h
    obtain ⟨rfl, rfl, rfl, rfl, -⟩ := h
    rw [if_pos (by simp), HandshakeHeader.tryParse, hlen]
    rfl

end Handshake

inductive ClientHelloParseError where
  | invalidMessageType (msgType : UInt8)
  | invalidMessageLength
  | invalidCipherSuitesLength
  | unsupportedVersion (v : RawVersion)
  deriving DecidableEq

structure ClientHello where
  legacyVersion : RawVersion
  cipherSuites : Bytes
  compressionMethods : Option Bytes
  extensions : Option Bytes
  deriving DecidableEq

namespace ClientHello

/-- `ensure_min` -/
def ensureMin (buf : Bytes) (min : Nat) : Except ClientHelloParseError Unit :=
  if buf.length < min then .error .invalidMessageLength else .ok ()

/-- The extensions at the end of the body. -/
def parseExtensions (ch : ClientHello) (left : Bytes) :
    Except ClientHelloParseError ClientHello := do
  if left = [] then return ch
  ensureMin left 2
  let extensionsLen := be16 (left.getD 0 0) (left.getD 1 0)
  if 0 < extensionsLen then
    ensureMin left (2 + extensionsLen)
    if 2 + extensionsLen < left.length then throw .invalidMessageLength
    return { ch with extensions := some ((left.drop 2).take extensionsLen) }
  else
    if 2 < left.length then throw .invalidMessageLength
    return ch

/-- Parse a ClientHello message without the header of the handshake message. -/
def parseMsgData (data : Bytes) : Except ClientHelloParseError ClientHello := do
  ensureMin data 2
  let legacyVersion : RawVersion := ⟨data.getD 0 0, data.getD 1 0⟩
  if !legacyVersion.supported then throw (.unsupportedVersion legacyVersion)
  -- Random Data
  let left := data.drop 2
  ensureMin left 32
  -- Session ID
  let left := left.drop 32
  ensureMin left 1
  let sessionIdLen := (left.getD 0 0).toNat
  ensureMin left (1 + sessionIdLen)
  -- Cipher Suites
  let left := left.drop (1 + sessionIdLen)
  ensureMin left 2
  let cipherSuitesLen := be16 (left.getD 0 0) (left.getD 1 0)
  if cipherSuitesLen = 0 ∨ cipherSuitesLen % 2 ≠ 0 then throw .invalidCipherSuitesLength
  ensureMin left (2 + cipherSuitesLen)
  let cipherSuites := (left.drop 2).take cipherSuitesLen
  -- Compression Methods
  let left := left.drop (2 + cipherSuitesLen)
  ensureMin left 1
  let compressionMethodsLen := (left.getD 0 0).toNat
  ensureMin left (1 + compressionMethodsLen)
  let compressionMethods := if 0 < compressionMethodsLen
    then some ((left.drop 1).take compressionMethodsLen) else none
  parseExtensions ⟨legacyVersion, cipherSuites, compressionMethods, none⟩
    (left.drop (1 + compressionMethodsLen))

/-- Parse a ClientHello message directly from the data of a fragment. -/
def parseFragment (header : HandshakeHeader) (data : Bytes) :
    Except ClientHelloParseError ClientHello :=
  if header.msgType ≠ handshakeTypeClientHello then .error (.invalidMessageType header.msgType)
  else if data.length < header.encodedLen then .error .invalidMessageLength
  else parseMsgData ((data.take header.encodedLen).drop HandshakeHeader.size)

end ClientHello

/-! ### Extensions -/

inductive ExtensionParseError where
  | notEnoughData
  | invalidLength
  deriving DecidableEq

/-- `ExtensionType::ServerName`; the types are compared as numbers. -/
def extensionTypeServerName : Nat := 0

structure Extension where
  extType : Nat
  extLen : Nat
  extData : Option Bytes
  deriving DecidableEq

namespace Extension

/-- HEADER_LEN -/
def headerLen : Nat := 4

def parse : Bytes → Except ExtensionParseError Extension
  | typeHi :: typeLo :: lenHi :: lenLo :: rest =>
    let extType := be16 typeHi typeLo
    let extLen := be16 lenHi lenLo
    if extLen = 0 then .ok ⟨extType, 0, none⟩
    else if rest.length < extLen then .error .invalidLength
    else .ok ⟨extType, extLen, some (rest.take extLen)⟩
  | _ => .error .notEnoughData

end Extension

/-- `ExtensionList::get_ext` -/
def getExt (extType : Nat) (data : Bytes) : Except ExtensionParseError (Option Bytes) :=
  if data = [] then .ok none
  else match Extension.parse data with
    | .error e => .error e
    | .ok ext =>
      if ext.extType = extType then .ok ext.extData
      else getExt extType (data.drop (Extension.headerLen + ext.extLen))
termination_by data.length
decreasing_by
  have := List.length_pos_iff.mpr ‹¬data = []›
  rw [List.length_drop, Extension.headerLen]
  omega

def ClientHello.getExt (ch : ClientHello) (extType : Nat) :
    Except ExtensionParseError (Option Bytes) :=
  match ch.extensions with
  | none => .ok none
  | some data => Codec.getExt extType data

end Vey.Codec

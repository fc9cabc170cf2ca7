import Vey.Types.ServerName

/-! Keyless messages.

        0        2        4                8
        | version | length |   message id   | payload ...

    A request is sent on under an id of the connection; its response goes back under the header of the
    request, with the length of the response. -/

namespace Vey.Keyless
open Schemes Vey.Types List

/-- KEYLESS_HEADER_LEN -/
def keylessHeaderLen : Nat := 8

/-- `u32::from_be_bytes` -/
def be32 (b : Bytes) : UInt32 :=
  UInt32.ofNat (be16 (b.getD 0 0) (b.getD 1 0) * 65536 + be16 (b.getD 2 0) (b.getD 3 0))

/-- `u32::to_be_bytes` -/
def toBe32 (n : UInt32) : Bytes :=
  [.ofNat (n.toNat / 2 ^ 24), .ofNat (n.toNat / 2 ^ 16), .ofNat (n.toNat / 2 ^ 8), .ofNat n.toNat]

theorem be32_toBe32 (n : UInt32) : be32 (toBe32 n) = n := by
  have hn := n.toNat_lt
  have hval : be16 (.ofNat (n.toNat / 2 ^ 24)) (.ofNat (n.toNat / 2 ^ 16)) * 65536 +
      be16 (.ofNat (n.toNat / 2 ^ 8)) (.ofNat n.toNat) = n.toNat := by
    simp only [be16, UInt8.toNat_ofNat']
    omega
  exact (congrArg UInt32.ofNat hval).trans (UInt32.ofNat_toNat)

structure KeylessHeader where
  bytes : Bytes
  size : bytes.length = keylessHeaderLen
  deriving DecidableEq

namespace KeylessHeader

variable (h : KeylessHeader)

def version : Bytes := h.bytes.take 2

def payloadLen : Nat := be16 (h.bytes.getD 2 0) (h.bytes.getD 3 0)

def syncPayloadLen (h other : KeylessHeader) : KeylessHeader where
  bytes := h.bytes.take 2 ++ ((other.bytes.drop 2).take 2 ++ h.bytes.drop 4)
  size := by
    have h₁ := h.size
    have h₂ := other.size
    simp only [keylessHeaderLen] at h₁ h₂ ⊢
    simp only [List.length_append, List.length_take, List.length_drop]
    omega

def id : UInt32 := be32 (h.bytes.drop 4)

def setId (id : UInt32) : KeylessHeader where
  bytes := h.bytes.take 4 ++ toBe32 id
  size := by
    have h₁ := h.size
    simp only [keylessHeaderLen] at h₁ ⊢
    simp only [List.length_append, List.length_take, toBe32, List.length_cons, List.length_nil]
    omega

variable (other : KeylessHeader)

theorem length_take {n : Nat} (hn : n ≤ 8) : (h.bytes.take n).length = n := by
  have hsize := h.size
  simp only [keylessHeaderLen] at hsize
  rw [List.length_take]
  omega

@[simp] theorem id_setId (n : UInt32) : (h.setId n).id = n := by
  rw [id, setId, drop_left' (h.length_take (by decide)), be32_toBe32]

@[simp] theorem version_syncPayloadLen : (h.syncPayloadLen other).version = h.version := by
  rw [version, syncPayloadLen, take_left' (h.length_take (by decide)), version]

@[simp] theorem id_syncPayloadLen : (h.syncPayloadLen other).id = h.id := by
  have hlen : (h.bytes.take 2 ++ (other.bytes.drop 2).take 2).length = 4 := by
    have hsize := other.size
    simp only [keylessHeaderLen] at hsize
    rw [List.length_append, h.length_take (by decide), List.length_take, List.length_drop]
    omega
  have hdrop : (h.syncPayloadLen other).bytes.drop 4 = h.bytes.drop 4 := by
    dsimp only [syncPayloadLen]
    rw [← append_assoc, drop_left' hlen]
  rw [id, hdrop, id]

@[simp] theorem payloadLen_syncPayloadLen :
    (h.syncPayloadLen other).payloadLen = other.payloadLen := by
  have hget : ∀ i, i < 2 → (h.syncPayloadLen other).bytes.getD (2 + i) 0 =
      other.bytes.getD (2 + i) 0 := by
    intro i hi
    have hsize := other.size
    simp only [keylessHeaderLen] at hsize
    have hlen : ((other.bytes.drop 2).take 2).length = 2 := by
      rw [List.length_take, List.length_drop]
      omega
    simp only [syncPayloadLen, getD_eq_getElem?_getD]
    rw [getElem?_append_right (by rw [h.length_take (by decide)]; omega),
      h.length_take (by decide), Nat.add_sub_cancel_left, getElem?_append_left (by omega),
      getElem?_take_of_lt hi, getElem?_drop]
  rw [payloadLen, hget 0 (by decide), hget 1 (by decide), payloadLen]

end KeylessHeader

structure KeylessRequest where
  header : KeylessHeader
  payload : Bytes
  deriving DecidableEq

def KeylessRequest.refresh (r : KeylessRequest) (id : UInt32) : KeylessRequest :=
  { r with header := r.header.setId id }

structure KeylessUpstreamResponse where
  header : KeylessHeader
  payload : Bytes
  deriving DecidableEq

namespace KeylessUpstreamResponse

def id (r : KeylessUpstreamResponse) : UInt32 := r.header.id

def refresh (r : KeylessUpstreamResponse) (header : KeylessHeader) : KeylessUpstreamResponse where
  header := header.syncPayloadLen r.header
  payload := r.payload

/-- `recv`: a response at the front of what has arrived, once it is complete. -/
def recv (wire : Bytes) : Option (KeylessUpstreamResponse × Bytes) :=
  if h : keylessHeaderLen ≤ wire.length then
    let header : KeylessHeader := ⟨wire.take keylessHeaderLen, by rw [List.length_take]; omega⟩
    let rest := wire.drop keylessHeaderLen
    if header.payloadLen ≤ rest.length then
      some (⟨header, rest.take header.payloadLen⟩, rest.drop header.payloadLen)
    else none
  else none

end KeylessUpstreamResponse

/-- The buffer of a `KeylessInternalErrorResponse`. -/
def internalError (header : KeylessHeader) : Bytes :=
  header.version ++ ([0x00, 0x08] ++ (header.bytes.drop 4 ++
    [0x11, 0x00, 0x01, 0xFF, 0x12, 0x00, 0x01, 0x08]))

inductive KeylessResponse where
  | upstream (r : KeylessUpstreamResponse)
  | ofLocal (buf : Bytes)
  deriving DecidableEq

end Vey.Keyless

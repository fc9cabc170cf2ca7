import Vey.SniProxy.ClientHello

/-! A ClientHello message is recognised in the same way however it is cut.

        message     [ header |            body             ] further handshake bytes
        records     [  |      |   |            |             ... ]
        reads       [    |       |                |          ...    ]

    The coalescer holds what the records behind have of the message. It has the header once there are
    four bytes of it. -/

namespace Vey.SniProxy
open Schemes Vey.Types Codec Serve Http List HandshakeCoalescer RecordHeader

/-- A ClientHello message, given by its body. -/
structure Hello where
  body : Bytes
  fits : body.length < 2 ^ 24

namespace Hello

def toHandshake (m : Hello) : Handshake := ⟨handshakeTypeClientHello, m.body, m.fits⟩

def header (m : Hello) : HandshakeHeader := m.toHandshake.header

def message (m : Hello) : Bytes := m.toHandshake.message

end Hello

/-- A handshake record with a fragment that may be sent. -/
structure HandshakeRecord where
  version : RawVersion
  supported : version.supported = true
  fragment : Bytes
  nonempty : fragment ≠ []
  fits : fragment.length ≤ 2 ^ 14

namespace HandshakeRecord

variable (r : HandshakeRecord)

/-- The header of the record. -/
def head : Bytes :=
  [contentTypeHandshake, r.version.major, r.version.minor,
    UInt8.ofNat (r.fragment.length / 256), UInt8.ofNat (r.fragment.length % 256)]

def wire : Bytes := r.head ++ r.fragment

/-- What is parsed from it. -/
def record : Record :=
  { header := ⟨r.version, contentTypeHandshake, r.fragment.length⟩, fragment := r.fragment }

theorem length_wire : r.wire.length = 5 + r.fragment.length := length_append

theorem parse_header (data : Bytes) : parse (r.head ++ data) = .ok r.record.header := by
  have hfits := r.fits
  have hlen : be16 (UInt8.ofNat (r.fragment.length / 256))
      (UInt8.ofNat (r.fragment.length % 256)) = r.fragment.length := by
    simp only [be16, UInt8.toNat_ofNat']
    omega
  simp only [parse, head, cons_append, getD_cons_zero,
    getD_cons_succ, hlen, r.supported]
  rfl

/-- With the whole header in the buffer, the fragment is still to come or there. -/
theorem parse_head (data : Bytes) :
    Record.parse (r.head ++ data) =
      if data.length < r.fragment.length then
        .error (.needMoreData (5 + r.fragment.length - (5 + data.length)))
      else .ok { r.record with fragment := data.take r.fragment.length } := by
  have hpos := length_pos_iff.mpr r.nonempty
  have hfits := r.fits
  have hlen : (r.head ++ data).length = 5 + data.length := length_append
  have hdrop : (r.head ++ data).drop size = data := rfl
  have hsmall : ¬2 ^ 14 < r.record.header.fragmentSize := Nat.not_lt.mpr hfits
  have hsome : ¬(r.record.header.contentType = contentTypeHandshake ∧
      r.record.header.fragmentSize = 0) := fun h => hpos.ne' h.2
  rw [Record.parse, if_neg (by rw [hlen, size]; omega)]
  simp only [parse_header, if_neg hsmall, if_neg hsome, hlen, hdrop]
  by_cases hlt : data.length < r.fragment.length
  · rw [if_pos hlt]
    exact if_pos (by rw [size]; exact Nat.add_lt_add_left hlt 5)
  · rw [if_neg hlt]
    exact if_neg (by rw [size]; exact fun h => hlt (Nat.lt_of_add_lt_add_left h))

theorem parse_wire (tail : Bytes) : Record.parse (r.wire ++ tail) = .ok r.record := by
  rw [wire, append_assoc, parse_head, if_neg (by rw [length_append]; omega),
    take_left]
  rfl

/-- A record that is not complete. -/
theorem parse_short {data tail rest : Bytes} (h : data ++ rest = r.wire ++ tail)
    (hlt : data.length < r.wire.length) : ∃ n, Record.parse data = .error (.needMoreData n) := by
  rcases Nat.lt_or_ge data.length size with hfew | hmany
  · exact ⟨_, by rw [Record.parse, if_pos hfew]⟩
  · have hsplit : data = r.head ++ data.drop 5 := by
      have htake : data.take 5 = r.head := by
        have := congrArg (take size) h
        rw [take_append_of_le_length hmany, wire, append_assoc] at this
        exact this
      rw [← htake, take_append_drop]
    rw [length_wire] at hlt
    rw [size] at hmany
    rw [hsplit, parse_head, if_pos (by rw [length_drop]; omega)]
    exact ⟨_, rfl⟩

end HandshakeRecord

open HandshakeRecord (length_wire record)

namespace Hello

variable (m : Hello)

theorem length_message : m.message.length = 4 + m.body.length := m.toHandshake.length_message

theorem encodedLen_header : m.header.encodedLen = m.message.length :=
  m.toHandshake.encodedLen_header

theorem message_drop : m.message.drop HandshakeHeader.size = m.body := rfl

theorem parseClientHello_message :
    (⟨m.header, m.message⟩ : HandshakeMessage).parseClientHello =
      ClientHello.parseMsgData m.body := by
  have hlen : ¬m.message.length < m.header.encodedLen := by
    rw [m.encodedLen_header]
    exact Nat.lt_irrefl _
  have htype : ¬m.header.msgType ≠ handshakeTypeClientHello := fun h => h rfl
  simp only [HandshakeMessage.parseClientHello, ClientHello.parseFragment, if_neg htype,
    if_neg hlen]
  rw [m.encodedLen_header, take_length, m.message_drop]

theorem tryParse_start {p tail rest : Bytes} (h : p ++ tail = m.message ++ rest) :
    HandshakeHeader.tryParse p = if 4 ≤ p.length then some m.header else none :=
  m.toHandshake.tryParse_start h

end Hello

/-! ### One record -/

section
variable (m : Hello) (max : Nat)

/-- The coalescer with the bytes `p` of the message. -/
def holding (p : Bytes) : HandshakeCoalescer where
  maxMessageSize := max
  header := if 4 ≤ p.length then some m.header else none
  buf := p

variable {m max} {p f tail rest : Bytes}

theorem holding_of_four (h : 4 ≤ p.length) : holding m max p = ⟨max, some m.header, p⟩ := by
  rw [holding, if_pos h]

theorem holding_of_few (h : p.length < 4) : holding m max p = ⟨max, none, p⟩ := by
  rw [holding, if_neg (by omega)]

/-- The first fragment. -/
theorem addFirstFragment_holding (hmax : m.body.length ≤ max) (h : f ++ tail = m.message ++ rest) :
    (holding m max []).addFirstFragment f =
      .ok (min f.length m.message.length, holding m max (f.take m.message.length)) := by
  have hlen := m.length_message
  have hsize : ¬max < m.header.msgLength := Nat.not_lt.mpr hmax
  have hparse := m.tryParse_start h
  have hstart : holding m max [] = ⟨max, none, []⟩ := rfl
  rw [hstart]
  by_cases hfour : 4 ≤ f.length
  · rw [if_pos hfour] at hparse
    rw [holding_of_four (by rw [length_take]; omega)]
    simp only [addFirstFragment, hparse, if_neg hsize, m.encodedLen_header, nil_append]
    rcases Nat.le_total f.length m.message.length with hle | hge
    · rw [if_pos hle, take_of_length_le hle, Nat.min_eq_left hle]
    · rw [Nat.min_eq_right hge]
      split
      case isTrue hle => rw [take_of_length_le hle, Nat.le_antisymm hge hle]
      case isFalse => rfl
  · rw [if_neg hfour] at hparse
    rw [take_of_length_le (by omega), Nat.min_eq_left (by omega), holding_of_few (by omega)]
    simp only [addFirstFragment, hparse, nil_append]

/-- A fragment behind the header. -/
theorem coalesceFragment_headed (hfour : 4 ≤ p.length) (hp : p.length < m.message.length) :
    (holding m max p).coalesceFragment f =
      .ok (min f.length (m.message.length - p.length),
        holding m max ((p ++ f).take m.message.length)) := by
  have hne : p ≠ [] := by
    rintro rfl
    cases hfour
  rw [holding_of_four hfour,
    holding_of_four (by rw [length_take, length_append]; omega)]
  simp only [coalesceFragment, if_neg hne, m.encodedLen_header]
  rw [take_append, take_of_length_le hp.le]
  split
  case isTrue hle => rw [take_of_length_le hle, Nat.min_eq_left hle]
  case isFalse hgt => rw [Nat.min_eq_right (by omega)]

/-- A fragment that goes on with the header. -/
theorem coalesceFragment_unheaded (hmax : m.body.length ≤ max)
    (h : p ++ f ++ tail = m.message ++ rest) (hne : p ≠ []) (hfew : p.length < 4) :
    (holding m max p).coalesceFragment f =
      .ok (min f.length (m.message.length - p.length),
        holding m max ((p ++ f).take m.message.length)) := by
  have hlen := m.length_message
  have hsize : ¬max < m.header.msgLength := Nat.not_lt.mpr hmax
  have hparse := m.tryParse_start h
  have hboth : (p ++ f).length = p.length + f.length := length_append
  rw [holding_of_few hfew]
  simp only [coalesceFragment, if_neg hne]
  by_cases hfour : 4 ≤ (p ++ f).length
  · rw [if_pos hfour] at hparse
    rw [holding_of_four (by rw [length_take]; omega)]
    simp only [hparse, if_neg hsize, m.encodedLen_header]
    split
    case isTrue hlt => rw [take_of_length_le hlt.le, Nat.min_eq_left (by omega)]
    case isFalse hge =>
      congr 2
      omega
  · rw [if_neg hfour] at hparse
    rw [take_of_length_le (by omega), Nat.min_eq_left (by omega), holding_of_few (by omega)]
    simp only [hparse]

theorem coalesceFragment_holding (hmax : m.body.length ≤ max)
    (h : p ++ f ++ tail = m.message ++ rest) (hp : p.length < m.message.length) :
    (holding m max p).coalesceFragment f =
      .ok (min f.length (m.message.length - p.length),
        holding m max ((p ++ f).take m.message.length)) := by
  rcases eq_or_ne p [] with rfl | hne
  · exact addFirstFragment_holding hmax h
  · rcases Nat.lt_or_ge p.length 4 with hfew | hfour
    · exact coalesceFragment_unheaded hmax h hne hfew
    · exact coalesceFragment_headed hfour hp

theorem parseClientHello_holding :
    (holding m max p).parseClientHello =
      if m.message.length = p.length then
        (ClientHello.parseMsgData (p.drop HandshakeHeader.size)).map some
      else .ok none := by
  have hlen := m.length_message
  by_cases hfour : 4 ≤ p.length
  · simp only [parseClientHello, holding, if_pos hfour, m.encodedLen_header]
    rfl
  · simp only [parseClientHello, holding, if_neg hfour]
    rw [if_neg (by omega)]

theorem tryParseFragment_eq (h : f ++ tail = m.message ++ rest) :
    HandshakeMessage.tryParseFragment f =
      if m.message.length ≤ f.length then some ⟨m.header, m.message⟩ else none :=
  m.toHandshake.tryParseFragment_start h

variable (r : HandshakeRecord)

theorem consumeDone_record : r.record.consumeDone = false := by
  simpa [Record.consumeDone, record] using r.nonempty

/-- A record with a fragment that is not the whole message. -/
theorem consumeHandshake_part (hmax : m.body.length ≤ max)
    (h : p ++ r.fragment ++ tail = m.message ++ rest) (hp : p.length < m.message.length)
    (hpart : p ≠ [] ∨ r.fragment.length < m.message.length) :
    r.record.consumeHandshake (holding m max p) =
      .ok (none,
        { r.record with consumeOffset := min r.fragment.length (m.message.length - p.length) },
        holding m max ((p ++ r.fragment).take m.message.length)) := by
  have hnone : (if (holding m max p).isEmpty then HandshakeMessage.tryParseFragment r.fragment
      else none) = none := by
    rcases eq_or_ne p [] with rfl | hne
    · have hshort := hpart.resolve_left fun hne => hne rfl
      rw [nil_append] at h
      rw [tryParseFragment_eq h, if_neg (Nat.not_le.mpr hshort), ite_self]
    · rw [if_neg]
      simpa [HandshakeCoalescer.isEmpty, holding] using hne
  have hcoalesce := coalesceFragment_holding hmax h hp
  simp only [Record.consumeHandshake, consumeDone_record]
  simp only [record, drop_zero, hnone, hcoalesce, Nat.zero_add]
  rfl

/-- A record with the whole message. -/
theorem consumeHandshake_whole (h : r.fragment ++ tail = m.message ++ rest)
    (hlong : m.message.length ≤ r.fragment.length) :
    r.record.consumeHandshake (holding m max []) =
      .ok (some ⟨m.header, m.message⟩, { r.record with consumeOffset := m.message.length },
        holding m max []) := by
  have hsome := tryParseFragment_eq h
  rw [if_pos hlong] at hsome
  simp only [Record.consumeHandshake, consumeDone_record]
  simp only [record, drop_zero, hsome]
  simp [holding, HandshakeCoalescer.isEmpty, HandshakeMessage.encodedLen]

end

/-- The same server name, or errors of one kind. -/
def SameKind : Except ServerTaskError UpstreamAddr → Except ServerTaskError UpstreamAddr → Prop
  | .ok a, .ok b => a = b
  | .error e, .error e' => e.ctorIdx = e'.ctorIdx
  | _, _ => False

theorem sameKind_refl (a : Except ServerTaskError UpstreamAddr) : SameKind a a := by
  cases a <;> rfl

section
variable [Idna] {m : Hello} {max port : Nat}

/-- How a message in one piece is answered. -/
def recognise (m : Hello) (port : Nat) : Except ServerTaskError UpstreamAddr :=
  match ClientHello.parseMsgData m.body with
  | .ok ch => parseSni ch port
  | .error _ => .error invalidRequest

variable {e : ServerTaskError} {c : HandshakeCoalescer}

/-- Every rejection of a message is one of the protocol. -/
theorem parseSni_error {ch : ClientHello} (h : parseSni ch port = .error e) :
    ∃ msg, e = .invalidClientProtocol msg := by
  unfold parseSni at h
  split at h
  · split at h
    · cases h
    · cases h
      exact ⟨_, rfl⟩
  · cases h
    exact ⟨_, rfl⟩
  · cases h
    exact ⟨_, rfl⟩

theorem recognise_error (h : recognise m port = .error e) :
    ∃ msg, e = .invalidClientProtocol msg := by
  unfold recognise at h
  split at h
  · exact parseSni_error h
  · cases h
    exact ⟨_, rfl⟩

variable {r : HandshakeRecord} {p tail rest buf left : Bytes} {offset : Nat}

theorem scan_needMore {n : Nat} (h : Record.parse (buf.drop offset) = .error (.needMoreData n)) :
    scan port buf offset c = .needMoreData offset c := by
  rw [scan]
  split
  case h_1 => rfl
  case h_2 hne he => exact absurd (Except.error.inj (he.symm.trans h)) (hne n)
  case h_3 he => cases he.symm.trans h

theorem scan_record {record : Record} (h : Record.parse (buf.drop offset) = .ok record) :
    scan port buf offset c =
      match consumeRecord port record c with
      | .answer a => .done a
      | .next c => scan port buf (offset + record.encodedLen) c := by
  rw [scan]
  split
  case h_1 he | h_2 he => cases he.symm.trans h
  case h_3 he =>
    cases he.symm.trans h
    rfl

/-- The message goes on in the next record. -/
theorem consumeRecord_part (hmax : m.body.length ≤ max)
    (h : p ++ r.fragment ++ tail = m.message ++ rest)
    (hpart : (p ++ r.fragment).length < m.message.length) :
    consumeRecord port r.record (holding m max p) = .next (holding m max (p ++ r.fragment)) := by
  rw [length_append] at hpart
  have hconsume := consumeHandshake_part r hmax h (by omega) (Or.inr (by omega))
  rw [take_of_length_le (by rw [length_append]; omega), Nat.min_eq_left (by omega)]
    at hconsume
  have hmore : (holding m max (p ++ r.fragment)).parseClientHello = .ok none := by
    rw [parseClientHello_holding, if_neg (by rw [length_append]; omega)]
  simp only [consumeRecord, hconsume, hmore]
  simp [Record.consumeDone, record]

/-- The record has the end of the message. -/
theorem consumeRecord_end (hmax : m.body.length ≤ max)
    (h : p ++ r.fragment = m.message ++ rest) (hp : p.length < m.message.length) :
    ∃ a, consumeRecord port r.record (holding m max p) = .answer a ∧
      SameKind a (recognise m port) ∧ (p = [] → a = recognise m port) := by
  have hlen := m.length_message
  rcases eq_or_ne p [] with rfl | hne
  · -- the message lies in the first fragment
    have hlong : m.message.length ≤ r.fragment.length := by
      have := congrArg length h
      rw [nil_append, length_append] at this
      omega
    have hwhole : r.fragment ++ [] = m.message ++ rest := by rw [append_nil]; exact h
    have hconsume : r.record.consumeHandshake (holding m max []) = _ :=
      consumeHandshake_whole r hwhole hlong
    refine ⟨recognise m port, ?_, sameKind_refl _, fun _ => rfl⟩
    simp only [consumeRecord, hconsume, m.parseClientHello_message, recognise]
    cases ClientHello.parseMsgData m.body <;> rfl
  · -- the fragment completes what the coalescer has
    have hrest : p ++ r.fragment ++ [] = m.message ++ rest := by rw [append_nil]; exact h
    have hconsume := consumeHandshake_part r hmax hrest hp (Or.inl hne)
    rw [h, take_left] at hconsume
    have hhello : (holding m max m.message).parseClientHello =
        (ClientHello.parseMsgData m.body).map some := by
      rw [parseClientHello_holding, if_pos rfl, m.message_drop]
    simp only [consumeRecord, hconsume, hhello, recognise]
    cases ClientHello.parseMsgData m.body with
    | error e => exact ⟨_, rfl, rfl, fun h0 => absurd h0 hne⟩
    | ok ch => exact ⟨_, rfl, sameKind_refl _, fun h0 => absurd h0 hne⟩

end

/-! ### All the records -/

/-- A message in fragments: the last record has the end of it, and may go on with further bytes. -/
structure Fragmented (m : Hello) where
  front : List HandshakeRecord
  last : HandshakeRecord
  further : Bytes
  carries : front.flatMap (·.fragment) ++ last.fragment = m.message ++ further
  needed : (front.flatMap (·.fragment)).length < m.message.length

/-- The records on the wire. -/
def wires (front : List HandshakeRecord) (last : HandshakeRecord) : Bytes :=
  front.flatMap (·.wire) ++ last.wire

/-- The loop has come to a record boundary: `p` is known of the message, the records `front` and `last`
    are ahead and end behind `total` bytes. -/
structure Reached (m : Hello) (last : HandshakeRecord) (further rest : Bytes) (total : Nat)
    (buf left : Bytes) (front : List HandshakeRecord) (p : Bytes) (offset : Nat) : Prop where
  carries : p ++ front.flatMap (·.fragment) ++ last.fragment = m.message ++ further
  needed : (p ++ front.flatMap (·.fragment)).length < m.message.length
  within : offset ≤ buf.length
  stream : buf.drop offset ++ left = wires front last ++ rest
  total_eq : offset + (wires front last).length = total

/-- A complete record is at the front of the data. -/
theorem exists_append_of_length_le {a b c d : Bytes} (h : a ++ b = c ++ d)
    (hle : c.length ≤ a.length) : ∃ t, a = c ++ t := by
  obtain ⟨t, ht⟩ := prefix_of_prefix_length_le (prefix_append c d)
    (h ▸ prefix_append a b) hle
  exact ⟨t, ht.symm⟩

theorem encodedLen_record (r : HandshakeRecord) : r.record.encodedLen = r.wire.length :=
  r.length_wire.symm

/-- The lengths of the receive buffer behind the reads. -/
def stops : Nat → List Bytes → List Nat
  | n, [] => [n]
  | n, c :: chunks => n :: stops (n + c.length) chunks

variable {n total offset : Nat} {last : HandshakeRecord} {further rest buf p : Bytes}

theorem le_of_mem_stops {b : Nat} {chunks : List Bytes} (h : b ∈ stops n chunks) : n ≤ b := by
  induction chunks generalizing n with
  | nil => exact (mem_singleton.mp h).ge
  | cons c chunks ih =>
    rcases mem_cons.mp h with rfl | hmem
    · exact le_rfl
    · have := ih hmem
      omega

theorem mem_stops (n : Nat) (chunks : List Bytes) : n ∈ stops n chunks := by
  cases chunks <;> exact mem_cons_self ..

variable {front : List HandshakeRecord} {m : Hello}

/-- More of the stream is read. -/
theorem Reached.read {left data : Bytes}
    (h : Reached m last further rest total buf (data ++ left) front p offset) :
    Reached m last further rest total (buf ++ data) left front p offset where
  carries := h.carries
  needed := h.needed
  within := h.within.trans (by rw [length_append]; omega)
  stream := by rw [drop_append_of_le_length h.within, append_assoc, h.stream]
  total_eq := h.total_eq

/-- All of the stream is read. -/
theorem Reached.complete (h : Reached m last further rest total buf [] front p offset) :
    total ≤ buf.length := by
  have hlen := congrArg length h.stream
  have := h.within
  have := h.total_eq
  simp only [append_nil, length_drop, length_append] at hlen
  omega

section
variable [Idna] {max : Nat} (port : Nat) {left : Bytes}

theorem scan_spec (hmax : m.body.length ≤ max)
    (h : Reached m last further rest total buf left front p offset) :
    if total ≤ buf.length then
      ∃ a, scan port buf offset (holding m max p) = .done a ∧ SameKind a (recognise m port)
    else
      ∃ front' p' offset', scan port buf offset (holding m max p) =
          .needMoreData offset' (holding m max p') ∧
        Reached m last further rest total buf left front' p' offset' := by
  have hdrop : (buf.drop offset).length = buf.length - offset := length_drop
  induction front generalizing p offset with
  | nil =>
    have htotal := h.total_eq
    have hneed := h.needed
    have hcarry := h.carries
    have hwithin := h.within
    simp only [wires, flatMap_nil, nil_append, append_nil] at htotal hneed hcarry
    split
    case isTrue hall =>
      obtain ⟨t, ht⟩ := exists_append_of_length_le h.stream
        (by simp only [wires, flatMap_nil, nil_append]; omega)
      simp only [wires, flatMap_nil, nil_append] at ht
      obtain ⟨a, ha, hkind, -⟩ : ∃ a, consumeRecord port last.record (holding m max p) = .answer a ∧
          _ := consumeRecord_end hmax hcarry hneed
      refine ⟨a, ?_, hkind⟩
      rw [scan_record (ht ▸ last.parse_wire t), ha]
    case isFalse hless =>
      obtain ⟨k, hk⟩ := last.parse_short h.stream (by omega)
      exact ⟨[], p, offset, scan_needMore hk, h⟩
  | cons r front ih =>
    have htotal := h.total_eq
    have hneed := h.needed
    have hcarry := h.carries
    have hwithin := h.within
    have hstream := h.stream
    simp only [wires, flatMap_cons, length_append] at htotal hneed
    simp only [wires, flatMap_cons, append_assoc] at hcarry hstream
    rcases Nat.lt_or_ge (buf.drop offset).length r.wire.length with hshort | hlong
    · obtain ⟨k, hk⟩ := r.parse_short hstream hshort
      rw [if_neg (by omega)]
      exact ⟨r :: front, p, offset, scan_needMore hk, h⟩
    · obtain ⟨t, ht⟩ := exists_append_of_length_le hstream hlong
      rw [← append_assoc p] at hcarry
      have hround : consumeRecord port r.record (holding m max p) = _ :=
        consumeRecord_part hmax hcarry (by rw [length_append]; omega)
      rw [scan_record (ht ▸ r.parse_wire t), hround, encodedLen_record]
      refine ih ⟨?_, ?_, by omega, ?_, ?_⟩ length_drop
      · simpa using hcarry
      · simp only [append_assoc, length_append]
        omega
      · rw [← drop_drop, ht, drop_left]
        rw [ht, append_assoc] at hstream
        simpa [wires] using append_cancel_left hstream
      · simp only [wires, length_append]
        omega

/-- The records are complete: the loop answers, and no later read matters. -/
theorem parseLoop_complete (hmax : m.body.length ≤ max) (maxBuf : Nat) (chunks : List Bytes)
    (h : Reached m last further rest total buf left front p offset) (hall : total ≤ buf.length) :
    ∃ a, parseLoop port maxBuf (chunks.map .ok) buf offset (holding m max p) =
        (a, buf, chunks.map .ok) ∧ SameKind a (recognise m port) ∧
      ¬∃ b ∈ stops buf.length chunks, maxBuf ≤ b ∧ b < total := by
  obtain ⟨a, ha, hkind⟩ : ∃ a, scan port buf offset (holding m max p) = .done a ∧ _ := by
    have hscan := scan_spec port hmax h
    rwa [if_pos hall] at hscan
  refine ⟨a, ?_, hkind, ?_⟩
  · rw [parseLoop.eq_def, ha]
  · rintro ⟨b, hmem, -, hlt⟩
    have := le_of_mem_stops hmem
    omega

/-- The loop answers behind the first read that completes the records, or where it finds the buffer
    too long before. -/
theorem parseLoop_spec (hmax : m.body.length ≤ max) (maxBuf : Nat) {chunks : List Bytes}
    (hne : ∀ c ∈ chunks, c ≠ [])
    (h : Reached m last further rest total buf chunks.flatten front p offset) :
    ∃ a n, parseLoop port maxBuf (chunks.map .ok) buf offset (holding m max p) =
        (a, buf ++ (chunks.take n).flatten, (chunks.drop n).map .ok) ∧
      if ∃ b ∈ stops buf.length chunks, maxBuf ≤ b ∧ b < total then
        ∃ msg, a = .error (.invalidClientProtocol msg)
      else SameKind a (recognise m port) := by
  induction chunks generalizing buf front p offset with
  | nil =>
    obtain ⟨a, ha, hkind, hno⟩ := parseLoop_complete port hmax maxBuf [] h h.complete
    exact ⟨a, 0, by simpa using ha, by rwa [if_neg hno]⟩
  | cons c chunks ih =>
    rcases Nat.lt_or_ge buf.length total with hless | hall
    · obtain ⟨front', p', offset', hscan, hreached⟩ : ∃ front' p' offset',
          scan port buf offset (holding m max p) = .needMoreData offset' (holding m max p') ∧ _ := by
        have hscan := scan_spec port hmax h
        rwa [if_neg (Nat.not_le.mpr hless)] at hscan
      obtain ⟨hc, hchunks⟩ := forall_mem_cons.mp hne
      rw [parseLoop.eq_def, hscan]
      by_cases hlong : maxBuf ≤ buf.length
      · simp only [if_pos hlong]
        refine ⟨_, 0, congrArg (Prod.mk _) (by simp), ?_⟩
        rw [if_pos ⟨buf.length, mem_stops _ _, hlong, hless⟩]
        exact ⟨_, rfl⟩
      · rw [flatten_cons] at hreached
        obtain ⟨a, n, ha, hanswer⟩ := ih hchunks hreached.read
        refine ⟨a, n + 1, ?_, ?_⟩
        · simp [hlong, hc, ha]
        · have hsame : (∃ b ∈ stops buf.length (c :: chunks), maxBuf ≤ b ∧ b < total) ↔
              ∃ b ∈ stops (buf ++ c).length chunks, maxBuf ≤ b ∧ b < total := by
            rw [stops, exists_mem_cons_iff, length_append]
            exact or_iff_right fun hb => hlong hb.1
          simpa only [hsame] using hanswer
    · obtain ⟨a, ha, hkind, hno⟩ := parseLoop_complete port hmax maxBuf (c :: chunks) h hall
      exact ⟨a, 0, by simpa using ha, by rwa [if_neg hno]⟩

end

/-! ### The whole request -/

/-- The stream in the reads in which it comes; `first` is in the receive buffer already. -/
structure Segmented (wire : Bytes) where
  first : Bytes
  chunks : List Bytes
  nonempty : ∀ c ∈ chunks, c ≠ []
  rest : Bytes
  content : first ++ chunks.flatten = wire ++ rest

/-- A message in a record of its own. -/
def Hello.whole (m : Hello) (v : RawVersion) (hv : v.supported = true)
    (hfits : m.message.length ≤ 2 ^ 14) : HandshakeRecord where
  version := v
  supported := hv
  fragment := m.message
  nonempty := by simp [Hello.message, Handshake.message]
  fits := hfits

/-- The start of the loop. -/
theorem Fragmented.reached (f : Fragmented m) (s : Segmented (wires f.front f.last)) :
    Reached m f.last f.further s.rest (wires f.front f.last).length s.first s.chunks.flatten
      f.front [] 0 where
  carries := f.carries
  needed := f.needed
  within := Nat.zero_le _
  stream := s.content
  total_eq := Nat.zero_add _

section
variable [Idna]

/-- The answer is that for the message in one piece, and every byte that was received is in the
    buffer. -/
def Recognised (m : Hello) {wire : Bytes} (s : Segmented wire) (port max : Nat) : Prop :=
  ∃ a n, parseRequest (s.chunks.map .ok) s.first port max =
      (a, s.first ++ (s.chunks.take n).flatten, (s.chunks.drop n).map .ok) ∧
    SameKind a (recognise m port)

/-- A message that comes in one record and one read. -/
theorem parseRequest_whole (m : Hello) (port : Nat) {max : Nat} (hmax : m.body.length ≤ max)
    (v : RawVersion) (hv : v.supported = true) (hfits : m.message.length ≤ 2 ^ 14) :
    parseRequest [.ok (m.whole v hv hfits).wire] [] port max =
      (recognise m port, (m.whole v hv hfits).wire, []) := by
  have hempty : scan port [] 0 (holding m max []) = .needMoreData 0 (holding m max []) :=
    scan_needMore (n := 5) rfl
  have hparse : Record.parse ((m.whole v hv hfits).wire.drop 0) =
      .ok (m.whole v hv hfits).record := by
    have := (m.whole v hv hfits).parse_wire []
    rwa [append_nil] at this
  have hall : [] ++ (m.whole v hv hfits).fragment = m.message ++ [] := (append_nil _).symm
  obtain ⟨a, hround, -, hsame⟩ : ∃ a, consumeRecord port (m.whole v hv hfits).record
      (holding m max []) = .answer a ∧ _ :=
    consumeRecord_end hmax hall (by simp [Hello.message, Handshake.message])
  have hscan : scan port (m.whole v hv hfits).wire 0 (holding m max []) =
      .done (recognise m port) := by
    rw [scan_record hparse, hround, hsame rfl]
  have hroom : ¬maxBufSize max ≤ ([] : Bytes).length := by
    rw [maxBufSize, length_nil]
    omega
  have hne : (m.whole v hv hfits).wire ≠ [] := by simp [HandshakeRecord.wire, HandshakeRecord.head]
  change parseLoop port (maxBufSize max) _ [] 0 (holding m max []) = _
  rw [parseLoop.eq_def, hempty]
  simp only [if_neg hroom, if_neg hne, nil_append]
  rw [parseLoop.eq_def, hscan]

/-- Where the receive buffer reaches its bound too early, the message is rejected. -/
theorem recognised_iff_no_gap (f : Fragmented m)
    (s : Segmented (wires f.front f.last)) (port : Nat) {max : Nat} (hmax : m.body.length ≤ max) :
    Recognised m s port max ↔
      (∀ b ∈ stops s.first.length s.chunks,
        b < maxBufSize max ∨ (wires f.front f.last).length ≤ b) ∨
      ∃ e, recognise m port = .error e := by
  obtain ⟨a, n, hloop, hanswer⟩ :=
    parseLoop_spec port hmax (maxBufSize max) s.nonempty (f.reached s)
  have hgap : (∃ b ∈ stops s.first.length s.chunks,
      maxBufSize max ≤ b ∧ b < (wires f.front f.last).length) ↔
      ¬∀ b ∈ stops s.first.length s.chunks,
        b < maxBufSize max ∨ (wires f.front f.last).length ≤ b := by
    push Not
    rfl
  constructor
  · rintro ⟨a', n', hloop', hkind⟩
    obtain rfl : a = a' := congrArg Prod.fst (hloop.symm.trans hloop')
    rw [or_iff_not_imp_left]
    intro hno
    rw [if_pos (hgap.mpr hno)] at hanswer
    obtain ⟨msg, rfl⟩ := hanswer
    cases hrec : recognise m port with
    | error e => exact ⟨e, rfl⟩
    | ok addr =>
      rw [hrec] at hkind
      exact hkind.elim
  · intro hwhen
    refine ⟨a, n, hloop, ?_⟩
    split at hanswer
    case isTrue hno =>
      obtain ⟨e, he⟩ := hwhen.resolve_left (hgap.mp hno)
      obtain ⟨msg, rfl⟩ := hanswer
      obtain ⟨msg', rfl⟩ := recognise_error he
      rw [he]
      rfl
    case isFalse => exact hanswer

/-- A message is recognised as in one piece, unless a read ends where the receive buffer has reached
    its bound and the last record is not complete. -/
theorem recognised_iff (m : Hello) (f : Fragmented m) (s : Segmented (wires f.front f.last))
    (port max : Nat) (hmax : m.body.length ≤ max) :
    (∀ v hv hfits, parseRequest [.ok (m.whole v hv hfits).wire] [] port max =
      (recognise m port, (m.whole v hv hfits).wire, [])) ∧
    (Recognised m s port max ↔
      (∀ b ∈ stops s.first.length s.chunks,
        b < maxBufSize max ∨ (wires f.front f.last).length ≤ b) ∨
      ∃ e, recognise m port = .error e) :=
  ⟨fun v hv hfits => parseRequest_whole m port hmax v hv hfits,
    recognised_iff_no_gap f s port hmax⟩

end

/-! ### A message in fragments of one byte -/

/-- The smallest ClientHello message with a server name, `a`. -/
def helloA : Hello where
  body := [3, 3] ++ List.replicate 32 0 ++ [0, 0, 2, 19, 1, 1, 0, 0, 10] ++
    [0, 0, 0, 6, 0, 4, 0, 0, 1, 97]
  fits := by decide

def byteRecord (b : UInt8) : HandshakeRecord where
  version := ⟨3, 1⟩
  supported := rfl
  fragment := [b]
  nonempty := List.cons_ne_nil _ _
  fits := by simp

theorem recognise_helloA : recognise helloA 443 = .ok ⟨[97], 443⟩ := by
  have hparse : ClientHello.parseMsgData helloA.body =
      .ok ⟨⟨3, 3⟩, [19, 1], some [0], some [0, 0, 0, 6, 0, 4, 0, 0, 1, 97]⟩ := by
    decide +kernel
  have hext : getExt extensionTypeServerName [0, 0, 0, 6, 0, 4, 0, 0, 1, 97] =
      .ok (some [0, 4, 0, 0, 1, 97]) := by
    have hfirst : Extension.parse [0, 0, 0, 6, 0, 4, 0, 0, 1, 97] =
      .ok ⟨0, 6, some [0, 4, 0, 0, 1, 97]⟩ := by decide
    rw [getExt, if_neg (cons_ne_nil _ _), hfirst]
    exact if_pos rfl
  have hname : TlsServerName.fromExtensionValue [0, 4, 0, 0, 1, 97] = .ok ⟨⟨[97, 46]⟩⟩ := by decide
  rw [recognise, hparse]
  simp only [parseSni, ClientHello.getExt, hext, hname]
  rfl

theorem flatMap_fragment_byteRecord (data : Bytes) :
    (data.map byteRecord).flatMap (·.fragment) = data := by
  rw [flatMap_map]
  exact flatMap_singleton' data

theorem length_flatMap_wire_byteRecord (data : Bytes) :
    ((data.map byteRecord).flatMap (·.wire)).length = 6 * data.length := by
  induction data with
  | nil => rfl
  | cons b data ih =>
    rw [map_cons, flatMap_cons, length_append, ih, length_wire,
      length_cons]
    exact (Nat.add_comm _ _).trans (Nat.mul_succ _ _).symm

/-- The last byte of a message, with `n` bytes of a next one. -/
def lastRecord (n : Nat) (h : n < 2 ^ 14) : HandshakeRecord where
  version := ⟨3, 1⟩
  supported := rfl
  fragment := 97 :: List.replicate n 0
  nonempty := List.cons_ne_nil _ _
  fits := by
    rw [List.length_cons, List.length_replicate]
    exact h

/-- All bytes but the last one in records of their own. -/
def fragmentedA (n : Nat) (h : n < 2 ^ 14) : Fragmented helloA where
  front := (helloA.message.take 56).map byteRecord
  last := lastRecord n h
  further := List.replicate n 0
  carries := by
    have hsplit : helloA.message = helloA.message.take 56 ++ [97] := rfl
    rw [flatMap_fragment_byteRecord]
    conv_rhs => rw [hsplit, List.append_assoc]
    rfl
  needed := by
    rw [flatMap_fragment_byteRecord]
    decide

theorem length_wires_fragmentedA (n : Nat) (h : n < 2 ^ 14) :
    (wires (fragmentedA n h).front (fragmentedA n h).last).length = 342 + n := by
  have hfront : ((fragmentedA n h).front.flatMap (·.wire)).length = 6 * 56 :=
    length_flatMap_wire_byteRecord _
  have hlast : (fragmentedA n h).last.wire.length = 5 + (n + 1) := by
    rw [length_wire]
    exact congrArg (5 + ·) ((length_cons ..).trans (congrArg (· + 1) length_replicate))
  rw [wires, length_append, hfront, hlast]
  omega

/-- A stream in two reads, the first one of `n` bytes. -/
def twoReads (wire : Bytes) (n : Nat) (h : n < wire.length) : Segmented wire where
  first := wire.take n
  chunks := [wire.drop n]
  nonempty := by
    intro c hc
    rw [List.mem_singleton.mp hc]
    exact fun hnil => absurd (List.drop_eq_nil_iff.mp hnil) (Nat.not_le.mpr h)
  rest := []
  content := by simp

theorem stops_twoReads {wire : Bytes} (h : n < wire.length) :
    stops (twoReads wire n h).first.length (twoReads wire n h).chunks = [n, wire.length] := by
  have hfirst : (twoReads wire n h).first.length = n :=
    (length_take ..).trans (Nat.min_eq_left h.le)
  rw [hfirst]
  simp only [twoReads, stops, length_drop]
  rw [Nat.add_sub_cancel' h.le]

theorem maxBufSize_helloA : maxBufSize 53 = 16702 := rfl

/-- Cut behind 100 bytes, the message is recognised. -/
theorem recognised_iff_fragmentedA :
    ∃ h, Recognised helloA (twoReads (wires (fragmentedA 0 (by decide)).front
      (fragmentedA 0 (by decide)).last) 100 h) 443 53 := by
  have hlen := length_wires_fragmentedA 0 (by decide)
  refine ⟨by omega, ((recognised_iff helloA (fragmentedA 0 (by decide)) _ 443 53
    (by decide)).2).mpr (.inl ?_)⟩
  rw [stops_twoReads, maxBufSize_helloA]
  intro b hb
  rw [mem_cons, mem_singleton] at hb
  rcases hb with hb | hb
  · exact .inl (by omega)
  · exact .inr hb.ge

/-- The last record goes on to its full size. The buffer reaches its bound before that record is
    complete, and the message is rejected as too large. -/
theorem not_recognised_fragmentedA :
    ∃ h, ¬Recognised helloA (twoReads (wires (fragmentedA 16383 (by decide)).front
        (fragmentedA 16383 (by decide)).last) 16702 h) 443 53 ∧
      recognise helloA 443 = .ok ⟨[97], 443⟩ := by
  have hlen := length_wires_fragmentedA 16383 (by decide)
  have h : 16702 < (wires (fragmentedA 16383 (by decide)).front
      (fragmentedA 16383 (by decide)).last).length := by omega
  refine ⟨h, ?_, recognise_helloA⟩
  rw [recognised_iff_no_gap (fragmentedA 16383 (by decide)) _ 443 (by decide), stops_twoReads h,
    maxBufSize_helloA]
  rintro (hno | ⟨e, he⟩)
  · rcases hno 16702 (mem_cons_self ..) with hlt | hle
    · exact absurd hlt (Nat.lt_irrefl _)
    · exact absurd h (Nat.not_lt.mpr hle)
  · rw [recognise_helloA] at he
    exact nomatch he

end Vey.SniProxy

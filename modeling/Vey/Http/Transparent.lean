import Vey.Http.RequestHead

/-! `HttpTransparentRequest`, and the acceptor that recognises one in a growing buffer.

        RecvMethodLine --line--> RecvHeaderLine --blank line--> Finished --accept--> End
                                   |        ^
                                   +--line--+

    `read_http` takes the state out of the acceptor in every round and has to put it back. It does
    so when the method line is incomplete; when a header line is incomplete it does not, and the
    next call finds no state. -/

namespace Vey.Http
open Schemes Vey.Types

section

variable [HttpTypes]

structure HttpTransparentRequest where
  head : RequestHead
  stealForwardedFor : Bool := false
  upgrade : Bool := false
  deriving DecidableEq

namespace HttpTransparentRequest

def buildFromMethodLine (lineBuf : Bytes) : ParseResult HttpTransparentRequest :=
  match RequestHead.buildFromMethodLine lineBuf with
  | .error e => .error e
  | .ok head => .ok { head }

def appendHeader (req : HttpTransparentRequest) (name : Bytes) (header : HttpHeaderLine) :
    ParseResult HttpTransparentRequest :=
  match req.head.appendHeader name header with
  | .error e => .error e
  | .ok head => .ok { req with head }

def insertHopByHopHeader (req : HttpTransparentRequest) (name : Bytes) (header : HttpHeaderLine) :
    ParseResult HttpTransparentRequest :=
  match req.head.insertHopByHopHeader name header with
  | .error e => .error e
  | .ok head => .ok { req with head }

variable (req : HttpTransparentRequest)

def handleHeader (header : HttpHeaderLine) : ParseResult HttpTransparentRequest :=
  match headerName header.name with
  | none => .error (.invalidHeaderLine .invalidHeaderName)
  | some name =>
    if name = ascii "host" then
      match req.head.receiveHost header with
      | .error e => .error e
      | .ok head => { req with head }.appendHeader name header
    else if name = ascii "connection" then
      .ok { req with head := req.head.receiveConnection header }
    else if name = ascii "keep-alive" then
      .ok { req with head := req.head.receiveKeepAlive header }
    else if name = ascii "upgrade" then
      { req with upgrade := true }.insertHopByHopHeader name header
    else if name = transferEncodingKey then
      match req.head.receiveTransferEncoding header with
      | .error e => .error e
      | .ok head => .ok { req with head }
    else if name = contentLengthKey then
      match req.head.receiveContentLength header with
      | .error e => .error e
      | .ok (head, false) => .ok { req with head }
      | .ok (head, true) => { req with head }.appendHeader name header
    else if name = ascii "te" then
      match req.head.receiveTe header with
      | .error e => .error e
      | .ok head => .ok { req with head }
    else if name = ascii "proxy-authorization" then req.insertHopByHopHeader name header
    else if (name = ascii "forwarded" ∨ name = ascii "x-forwarded-for") ∧ req.stealForwardedFor then
      .ok req
    else if name = ascii "expect" ∧ header.value = ascii "100-continue" then
      { req with head := { req.head with expect100Continue := true } }.appendHeader name header
    else req.appendHeader name header

def parseHeaderLine (lineBuf : Bytes) : ParseResult HttpTransparentRequest :=
  match HttpHeaderLine.parse lineBuf with
  | .error e => .error (.invalidHeaderLine e)
  | .ok header => req.handleHeader header

/-- `post_check_and_fix`, with the size of the head set before it. -/
def postCheckAndFix (originHeaderSize : Nat) : HttpTransparentRequest :=
  let head := { req.head with originHeaderSize }
  if head.connection.upgrade then { req with head := head.fixKeepAlive }
  else
    let hopByHopHeaders := head.hopByHopHeaders.remove (ascii "upgrade")
    { req with upgrade := false, head := { head with hopByHopHeaders }.fixKeepAlive }

def requestType (stealForwardedFor : Bool) : RequestType HttpTransparentRequest where
  buildFromMethodLine lineBuf :=
    match buildFromMethodLine lineBuf with
    | .error e => .error e
    | .ok req => .ok { req with stealForwardedFor }
  parseHeaderLine := parseHeaderLine
  postCheckAndFix req size := .ok (req.postCheckAndFix size)

def parse (maxHeaderSize : Nat) (stealForwardedFor : Bool) :
    Future (HeadReader HttpTransparentRequest)
      (ParseResult (HttpTransparentRequest × Bytes)) :=
  HeadReader.parse (requestType stealForwardedFor) maxHeaderSize

def keepAlive : Bool := req.head.keepAlive

def bodyType : Option HttpBodyType := req.head.checkBodyType

def serializeForOrigin : Bytes := req.head.serializeForOrigin

end HttpTransparentRequest

/-! ### The acceptor -/

inductive HttpTransparentRequestAcceptState where
  | recvMethodLine
  | recvHeaderLine (req : HttpTransparentRequest)
  | finished (req : HttpTransparentRequest)
  | ended

structure HttpTransparentRequestAcceptor where
  state : Option HttpTransparentRequestAcceptState := some .recvMethodLine

/-- What a call of `read_http` answers; the last one is its `unreachable!()`. -/
inductive ReadHttp where
  | ok (offset : Nat)
  | error (e : HttpRequestParseError)
  | unreachable

namespace HttpTransparentRequestAcceptor

/-- One round of the loop in `read_http`, on the acceptor and the offset. -/
def readRound (buf : Bytes) (s : HttpTransparentRequestAcceptor × Nat) :
    Ctrl (HttpTransparentRequestAcceptor × Nat) ReadHttp :=
  let offset := s.2
  match s.1.state with
  | some .recvMethodLine =>
    match memchr lf buf with
    | none => .ret (.ok offset) (⟨some .recvMethodLine⟩, offset)
    | some p =>
      match HttpTransparentRequest.buildFromMethodLine (buf.take (p + 1)) with
      | .error e => .ret (.error e) (⟨none⟩, offset + (p + 1))
      | .ok req => .next (⟨some (.recvHeaderLine req)⟩, offset + (p + 1))
  | some (.recvHeaderLine req) =>
    match memchr lf (buf.drop offset) with
    | none => .ret (.ok offset) (⟨none⟩, offset) -- the state stays taken
    | some p =>
      let lineBuf := (buf.drop offset).take (p + 1)
      if isBlankLine lineBuf then .next (⟨some (.finished req)⟩, offset + (p + 1))
      else
        match req.parseHeaderLine lineBuf with
        | .error e => .ret (.error e) (⟨none⟩, offset + (p + 1))
        | .ok req => .next (⟨some (.recvHeaderLine req)⟩, offset + (p + 1))
  | some state => .ret (.ok offset) (⟨some state⟩, offset)
  | none => .ret .unreachable (⟨none⟩, offset)

variable (a : HttpTransparentRequestAcceptor)

/-- A round that goes on has consumed a byte of `buf`, so the rounds are enough. -/
def readHttp (buf : Bytes) : Option (ReadHttp × HttpTransparentRequestAcceptor) :=
  (iter (readRound buf) (buf.length + 2) (a, 0)).map fun r => (r.1, r.2.1)

def accept : Option HttpTransparentRequest × HttpTransparentRequestAcceptor :=
  match a.state with
  | some (.finished req) => (some req, ⟨some .ended⟩)
  | state => (none, ⟨state⟩)

end HttpTransparentRequestAcceptor

/-- How the recognition of a request in a growing buffer ends. -/
inductive Recognition where
  | request (req : HttpTransparentRequest)
  | error (e : HttpRequestParseError)
  | more
  | unreachable
  deriving DecidableEq

/-- `read_http` and `accept` on the unconsumed part of the buffer: the request is recognised, or
    the acceptor waits for more behind the bytes it consumed. `none` when the call does not return. -/
def readAccept (a : HttpTransparentRequestAcceptor) (buf : Bytes) :
    Option (Recognition ⊕ HttpTransparentRequestAcceptor × Nat) :=
  match a.readHttp buf with
  | none => none
  | some (.unreachable, _) => some (.inl .unreachable)
  | some (.error e, _) => some (.inl (.error e))
  | some (.ok nr, a) =>
    match a.accept with
    | (some req, _) => some (.inl (.request req))
    | (none, a) => some (.inr (a, nr))

/-- The loop of `parse_request`; `extensions` are what its reads append to the buffer. -/
def parseRequest (a : HttpTransparentRequestAcceptor) (buf : Bytes) :
    List Bytes → Option Recognition
  | [] =>
    match readAccept a buf with
    | none => none
    | some (.inl r) => some r
    | some (.inr _) => some .more
  | ext :: extensions =>
    match readAccept a buf with
    | none => none
    | some (.inl r) => some r
    | some (.inr (a, nr)) => parseRequest a (buf.drop nr ++ ext) extensions

/-! ### What the lines of a text say -/

/-- A text as the lines of a request: no method line yet, a method line and header lines, a line
    that is refused, or a whole head. -/
inductive HeadPart where
  | start
  | headers (req : HttpTransparentRequest)
  | refused (e : HttpRequestParseError)
  | whole (req : HttpTransparentRequest)

def headersOf (req : HttpTransparentRequest) : List Bytes → HeadPart
  | [] => .headers req
  | l :: ls =>
    if isBlankLine l then .whole req
    else
      match req.parseHeaderLine l with
      | .error e => .refused e
      | .ok req => headersOf req ls

def headOf : List Bytes → HeadPart
  | [] => .start
  | l :: ls =>
    match HttpTransparentRequest.buildFromMethodLine l with
    | .error e => .refused e
    | .ok req => headersOf req ls

/-- The text stops between the method line and the blank line. -/
def inHeaders (text : Bytes) : Bool :=
  match headOf (splitLines text).1 with
  | .headers _ => true
  | _ => false

/-- A head that is refused or whole stays so whatever follows. -/
def HeadPart.Final : HeadPart → Prop
  | .refused _ => True
  | .whole _ => True
  | _ => False

theorem headersOf_append : ∀ (ls ms : List Bytes) (req : HttpTransparentRequest),
    (headersOf req ls).Final → headersOf req (ls ++ ms) = headersOf req ls
  | [], _, _, h => h.elim
  | l :: ls, ms, req, h => by
    rw [List.cons_append, headersOf, headersOf] at *
    by_cases hb : isBlankLine l = true
    · rw [if_pos hb, if_pos hb]
    · rw [if_neg hb] at h
      rw [if_neg hb, if_neg hb]
      cases hp : req.parseHeaderLine l with
      | error e => rfl
      | ok req' =>
        rw [hp] at h
        exact headersOf_append ls ms req' h

theorem headOf_append {ls : List Bytes} (ms : List Bytes) (h : (headOf ls).Final) :
    headOf (ls ++ ms) = headOf ls := by
  cases ls with
  | nil => exact h.elim
  | cons l ls =>
    rw [List.cons_append, headOf, headOf] at *
    cases hb : HttpTransparentRequest.buildFromMethodLine l with
    | error e => rfl
    | ok req =>
      rw [hb] at h
      exact headersOf_append ls ms req h

variable {a buf ext : Bytes} {extensions : List Bytes}

/-- More text does not change a final head. -/
theorem headOf_text_append (b : Bytes) (h : (headOf (splitLines a).1).Final) :
    headOf (splitLines (a ++ b)).1 = headOf (splitLines a).1 := by
  obtain ⟨ms, hms⟩ := splitLines_append a b
  rw [← hms, headOf_append ms h]

/-! ### One call of `read_http` -/

/-- What `read_http` answers on a text, and the state that it leaves. -/
def HeadPart.Answers : HeadPart → ReadHttp × HttpTransparentRequestAcceptor → Prop
  | .start, r => r = (.ok 0, ⟨some .recvMethodLine⟩)
  | .headers _, r => ∃ offset, r = (.ok offset, ⟨none⟩)
  | .refused e, r => r.1 = .error e
  | .whole req, r => ∃ offset, r = (.ok offset, ⟨some (.finished req)⟩)

namespace HttpTransparentRequestAcceptor

/-- From a header line on, the loop goes through the lines behind the offset. -/
theorem iter_headers (buf : Bytes) : ∀ (n offset : Nat) (req : HttpTransparentRequest),
    (buf.drop offset).length + 1 < n →
      ∃ r, iter (readRound buf) n (⟨some (.recvHeaderLine req)⟩, offset) = some r ∧
        (headersOf req (splitLines (buf.drop offset)).1).Answers (r.1, r.2.1)
  | 0, _, _, hn => by omega
  | n + 1, offset, req, hn => by
    rw [iter, readRound]
    cases hm : memchr lf (buf.drop offset) with
    | none =>
      rw [splitLines_of_not_mem (memchr_none hm)]
      exact ⟨_, rfl, offset, rfl⟩
    | some p =>
      have hlt := memchr_lt hm
      have hdrop : (buf.drop offset).drop (p + 1) = buf.drop (offset + (p + 1)) := List.drop_drop
      have hlen : (buf.drop (offset + (p + 1))).length + 1 < n := by
        rw [← hdrop, List.length_drop]; omega
      rw [splitLines_memchr hm, hdrop, headersOf]
      dsimp only
      by_cases hb : isBlankLine ((buf.drop offset).take (p + 1)) = true
      · rw [if_pos hb, if_pos hb]
        obtain ⟨k, rfl⟩ : ∃ k, n = k + 1 := ⟨n - 1, by omega⟩
        exact ⟨_, rfl, _, rfl⟩
      · rw [if_neg hb, if_neg hb]
        cases hp : req.parseHeaderLine ((buf.drop offset).take (p + 1)) with
        | error e => exact ⟨_, rfl, rfl⟩
        | ok req' => exact iter_headers buf n (offset + (p + 1)) req' hlen

/-- A fresh acceptor answers as the lines of the text say. -/
theorem readHttp_default (buf : Bytes) : ∃ r, readHttp {} buf = some r ∧
    (headOf (splitLines buf).1).Answers r := by
  rw [readHttp, iter, readRound]
  cases hm : memchr lf buf with
  | none =>
    rw [splitLines_of_not_mem (memchr_none hm)]
    exact ⟨_, rfl, rfl⟩
  | some p =>
    have hlt := memchr_lt hm
    rw [splitLines_memchr hm, headOf]
    dsimp only
    cases hb : HttpTransparentRequest.buildFromMethodLine (buf.take (p + 1)) with
    | error e => exact ⟨_, rfl, rfl⟩
    | ok req =>
      have hlen : (buf.drop (0 + (p + 1))).length + 1 < buf.length + 1 := by
        rw [List.length_drop]; omega
      obtain ⟨r, hr, ha⟩ := iter_headers buf (buf.length + 1) (0 + (p + 1)) req hlen
      rw [Nat.zero_add] at ha
      refine ⟨_, ?_, ha⟩
      dsimp only
      rw [hr]
      rfl

theorem readHttp_taken (buf : Bytes) : readHttp ⟨none⟩ buf = some (.unreachable, ⟨none⟩) := rfl

end HttpTransparentRequestAcceptor

/-! ### Growing buffers -/

/-- What a fresh acceptor recognises in a text. -/
theorem readAccept_default (buf : Bytes) :
    match headOf (splitLines buf).1 with
    | .start => readAccept {} buf = some (.inr ({}, 0))
    | .headers _ => ∃ nr, readAccept {} buf = some (.inr (⟨none⟩, nr))
    | .refused e => readAccept {} buf = some (.inl (.error e))
    | .whole req => readAccept {} buf = some (.inl (.request req)) := by
  obtain ⟨⟨answer, a⟩, hr, ha⟩ := HttpTransparentRequestAcceptor.readHttp_default buf
  unfold readAccept
  rw [hr]
  cases hh : headOf (splitLines buf).1 with
  | start =>
    rw [hh] at ha
    obtain ⟨rfl, rfl⟩ := Prod.mk.inj ha
    rfl
  | headers req =>
    rw [hh] at ha
    obtain ⟨offset, ha⟩ := ha
    obtain ⟨rfl, rfl⟩ := Prod.mk.inj ha
    exact ⟨offset, rfl⟩
  | refused e =>
    rw [hh] at ha
    obtain rfl : answer = .error e := ha
    rfl
  | whole req =>
    rw [hh] at ha
    obtain ⟨offset, ha⟩ := ha
    obtain ⟨rfl, rfl⟩ := Prod.mk.inj ha
    rfl

/-- What is recognised now does not depend on what follows. -/
theorem parseRequest_of_recognised {a : HttpTransparentRequestAcceptor} {r : Recognition}
    (extensions : List Bytes) (h : readAccept a buf = some (.inl r)) :
    parseRequest a buf extensions = some r := by
  cases extensions with
  | nil | cons => rw [parseRequest, h]

/-- Text that ends in the headers: more text finds no state. -/
theorem parseRequest_headers {req : HttpTransparentRequest}
    (h : headOf (splitLines buf).1 = .headers req) :
    parseRequest {} buf (ext :: extensions) = some .unreachable := by
  have ha := readAccept_default buf
  rw [h] at ha
  obtain ⟨nr, ha⟩ := ha
  have htaken : ∀ text, readAccept ⟨none⟩ text = some (.inl .unreachable) := fun text => by
    rw [readAccept, HttpTransparentRequestAcceptor.readHttp_taken]
  rw [parseRequest, ha]
  exact parseRequest_of_recognised extensions (htaken _)

/-- Text before the end of the method line is read again with what follows. -/
theorem parseRequest_start (h : headOf (splitLines buf).1 = .start) :
    parseRequest {} buf (ext :: extensions) = parseRequest {} (buf ++ ext) extensions := by
  have ha := readAccept_default buf
  rw [h] at ha
  rw [parseRequest, show readAccept {} buf = _ from ha]
  rfl

/-- A final head is recognised, whatever follows. -/
def HeadPart.recognition : HeadPart → Recognition
  | .refused e => .error e
  | .whole req => .request req
  | _ => .more

theorem parseRequest_final (extensions : List Bytes) (h : (headOf (splitLines buf).1).Final) :
    parseRequest {} buf extensions = some (headOf (splitLines buf).1).recognition := by
  have ha := readAccept_default buf
  cases hh : headOf (splitLines buf).1 with
  | start | headers => rw [hh] at h; exact h.elim
  | refused | whole => rw [hh] at ha; exact parseRequest_of_recognised extensions ha

/-- Text fed at once never misses the state. -/
theorem parseRequest_whole (buf : Bytes) :
    parseRequest {} buf [] = some (headOf (splitLines buf).1).recognition := by
  have ha := readAccept_default buf
  by_cases hf : (headOf (splitLines buf).1).Final
  · exact parseRequest_final [] hf
  · cases hh : headOf (splitLines buf).1 with
    | refused | whole => rw [hh] at hf; exact absurd trivial hf
    | start =>
      rw [hh] at ha
      rw [parseRequest, show readAccept {} buf = _ from ha]
      rfl
    | headers req =>
      rw [hh] at ha
      obtain ⟨nr, ha⟩ := ha
      rw [parseRequest, ha]
      rfl

theorem HeadPart.recognition_ne_unreachable (p : HeadPart) : p.recognition ≠ .unreachable := by
  cases p <;> simp [recognition]

/-- Recognition does not depend on how the text arrives, and the state is never missing. -/
def Incremental (buf : Bytes) (extensions : List Bytes) : Prop :=
  parseRequest {} buf extensions = parseRequest {} (buf ++ extensions.flatten) [] ∧
    parseRequest {} buf extensions ≠ some .unreachable

/-- Pieces and the whole agree when the first piece is final already. -/
theorem incremental_of_final (extensions : List Bytes) (h : (headOf (splitLines buf).1).Final) :
    Incremental buf extensions := by
  have hwhole := headOf_text_append extensions.flatten h
  unfold Incremental
  rw [parseRequest_final _ h, parseRequest_whole, hwhole]
  refine ⟨rfl, fun he => ?_⟩
  exact HeadPart.recognition_ne_unreachable _ (Option.some.inj he)

theorem not_inHeaders_of_final (b : Bytes) (h : (headOf (splitLines a).1).Final) :
    inHeaders (a ++ b) = false := by
  unfold inHeaders
  rw [headOf_text_append b h]
  cases hh : headOf (splitLines a).1 with
  | headers req => rw [hh] at h; exact h.elim
  | start => rfl
  | refused e => rfl
  | whole req => rfl

/-- A request is recognised piece by piece as it is at once, exactly when no piece follows a text
    that stops between the method line and the blank line. -/
theorem incremental_iff_not_inHeaders : ∀ (extensions : List Bytes) (buf : Bytes),
    Incremental buf extensions ↔
      ∀ before ext after, extensions = before ++ ext :: after →
        inHeaders (buf ++ before.flatten) = false
  | [], buf => by
    refine ⟨fun _ before ext after h => by simp at h, fun _ => ⟨by simp, fun he => ?_⟩⟩
    rw [parseRequest_whole] at he
    exact HeadPart.recognition_ne_unreachable _ (Option.some.inj he)
  | ext :: extensions, buf => by
    by_cases hf : (headOf (splitLines buf).1).Final
    · refine ⟨fun _ before _ _ _ => not_inHeaders_of_final _ hf, fun _ => ?_⟩
      exact incremental_of_final _ hf
    · cases hh : headOf (splitLines buf).1 with
      | refused | whole => rw [hh] at hf; exact absurd trivial hf
      | headers req =>
        refine ⟨fun h => absurd (parseRequest_headers hh) h.2, fun h => ?_⟩
        have hin : inHeaders buf = false := by simpa using h [] ext extensions rfl
        rw [inHeaders, hh] at hin
        exact absurd hin (by simp)
      | start =>
        have ih := incremental_iff_not_inHeaders extensions (buf ++ ext)
        unfold Incremental at *
        rw [parseRequest_start hh, List.flatten_cons, ← List.append_assoc, ih]
        constructor
        · intro h before ext' after he
          rcases before with _ | ⟨b, before⟩
          · simp [inHeaders, hh]
          · obtain ⟨rfl, htail⟩ := List.cons.inj he
            simpa using h before ext' after htail
        · intro h before ext' after he
          simpa using h (ext :: before) ext' after (by rw [he]; rfl)

end

/-- A cut behind the method line. -/
theorem not_incremental_after_method_line :
    ¬ Incremental (ascii "GET / HTTP/1.1\r\n") [ascii "Host: a\r\n\r\n"] :=
  fun h => h.2 (by decide)

end Vey.Http

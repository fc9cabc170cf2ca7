import Vey.Http.ResponseHead
import Vey.Http.RequestForwarding

/-! When the connection of a response may be used again.

    A response tells where its body ends by its status, by `chunked` or by its length; otherwise
    the end of the connection is the end of the body, and the connection cannot be kept:

        Transfer-Encoding  Content-Length   body                     connection
        chunked            none             chunked                  may be kept
        chunked            any              chunked                  closed
        other codings      any or none      until the end            closed
        none               some             that many bytes          may be kept
        none               none             until the end, or none   kept if there is none

    The lines may come in any order and any number; what they leave is told by the framing. -/

namespace Vey.Http
open Schemes Vey.Types List

theorem HttpStatusLine.lf_not_mem_reason [AtoiRadix10] {l : Bytes} {s : HttpStatusLine}
    (hl : IsLine l) (h : HttpStatusLine.parse l = .ok s) : lf ∉ s.reason := by
  obtain ⟨a, ha, rfl⟩ := hl
  have htrim : ∀ n, lf ∉ trim ((a ++ [lf]).drop n) := by
    intro n
    apply lf_not_mem_trim
    rw [dropLast_drop_eq_drop_dropLast, dropLast_concat]
    exact fun hm => ha (mem_of_mem_drop hm)
  unfold HttpStatusLine.parse at h
  dsimp only at h
  repeat' split at h
  all_goals cases h
  rw [drop_drop]
  exact htrim _

namespace HttpForwardRemoteResponse

/-- A response that is written as the fields it has. -/
structure Clean (r : HttpForwardRemoteResponse) : Prop where
  reason : lf ∉ r.reason
  endToEnd : ∀ e ∈ r.endToEndHeaders, CleanEntry e
  hopByHop : ∀ e ∈ r.hopByHopHeaders, CleanEntry e ∧ e.1 ≠ contentLengthKey
  connection : Spells r.originalConnectionName connectionName
  coding : Spells r.originalTransferEncodingName transferEncodingName
  keepAlive : Spells r.connection.keepAliveName keepAliveName
  extra : ∀ n ∈ r.connection.extra, lf ∉ n

def framing (r : HttpForwardRemoteResponse) : Framing where
  coding := r.transferEncoding
  coded := r.originalTransferEncodingName.isReceived
  sized := r.hasContentLength
  length := r.contentLength
  lengths := valuesOf r.endToEndHeaders contentLengthKey

/-- What a header line does to the response. -/
structure Handles (header : HttpHeaderLine) (r r' : HttpForwardRemoteResponse) : Prop where
  clean : r.Clean → r'.Clean
  framing : Framing.Step false header r.framing r'.framing

/-! ### The header lines, one by one -/

section

variable {r r' : HttpForwardRemoteResponse} {header : HttpHeaderLine} {name : Bytes}

/-- A line that is neither of the two fields. -/
theorem handles_other (hkey : header.key = name) (hc : name ≠ transferEncodingKey)
    (hl : name ≠ contentLengthKey) (hclean : r.Clean → r'.Clean)
    (hframing : r'.framing = r.framing) : Handles header r r' := by
  refine ⟨hclean, ?_⟩
  rw [hframing]
  exact .other (hkey ▸ hc) (hkey ▸ hl)

variable [HttpTypes]

section
variable (hn : headerName header.name = some name)
include hn

section

variable (hc : name ≠ transferEncodingKey)

include hc

/-- A header that is appended is one clean entry more. -/
theorem appendHeader_spec (h : r.appendHeader name header = .ok r') :
    (r.Clean → r'.Clean) ∧ r'.framing = { r.framing with
      lengths := r.framing.lengths ++ if name = contentLengthKey then [header.value] else [] } := by
  unfold appendHeader at h
  split at h
  · cases h
  · next v hv =>
    cases h
    obtain ⟨hentry, hinner⟩ := cleanEntry_of_fromStr hn hc hv
    constructor
    · intro hr
      refine { hr with endToEnd := ?_ }
      exact forall_mem_append.mpr ⟨hr.2, forall_mem_singleton.mpr hentry⟩
    · simp only [framing, valuesOf_append hinner]

theorem appendHeader_handles (hl : name ≠ contentLengthKey)
    (h : r.appendHeader name header = .ok r') : Handles header r r' := by
  obtain ⟨hclean, hframing⟩ := appendHeader_spec hn hc h
  refine handles_other (key_eq hn) hc hl hclean ?_
  rw [hframing, if_neg hl, append_nil]

theorem insertHopByHopHeader_handles (hl : name ≠ contentLengthKey)
    (h : r.insertHopByHopHeader name header = .ok r') : Handles header r r' := by
  unfold insertHopByHopHeader at h
  split at h
  · cases h
  · next v hv =>
    cases h
    have hentry := (cleanEntry_of_fromStr hn hc hv).1
    refine handles_other (key_eq hn) hc hl ?_ rfl
    intro hr
    refine { hr with hopByHop := ?_ }
    exact forall_mem_append.mpr ⟨hr.3, forall_mem_singleton.mpr ⟨hentry, hl⟩⟩

end

theorem receiveConnection_handles
    (hname : name = ascii "connection" ∨ name = ascii "proxy-connection") :
    Handles header r (r.receiveConnection header) := by
  obtain ⟨hka, hextra⟩ := connection_parse_spec r.connection header.value
  have hlower := HttpHeaders.headerName_lower hn
  -- only one of the two names has the length of the well-known one
  have hspell : header.name.length = connectionName.length → name = connectionName.map lower := by
    intro hlen
    rcases hname with rfl | rfl
    · decide
    · have := congrArg length hlower
      rw [length_map, hlen] at this
      exact absurd this (by decide)
  have hother : name ≠ transferEncodingKey ∧ name ≠ contentLengthKey := by
    rcases hname with rfl | rfl <;> exact ⟨by decide, by decide⟩
  refine handles_other (key_eq hn) hother.1 hother.2 ?_ rfl
  intro hr
  refine { hr with
    connection := spells_receive hr.4 (by decide) hn hspell, keepAlive := ?_, extra := hextra hr.7 }
  show Spells (r.connection.parse header.value).keepAliveName keepAliveName
  rw [hka]
  exact hr.6

end

theorem receiveTransferEncoding_handles (hn : headerName header.name = some transferEncodingKey)
    (h : r.receiveTransferEncoding header = .ok r') : Handles header r r' := by
  have hreceived := isReceived_receive r.originalTransferEncodingName transferEncodingName header.name
  unfold receiveTransferEncoding at h
  dsimp only at h
  split at h
  · cases h
  · next v _ =>
    have hstep : Framing.Step false header r.framing _ := .coding v (key_eq hn) nofun
    cases hs : r.hasContentLength with
    | true =>
      rw [hs, if_pos rfl] at h
      obtain rfl := Except.ok.inj h
      refine ⟨?_, by simpa [framing, hreceived, hs, valuesOf_remove] using hstep⟩
      exact fun hr => { hr with
        endToEnd := fun e he => hr.2 e (mem_of_mem_filter he), coding := spells_coding hn hr.coding }
    | false =>
      rw [hs, if_neg (by decide)] at h
      obtain rfl := Except.ok.inj h
      refine ⟨?_, by simpa [framing, hreceived, hs] using hstep⟩
      exact fun hr => { hr with coding := spells_coding hn hr.coding }

theorem receiveContentLength_handles (hn : headerName header.name = some contentLengthKey)
    (h : r.receiveContentLength contentLengthKey header = .ok r') : Handles header r r' := by
  unfold receiveContentLength at h
  split at h
  · next hcoded =>
    obtain rfl := Except.ok.inj h
    exact ⟨fun hr => { hr with }, .late (key_eq hn) hcoded⟩
  · next hcoded =>
    split at h
    · cases h
    · next n _ =>
      split at h
      · cases h
      · obtain ⟨hclean, hframing⟩ := appendHeader_spec hn Framing.contentLengthKey_ne h
        refine ⟨fun hr => hclean { hr with }, ?_⟩
        rw [hframing, if_pos rfl]
        exact .length n (key_eq hn) (Bool.eq_false_iff.mpr hcoded) nofun

theorem handleHeader_handles (h : r.handleHeader header = .ok r') : Handles header r r' := by
  unfold handleHeader at h
  split at h
  case h_1 => cases h
  case h_2 name hn =>
    simp only [ite_eq_iff] at h
    rcases h with ⟨hconn, h⟩ | ⟨-, ⟨hup, h⟩ | ⟨-, ⟨hka, h⟩ | ⟨-, ⟨hc, h⟩ | ⟨hc, ⟨hl, h⟩ |
      ⟨hl, ⟨-, h⟩ | ⟨-, ⟨-, h⟩ | ⟨-, h⟩⟩⟩⟩⟩⟩⟩
    · obtain rfl := Except.ok.inj h
      exact receiveConnection_handles hn hconn
    · subst hup
      exact insertHopByHopHeader_handles hn (by decide) (by decide) h
    · subst hka
      obtain rfl := Except.ok.inj h
      refine handles_other (key_eq hn) (by decide) (by decide) ?_ rfl
      exact fun hr => { hr with
        keepAlive := spells_receive hr.keepAlive (by decide) hn fun _ => by decide }
    · subst hc
      exact receiveTransferEncoding_handles hn h
    · subst hl
      exact receiveContentLength_handles hn h
    · obtain ⟨hclean, hframing⟩ := appendHeader_handles hn hc hl h
      exact ⟨fun hr => hclean { hr with }, hframing⟩
    · obtain rfl := Except.ok.inj h
      unfold receiveProxySupport
      split
      · refine handles_other (key_eq hn) hc hl ?_ rfl
        exact fun hr => { hr with }
      · exact handles_other (key_eq hn) hc hl id rfl
    · exact appendHeader_handles hn hc hl h

end

/-! ### Whole heads -/

/-- A clean response with the framing of the header lines `seen`. -/
structure Framed (seen : List HttpHeaderLine) (r : HttpForwardRemoteResponse) : Prop where
  clean : r.Clean
  framing : r.framing.Tells seen

variable {r : HttpForwardRemoteResponse} {seen : List HttpHeaderLine}

theorem Framed.postCheckAndFix [HttpTypes] (h : r.Framed seen) (method : Method) (keepAlive : Bool) :
    (r.postCheckAndFix method keepAlive).Framed seen := by
  obtain ⟨hc, htells⟩ := h
  exact ⟨{ hc with }, htells⟩

theorem framed_build [AtoiRadix10] {l : Bytes} (hl : IsLine l)
    (h : buildFromStatusLine l = .ok r) : r.Framed [] := by
  unfold buildFromStatusLine at h
  split at h
  · cases h
  · next s hs =>
    have hreason := HttpStatusLine.lf_not_mem_reason hl hs
    split at h
    all_goals cases h
    all_goals
      refine ⟨⟨hreason, nofun, nofun, nofun, nofun, nofun, nofun⟩, ?_⟩
      exact Framing.tells_nil

section

variable [HttpTypes] [AtoiRadix10] {method : Method} {keepAlive : Bool} {max : Nat}

/-- What the lines handed on have left: nothing, or a response framed by its header lines. -/
def Told (ls : List Bytes) : Option HttpForwardRemoteResponse → Prop
  | none => ls = []
  | some r => ∃ first hs, ls = first :: hs ∧ IsLine first ∧
      (∀ l ∈ hs, IsLine l ∧ isBlankLine l = false) ∧
      r.Framed (hs.filterMap fun l => (HttpHeaderLine.parse l).toOption)

theorem told_of_took {ls : List Bytes} {s : Option HttpForwardRemoteResponse}
    (h : (lineLoop method keepAlive max).Took none ls s) : Told ls s := by
  induction h with
  | start => rfl
  | @line ls s s' l _ hl hline ih =>
    cases s with
    | none =>
      obtain rfl : ls = [] := ih
      cases hb : buildFromStatusLine l with
      | error e => simp [lineLoop, hb, Except.map] at hline
      | ok r =>
        obtain rfl : some r = s' := by simpa [lineLoop, hb, Except.map] using hline
        exact ⟨l, [], rfl, hl, nofun, framed_build hl hb⟩
    | some r =>
      obtain ⟨first, hs, rfl, hfirst, hhs, hr⟩ := ih
      cases hblank : isBlankLine l with
      | true => simp [lineLoop, hblank] at hline
      | false =>
        cases hp : HttpHeaderLine.parse l with
        | error e => simp [lineLoop, hblank, parseHeaderLine, hp, Except.map] at hline
        | ok header =>
          cases hh : r.handleHeader header with
          | error e => simp [lineLoop, hblank, parseHeaderLine, hp, hh, Except.map] at hline
          | ok r' =>
            obtain rfl : some r' = s' := by
              simpa [lineLoop, hblank, parseHeaderLine, hp, hh, Except.map] using hline
            obtain ⟨hclean, hframing⟩ := handleHeader_handles hh
            refine ⟨first, hs ++ [l], rfl, hfirst, ?_, hclean hr.clean, ?_⟩
            · exact forall_mem_append.mpr ⟨hhs, forall_mem_singleton.mpr ⟨hl, hblank⟩⟩
            · simpa [hp, Except.toOption] using hr.framing.step hframing

/-- A response that was parsed is fixed up from one framed by the lines of its head. -/
theorem parse_framed {s : Source} {rsp : HttpForwardRemoteResponse}
    {t : LineReader (Option HttpForwardRemoteResponse)}
    (h : (parse method keepAlive max).Completes { reader := s, state := none } (.ok rsp) t) :
    t.taken ++ t.reader.content = s.content ∧ ∃ r : HttpForwardRemoteResponse,
      r.Framed (receivedHeaders t.taken) ∧ rsp = r.postCheckAndFix method keepAlive := by
  obtain ⟨hcontent, ls, last, htaken, st, htook, hlast, hline⟩ := LineReader.read_gives h
  refine ⟨hcontent, ?_⟩
  have htold := told_of_took htook
  cases st with
  | none =>
    cases hb : buildFromStatusLine last <;> simp [lineLoop, hb, Except.map] at hline
  | some r =>
    obtain ⟨first, hs, rfl, hfirst, hhs, hr⟩ := htold
    cases hblank : isBlankLine last with
    | false =>
      cases hp : r.parseHeaderLine last <;> simp [lineLoop, hblank, hp, Except.map] at hline
    | true =>
      have hrsp : { r with originHeaderSize := ((first :: hs).flatten ++ last).length
          }.postCheckAndFix method keepAlive = rsp := by
        simpa [lineLoop, hblank] using hline
      have htaken : t.taken = first ++ hs.flatten ++ last := by simpa using htaken
      refine ⟨_, ?_, hrsp.symm⟩
      rw [htaken, receivedHeaders_lines hfirst hhs hblank]
      obtain ⟨hclean, hframing⟩ := hr
      exact ⟨{ hclean with }, hframing⟩

end

/-! ### The connection and the fields on the wire -/

section

variable {f : Field}

/-- A connection that is kept after `post_check_and_fix`. -/
theorem keepAlive_postCheckAndFix [HttpTypes] {method : Method} {requestKeepAlive : Bool}
    (h : (r.postCheckAndFix method requestKeepAlive).keepAlive = true) :
    requestKeepAlive = true ∧ ¬(r.framing.coded = true ∧ r.framing.sized = true) ∧
      r.bodyType method ≠ some .readUntilEnd := by
  have hka : requestKeepAlive = true ∧
      (r.originalTransferEncodingName.isReceived = true →
        r.hasContentLength = false ∧ r.transferEncoding.chunked = true) ∧
      (r.originalTransferEncodingName.isReceived = false →
        r.hasContentLength = true ∨ r.expectNoBody method = true) := by
    unfold postCheckAndFix at h
    dsimp only at h
    cases hc : r.originalTransferEncodingName.isReceived with
    | true =>
      rw [hc, if_pos rfl] at h
      split at h
      · cases h
      · next hframed =>
        simp only [Bool.or_eq_true, not_or, Bool.not_eq_true, Bool.not_eq_false'] at hframed
        exact ⟨(Bool.and_eq_true_iff.mp h).2, fun _ => hframed, nofun⟩
    | false =>
      rw [hc, if_neg (by decide)] at h
      split at h
      · cases h
      · next hframed =>
        simp only [Bool.and_eq_true, not_and, Bool.not_eq_true', Bool.not_eq_false] at hframed
        refine ⟨(Bool.and_eq_true_iff.mp h).2, nofun, fun _ => ?_⟩
        cases hs : r.hasContentLength with
        | true => exact .inl rfl
        | false => exact .inr (hframed hs)
  obtain ⟨hreq, hcoded, hplain⟩ := hka
  refine ⟨hreq, ?_, ?_⟩
  · rintro ⟨hc, hs⟩
    have hs : r.hasContentLength = true := hs
    rw [(hcoded hc).1] at hs
    cases hs
  · unfold bodyType
    cases hc : r.originalTransferEncodingName.isReceived with
    | true => simp [(hcoded hc).2]
    | false =>
      rcases hplain hc with hs | hn
      · simp only [hs, if_true]
        split
        · nofun
        · split
          · nofun
          · simp only [Bool.false_eq_true, if_false]
            split <;> nofun
      · simp [hn]

theorem mem_transferEncoding_write {v : TransferEncodingValue} {name : Bytes}
    (hname : CleanName transferEncodingName name) (hf : f ∈ v.write name) :
    f.Clean ∧ f.1.map lower = transferEncodingKey ∧ v ≠ {} := by
  have hkey : name.map lower = transferEncodingKey := hname.key.trans (by decide)
  have hchunked : lf ∉ ascii "chunked" := by decide
  have hmore : lf ∉ ascii ", chunked" := by decide
  unfold TransferEncodingValue.write at hf
  split at hf
  · next kind hk =>
    have hkind : lf ∉ kind.asStr := by cases kind <;> decide
    rw [mem_singleton.mp hf]
    refine ⟨⟨hname.colon, hname.newline, ?_⟩, hkey, ?_⟩
    · intro hm
      rcases mem_append.mp hm with hm | hm
      · exact hkind hm
      · split at hm
        · exact hmore hm
        · cases hm
    · rintro rfl
      cases hk
  · unfold TransferEncodingValue.writeChunked at hf
    split at hf
    · next hc =>
      rw [mem_singleton.mp hf]
      refine ⟨⟨hname.colon, hname.newline, hchunked⟩, hkey, ?_⟩
      rintro rfl
      cases hc
    · cases hf

/-- A field is an end-to-end header, the coding, or has nothing to do with the framing. -/
theorem mem_fields (hc : r.Clean) (hf : f ∈ r.fields) :
    (∃ e ∈ r.endToEndHeaders, CleanEntry e ∧ (e.2.originalName.getD e.1, e.2.inner) = f) ∨
      (f.Clean ∧ f.1.map lower = transferEncodingKey ∧ r.transferEncoding ≠ {}) ∨ Aside f := by
  unfold fields at hf
  simp only [mem_append, RequestHead.mem_mapFields] at hf
  rcases hf with (((⟨e, he, hf⟩ | hf) | ⟨e, he, hf⟩) | hf) | hf
  · exact .inl ⟨e, he, hc.endToEnd e he, hf⟩
  · split at hf
    · rw [mem_singleton.mp hf]
      have hname : CleanName (ascii "Proxy-support") (ascii "Proxy-support") :=
        cleanName_self (by decide)
      exact .inr (.inr (hname.aside (by decide) (by decide) (by decide)))
    · cases hf
  · obtain ⟨hentry, hl⟩ := hc.hopByHop e he
    rw [← hf]
    refine .inr (.inr ⟨hentry.field, ?_, ?_⟩)
    · rw [hentry.key]; exact hentry.noCoding
    · rw [hentry.key]; exact hl
  · exact .inr (.inl (mem_transferEncoding_write (hc.coding.asBytes (by decide)) hf))
  · refine .inr (.inr (aside_writeForReq (hc.connection.asBytes (by decide)) hc.keepAlive hc.extra
      ?_ f hf))
    nofun

theorem clean_of_mem_fields (hc : r.Clean) (hf : f ∈ r.fields) : f.Clean := by
  rcases mem_fields hc hf with ⟨e, -, hentry, rfl⟩ | ⟨hclean, -⟩ | hside
  · exact hentry.field
  · exact hclean
  · exact hside.clean

/-- The coding is written only when there is one. -/
theorem coding_of_mem_fields (hc : r.Clean) (hf : f ∈ r.fields)
    (hkey : f.1.map lower = transferEncodingKey) : r.transferEncoding ≠ {} := by
  rcases mem_fields hc hf with ⟨e, -, hentry, rfl⟩ | ⟨-, -, hcoding⟩ | hside
  · exact absurd (hentry.key.symm.trans hkey) hentry.noCoding
  · exact hcoding
  · exact absurd hkey hside.coding

theorem lengths_of_mem_fields (hc : r.Clean) (hf : f ∈ r.fields)
    (hkey : f.1.map lower = contentLengthKey) : r.framing.lengths ≠ [] := by
  rcases mem_fields hc hf with ⟨e, he, hentry, rfl⟩ | ⟨-, hcoding, -⟩ | hside
  · have hk : e.1 = contentLengthKey := hentry.key.symm.trans hkey
    intro hnil
    have hmem : e ∈ r.endToEndHeaders.filter fun e => e.1 = contentLengthKey := by
      simp [he, hk]
    rw [map_eq_nil_iff.mp hnil] at hmem
    cases hmem
  · exact absurd (hkey.symm.trans hcoding) Framing.contentLengthKey_ne
  · exact absurd hkey hside.length

theorem lf_not_mem_statusLine (hc : r.Clean) : lf ∉ r.statusLine := by
  have hv : lf ∉ r.version.text := by cases r.version <;> decide
  have hb : lf ≠ 32 := by decide
  simp [statusLine, hv, hb, lf_not_mem_decFmt, hc.reason]

/-- The two fields are never written together. -/
theorem serialize_one_field (h : r.Framed seen) (body : Bytes) :
    ¬(contentLengthKey ∈ (readHead (r.serialize ++ body)).map Prod.fst ∧
      transferEncodingKey ∈ (readHead (r.serialize ++ body)).map Prod.fst) := by
  obtain ⟨hclean, htells⟩ := h
  rw [serialize, readHead_writeHead body (lf_not_mem_statusLine hclean)
    fun f hf => clean_of_mem_fields hclean hf]
  simp only [map_map, mem_map, Function.comp_apply]
  rintro ⟨⟨f, hf, hlen⟩, ⟨g, hg, hcod⟩⟩
  have hlens := lengths_of_mem_fields hclean hf hlen
  have hcoding := coding_of_mem_fields hclean hg hcod
  cases hcoded : r.framing.coded with
  | true => exact hlens (htells.whenCoded hcoded)
  | false => exact hcoding (htells.whenPlain hcoded)

end

/-- A connection is kept only behind a body that tells where it ends, and only for a request that
    asked for it; what the client is sent has at most one of the two fields. -/
theorem keepAlive_delimited [HttpTypes] [AtoiRadix10] {method : Method} {requestKeepAlive : Bool}
    {maxHeaderSize : Nat} {s : Source} {rsp : HttpForwardRemoteResponse}
    {t : LineReader (Option HttpForwardRemoteResponse)}
    (h : (parse method requestKeepAlive maxHeaderSize).Completes { reader := s, state := none }
      (.ok rsp) t) :
    t.taken ++ t.reader.content = s.content ∧
    (rsp.keepAlive = true → requestKeepAlive = true ∧
      (rsp.bodyType method = none ∨ (∃ n, rsp.bodyType method = some (.contentLength n)) ∨
        rsp.bodyType method = some .chunked) ∧
      ¬((∃ l ∈ receivedHeaders t.taken, l.key = contentLengthKey) ∧
        ∃ l ∈ receivedHeaders t.taken, l.key = transferEncodingKey)) ∧
    ∀ body, ¬(contentLengthKey ∈ (readHead (rsp.serialize ++ body)).map Prod.fst ∧
      transferEncodingKey ∈ (readHead (rsp.serialize ++ body)).map Prod.fst) := by
  obtain ⟨hcontent, r, hr, rfl⟩ := parse_framed h
  refine ⟨hcontent, ?_, ?_⟩
  · intro hka
    obtain ⟨hreq, hone, hbody⟩ := keepAlive_postCheckAndFix hka
    refine ⟨hreq, ?_, ?_⟩
    · have hbody : (r.postCheckAndFix method requestKeepAlive).bodyType method ≠
          some .readUntilEnd := hbody
      rcases hb : (r.postCheckAndFix method requestKeepAlive).bodyType method with _ | _ | n | _
      · exact .inl rfl
      · exact absurd hb hbody
      · exact .inr (.inl ⟨n, rfl⟩)
      · exact .inr (.inr rfl)
    · rintro ⟨hsized, hcoded⟩
      exact hone ⟨hr.framing.coded.mpr hcoded, hr.framing.sized.mpr hsized⟩
  · exact serialize_one_field (hr.postCheckAndFix method requestKeepAlive)

/-- A response with a length, to a request that asked for another one. -/
theorem keepAlive_delimited_length :
    let head := ascii "HTTP/1.1 200 OK\r\nContent-Length: 4\r\n\r\n"
    ∃ rsp t, (parse ⟨ascii "GET", by decide⟩ true 4096).Completes
        { reader := ⟨head ++ ascii "body", [.stall], by decide⟩, state := none } (.ok rsp) t ∧
      rsp.keepAlive = true ∧ t.taken = head ∧
      rsp.bodyType ⟨ascii "GET", by decide⟩ ≠ some .readUntilEnd ∧
      ¬(contentLengthKey ∈ (readHead (rsp.serialize ++ ascii "body")).map Prod.fst ∧
        transferEncodingKey ∈ (readHead (rsp.serialize ++ ascii "body")).map Prod.fst) := by
  intro head
  have hrun := Future.drive_completes (F := parse ⟨ascii "GET", by decide⟩ true 4096) (n := 4)
    (s := { reader := ⟨head ++ ascii "body", [.stall], by decide⟩, state := none }) .start rfl
  obtain ⟨-, hkept, hone⟩ := keepAlive_delimited hrun
  obtain ⟨-, hbody, -⟩ := hkept rfl
  refine ⟨_, _, hrun, rfl, rfl, ?_, hone (ascii "body")⟩
  rcases hbody with h | ⟨n, h⟩ | h <;> rw [h] <;> nofun

end HttpForwardRemoteResponse

end Vey.Http

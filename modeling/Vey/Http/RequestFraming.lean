import Vey.Http.Transparent
import Vey.Http.ProxyRequest

/-! Which body a forwarded request announces.

    Of all that a request keeps, five fields decide its framing. Each header line moves them by
    one of four rules, the same in both request types:

        Transfer-Encoding   the length is forgotten, the coding is chunked
        Content-Length      behind a Transfer-Encoding it is only noted,
                            otherwise it is checked, set and kept as it was received
        any other           nothing

    The value that is kept is the text that was received, and the number parser takes a `+`. -/

namespace Vey.Http
open Schemes Vey.Types List RequestHead HttpHeaderLine HttpHeaders HttpKnownHeaderName

def HttpHeaderLine.key (h : HttpHeaderLine) : Bytes := h.name.map lower

/-- The header lines of a head. -/
def receivedHeaders (head : Bytes) : List HttpHeaderLine :=
  (((splitLines head).1.drop 1).takeWhile fun l => !isBlankLine l).filterMap
    fun l => (HttpHeaderLine.parse l).toOption

/-! ### The framing state -/

structure Framing where
  coding : TransferEncodingValue := {}
  coded : Bool := false
  sized : Bool := false
  length : UInt64 := 0
  /-- the values that are kept -/
  lengths : List Bytes := []

namespace Framing

/-- What a header line does to the framing. A request is strict: its coding ends with `chunked` and
    its lengths are equal. -/
inductive Step (strict : Bool) (header : HttpHeaderLine) (f : Framing) : Framing → Prop where
  | coding (v : TransferEncodingValue) : header.key = transferEncodingKey →
      (strict = true → v.chunked = true) →
      Step strict header f ⟨v, true, f.sized, if f.sized then 0 else f.length,
        if f.sized then [] else f.lengths⟩
  | late : header.key = contentLengthKey → f.coded = true →
      Step strict header f { f with sized := true }
  | length (n : UInt64) : header.key = contentLengthKey → f.coded = false →
      (strict = true → parseU64 header.value = some n ∧ (f.sized = true → f.length = n)) →
      Step strict header f
        { f with sized := true, length := n, lengths := f.lengths ++ [header.value] }
  | other : header.key ≠ transferEncodingKey → header.key ≠ contentLengthKey →
      Step strict header f f

/-- The framing after the header lines `seen`. -/
structure Tells (seen : List HttpHeaderLine) (f : Framing) : Prop where
  coded : f.coded = true ↔ ∃ h ∈ seen, h.key = transferEncodingKey
  sized : f.sized = true ↔ ∃ h ∈ seen, h.key = contentLengthKey
  unsized : f.sized = false → f.lengths = []
  whenCoded : f.coded = true → f.lengths = []
  whenPlain : f.coded = false → f.coding = {}

/-- The framing after the header lines `seen` of a request. -/
structure Inv (seen : List HttpHeaderLine) (f : Framing) : Prop extends f.Tells seen where
  empty : f.sized = false → f.length = 0
  chunked : f.coded = true → f.coding.chunked = true ∧ f.length = 0
  values : f.coded = false →
    f.lengths = (seen.filter fun h => h.key = contentLengthKey).map (·.value) ∧
    ∀ v ∈ f.lengths, parseU64 v = some f.length

theorem tells_nil : Tells [] {} where
  coded := by simp
  sized := by simp
  unsized _ := rfl
  whenCoded := nofun
  whenPlain _ := rfl

theorem inv_nil : Inv [] {} := ⟨tells_nil, fun _ => rfl, nofun, fun _ => ⟨rfl, nofun⟩⟩

theorem contentLengthKey_ne : contentLengthKey ≠ transferEncodingKey := by decide

section

variable {strict : Bool} {seen : List HttpHeaderLine} {header : HttpHeaderLine} {f f' : Framing}

theorem Tells.step (hf : f.Tells seen) (h : Step strict header f f') :
    f'.Tells (seen ++ [header]) := by
  obtain ⟨hcoded, hsized, hunsized, hwhen, hplain⟩ := hf
  have hexists : ∀ key, (∃ h ∈ seen ++ [header], h.key = key) ↔
      (∃ h ∈ seen, h.key = key) ∨ header.key = key := by
    intro key
    simp [or_and_right, exists_or]
  rcases h with ⟨v, hk, -⟩ | ⟨hk, hc⟩ | ⟨n, hk, hc, -⟩ | ⟨hk, hk'⟩
  · have hk' : header.key ≠ contentLengthKey := by rw [hk]; exact contentLengthKey_ne.symm
    refine ⟨by simp [hk], ?_, ?_, ?_, nofun⟩
    · rw [hexists, hsized]; simp [hk']
    · intro hs
      have hs : f.sized = false := hs
      simp [hunsized hs]
    · intro _
      cases hs : f.sized with
      | true => rfl
      | false => simp [hunsized hs]
  · have hk' : header.key ≠ transferEncodingKey := by rw [hk]; exact contentLengthKey_ne
    refine ⟨?_, by simp [hk], nofun, hwhen, hplain⟩
    rw [hexists, hcoded]; simp [hk']
  · have hk' : header.key ≠ transferEncodingKey := by rw [hk]; exact contentLengthKey_ne
    refine ⟨?_, by simp [hk], nofun, ?_, hplain⟩
    · rw [hexists, hcoded]; simp [hk']
    · intro hy
      have hy : f.coded = true := hy
      rw [hc] at hy
      cases hy
  · refine ⟨?_, ?_, hunsized, hwhen, hplain⟩
    · rw [hexists, hcoded]; simp [hk]
    · rw [hexists, hsized]; simp [hk']

theorem Inv.step (hI : f.Inv seen) (h : Step true header f f') : f'.Inv (seen ++ [header]) := by
  refine ⟨hI.toTells.step h, ?_, ?_, ?_⟩
  all_goals rcases h with ⟨v, hk, hv⟩ | ⟨hk, hc⟩ | ⟨n, hk, hc, hn⟩ | ⟨hk, hk'⟩
  · intro hs
    simp [hI.empty hs]
  · nofun
  · nofun
  · exact hI.empty
  · intro _
    cases hs : f.sized with
    | true => exact ⟨hv rfl, rfl⟩
    | false => exact ⟨hv rfl, hI.empty hs⟩
  · exact hI.chunked
  · intro hy
    exact absurd (hc.symm.trans hy) nofun
  · exact hI.chunked
  · nofun
  · intro hn
    exact absurd (hc.symm.trans hn) nofun
  · intro _
    obtain ⟨hlens, hvals⟩ := hI.values hc
    refine ⟨by simp [hlens, hk], ?_⟩
    intro v hv
    rcases mem_append.mp hv with hv | hv
    · have hs : f.sized = true := by
        rw [← Bool.not_eq_false]
        intro hs
        rw [hI.unsized hs] at hv
        cases hv
      rw [hvals v hv, (hn rfl).2 hs]
    · rw [mem_singleton.mp hv, (hn rfl).1]
  · intro hc
    obtain ⟨hlens, hvals⟩ := hI.values hc
    exact ⟨by simp [hlens, hk'], hvals⟩

end

end Framing

/-! ### Heads whose lines cannot be mistaken -/

section

/-- A name as it can be written in front of a colon. -/
structure CleanName (known n : Bytes) : Prop where
  key : n.map lower = known.map lower
  colon : 58 ∉ n
  newline : lf ∉ n

/-- A name that was received spells the well-known one. -/
def Spells (k : HttpKnownHeaderName) (known : Bytes) : Prop :=
  ∀ n, k.received = some n → CleanName known n

/-- An entry of a map is written under its own key, which is not the one of a coding. -/
structure CleanEntry (e : Bytes × H1HeaderValue) : Prop where
  key : (e.2.originalName.getD e.1).map lower = e.1
  field : Field.Clean (e.2.originalName.getD e.1, e.2.inner)
  noCoding : e.1 ≠ transferEncodingKey

theorem not_mem_of_token {n : Bytes} (h : ∀ c ∈ n, isTokenChar c = true) : 58 ∉ n ∧ lf ∉ n :=
  ⟨fun hc => absurd (h 58 hc) (by decide), fun hc => absurd (h lf hc) (by decide)⟩

variable {known : Bytes} {k : HttpKnownHeaderName}

theorem cleanName_self (h : known.all isTokenChar = true) : CleanName known known := by
  obtain ⟨hc, hl⟩ := not_mem_of_token (all_eq_true.mp h)
  exact ⟨rfl, hc, hl⟩

theorem spells_receive [HttpHeaders] {name key : Bytes} (hk : Spells k known)
    (hknown : known.all isTokenChar = true) (hn : headerName name = some key)
    (hkey : name.length = known.length → key = known.map lower) :
    Spells (k.receive known name) known := by
  intro n h
  unfold receive at h
  split at h
  · simp only [Option.some.injEq] at h
    split at h
    case isTrue hl =>
      obtain ⟨hc, hlf⟩ := not_mem_of_token (headerName_token hn).2
      rw [← h]
      exact ⟨by rw [← headerName_lower hn, hkey hl], hc, hlf⟩
    case isFalse => rw [← h]; exact cleanName_self hknown
  · exact hk n h

theorem Spells.asBytes (hk : Spells k known) (hknown : known.all isTokenChar = true) :
    CleanName known (k.asBytes known) := by
  unfold HttpKnownHeaderName.asBytes
  cases h : k.received with
  | none => exact cleanName_self hknown
  | some n => exact hk n h

theorem lower_ne_lf {c : UInt8} (h : c ≠ lf) : lower c ≠ lf := by
  unfold lower
  split
  · next hc =>
    intro he
    have hn := congrArg UInt8.toNat he
    have hlf : lf.toNat = 10 := rfl
    simp only [UInt8.le_iff_toNat_le, UInt8.toNat_add, UInt8.reduceToNat] at hc hn
    omega
  · exact h

variable (m : H1HeaderMap)

/-- The values that a map keeps under a key. -/
def valuesOf (key : Bytes) : List Bytes :=
  (m.filter fun e => e.1 = key).map (·.2.inner)

theorem valuesOf_remove (key : Bytes) : valuesOf (m.remove key) key = [] := by
  simp [valuesOf, H1HeaderMap.remove]

/-- Another key's value in the place of all its values. -/
theorem valuesOf_insert {key other : Bytes} (v : H1HeaderValue)
    (h : other ≠ key) : valuesOf (m.insert other v) key = valuesOf m key := by
  have hkeep : ∀ e ∈ m, (decide (e.1 = key) && decide (e.1 ≠ other)) = decide (e.1 = key) := by
    intro e _
    by_cases he : e.1 = key
    · simp [he, h.symm]
    · simp [he]
  unfold valuesOf H1HeaderMap.insert H1HeaderMap.append H1HeaderMap.remove
  rw [filter_append, filter_filter, filter_congr hkeep]
  simp [h]

variable {header : HttpHeaderLine}

theorem valuesOf_append {v : H1HeaderValue} (hv : v.inner = header.value)
    (m : H1HeaderMap) (name : Bytes) :
    valuesOf (m.append name (v.setOriginalName header.name)) contentLengthKey =
      valuesOf m contentLengthKey ++ if name = contentLengthKey then [header.value] else [] := by
  simp only [valuesOf, H1HeaderMap.append, filter_append, map_append]
  by_cases hk : name = contentLengthKey
  · simp [hk, H1HeaderValue.setOriginalName, hv]
  · simp [hk]

theorem isReceived_receive (k : HttpKnownHeaderName) (known name : Bytes) :
    (k.receive known name).isReceived = true := by
  unfold receive isReceived
  cases hr : k.received <;> simp [hr]

variable [HttpTypes]

/-- A head that is written as the fields it has. -/
structure RequestHead.Clean (r : RequestHead) : Prop where
  endToEnd : ∀ e ∈ r.endToEndHeaders, CleanEntry e
  hopByHop : ∀ e ∈ r.hopByHopHeaders, CleanEntry e ∧ e.1 ≠ contentLengthKey
  connection : Spells r.originalConnectionName connectionName
  te : Spells r.originalTeName teName
  coding : Spells r.originalTransferEncodingName transferEncodingName
  keepAlive : Spells r.connection.keepAliveName keepAliveName
  extra : ∀ n ∈ r.connection.extra, lf ∉ n

theorem clean_new (method : Method) (uri : Uri) (version : Version) :
    (new method uri version).Clean := by
  constructor <;> simp [new, Spells]

variable (r : RequestHead)

def RequestHead.framing : Framing where
  coding := r.transferEncoding
  coded := r.originalTransferEncodingName.isReceived
  sized := r.hasContentLength
  length := r.contentLength
  lengths := valuesOf r.endToEndHeaders contentLengthKey

/-- A step that the framing does not see. -/
structure Quiet (r r' : RequestHead) : Prop where
  clean : r.Clean → r'.Clean
  framing : r'.framing = r.framing

theorem Quiet.trans {r s t : RequestHead} (h : Quiet r s) (h' : Quiet s t) : Quiet r t :=
  ⟨h'.clean ∘ h.clean, h'.framing.trans h.framing⟩

/-- What a header line does to the head. -/
structure HeadStep (header : HttpHeaderLine) (r r' : RequestHead) : Prop where
  clean : r.Clean → r'.Clean
  framing : Framing.Step true header r.framing r'.framing

/-! ### The header lines, one by one -/

section

variable {r} {r' : RequestHead} {name : Bytes}

theorem Quiet.headStep (h : Quiet r r') (hc : header.key ≠ transferEncodingKey)
    (hl : header.key ≠ contentLengthKey) : HeadStep header r r' :=
  ⟨h.clean, by rw [h.framing]; exact .other hc hl⟩

theorem key_eq (hn : headerName header.name = some name) : header.key = name :=
  (headerName_lower hn).symm

theorem receiveHost_quiet (h : r.receiveHost header = .ok r') : Quiet r r' := by
  unfold receiveHost at h
  repeat' split at h
  all_goals cases h
  · exact ⟨id, rfl⟩
  · exact ⟨fun hc => { hc with }, rfl⟩

theorem expect_quiet (r : RequestHead) : Quiet r { r with expect100Continue := true } :=
  ⟨fun hc => { hc with }, rfl⟩

theorem connection_parse_spec (c : ConnectionValue) (buf : Bytes) :
    (c.parse buf).keepAliveName = c.keepAliveName ∧
      ((∀ n ∈ c.extra, lf ∉ n) → ∀ n ∈ (c.parse buf).extra, lf ∉ n) := by
  unfold ConnectionValue.parse
  generalize genericItemList buf = items
  induction items generalizing c with
  | nil => exact ⟨rfl, id⟩
  | cons item items ih =>
    obtain ⟨hname, hextra⟩ := ih (c.parseItem item)
    have hitem : (c.parseItem item).keepAliveName = c.keepAliveName ∧
        ((∀ n ∈ c.extra, lf ∉ n) → ∀ n ∈ (c.parseItem item).extra, lf ∉ n) := by
      unfold ConnectionValue.parseItem
      dsimp only
      repeat' split
      all_goals first
        | exact ⟨rfl, id⟩
        | next n hn =>
          refine ⟨rfl, fun hall m hm => ?_⟩
          rcases mem_append.mp hm with hm | hm
          · exact hall m hm
          · rw [mem_singleton.mp hm, headerName_lower hn]
            intro hlf
            obtain ⟨c, hc, he⟩ := mem_map.mp hlf
            have hne : c ≠ lf := by
              rintro rfl
              exact (not_mem_of_token (headerName_token hn).2).2 hc
            exact lower_ne_lf hne he
    exact ⟨hname.trans hitem.1, hextra ∘ hitem.2⟩

section
variable (hn : headerName header.name = some name)
include hn

theorem receiveConnection_quiet
    (hkey : header.name.length = connectionName.length → name = connectionName.map lower) :
    Quiet r (r.receiveConnection header) := by
  obtain ⟨hname, hextra⟩ := connection_parse_spec r.connection header.value
  refine ⟨fun hc => { hc with connection := ?_, keepAlive := ?_, extra := hextra hc.extra }, rfl⟩
  · exact spells_receive hc.connection (by decide) hn hkey
  · unfold receiveConnection
    rw [hname]
    exact hc.keepAlive

theorem receiveKeepAlive_quiet
    (hkey : name = keepAliveName.map lower) : Quiet r (r.receiveKeepAlive header) :=
  ⟨fun hc => { hc with keepAlive := spells_receive hc.keepAlive (by decide) hn fun _ => hkey }, rfl⟩

theorem receiveTe_quiet (hkey : name = teName.map lower)
    (h : r.receiveTe header = .ok r') : Quiet r r' := by
  unfold receiveTe at h
  split at h
  · cases h
  · cases h
    exact ⟨fun hc => { hc with te := spells_receive hc.te (by decide) hn fun _ => hkey }, rfl⟩

section

variable (hc : name ≠ transferEncodingKey)

include hc

theorem cleanEntry_of_fromStr {v : H1HeaderValue}
    (hv : H1HeaderValue.fromStr header.value = some v) :
    CleanEntry (name, v.setOriginalName header.name) ∧ v.inner = header.value := by
  unfold H1HeaderValue.fromStr at hv
  split at hv
  · next hvis =>
    cases hv
    obtain ⟨hcolon, hlf⟩ := not_mem_of_token (headerName_token hn).2
    refine ⟨⟨(headerName_lower hn).symm, ⟨hcolon, hlf, fun hm => ?_⟩, hc⟩, rfl⟩
    exact absurd (headerValue_visible hvis lf hm) (by decide)
  · cases hv

/-- A header that is appended is one clean entry more. -/
theorem appendHeader_spec (h : r.appendHeader name header = .ok r') :
    (r.Clean → r'.Clean) ∧ r'.framing = { r.framing with
      lengths := r.framing.lengths ++ if name = contentLengthKey then [header.value] else [] } := by
  unfold appendHeader at h
  split at h
  · cases h
  · next v hv =>
    cases h
    obtain ⟨hentry, hinner⟩ := cleanEntry_of_fromStr hn hc hv
    constructor
    · intro hclean
      refine { hclean with endToEnd := ?_ }
      exact forall_mem_append.mpr ⟨hclean.1, forall_mem_singleton.mpr hentry⟩
    · simp only [framing, valuesOf_append hinner]

theorem appendHeader_quiet (hl : name ≠ contentLengthKey)
    (h : r.appendHeader name header = .ok r') : Quiet r r' := by
  obtain ⟨hclean, hframing⟩ := appendHeader_spec hn hc h
  refine ⟨hclean, ?_⟩
  rw [hframing, if_neg hl, append_nil]

theorem insertHopByHopHeader_quiet (hl : name ≠ contentLengthKey)
    (h : r.insertHopByHopHeader name header = .ok r') : Quiet r r' := by
  unfold insertHopByHopHeader at h
  split at h
  · cases h
  · next v hv =>
    cases h
    have hentry := (cleanEntry_of_fromStr hn hc hv).1
    refine ⟨fun hclean => { hclean with hopByHop := ?_ }, rfl⟩
    exact forall_mem_append.mpr ⟨hclean.2, forall_mem_singleton.mpr ⟨hentry, hl⟩⟩

end

end

theorem spells_coding
    (hn : headerName header.name = some transferEncodingKey)
    (hk : Spells k transferEncodingName) :
    Spells (k.receive transferEncodingName header.name) transferEncodingName :=
  spells_receive hk (by decide) hn fun _ => by decide

theorem receiveTransferEncoding_step (hn : headerName header.name = some transferEncodingKey)
    (h : r.receiveTransferEncoding header = .ok r') : HeadStep header r r' := by
  have hkey := key_eq hn
  have hreceived := isReceived_receive r.originalTransferEncodingName transferEncodingName header.name
  unfold receiveTransferEncoding at h
  dsimp only at h
  repeat' split at h
  all_goals cases h
  next v _ _ hv =>
    have hstep : Framing.Step true header r.framing _ := .coding v hkey fun _ => hv
    unfold dropContentLength
    dsimp only
    split
    · next hsized =>
      refine ⟨fun hc => { hc with endToEnd := ?_, coding := spells_coding hn hc.coding }, ?_⟩
      · exact fun e he => hc.1 e (mem_of_mem_filter he)
      · simpa [framing, hreceived, hsized, valuesOf_remove] using hstep
    · next hsized =>
      refine ⟨fun hc => { hc with coding := spells_coding hn hc.coding }, ?_⟩
      simpa [framing, hreceived, hsized] using hstep

/-- A content length is noted, or it is checked, set and appended. -/
theorem receiveContentLength_step {kept : Bool} (hn : headerName header.name = some name)
    (hname : name = contentLengthKey) (h : r.receiveContentLength header = .ok (r', kept)) :
    (kept = false → HeadStep header r r') ∧
      (kept = true → ∀ {r''}, r'.appendHeader name header = .ok r'' → HeadStep header r r'') := by
  have hkey : header.key = contentLengthKey := (key_eq hn).trans hname
  unfold receiveContentLength at h
  split at h
  · next hcoded =>
    cases h
    refine ⟨fun _ => ⟨fun hc => { hc with }, ?_⟩, nofun⟩
    exact Framing.Step.late hkey hcoded
  · next hcoded =>
    repeat' split at h
    all_goals cases h
    next n hparse hsame =>
      refine ⟨nofun, fun _ r'' happ => ?_⟩
      obtain ⟨hclean, hframing⟩ :=
        appendHeader_spec hn (by rw [hname]; exact Framing.contentLengthKey_ne) happ
      refine ⟨fun hc => hclean { hc with }, ?_⟩
      have hsame' : r.framing.sized = true → r.framing.length = n := fun hs => by
        by_contra hne
        exact hsame ⟨hs, hne⟩
      rw [hframing, if_pos hname]
      exact Framing.Step.length n hkey (Bool.eq_false_iff.mpr hcoded) fun _ => ⟨hparse, hsame'⟩

end

/-! ### The two request types -/

variable {req req' : HttpTransparentRequest} {name : Bytes}

theorem HttpTransparentRequest.appendHeader_head (h : req.appendHeader name header = .ok req') :
    req.head.appendHeader name header = .ok req'.head := by
  unfold appendHeader at h
  split at h
  · cases h
  · next head hh => cases h; exact hh

theorem HttpTransparentRequest.insertHopByHopHeader_head
    (h : req.insertHopByHopHeader name header = .ok req') :
    req.head.insertHopByHopHeader name header = .ok req'.head := by
  unfold insertHopByHopHeader at h
  split at h
  · cases h
  · next head hh => cases h; exact hh

theorem HttpTransparentRequest.handleHeader_step (h : req.handleHeader header = .ok req') :
    HeadStep header req.head req'.head := by
  unfold handleHeader at h
  split at h
  case h_1 => cases h
  case h_2 name hn =>
    have hkey := key_eq hn
    -- a line that is none of the two is quiet
    have hother : name ≠ transferEncodingKey → name ≠ contentLengthKey →
        Quiet req.head req'.head → HeadStep header req.head req'.head := fun hc hl hq =>
      hq.headStep (hkey ▸ hc) (hkey ▸ hl)
    simp only [ite_eq_iff] at h
    rcases h with ⟨hhost, h⟩ | ⟨-, ⟨hconn, h⟩ | ⟨-, ⟨hka, h⟩ | ⟨-, ⟨hup, h⟩ | ⟨-, ⟨hc, h⟩ |
      ⟨hc, ⟨hl, h⟩ | ⟨hl, ⟨hte, h⟩ | ⟨-, ⟨hauth, h⟩ | ⟨-, ⟨-, h⟩ | ⟨-, ⟨-, h⟩ | ⟨-, h⟩⟩⟩⟩⟩⟩⟩⟩⟩⟩
    · subst hhost
      split at h
      case h_1 => cases h
      case h_2 head hr =>
        refine hother (by decide) (by decide) ((receiveHost_quiet hr).trans ?_)
        exact appendHeader_quiet hn (by decide) (by decide) (appendHeader_head h)
    · subst hconn
      cases h
      refine hother (by decide) (by decide) ?_
      exact receiveConnection_quiet hn fun _ => by decide
    · subst hka
      cases h
      exact hother (by decide) (by decide) (receiveKeepAlive_quiet hn (by decide))
    · subst hup
      have hins := insertHopByHopHeader_head h
      exact hother (by decide) (by decide)
        (insertHopByHopHeader_quiet hn (by decide) (by decide) hins)
    · subst hc
      split at h
      case h_1 => cases h
      case h_2 head hr =>
        cases h
        exact receiveTransferEncoding_step hn hr
    · split at h
      case h_1 => cases h
      case h_2 head hr =>
        cases h
        exact (receiveContentLength_step hn hl hr).1 rfl
      case h_3 head hr =>
        exact (receiveContentLength_step hn hl hr).2 rfl (appendHeader_head h)
    · split at h
      case h_1 => cases h
      case h_2 head hr =>
        cases h
        exact hother hc hl (receiveTe_quiet hn (hte.trans (by decide)) hr)
    · exact hother hc hl (insertHopByHopHeader_quiet hn hc hl (insertHopByHopHeader_head h))
    · cases h
      exact hother hc hl ⟨id, rfl⟩
    · refine hother hc hl ((expect_quiet req.head).trans ?_)
      exact appendHeader_quiet hn hc hl (appendHeader_head h)
    · exact hother hc hl (appendHeader_quiet hn hc hl (appendHeader_head h))

/-- What a proxy request keeps beside its head. -/
structure SameAside (req req' : HttpProxyClientRequest) : Prop where
  negotiate : req'.authorizationNegotiate = req.authorizationNegotiate
  host : req'.originalHostName = req.originalHostName

/-- A caller of `parse` appends a content length, leaves the framing alone otherwise, and does not
    touch the rest. -/
structure PassesOn (more : HttpProxyClientRequest.ParseMore) : Prop where
  length : ∀ {req req' : HttpProxyClientRequest} {header}, headerName header.name =
    some contentLengthKey → more req contentLengthKey header = .ok req' →
    req.head.appendHeader contentLengthKey header = .ok req'.head
  quiet : ∀ {req req' : HttpProxyClientRequest} {name header}, headerName header.name = some name →
    name ≠ transferEncodingKey → name ≠ contentLengthKey → more req name header = .ok req' →
    Quiet req.head req'.head
  aside : ∀ {req req' : HttpProxyClientRequest} {name header},
    more req name header = .ok req' → SameAside req req'

/-- The header line asks for a connection-based authorization. -/
def HttpHeaderLine.negotiates (h : HttpHeaderLine) : Bool :=
  h.key == ascii "authorization" && isSessionBased h.value

/-- What a header line does to a proxy request. -/
structure ProxyStep (header : HttpHeaderLine) (req req' : HttpProxyClientRequest) : Prop where
  head : HeadStep header req.head req'.head
  negotiate : req'.authorizationNegotiate = (req.authorizationNegotiate || header.negotiates)
  host : Spells req.originalHostName hostName → Spells req'.originalHostName hostName

namespace HttpProxyClientRequest

variable {req req' : HttpProxyClientRequest}

theorem appendParsedHeader_spec (h : req.appendParsedHeader name header = .ok req') :
    req.head.appendHeader name header = .ok req'.head ∧ SameAside req req' := by
  unfold appendParsedHeader at h
  split at h
  · cases h
  · next head hh => cases h; exact ⟨hh, rfl, rfl⟩

theorem passesOn_appendParsedHeader : PassesOn appendParsedHeader where
  length _ h := (appendParsedHeader_spec h).1
  quiet hn hc hl h := appendHeader_quiet hn hc hl (appendParsedHeader_spec h).1
  aside h := (appendParsedHeader_spec h).2

theorem parseHeaderConnection_spec (h : req.parseHeaderConnection header = .ok req') :
    req'.head = req.head.receiveConnection header ∧ SameAside req req' := by
  unfold parseHeaderConnection at h
  dsimp only at h
  split at h
  · cases h
  · cases h; exact ⟨rfl, rfl, rfl⟩

theorem receiveUpgrade_spec (h : req.receiveUpgrade name header = .ok req') :
    req.head.insertHopByHopHeader name header = .ok req'.head ∧ SameAside req req' := by
  unfold receiveUpgrade at h
  repeat' split at h
  all_goals cases h
  next hh => exact ⟨hh, rfl, rfl⟩

theorem handleHeader_step {more : ParseMore} (hmore : PassesOn more)
    (h : req.handleHeader more header = .ok req') : ProxyStep header req req' := by
  unfold handleHeader at h
  split at h
  case h_1 => cases h
  case h_2 name hn =>
    have hkey := key_eq hn
    have hother : name ≠ transferEncodingKey → name ≠ contentLengthKey →
        Quiet req.head req'.head → HeadStep header req.head req'.head := fun hc hl hq =>
      hq.headStep (hkey ▸ hc) (hkey ▸ hl)
    -- any line but Authorization, by what it does to the head and keeps aside
    have hplain : name ≠ ascii "authorization" → HeadStep header req.head req'.head →
        SameAside req req' → ProxyStep header req req' := by
      intro hne hs ha
      have hno : header.negotiates = false := by simp [negotiates, hkey, hne]
      exact ⟨hs, by rw [ha.negotiate, hno, Bool.or_false], by rw [ha.host]; exact id⟩
    simp only [ite_eq_iff] at h
    rcases h with ⟨hhost, h⟩ | ⟨-, ⟨hconn, h⟩ | ⟨-, ⟨hka, h⟩ | ⟨-, ⟨hte, h⟩ | ⟨-, ⟨hup, h⟩ |
      ⟨-, ⟨hc, h⟩ | ⟨hc, ⟨hl, h⟩ | ⟨hl, ⟨hname, h⟩ | ⟨-, ⟨hname, h⟩ | ⟨hname, h⟩⟩⟩⟩⟩⟩⟩⟩⟩
    · subst hhost
      split at h
      case h_1 => cases h
      case h_2 head hr =>
        obtain ⟨hneg, hname⟩ := hmore.aside h
        have hno : header.negotiates = false := by
          simp [negotiates, hkey, show ascii "host" ≠ ascii "authorization" by decide]
        refine ⟨?_, by rw [hneg, hno, Bool.or_false], ?_⟩
        · refine hother (by decide) (by decide) ((receiveHost_quiet hr).trans ?_)
          exact hmore.quiet hn (by decide) (by decide) h
        · intro hs
          rw [hname]
          exact spells_receive hs (by decide) hn fun _ => by decide
    · subst hconn
      obtain ⟨hhead, haside⟩ := parseHeaderConnection_spec h
      refine hplain (by decide) (hother (by decide) (by decide) ?_) haside
      rw [hhead]
      exact receiveConnection_quiet hn fun _ => by decide
    · subst hka
      cases h
      refine hplain (by decide) (hother (by decide) (by decide) ?_) ⟨rfl, rfl⟩
      exact receiveKeepAlive_quiet hn (by decide)
    · subst hte
      split at h
      case h_1 => cases h
      case h_2 head hr =>
        cases h
        refine hplain (by decide) (hother (by decide) (by decide) ?_) ⟨rfl, rfl⟩
        exact receiveTe_quiet hn (by decide) hr
    · subst hup
      obtain ⟨hins, haside⟩ := receiveUpgrade_spec h
      refine hplain (by decide) (hother (by decide) (by decide) ?_) haside
      exact insertHopByHopHeader_quiet hn (by decide) (by decide) hins
    · subst hc
      split at h
      case h_1 => cases h
      case h_2 head hr =>
        cases h
        exact hplain (by decide) (receiveTransferEncoding_step hn hr) ⟨rfl, rfl⟩
    · subst hl
      split at h
      case h_1 => cases h
      case h_2 head hr =>
        cases h
        exact hplain (by decide) ((receiveContentLength_step hn rfl hr).1 rfl) ⟨rfl, rfl⟩
      case h_3 head hr =>
        obtain ⟨hneg, hname⟩ := hmore.aside h
        exact hplain (by decide) ((receiveContentLength_step hn rfl hr).2 rfl (hmore.length hn h))
          ⟨hneg, hname⟩
    · obtain ⟨hneg, hhost⟩ := hmore.aside h
      have hquiet := (expect_quiet req.head).trans (hmore.quiet hn hc hl h)
      exact hplain (by rw [hname.1]; decide) (hother hc hl hquiet) ⟨hneg, hhost⟩
    · obtain ⟨hneg, hhost⟩ := hmore.aside h
      have hq := hmore.quiet hn hc hl h
      refine ⟨hother hc hl hq, ?_, by rw [hhost]; exact id⟩
      simp [hneg, negotiates, hkey, hname]
    · obtain ⟨hneg, hhost⟩ := hmore.aside h
      have hno : header.negotiates = false := by
        simpa [negotiates, hkey] using hname
      refine ⟨hother hc hl (hmore.quiet hn hc hl h), ?_, by rw [hhost]; exact id⟩
      rw [hneg, hno, Bool.or_false]

end HttpProxyClientRequest

/-! ### Whole heads -/

omit [HttpTypes] in
theorem receivedHeaders_lines {first blank : Bytes} {ls : List Bytes} (hfirst : IsLine first)
    (hls : ∀ l ∈ ls, IsLine l ∧ isBlankLine l = false) (hblank : isBlankLine blank = true) :
    receivedHeaders (first ++ ls.flatten ++ blank) =
      ls.filterMap fun l => (HttpHeaderLine.parse l).toOption := by
  have hline : IsLine blank := by
    rcases Bool.or_eq_true_iff.mp hblank with h | h
    · exact ⟨[], not_mem_nil, eq_of_beq h⟩
    · exact ⟨[cr], by decide, eq_of_beq h⟩
  have hform : first ++ ls.flatten ++ blank = (first :: (ls ++ [blank])).flatten ++ [] := by simp
  have hall : ∀ l ∈ first :: (ls ++ [blank]), IsLine l := by
    intro l hl
    rcases mem_cons.mp hl with rfl | hl
    · exact hfirst
    · rcases mem_append.mp hl with hl | hl
      · exact (hls l hl).1
      · rw [mem_singleton.mp hl]; exact hline
  unfold receivedHeaders
  rw [hform, splitLines_flatten _ hall]
  simp only [splitLines, append_nil, drop_one, tail_cons]
  rw [takeWhile_append_of_pos fun l hl => by rw [(hls l hl).2]; rfl,
    takeWhile_cons_of_neg (by rw [hblank]; decide), append_nil]

variable {head : Bytes}

omit [HttpTypes] in
/-- What holds of the method line and survives every header line holds of an accepted head. -/
theorem Accepted.inv {ρ : Type} {k : RequestType ρ} (I : List HttpHeaderLine → ρ → Prop)
    (hbuild : ∀ {l r}, k.buildFromMethodLine l = .ok r → I [] r)
    (hline : ∀ {seen r l r'}, I seen r → k.parseHeaderLine r l = .ok r' →
      ∃ header, HttpHeaderLine.parse l = .ok header ∧ I (seen ++ [header]) r') {req : ρ}
      (h : Accepted k head req) :
    ∃ r, I (receivedHeaders head) r ∧ k.postCheckAndFix r head.length = .ok req := by
  obtain ⟨first, ls, blank, r, hhead, ⟨hfirst, hls, r₀, hb, hfold⟩, hblank, hfix⟩ := h
  refine ⟨r, ?_, hfix⟩
  rw [hhead, receivedHeaders_lines hfirst hls hblank]
  have hstart : I (([] : List Bytes).filterMap fun l => (HttpHeaderLine.parse l).toOption) r₀ :=
    hbuild hb
  refine foldlM_inv (fun ls r => I (ls.filterMap fun l => (HttpHeaderLine.parse l).toOption) r)
    ?_ hstart hfold
  intro seen s l s' hI hp
  obtain ⟨header, hparse, hI'⟩ := hline hI hp
  simpa [hparse, Except.toOption] using hI'

/-- A clean head with the framing of the header lines `seen`. -/
structure Framed (seen : List HttpHeaderLine) (r : RequestHead) : Prop where
  clean : r.Clean
  framing : r.framing.Inv seen

variable {seen : List HttpHeaderLine}

theorem Framed.step {r r' : RequestHead}
    (h : Framed seen r) (hs : HeadStep header r r') : Framed (seen ++ [header]) r' :=
  ⟨hs.clean h.clean, h.framing.step hs.framing⟩

theorem Framed.quiet {r r' : RequestHead} (h : Framed seen r) (hq : Quiet r r') : Framed seen r' :=
  ⟨hq.clean h.clean, by rw [hq.framing]; exact h.framing⟩

theorem framed_build {l : Bytes} {r : RequestHead} (h : RequestHead.buildFromMethodLine l = .ok r) :
    Framed [] r := by
  unfold RequestHead.buildFromMethodLine at h
  dsimp only at h
  repeat' split at h
  all_goals cases h
  all_goals exact ⟨clean_new _ _ _, Framing.inv_nil⟩

/-- Both fields received and the connection is not kept. -/
def ClosesBoth : Prop :=
  r.framing.coded = true → r.framing.sized = true → r.keepAlive = false

theorem fixKeepAlive_quiet : Quiet r r.fixKeepAlive :=
  ⟨fun hc => { hc with }, rfl⟩

theorem fixKeepAlive_closes : ClosesBoth r.fixKeepAlive := by
  intro hc hs
  have hboth : (r.originalTransferEncodingName.isReceived && r.hasContentLength) = true :=
    Bool.and_eq_true_iff.mpr ⟨hc, hs⟩
  unfold fixKeepAlive
  rw [if_pos hboth]

theorem size_quiet (originHeaderSize : Nat) : Quiet r { r with originHeaderSize } :=
  ⟨fun hc => { hc with }, rfl⟩

theorem removeUpgrade_quiet :
    Quiet r { r with hopByHopHeaders := r.hopByHopHeaders.remove (ascii "upgrade") } :=
  ⟨fun hc => { hc with hopByHop := fun e he => hc.2 e (mem_of_mem_filter he) }, rfl⟩

/-- A transparent request that was parsed. -/
theorem HttpTransparentRequest.framed_of_accepted {steal : Bool}
    (h : Accepted (requestType steal) head req) :
    Framed (receivedHeaders head) req.head ∧ ClosesBoth req.head := by
  have hbuild : ∀ {l r}, (requestType steal).buildFromMethodLine l = .ok r →
      Framed [] r.head := by
    intro l r hb
    unfold requestType buildFromMethodLine at hb
    dsimp only at hb
    cases hh : RequestHead.buildFromMethodLine l with
    | error e => rw [hh] at hb; cases hb
    | ok head => rw [hh] at hb; cases hb; exact framed_build hh
  have hline : ∀ {seen r l r'}, Framed seen r.head →
      (requestType steal).parseHeaderLine r l = .ok r' →
      ∃ header, HttpHeaderLine.parse l = .ok header ∧ Framed (seen ++ [header]) r'.head := by
    intro seen r l r' hI hp
    unfold requestType parseHeaderLine at hp
    dsimp only at hp
    split at hp
    · cases hp
    · next header hh => exact ⟨header, hh, hI.step (handleHeader_step hp)⟩
  obtain ⟨r, hr, hfix⟩ := h.inv (fun seen r => Framed seen r.head) hbuild hline
  have hsize := hr.quiet (size_quiet r.head head.length)
  obtain rfl := Except.ok.inj hfix
  unfold postCheckAndFix
  dsimp only
  split
  · exact ⟨hsize.quiet (fixKeepAlive_quiet _), fixKeepAlive_closes _⟩
  · refine ⟨(hsize.quiet (removeUpgrade_quiet _)).quiet (fixKeepAlive_quiet _), ?_⟩
    exact fixKeepAlive_closes _

/-- What is known of a proxy request whose header lines `seen` are parsed. -/
structure HttpProxyClientRequest.Parsed (seen : List HttpHeaderLine)
    (req : HttpProxyClientRequest) : Prop where
  framed : Framed seen req.head
  negotiate : req.authorizationNegotiate = seen.any (·.negotiates)
  host : Spells req.originalHostName hostName

/-- A proxy request that was parsed. -/
theorem HttpProxyClientRequest.parsed_of_accepted {more : ParseMore} (hmore : PassesOn more)
    {req : HttpProxyClientRequest} (h : Accepted (requestType more) head req) :
    Parsed (receivedHeaders head) req ∧ ClosesBoth req.head := by
  have hbuild : ∀ {l r}, (requestType more).buildFromMethodLine l = .ok r → Parsed [] r := by
    intro l r hb
    unfold requestType buildFromMethodLine at hb
    dsimp only at hb
    split at hb
    · cases hb
    · next hh => cases hb; exact ⟨framed_build hh, rfl, nofun⟩
  have hline : ∀ {seen r l r'}, Parsed seen r → (requestType more).parseHeaderLine r l = .ok r' →
      ∃ header, HttpHeaderLine.parse l = .ok header ∧ Parsed (seen ++ [header]) r' := by
    intro seen r l r' hI hp
    unfold requestType parseHeaderLine at hp
    dsimp only at hp
    split at hp
    · cases hp
    · next header hh =>
      have hstep := handleHeader_step hmore hp
      refine ⟨header, hh, hI.framed.step hstep.head, ?_, hstep.host hI.host⟩
      simp [hstep.negotiate, hI.negotiate]
  obtain ⟨r, hr, hfix⟩ := h.inv Parsed hbuild hline
  have hsize := hr.framed.quiet (size_quiet r.head head.length)
  unfold requestType postCheckAndFix at hfix
  dsimp only at hfix
  repeat' split at hfix
  all_goals cases hfix
  all_goals refine ⟨⟨?_, hr.negotiate, hr.host⟩, fixKeepAlive_closes _⟩
  · exact hsize.quiet (fixKeepAlive_quiet _)
  · exact (hsize.quiet (removeUpgrade_quiet _)).quiet (fixKeepAlive_quiet _)
  · exact hsize.quiet (fixKeepAlive_quiet _)

end

end Vey.Http

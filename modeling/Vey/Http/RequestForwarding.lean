import Vey.Http.RequestFraming

/-! What the origin reads of a forwarded request.

    The head on the wire is read back as the fields of the request, so its framing fields are the
    values that were kept and, when the coding is chunked, one `Transfer-Encoding: chunked`:

        end-to-end, hop-by-hop | Transfer-Encoding: chunked | TE, Connection, Keep-Alive -/

namespace Vey.Http
open Schemes Vey.Types List HttpProxyClientRequest

/-- A field that has nothing to do with the framing. -/
structure Aside (f : Field) : Prop where
  clean : f.Clean
  coding : f.1.map lower ≠ transferEncodingKey
  length : f.1.map lower ≠ contentLengthKey

theorem CleanName.aside {known n v : Bytes} (hn : CleanName known n) (hv : lf ∉ v)
    (hc : known.map lower ≠ transferEncodingKey) (hl : known.map lower ≠ contentLengthKey) :
    Aside (n, v) :=
  ⟨⟨hn.colon, hn.newline, hv⟩, by rw [hn.key]; exact hc, by rw [hn.key]; exact hl⟩

theorem KeepAliveValue.lf_not_mem_text (v : KeepAliveValue) : lf ∉ v.text := by
  have h₁ : lf ∉ ascii "timeout=" := by decide
  have h₂ : lf ∉ ascii "max=" := by decide
  have h₃ : lf ∉ ascii ", max=" := by decide
  unfold KeepAliveValue.text
  split
  · simp [h₁, h₃, lf_not_mem_decFmt]
  · simp [h₁, lf_not_mem_decFmt]
  · simp [h₂, lf_not_mem_decFmt]
  · exact not_mem_nil

/-- The fields `Connection` and `Keep-Alive`. -/
theorem aside_writeForReq {v : ConnectionValue} {name : Bytes} {keepAlive : Bool}
    {te : Option Bytes} (hname : CleanName connectionName name)
    (hka : Spells v.keepAliveName keepAliveName) (hextra : ∀ t ∈ v.extra, lf ∉ t)
    (hte : ∀ t, te = some t → lf ∉ t) : ∀ f ∈ v.writeForReq name keepAlive te, Aside f := by
  have hka := hka.asBytes (by decide)
  intro f hf
  unfold ConnectionValue.writeForReq at hf
  rcases mem_cons.mp hf with rfl | hf
  · refine hname.aside ?_ (by decide) (by decide)
    have hfirst : lf ∉ if keepAlive then v.keepAliveName.asBytes keepAliveName
        else ascii "Close" := by
      split
      · exact hka.newline
      · decide
    intro hmem
    rcases mem_append.mp hmem with hmem | hmem
    · exact hfirst hmem
    · obtain ⟨t, ht, hmem⟩ := mem_flatMap.mp hmem
      have htoken : lf ∉ t := by
        simp only [mem_append, Option.mem_toList] at ht
        rcases ht with (ht | ht) | ht
        · exact hte t ht
        · split at ht
          · rw [mem_singleton.mp ht]; decide
          · cases ht
        · exact hextra t ht
      rcases mem_append.mp hmem with hmem | hmem
      · exact absurd hmem (by decide)
      · exact htoken hmem
  · split at hf
    · unfold KeepAliveValue.write at hf
      split at hf
      · cases hf
      · rw [mem_singleton.mp hf]
        exact hka.aside (KeepAliveValue.lf_not_mem_text _) (by decide) (by decide)
    · cases hf

section

variable [HttpTypes] {r : RequestHead}

namespace RequestHead

variable (r)

/-- The fields behind the coding. -/
def lastFields : List Field :=
  r.acceptTransferEncoding.writeTrailers (r.originalTeName.asBytes teName) ++
    r.connection.writeForReq (r.originalConnectionName.asBytes connectionName) r.keepAlive
      (if r.acceptTransferEncoding.trailers then some (r.originalTeName.asBytes teName) else none)

theorem originFields_eq :
    r.originFields = mapFields r.endToEndHeaders ++ mapFields r.hopByHopHeaders ++
      r.transferEncoding.writeChunked
        (r.originalTransferEncodingName.asBytes transferEncodingName) ++ r.lastFields := by
  simp [originFields, lastFields]

theorem lf_not_mem_requestLine : lf ∉ r.requestLine := by
  have hm : lf ∉ r.method.text := (not_mem_of_token (HttpTypes.isMethod_token r.method.ok)).2
  have hv : lf ∉ r.version.text := by cases r.version <;> decide
  have hs : lf ∉ ascii " / " := by decide
  have ho : lf ∉ ascii "OPTIONS * " := by decide
  have hb : lf ≠ 32 := by decide
  unfold requestLine
  split
  · next pa hpa =>
    have hp : lf ∉ pa := fun h =>
      absurd (HttpTypes.pathAndQuery_visible r.uri.ok hpa lf h) (by decide)
    simp [hm, hv, hp, hb]
  · split
    · simp [ho, hv]
    · simp [hm, hv, hs]

variable {r}

theorem aside_lastFields (hc : r.Clean) : ∀ f ∈ r.lastFields, Aside f := by
  have hte := hc.te.asBytes (by decide)
  have hconn := hc.connection.asBytes (by decide)
  intro f hf
  unfold lastFields at hf
  rcases mem_append.mp hf with hf | hf
  · unfold AcceptTransferEncodingValue.writeTrailers at hf
    split at hf
    · rw [mem_singleton.mp hf]
      exact hte.aside (by decide) (by decide) (by decide)
    · cases hf
  · refine aside_writeForReq hconn hc.keepAlive hc.extra ?_ f hf
    intro t ht
    split at ht
    · rw [← Option.some.inj ht]
      exact hte.newline
    · cases ht

omit [HttpTypes] in
theorem mem_mapFields {m : H1HeaderMap} {f : Field} : f ∈ mapFields m ↔
    ∃ e ∈ m, (e.2.originalName.getD e.1, e.2.inner) = f := mem_map

theorem coding_clean (hc : r.Clean) (f : Field) (hf : f ∈ r.transferEncoding.writeChunked
    (r.originalTransferEncodingName.asBytes transferEncodingName)) :
    f.Clean ∧ f.1.map lower = transferEncodingKey ∧ f.2 = ascii "chunked" := by
  have hname := hc.coding.asBytes (by decide)
  unfold TransferEncodingValue.writeChunked at hf
  split at hf
  · rw [mem_singleton.mp hf]
    have hv : lf ∉ ascii "chunked" := by decide
    exact ⟨⟨hname.colon, hname.newline, hv⟩, hname.key.trans (by decide), rfl⟩
  · cases hf

theorem originFields_clean (hc : r.Clean) : ∀ f ∈ r.originFields, f.Clean := by
  intro f hf
  rw [originFields_eq] at hf
  simp only [mem_append] at hf
  rcases hf with ((hf | hf) | hf) | hf
  · obtain ⟨e, he, rfl⟩ := mem_mapFields.mp hf
    exact (hc.endToEnd e he).field
  · obtain ⟨e, he, rfl⟩ := mem_mapFields.mp hf
    exact (hc.hopByHop e he).1.field
  · exact (coding_clean hc f hf).1
  · exact (aside_lastFields hc f hf).clean

/-- The origin reads the fields of the request, whatever follows the head. -/
theorem mem_readHead (hc : r.Clean) (body key v : Bytes) :
    (key, v) ∈ readHead (r.serializeForOrigin ++ body) ↔
      ∃ f ∈ r.originFields, f.1.map lower = key ∧ strip f.2 = v := by
  unfold serializeForOrigin
  rw [readHead_writeHead body (lf_not_mem_requestLine r) (originFields_clean hc)]
  simp

/-- The `Content-Length` fields on the wire are the values that were kept. -/
theorem contentLength_on_wire (hc : r.Clean) (body v : Bytes) :
    (contentLengthKey, v) ∈ readHead (r.serializeForOrigin ++ body) ↔
      ∃ w ∈ r.framing.lengths, strip w = v := by
  rw [mem_readHead hc, originFields_eq]
  simp only [mem_append, framing, valuesOf, mem_map, mem_filter, decide_eq_true_eq]
  constructor
  · rintro ⟨f, ((hf | hf) | hf) | hf, hk, hv⟩
    · obtain ⟨e, he, rfl⟩ := mem_mapFields.mp hf
      exact ⟨e.2.inner, ⟨e, ⟨he, by rw [← hk, (hc.endToEnd e he).key]⟩, rfl⟩, hv⟩
    · obtain ⟨e, he, rfl⟩ := mem_mapFields.mp hf
      exact absurd (by rw [← hk, (hc.hopByHop e he).1.key]) (hc.hopByHop e he).2
    · exact absurd (hk.symm.trans (coding_clean hc f hf).2.1) Framing.contentLengthKey_ne
    · exact absurd hk (aside_lastFields hc f hf).length
  · rintro ⟨w, ⟨e, ⟨he, hk⟩, rfl⟩, hv⟩
    refine ⟨_, .inl (.inl (.inl (mem_mapFields.mpr ⟨e, he, rfl⟩))), ?_, hv⟩
    rw [← hk, (hc.endToEnd e he).key]

/-- The `Transfer-Encoding` on the wire is `chunked`, and it is there when the coding is. -/
theorem transferEncoding_on_wire (hc : r.Clean) (body v : Bytes) :
    (transferEncodingKey, v) ∈ readHead (r.serializeForOrigin ++ body) ↔
      r.framing.coding.chunked = true ∧ v = ascii "chunked" := by
  have hstrip : strip (ascii "chunked") = ascii "chunked" := by decide
  rw [mem_readHead hc, originFields_eq]
  simp only [mem_append]
  constructor
  · rintro ⟨f, ((hf | hf) | hf) | hf, hk, hv⟩
    · obtain ⟨e, he, rfl⟩ := mem_mapFields.mp hf
      exact absurd (by rw [← hk, (hc.endToEnd e he).key]) (hc.endToEnd e he).noCoding
    · obtain ⟨e, he, rfl⟩ := mem_mapFields.mp hf
      exact absurd (by rw [← hk, (hc.hopByHop e he).1.key]) (hc.hopByHop e he).1.noCoding
    · rw [(coding_clean hc f hf).2.2, hstrip] at hv
      unfold TransferEncodingValue.writeChunked at hf
      split at hf
      · next hch => exact ⟨hch, hv.symm⟩
      · cases hf
    · exact absurd hk (aside_lastFields hc f hf).coding
  · rintro ⟨hch, rfl⟩
    have hmem : (r.originalTransferEncodingName.asBytes transferEncodingName, ascii "chunked") ∈
        r.transferEncoding.writeChunked
          (r.originalTransferEncodingName.asBytes transferEncodingName) := by
      unfold TransferEncodingValue.writeChunked
      rw [if_pos (show r.transferEncoding.chunked = true from hch)]
      exact mem_singleton_self _
    exact ⟨_, .inl (.inr hmem), (coding_clean hc _ hmem).2.1, hstrip⟩

end RequestHead

end

/-! ### Numbers as they were received -/

/-- A text that denotes the number `n` in decimal digits. -/
structure Denotes (v : Bytes) (n : UInt64) : Prop where
  ne_nil : v ≠ []
  digits : ∀ b ∈ v, (decVal b).isSome = true
  value : numeral 10 decVal v = n.toNat

theorem not_blank_of_decVal {b : UInt8} (h : (decVal b).isSome = true) : isBlankByte b = false := by
  rw [← Bool.not_eq_true]
  intro hb
  simp only [isBlankByte, Bool.or_eq_true, beq_iff_eq] at hb
  rcases hb with ((rfl | rfl) | rfl) | rfl <;> revert h <;> decide

variable {v : Bytes}

/-- The number parser takes digits, behind a plus sign or not. -/
theorem parseU64_some {n : UInt64} (h : parseU64 v = some n) :
    (v.head? ≠ some 43 ∧ Denotes v n) ∨ ∃ ds, v = 43 :: ds ∧ Denotes ds n := by
  have hform : ∀ {ds : Bytes}, (if ds ≠ [] ∧ ds.all (fun b => (decVal b).isSome) ∧
      numeral 10 decVal ds < 2 ^ 64 then some (UInt64.ofNat (numeral 10 decVal ds)) else none) =
      some n → Denotes ds n := by
    intro ds hds
    rw [Option.ite_none_right_eq_some] at hds
    obtain ⟨⟨hne, hdig, hlt⟩, hn⟩ := hds
    refine ⟨hne, all_eq_true.mp hdig, ?_⟩
    rw [← Option.some.inj hn, UInt64.toNat_ofNat_of_lt' hlt]
  unfold parseU64 at h
  by_cases hp : v.head? = some 43
  · obtain ⟨ds, rfl⟩ := head?_eq_some_iff.mp hp
    exact .inr ⟨ds, rfl, hform h⟩
  · rw [if_neg hp] at h
    exact .inl ⟨hp, hform h⟩

theorem strip_eq_self (h : ∀ b ∈ v, isBlankByte b = false) : strip v = v := by
  unfold strip
  have hr : v.rdropWhile isBlankByte = v := by
    rw [rdropWhile_eq_self_iff]
    intro hne
    rw [h _ (getLast_mem hne)]
    simp
  rw [hr, dropWhile_eq_self_iff]
  intro hpos
  rw [h _ (getElem_mem hpos)]
  simp

theorem strip_parseU64 {n : UInt64} (h : parseU64 v = some n) : strip v = v := by
  refine strip_eq_self fun b hb => ?_
  rcases parseU64_some h with ⟨-, hd⟩ | ⟨ds, rfl, hd⟩
  · exact not_blank_of_decVal (hd.digits b hb)
  · rcases mem_cons.mp hb with rfl | hb
    · decide
    · exact not_blank_of_decVal (hd.digits b hb)

/-- A number that was parsed is on the wire in digits when it has no plus sign. -/
theorem denotes_iff {n : UInt64} (h : parseU64 v = some n) : Denotes v n ↔ v.head? ≠ some 43 := by
  rcases parseU64_some h with ⟨hp, hd⟩ | ⟨ds, rfl, hd⟩
  · exact ⟨fun _ => hp, fun _ => hd⟩
  · refine ⟨fun hd' => absurd (hd'.digits 43 (by simp)) (by decide), fun hp => ?_⟩
    exact absurd rfl hp

/-! ### One message, one length -/

/-- What a recipient behind the proxy may rely on: the header lines that were received, the head
    that is sent, the body that is relayed and whether the connection is kept. -/
structure Unambiguous (received : List HttpHeaderLine) (wire : List Field)
    (bodyType : Option HttpBodyType) (keepAlive : Bool) : Prop where
  notBoth : ¬ ((∃ v, (contentLengthKey, v) ∈ wire) ∧ ∃ v, (transferEncodingKey, v) ∈ wire)
  chunked : (transferEncodingKey, ascii "chunked") ∈ wire ↔ bodyType = some .chunked
  length : ∀ n, bodyType = some (.contentLength n) →
    (∃ v, (contentLengthKey, v) ∈ wire) ∧ ∀ v, (contentLengthKey, v) ∈ wire → Denotes v n
  close : (∃ h ∈ received, h.key = contentLengthKey) →
    (∃ h ∈ received, h.key = transferEncodingKey) → keepAlive = false

/-- No length that counts was received with a plus sign. -/
def PlainLengths (received : List HttpHeaderLine) : Prop :=
  (∃ h ∈ received, h.key = transferEncodingKey) ∨
    ∀ h ∈ received, h.key = contentLengthKey →
      parseU64 h.value = some 0 ∨ h.value.head? ≠ some 43

/-- The number of a `Content-Length` field. -/
def lengthOf (f : Field) : Option UInt64 := if f.1 = contentLengthKey then parseU64 f.2 else none

/-- The body that the fields of a head announce. -/
def announced (wire : List Field) : Option HttpBodyType :=
  if wire.any (·.1 == transferEncodingKey) then some .chunked
  else
    match wire.findSome? lengthOf with
    | some n => if 0 < n then some (.contentLength n) else none
    | none => none

section

variable [HttpTypes] {seen : List HttpHeaderLine}

/-- The head of an accepted request is unambiguous exactly when its lengths are plain. -/
theorem Framed.unambiguous_iff {r : RequestHead} (h : Framed seen r)
    (hclose : ClosesBoth r) (body : Bytes) :
    Unambiguous seen (readHead (r.serializeForOrigin ++ body)) r.checkBodyType r.keepAlive ↔
      PlainLengths seen := by
  obtain ⟨hclean, hI⟩ := h
  have hcoding := RequestHead.transferEncoding_on_wire hclean body
  have hlength := RequestHead.contentLength_on_wire hclean body
  have hchunked : r.framing.coding.chunked = true ↔ r.checkBodyType = some .chunked := by
    unfold RequestHead.checkBodyType
    rw [show r.framing.coding.chunked = r.transferEncoding.chunked from rfl]
    cases r.transferEncoding.chunked <;> simp
  have hclosing : (∃ h ∈ seen, h.key = contentLengthKey) →
      (∃ h ∈ seen, h.key = transferEncodingKey) → r.keepAlive = false := fun hl hc =>
    hclose (hI.coded.mpr hc) (hI.sized.mpr hl)
  cases hc : r.framing.coded with
  | true =>
    have hch := (hI.chunked hc).1
    have hlens := hI.whenCoded hc
    refine ⟨fun _ => .inl (hI.coded.mp hc), fun _ => ⟨?_, ?_, ?_, hclosing⟩⟩
    · rintro ⟨⟨v, hv⟩, -⟩
      obtain ⟨w, hw, -⟩ := (hlength v).mp hv
      rw [hlens] at hw; cases hw
    · rw [hcoding, ← hchunked]; simp
    · intro n hn
      rw [hchunked.mp hch] at hn; cases hn
  | false =>
    obtain ⟨hlens, hvals⟩ := hI.values hc
    have hch : r.framing.coding.chunked = false := by rw [hI.whenPlain hc]
    have hbody : ∀ n, r.checkBodyType = some (.contentLength n) ↔
        0 < r.framing.length ∧ r.framing.length = n := by
      intro n
      unfold RequestHead.checkBodyType
      rw [show r.transferEncoding.chunked = false from hch]
      simp [RequestHead.framing]
    have hmem : ∀ v, v ∈ r.framing.lengths ↔
        ∃ h ∈ seen, h.key = contentLengthKey ∧ h.value = v := by
      intro v; rw [hlens]; simp [and_assoc]
    constructor
    · intro hu
      refine .inr fun h hseen hk => ?_
      have hin : h.value ∈ r.framing.lengths := (hmem _).mpr ⟨h, hseen, hk, rfl⟩
      have hparse := hvals _ hin
      by_cases hz : r.framing.length = 0
      · rw [hz] at hparse; exact .inl hparse
      · have hpos : 0 < r.framing.length := UInt64.pos_iff_ne_zero.mpr hz
        have hden := (hu.length _ ((hbody _).mpr ⟨hpos, rfl⟩)).2 h.value
          ((hlength _).mpr ⟨_, hin, strip_parseU64 hparse⟩)
        exact .inr ((denotes_iff hparse).mp hden)
    · intro hplain
      refine ⟨?_, ?_, ?_, hclosing⟩
      · rintro ⟨-, v, hv⟩
        rw [hcoding, hch] at hv
        exact absurd hv.1 (by simp)
      · rw [hcoding, ← hchunked]; simp
      · intro n hn
        obtain ⟨hpos, rfl⟩ := (hbody n).mp hn
        have hsized : r.framing.sized = true := by
          rw [← Bool.not_eq_false]
          intro hs
          rw [hI.empty hs] at hpos
          exact absurd hpos (by decide)
        obtain ⟨h, hseen, hk⟩ := hI.sized.mp hsized
        have hin : h.value ∈ r.framing.lengths := (hmem _).mpr ⟨h, hseen, hk, rfl⟩
        refine ⟨⟨h.value, (hlength _).mpr ⟨_, hin, strip_parseU64 (hvals _ hin)⟩⟩, fun v hv => ?_⟩
        obtain ⟨w, hw, rfl⟩ := (hlength v).mp hv
        have hparse := hvals w hw
        rw [strip_parseU64 hparse, denotes_iff hparse]
        obtain ⟨h', hseen', hk', rfl⟩ := (hmem w).mp hw
        rcases hplain with hcod | hplain
        · rw [hI.coded.mpr hcod] at hc; cases hc
        · rcases hplain h' hseen' hk' with hzero | hp
          · rw [hparse] at hzero
            rw [Option.some.inj hzero] at hpos
            exact absurd hpos (by decide)
          · exact hp

/-- The head on the wire announces the body of `check_body_type()`. -/
theorem Framed.announced_eq {r : RequestHead} (h : Framed seen r)
    (body : Bytes) : announced (readHead (r.serializeForOrigin ++ body)) = r.checkBodyType := by
  obtain ⟨hclean, hI⟩ := h
  have hcoding := RequestHead.transferEncoding_on_wire hclean body
  have hlength := RequestHead.contentLength_on_wire hclean body
  unfold announced RequestHead.checkBodyType
  cases hc : r.framing.coded with
  | true =>
    have hch := (hI.chunked hc).1
    have hany : (readHead (r.serializeForOrigin ++ body)).any (·.1 == transferEncodingKey) = true :=
      any_eq_true.mpr ⟨_, (hcoding (ascii "chunked")).mpr ⟨hch, rfl⟩, by simp⟩
    rw [if_pos hany, if_pos (show r.transferEncoding.chunked = true from hch)]
  | false =>
    obtain ⟨hlens, hvals⟩ := hI.values hc
    have hch : r.framing.coding.chunked = false := by rw [hI.whenPlain hc]
    have hany : (readHead (r.serializeForOrigin ++ body)).any (·.1 == transferEncodingKey) =
        false := by
      rw [any_eq_false]
      rintro ⟨k, v⟩ hf hk
      obtain rfl := eq_of_beq hk
      rw [((hcoding v).mp hf).1] at hch
      cases hch
    have hnumber : ∀ f ∈ readHead (r.serializeForOrigin ++ body),
        lengthOf f = none ∨ lengthOf f = some r.contentLength := by
      rintro ⟨k, v⟩ hf
      unfold lengthOf
      split
      · next hk =>
        obtain rfl : k = contentLengthKey := hk
        obtain ⟨w, hw, rfl⟩ := (hlength v).mp hf
        have hw := hvals w hw
        exact .inr (by rw [strip_parseU64 hw, hw]; rfl)
      · exact .inl rfl
    rw [hany, if_neg (by simp), if_neg (by rw [show r.transferEncoding.chunked = _ from hch]; simp)]
    cases hfind : (readHead (r.serializeForOrigin ++ body)).findSome? lengthOf with
    | none =>
      have hnone := findSome?_eq_none_iff.mp hfind
      have hempty : r.framing.lengths = [] := by
        rw [eq_nil_iff_forall_not_mem]
        intro w hw
        have := hnone _ ((hlength _).mpr ⟨w, hw, rfl⟩)
        rw [lengthOf, if_pos rfl, strip_parseU64 (hvals w hw), hvals w hw] at this
        cases this
      have hzero : r.contentLength = 0 := by
        cases hs : r.framing.sized with
        | false => exact hI.empty hs
        | true =>
          obtain ⟨h, hseen, hk⟩ := hI.sized.mp hs
          have : h.value ∈ r.framing.lengths := by
            rw [hlens]; exact mem_map_of_mem (by simp [hseen, hk])
          rw [hempty] at this
          cases this
      rw [hzero]
      rfl
    | some n =>
      obtain ⟨f, hf, hn⟩ := exists_of_findSome?_eq_some hfind
      rcases hnumber f hf with h0 | h0
      · rw [h0] at hn; cases hn
      · rw [h0] at hn
        rw [← Option.some.inj hn]

/-- The framing of a forwarded request is unambiguous exactly when no length that counts was
    received with a plus sign: for every transparent request that is parsed, and for every proxy
    request that is parsed and asks for no connection-based authorization. -/
theorem forwarded_unambiguous_iff (maxHeaderSize : Nat) (s : Source) (head body : Bytes) :
    (∀ steal req t, (HttpTransparentRequest.parse maxHeaderSize steal).Completes { reader := s }
        (.ok (req, head)) t →
      (Unambiguous (receivedHeaders head) (readHead (req.serializeForOrigin ++ body)) req.bodyType
        req.keepAlive ↔ PlainLengths (receivedHeaders head))) ∧
    (∀ req t, (HttpProxyClientRequest.parseBasic maxHeaderSize).Completes { reader := s }
        (.ok (req, head)) t → (∀ h ∈ receivedHeaders head, h.negotiates = false) →
      (Unambiguous (receivedHeaders head) (readHead (req.serializeForOrigin ++ body)) req.bodyType
        req.keepAlive ↔ PlainLengths (receivedHeaders head))) := by
  constructor
  · intro steal req t h
    obtain ⟨hframed, hclose⟩ :=
      HttpTransparentRequest.framed_of_accepted (HeadReader.parse_accepts h).1
    exact hframed.unambiguous_iff hclose body
  · intro req t h hneg
    obtain ⟨hparsed, hclose⟩ := parsed_of_accepted
      passesOn_appendParsedHeader (HeadReader.parse_accepts h).1
    have hbody : req.bodyType = req.head.checkBodyType := by
      unfold bodyType
      rw [hparsed.negotiate, any_eq_false.mpr fun h hh => by rw [hneg h hh]; simp]
      rfl
    rw [hbody]
    exact hparsed.framed.unambiguous_iff hclose body

end

/-- A plain length, with a body behind the head. -/
theorem forwarded_unambiguous_five :
    let head := ascii "POST /x HTTP/1.1\r\nContent-Length: 5\r\n\r\n"
    let body := ascii "hello"
    (∃ req t, (HttpTransparentRequest.parse 4096 false).Completes
        { reader := ⟨head ++ body, [], by decide⟩ } (.ok (req, head)) t ∧
      Unambiguous (receivedHeaders head) (readHead (req.serializeForOrigin ++ body)) req.bodyType
        req.keepAlive) ∧
    ∃ req t, (HttpProxyClientRequest.parseBasic 4096).Completes
        { reader := ⟨head ++ body, [], by decide⟩ } (.ok (req, head)) t ∧
      Unambiguous (receivedHeaders head) (readHead (req.serializeForOrigin ++ body)) req.bodyType
        req.keepAlive := by
  intro head body
  have hplain : PlainLengths (receivedHeaders head) := .inr (by decide)
  obtain ⟨htransparent, hproxy⟩ :=
    forwarded_unambiguous_iff 4096 ⟨head ++ body, [], by decide⟩ head body
  have h₁ := Future.drive_completes (F := HttpTransparentRequest.parse 4096 false) (n := 3)
    (s := { reader := ⟨head ++ body, [], by decide⟩ }) .start rfl
  have h₂ := Future.drive_completes (F := parseBasic 4096) (n := 3)
    (s := { reader := ⟨head ++ body, [], by decide⟩ }) .start rfl
  exact ⟨⟨_, _, h₁, (htransparent false _ _ h₁).mpr hplain⟩,
    _, _, h₂, (hproxy _ _ h₂ (by decide)).mpr hplain⟩

/-- The length `+5` is taken for five and sent on as it is. -/
theorem not_unambiguous_plus :
    let head := ascii "POST /x HTTP/1.1\r\nContent-Length: +5\r\n\r\n"
    ∃ req t, (HttpTransparentRequest.parse 4096 false).Completes
        { reader := ⟨head, [], by decide⟩ } (.ok (req, head)) t ∧
      ¬ Unambiguous (receivedHeaders head) (readHead req.serializeForOrigin) req.bodyType
        req.keepAlive := by
  intro head
  have hrun := Future.drive_completes (F := HttpTransparentRequest.parse 4096 false) (n := 3)
    (s := { reader := ⟨head, [], by decide⟩ }) .start rfl
  refine ⟨_, _, hrun, fun hu => ?_⟩
  have hden := (hu.length 5 (by decide)).2 (ascii "+5") (by decide)
  exact absurd (hden.digits 43 (by decide)) (by decide)

end Vey.Http

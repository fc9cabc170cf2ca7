import Vey.Icap.ImapAppend

/-! Is the literal what the ICAP server gets?

        literal  cached   sent                                        one body?
        n        k > 0    size(n) literal CRLF 0 CRLF CRLF            yes
        n        k > 0    size(n) part CRLF 0 CRLF CRLF               no: the client ended early
        n > 0    none     size(n), then an error                      no
        0        none     0 CRLF CRLF 0 CRLF CRLF                     no: two bodies

    A vectored write with an empty last slice fails, and the literal of size 0 is sent as a last
    chunk with another one behind it. -/

namespace Vey.Icap
open Schemes IoExt Http List Frame WriteAllVectored ImapMessageAdapter

/-! ### The body gets through -/

section

variable {ω : Type} [FairFlush ω] {a : ImapMessageAdapter} {cached : Bytes} {cltR : Source}

theorem AppendTransfer.gives {config : StreamCopyConfig} (hc : config.Built) {n : Nat}
    (hs : Take.Sound ⟨cltR, n⟩) (w : Tapped ω) :
    (AppendTransfer.future (Tapped ω)).Gives ⟨.new ⟨cltR, n⟩ w config, none⟩ fun _ t =>
      t.copy.writer.log = w.log ++ cltR.content.take n ++ bodyEnd ∧
        t.copy.reader.inner.content = cltR.content.drop n := by
  have hcopy := StreamCopy.gives (s := .new ⟨cltR, n⟩ w config) (StreamCopy.alive_new hc hs)
    (Upload.inv_copy config rfl rfl)
  refine hcopy.await AppendTransfer.putCopy (fun _ => rfl) (fun _ => rfl) ?_
  rintro k c ⟨hlog, hrest⟩
  refine ⟨_, rfl, rfl, ?_⟩
  have hbody : ∀ f : WriteAllFlush (Tapped ω),
      (AppendTransfer.future (Tapped ω)).body (AppendTransfer.putLast c f) =
        f.poll.await (AppendTransfer.putLast c) .icapServerWriteFailed fun _ f =>
          .ret (.ready (.ok ())) (AppendTransfer.putLast c f) := fun _ => rfl
  have hlast := WriteAllFlush.gives ⟨bodyEnd, c.writer⟩
  refine hlast.await_ready (AppendTransfer.putLast c) (fun _ => rfl) hbody ?_
  intro _ f hf
  refine ⟨(), _, rfl, ?_, hrest⟩
  exact hf.trans (congrArg (· ++ bodyEnd) hlog)

theorem XferAppend.gives_transfer (hc : a.copyConfig.Built) {n : Nat}
    (hs : Take.Sound ⟨cltR, n⟩) (w : Tapped ω) :
    (a.future (Tapped ω)).Gives (.transfer ⟨.new ⟨cltR, n⟩ w a.copyConfig, none⟩) fun _ t =>
      t.writer.log = w.log ++ cltR.content.take n ++ bodyEnd ∧
        t.reader.content = cltR.content.drop n := by
  refine (AppendTransfer.gives hc hs w).await_ready (G := a.future (Tapped ω)) .transfer
    (fun _ => rfl) (fun _ => rfl) ?_
  exact fun hQ => ⟨(), _, rfl, hQ⟩

theorem XferAppend.gives_flush (w : Tapped ω) :
    (a.future (Tapped ω)).Gives (.flush w cltR) fun _ t =>
      t.writer.log = w.log ∧ t.reader = cltR := by
  refine Future.gives_of_lowers
    (I := fun x => ∃ w', x = .flush w' cltR ∧ w'.log = w.log)
    (μ := fun x => ⟨0, FairFlush.flushStalls x.writer, 0⟩) ?_ ?_ ?_ ⟨w, rfl, rfl⟩
  · rintro _ ⟨w', rfl, hlog⟩
    exact ⟨w', rfl, hlog⟩
  · rintro _ ⟨w', rfl, hlog⟩
    refine flushStep_ensures (fun h => ⟨_, rfl, h.trans hlog⟩) fun h => ⟨h.trans hlog, rfl⟩
  · rintro _ ⟨w', rfl, hlog⟩
    exact Future.flushStep_lowers fun h => .inr ⟨le_rfl, .inl h⟩

/-- Everything is cached: the request goes out in one vectored write. -/
theorem gives_xferAppendOnce (w : Tapped ω) :
    (a.future (Tapped ω)).Gives (a.xferAppendOnce cached cltR w) fun _ t =>
      t.writer.log = w.log ++ (a.headers true ++ (a.buildChunkedHeader ++ cached ++ bodyEnd)) ∧
        t.reader = cltR := by
  rw [xferAppendOnce]
  refine (gives_new (endsFull_concat [_, _, _, _] (by decide))).await (XferAppend.once · cltR)
    (fun _ => rfl) (fun _ => rfl) ?_
  intro _ v' hlog
  refine ⟨_, rfl, rfl, (XferAppend.gives_flush v'.writer).mono ?_⟩
  rintro _ t ⟨hlog', hreader⟩
  refine ⟨hlog'.trans (hlog.trans ?_), hreader⟩
  simp [headers]

/-- Something is cached: the headers and it, then the rest. -/
theorem gives_xferAppendWithoutPreview (hc : a.copyConfig.Built) (hne : cached ≠ []) {n : Nat}
    (hs : Take.Sound ⟨cltR, n⟩) (w : Tapped ω) :
    (a.future (Tapped ω)).Gives (a.xferAppendWithoutPreview cached n cltR w) fun _ t =>
      t.writer.log = w.log ++ (a.headers false ++ (a.buildChunkedHeader ++
        (cached ++ cltR.content.take n) ++ bodyEnd)) ∧ t.reader.content = cltR.content.drop n := by
  rw [xferAppendWithoutPreview]
  refine (gives_new (endsFull_concat [_, _, _] hne)).await (XferAppend.headers · cltR n)
    (fun _ => rfl) (fun _ => rfl) ?_
  intro _ v' hlog
  refine ⟨_, rfl, rfl, (XferAppend.gives_transfer hc hs v'.writer).mono ?_⟩
  rintro _ t ⟨hlog', hrest⟩
  refine ⟨?_, hrest⟩
  rw [hlog', hlog]
  simp [headers]

end

/-! ### What the body says -/

/-- A literal with its size in front and the body end behind it is one body. -/
theorem feed_literal {a : ImapMessageAdapter} {literal : Bytes} (hne : literal ≠ [])
    (hlen : literal.length = a.literalSize) :
    feed sizeOf start (a.buildChunkedHeader ++ literal ++ bodyEnd) = ⟨.done, literal⟩ := by
  have hend : bodyEnd = [cr, lf] ++ ascii "0\r\n\r\n" := by decide
  have hsize : feed sizeOf start a.buildChunkedHeader =
      ⟨afterSize (some a.literalSize), []⟩ := feed_hexFmt a.literalSize_lt []
  obtain ⟨x, xs, rfl⟩ := exists_cons_of_ne_nil hne
  have hdata : feed sizeOf ⟨.data (x :: xs).length, []⟩ (x :: xs) = _ :=
    feed_data le_rfl (Nat.succ_pos xs.length)
  rw [Nat.sub_self] at hdata
  rw [feed_append, feed_append, hsize, ← hlen, hend]
  exact (congrArg (feed sizeOf · _) hdata).trans ((feed_dataCr _ _).trans (feed_lastChunk _))

/-- Behind the last chunk of an empty literal there is another one. -/
theorem feed_empty {a : ImapMessageAdapter} (hsize : a.literalSize = 0) (d : Bytes) :
    feed sizeOf start (a.buildChunkedHeader ++ [] ++ bodyEnd) ≠ ⟨.done, d⟩ := by
  rw [buildChunkedHeader, hsize]
  have hbad : feed sizeOf start (hexFmt 0 ++ [cr, lf] ++ [] ++ bodyEnd) =
      ⟨.bad, []⟩ := by decide
  rw [hbad]
  exact nofun

/-! ### Nothing but the literal -/

/-- The state that an `await` leaves. -/
theorem await_state {σ τ α β ε ε' : Type} {c : Ctrl τ (Poll (Except ε α))} {wrap : τ → σ}
    {fail : ε → ε'} {done : α → τ → Ctrl σ (Poll (Except ε' β))} {I : τ → Prop} {Q : α → τ → Prop}
    {P : σ → Prop} (h : c.Ensures I Q) (hwrap : P (wrap c.state))
    (hdone : ∀ {a t}, Q a t → P (done a t).state) : P (c.await wrap fail done).state := by
  rcases c with t | ⟨_ | ⟨e | a⟩, t⟩
  · exact hwrap
  · exact hwrap
  · exact hwrap
  · exact hdone h

section

variable {ω : Type} [FairFlush ω] {a : ImapMessageAdapter} {cached head all : Bytes} {cltR : Source}
  {n : Nat}

theorem poll_log {s : WriteAllVectored (Tapped ω)}
    (h : s.writer.log ++ s.left.flatten = all) : s.poll.state.writer.log <+: all := by
  rw [poll]
  have hlog : s.writer.log <+: all := ⟨_, h⟩
  split
  · exact hlog
  · rw [writeStep]
    split
    next w hw => exact (tapped_write_pending hw).symm ▸ hlog
    case h_2 w hw | h_3 w hw =>
      have hsame : w.log = s.writer.log := by rw [tapped_pollWrite hw]; exact append_nil _
      exact hsame.symm ▸ hlog
    next k w _ hw =>
      have hlog' : w.log = s.writer.log ++ s.left.flatten.take k := tapped_pollWrite hw
      refine ⟨s.left.flatten.drop k, ?_⟩
      exact (congrArg (· ++ _) hlog').trans (by rw [append_assoc, take_append_drop, h])

theorem StreamCopy.pollCopy_log {s : StreamCopy Take (Tapped ω)} {input : Bytes}
    (h : s.Inv (Take.doomed n input) head.length head) :
    s.writer.log <+: head ++ input ∧ s.pollCopy.state.writer.log <+: head ++ input := by
  have hflow : ∀ {t : StreamCopy Take (Tapped ω)}, t.Broken (Take.doomed n input) head.length head →
      t.writer.log <+: head ++ input := by
    rintro t ⟨d, r, ⟨⟨hin, -⟩, -⟩, hcons, -⟩
    refine ⟨t.buf.cached ++ r.inner.content, ?_⟩
    rw [← append_assoc, hcons.flow, append_assoc, hin]
  have hstep := StreamCopy.pollCopy_settles h
  refine ⟨hflow (Flow.spoiled h), ?_⟩
  rcases hc : s.pollCopy with t | ⟨_ | ⟨e | k⟩, t⟩ <;> rw [hc] at hstep
  · exact hflow (Flow.spoiled hstep)
  · exact hflow (Flow.spoiled hstep)
  · exact hflow hstep
  · exact hflow (Flow.spoiled hstep.inv)

/-- A copy for a client that fails. -/
structure AppendTransfer.Doomed (head input : Bytes) (n : Nat) (t : AppendTransfer (Tapped ω)) :
    Prop where
  last : t.last = none
  inv : t.copy.Inv (Take.doomed n input) head.length head

omit [FairFlush ω] in
theorem AppendTransfer.doomed_new (config : StreamCopyConfig) (hs : ¬Take.Sound ⟨cltR, n⟩)
    {w : Tapped ω} (hlog : w.log = head) :
    AppendTransfer.Doomed head cltR.content n ⟨.new ⟨cltR, n⟩ w config, none⟩ := by
  obtain ⟨d, hrel, hcons, -⟩ := Upload.inv_copy (n := n) config hlog (rfl : cltR.content = _)
  exact ⟨rfl, d, ⟨hrel, hs⟩, hcons, nofun⟩

/-- It never gets to the body end. -/
theorem AppendTransfer.Doomed.poll {t : AppendTransfer (Tapped ω)} {input : Bytes}
    (h : t.Doomed head input n) : t.poll.Ensures (Doomed head input n) (fun _ _ => False) ∧
      t.poll.state.copy.writer.log <+: head ++ input := by
  have hcopy : t.copy.pollCopy.Ensures (fun c => c.Inv (Take.doomed n input) head.length head)
      fun _ _ => False := (StreamCopy.pollCopy_ensures h.inv).mono id fun hQ => hQ.eof
  rw [AppendTransfer.poll, h.last]
  refine ⟨hcopy.await (fun hI => ⟨rfl, hI⟩) False.elim, ?_⟩
  exact await_state
    (P := fun t : AppendTransfer (Tapped ω) => t.copy.writer.log <+: head ++ input) hcopy
    (StreamCopy.pollCopy_log h.inv).2 False.elim

/-- A request that cannot be completed: the last slice of its headers is empty, or the client fails. -/
def XferAppend.Barred (head cached : Bytes) (cltR : Source) (n : Nat) :
    XferAppend (Tapped ω) → Prop
  | .headers w r readSize => r = cltR ∧ readSize = n ∧
      w.writer.log ++ w.left.flatten = head ++ cached ∧ (¬EndsFull w.left ∨ ¬Take.Sound ⟨cltR, n⟩)
  | .transfer t => t.Doomed (head ++ cached) cltR.content n
  | _ => False

variable {x : XferAppend (Tapped ω)}

omit [FairFlush ω] in
theorem XferAppend.Barred.enter (h : x.Barred head cached cltR n) :
    x.enter.Barred head cached cltR n := by
  rcases x with ⟨w, r⟩ | ⟨w, r⟩ | ⟨w, r, readSize⟩ | t
  · exact h
  · exact h
  · exact h
  · obtain ⟨c, _ | _⟩ := t
    · exact ⟨rfl, h.inv⟩
    · exact h

/-- It stays so, and nothing but a part of the literal goes behind the headers. -/
theorem XferAppend.Barred.poll {config : StreamCopyConfig} (h : x.Barred head cached cltR n) :
    (x.poll config).Ensures (Barred head cached cltR n) (fun _ _ => False) ∧
      (x.poll config).state.writer.log <+: head ++ cached ++ cltR.content := by
  rcases x with ⟨w, r⟩ | ⟨w, r⟩ | ⟨w, r, readSize⟩ | t
  · exact h.elim
  · exact h.elim
  · obtain ⟨rfl, rfl, hlog, hbar⟩ := h
    have hwhole := (poll_log hlog).trans (prefix_append _ r.content)
    let P (x : XferAppend (Tapped ω)) : Prop := x.writer.log <+: head ++ cached ++ r.content
    rcases hbar with hstuck | hs
    · have hboth := (poll_ensures hlog).both (poll_stuck hstuck)
      refine ⟨hboth.await ?_ fun hQ => hQ.2.elim,
        await_state (P := P) hboth hwhole fun hQ => hQ.2.elim⟩
      exact fun hI => ⟨rfl, rfl, hI.1, .inl hI.2⟩
    · have hpoll := poll_ensures hlog
      refine ⟨hpoll.await (fun hI => ⟨rfl, rfl, hI, .inr hs⟩) ?_,
        await_state (P := P) hpoll hwhole ?_⟩
      · exact AppendTransfer.doomed_new config hs
      · intro k v hdone
        exact ⟨r.content, congrArg (· ++ r.content) hdone⟩
  · have hpoll := AppendTransfer.Doomed.poll h
    let P (x : XferAppend (Tapped ω)) : Prop := x.writer.log <+: head ++ cached ++ cltR.content
    exact ⟨hpoll.1.await id False.elim, await_state (P := P) hpoll.1 hpoll.2 False.elim⟩

end

/-! ### The request -/

namespace ImapMessageAdapter

section

variable {a : ImapMessageAdapter} {cached : Bytes} {cltR : Source}

/-- Whatever a fair writer does, the request is written without error; its body is the literal, and
    the client's bytes behind the literal are still there. -/
def SendsExactly (a : ImapMessageAdapter) (cached : Bytes) (cltR : Source) : Prop :=
  ∀ (ω : Type) [FairFlush ω] (w : ω),
    (a.future (Tapped ω)).Gives (a.xferAppend cached cltR (tap w)) fun _ t =>
      (∃ body, t.writer.log = a.headers (a.literalSize ≤ cached.length) ++ body ∧
        Frame.feed sizeOf Frame.start body =
          ⟨.done, cached ++ cltR.content.take (a.literalSize - cached.length)⟩) ∧
      t.reader.content = cltR.content.drop (a.literalSize - cached.length)

/-- Whatever a fair writer does, nothing but the start of the literal goes behind the size line. -/
def SendsOnlyLiteral (a : ImapMessageAdapter) (cached : Bytes) (cltR : Source) : Prop :=
  ∀ (ω : Type) [FairFlush ω] (w : ω) (x : XferAppend (Tapped ω)),
    (a.future (Tapped ω)).Visits (a.xferAppend cached cltR (tap w)) x → ∀ rest,
      ((a.future (Tapped ω)).body x).state.writer.log =
        a.headers (a.literalSize ≤ cached.length) ++ a.buildChunkedHeader ++ rest →
      rest <+: cached ++ cltR.content

/-- What a request with something in the cache sends. -/
theorem gives_xferAppend {ω : Type} [FairFlush ω] (hc : a.copyConfig.Built) (hne : cached ≠ [])
    (hs : Take.Sound ⟨cltR, a.literalSize - cached.length⟩) (w : ω) :
    (a.future (Tapped ω)).Gives (a.xferAppend cached cltR (tap w)) fun _ t =>
      t.writer.log = a.headers (a.literalSize ≤ cached.length) ++ (a.buildChunkedHeader ++
        (cached ++ cltR.content.take (a.literalSize - cached.length)) ++ bodyEnd) ∧
      t.reader.content = cltR.content.drop (a.literalSize - cached.length) := by
  rw [xferAppend]
  split
  next hmore =>
    rw [decide_eq_false (by omega)]
    exact gives_xferAppendWithoutPreview hc hne hs (tap w)
  next hall =>
    rw [decide_eq_true (by omega), Nat.sub_eq_zero_of_le (by omega), take_zero, drop_zero,
      append_nil]
    refine (gives_xferAppendOnce (tap w)).mono ?_
    rintro _ t ⟨hlog, hreader⟩
    exact ⟨hlog, congrArg Source.content hreader⟩

section

variable (hmore : cached.length < a.literalSize)
  (h : cached = [] ∨ ¬Take.Sound ⟨cltR, a.literalSize - cached.length⟩)

include hmore h

/-- A request that waits for bytes of the client, with nothing in the cache or a client that fails. -/
theorem barred_xferAppend {ω : Type} (w : ω) :
    (a.xferAppend cached cltR (tap w)).Barred (a.headers false ++ a.buildChunkedHeader) cached cltR
      (a.literalSize - cached.length) := by
  rw [xferAppend, if_pos hmore]
  refine ⟨rfl, rfl, ?_, h.imp_left ?_⟩
  · simp [left, wBufs_zero, headers, tap]
  · rintro rfl
    rw [left, wBufs_zero]
    exact fun hfull => hfull _ rfl rfl

/-- Such a request is never written to its end. -/
theorem sendsOnlyLiteral_of_barred : a.SendsOnlyLiteral cached cltR := by
  intro ω _ w x hv rest hrest
  have hbar := hv.ensures XferAppend.Barred.enter (fun hx => hx.poll.1) (barred_xferAppend hmore h w)
  have hlog : ((a.future (Tapped ω)).body x).state.writer.log <+: _ := hbar.poll.2
  rw [hrest, decide_eq_false (by omega), append_assoc _ cached,
    prefix_append_right_inj] at hlog
  exact hlog

theorem not_sendsExactly_of_barred : ¬a.SendsExactly cached cltR := by
  intro hsends
  obtain ⟨n, u, t, hdrive, -⟩ := hsends FairSink {}
  refine Future.Completes.ensures (F := a.future (Tapped FairSink)) (Q := fun _ _ => False)
    (I := XferAppend.Barred (a.headers false ++ a.buildChunkedHeader) cached cltR
      (a.literalSize - cached.length)) XferAppend.Barred.enter (fun hx => hx.poll.1)
    (barred_xferAppend hmore h {}) (Future.drive_completes .start hdrive)

end

theorem sendsExactly (hc : a.copyConfig.Built) (hk : cached.length ≤ a.literalSize) (hne : cached ≠ [])
    (hall : cltR.Holds (a.literalSize - cached.length)) : a.SendsExactly cached cltR := by
  intro ω _ w
  refine (gives_xferAppend hc hne (.inl hall) w).mono ?_
  rintro _ t ⟨hlog, hrest⟩
  refine ⟨⟨_, hlog, feed_literal (append_ne_nil_of_left_ne_nil hne _) ?_⟩, hrest⟩
  rw [length_append, length_take_of_le hall.le_content]
  omega

/-- An empty literal is sent as two bodies. -/
theorem not_sendsExactly_empty (hsize : a.literalSize = 0) : ¬a.SendsExactly [] cltR := by
  intro hsends
  obtain ⟨n, u, t, hdrive, ⟨body, hlog, hbody⟩, -⟩ := hsends FairSink {}
  have hgives : (a.future (Tapped FairSink)).Gives (a.xferAppendOnce [] cltR (tap {})) _ :=
    gives_xferAppendOnce (tap ({} : FairSink))
  obtain ⟨n', u', t', hdrive', hlog', -⟩ := hgives
  have honce : a.xferAppend [] cltR (tap ({} : FairSink)) = a.xferAppendOnce [] cltR (tap {}) :=
    if_neg (by rw [hsize]; exact Nat.not_lt_zero _)
  rw [honce] at hdrive
  obtain ⟨-, rfl⟩ := Future.drive_unique hdrive hdrive'
  rw [hlog, hsize, length_nil, decide_eq_true le_rfl] at hlog'
  obtain rfl := append_cancel_left hlog'
  exact feed_empty hsize _ hbody

/-- A client that ends early without a failure gets a body end all the same. -/
theorem not_sendsOnlyLiteral (hc : a.copyConfig.Built) (hne : cached ≠ []) (hun : cltR.Unfailing)
    (hshort : ¬cltR.Holds (a.literalSize - cached.length)) : ¬a.SendsOnlyLiteral cached cltR := by
  intro honly
  obtain ⟨n, u, t, hdrive, hlog, -⟩ := gives_xferAppend hc hne (.inr hun) ({} : FairSink)
  obtain ⟨x, hv, hx⟩ := Future.drive_completes .start hdrive
  have hlen : cltR.content.length < a.literalSize - cached.length := by
    by_contra hge
    exact hshort (hun.holds (Nat.le_of_not_lt hge))
  rw [append_assoc, ← append_assoc, take_of_length_le hlen.le] at hlog
  have hrest := honly FairSink {} x hv (cached ++ cltR.content ++ bodyEnd) (by rw [hx]; exact hlog)
  have hle := hrest.length_le
  rw [length_append] at hle
  have hpos : 0 < bodyEnd.length := by decide
  omega

/-- The literal is sent exactly, and nothing else when the client ends early, if and only if it
    does not start with an empty cache, and a client that ends early fails unless nothing is cached. -/
theorem xferAppend_exact_iff (a : ImapMessageAdapter) (hc : a.copyConfig.Built) (cached : Bytes)
    (hk : cached.length ≤ a.literalSize) (cltR : Source) :
    ((cltR.Holds (a.literalSize - cached.length) → a.SendsExactly cached cltR) ∧
      (¬cltR.Holds (a.literalSize - cached.length) → a.SendsOnlyLiteral cached cltR)) ↔
    (cltR.Holds (a.literalSize - cached.length) → cached ≠ []) ∧
      (¬cltR.Holds (a.literalSize - cached.length) → cltR.Unfailing → cached = []) := by
  have hmore : ¬cltR.Holds (a.literalSize - cached.length) → cached.length < a.literalSize := by
    intro hshort
    by_contra hge
    exact hshort ⟨[], _, rfl, (Nat.sub_eq_zero_of_le (Nat.le_of_not_lt hge)).symm, nofun⟩
  constructor
  · rintro ⟨hexact, honly⟩
    constructor
    · rintro hall rfl
      rcases Nat.eq_zero_or_pos a.literalSize with hz | hpos
      · exact not_sendsExactly_empty hz (hexact hall)
      · have hmore : ([] : Bytes).length < a.literalSize := hpos
        exact not_sendsExactly_of_barred hmore (.inl rfl) (hexact hall)
    · intro hshort hun
      by_contra hne
      exact not_sendsOnlyLiteral hc hne hun hshort (honly hshort)
  · rintro ⟨hcached, hclean⟩
    constructor
    · intro hall
      exact sendsExactly hc hk (hcached hall) hall
    · intro hshort
      refine sendsOnlyLiteral_of_barred (hmore hshort) ?_
      by_cases hun : cltR.Unfailing
      · exact .inl (hclean hshort hun)
      · right
        rintro (hall | hun')
        · exact hshort hall
        · exact hun hun'

end

def sampleAppend : ImapMessageAdapter where
  partialRequestHeader := ascii "REQMOD icap://av/reqmod ICAP/1.0\r\n"
  clientHeaders := []
  support204 := true
  copyConfig := {}
  literalSize := 3
  literalSize_lt := by decide

/-- Two bytes are cached, and the third arrives with the rest of the command. -/
theorem xferAppend_exact_iff_sample :
    ((⟨ascii "c\r\n", [], by decide⟩ : Source).Holds 1 →
      sampleAppend.SendsExactly (ascii "ab") ⟨ascii "c\r\n", [], by decide⟩) ∧
    (⟨ascii "c\r\n", [], by decide⟩ : Source).Holds 1 := by
  have hall : (⟨ascii "c\r\n", [], by decide⟩ : Source).Holds 1 :=
    ⟨[.byte 99], [.byte 13, .byte 10], by decide, rfl, by simp⟩
  have hiff := xferAppend_exact_iff sampleAppend .default (ascii "ab") (by decide)
    ⟨ascii "c\r\n", [], by decide⟩
  exact ⟨(hiff.mpr ⟨fun _ => by decide, fun hshort => absurd hall hshort⟩).1, hall⟩

/-- The literal comes in one segment behind the command line, to a writer that takes all it is
    offered: the request fails behind the size line. -/
theorem xferAppend_fails :
    (⟨[], [.slice 97 [98, 99]], by decide⟩ : Source).Holds 3 ∧
      ((sampleAppend.future (Tapped FairSink)).drive 4 (sampleAppend.xferAppend []
        ⟨[], [.slice 97 [98, 99]], by decide⟩ (tap {}))).map Prod.fst =
          some (.error (.icapServerWriteFailed writeZero)) := by
  refine ⟨⟨[.byte 97, .byte 98, .byte 99], [], by decide, rfl, by simp⟩, ?_⟩
  decide +kernel

end ImapMessageAdapter

end Vey.Icap

import Vey.Smtp.TextDecoder
import Vey.Smtp.TextReader

/-! Where the two readers of a mail stop.

        lines ... | . CR LF | rest
                            ^ the next command is read from here

    Both find the same end, whatever the segments of the stream and the sizes of the reads are. But a
    read takes what has arrived: what follows the end in the same segment is gone with it. And a line
    that does not fit its buffer fails `TextDataDecodeReader` only. -/

namespace Vey.Smtp
open Schemes List TextDataDecodeReader TextDataReader

/-- A reader that reports the end of the text, on top of a stream. -/
class DataReader (ρ : Type) where
  pollRead : ρ → Nat → IoPoll Bytes × ρ
  finished : ρ → Bool
  inner : ρ → Source

instance : DataReader TextDataReader := ⟨TextDataReader.pollRead, TextDataReader.finished, (·.inner)⟩

instance : DataReader TextDataDecodeReader :=
  ⟨TextDataDecodeReader.pollRead, TextDataDecodeReader.finished, (·.inner)⟩

section

variable {ρ : Type} [DataReader ρ]

/-- The calls never fail, whatever the sizes of the buffers are. Enough calls with room for a byte get
    to the end, and there `rest` is what is left of the stream. -/
def StopsBefore (rest : Bytes) (r : ρ) : Prop :=
  ∃ n, ∀ caps, ∃ d r', readWith DataReader.pollRead caps [] r = some (d, r') ∧
    (DataReader.finished r' = true → (DataReader.inner r').content = rest) ∧
    (n < useful caps → DataReader.finished r' = true)

/-- No sequence of calls gets to an end. -/
def NeverEnds (r : ρ) : Prop :=
  ∀ caps d r', readWith DataReader.pollRead caps [] r = some (d, r') →
    ¬ DataReader.finished r' = true

theorem StopsBefore.finishes {rest : Bytes} {r : ρ} (h : StopsBefore rest r) (cap : Nat) :
    ∃ n d r', readWith DataReader.pollRead (replicate n (cap + 1)) [] r = some (d, r') ∧
      DataReader.finished r' = true ∧ (DataReader.inner r').content = rest := by
  obtain ⟨n, hstops⟩ := h
  obtain ⟨d, r', hread, hrest, hend⟩ := hstops (replicate (n + 1) (cap + 1))
  have hfin := hend (by rw [useful, countP_replicate]; simp)
  exact ⟨n + 1, d, r', hread, hfin, hrest hfin⟩

end

/-- The end of the text in a stream, and what is behind it. -/
structure EndsAt (stream : Bytes) (lines : List Bytes) (rest : Bytes) : Prop where
  message : IsMessage lines
  eq : stream = lines.flatten ++ (endLine ++ rest)

theorem EndsAt.unique {stream rest rest' : Bytes} {lines lines' : List Bytes}
    (h : EndsAt stream lines rest) (h' : EndsAt stream lines' rest') :
    lines = lines' ∧ rest = rest' := by
  obtain ⟨hlines, heq⟩ := h.message.ended h'.message (h.eq.symm.trans h'.eq) (prefix_append _ _)
  exact ⟨hlines, append_cancel_left heq⟩

/-- Both readers stop right behind the first line that ends a text, or neither ever reports an end. -/
def Agree (s : Source) (size : Nat) : Prop :=
  (∃ lines rest, EndsAt s.content lines rest ∧ StopsBefore rest (TextDataReader.new s) ∧
    StopsBefore rest (TextDataDecodeReader.new s size)) ∨
  (NeverEnds (TextDataReader.new s) ∧ NeverEnds (TextDataDecodeReader.new s size))

variable {stream rest : Bytes} {lines : List Bytes} {s : Source} {size : Nat}

/-! ### The reader of the plain text -/

namespace TextDataReader

variable {r r' : TextDataReader} {seen : Bytes} {cap : Nat} {J : Source → Prop}

theorem inv_new (s : Source) : (new s).Inv s.content [] := ⟨rfl, rfl⟩

/-- Once the reader has finished, it has read a text and its end. -/
theorem Inv.ended (h : r.Inv stream seen) (hfin : r.finished = true) : ∃ lines more,
    EndsAt stream lines (more ++ r.inner.content) ∧ seen = lines.flatten ++ (endLine ++ more) := by
  obtain ⟨p, q, hpq, hnot⟩ := eq_append_cons_of_mem (h.finished_iff.mp hfin)
  obtain ⟨heq, hlines, -⟩ := splitLines_spec seen
  generalize (splitLines seen).2 = tail at heq
  rw [hpq] at heq hlines
  have hseen : seen = p.flatten ++ (endLine ++ (q.flatten ++ tail)) := by rw [heq]; simp
  refine ⟨p, q.flatten ++ tail, ⟨?_, ?_⟩, hseen⟩
  · intro l hl
    refine ⟨hlines l (mem_append_left _ hl), ?_⟩
    rintro rfl
    exact hnot hl
  · rw [← h.split]
    nth_rewrite 1 [hseen]
    simp

/-- Before the end, the text is not all read. -/
theorem Inv.before (h : r.Inv stream seen) (hend : EndsAt stream lines rest)
    (hfin : r.finished = false) : ¬ r.inner.content <:+ rest := by
  rintro ⟨more, rfl⟩
  have hsplit := h.split
  rw [hend.eq, ← append_assoc, ← append_assoc] at hsplit
  have hseen := append_cancel_right hsplit
  have hlines : ∀ l ∈ lines ++ [endLine], IsLine l := by
    intro l hl
    rcases mem_append.mp hl with hl | hl
    · exact (hend.message l hl).1
    · exact mem_singleton.mp hl ▸ isLine_endLine
  have hmem : endLine ∈ (splitLines seen).1 := by
    have := splitLines_flatten more hlines
    rw [flatten_append, flatten_singleton] at this
    rw [hseen, this]
    simp
  rw [h.finished_iff.mpr hmem] at hfin
  cases hfin

/-- Where the stream is cut at the end of the text, nothing is read behind it. -/
theorem Inv.stops (h : r.Inv stream seen) (hend : EndsAt stream lines rest)
    (hcut : r.inner.Cut rest) (hfin : r.finished = true) : r.inner.content = rest := by
  obtain ⟨lines', more, hend', -⟩ := h.ended hfin
  obtain ⟨-, hrest⟩ := hend.unique hend'
  exact hcut.content_eq hrest

/-- One call, before the end of the stream; `J` is what the reads of the stream keep up to there. -/
theorem callTo (hend : EndsAt stream lines rest)
    (hJ : ∀ {t : Source}, J t → t.content ≠ rest → ∀ cap, J (t.pollRead cap).2)
    (hclean : ∀ {t}, J t → t.Unfailing) (d : Bytes) (hI : (∃ seen, r.Inv stream seen) ∧ J r.inner) :
    CallTo (fun _ r => (∃ seen, Inv stream seen r) ∧ J r.inner) (·.finished = true)
      (·.inner.events.length) d r cap (r.pollRead cap) := by
  obtain ⟨⟨seen, hinv⟩, hr⟩ := hI
  have hafter : ∀ {r' : TextDataReader}, r.Leaves stream cap r' →
      ((∃ seen, r'.Inv stream seen) ∧ J r'.inner) ∧ (r'.finished = true ∨
        (¬ r.finished = true ∧ r'.inner.events.length + min 1 cap ≤ r.inner.events.length)) := by
    rintro r' (⟨hfin, rfl⟩ | ⟨hfin, seen', hinv', hinner⟩)
    · exact ⟨⟨⟨seen, hinv⟩, hr⟩, .inl hfin⟩
    · have hbefore := hinv.before hend hfin
      have hne : r.inner.content ≠ rest := fun heq => hbefore (heq ▸ suffix_refl _)
      refine ⟨⟨⟨seen', hinv'⟩, hinner ▸ hJ hr hne cap⟩, .inr ⟨by simp [hfin], ?_⟩⟩
      rw [hinner]
      refine ((hclean hr).pollRead_passes cap).resolve_right fun hnil => hbefore ?_
      rw [hnil]
      exact nil_suffix
  rcases hp : r.pollRead cap with ⟨_ | ⟨e | x⟩, r'⟩
  all_goals rcases pollRead_inv hinv hp with ⟨hne, hleaves⟩ | ⟨e', i, ha, hi⟩
  · exact hafter hleaves
  · cases ha
  · exact absurd rfl (hne e)
  · exact (hclean hr).pollRead_ne e' hi
  · exact hafter hleaves
  · cases ha

/-- With the stream cut at the end of the text, the reader stops there. -/
theorem stopsBefore (hs : s.Unfailing) (hend : EndsAt s.content lines rest) (hcut : s.Cut rest) :
    StopsBefore rest (new s) := by
  refine ⟨s.events.length, fun caps => ?_⟩
  have hcall : ∀ {d : Bytes} {r : TextDataReader} {cap : Nat},
      ((∃ seen, r.Inv s.content seen) ∧ r.inner.Unfailing ∧ r.inner.Cut rest) → True →
      CallTo (fun _ r => (∃ seen, Inv s.content seen r) ∧ r.inner.Unfailing ∧ r.inner.Cut rest)
        (·.finished = true) (·.inner.events.length) d r cap (r.pollRead cap) := by
    intro d r cap hI _
    refine callTo (J := fun t => t.Unfailing ∧ t.Cut rest) hend ?_ And.left d hI
    exact fun ht hne cap => ⟨ht.1.pollRead cap, ht.2.pollRead hne cap⟩
  obtain ⟨d, r', hread, ⟨⟨seen, hinv⟩, -, hcut'⟩, hfin⟩ := readWith_total hcall
    ⟨⟨[], inv_new s⟩, hs, hcut⟩ (callsMeet_true caps (new s))
  exact ⟨d, r', hread, hinv.stops hend hcut', fun hlt => hfin (.inr hlt)⟩

/-- Reads with room for the whole stream take whole segments. -/
theorem cut_of_stopsBefore (hend : EndsAt s.content lines rest) (h : StopsBefore rest (new s)) :
    s.Cut rest := by
  obtain ⟨n, d, r', hread, -, hrest⟩ := h.finishes s.content.length
  have hwhole : ∀ cap ∈ replicate n (s.content.length + 1), s.content.length ≤ cap := by
    intro cap hcap
    rw [(mem_replicate.mp hcap).2]
    exact Nat.le_succ _
  have hinv : (∃ seen, r'.Inv s.content seen) ∧ r'.inner.arrivals <:+ s.arrivals ∧
      (r'.inner = s ∨ r'.inner.buffered = []) := by
    refine readWith_inv (I := fun r => (∃ seen, r.Inv s.content seen) ∧
      r.inner.arrivals <:+ s.arrivals ∧ (r.inner = s ∨ r.inner.buffered = [])) ?_ hwhole
      ⟨⟨[], inv_new s⟩, suffix_refl _, .inl rfl⟩ hread
    rintro r cap a r₁ hcap ⟨⟨seen, hinv⟩, hsuffix, hbuf⟩ hp ha
    rcases pollRead_inv hinv hp with ⟨-, ⟨-, rfl⟩ | ⟨-, seen', hinv', hinner⟩⟩ | ⟨e, i, rfl, -⟩
    · exact ⟨⟨seen, hinv⟩, hsuffix, hbuf⟩
    · have hlen := congrArg length hinv.split
      rw [length_append] at hlen
      have hcap : r.inner.content.length ≤ cap := by omega
      obtain ⟨hnil, hsub⟩ := Source.pollRead_whole hcap
      rw [← hinner] at hnil hsub
      exact ⟨⟨seen', hinv'⟩, hsub.trans hsuffix, .inr hnil⟩
    · exact absurd rfl (ha e)
  obtain ⟨-, ⟨before, hbefore⟩, hbuf⟩ := hinv
  rcases hbuf with hsame | hnil
  · -- nothing was read, yet the end is behind
    have hlen := congrArg length hend.eq
    have hlen' : s.content.length = rest.length := by
      rw [← hrest]
      exact congrArg (length ∘ Source.content) hsame.symm
    simp only [length_append, endLine, length_cons] at hlen
    omega
  · refine ⟨before, r'.inner.arrivals, hbefore.symm, ?_⟩
    rw [← hrest]
    change _ = r'.inner.content
    rw [Source.content, hnil, nil_append]

theorem neverEnds (hno : ∀ lines rest, ¬ EndsAt s.content lines rest) : NeverEnds (new s) := by
  intro caps d r' hread hfin
  obtain ⟨seen, hinv⟩ : ∃ seen, r'.Inv s.content seen := by
    refine readWith_inv (I := fun r => ∃ seen, r.Inv s.content seen) (C := fun _ => True) ?_
      (fun _ _ => trivial) ⟨[], inv_new s⟩ hread
    rintro r cap a r₁ - ⟨seen, hinv⟩ hp ha
    rcases pollRead_inv hinv hp with ⟨-, ⟨-, rfl⟩ | ⟨-, seen', hinv', -⟩⟩ | ⟨e, i, rfl, -⟩
    · exact ⟨seen, hinv⟩
    · exact ⟨seen', hinv'⟩
    · exact absurd rfl (ha e)
  obtain ⟨lines, more, hend, -⟩ := hinv.ended hfin
  exact hno _ _ hend

/-- A text that ends is read to its end. -/
theorem not_neverEnds (hs : s.Unfailing) (hend : EndsAt s.content lines rest) :
    ¬ NeverEnds (new s) := by
  intro hnever
  have hcall : ∀ {d : Bytes} {r : TextDataReader} {cap : Nat},
      ((∃ seen, r.Inv s.content seen) ∧ r.inner.Unfailing) → True →
      CallTo (fun _ r => (∃ seen, Inv s.content seen r) ∧ r.inner.Unfailing) (·.finished = true)
        (·.inner.events.length) d r cap (r.pollRead cap) := by
    intro d r cap hI _
    exact callTo hend (fun ht _ cap => ht.pollRead cap) id d hI
  obtain ⟨d, r', hread, -, hfin⟩ := readWith_total hcall ⟨⟨[], inv_new s⟩, hs⟩
    (callsMeet_true (replicate (s.events.length + 1) 1) (new s))
  refine hnever _ _ _ hread (hfin (.inr ?_))
  rw [useful, countP_replicate]
  exact Nat.lt_succ_self _

end TextDataReader

/-! ### The reader that decodes -/

namespace TextDataDecodeReader

variable {r r' : TextDataDecodeReader} {out : Bytes}

/-- A read is made for want of a line, so before the end of the text. -/
theorem keeps_cut (hend : EndsAt stream lines rest) :
    ReadCall.Keeps stream fun t => t.Unfailing ∧ t.Cut rest := by
  intro b reader out done hinv hnone hline ht cap
  refine ⟨ht.1.pollRead cap, ht.2.pollRead ?_ cap⟩
  intro heq
  have hsplit := hinv.split
  simp only [DataDecodeBuffer.ahead, hnone, Option.map_none, Option.getD_none] at hsplit
  obtain ⟨todo, -, hahead⟩ := hinv.message.ahead hend.message (hsplit ▸ hend.eq)
  rw [heq, ← append_assoc] at hahead
  refine DataDecodeBuffer.getLine_none hline ?_
  rw [append_cancel_right hahead]
  simp [endLine]

theorem Inv.stops (h : r.Inv stream out) (hend : EndsAt stream lines rest)
    (hcut : r.inner.Cut rest) (hfin : r.finished = true) : r.inner.content = rest := by
  obtain ⟨lines', rest', hmessage, heq, -, -, more, hmore, -⟩ := h.ended hfin
  obtain ⟨-, hrest⟩ := hend.unique ⟨hmessage, heq⟩
  exact hcut.content_eq (hrest.trans hmore)

/-- With lines that fit, no call fails. -/
theorem Inv.callTo {J : Source → Prop}
    {I : Bytes → TextDataDecodeReader → Prop} {d : Bytes} {cap : Nat}
    (hend : EndsAt stream lines rest) (hfit : ∀ l ∈ lines ++ [endLine], l.length ≤ r.buf.size)
    (hJ : ReadCall.Keeps stream J) (hclean : ∀ {t}, J t → t.Unfailing) (h : r.Inv stream out)
    (hr : J r.inner)
    (hok : ∀ {x r'}, r'.Inv stream (out ++ x) → J r'.inner → r'.buf.size = r.buf.size → I (d ++ x) r')
    (hpend : ∀ {x r'}, (r.SafeCall cap → x = []) → r'.Inv stream (out ++ x) → J r'.inner →
      r'.buf.size = r.buf.size → I d r') :
    CallTo I (·.finished = true) behind d r cap (r.pollRead cap) := by
  have hcalled := h.called hJ hr cap
  rcases hp : r.pollRead cap with ⟨_ | ⟨e | x⟩, r'⟩
  all_goals rw [hp] at hcalled
  · obtain ⟨x, hsafe, hinv, hkept, hsize, hnears⟩ := hcalled
    exact ⟨hpend hsafe hinv hkept hsize, hnears⟩
  · obtain ⟨c, hc, hstuck⟩ := hcalled
    refine hc.not_stuck hend.eq hend.message ?_ (hclean hc.kept) hstuck
    rw [hc.size]
    exact hfit
  · obtain ⟨hinv, hkept, hsize, hnears⟩ := hcalled
    exact ⟨hok hinv hkept hsize, hnears⟩

theorem stopsBefore (hs : s.Unfailing) (hend : EndsAt s.content lines rest) (hcut : s.Cut rest)
    (hfit : ∀ l ∈ lines ++ [endLine], l.length ≤ size) : StopsBefore rest (new s size) := by
  refine ⟨(new s size).behind, fun caps => ?_⟩
  have hcall : ∀ {d : Bytes} {r : TextDataDecodeReader} {cap : Nat},
      ((∃ out, r.Inv s.content out) ∧ (r.inner.Unfailing ∧ r.inner.Cut rest) ∧ r.buf.size = size) →
      True →
      CallTo (fun _ r => (∃ out, Inv s.content out r) ∧ (r.inner.Unfailing ∧ r.inner.Cut rest) ∧
        r.buf.size = size) (·.finished = true) behind d r cap (r.pollRead cap) := by
    rintro d r cap ⟨⟨out, hinv⟩, hr, rfl⟩ _
    exact hinv.callTo hend hfit (keeps_cut hend) And.left hr
      (fun h hJ hsize => ⟨⟨_, h⟩, hJ, hsize⟩) fun _ h hJ hsize => ⟨⟨_, h⟩, hJ, hsize⟩
  obtain ⟨d, r', hread, ⟨⟨out, hinv⟩, ⟨-, hcut'⟩, -⟩, hfin⟩ := readWith_total hcall
    ⟨⟨[], inv_new s size⟩, ⟨hs, hcut⟩, rfl⟩ (callsMeet_true caps (new s size))
  exact ⟨d, r', hread, hinv.stops hend hcut', fun hlt => hfin (.inr hlt)⟩

/-- What holds of the reader behind any calls. -/
theorem readWith_new {caps : List Nat} {d : Bytes}
    (hread : readWith pollRead caps [] (new s size) = some (d, r')) :
    (∃ out, r'.Inv s.content out) ∧ r'.buf.size = size := by
  refine readWith_inv (I := fun r => (∃ out, r.Inv s.content out) ∧ r.buf.size = size)
    (C := fun _ => True) ?_ (fun _ _ => trivial) ⟨⟨[], inv_new s size⟩, rfl⟩ hread
  rintro r cap a r₁ - ⟨⟨out, hinv⟩, rfl⟩ hp ha
  obtain ⟨hinv', -, hsize⟩ := hinv.kept (J := fun _ => True) (fun _ _ _ _ _ => trivial) trivial hp ha
  exact ⟨hinv', hsize⟩

theorem neverEnds (hno : ∀ lines rest, ¬ EndsAt s.content lines rest) : NeverEnds (new s size) := by
  intro caps d r' hread hfin
  obtain ⟨⟨out, hinv⟩, -⟩ := readWith_new hread
  obtain ⟨lines, rest, hmessage, heq, -⟩ := hinv.ended hfin
  exact hno _ _ ⟨hmessage, heq⟩

theorem fit_of_stopsBefore (hend : EndsAt s.content lines rest)
    (h : StopsBefore rest (new s size)) : ∀ l ∈ lines ++ [endLine], l.length ≤ size := by
  obtain ⟨n, d, r', hread, hfin, -⟩ := h.finishes 0
  obtain ⟨⟨out, hinv⟩, hsize⟩ := readWith_new hread
  obtain ⟨lines', rest', hmessage, heq, -, hfit, -⟩ := hinv.ended hfin
  obtain ⟨rfl, -⟩ := hend.unique ⟨hmessage, heq⟩
  rwa [hsize] at hfit

end TextDataDecodeReader

/-! ### Both readers -/

/-- Readers that agree on a text that ends stop at its end. -/
theorem Agree.stops (h : Agree s size) (hs : s.Unfailing) (hend : EndsAt s.content lines rest) :
    StopsBefore rest (TextDataReader.new s) ∧ StopsBefore rest (new s size) := by
  rcases h with ⟨lines', rest', hend', hplain, hdecoded⟩ | ⟨hnever, -⟩
  · obtain ⟨-, rfl⟩ := hend.unique hend'
    exact ⟨hplain, hdecoded⟩
  · exact absurd hnever (not_neverEnds hs hend)

/-- The readers agree on the end of a mail exactly when nothing follows the end in its segment, and the
    lines fit the buffer of the decoder. -/
theorem agree_iff (hs : s.Unfailing) : Agree s size ↔ ∀ lines rest, EndsAt s.content lines rest →
    s.Cut rest ∧ ∀ l ∈ lines ++ [endLine], l.length ≤ size := by
  constructor
  · intro h lines rest hend
    obtain ⟨hplain, hdecoded⟩ := h.stops hs hend
    exact ⟨cut_of_stopsBefore hend hplain,
      fit_of_stopsBefore hend hdecoded⟩
  · intro h
    by_cases hends : ∃ lines rest, EndsAt s.content lines rest
    · obtain ⟨lines, rest, hend⟩ := hends
      obtain ⟨hcut, hfit⟩ := h lines rest hend
      exact .inl ⟨lines, rest, hend, stopsBefore hs hend hcut,
        stopsBefore hs hend hcut hfit⟩
    · have hno : ∀ lines rest, ¬ EndsAt s.content lines rest :=
        fun lines rest hend => hends ⟨lines, rest, hend⟩
      exact .inr ⟨neverEnds hno, neverEnds hno⟩

/-- A mail of one line, and the next command, which arrives in a segment of its own. -/
def mailThenQuit : Source where
  buffered := []
  fits := nil_fits
  arrivals := [.slice 72 (ascii "i\r\n.\r"), .stall, .slice lf [], .slice 81 (ascii "UIT\r\n")]

theorem agree_mailThenQuit : mailThenQuit.Unfailing ∧ Agree mailThenQuit 1024 := by
  have hs : mailThenQuit.Unfailing := by
    intro e he
    simp [mailThenQuit] at he
  refine ⟨hs, (agree_iff hs).mpr ?_⟩
  intro lines rest hend
  have hhere : EndsAt mailThenQuit.content [ascii "Hi\r\n"] (ascii "QUIT\r\n") := by
    refine ⟨?_, by decide +kernel⟩
    intro l hl
    rw [mem_singleton.mp hl]
    exact ⟨⟨ascii "Hi\r", by decide +kernel, by decide +kernel⟩, by decide +kernel⟩
  obtain ⟨rfl, rfl⟩ := hhere.unique hend
  exact ⟨⟨mailThenQuit.arrivals.take 3, mailThenQuit.arrivals.drop 3, rfl, by decide +kernel⟩,
    by decide +kernel⟩

/-- A client that sends the next command right behind the end of the mail. -/
def endAndQuit : Source where
  buffered := []
  fits := nil_fits
  arrivals := [.slice 46 (ascii "\r\nQUIT\r\n")]

/-- The command is read with the end of the mail, and lost. -/
theorem not_agree_endAndQuit : ¬ Agree endAndQuit 1024 := by
  intro h
  have hs : endAndQuit.Unfailing := by
    intro e he
    simp [endAndQuit] at he
  have hend : EndsAt endAndQuit.content [] (ascii "QUIT\r\n") :=
    ⟨by simp [IsMessage], by decide +kernel⟩
  obtain ⟨before, behind, harr, hrest⟩ :=
    cut_of_stopsBefore hend (h.stops hs hend).1
  have hlen := congrArg length hrest
  cases before with
  | nil =>
    rw [nil_append] at harr
    rw [← harr] at hlen
    revert hlen
    decide +kernel
  | cons a before =>
    obtain ⟨rfl, rfl⟩ : before = [] ∧ behind = [] := by simpa using (cons.inj harr).2.symm
    revert hlen
    decide +kernel

end Vey.Smtp

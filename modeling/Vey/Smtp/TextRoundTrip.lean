import Vey.Smtp.TextEncoder
import Vey.Smtp.TextEnd

/-! A text that is sent as the data of a mail, and read back.

        text --TextDataEncodeTransfer--> wire --TextDataDecodeReader--> text

    What arrives is the text, with a line end if its last line had none. Three things can go wrong
    on the way: the transfer fails when its last flush stalls, the reader fails at a line that is
    longer than its buffer, and it loses what it has copied when it has to wait in the middle of a
    call. -/

namespace Vey.Smtp
open Schemes IoExt List TextDataDecodeReader
open TextDataEncodeTransfer (pollCopy pollCopy_sends)

/-- However the text is asked for, by calls that lose nothing, it arrives: what was delivered is the
    start of it, and enough calls with room for a byte deliver all of it and leave nothing in the
    stream. -/
def Yields (text : Bytes) (r : TextDataDecodeReader) : Prop :=
  ∃ n, ∀ caps, CallsMeet TextDataDecodeReader.SafeCall TextDataDecodeReader.pollRead caps r →
    ∃ d r', readWith TextDataDecodeReader.pollRead caps [] r = some (d, r') ∧ d <+: text ∧
      (n < useful caps → r'.finished = true) ∧
      (r'.finished = true → d = text ∧ r'.inner.content = [])

section

variable {s : Source} {size : Nat} {d : Bytes}

/-- The lines of a mail, with the one that ends it. -/
theorem splitLines_dotEncode {lines : List Bytes} (hlines : IsMessage lines)
    (heq : dotEncode d = lines.flatten ++ endLine) :
    (splitLines (dotEncode d)).1 = lines ++ [endLine] := by
  rw [heq, splitLines_flatten _ fun l hl => (hlines l hl).1]
  rfl

theorem yields_dotText (hs : s.Unfailing) (hwire : s.content = dotEncode d)
    (hfit : ∀ l ∈ (splitLines (dotEncode d)).1, l.length ≤ size) :
    Yields (dotText d) (new s size) := by
  obtain ⟨lines, hlines, hencode, htext⟩ := dotEncode_eq d
  rw [splitLines_dotEncode hlines hencode] at hfit
  have hend : EndsAt s.content lines [] := ⟨hlines, by rw [hwire, hencode, append_nil]⟩
  have hcall : ∀ {d : Bytes} {r : TextDataDecodeReader} {cap : Nat},
      (r.Inv s.content d ∧ r.inner.Unfailing ∧ r.buf.size = size) → r.SafeCall cap →
      CallTo (fun d r => r.Inv s.content d ∧ r.inner.Unfailing ∧ r.buf.size = size)
        (·.finished = true) behind d r cap (r.pollRead cap) := by
    rintro d r cap ⟨hinv, hr, rfl⟩ hsafe
    refine hinv.callTo (J := Source.Unfailing) hend hfit (fun _ _ _ ht cap => ht.pollRead cap) id hr
      (fun h hJ hsize => ⟨h, hJ, hsize⟩) ?_
    -- a call that waits has copied nothing
    intro x r' hx h hJ hsize
    rw [hx hsafe, append_nil] at h
    exact ⟨h, hJ, hsize⟩
  refine ⟨(new s size).behind, fun caps hmeet => ?_⟩
  obtain ⟨out, r', hread, ⟨hinv, -, -⟩, hfin⟩ := readWith_total hcall
    ⟨inv_new s size, hs, rfl⟩ hmeet
  refine ⟨out, r', hread, ?_, fun hlt => hfin (.inr hlt), fun hfin => ?_⟩
  · obtain ⟨done, hinv⟩ := hinv
    obtain ⟨todo, rfl, -⟩ := hinv.message.ahead hlines (hinv.split.symm.trans hend.eq)
    rw [← htext, map_append, flatten_append, ← hinv.text, append_assoc]
    exact prefix_append _ _
  · obtain ⟨lines', rest, hmessage, heq, hout, -, more, hmore, -⟩ := hinv.ended hfin
    obtain ⟨rfl, hrest⟩ := hend.unique ⟨hmessage, heq⟩
    rw [hmore] at hrest
    exact ⟨hout.trans htext, (append_eq_nil_iff.mp hrest.symm).2⟩

end

/-- A text is sent as a mail, and whoever reads the mail gets the text: for a transfer that does not
    wait for its last flush, a reader whose buffer holds every line, and calls that do not wait
    after bytes were copied. -/
theorem text_roundTrip {ω : Type} [FairWrite ω] {reader : Source} {writer : Tapped ω}
    {config : StreamCopyConfig} (hconfig : config.Built) (hreader : reader.Unfailing)
    (hflush : ∀ t, TextDataEncodeTransfer.pollCopy.Runs (fun _ => True)
      (TextDataEncodeTransfer.new reader writer config) t → t.FlushesAtOnce) :
    ∃ n t wire, TextDataEncodeTransfer.pollCopy.drive n
        (TextDataEncodeTransfer.new reader writer config) = some (.ok wire.length, t) ∧
      t.writer.log = writer.log ++ wire ∧
      ∀ (s : Source) (size : Nat), s.Unfailing → s.content = wire →
        (∀ l ∈ (splitLines wire).1, l.length ≤ size) →
        Yields (dotText reader.content) (TextDataDecodeReader.new s size) := by
  obtain ⟨n, total, t, hdrive, hlog, rfl⟩ :=
    pollCopy_sends hconfig hreader hflush
  exact ⟨n, t, dotEncode reader.content, hdrive, hlog,
    fun s size hs hwire hfit => yields_dotText hs hwire hfit⟩

/-- A text that arrives in two segments, its last line open and with a dot in front. -/
def openText : Source where
  buffered := []
  fits := nil_fits
  arrivals := [.slice 97 [cr], .stall, .slice lf [46, 98]]

/-- The transfer over a writer that stalls and takes a byte at a time. -/
def openTransfer : TextDataEncodeTransfer (Tapped FairSink) :=
  .new openText (tap { writes := [some 0, some 0, none, some 1], flushes := [false] }) {}

theorem text_roundTrip_openText : StreamCopyConfig.Built {} ∧ openText.Unfailing ∧
    (∀ t, TextDataEncodeTransfer.pollCopy.Runs (fun _ => True) openTransfer t → t.FlushesAtOnce) ∧
    ∃ n t wire, TextDataEncodeTransfer.pollCopy.drive n openTransfer = some (.ok wire.length, t) ∧
      t.writer.log = wire ∧
      ∀ (s : Source) (size : Nat), s.Unfailing → s.content = wire →
        (∀ l ∈ (splitLines wire).1, l.length ≤ size) →
        Yields (ascii "a\r\n.b\r\n") (TextDataDecodeReader.new s size) := by
  have hreader : openText.Unfailing := by
    intro e he
    simp [openText] at he
  have htest : pollCopy.always
      (fun t : TextDataEncodeTransfer (Tapped FairSink) => decide t.FlushesAtOnce) 40
      openTransfer = true := by
    decide +kernel
  have hflush : ∀ t, pollCopy.Runs (fun _ => True) openTransfer t →
      t.FlushesAtOnce := by
    intro t ht
    have hpass := Future.always_runs htest ht
    exact of_decide_eq_true hpass
  refine ⟨.default, hreader, hflush, ?_⟩
  exact text_roundTrip .default hreader hflush

/-- The writer has taken all bytes of a mail, and its flush stalls once: the transfer fails. A
    reader that waits for the end of a mail behind its first line has lost this line. A line longer
    than the buffer of the reader fails it. -/
theorem not_text_roundTrip :
    (∃ t, TextDataEncodeTransfer.pollCopy.Completes
      (TextDataEncodeTransfer.new ⟨[], [], by decide⟩ (tap ({ flushes := [false] } : FairSink)) {})
      (.error (.writeFailed ⟨.writeZero, "write zero byte into writer"⟩)) t) ∧
    (∃ s : Source, s.content = dotEncode (ascii "a\r\n") ∧ ∃ r',
      readWith TextDataDecodeReader.pollRead [16, 16] [] (.new s 16) = some ([], r') ∧
        r'.finished = true) ∧
    ∃ s : Source, s.content = dotEncode (ascii "abcd\r\n") ∧
      readWith TextDataDecodeReader.pollRead [16] [] (.new s 4) = none := by
  refine ⟨?_, ⟨⟨[], [.slice 97 [cr, lf], .stall, .slice 46 [cr, lf]], by decide⟩, ?_, ?_⟩,
    ⟨⟨[], [.slice 97 (ascii "bcd\r\n.\r\n")], by decide⟩, ?_, ?_⟩⟩
  · have hrun : (pollCopy.drive 10 (TextDataEncodeTransfer.new
        ⟨[], [], by decide⟩ (tap ({ flushes := [false] } : FairSink)) {})).any
        (fun x => decide (x.1 = .error (.writeFailed ⟨.writeZero, "write zero byte into writer"⟩))) =
        true := by
      decide +kernel
    obtain ⟨⟨a, t⟩, hdrive, ha⟩ := (Option.any_eq_true _ _).mp hrun
    obtain rfl := of_decide_eq_true ha
    exact ⟨t, Future.drive_completes .start hdrive⟩
  · decide +kernel
  · have hrun : (readWith pollRead [16, 16] [] (.new
        ⟨[], [.slice 97 [cr, lf], .stall, .slice 46 [cr, lf]], by decide⟩ 16)).any
        (fun x => decide (x.1 = [] ∧ x.2.finished = true)) = true := by
      decide +kernel
    obtain ⟨⟨d, r'⟩, hread, hd⟩ := (Option.any_eq_true _ _).mp hrun
    obtain ⟨rfl, hfin⟩ := of_decide_eq_true hd
    exact ⟨r', hread, hfin⟩
  · decide +kernel
  · decide +kernel

end Vey.Smtp

import Vey.IoExt.WriteAllVectored
import Vey.Schemes.Chain
import Vey.Schemes.Exact
import Vey.Schemes.Segments

/-! Copies and writes that get through.

    With a fair writer, and a reader that does not fail before it is at its end, a copy gets ready. The
    work in front of it are the events of the stream and the bytes in the buffer; a byte counts twice
    until it is read:

        2 * events + cached + (1 until the end is seen)

    A vectored write whose last slice is empty never gets ready: the slice is offered alone, and the
    writer takes nothing of it. -/

/-! ### Readers that come to their end -/

namespace Vey.Schemes

theorem Source.Unfailing.holds {s : Source} {n : Nat} (h : s.Unfailing) (hn : n ≤ s.content.length) :
    s.Holds n := by
  rw [← bytesOf_events] at hn
  obtain ⟨pre, post, hev, hlen⟩ := exists_bytesOf_length hn
  rw [unfailing_iff, hev] at h
  exact ⟨pre, post, hev, hlen, fun e he => h e (List.mem_append_left _ he)⟩

end Vey.Schemes

namespace Vey.IoExt
open Schemes List StreamCopyBuffer Source FairWrite

namespace Take

/-- The reader does not fail before its end: enough bytes come first, or no failure comes. -/
def Sound (t : Take) : Prop := t.inner.Holds t.limit ∨ t.inner.Unfailing

variable {t t' : Take} {cap : Nat}

/-- A poll of such a reader stalls, or reads what comes next. -/
theorem Sound.pollRead (h : t.Sound) (hcap : 0 < cap) :
    (∃ t', t.pollRead cap = (.pending, t') ∧ t'.Sound ∧
      t'.inner.events.length < t.inner.events.length) ∨
    ∃ d t', t.pollRead cap = (.ready (.ok d), t') ∧ t'.Sound ∧ d.length ≤ cap ∧
      t'.inner.events.length + d.length = t.inner.events.length := by
  by_cases hz : t.limit = 0
  · refine .inr ⟨[], t, ?_, h, Nat.zero_le _, rfl⟩
    rw [Take.pollRead, if_pos hz]
  have hlimit : 0 < t.limit := Nat.pos_of_ne_zero hz
  rcases hp : t.inner.pollRead (min cap t.limit) with ⟨_ | ⟨e | d⟩, s⟩
  · left
    have hev := pollRead_events.2 hp
    refine ⟨⟨s, t.limit⟩, by rw [Take.pollRead, if_neg hz, hp], ?_, ?_⟩
    · rcases h with h | h
      · rcases h.pollRead hlimit (show 0 < min cap t.limit by omega) with
          ⟨s', hs', -, hholds⟩ | ⟨x, s', hs', -⟩ <;> rw [hp] at hs' <;> cases hs'
        exact .inl hholds
      · exact .inr (h.suffix (show [Event.stall] ++ s.events = _ from hev))
    · rw [← hev, length_cons]
      exact Nat.lt_succ_self _
  · exfalso
    rcases h with h | h
    · rcases h.pollRead hlimit (show 0 < min cap t.limit by omega) with
        ⟨s', hs', -⟩ | ⟨x, s', hs', -⟩ <;> rw [hp] at hs' <;> cases hs'
    · exact h.pollRead_ne e hp
  · right
    have hev := pollRead_events.1 hp
    obtain ⟨-, hle, -⟩ := Source.pollRead_ok hp
    refine ⟨d, ⟨s, t.limit - d.length⟩, by rw [Take.pollRead, if_neg hz, hp], ?_, by omega, ?_⟩
    · rcases h with h | h
      · rcases h.pollRead hlimit (show 0 < min cap t.limit by omega) with
          ⟨s', hs', -⟩ | ⟨x, s', hs', -, -, -, hholds⟩ <;> rw [hp] at hs' <;> cases hs'
        exact .inl (hholds (by omega))
      · exact .inr (h.suffix hev)
    · rw [← hev, length_append, length_map]
      exact Nat.add_comm _ _

/-- Bytes and stalls in front of a reader that does not fail. -/
theorem Sound.of_suffix {pre : List Event} (h : t'.Sound)
    (hev : pre ++ t'.inner.events = t.inner.events) (hpre : ∀ e, .fail e ∉ pre)
    (hlimit : (bytesOf pre).length + t'.limit = t.limit) : t.Sound := by
  rcases h with ⟨a, b, hab, hlen, ha⟩ | h
  · left
    refine ⟨pre ++ a, b, ?_, ?_, ?_⟩
    · rw [← hev, hab, append_assoc]
    · rw [bytesOf_append, length_append, hlen, hlimit]
    · intro e he
      rcases mem_append.mp he with he | he
      · exact hpre e he
      · exact ha e he
  · right
    rw [unfailing_iff] at h ⊢
    intro e he
    rw [← hev] at he
    rcases mem_append.mp he with he | he
    · exact hpre e he
    · exact h e he

/-- A poll of a reader that fails leaves one that fails, and finds no end. -/
theorem sound_of_pollRead {d : Bytes} (hcap : 0 < cap) (h : t.pollRead cap = (.ready (.ok d), t'))
    (hd : t'.Sound ∨ d = []) : t.Sound := by
  rw [Take.pollRead] at h
  split at h
  next hz => exact .inl ⟨[], _, rfl, hz.symm, nofun⟩
  next hlimit =>
    split at h <;> cases h
    next s hs =>
      have hev := pollRead_events.1 hs
      rcases hd with hd | rfl
      · refine hd.of_suffix hev (by simp) ?_
        have hle := (Source.pollRead_ok hs).2.1
        rw [bytesOf_map_byte]
        dsimp only
        omega
      · right
        rw [unfailing_iff, pollRead_end hs (by omega)]
        exact nofun

theorem sound_of_pollRead_pending (h : t.pollRead cap = (.pending, t')) (hs : t'.Sound) :
    t.Sound := by
  rw [Take.pollRead] at h
  split at h
  · cases h
  · split at h <;> cases h
    next s hp =>
      have hev : [.stall] ++ s.events = t.inner.events := pollRead_events.2 hp
      exact hs.of_suffix hev (by simp) (Nat.zero_add _)

/-- A reader whose stream fails before `n` bytes of `input` came. -/
def doomed (n : Nat) (input : Bytes) : ReaderSpec Take where
  rel d t := (spec n input).rel d t ∧ ¬t.Sound
  eof _ := False
  read := by
    rintro d x t t' cap ⟨hrel, hfails⟩ hcap h
    exact ⟨(spec n input).read hrel hcap h, fun hs => hfails (sound_of_pollRead hcap h (.inl hs))⟩
  stall := by
    rintro d t t' cap ⟨hrel, hfails⟩ hcap h
    exact ⟨(spec n input).stall hrel hcap h, fun hs => hfails (sound_of_pollRead_pending h hs)⟩
  stop := by
    rintro d t t' cap ⟨-, hfails⟩ hcap h
    exact hfails (sound_of_pollRead hcap h (.inr rfl))

end Take

/-! ### The copy -/

namespace StreamCopyBuffer

/-- The offsets are in order, and the buffer has room for something. -/
structure Ordered (b : StreamCopyBuffer) : Prop where
  room : 0 < b.buf.length
  w_le : b.wOff ≤ b.rOff
  r_le : b.rOff ≤ b.buf.length

variable {b : StreamCopyBuffer} {r : Take}

theorem ordered_new {config : StreamCopyConfig} (h : config.Built) : (new config).Ordered where
  room := by
    have hmin := h.minimal.1
    have hpos : 0 < minimalCopyBufferSize := by decide
    rw [new, length_replicate]
    omega
  w_le := le_rfl
  r_le := Nat.zero_le _

theorem Ordered.checkMoveCache (h : b.Ordered) : b.checkMoveCache.Ordered ∧
    b.checkMoveCache.rOff - b.checkMoveCache.wOff = b.rOff - b.wOff := by
  obtain ⟨hroom, hw, hr⟩ := h
  have hlen : b.cached.length = b.rOff - b.wOff := win_length hr
  rw [StreamCopyBuffer.checkMoveCache]
  split_ifs with hleft
  · have hsame : (overwrite b.buf 0 b.cached).length = b.buf.length := overwrite_length (by omega)
    refine ⟨⟨by rw [hsame]; exact hroom, Nat.zero_le _, ?_⟩, Nat.sub_zero _⟩
    rw [hsame]
    exact (Nat.sub_le _ _).trans hr
  · exact ⟨⟨hroom, hw, hr⟩, rfl⟩

theorem Ordered.makeRoom (h : b.Ordered) : b.makeRoom.Ordered ∧
    b.makeRoom.rOff - b.makeRoom.wOff = b.rOff - b.wOff ∧
    (b.makeRoom.buf.length ≤ b.makeRoom.rOff → b.makeRoom.wOff < b.makeRoom.rOff) := by
  obtain ⟨hroom, hw, hr⟩ := h
  rw [StreamCopyBuffer.makeRoom]
  by_cases heq : b.wOff = b.rOff
  · simp only [if_pos heq, ne_eq, not_true_eq_false, if_false]
    refine ⟨⟨hroom, le_rfl, Nat.zero_le _⟩, by omega, ?_⟩
    intro hfull
    omega
  · simp only [if_neg heq]
    split_ifs with hz
    · obtain ⟨hord, hsame⟩ := Ordered.checkMoveCache ⟨hroom, hw, hr⟩
      refine ⟨hord, hsame, ?_⟩
      intro _
      omega
    · exact ⟨⟨hroom, hw, hr⟩, rfl, fun _ => by omega⟩

/-- What is in front of a copy between two writes. -/
def load (b : StreamCopyBuffer) (r : Take) : Nat :=
  2 * r.inner.events.length + (b.rOff - b.wOff) + if b.readDone then 0 else 1

/-- A read lowers the load. -/
theorem pollFillBuf_lowers (hs : r.Sound) (h : b.Ordered) (hroom : b.rOff < b.buf.length)
    (hdone : b.readDone = false) :
    (∃ r', b.pollFillBuf r = (.pending, b, r') ∧ r'.Sound ∧ b.load r' < b.load r) ∨
    ∃ b' r', b.pollFillBuf r = (.ready (.ok ()), b', r') ∧ r'.Sound ∧ b'.Ordered ∧
      b'.load r' < b.load r := by
  obtain ⟨hpos, hw, hr⟩ := h
  have hcap : 0 < b.buf.length - b.rOff := by omega
  rcases hs.pollRead hcap with ⟨r', hp, hs', hev⟩ | ⟨d, r', hp, hs', hle, hev⟩
  · refine .inl ⟨r', ?_, hs', ?_⟩
    · rw [pollFillBuf]
      rw [show pollRead r (b.buf.length - b.rOff) = _ from hp]
    · rw [load, load]
      omega
  · right
    rw [pollFillBuf, show pollRead r (b.buf.length - b.rOff) = _ from hp]
    dsimp only
    split_ifs with hzero
    · refine ⟨{ b with readDone := true }, r', rfl, hs', ⟨hpos, hw, hr⟩, ?_⟩
      simp only [load, hdone, if_true, Bool.false_eq_true, if_false]
      omega
    · have hlen : (overwrite b.buf b.rOff d).length = b.buf.length := overwrite_length (by omega)
      refine ⟨_, r', rfl, hs', ⟨by rw [hlen]; exact hpos, hw.trans (Nat.le_add_right _ _), ?_⟩, ?_⟩
      · rw [hlen]
        dsimp only
        omega
      · simp only [load, hdone, Bool.false_eq_true, if_false]
        omega

end StreamCopyBuffer

namespace StreamCopy

variable {ω : Type} {s : StreamCopy Take (Tapped ω)}

/-- A copy that can go on. -/
structure Alive (s : StreamCopy Take (Tapped ω)) : Prop where
  sound : s.reader.Sound
  ordered : s.buf.Ordered

theorem alive_new {config : StreamCopyConfig} (h : config.Built) {reader : Take} {writer : Tapped ω}
    (hs : reader.Sound) : (StreamCopy.new reader writer config).Alive :=
  ⟨hs, ordered_new h⟩

variable [FairFlush ω] (s : StreamCopy Take (Tapped ω))

/-- The stalls that count: those of the flush once there is nothing else to do. -/
def waits : Nat :=
  if s.buf.readDone = true ∧ s.buf.rOff ≤ s.buf.wOff then FairFlush.flushStalls s.writer
  else FairWrite.stalls s.writer

/-- A loop that finds nothing to write goes back to its top. -/
def phase : Nat :=
  match s.pc with
  | .top => 1
  | .write => if s.buf.readDone = true ∨ s.buf.wOff < s.buf.rOff then 0 else 2

def effort : Effort := ⟨s.buf.load s.reader, s.waits, s.phase⟩

abbrev Goes (c : Ctrl (StreamCopy Take (Tapped ω)) (CopyPoll Nat)) : Prop :=
  (future Take (Tapped ω)).Advances Alive (fun _ _ => True) effort s c

variable {s} {t : StreamCopy Take (Tapped ω)}

theorem goes_pending (ht : t.Alive)
    (hless : Effort.Less ⟨t.buf.load t.reader, t.waits, 1⟩ s.effort) : s.Goes (.ret .pending t) :=
  ⟨⟨ht.sound, ht.ordered⟩, hless⟩

/-- A copy whose load got less may do anything else. -/
theorem goes_idle (ht : t.Alive)
    (hload : t.buf.load t.reader < s.buf.load s.reader) : s.Goes t.idle := by
  rw [idle]
  split
  · dsimp only
    split
    next e w hw => rcases pollFlush_fair hw with h | h <;> cases h
    next => exact goes_pending ⟨ht.sound, ht.ordered.1, ht.ordered.2, ht.ordered.3⟩ (.inl hload)
  · exact goes_pending ht (.inl hload)

theorem fill_goes (h : s.Alive) (hpc : s.pc = .top) : s.Goes s.fill := by
  obtain ⟨hsound, hord⟩ := h
  rw [fill]
  split
  next hdone =>
    refine ⟨⟨hsound, hord⟩, .inr ⟨le_rfl, .inr ⟨le_rfl, ?_⟩⟩⟩
    simp [effort, phase, hdone, hpc]
  next hdone =>
    have hnd : s.buf.readDone = false := Bool.eq_false_iff.mpr hdone
    obtain ⟨hord', hsame, hfull⟩ := hord.makeRoom
    have hnd' : s.buf.makeRoom.readDone = false := (makeRoom_readDone s.buf).trans hnd
    have hload : s.buf.makeRoom.load s.reader = s.buf.load s.reader := by
      rw [load, load, hsame, hnd, hnd']
    dsimp only
    split
    next hroom =>
      rcases pollFillBuf_lowers hsound hord' hroom hnd' with
        ⟨r', hp, hs', hlow⟩ | ⟨b', r', hp, hs', ho', hlow⟩
      all_goals
        rw [hload] at hlow
        rw [hp]
        dsimp only
      · split
        · exact goes_idle ⟨hs', hord'⟩ hlow
        · exact ⟨⟨hs', hord'⟩, .inl hlow⟩
      · exact ⟨⟨hs', ho'⟩, .inl hlow⟩
    next hroom =>
      have hmore := hfull (Nat.le_of_not_lt hroom)
      refine ⟨⟨hsound, hord'⟩, .inr ⟨hload.le, .inr ⟨?_, ?_⟩⟩⟩
      · simp [effort, waits, hnd, hnd']
      · simp [effort, phase, hmore, hpc]

/-- A write of what is in the buffer. -/
theorem pollWriteBuf_goes (h : s.Alive) (hmore : s.buf.wOff < s.buf.rOff) : s.Goes s.drain := by
  obtain ⟨hsound, hord⟩ := h
  have hne : s.buf.cached ≠ [] := by
    intro hnil
    have hlen : s.buf.cached.length = s.buf.rOff - s.buf.wOff := win_length hord.r_le
    rw [hnil, length_nil] at hlen
    omega
  have hwaits : s.waits = stalls s.writer := by
    rw [waits, if_neg]
    omega
  rw [drain, if_pos hmore, pollWriteBuf.eq_def]
  rcases hw : pollWrite s.writer s.buf.cached with ⟨r, w⟩
  rcases pollWrite_fair hne hw with ⟨rfl, hless⟩ | ⟨n, rfl⟩
  · dsimp only
    -- a stall of the writer, and perhaps a read
    have hstall : ∀ {b : StreamCopyBuffer}, b.Ordered → b.readDone = s.buf.readDone →
        b.rOff - b.wOff = s.buf.rOff - s.buf.wOff →
        s.Goes (.ret .pending { s with buf := b, writer := w }) := by
      intro b hb hdone hsame
      refine goes_pending ⟨hsound, hb⟩ (.inr ⟨?_, .inl ?_⟩)
      · simp only [effort, load, hdone, hsame, le_refl]
      · have hb' : ¬(b.readDone = true ∧ b.rOff ≤ b.wOff) := by omega
        rw [effort, hwaits]
        simp only [waits, if_neg hb']
        exact hless
    by_cases hdone : s.buf.readDone = true
    · rw [if_pos hdone]
      exact hstall hord rfl rfl
    · rw [if_neg hdone]
      obtain ⟨hord', hsame⟩ := hord.checkMoveCache
      have hdone' := checkMoveCache_readDone s.buf
      by_cases hroom : s.buf.checkMoveCache.rOff + minimalReadBufferSize ≤
          s.buf.checkMoveCache.buf.length
      · rw [if_pos hroom]
        have hnd : s.buf.checkMoveCache.readDone = false :=
          hdone'.trans (Bool.eq_false_iff.mpr hdone)
        have hload : s.buf.checkMoveCache.load s.reader = s.buf.load s.reader := by
          rw [load, load, hsame, hdone']
        have hroom' : s.buf.checkMoveCache.rOff < s.buf.checkMoveCache.buf.length := by
          rw [minimalReadBufferSize] at hroom
          omega
        rcases pollFillBuf_lowers hsound hord' hroom' hnd with
          ⟨r', hp, hs', hlow⟩ | ⟨b', r', hp, hs', ho', hlow⟩
        all_goals
          rw [hload] at hlow
          rw [hp]
        · exact goes_pending ⟨hs', hord'⟩ (.inl hlow)
        · exact goes_pending ⟨hs', ho'⟩ (.inl hlow)
      · rw [if_neg hroom]
        exact hstall hord' hdone' hsame
  · have hle := AsyncWrite.pollWrite_le hw
    have hlen : s.buf.cached.length = s.buf.rOff - s.buf.wOff := win_length hord.r_le
    refine ⟨⟨hsound, hord.room, ?_, hord.r_le⟩, .inl ?_⟩
    · dsimp only
      omega
    · simp only [effort, load]
      omega

theorem drain_goes (h : s.Alive) (hpc : s.pc = .write) : s.Goes s.drain := by
  by_cases hmore : s.buf.wOff < s.buf.rOff
  · exact pollWriteBuf_goes h hmore
  rw [drain, if_neg hmore]
  split
  next hdone =>
    split
    · rcases hw : pollFlush s.writer with ⟨r, w⟩
      rcases pollFlush_fair hw with rfl | rfl
      · refine goes_pending ⟨h.sound, h.ordered⟩ (.inr ⟨le_rfl, .inl ?_⟩)
        have hdry : s.buf.readDone = true ∧ s.buf.rOff ≤ s.buf.wOff := ⟨hdone, by omega⟩
        simp only [effort, waits, if_pos hdry]
        exact FairFlush.pollFlush_stalls hw
      · exact trivial
    · exact trivial
  next hdone =>
    have hphase : s.phase = 2 := by
      simp only [phase, hpc]
      rw [if_neg]
      rintro (hd | hm)
      · exact hdone hd
      · exact hmore hm
    split
    · refine goes_pending h (.inr ⟨le_rfl, .inr ⟨le_rfl, ?_⟩⟩)
      rw [effort, hphase]
      exact Nat.one_lt_two
    · refine ⟨⟨h.sound, h.ordered⟩, .inr ⟨le_rfl, .inr ⟨le_rfl, ?_⟩⟩⟩
      exact Nat.lt_of_lt_of_eq Nat.one_lt_two hphase.symm

theorem pollCopy_goes (h : s.Alive) : s.Goes s.pollCopy := by
  rw [pollCopy]
  split
  next hpc => exact fill_goes h hpc
  next hpc => exact drain_goes h hpc

/-- A copy of the next `n` bytes of `input`, or of all there are, gets through. -/
theorem gives {n base : Nat} {input data : Bytes} (h : s.Alive)
    (hinv : s.Inv (Take.spec n input) base data) :
    (future Take (Tapped ω)).Gives s fun _ t =>
      t.writer.log = data ++ input.take n ∧ t.reader.inner.content = input.drop n := by
  have hgives := Future.gives_of_advances (F := future Take (Tapped ω)) (μ := effort)
    (I := fun s => s.Alive ∧ s.Inv (Take.spec n input) base data) (s := s)
    (fun hI => (pollCopy_goes hI.1).and (pollCopy_ensures hI.2) Inv.enter)
    ⟨⟨h.sound, h.ordered⟩, hinv⟩
  refine hgives.mono ?_
  rintro k t ⟨-, ⟨d, hrel, hcons, -⟩, hcached, heof, -⟩
  obtain ⟨hd, hrest⟩ := Take.spec_eof hrel heof
  have hflow := hcons.flow
  rw [hcached, append_nil, hd] at hflow
  exact ⟨hflow, hrest⟩

/-- A copy of a stream that does not fail too early gets through to a fair writer, whole, and the rest
    of the stream is left in the reader. -/
theorem streamCopy_gets_through {config : StreamCopyConfig} (hc : config.Built) {r : Source} {n : Nat}
    (hs : Take.Sound ⟨r, n⟩) (w : ω) :
    (future Take (Tapped ω)).Gives (.new ⟨r, n⟩ (tap w) config) fun _ t =>
      t.writer.log = r.content.take n ∧ t.reader.inner.content = r.content.drop n :=
  gives (alive_new hc hs) (Upload.inv_copy config rfl rfl)

/-- Both sides stall, and the reader fails behind the bytes of the copy. -/
theorem streamCopy_gets_through_threeBytes :
    (future Take (Tapped FairSink)).Gives
      (.new ⟨⟨[1, 2], [.stall, .slice 3 [4], .fail writeZero], by decide⟩, 3⟩
        (tap ⟨[none, some 0], [true]⟩) {}) fun _ t =>
          t.writer.log = [1, 2, 3] ∧ t.reader.inner.content = [4] :=
  streamCopy_gets_through .default
    (.inl ⟨[.byte 1, .byte 2, .stall, .byte 3], [.byte 4, .fail writeZero], rfl, rfl, by simp⟩) _

end StreamCopy

/-! ### The two writes -/

namespace WriteAllFlush

variable {ω : Type}

def future (ω : Type) [AsyncWrite ω] : Future (WriteAllFlush ω) (Except IoError Unit) := ⟨id, poll⟩

theorem gives [FairFlush ω] (s : WriteAllFlush (Tapped ω)) :
    (future (Tapped ω)).Gives s fun _ t => t.writer.log = s.writer.log ++ s.buf := by
  refine Future.gives_of_lowers (I := fun t => t.writer.log ++ t.buf = s.writer.log ++ s.buf)
    (μ := fun t => ⟨t.buf.length, if t.buf = [] then FairFlush.flushStalls t.writer
      else stalls t.writer, 0⟩) id poll_ensures ?_ rfl
  intro t _
  rw [future]
  dsimp only
  rw [poll]
  split
  next hnil =>
    refine Future.flushStep_lowers fun hless => .inr ⟨le_rfl, .inl ?_⟩
    simp only [id_eq, if_pos hnil]
    exact hless
  next hne =>
    refine Future.writeStep_lowers hne (fun hless => .inr ⟨le_rfl, .inl ?_⟩) fun hpos hle => .inl ?_
    · simp only [id_eq, if_neg hne]
      exact hless
    · dsimp only
      rw [length_drop]
      omega

end WriteAllFlush

end Vey.IoExt

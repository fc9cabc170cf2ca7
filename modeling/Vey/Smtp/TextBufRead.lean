import Vey.Smtp.TextDecoder
import Vey.Schemes.Steps

/-! The two ways to read from a `TextDataDecodeReader`.

        poll_read                 copies lines into the caller's buffer
        poll_fill_buf, consume    lends the current line, and drops what the caller used

    Both take their bytes from `cacheData`, the part of the current line that is not given out. Where a
    copy ends just with the line, the empty rest of it stays cached: `poll_fill_buf` then lends an
    empty slice, and that is how the end of a stream looks. -/

namespace Vey.Smtp
open Schemes DataDecodeBuffer

namespace DataDecodeBuffer

/-- The line `[start, stop)` becomes the current one, or ends the text. -/
def cacheLine (b : DataDecodeBuffer) (start stop : Nat) : DataDecodeBuffer :=
  if (win b.buf start stop).head? = some 46 then
    if win b.buf start stop = endLine then { b with readDone := true }
    else { b with cacheData := some (start + 1, stop) }
  else { b with cacheData := some (start, stop) }

def consumeCache (b : DataDecodeBuffer) (amt : Nat) : DataDecodeBuffer :=
  match b.cacheData with
  | some (start, stop) =>
    if amt < stop - start then { b with cacheData := some (start + amt, stop) }
    else { b with cacheData := none, start := stop }
  | none => b

end DataDecodeBuffer

namespace TextDataDecodeReader

variable (r : TextDataDecodeReader)

/-- Every round of `poll_line` but the last reads a byte or more. -/
def pollGetCache : IoPoll Unit × TextDataDecodeReader :=
  if r.buf.readDone then (.ready (.ok ()), r)
  else if r.buf.cacheData.isSome then (.ready (.ok ()), r)
  else
    match iter DataDecodeBuffer.pollLine (r.inner.content.length + 1) (r.buf, r.inner) with
    | some (.ready (.ok (start, stop)), buf, inner) =>
      (.ready (.ok ()), ⟨inner, buf.cacheLine start stop⟩)
    | some (.ready (.error e), buf, inner) => (.ready (.error e), ⟨inner, buf⟩)
    | some (.pending, buf, inner) => (.pending, ⟨inner, buf⟩)
    | none => (.pending, r)

def pollFillBuf : IoPoll Bytes × TextDataDecodeReader :=
  match r.pollGetCache with
  | (.ready (.ok ()), r) => (.ready (.ok r.buf.cache), r)
  | (.ready (.error e), r) => (.ready (.error e), r)
  | (.pending, r) => (.pending, r)

def consume (amt : Nat) : TextDataDecodeReader :=
  { r with buf := r.buf.consumeCache amt }

end TextDataDecodeReader

/-! ### A line is cached as by a read without room -/

variable {b : DataDecodeBuffer} {v : Nat × Nat}

namespace DataDecodeBuffer

variable {s t : DataDecodeBuffer × Source}

theorem lineMore_next {reader : Source} (h : b.lineMore reader = .next t) :
    t.1.cacheData = b.cacheData ∧ t.2.content.length < reader.content.length := by
  unfold lineMore pollFillBuf at h
  split at h
  case h_1 | h_2 => cases h
  case h_3 nr s' hfill =>
    split at h
    case isTrue => cases h
    case isFalse hnr =>
      cases h
      split at hfill <;> cases hfill
      case h_3 d r hp =>
        have hlen := congrArg List.length (Source.pollRead_ok hp).1
        rw [List.length_append] at hlen
        refine ⟨rfl, ?_⟩
        show r.content.length < reader.content.length
        omega

theorem lineMore_ok {reader : Source} : b.lineMore reader ≠ .ret (.ready (.ok v)) t := by
  unfold lineMore
  split
  case h_1 | h_2 => nofun
  case h_3 => split <;> nofun

theorem pollLine_next (h : pollLine s = .next t) :
    t.1.cacheData = s.1.cacheData ∧ t.2.content.length < s.2.content.length := by
  unfold pollLine at h
  split at h
  case h_1 => cases h
  case h_2 =>
    split at h
    case isTrue => exact lineMore_next (b := s.1.compact) h
    case isFalse =>
      split at h
      case isTrue => cases h
      case isFalse => exact lineMore_next h

theorem pollLine_ok (h : pollLine s = .ret (.ready (.ok v)) t) : t = s ∧ s.1.getLine = some v := by
  unfold pollLine at h
  split at h
  case h_1 w hline =>
    cases h
    exact ⟨rfl, hline⟩
  case h_2 =>
    split at h
    case isTrue => exact absurd h lineMore_ok
    case isFalse =>
      split at h
      case isTrue => cases h
      case isFalse => exact absurd h lineMore_ok

/-- The loop of `poll_line` ends. -/
theorem iter_pollLine_isSome (s : DataDecodeBuffer × Source) :
    (iter pollLine (s.2.content.length + 1) s).isSome :=
  iter_isSome (fun _ => True) (fun s => s.2.content.length)
    (fun _ _ _ h => ⟨trivial, (pollLine_next h).2⟩) trivial (Nat.lt_succ_self _)

end DataDecodeBuffer

namespace ReadCall

/-- What a read without room answers, behind `poll_line`. -/
def ofLine : IoPoll (Nat × Nat) × DataDecodeBuffer × Source → IoPoll Unit × ReadCall
  | (.ready (.ok (start, stop)), buf, reader) =>
    (.ready (.ok ()), ⟨reader, buf.cacheLine start stop, 0, []⟩)
  | (.ready (.error e), buf, reader) => (.ready (.error e), ⟨reader, buf, 0, []⟩)
  | (.pending, buf, reader) => (.pending, ⟨reader, buf, 0, []⟩)

/-- A read without room copies nothing of the current line. -/
theorem iter_step_cached (reader : Source) (hsome : b.cacheData = some v) (n : Nat) :
    iter step (n + 1) ⟨reader, b, 0, []⟩ = some (.ready (.ok ()), ⟨reader, b, 0, []⟩) := by
  have hstep : step ⟨reader, b, 0, []⟩ = .ret (.ready (.ok ())) ⟨reader, b, 0, []⟩ := by
    simp only [step, hsome, copyCache, Nat.zero_le, if_true, Nat.add_zero, List.take_zero,
      List.append_nil]
    rw [← hsome]
  rw [iter, hstep]

/-- A read without room goes as far as `poll_line` does. -/
theorem iter_step_pollLine : ∀ {n : Nat} {s : DataDecodeBuffer × Source}
    {res : IoPoll (Nat × Nat) × DataDecodeBuffer × Source}, s.1.cacheData = none →
    iter pollLine n s = some res → ∀ k, n < k →
    iter step k ⟨s.2, s.1, 0, []⟩ = some (ofLine res)
  | 0, _, _, _, h, _, _ => by cases h
  | n + 1, s, res, hnone, h, k + 1, hk => by
    rw [iter] at h
    have hstep : step ⟨s.2, s.1, 0, []⟩ = (pollLine s).await
        (fun t => ⟨t.2, t.1, 0, []⟩) id fun v t => takeLine ⟨t.2, t.1, 0, []⟩ v.1 v.2 := by
      simp only [step, hnone]
    rw [iter, hstep]
    cases hline : pollLine s with
    | next t =>
      rw [hline] at h
      have hnone' := (pollLine_next hline).1.trans hnone
      exact iter_step_pollLine hnone' h k (Nat.lt_of_succ_lt_succ hk)
    | ret a t =>
      rw [hline] at h
      cases h
      rcases a with _ | ⟨e | ⟨start, stop⟩⟩
      · rfl
      · rfl
      · obtain ⟨k, rfl⟩ := Nat.exists_eq_add_one_of_ne_zero (show k ≠ 0 by omega)
        simp only [Ctrl.await, takeLine, ofLine, cacheLine]
        by_cases hdot : (win t.1.buf start stop).head? = some 46
        · by_cases hend : win t.1.buf start stop = endLine
          · simp only [if_pos hdot, if_pos hend]
          · simp only [if_pos hdot, if_neg hend]
            exact iter_step_cached _ rfl k
        · simp only [if_neg hdot]
          exact iter_step_cached _ rfl k

end ReadCall

namespace TextDataDecodeReader

variable {stream out : Bytes} {r r' : TextDataDecodeReader}

/-- `poll_get_cache` is a read without room. -/
theorem pollRead_zero (r : TextDataDecodeReader) :
    r.pollRead 0 = ((match r.pollGetCache.1 with
      | .ready (.ok ()) => .ready (.ok [])
      | .ready (.error e) => .ready (.error e)
      | .pending => .pending), r.pollGetCache.2) := by
  unfold pollRead pollGetCache
  by_cases hdone : r.buf.readDone
  · simp only [if_pos hdone]
  simp only [if_neg hdone]
  cases hcache : r.buf.cacheData with
  | some v =>
    have hiter := ReadCall.iter_step_cached r.inner hcache (r.enter 0).rounds
    rw [show r.enter 0 = ⟨r.inner, r.buf, 0, []⟩ from rfl] at hiter ⊢
    rw [hiter]
    rfl
  | none =>
    obtain ⟨res, hres⟩ := Option.isSome_iff_exists.mp
      (iter_pollLine_isSome (r.buf, r.inner))
    have hrounds : r.inner.content.length + 1 < (r.enter 0).rounds + 1 := by
      simp only [ReadCall.rounds, enter, hcache, if_true]
      omega
    have hiter := ReadCall.iter_step_pollLine (s := (r.buf, r.inner)) hcache hres _ hrounds
    rw [show r.enter 0 = ⟨r.inner, r.buf, 0, []⟩ from rfl] at hiter ⊢
    rw [hiter, hres]
    obtain ⟨_ | ⟨e | ⟨start, stop⟩⟩, buf, inner⟩ := res <;> rfl

/-- A line has text. -/
theorem cacheLine_ne_nil {start stop : Nat} (hline : b.getLine = some (start, stop)) :
    (b.cacheLine start stop).readDone = true ∨ (b.cacheLine start stop).cache ≠ [] := by
  obtain ⟨rfl, hlt, hle, ⟨a, ha, hwin⟩, -⟩ := getLine_some hline
  unfold cacheLine
  split
  case isTrue hdot =>
    split
    case isTrue => exact Or.inl rfl
    case isFalse =>
      refine Or.inr ?_
      simp only [cache]
      rw [win_drop, hwin, List.drop_one]
      rw [hwin] at hdot
      cases a with
      | nil => simp [lf] at hdot
      | cons x xs => simp
  case isFalse =>
    refine Or.inr ?_
    simp only [cache, hwin]
    simp

/-! ### One call -/

theorem keeps_true : ReadCall.Keeps stream fun _ => True := fun _ _ _ _ _ => trivial

theorem Inv.underway {J : Source → Prop} (hJ : ReadCall.Keeps stream J) (h : r.Inv stream out)
    (hr : J r.inner) (hfin : r.finished = false) {cap : Nat} {c : ReadCall}
    (hsteps : (r.enter cap).Steps c) : ReadCall.Underway J stream out (r.enter cap) c := by
  induction hsteps with
  | refl => exact h.enter hr hfin cap
  | tail _ hstep ih =>
    have hto := ih.step hJ
    rw [hstep] at hto
    exact hto.1

/-- A read without room has nothing to lose. -/
theorem Inv.safeCall_zero (h : r.Inv stream out) (hfin : r.finished = false) : r.SafeCall 0 := by
  intro c hsteps hloses
  have hroom : c.filled.length + c.room = 0 := (h.underway keeps_true trivial hfin hsteps).room
  exact hloses.1 (List.length_eq_zero_iff.mp (by omega))

/-- Nor has one whose stream has all arrived. -/
theorem Inv.safeCall_arrived (h : r.Inv stream out) (hfin : r.finished = false)
    (harrived : r.inner.arrivals = []) (cap : Nat) : r.SafeCall cap := by
  have hkeeps : ReadCall.Keeps stream fun reader => reader.arrivals = [] := by
    intro b reader out done _ _ _ hr cap
    obtain ⟨buffered, arrivals, fits⟩ := reader
    obtain rfl : arrivals = [] := hr
    cases buffered <;> rfl
  rintro c hsteps ⟨-, -, -, reader, hstall⟩
  have hc := h.underway hkeeps harrived hfin hsteps
  rw [Source.events, hc.kept, List.flatMap_nil, List.append_nil] at hstall
  cases hbuf : c.reader.buffered with
  | nil | cons => rw [hbuf] at hstall; cases hstall

/-- A read with room answers without bytes at the end only. -/
theorem Inv.pollRead_nil (h : r.Inv stream out) {cap : Nat} (hcap : 1 ≤ cap)
    (hp : r.pollRead cap = (.ready (.ok []), r')) : r'.finished = true := by
  cases hfin : r.finished with
  | true =>
    rw [TextDataDecodeReader.pollRead, if_pos (by simpa [finished] using hfin)] at hp
    cases hp
    exact hfin
  | false =>
    obtain ⟨c, a, c', hc, hstep, heq⟩ := h.pollRead keeps_true trivial hfin cap
    have hto := hc.step keeps_true
    rw [heq] at hp
    rw [hstep] at hto
    rcases a with _ | ⟨e | u⟩
    · cases hp
    · cases hp
    · simp only [answer, Prod.mk.injEq, Poll.ready.injEq, Except.ok.injEq] at hp
      obtain ⟨hnil, rfl⟩ := hp
      refine hto.2.2.2.2.resolve_right fun hlen => ?_
      rw [hnil] at hlen
      have hroom : (r.enter cap).room = cap := rfl
      rw [hroom, List.length_nil] at hlen
      omega

/-- The empty rest of a line is cached. -/
def Emptied (r : TextDataDecodeReader) : Prop := r.buf.cacheData.isSome = true ∧ r.buf.cache = []

instance (r : TextDataDecodeReader) : Decidable r.Emptied := inferInstanceAs (Decidable (_ ∧ _))

theorem pollGetCache_cache (h : r.pollGetCache = (.ready (.ok ()), r')) (hfull : ¬r.Emptied) :
    r'.finished = true ∨ r'.buf.cache ≠ [] := by
  unfold pollGetCache at h
  split at h
  case isTrue hdone =>
    cases h
    exact Or.inl hdone
  case isFalse =>
    split at h
    case isTrue hsome =>
      cases h
      exact Or.inr fun hnil => hfull ⟨hsome, hnil⟩
    case isFalse =>
      split at h
      case h_2 | h_3 | h_4 => cases h
      case h_1 start stop buf inner hiter =>
        cases h
        obtain ⟨u, -, hret⟩ := iter_inv (fun _ => True) (fun _ _ _ _ => trivial) trivial hiter
        obtain ⟨rfl, hline⟩ := pollLine_ok hret
        exact cacheLine_ne_nil hline

/-- What a call of `poll_fill_buf` does: it lends text that was not given out. -/
theorem Inv.pollFillBuf (h : r.Inv stream out) :
    match r.pollFillBuf with
    | (.ready (.ok d), r') => r'.Inv stream out ∧ d = r'.buf.cache ∧
      (¬r.Emptied → d = [] → r'.finished = true)
    | (.ready (.error _), _) => True
    | (.pending, r') => r'.Inv stream out := by
  have hcalled := h.called keeps_true trivial 0
  rw [pollRead_zero] at hcalled
  unfold TextDataDecodeReader.pollFillBuf
  cases hget : r.pollGetCache with | mk a r'
  rw [hget] at hcalled
  rcases a with _ | ⟨e | u⟩
  · obtain ⟨x, hx, hinv, -⟩ := hcalled
    have hfin : r.finished = false := by
      cases hfin : r.finished with
      | false => rfl
      | true =>
        rw [pollGetCache, if_pos (by simpa [finished] using hfin)] at hget
        cases hget
    rwa [hx (h.safeCall_zero hfin), List.append_nil] at hinv
  · trivial
  · obtain ⟨hinv, -⟩ := hcalled
    rw [List.append_nil] at hinv
    refine ⟨hinv, rfl, fun hfull hnil => ?_⟩
    exact (pollGetCache_cache hget hfull).resolve_right fun hne => hne hnil

theorem Inv.consume (h : r.Inv stream out) {amt : Nat} (hamt : amt ≤ r.buf.cache.length) :
    (r.consume amt).Inv stream (out ++ r.buf.cache.take amt) := by
  obtain ⟨done, hinv⟩ := h
  cases hcache : r.buf.cacheData with
  | none =>
    refine ⟨done, ?_⟩
    simpa only [TextDataDecodeReader.consume, consumeCache, cache,
      hcache, List.take_nil, List.append_nil] using hinv
  | some v =>
    obtain ⟨x, y⟩ := v
    obtain ⟨-, hxy, -, hy⟩ := hinv.cached hcache
    have hwin : r.buf.cache = win r.buf.buf x y := by rw [cache, hcache]
    have hlen : (win r.buf.buf x y).length = y - x := win_length hy
    have halive : r.buf.readDone = false := by
      cases hdone : r.buf.readDone with
      | false => rfl
      | true =>
        rw [(hinv.ended hdone).1] at hcache
        cases hcache
    rw [hwin] at hamt ⊢
    refine ⟨done, ?_⟩
    simp only [TextDataDecodeReader.consume, consumeCache, hcache]
    split
    case isTrue => exact hinv.copy halive hcache hamt
    case isFalse hall =>
      rw [List.take_of_length_le (by omega)]
      exact hinv.pass halive hcache

end TextDataDecodeReader

/-! ### Both ways, in any order -/

/-- A reader of a text, with what its user got. -/
structure TextConsumer where
  reader : TextDataDecodeReader
  delivered : Bytes := []
  /-- each slice that was handed out, and whether the reader had finished -/
  answers : List (Bytes × Bool) := []

namespace TextConsumer

inductive Call where
  | pollRead (cap : Nat)
  | pollFillBuf
  | consume (amt : Nat)

/-- A read has room for a byte, and what is consumed was lent. An error ends the run. -/
def step (s : TextConsumer) : Call → Option TextConsumer
  | .pollRead cap =>
    if cap = 0 then none
    else
      match s.reader.pollRead cap with
      | (.ready (.ok d), reader) =>
        some ⟨reader, s.delivered ++ d, (d, reader.finished) :: s.answers⟩
      | (.ready (.error _), _) => none
      | (.pending, reader) => some { s with reader }
  | .pollFillBuf =>
    match s.reader.pollFillBuf with
    | (.ready (.ok d), reader) => some { s with reader, answers := (d, reader.finished) :: s.answers }
    | (.ready (.error _), _) => none
    | (.pending, reader) => some { s with reader }
  | .consume amt =>
    if amt ≤ s.reader.buf.cache.length then
      some { s with
        reader := s.reader.consume amt
        delivered := s.delivered ++ s.reader.buf.cache.take amt }
    else none

def start (inner : Source) (bufSize : Nat) : TextConsumer where
  reader := .new inner bufSize

/-- What was delivered is the start of the text, all of it at the end, and no slice was empty before. -/
structure Exact (text : Bytes) (s : TextConsumer) : Prop where
  delivers : s.delivered <+: text
  complete : s.reader.finished = true → s.delivered = text
  ends : ∀ a ∈ s.answers, a.1 = [] → a.2 = true

/-- No read waits for the stream after bytes were copied, and no slice is asked for when the empty rest
    of a line is cached. -/
def Careful (s : TextConsumer) : Call → Prop
  | .pollRead cap => s.reader.SafeCall cap
  | .pollFillBuf => ¬s.reader.Emptied
  | .consume _ => True

variable {s t : TextConsumer} {stream : Bytes}

/-- What holds between two calls. -/
structure Sound (stream : Bytes) (s : TextConsumer) : Prop where
  inv : s.reader.Inv stream s.delivered
  ends : ∀ a ∈ s.answers, a.1 = [] → a.2 = true

theorem Sound.step {c : Call} (h : s.Sound stream) (hc : s.Careful c) (hstep : s.step c = some t) :
    t.Sound stream := by
  cases c with
  | pollRead cap =>
    have hcalled := h.inv.called TextDataDecodeReader.keeps_true trivial cap
    simp only [TextConsumer.step] at hstep
    split at hstep
    case isTrue => cases hstep
    case isFalse hcap =>
      cases hp : s.reader.pollRead cap with | mk a reader
      rw [hp] at hcalled hstep
      rcases a with _ | ⟨e | d⟩
      · obtain ⟨x, hx, hinv, -⟩ := hcalled
        cases hstep
        rw [hx hc, List.append_nil] at hinv
        exact ⟨hinv, h.ends⟩
      · cases hstep
      · cases hstep
        refine ⟨hcalled.1, List.forall_mem_cons.mpr ⟨fun hnil => ?_, h.ends⟩⟩
        obtain rfl : d = [] := hnil
        exact h.inv.pollRead_nil (by omega) hp
  | pollFillBuf =>
    have hcalled := h.inv.pollFillBuf
    simp only [TextConsumer.step] at hstep
    cases hp : s.reader.pollFillBuf with | mk a reader
    rw [hp] at hcalled hstep
    rcases a with _ | ⟨e | d⟩
    · cases hstep
      exact ⟨hcalled, h.ends⟩
    · cases hstep
    · cases hstep
      exact ⟨hcalled.1, List.forall_mem_cons.mpr ⟨hcalled.2.2 hc, h.ends⟩⟩
  | consume amt =>
    simp only [TextConsumer.step] at hstep
    split at hstep
    case isFalse => cases hstep
    case isTrue hamt =>
      cases hstep
      exact ⟨h.inv.consume hamt, h.ends⟩

theorem Sound.exact (h : s.Sound stream) : s.Exact (textOf stream) := by
  refine ⟨?_, fun hfin => ?_, h.ends⟩
  · obtain ⟨done, hinv⟩ := h.inv
    rw [hinv.split, hinv.message.textOf_append, ← hinv.text, List.append_assoc]
    exact List.prefix_append _ _
  · obtain ⟨lines, rest, hlines, hstream, hout, -⟩ := h.inv.ended hfin
    rw [hstream, hlines.textOf_append, textOf_endLine, List.append_nil, hout]

/-- In any order of calls that are careful, both ways together give the text and its end. -/
theorem run_exact (inner : Source) (bufSize : Nat) {calls : List Call}
    (hcareful : Meets step Careful (start inner bufSize) calls)
    (hrun : run step (start inner bufSize) calls = some s) : s.Exact (textOf inner.content) := by
  have hstart : (start inner bufSize).Sound inner.content :=
    ⟨TextDataDecodeReader.inv_new inner bufSize, fun _ ha => absurd ha List.not_mem_nil⟩
  exact (Meets.inv (fun hI hC hs => hI.step hC hs) hcareful hstart hrun).exact

/-- Two lines that have arrived, the second one with a doubled dot. -/
def dotted : Source := ⟨ascii "ab\r\n..c\r\n.\r\n", [], by decide⟩

/-- A read that ends just with the first line: the slice behind it is empty, though there is more. -/
theorem not_exact_dotted : ∃ s,
    run step (start dotted 64) [.pollRead 4, .pollFillBuf] = some s ∧
      s.reader.finished = false ∧ ∀ text, ¬s.Exact text := by
  refine exists_run (p := fun s => s.reader.finished = false ∧ ([], false) ∈ s.answers)
    (by decide +kernel) fun s _ ⟨hfin, hmem⟩ => ?_
  exact ⟨hfin, fun text h => absurd (h.ends _ hmem rfl) (by decide)⟩

/-- A call that is careful in any state without an empty rest. -/
def Lends (s : TextConsumer) : Call → Prop
  | .pollRead _ => False
  | _ => ¬s.reader.Emptied

instance (s : TextConsumer) : ∀ c, Decidable (s.Lends c)
  | .pollRead _ => .isFalse id
  | .pollFillBuf => inferInstanceAs (Decidable (¬s.reader.Emptied))
  | .consume _ => inferInstanceAs (Decidable (¬s.reader.Emptied))

theorem Lends.careful {c : Call} (h : s.Lends c) : s.Careful c := by
  cases c with
  | pollRead _ => exact absurd h id
  | pollFillBuf => exact h
  | consume _ => trivial

/-- A read within the first line, and then slices: the text arrives. -/
theorem run_exact_dotted : ∃ s,
    run step (start dotted 64) [.pollRead 3, .pollFillBuf, .consume 1, .pollFillBuf, .consume 4,
      .pollFillBuf] = some s ∧
    s.delivered = ascii "ab\r\n.c\r\n" ∧ s.reader.finished = true ∧
      s.Exact (textOf dotted.content) := by
  have hread : (start dotted 64).reader.SafeCall 3 :=
    (TextDataDecodeReader.inv_new dotted 64).safeCall_arrived rfl rfl 3
  have hlends : ∀ t ∈ (start dotted 64).step (.pollRead 3),
      Meets step Lends t [.pollFillBuf, .consume 1, .pollFillBuf, .consume 4, .pollFillBuf] := by
    decide +kernel
  have hcareful : Meets step Careful (start dotted 64)
      [.pollRead 3, .pollFillBuf, .consume 1, .pollFillBuf, .consume 4, .pollFillBuf] :=
    ⟨hread, fun t ht => (hlends t ht).mono Lends.careful⟩
  refine exists_run (p := fun s => s.delivered = ascii "ab\r\n.c\r\n" ∧ s.reader.finished = true)
    (by decide +kernel) fun s hrun hs => ?_
  exact ⟨hs.1, hs.2, run_exact dotted 64 hcareful hrun⟩

end TextConsumer

end Vey.Smtp

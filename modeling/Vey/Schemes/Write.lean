import Vey.Schemes.Fair

/-! One write and one flush of a poll function.

        pollWrite w b ---- Pending ----> give the writer back, Pending
                      ---- error ------> fail
                      ---- 0 ----------> fail: the writer takes nothing
                      ---- n ----------> go on behind n bytes

    Both rules of such a step speak about the bytes that went to the writer: what the step keeps, and
    what it lowers on the way to `Ready` when the writer is fair. -/

namespace Vey.Schemes

variable {σ α ε ω : Type}

/-- Offer `b` to the writer: `put` gives the writer back, `wrote` goes on behind the bytes taken. -/
def writeStep [AsyncWrite ω] (w : ω) (b : Bytes) (fail : IoError → ε) (zero : ε) (put : ω → σ)
    (wrote : Nat → ω → σ) : Ctrl σ (Poll (Except ε α)) :=
  match pollWrite w b with
  | (.pending, w) => .ret .pending (put w)
  | (.ready (.error e), w) => .ret (.ready (.error (fail e))) (put w)
  | (.ready (.ok 0), w) => .ret (.ready (.error zero)) (put w)
  | (.ready (.ok n), w) => .next (wrote n w)

/-- Flush the writer and be ready with `a`. -/
def flushStep [AsyncWrite ω] (w : ω) (fail : IoError → ε) (put : ω → σ) (a : α) :
    Ctrl σ (Poll (Except ε α)) :=
  match pollFlush w with
  | (.pending, w) => .ret .pending (put w)
  | (.ready (.error e), w) => .ret (.ready (.error (fail e))) (put w)
  | (.ready (.ok _), w) => .ret (.ready (.ok a)) (put w)

section

variable [AsyncWrite ω] {w : Tapped ω} {b : Bytes} {fail : IoError → ε} {zero : ε}
  {put : Tapped ω → σ} {wrote : Nat → Tapped ω → σ} {I : σ → Prop} {Q : α → σ → Prop}

theorem writeStep_ensures (hput : ∀ {w'}, w'.log = w.log → I (put w'))
    (hwrote : ∀ {n w'}, 0 < n → n ≤ b.length → w'.log = w.log ++ b.take n → I (wrote n w')) :
    (writeStep w b fail zero put wrote : Ctrl σ (Poll (Except ε α))).Ensures I Q := by
  rw [writeStep]
  split
  case h_1 w' hw => exact hput (tapped_write_pending hw)
  case h_2 | h_3 => exact trivial
  case h_4 n w' hn hw =>
    exact hwrote (Nat.pos_of_ne_zero hn) (AsyncWrite.pollWrite_le hw) (tapped_pollWrite hw)

theorem flushStep_ensures {a : α} (hput : ∀ {w'}, w'.log = w.log → I (put w'))
    (hdone : ∀ {w'}, w'.log = w.log → Q a (put w')) :
    (flushStep w fail put a : Ctrl σ (Poll (Except ε α))).Ensures I Q := by
  rw [flushStep]
  split
  case h_1 w' hw => exact hput (tapped_pollFlush hw)
  case h_2 => exact trivial
  case h_3 w' hw => exact hdone (tapped_pollFlush hw)

end

/-! ### Progress -/

/-- A fair writer whose flush stalls at most `flushStalls` times. -/
class FairFlush (ω : Type) extends FairWrite ω where
  flushStalls : ω → Nat
  pollFlush_stalls : ∀ {w w' : ω}, pollFlush w = (.pending, w') → flushStalls w' < flushStalls w

instance [FairFlush ω] : FairFlush (Tapped ω) where
  flushStalls t := FairFlush.flushStalls t.inner
  pollFlush_stalls := by
    intro t t' h
    have h1 := congrArg Prod.fst h
    have h2 := congrArg (·.2.inner) h
    exact FairFlush.pollFlush_stalls (Prod.ext h1 h2)

instance : FairFlush FairSink where
  flushStalls w := w.flushes.length
  pollFlush_stalls := by
    rintro ⟨writes, _ | ⟨_ | _, flushes⟩⟩ w' h
    · cases h
    · cases h
      exact Nat.lt_succ_self _
    · cases h

/-- What holds of the state that a step leaves holds however it ends. -/
theorem Ctrl.Ensures.and_state {c : Ctrl σ (Poll (Except ε α))} {I J : σ → Prop}
    {Q : α → σ → Prop} (h : c.Ensures I Q) (hJ : J c.state) :
    c.Ensures (fun t => I t ∧ J t) fun a t => Q a t ∧ J t := by
  rcases c with t | ⟨_ | ⟨e | a⟩, t⟩
  · exact ⟨h, hJ⟩
  · exact ⟨h, hJ⟩
  · exact trivial
  · exact ⟨h, hJ⟩

namespace Future

/-- A move lowers the effort and does not fail. -/
def Lowers (F : Future σ (Except ε α)) (μ : σ → Effort) (s : σ) :
    Ctrl σ (Poll (Except ε α)) → Prop
  | .next t => (μ t).Less (μ s)
  | .ret .pending t => (μ (F.enter t)).Less (μ s)
  | .ret (.ready (.ok _)) _ => True
  | .ret (.ready (.error _)) _ => False

/-- Total correctness: the future gets ready with a value, and leaves `Q`. -/
def Gives (F : Future σ (Except ε α)) (s : σ) (Q : α → σ → Prop) : Prop :=
  ∃ n a t, F.drive n (F.enter s) = some (.ok a, t) ∧ Q a t

variable {F : Future σ (Except ε α)}

theorem Gives.mono {s : σ} {Q R : α → σ → Prop} (h : F.Gives s Q)
    (hQ : ∀ {a t}, Q a t → R a t) : F.Gives s R := by
  obtain ⟨n, a, t, hdrive, hq⟩ := h
  exact ⟨n, a, t, hdrive, hQ hq⟩

/-- Moves that keep `I` and lower the effort lead to `Ready` with `Q`. -/
theorem gives_of_lowers {I : σ → Prop} {Q : α → σ → Prop}
    {μ : σ → Effort} (henter : ∀ {s}, I s → I (F.enter s))
    (hbody : ∀ {s}, I s → (F.body s).Ensures I Q) (hless : ∀ {s}, I s → F.Lowers μ s (F.body s))
    {s : σ} (hs : I s) : F.Gives s Q := by
  have hadvances : ∀ {s}, I s → True → F.Advances I Q μ s (F.body s) := by
    intro s hI _
    have hb := hbody hI
    have hl := hless hI
    rcases hc : F.body s with t | ⟨_ | ⟨e | a⟩, t⟩ <;> rw [hc] at hb hl
    · exact ⟨hb, hl⟩
    · exact ⟨henter hb, hl⟩
    · exact hl
    · exact hb
  exact drive_total hadvances (henter hs) fun _ _ => trivial

section

variable {μ : σ → Effort} {s : σ} {w : Tapped ω} {b : Bytes} {fail : IoError → ε} {zero : ε}
  {put : Tapped ω → σ} {wrote : Nat → Tapped ω → σ}

theorem writeStep_lowers [FairWrite ω] (hb : b ≠ [])
    (hput : ∀ {w'}, FairWrite.stalls w' < FairWrite.stalls w → (μ (F.enter (put w'))).Less (μ s))
    (hwrote : ∀ {n w'}, 0 < n → n ≤ b.length → (μ (wrote n w')).Less (μ s)) :
    F.Lowers μ s (writeStep w b fail zero put wrote) := by
  rw [writeStep]
  rcases hp : pollWrite w b with ⟨r, w'⟩
  rcases FairWrite.pollWrite_fair hb hp with ⟨rfl, hless⟩ | ⟨n, rfl⟩
  · exact hput hless
  · exact hwrote (Nat.succ_pos n) (AsyncWrite.pollWrite_le hp)

theorem flushStep_lowers [FairFlush ω] {a : α}
    (hput : ∀ {w'}, FairFlush.flushStalls w' < FairFlush.flushStalls w →
      (μ (F.enter (put w'))).Less (μ s)) :
    F.Lowers μ s (flushStep w fail put a) := by
  rw [flushStep]
  rcases hp : pollFlush w with ⟨r, w'⟩
  rcases FairWrite.pollFlush_fair hp with rfl | rfl
  · exact hput (FairFlush.pollFlush_stalls hp)
  · exact trivial

end

end Future

end Vey.Schemes

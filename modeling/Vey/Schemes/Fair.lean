import Vey.Schemes.Loop

/-! Futures that get ready.

    A future is polled until it is ready. It gets there when each of its moves lowers an `Effort`: the
    work that is left to do counts first, then how often the writer may stall before it does some of
    it, then the place in the code.

        work      stalls     phase
        bytes     Pending    program point

    A fair writer takes a byte of every write that is not empty, after finitely many stalls. -/

namespace Vey.Schemes

/-- What is ahead of a future. -/
structure Effort where
  work : Nat
  stalls : Nat
  phase : Nat

namespace Effort

/-- Less work, or as much work and less of the rest. -/
def Less (a b : Effort) : Prop :=
  a.work < b.work ∨ (a.work ≤ b.work ∧
    (a.stalls < b.stalls ∨ (a.stalls ≤ b.stalls ∧ a.phase < b.phase)))

theorem less_wf : WellFounded Less := by
  have hwf : WellFounded (Prod.Lex (· < · : Nat → Nat → Prop)
      (Prod.Lex (· < · : Nat → Nat → Prop) (· < · : Nat → Nat → Prop))) :=
    WellFounded.prod_lex wellFounded_lt (WellFounded.prod_lex wellFounded_lt wellFounded_lt)
  refine Subrelation.wf ?_ (InvImage.wf (fun e : Effort => (e.work, e.stalls, e.phase)) hwf)
  intro a b h
  simp only [InvImage, Prod.lex_def]
  unfold Less at h
  omega

end Effort

namespace Future

variable {σ α ε : Type}

/-- What a move owes on the way to `Ready`: it keeps `I` and lowers the effort, or it is ready with
    `Q`. -/
def Advances (F : Future σ (Except ε α)) (I : σ → Prop) (Q : α → σ → Prop) (μ : σ → Effort)
    (s : σ) : Ctrl σ (Poll (Except ε α)) → Prop
  | .next t => I t ∧ (μ t).Less (μ s)
  | .ret .pending t => I (F.enter t) ∧ (μ (F.enter t)).Less (μ s)
  | .ret (.ready (.ok a)) t => Q a t
  | .ret (.ready (.error _)) _ => False

/-- A run whose moves all advance gets ready. -/
theorem drive_total {F : Future σ (Except ε α)} {I P : σ → Prop} {Q : α → σ → Prop}
    {μ : σ → Effort} (hbody : ∀ {s}, I s → P s → F.Advances I Q μ s (F.body s)) {s : σ} (hs : I s)
    (hP : ∀ t, F.Runs (fun _ => True) s t → P t) :
    ∃ n a t, F.drive n s = some (.ok a, t) ∧ Q a t := by
  induction hm : μ s using Effort.less_wf.induction generalizing s with
  | _ m ih =>
  subst hm
  have hadv := hbody hs (hP s .refl)
  -- one more move in front of a run that gets ready
  have hmore : ∀ {t}, F.Moves s t → I t → (μ t).Less (μ s) →
      ∃ n a u, F.drive n t = some (.ok a, u) ∧ Q a u := by
    intro t hmove hI hless
    exact ih _ hless hI (fun u hu => hP u (hu.head ⟨trivial, hmove⟩)) rfl
  rcases hb : F.body s with t | ⟨_ | ⟨e | a⟩, t⟩
  all_goals rw [hb] at hadv
  · obtain ⟨n, a, u, hd, hQ⟩ := hmore (.next hb) hadv.1 hadv.2
    exact ⟨n + 1, a, u, by rw [drive, hb]; exact hd, hQ⟩
  · obtain ⟨n, a, u, hd, hQ⟩ := hmore (.repoll hb) hadv.1 hadv.2
    exact ⟨n + 1, a, u, by rw [drive, hb]; exact hd, hQ⟩
  · exact hadv.elim
  · exact ⟨1, a, t, by rw [drive, hb], hadv⟩

/-- Every state of the run up to `Ready` passes a test. -/
def always (F : Future σ α) (p : σ → Bool) : Nat → σ → Bool
  | 0, _ => false
  | n + 1, s => p s && match F.body s with
    | .next t => F.always p n t
    | .ret .pending t => F.always p n (F.enter t)
    | .ret (.ready _) _ => true

theorem always_runs {F : Future σ α} {p : σ → Bool} : ∀ {n : Nat} {s t : σ},
    F.always p n s = true → F.Runs (fun _ => True) s t → p t = true
  | 0, _, _, h, _ => by cases h
  | n + 1, s, t, h, hruns => by
    rw [always, Bool.and_eq_true] at h
    rcases hruns.cases_head with rfl | ⟨u, ⟨-, hmove⟩, hruns⟩
    · exact h.1
    · cases hmove with
      | next hb | repoll hb => rw [hb] at h; exact always_runs h.2 hruns

end Future

/-! ### Fair writers -/

/-- A writer that takes at least a byte of every write that is not empty, once it has stalled at most
    `stalls` times, and whose writes and flushes do not fail. -/
class FairWrite (ω : Type) extends AsyncWrite ω where
  stalls : ω → Nat
  pollWrite_fair : ∀ {w w' : ω} {b : Bytes} {r : IoPoll Nat}, b ≠ [] → pollWrite w b = (r, w') →
    (r = .pending ∧ stalls w' < stalls w) ∨ ∃ n, r = .ready (.ok (n + 1))
  pollFlush_fair : ∀ {w w' : ω} {r : IoPoll Unit}, pollFlush w = (r, w') →
    r = .pending ∨ r = .ready (.ok ())

instance {ω : Type} [FairWrite ω] : FairWrite (Tapped ω) where
  stalls t := FairWrite.stalls t.inner
  pollWrite_fair := by
    intro t t' b r hb h
    have h1 := congrArg Prod.fst h
    have h2 := congrArg (·.2.inner) h
    rcases FairWrite.pollWrite_fair hb (Prod.ext h1 h2) with hr | hr
    · exact .inl hr
    · exact .inr hr
  pollFlush_fair := by
    intro t t' r h
    have h1 := congrArg Prod.fst h
    have h2 := congrArg (·.2.inner) h
    exact FairWrite.pollFlush_fair (Prod.ext h1 h2)

/-- A fair writer with a script: a write stalls or takes at most `n + 1` bytes, a flush stalls or not.
    Behind the scripts nothing stalls. -/
structure FairSink where
  writes : List (Option Nat) := []
  flushes : List Bool := []

def FairSink.write (w : FairSink) (b : Bytes) : IoPoll Nat × FairSink :=
  match w.writes with
  | [] => (.ready (.ok b.length), w)
  | none :: writes => (.pending, { w with writes := writes })
  | some n :: writes => (.ready (.ok (min (n + 1) b.length)), { w with writes := writes })

def FairSink.flush (w : FairSink) : IoPoll Unit × FairSink :=
  match w.flushes with
  | false :: flushes => (.pending, { w with flushes := flushes })
  | true :: flushes => (.ready (.ok ()), { w with flushes := flushes })
  | [] => (.ready (.ok ()), w)

theorem FairSink.write_le {w w' : FairSink} {b : Bytes} {n : Nat}
    (h : w.write b = (.ready (.ok n), w')) : n ≤ b.length := by
  unfold write at h
  split at h
  all_goals simp only [Prod.mk.injEq, Poll.ready.injEq, Except.ok.injEq, reduceCtorEq,
    false_and] at h
  all_goals omega

instance : FairWrite FairSink where
  pollWrite := FairSink.write
  pollFlush := FairSink.flush
  pollWrite_le := FairSink.write_le
  stalls w := w.writes.length
  pollWrite_fair := by
    rintro ⟨_ | ⟨_ | n, writes⟩, flushes⟩ w' b r hb h
    all_goals
      have hlen : 0 < b.length := List.length_pos_iff.mpr hb
      obtain ⟨rfl, rfl⟩ := Prod.mk.inj h
    · exact .inr ⟨b.length - 1, by rw [Nat.sub_add_cancel hlen]⟩
    · exact .inl ⟨rfl, Nat.lt_succ_self _⟩
    · exact .inr ⟨min (n + 1) b.length - 1, by rw [Nat.sub_add_cancel (by omega)]⟩
  pollFlush_fair := by
    rintro ⟨writes, _ | ⟨_ | _, flushes⟩⟩ w' r h
    all_goals obtain ⟨rfl, rfl⟩ := Prod.mk.inj h
    · exact .inr rfl
    · exact .inl rfl
    · exact .inr rfl

end Vey.Schemes

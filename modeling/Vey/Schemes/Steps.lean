import Mathlib

/-! Systems that take one move after another.

        s --e1--> s1 --e2--> s2 ...

    A move is an event, and `none` says that the event cannot happen in the state. What one move keeps,
    a whole run keeps. -/

namespace Vey.Schemes

variable {σ ε : Type} {step : σ → ε → Option σ}

/-- The state after all the events. -/
def run (step : σ → ε → Option σ) : σ → List ε → Option σ
  | s, [] => some s
  | s, e :: es => (step s e).bind fun t => run step t es

variable {es : List ε}

theorem run_cons {s t : σ} {e : ε} (h : run step s (e :: es) = some t) :
    ∃ u, step s e = some u ∧ run step u es = some t := Option.bind_eq_some_iff.mp h

/-- The rule for runs: an invariant of every move holds wherever a run gets. -/
theorem run_inv {I : σ → Prop} (hstep : ∀ {s e t}, I s → step s e = some t → I t) :
    ∀ {s t : σ}, I s → run step s es = some t → I t := by
  induction es with
  | nil =>
    intro s t hs h
    exact Option.some.inj h ▸ hs
  | cons e es ih =>
    intro s t hs h
    obtain ⟨u, hu, hrun⟩ := run_cons h
    exact ih (hstep hs hu) hrun

/-- A run that can be followed to a state with `p`, and what is so of every such run. -/
theorem exists_run {s : σ} {p q : σ → Prop} [DecidablePred p]
    (h : (run step s es).any (fun t => decide (p t)) = true)
    (hq : ∀ t, run step s es = some t → p t → q t) : ∃ t, run step s es = some t ∧ q t := by
  obtain ⟨t, ht, hp⟩ := (Option.any_eq_true _ _).mp h
  exact ⟨t, ht, hq t ht (of_decide_eq_true hp)⟩

/-! ### Runs under a condition -/

/-- Every event of the run comes in a state in which it meets `C`. -/
def Meets (step : σ → ε → Option σ) (C : σ → ε → Prop) : σ → List ε → Prop
  | _, [] => True
  | s, e :: es => C s e ∧ ∀ t ∈ step s e, Meets step C t es

instance Meets.decidable (step : σ → ε → Option σ) (C : σ → ε → Prop)
    [∀ s e, Decidable (C s e)] : ∀ (s : σ) (es : List ε), Decidable (Meets step C s es)
  | _, [] => .isTrue trivial
  | s, e :: es =>
    have := fun t => Meets.decidable step C t es
    inferInstanceAs (Decidable (C s e ∧ ∀ t ∈ step s e, Meets step C t es))

/-- The rule for such runs. -/
theorem Meets.inv {C : σ → ε → Prop} {I : σ → Prop}
    (hstep : ∀ {s e t}, I s → C s e → step s e = some t → I t) :
    ∀ {s t : σ}, Meets step C s es → I s → run step s es = some t → I t := by
  induction es with
  | nil =>
    intro s t _ hs h
    exact Option.some.inj h ▸ hs
  | cons e es ih =>
    rintro s t ⟨hC, hrest⟩ hs h
    obtain ⟨u, hu, hrun⟩ := run_cons h
    exact ih (hrest u hu) (hstep hs hC hu) hrun

theorem Meets.mono {C D : σ → ε → Prop} (h : ∀ {s e}, C s e → D s e) :
    ∀ {es : List ε} {s : σ}, Meets step C s es → Meets step D s es
  | [], _, _ => trivial
  | _ :: _, _, hs => ⟨h hs.1, fun t ht => (hs.2 t ht).mono h⟩

/-- A property that one move keeps just when it meets `C`: a run keeps it just when all of its moves
    do. -/
theorem Meets.iff_of_step {C : σ → ε → Prop} {I G : σ → Prop}
    (hinv : ∀ {s e t}, I s → step s e = some t → I t)
    (hstep : ∀ {s e t}, I s → step s e = some t → (G t ↔ G s ∧ C s e)) :
    ∀ {s t : σ}, I s → run step s es = some t → (G t ↔ G s ∧ Meets step C s es) := by
  induction es with
  | nil =>
    intro s t _ h
    obtain rfl := Option.some.inj h
    exact (and_iff_left trivial).symm
  | cons e es ih =>
    intro s t hs h
    obtain ⟨u, hu, hrun⟩ := run_cons h
    have hrest : Meets step C s (e :: es) ↔ C s e ∧ Meets step C u es := by
      simp [Meets, hu]
    rw [ih (hinv hs hu) hrun, hstep hs hu, hrest, and_assoc]

end Vey.Schemes

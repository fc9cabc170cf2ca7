import Vey.Schemes.Write

/-! Futures one behind the other.

        first.await?;          G:  wrap s -> wrap s' -> ... -> second state -> ...
        second.await                 |__ first __|

    An outer future that is inside an inner one gets out of it as soon as the inner one is ready, so
    its total correctness is put together from the parts. -/

namespace Vey.Schemes

/-- Two statements about one step. -/
theorem Ctrl.Ensures.both {σ α ε : Type} {c : Ctrl σ (Poll (Except ε α))} {I J : σ → Prop}
    {Q R : α → σ → Prop} (h : c.Ensures I Q) (h' : c.Ensures J R) :
    c.Ensures (fun t => I t ∧ J t) fun a t => Q a t ∧ R a t := by
  rcases c with t | ⟨_ | ⟨e | a⟩, t⟩
  · exact ⟨h, h'⟩
  · exact ⟨h, h'⟩
  · exact trivial
  · exact ⟨h, h'⟩

namespace Future

variable {σ τ α β ε ε' : Type}

/-- A poll function has one outcome. -/
theorem drive_unique {F : Future σ α} {a a' : α} {t t' : σ} :
    ∀ {n m : Nat} {s : σ}, F.drive n s = some (a, t) → F.drive m s = some (a', t') →
      a = a' ∧ t = t' := by
  intro n
  induction n with
  | zero =>
    intro m s h
    cases h
  | succ n ih =>
    intro m s h h'
    rcases m with _ | m
    · cases h'
    rw [drive] at h h'
    rcases hb : F.body s with u | ⟨_ | a₀, u⟩ <;> rw [hb] at h h'
    · exact ih h h'
    · exact ih h h'
    · obtain ⟨rfl, rfl⟩ := Prod.mk.inj (Option.some.inj h)
      obtain ⟨rfl, rfl⟩ := Prod.mk.inj (Option.some.inj h')
      exact ⟨rfl, rfl⟩

variable {F : Future σ (Except ε α)} {I : σ → Prop} {Q : α → σ → Prop} {μ : σ → Effort} {s : σ}

/-- A move that advances and ensures. -/
theorem Advances.and {J : σ → Prop} {R : α → σ → Prop} {c : Ctrl σ (Poll (Except ε α))}
    (h : F.Advances I Q μ s c) (h' : c.Ensures J R) (henter : ∀ {t}, J t → J (F.enter t)) :
    F.Advances (fun t => I t ∧ J t) (fun a t => Q a t ∧ R a t) μ s c := by
  rcases c with t | ⟨_ | ⟨e | a⟩, t⟩
  · exact ⟨⟨h.1, h'⟩, h.2⟩
  · exact ⟨⟨h.1, henter h'⟩, h.2⟩
  · exact h
  · exact ⟨h, h'⟩

/-- The rule for total correctness: every move advances. -/
theorem gives_of_advances (hbody : ∀ {s}, I s → F.Advances I Q μ s (F.body s))
    (hs : I (F.enter s)) : F.Gives s Q :=
  drive_total (P := fun _ => True) (fun hI _ => hbody hI) hs fun _ _ => trivial

section

variable {G : Future τ (Except ε' β)} {fail : ε → ε'} {done : α → σ → Ctrl τ (Poll (Except ε' β))}
  {R : β → τ → Prop} (wrap : σ → τ) (henter : ∀ t, G.enter (wrap t) = wrap (F.enter t))
  (hbody : ∀ t, G.body (wrap t) = (F.body t).await wrap fail done)

include henter hbody

/-- The outer future runs through the inner one up to its last move. -/
theorem drive_await {a : α} {t : σ} (hlast : ∀ {s}, F.body s = .ret (.ready (.ok a)) t →
      ∃ m b v, G.drive m (wrap s) = some (.ok b, v) ∧ R b v) :
    ∀ {n : Nat} {s : σ}, F.drive n s = some (.ok a, t) →
      ∃ m b v, G.drive m (wrap s) = some (.ok b, v) ∧ R b v := by
  intro n
  induction n with
  | zero =>
    intro s h
    cases h
  | succ n ih =>
    intro s h
    have hstep := hbody s
    rw [drive] at h
    rcases hb : F.body s with u | ⟨_ | a₀, u⟩ <;> rw [hb] at h hstep
    · obtain ⟨m, b, v, hd, hR⟩ := ih h
      exact ⟨m + 1, b, v, by rw [drive, hstep]; exact hd, hR⟩
    · obtain ⟨m, b, v, hd, hR⟩ := ih h
      refine ⟨m + 1, b, v, ?_, hR⟩
      rw [drive, hstep, Ctrl.await]
      dsimp only
      rw [henter]
      exact hd
    · obtain ⟨rfl, rfl⟩ := Prod.mk.inj (Option.some.inj h)
      exact hlast hb

/-- Total correctness of two futures, one behind the other. -/
theorem Gives.await (h : F.Gives s Q)
    (hdone : ∀ {a t}, Q a t → ∃ u, done a t = .next u ∧ G.enter u = u ∧ G.Gives u R) :
    G.Gives (wrap s) R := by
  obtain ⟨n, a, t, hd, hQ⟩ := h
  obtain ⟨u, hu, hsame, m, b, v, hd', hR⟩ := hdone hQ
  rw [Gives, henter]
  refine drive_await wrap henter hbody (fun {s} hs => ⟨m + 1, b, v, ?_, hR⟩) hd
  rw [drive, hbody, hs, Ctrl.await, hu, ← hsame]
  exact hd'

/-- Total correctness of an outer future that is ready with the inner one. -/
theorem Gives.await_ready (h : F.Gives s Q)
    (hdone : ∀ {a t}, Q a t → ∃ b v, done a t = .ret (.ready (.ok b)) v ∧ R b v) :
    G.Gives (wrap s) R := by
  obtain ⟨n, a, t, hd, hQ⟩ := h
  obtain ⟨b, v, hret, hR⟩ := hdone hQ
  rw [Gives, henter]
  refine drive_await wrap henter hbody (fun {s} hs => ⟨1, b, v, ?_, hR⟩) hd
  rw [drive, hbody, hs, Ctrl.await, hret]

end

end Future

end Vey.Schemes

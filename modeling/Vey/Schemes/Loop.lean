import Vey.Schemes.Poll

/-! Loops and futures, one step at a time.

    A loop body answers `next` (go round again) or `ret` (leave the loop with a result); `iter`
    runs it within a budget of rounds. A `Future` is a poll function given by such a body: a poll
    starts with `enter`, which sets the local variables, and a poll that returned `Pending` is
    followed by another one.

        enter -> body -> next ... -> ret Pending -> enter -> ... -> ret (Ready a)

    An invariant that survives each of these arrows holds wherever a run can get. -/

namespace Vey.Schemes

variable {σ α ρ : Type}

/-- What one round of a loop body does. -/
inductive Ctrl (σ ρ : Type) where
  | next (s : σ)
  | ret (r : ρ) (s : σ)

/-- The state that a round leaves. -/
def Ctrl.state : Ctrl σ ρ → σ
  | .next s => s
  | .ret _ s => s

/-- Run a loop for at most `fuel` rounds; `none` when the budget is too small. -/
def iter (body : σ → Ctrl σ ρ) : Nat → σ → Option (ρ × σ)
  | 0, _ => none
  | n + 1, s =>
    match body s with
    | .next s' => iter body n s'
    | .ret r s' => some (r, s')

/-- The same round of a loop over other states. -/
def Ctrl.map {τ : Type} (g : σ → τ) : Ctrl σ ρ → Ctrl τ ρ
  | .next s => .next (g s)
  | .ret r s => .ret r (g s)

variable {body : σ → Ctrl σ ρ}

/-- A loop invariant holds in the round that leaves the loop. -/
theorem iter_inv (I : σ → Prop) (hstep : ∀ s s', I s → body s = .next s' → I s') :
    ∀ {n : Nat} {s : σ} {r : ρ} {t : σ}, I s → iter body n s = some (r, t) →
      ∃ u, I u ∧ body u = .ret r t
  | 0, _, _, _, _, h => by simp [iter] at h
  | n + 1, s, r, t, hI, h => by
    unfold iter at h
    cases hb : body s with
    | next s' => rw [hb] at h; exact iter_inv I hstep (hstep s s' hI hb) h
    | ret r' s' =>
      simp only [hb, Option.some.injEq, Prod.mk.injEq] at h
      exact ⟨s, hI, by rw [hb, h.1, h.2]⟩

/-- A measure that every round lowers bounds the number of rounds. -/
theorem iter_isSome (I : σ → Prop) (μ : σ → Nat)
    (hstep : ∀ s s', I s → body s = .next s' → I s' ∧ μ s' < μ s) :
    ∀ {n : Nat} {s : σ}, I s → μ s < n → (iter body n s).isSome
  | 0, _, _, h => by omega
  | n + 1, s, hI, h => by
    unfold iter
    cases hb : body s with
    | next s' =>
      obtain ⟨hI', hlt⟩ := hstep s s' hI hb
      exact iter_isSome I μ hstep hI' (by omega)
    | ret r s' => rfl

/-- A fallible fold keeps what each step keeps of the state and the elements seen. -/
theorem foldlM_inv {ε : Type} {f : σ → α → Except ε σ} (I : List α → σ → Prop)
    (hstep : ∀ {seen s a s'}, I seen s → f s a = .ok s' → I (seen ++ [a]) s') :
    ∀ {l seen : List α} {s s' : σ}, I seen s → l.foldlM f s = .ok s' → I (seen ++ l) s'
  | [], seen, s, s', hI, h => by
    obtain rfl : s = s' := Except.ok.inj h
    rwa [List.append_nil]
  | a :: l, seen, s, s', hI, h => by
    rw [List.foldlM_cons] at h
    cases hf : f s a with
    | error e => rw [hf] at h; cases h
    | ok t =>
      rw [hf] at h
      have := foldlM_inv I hstep (hstep hI hf) h
      rwa [List.append_assoc] at this

/-! ### Futures -/

/-- What one step of a fallible poll function owes: `I` when it goes on or answers `Pending`, `Q`
    when it is ready with a value. -/
def Ctrl.Ensures {ε : Type} (c : Ctrl σ (Poll (Except ε α))) (I : σ → Prop) (Q : α → σ → Prop) :
    Prop :=
  match c with
  | .next t => I t
  | .ret .pending t => I t
  | .ret (.ready (.ok a)) t => Q a t
  | .ret (.ready (.error _)) _ => True

/-- The future is ready with a value that has `p`. -/
def Ctrl.isOk {ε : Type} (p : α → Bool) : Ctrl σ (Poll (Except ε α)) → Bool
  | .ret (.ready (.ok a)) _ => p a
  | _ => false

variable {ε β : Type} {c : Ctrl σ (Poll (Except ε α))} {I J E : σ → Prop} {Q R : α → σ → Prop}

theorem Ctrl.isOk_iff {p : α → Bool} :
    c.isOk p = true ↔ ∃ a t, c = .ret (.ready (.ok a)) t ∧ p a = true := by
  rcases c with t | ⟨_ | _ | _, t⟩ <;> simp [isOk]

/-- A step that keeps `I` as long as the future is not ready. -/
abbrev Ctrl.Keeps (c : Ctrl σ (Poll (Except ε α))) (I : σ → Prop) : Prop :=
  c.Ensures I fun _ _ => True

theorem Ctrl.Ensures.mono (h : c.Ensures I Q) (hI : ∀ {t}, I t → J t)
    (hQ : ∀ {a t}, Q a t → R a t) : c.Ensures J R := by
  rcases c with t | ⟨_ | _ | _, t⟩
  · exact hI h
  · exact hI h
  · exact trivial
  · exact hQ h

theorem Ctrl.Ensures.and (h : c.Ensures I Q) (h' : c.Ensures J Q) :
    c.Ensures (fun t => I t ∧ J t) Q := by
  rcases c with t | ⟨_ | _ | _, t⟩
  · exact ⟨h, h'⟩
  · exact ⟨h, h'⟩
  · exact trivial
  · exact h

/-- The same, with what a step owes that fails. -/
def Ctrl.Settles (c : Ctrl σ (Poll (Except ε α))) (I : σ → Prop) (Q : α → σ → Prop)
    (E : σ → Prop) : Prop :=
  match c with
  | .next t => I t
  | .ret .pending t => I t
  | .ret (.ready (.ok a)) t => Q a t
  | .ret (.ready (.error _)) t => E t

theorem Ctrl.Settles.ensures (h : c.Settles I Q E) : c.Ensures I Q := by
  rcases c with t | ⟨_ | _ | _, t⟩
  · exact h
  · exact h
  · exact trivial
  · exact h

/-- Nothing is owed by a step that nothing is known of. -/
theorem Ctrl.ensures_true (c : Ctrl σ (Poll (Except ε α))) : c.Keeps (fun _ => True) := by
  rcases c with _ | ⟨_ | _ | _, _⟩ <;> exact trivial

/-- One step of an `await`: the inner future goes on inside the outer one, fails it, or hands its
    value to what follows. -/
def Ctrl.await {τ β ε ε' : Type} (c : Ctrl τ (Poll (Except ε α))) (wrap : τ → σ) (fail : ε → ε')
    (done : α → τ → Ctrl σ (Poll (Except ε' β))) : Ctrl σ (Poll (Except ε' β)) :=
  match c with
  | .next t => .next (wrap t)
  | .ret .pending t => .ret .pending (wrap t)
  | .ret (.ready (.error e)) t => .ret (.ready (.error (fail e))) (wrap t)
  | .ret (.ready (.ok a)) t => done a t

/-- The rule of `await`. -/
theorem Ctrl.Ensures.await {τ ε' : Type} {c : Ctrl τ (Poll (Except ε α))} {wrap : τ → σ}
    {fail : ε → ε'} {done : α → τ → Ctrl σ (Poll (Except ε' β))} {I : τ → Prop} {Q : α → τ → Prop}
    {R : β → σ → Prop} (h : c.Ensures I Q) (hwrap : ∀ {t}, I t → J (wrap t))
    (hdone : ∀ {a t}, Q a t → (done a t).Ensures J R) : (c.await wrap fail done).Ensures J R := by
  rcases c with t | ⟨_ | _ | _, t⟩
  · exact hwrap h
  · exact hwrap h
  · exact trivial
  · exact hdone h

/-- A poll function: its local variables are set by `enter`, its code is `body`. -/
structure Future (σ α : Type) where
  enter : σ → σ
  body : σ → Ctrl σ (Poll α)

namespace Future

/-- The program points of a run that is polled over and over; between two polls the owner of the
    future may change the state along `own`. -/
inductive VisitsWith (F : Future σ α) (own : σ → σ → Prop) (s : σ) : σ → Prop where
  | start : VisitsWith F own s (F.enter s)
  | next {t u : σ} : VisitsWith F own s t → F.body t = .next u → VisitsWith F own s u
  | repoll {t u v : σ} : VisitsWith F own s t → F.body t = .ret .pending u → own u v →
      VisitsWith F own s (F.enter v)

/-- The program points of a run whose owner does nothing but poll. -/
abbrev Visits (F : Future σ α) : σ → σ → Prop := F.VisitsWith Eq

/-- Some run gets to `Ready a` and leaves the state `t`. -/
def Completes (F : Future σ α) (s : σ) (a : α) (t : σ) : Prop :=
  ∃ u, F.Visits s u ∧ F.body u = .ret (.ready a) t

variable {F : Future σ (Except ε α)} {s t u : σ}

/-- What survives every step, every return and every move of the owner holds along the run. -/
theorem VisitsWith.inv {F : Future σ α} {own : σ → σ → Prop} (I : σ → Prop)
    (hstart : I (F.enter s)) (hnext : ∀ {t u}, I t → F.body t = .next u → I u)
    (hown : ∀ {t u v}, I t → F.body t = .ret .pending u → own u v → I (F.enter v))
    (h : F.VisitsWith own s t) : I t := by
  induction h with
  | start => exact hstart
  | next _ hb ih => exact hnext ih hb
  | repoll _ hb ho ih => exact hown ih hb ho

/-- The rule for a run that is only polled. -/
theorem Visits.inv {F : Future σ α} (I : σ → Prop)
    (hstart : I (F.enter s)) (hnext : ∀ {t u}, I t → F.body t = .next u → I u)
    (hpend : ∀ {t u}, I t → F.body t = .ret .pending u → I (F.enter u))
    (h : F.Visits s t) : I t := by
  refine VisitsWith.inv I hstart hnext ?_ h
  intro t u v hI hb ho
  rw [← ho]; exact hpend hI hb

/-- A run whose steps all ensure `I` visits states with `I` only. -/
theorem Visits.ensures (henter : ∀ {s}, I s → I (F.enter s))
    (hbody : ∀ {s}, I s → (F.body s).Ensures I Q) (hs : I s) (h : F.Visits s t) : I t := by
  refine Visits.inv I (henter hs) ?_ ?_ h
  · intro t u hI hb; have := hbody hI; rwa [hb] at this
  · intro t u hI hb
    have := hbody hI
    rw [hb] at this; exact henter this

variable {a : α} {P : σ → Prop}

/-- Partial correctness: a run that is ready with a value ends in `Q`. -/
theorem Completes.ensures (henter : ∀ {s}, I s → I (F.enter s))
    (hbody : ∀ {s}, I s → (F.body s).Ensures I Q) (hs : I s) (h : F.Completes s (.ok a) t) :
    Q a t := by
  obtain ⟨u, hv, hb⟩ := h
  have := hbody (Visits.ensures henter hbody hs hv)
  rwa [hb] at this

/-- One move of a run: a step, or the next poll. -/
inductive Moves (F : Future σ α) : σ → σ → Prop where
  | next {t u : σ} : F.body t = .next u → Moves F t u
  | repoll {t u : σ} : F.body t = .ret .pending u → Moves F t (F.enter u)

/-- A run from `s` to `t`, all of whose moves start in states with `P`. -/
def Runs (F : Future σ α) (P : σ → Prop) : σ → σ → Prop :=
  Relation.ReflTransGen fun t u => P t ∧ F.Moves t u

theorem Moves.ensures (henter : ∀ {s}, I s → I (F.enter s)) (hbody : (F.body t).Ensures I Q)
    (h : F.Moves t u) : I u := by
  cases h with
  | next hb => rw [hb] at hbody; exact hbody
  | repoll hb => rw [hb] at hbody; exact henter hbody

/-- What every move from a state with `P` keeps holds along the run. -/
theorem Runs.inv {F : Future σ α} (hs : I s) (hmove : ∀ {t u}, I t → P t → F.Moves t u → I u)
    (h : F.Runs P s t) : I t := by
  induction h with
  | refl => exact hs
  | tail _ hstep ih => exact hmove ih hstep.1 hstep.2

theorem Runs.step {F : Future σ α} (h : F.Runs P s t) (ht : P t) (hb : F.body t = .next u) :
    F.Runs P s u := h.tail ⟨ht, .next hb⟩

/-- The state after `n` moves, all of which start in states with `p`. -/
def afterWhile (F : Future σ α) (p : σ → Bool) : Nat → σ → Option σ
  | 0, s => some s
  | n + 1, s =>
    if p s then
      match F.body s with
      | .next t => afterWhile F p n t
      | .ret .pending t => afterWhile F p n (F.enter t)
      | .ret (.ready _) _ => none
    else none

theorem afterWhile_runs {F : Future σ α} {p : σ → Bool} (hp : ∀ s, p s = true → P s) :
    ∀ {n : Nat} {s t : σ}, F.afterWhile p n s = some t → F.Runs P s t
  | 0, s, t, h => by
    obtain rfl := Option.some.inj h
    exact .refl
  | n + 1, s, t, h => by
    unfold afterWhile at h
    split at h
    case isTrue hs =>
      split at h
      case h_1 u hb => exact (afterWhile_runs hp h).head ⟨hp s hs, .next hb⟩
      case h_2 u hb => exact (afterWhile_runs hp h).head ⟨hp s hs, .repoll hb⟩
      case h_3 => cases h
    case isFalse => cases h

/-- A future under observation: with every step the observer notes what it sees. -/
def watch (F : Future σ α) (note : β → σ → σ → β) : Future (σ × β) α where
  enter x := (F.enter x.1, x.2)
  body x :=
    match F.body x.1 with
    | .next t => .next (t, note x.2 x.1 t)
    | .ret r t => .ret r (t, note x.2 x.1 t)

/-- A move under observation. -/
theorem watch_moves {note : β → σ → σ → β} {x y : σ × β} (hbody : (F.body x.1).Ensures I Q)
    (h : (F.watch note).Moves x y) :
    ∃ t, I t ∧ y.2 = note x.2 x.1 t ∧ (y.1 = t ∨ y.1 = F.enter t) := by
  cases h with
  | next hb =>
    simp only [watch] at hb
    split at hb
    case h_1 t ht =>
      rw [ht] at hbody
      obtain rfl := Ctrl.next.inj hb
      exact ⟨t, hbody, rfl, .inl rfl⟩
    case h_2 => cases hb
  | repoll hb =>
    simp only [watch] at hb
    split at hb
    case h_1 => cases hb
    case h_2 r t ht =>
      obtain ⟨rfl, rfl⟩ := Ctrl.ret.inj hb
      rw [ht] at hbody
      exact ⟨t, hbody, rfl, .inr rfl⟩

/-- A future whose value is passed through a function. -/
def andThen (F : Future σ (Except ε α)) (g : α → Except ε β) :
    Future σ (Except ε β) where
  enter := F.enter
  body s :=
    match F.body s with
    | .next t => .next t
    | .ret .pending t => .ret .pending t
    | .ret (.ready (.error e)) t => .ret (.ready (.error e)) t
    | .ret (.ready (.ok a)) t => .ret (.ready (g a)) t

variable {g : α → Except ε β}

theorem andThen_visits (h : (F.andThen g).Visits s t) : F.Visits s t := by
  induction h with
  | start => exact .start
  | @next t u _ hb ih =>
    simp only [andThen] at hb
    split at hb <;> cases hb
    next hF => exact ih.next hF
  | @repoll t u v _ hb ho ih =>
    simp only [andThen] at hb
    split at hb <;> cases hb
    next hF => exact ih.repoll hF ho

theorem andThen_completes {b : β} (h : (F.andThen g).Completes s (.ok b) t) :
    ∃ a, F.Completes s (.ok a) t ∧ g a = .ok b := by
  obtain ⟨u, hv, hb⟩ := h
  simp only [andThen] at hb
  split at hb
  case h_4 a u' hF =>
    simp only [Ctrl.ret.injEq, Poll.ready.injEq] at hb
    rw [hb.2] at hF
    exact ⟨a, ⟨u, andThen_visits hv, hF⟩, hb.1⟩
  all_goals cases hb

/-- Poll until the future is ready, within a budget of steps. -/
def drive (F : Future σ α) : Nat → σ → Option (α × σ)
  | 0, _ => none
  | n + 1, s =>
    match F.body s with
    | .next t => drive F n t
    | .ret .pending t => drive F n (F.enter t)
    | .ret (.ready a) t => some (a, t)

theorem drive_completes {F : Future σ α} :
    ∀ {n : Nat} {u : σ}, F.Visits s u → F.drive n u = some (a, t) → F.Completes s a t
  | 0, _, _, h => by simp [drive] at h
  | n + 1, u, hv, h => by
    unfold drive at h
    split at h
    case h_1 u' hb => exact drive_completes (hv.next hb) h
    case h_2 u' hb => exact drive_completes (hv.repoll hb rfl) h
    case h_3 a' u' hb =>
      simp only [Option.some.injEq, Prod.mk.injEq] at h
      exact ⟨u, hv, by rw [hb, h.1, h.2]⟩

end Future

end Vey.Schemes

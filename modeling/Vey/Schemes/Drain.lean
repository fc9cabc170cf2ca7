import Vey.Schemes.Loop

/-! Reading to the end, and readers that cannot be told apart.

        caps   8   1   64 ...
        polls  ok  --  ok  ... until the reader is finished, or a poll fails

    The caller reads with buffers of the given sizes and stops at the first poll behind which the
    reader is finished, or at the first one that fails. Two readers whose loops go the same way, round
    by round, answer every poll alike, and are read alike to the end. -/

namespace Vey.Schemes

/-- How the reading stands when its buffers are used up. -/
inductive Ending where
  | going
  | finished
  | failed (e : IoError)
  deriving DecidableEq

section

variable {ρ ρ' : Type}

/-- What was handed over, the reader behind it, and how it ended. -/
def drain (poll : ρ → Nat → IoPoll Bytes × ρ) (finished : ρ → Bool) :
    List Nat → ρ → Bytes × ρ × Ending
  | [], r => ([], r, .going)
  | cap :: caps, r =>
    match poll r cap with
    | (.pending, r') => drain poll finished caps r'
    | (.ready (.error e), r') => ([], r', .failed e)
    | (.ready (.ok x), r') =>
      if finished r' then (x, r', .finished)
      else
        let (d, r'', ending) := drain poll finished caps r'
        (x ++ d, r'', ending)

variable {poll : ρ → Nat → IoPoll Bytes × ρ} {finished : ρ → Bool}
  {poll' : ρ' → Nat → IoPoll Bytes × ρ'} {finished' : ρ' → Bool}

/-- Readers that answer alike and stay related read alike to the end. -/
theorem drain_of_rel {R : ρ → ρ' → Prop} (hfin : ∀ {r q}, R r q → finished r = finished' q)
    (hpoll : ∀ {r q} (cap : Nat), R r q →
      (poll r cap).1 = (poll' q cap).1 ∧ R (poll r cap).2 (poll' q cap).2) (caps : List Nat) :
    ∀ {r q}, R r q →
      (drain poll finished caps r).1 = (drain poll' finished' caps q).1 ∧
      R (drain poll finished caps r).2.1 (drain poll' finished' caps q).2.1 ∧
      (drain poll finished caps r).2.2 = (drain poll' finished' caps q).2.2 := by
  induction caps with
  | nil => exact fun h => ⟨rfl, h, rfl⟩
  | cons cap caps ih =>
    intro r q h
    obtain ⟨hans, hrel⟩ := hpoll cap h
    rw [drain, drain]
    rcases hp : poll r cap with ⟨_ | ⟨e | x⟩, r'⟩
    all_goals
      rcases hq : poll' q cap with ⟨_ | ⟨e' | y⟩, q'⟩
      all_goals
        rw [hp, hq] at hans hrel
        cases hans
    · exact ih hrel
    · exact ⟨rfl, hrel, rfl⟩
    · dsimp only
      rw [← hfin hrel]
      split
      · exact ⟨rfl, hrel, rfl⟩
      · obtain ⟨hd, hr, he⟩ := ih hrel
        exact ⟨congrArg (x ++ ·) hd, hr, he⟩

end

/-! ### Loops that go the same way -/

section

variable {σ τ α : Type} {R : σ → τ → Prop}

/-- Two rounds do the same and leave related states. -/
def Ctrl.Alike (R : σ → τ → Prop) : Ctrl σ α → Ctrl τ α → Prop
  | .next s, .next t => R s t
  | .ret a s, .ret b t => a = b ∧ R s t
  | _, _ => False

theorem iter_getD_alike {body : σ → Ctrl σ α} {body' : τ → Ctrl τ α} {a : α}
    (hbody : ∀ {s t}, R s t → Ctrl.Alike R (body s) (body' t)) {s₀ : σ} {t₀ : τ} (h₀ : R s₀ t₀) :
    ∀ (n : Nat) {s t}, R s t →
      ((iter body n s).getD (a, s₀)).1 = ((iter body' n t).getD (a, t₀)).1 ∧
      R ((iter body n s).getD (a, s₀)).2 ((iter body' n t).getD (a, t₀)).2
  | 0, _, _, _ => ⟨rfl, h₀⟩
  | n + 1, s, t, h => by
    have hround := hbody h
    rw [iter, iter]
    cases hs : body s with
    | next s' =>
      cases ht : body' t with
      | next t' =>
        rw [hs, ht] at hround
        exact iter_getD_alike hbody h₀ n hround
      | ret b t' =>
        rw [hs, ht] at hround
        exact hround.elim
    | ret a s' =>
      cases ht : body' t with
      | next t' =>
        rw [hs, ht] at hround
        exact hround.elim
      | ret b t' =>
        rw [hs, ht] at hround
        exact hround

end

end Vey.Schemes

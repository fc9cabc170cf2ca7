import Mathlib

/-! `RateLimiter`: the generic cell rate algorithm on one stored time.

        ---- tat - max_burst_nanos ------------ tat ----> time
        reject        |       accept

    `tat` is when the next check is due. A check reads the clock first and updates `tat` later, so the
    readings need not come in order. -/

namespace Vey.Limit

/-- A burst, and the time it takes for one more. -/
structure RateLimitQuota where
  maxBurst : Nat
  replenishNanos : Nat
  maxBurst_pos : 0 < maxBurst
  replenish_pos : 0 < replenishNanos

structure RateLimiter where
  replenishNanos : Nat
  maxBurstNanos : Nat

namespace RateLimiter

def withState (quota : RateLimitQuota) : RateLimiter where
  replenishNanos := quota.replenishNanos
  -- `saturating_mul`
  maxBurstNanos := min ((quota.maxBurst - 1) * quota.replenishNanos) (2 ^ 64 - 1)

variable (r : RateLimiter)

/-- `GlobalRateLimitState::fetch_and_update`, which is atomic: the answer and the stored time. -/
def fetchAndUpdate (update : Nat → Except Nat Nat) (cur : Nat) : Except Nat Unit × Nat :=
  match update cur with
  | .ok next => (.ok (), next)
  | .error d => (.error d, cur)

/-- One check: it passes, or says how long to wait. -/
def checkWithT (nowNanos tat : Nat) : Except Nat Unit × Nat :=
  fetchAndUpdate (fun tat =>
    let earliestNanos := tat - r.maxBurstNanos
    if nowNanos < earliestNanos then .error (earliestNanos - nowNanos)
    else .ok (max tat nowNanos + r.replenishNanos)) tat

/-- The stored time behind checks with these readings, in the order in which they are applied. -/
def runChecks (tat : Nat) (nows : List Nat) : Nat :=
  nows.foldl (fun tat now => (r.checkWithT now tat).2) tat

/-- The readings of the checks that are accepted. -/
def accepted (tat : Nat) : List Nat → List Nat
  | [] => []
  | now :: nows =>
    let rest := accepted (r.checkWithT now tat).2 nows
    if (r.checkWithT now tat).1 matches .ok _ then now :: rest else rest

variable {r} {now tat : Nat}

/-- What one check can do. -/
theorem checkWithT_cases (r : RateLimiter) (now tat : Nat) :
    (now < tat - r.maxBurstNanos ∧
      r.checkWithT now tat = (.error (tat - r.maxBurstNanos - now), tat)) ∨
    (tat ≤ now + r.maxBurstNanos ∧
      r.checkWithT now tat = (.ok (), max tat now + r.replenishNanos)) := by
  by_cases h : now < tat - r.maxBurstNanos
  · exact .inl ⟨h, by simp [checkWithT, fetchAndUpdate, h]⟩
  · exact .inr ⟨by omega, by simp [checkWithT, fetchAndUpdate, h]⟩

/-- The stored time never goes back. -/
theorem le_runChecks (nows : List Nat) : ∀ tat, tat ≤ r.runChecks tat nows := by
  induction nows with
  | nil => exact fun tat => Nat.le_refl _
  | cons now nows ih =>
    intro tat
    refine Nat.le_trans ?_ (ih _)
    rcases checkWithT_cases r now tat with ⟨-, h⟩ | ⟨-, h⟩ <;> simp only [h] <;> omega

/-- As long as nothing is accepted the stored time stays. -/
theorem runChecks_of_accepted_nil (nows : List Nat) (h : r.accepted tat nows = []) :
    r.runChecks tat nows = tat := by
  induction nows with
  | nil => rfl
  | cons now nows ih =>
    rcases checkWithT_cases r now tat with ⟨-, hc⟩ | ⟨-, hc⟩ <;> simp [accepted, hc] at h
    simpa [runChecks, hc] using ih h

/-- Every accepted check of an interval from `a` on moves the stored time on by one cell. -/
theorem accepted_cells (a T : Nat) (nows : List Nat) : ∀ tat n,
    ((r.accepted tat nows).filter fun t => a ≤ t ∧ t ≤ a + T).length = n + 1 →
    max tat a + n * r.replenishNanos ≤ a + T + r.maxBurstNanos := by
  induction nows with
  | nil => intro tat n h; simp [accepted] at h
  | cons now nows ih =>
    intro tat n h
    rcases checkWithT_cases r now tat with ⟨-, hc⟩ | ⟨hle, hc⟩
    · exact ih tat n (by simpa [accepted, hc] using h)
    · simp only [accepted, hc, if_true, List.filter_cons] at h
      split at h
      case isTrue hin =>
        have hin : a ≤ now ∧ now ≤ a + T := by simpa using hin
        cases n with
        | zero => omega
        | succ n =>
          have := ih _ n (by simpa using h)
          rw [Nat.succ_mul]
          omega
      case isFalse =>
        have := ih _ n h
        omega

/-- The limiter bounds bursts, whatever the order in which the readings are applied. A rejected check
    changes nothing and tells the time at which a check succeeds, and before which none does. -/
theorem rate_bounded (quota : RateLimitQuota) (tat : Nat) (nows : List Nat) :
    let r := withState quota
    (∀ a T, ((r.accepted tat nows).filter fun t => a ≤ t ∧ t ≤ a + T).length ≤
      quota.maxBurst + T / quota.replenishNanos) ∧
    ∀ now d, (r.checkWithT now tat).1 = .error d →
      (r.checkWithT now tat).2 = tat ∧
      (r.accepted tat nows = [] →
        (r.checkWithT (now + d) (r.runChecks tat nows)).1 = .ok ()) ∧
      ∀ t < now + d, ∃ d', (r.checkWithT t (r.runChecks tat nows)).1 = .error d' := by
  intro r
  refine ⟨fun a T => ?_, fun now d h => ?_⟩
  · cases hn : ((r.accepted tat nows).filter fun t => a ≤ t ∧ t ≤ a + T).length with
    | zero => exact Nat.zero_le _
    | succ n =>
      have hcells : max tat a + n * quota.replenishNanos ≤ a + T + r.maxBurstNanos :=
        accepted_cells a T nows tat n hn
      have hburst : r.maxBurstNanos ≤ (quota.maxBurst - 1) * quota.replenishNanos :=
        Nat.min_le_left _ _
      have hdiv : n - (quota.maxBurst - 1) ≤ T / quota.replenishNanos := by
        rw [Nat.le_div_iff_mul_le quota.replenish_pos, Nat.sub_mul]
        omega
      have := quota.maxBurst_pos
      omega
  · rcases checkWithT_cases r now tat with ⟨hlt, hc⟩ | ⟨-, hc⟩ <;> rw [hc] at h <;> cases h
    refine ⟨by rw [hc], fun hnone => ?_, fun t ht => ?_⟩
    · rw [runChecks_of_accepted_nil nows hnone]
      rcases checkWithT_cases r (now + (tat - r.maxBurstNanos - now)) tat with ⟨h, -⟩ | ⟨-, h⟩
      · omega
      · rw [h]
    · have hle := le_runChecks (r := r) nows tat
      rcases checkWithT_cases r t (r.runChecks tat nows) with ⟨-, h⟩ | ⟨h, -⟩
      · exact ⟨_, by rw [h]⟩
      · omega

/-! ### The bucket that the stored time stands for -/

/-- The new limiter shares the stored time and the start of the clock. -/
def reload (_ : RateLimiter) (quota : RateLimitQuota) : RateLimiter := withState quota

/-- What is done with a reloadable limiter. -/
inductive Use where
  | check (nowNanos : Nat)
  | reload (quota : RateLimitQuota)

/-- The answers of the checks. -/
def answers (r : RateLimiter) (tat : Nat) : List Use → List (Except Nat Unit)
  | [] => []
  | .check now :: us => (r.checkWithT now tat).1 :: answers r (r.checkWithT now tat).2 us
  | .reload quota :: us => answers (r.reload quota) tat us

/-- A bucket that has leaked by one a nanosecond until `time`. -/
structure Bucket where
  level : Nat
  time : Nat

/-- A check pours one cell, if what is left of the others is within the burst. -/
def Bucket.check (r : RateLimiter) (b : Bucket) (now : Nat) : Except Nat Unit × Bucket :=
  let level := b.level - (now - b.time)
  if level ≤ r.maxBurstNanos then (.ok (), ⟨level + r.replenishNanos, now⟩)
  else (.error (level - r.maxBurstNanos), ⟨level, now⟩)

def Bucket.answers (r : RateLimiter) (b : Bucket) : List Use → List (Except Nat Unit)
  | [] => []
  | .check now :: us => (b.check r now).1 :: answers r (b.check r now).2 us
  | .reload quota :: us => answers (r.reload quota) b us

/-- The readings do not go back. -/
def InOrder (time : Nat) : List Use → Prop
  | [] => True
  | .check now :: us => time ≤ now ∧ InOrder now us
  | .reload _ :: us => InOrder time us

end RateLimiter

end Vey.Limit

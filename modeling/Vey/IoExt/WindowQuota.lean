import Vey.IoExt.FixedWindow
import Vey.Schemes.Steps

/-! How much a stream sends in one window of its local limit.

        time      |   window w    |  window w + 1  |
        check       n    n    wait................ n
        sent      [==][=====]                      [=== ...

    The limiter keeps no list of what was sent, and no window but the last one it looked at. The runs
    here keep what it forgets: the last answer and the bytes that were recorded, with the time of the
    check before. -/

namespace Vey.IoExt
open Schemes List

/-! ### Windows of time -/

namespace FixedWindow

variable {shift t u random : Nat} {curMillis : Option Nat}

/-- The shift that is used. -/
def capped (shift : Nat) : Nat := min shift rateLimitShiftMillisMax

theorem capped_eq (shift : Nat) :
    (if rateLimitShiftMillisMax < shift then rateLimitShiftMillisMax else shift) =
      capped shift := by
  unfold capped
  split <;> omega

/-- The window of a time, of `2 ^ shift` milliseconds. -/
def index (shift t : Nat) : Nat := t / 2 ^ capped shift

/-- The upper bits of a time are the start of its window. -/
theorem mask_and {s : Nat} (hs : s ≤ 64) (ht : t < 2 ^ 64) :
    ((2 ^ 64 - 1) ^^^ (2 ^ s - 1)) &&& t = 2 ^ s * (t / 2 ^ s) := by
  apply Nat.eq_of_testBit_eq
  intro i
  rw [Nat.testBit_and, Nat.testBit_xor, Nat.testBit_two_pow_sub_one, Nat.testBit_two_pow_sub_one,
    Nat.testBit_two_pow_mul, Nat.testBit_div_two_pow]
  rcases Nat.lt_or_ge i s with hlow | hhigh
  · have h64 : i < 64 := by omega
    simp [hlow, h64]
  · rw [Nat.sub_add_cancel hhigh]
    rcases Nat.lt_or_ge i 64 with h64 | h64
    · simp [h64, hhigh]
    · rw [Nat.testBit_lt_two_pow (ht.trans_le (Nat.pow_le_pow_right (by omega) h64))]
      simp

theorem capped_le (shift : Nat) : capped shift ≤ 64 :=
  (Nat.min_le_right _ _).trans (by decide)

theorem new_sliceId (ht : t < 2 ^ 64) :
    (new shift curMillis random).sliceId t =
      (2 ^ capped shift * index shift t + (new shift curMillis random).sliceIdOffset) % 2 ^ 64 := by
  simp only [sliceId, new, capped_eq, Nat.one_shiftLeft, mask_and (capped_le shift) ht, index]

theorem new_delay :
    (new shift curMillis random).delay t = 2 ^ capped shift - t % 2 ^ capped shift := by
  simp only [delay, new, capped_eq, Nat.one_shiftLeft]
  rw [Nat.and_comm, Nat.and_two_pow_sub_one_eq_mod]

/-- Two times have one slice id if they are in one window. -/
theorem new_sliceId_eq_iff (ht : t < 2 ^ 64) (hu : u < 2 ^ 64) :
    (new shift curMillis random).sliceId t =
        (new shift curMillis random).sliceId u ↔ index shift t = index shift u := by
  have hstart : ∀ {t}, t < 2 ^ 64 → 2 ^ capped shift * index shift t < 2 ^ 64 :=
    (Nat.mul_div_le _ _).trans_lt
  rw [new_sliceId ht, new_sliceId hu]
  -- the offset may carry an id over the end, but it moves all of them alike
  refine ⟨fun h => ?_, fun h => by rw [h]⟩
  exact Nat.mul_left_cancel (Nat.two_pow_pos _)
    ((Nat.ModEq.add_right_cancel' _ h).eq_of_lt_of_lt (hstart ht) (hstart hu))

/-- A delay ends where the next window starts. -/
theorem index_before_delay (hle : t ≤ u)
    (hlt : u < t + (2 ^ capped shift - t % 2 ^ capped shift)) : index shift u = index shift t := by
  have hpos : 0 < 2 ^ capped shift := Nat.two_pow_pos _
  have hmod := Nat.mod_add_div t (2 ^ capped shift)
  have hr := Nat.mod_lt t hpos
  refine le_antisymm (Nat.lt_succ_iff.mp ?_) (Nat.div_le_div_right hle)
  rw [index, Nat.div_lt_iff_lt_mul hpos, index, Nat.succ_mul, Nat.mul_comm]
  omega

theorem index_after_delay :
    index shift (t + (2 ^ capped shift - t % 2 ^ capped shift)) = index shift t + 1 := by
  have hpos : 0 < 2 ^ capped shift := Nat.two_pow_pos _
  have hmod := Nat.mod_add_div t (2 ^ capped shift)
  have hr := Nat.mod_lt t hpos
  have hstart : t + (2 ^ capped shift - t % 2 ^ capped shift) =
      2 ^ capped shift * (t / 2 ^ capped shift + 1) := by
    rw [Nat.mul_succ]
    omega
  rw [index, hstart, Nat.mul_div_cancel_left _ hpos, index]

end FixedWindow

/-! ### Runs -/

namespace LocalStreamLimiter
open FixedWindow

inductive Call where
  | check (curMillis toAdvance : Nat)
  | setAdvance (size : Nat)

/-- A limiter with what its user knows. -/
structure Metered where
  limiter : LocalStreamLimiter
  /-- the time of the last check -/
  now : Nat := 0
  /-- what is left of the size that the last check granted -/
  granted : Nat := 0
  /-- the sizes that were recorded -/
  sent : List (Nat × Nat) := []

/-- Time is in 64 bits and does not run backwards, and no more is sent than was granted. -/
def Metered.step (m : Metered) : Call → Option Metered
  | .check curMillis toAdvance =>
    if m.now ≤ curMillis ∧ curMillis < 2 ^ 64 then
      match m.limiter.check curMillis toAdvance with
      | (.advanceBy n, l) => some { m with limiter := l, now := curMillis, granted := n }
      | (_, l) => some { m with limiter := l, now := curMillis, granted := 0 }
    else none
  | .setAdvance size =>
    if size ≤ m.granted then
      some { m with
        limiter := m.limiter.setAdvance size
        granted := m.granted - size
        sent := (m.now, size) :: m.sent }
    else none

/-- The bytes that were sent in a window. -/
def bytesIn (shift w : Nat) : List (Nat × Nat) → Nat
  | [] => 0
  | (t, size) :: sent => (if index shift t = w then size else 0) + bytesIn shift w sent

/-! ### One call -/

variable {l : LocalStreamLimiter} {m m' : Metered} {shift maxBytes t u n w : Nat}

theorem enterSlice_inside (h : l.timeSliceId = l.window.sliceId t) : l.enterSlice t = l :=
  if_neg fun hne => hne h

theorem enterSlice_outside (h : l.timeSliceId ≠ l.window.sliceId t) :
    (l.enterSlice t).curBytes = 0 := by
  rw [enterSlice, if_pos h]

@[simp] theorem enterSlice_window : (l.enterSlice t).window = l.window := by
  unfold enterSlice
  split <;> rfl

@[simp] theorem enterSlice_maxBytes : (l.enterSlice t).maxBytes = l.maxBytes := by
  unfold enterSlice
  split <;> rfl

@[simp] theorem enterSlice_timeSliceId : (l.enterSlice t).timeSliceId = l.window.sliceId t := by
  unfold enterSlice
  split
  · rfl
  · exact not_not.mp ‹_›

theorem enterSlice_curBytes_le : (l.enterSlice t).curBytes ≤ l.curBytes := by
  unfold enterSlice
  split
  · exact Nat.zero_le _
  · exact le_rfl

theorem check_eq (l : LocalStreamLimiter) (t n : Nat) :
    l.check t n = if l.maxBytes - (l.enterSlice t).curBytes = 0 then
        (.delayFor (l.window.delay t), l.enterSlice t)
      else (.advanceBy (min n (l.maxBytes - (l.enterSlice t).curBytes)), l.enterSlice t) := by
  simp only [check, enterSlice_maxBytes, enterSlice_window]

/-- Nothing was sent in a window that has not started. -/
theorem bytesIn_future {now : Nat} {sent : List (Nat × Nat)} (hpast : ∀ e ∈ sent, e.1 ≤ now)
    (hw : index shift now < w) : bytesIn shift w sent = 0 := by
  induction sent with
  | nil => rfl
  | cons e sent ih =>
    have hle : index shift e.1 ≤ index shift now :=
      Nat.div_le_div_right (hpast e mem_cons_self)
    rw [bytesIn, if_neg (by omega), Nat.zero_add]
    exact ih fun e' he' => hpast e' (mem_cons_of_mem _ he')

theorem step_check (h : m.step (.check t n) = some m') :
    m.now ≤ t ∧ t < 2 ^ 64 ∧ m'.limiter = m.limiter.enterSlice t ∧ m'.now = t ∧
      m'.sent = m.sent ∧ m'.granted ≤ m.limiter.maxBytes - (m.limiter.enterSlice t).curBytes := by
  simp only [Metered.step, check_eq] at h
  split at h
  case isFalse => cases h
  case isTrue htime =>
    split at h <;> cases h
    case h_1 hcheck =>
      split at hcheck <;> cases hcheck
      exact ⟨htime.1, htime.2, rfl, rfl, rfl, Nat.min_le_right _ _⟩
    case h_2 hcheck =>
      split at hcheck <;> cases hcheck
      all_goals exact ⟨htime.1, htime.2, rfl, rfl, rfl, Nat.zero_le _⟩

theorem step_setAdvance {size : Nat} (h : m.step (.setAdvance size) = some m') :
    size ≤ m.granted ∧ m' =
      { m with
        limiter := m.limiter.setAdvance size
        granted := m.granted - size
        sent := (m.now, size) :: m.sent } := by
  simp only [Metered.step] at h
  split at h
  case isFalse => cases h
  case isTrue hsize => exact ⟨hsize, (Option.some.inj h).symm⟩

/-! ### The invariant -/

/-- A limiter as it is made, or as it is after a reset. -/
def Fresh (shift maxBytes : Nat) (l : LocalStreamLimiter) : Prop :=
  (∃ random, l = new shift maxBytes random) ∨
    ∃ old curMillis, l = reset old shift maxBytes curMillis

/-- What holds between two calls: the bytes counted for the current window cover what was sent in it,
    and what is left of the last grant. -/
structure Inv (shift maxBytes : Nat) (m : Metered) : Prop where
  window : ∃ curMillis random, m.limiter.window = .new shift curMillis random
  maxBytes_eq : m.limiter.maxBytes = maxBytes
  now_lt : m.now < 2 ^ 64
  past : ∀ e ∈ m.sent, e.1 ≤ m.now
  quota : ∀ w, bytesIn shift w m.sent ≤ maxBytes
  counted : ∀ t, m.now ≤ t → t < 2 ^ 64 →
    bytesIn shift (index shift t) m.sent ≤ (m.limiter.enterSlice t).curBytes
  room : m.limiter.curBytes + m.granted ≤ maxBytes
  entered : 0 < m.granted → m.limiter.timeSliceId = m.limiter.window.sliceId m.now

theorem Inv.sliceId_eq_iff (h : Inv shift maxBytes m) (ht : t < 2 ^ 64) (hu : u < 2 ^ 64) :
    m.limiter.window.sliceId t = m.limiter.window.sliceId u ↔ index shift t = index shift u := by
  obtain ⟨_, _, hw⟩ := h.window
  rw [hw]
  exact new_sliceId_eq_iff ht hu

theorem Fresh.inv (h : Fresh shift maxBytes l) : Inv shift maxBytes { limiter := l } := by
  have hl : (∃ curMillis random, l.window = .new shift curMillis random) ∧
      l.maxBytes = maxBytes ∧ l.curBytes = 0 := by
    obtain ⟨random, rfl⟩ | ⟨_, curMillis, rfl⟩ := h
    · exact ⟨⟨none, random, rfl⟩, rfl, rfl⟩
    · exact ⟨⟨some curMillis, 0, rfl⟩, rfl, rfl⟩
  exact
    { window := hl.1
      maxBytes_eq := hl.2.1
      now_lt := Nat.two_pow_pos _
      past := fun _ he => absurd he not_mem_nil
      quota := fun _ => Nat.zero_le _
      counted := fun _ _ _ => Nat.zero_le _
      room := by simp [hl.2.2]
      entered := fun hpos => absurd hpos (Nat.lt_irrefl 0) }

section

variable (h : Inv shift maxBytes m)

include h

theorem Inv.check (hstep : m.step (.check t n) = some m') : Inv shift maxBytes m' := by
  obtain ⟨hnow, ht, hl, hnow', hsent, hgranted⟩ := step_check hstep
  have hcur : (m.limiter.enterSlice t).curBytes ≤ maxBytes :=
    enterSlice_curBytes_le.trans ((Nat.le_add_right _ _).trans h.room)
  refine
    { window := by rw [hl, enterSlice_window]; exact h.window
      maxBytes_eq := by rw [hl, enterSlice_maxBytes]; exact h.maxBytes_eq
      now_lt := by rwa [hnow']
      past := fun e he => by rw [hsent] at he; exact hnow' ▸ (h.past e he).trans hnow
      quota := fun w => by rw [hsent]; exact h.quota w
      counted := fun u hle hu => ?_
      room := by rw [hl]; rw [h.maxBytes_eq] at hgranted; omega
      entered := fun _ => by rw [hl, enterSlice_timeSliceId, enterSlice_window, hnow'] }
  rw [hnow'] at hle
  rw [hsent, hl]
  -- a time in the window that the check entered, or in a later one
  by_cases hsame : index shift t = index shift u
  · have hid := (h.sliceId_eq_iff ht hu).mpr hsame
    rw [enterSlice_inside (by rw [enterSlice_timeSliceId, enterSlice_window, hid]), ← hsame]
    exact h.counted t hnow ht
  · have hlater : index shift m.now < index shift u := by
      have h1 : index shift m.now ≤ index shift t := Nat.div_le_div_right hnow
      have h2 : index shift t ≤ index shift u := Nat.div_le_div_right hle
      omega
    rw [bytesIn_future h.past hlater]
    exact Nat.zero_le _

theorem Inv.setAdvance {size : Nat} (hstep : m.step (.setAdvance size) = some m') :
    Inv shift maxBytes m' := by
  obtain ⟨hsize, rfl⟩ := step_setAdvance hstep
  have hroom := h.room
  have hinside : 0 < size →
      m.limiter.timeSliceId = m.limiter.window.sliceId m.now ∧
        bytesIn shift (index shift m.now) m.sent ≤ m.limiter.curBytes := by
    intro hpos
    have hin := h.entered (by omega)
    have := h.counted m.now le_rfl h.now_lt
    rw [enterSlice_inside hin] at this
    exact ⟨hin, this⟩
  refine
    { window := h.window
      maxBytes_eq := h.maxBytes_eq
      now_lt := h.now_lt
      past := forall_mem_cons.mpr ⟨le_rfl, h.past⟩
      quota := fun w => ?_
      counted := fun u hle hu => ?_
      room := by simp only [LocalStreamLimiter.setAdvance]; omega
      entered := fun hpos => h.entered (by simp at hpos; omega) }
  · have := h.quota w
    rcases Nat.eq_zero_or_pos size with rfl | hpos
    · simpa [bytesIn] using this
    · obtain ⟨_, hcounted⟩ := hinside hpos
      rw [bytesIn]
      split
      · subst w
        omega
      · omega
  · have hcounted := h.counted u hle hu
    rcases Nat.eq_zero_or_pos size with rfl | hpos
    · simpa [bytesIn, LocalStreamLimiter.setAdvance] using hcounted
    · obtain ⟨hin, hnow⟩ := hinside hpos
      rw [bytesIn]
      split
      case isTrue hsame =>
        have hid := (h.sliceId_eq_iff h.now_lt hu).mpr hsame
        have hstay : (m.limiter.setAdvance size).enterSlice u = m.limiter.setAdvance size :=
          enterSlice_inside (hin.trans hid)
        have hcur : (m.limiter.setAdvance size).curBytes = m.limiter.curBytes + size := rfl
        simp only [hstay, hcur, ← hsame]
        omega
      case isFalse hne =>
        have hlater : index shift m.now < index shift u :=
          lt_of_le_of_ne (Nat.div_le_div_right hle) hne
        rw [bytesIn_future h.past hlater]
        exact Nat.zero_le _

theorem Inv.step {c : Call} (hstep : m.step c = some m') : Inv shift maxBytes m' := by
  cases c with
  | check t n => exact h.check hstep
  | setAdvance size => exact h.setAdvance hstep

/-! ### Whole runs -/

/-- Until the delay is over nothing is granted, and then something is. -/
structure WaitExact (l : LocalStreamLimiter) (t d : Nat) : Prop where
  delayed : ∀ u n, t ≤ u → u < t + d → u < 2 ^ 64 → ∃ d', l.check u n = (.delayFor d', l)
  granted : t + d < 2 ^ 64 → ∀ n, 1 ≤ n → ∃ k, 1 ≤ k ∧ (l.check (t + d) n).1 = .advanceBy k

theorem Inv.waitExact (hmax : 1 ≤ maxBytes) (ht : t < 2 ^ 64) {d : Nat} {l' : LocalStreamLimiter}
    (hcheck : m.limiter.check t n = (.delayFor d, l')) : WaitExact l' t d := by
  rw [check_eq] at hcheck
  split at hcheck
  case isFalse => cases hcheck
  case isTrue hspent =>
    obtain ⟨hd, rfl⟩ := Prod.mk.inj hcheck
    obtain ⟨_, _, hwindow⟩ := h.window
    have hd' : d = 2 ^ capped shift - t % 2 ^ capped shift := by
      rw [← new_delay, ← hwindow]
      exact (StreamLimitAction.delayFor.inj hd).symm
    refine ⟨fun u n' hle hlt hu => ?_, fun hu n' hn => ?_⟩
    · have hsame : index shift u = index shift t := index_before_delay hle (hd' ▸ hlt)
      have hstay : (m.limiter.enterSlice t).enterSlice u = m.limiter.enterSlice t :=
        enterSlice_inside (by simpa using (h.sliceId_eq_iff ht hu).mpr hsame.symm)
      refine ⟨m.limiter.window.delay u, ?_⟩
      rw [check_eq, hstay, enterSlice_maxBytes, if_pos hspent, enterSlice_window]
    · have hnext : index shift (t + d) = index shift t + 1 := hd' ▸ index_after_delay
      have hnew : ((m.limiter.enterSlice t).enterSlice (t + d)).curBytes = 0 := by
        refine enterSlice_outside ?_
        rw [enterSlice_timeSliceId, enterSlice_window]
        intro hid
        have := (h.sliceId_eq_iff ht hu).mp hid
        omega
      rw [check_eq, hnew, enterSlice_maxBytes, h.maxBytes_eq, if_neg (by omega)]
      exact ⟨_, Nat.le_min.mpr ⟨hn, hmax⟩, rfl⟩

end

/-- From one reset to the next: no window gets more than its quota, the limiter never counts more than
    that, and its delays are exact. -/
theorem window_quota (hmax : 1 ≤ maxBytes) (hfresh : Fresh shift maxBytes l) {calls : List Call}
    (hrun : run Metered.step { limiter := l } calls = some m) :
    (∀ w, bytesIn shift w m.sent ≤ maxBytes) ∧
      (∀ t, (m.limiter.enterSlice t).curBytes ≤ m.limiter.maxBytes) ∧
      ∀ t n d l', m.now ≤ t → t < 2 ^ 64 → m.limiter.check t n = (.delayFor d, l') →
        WaitExact l' t d := by
  have h : Inv shift maxBytes m := run_inv (fun hI hs => hI.step hs) hfresh.inv hrun
  refine ⟨h.quota, fun t => ?_, fun t n d l' _ ht hcheck => h.waitExact hmax ht hcheck⟩
  rw [h.maxBytes_eq]
  exact enterSlice_curBytes_le.trans ((Nat.le_add_right _ _).trans h.room)

/-- 500 bytes twice, and a wait for the rest of the window. -/
theorem window_quota_thousand : ∃ m,
    run Metered.step { limiter := new 10 1000 3 }
      [.check 0 500, .setAdvance 500, .check 10 520, .setAdvance 500] = some m ∧
    bytesIn 10 0 m.sent = 1000 ∧ (∀ w, bytesIn 10 w m.sent ≤ 1000) ∧
    m.limiter.check 20 20 = (.delayFor 1004, m.limiter) ∧ WaitExact m.limiter 20 1004 := by
  refine exists_run (p := fun m => m.now ≤ 20 ∧ bytesIn 10 0 m.sent = 1000 ∧
    m.limiter.check 20 20 = (.delayFor 1004, m.limiter)) (by decide +kernel) fun m hrun hm => ?_
  obtain ⟨hquota, _, hwait⟩ := window_quota (by decide) (.inl ⟨3, rfl⟩) hrun
  exact ⟨hm.2.1, hquota, hm.2.2, hwait 20 20 1004 _ hm.1 (by decide) hm.2.2⟩

end LocalStreamLimiter

end Vey.IoExt

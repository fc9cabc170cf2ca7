import Vey.Schemes.Table

/-! `PeerHealth`: the recent connect failures of each peer.

        record    count  until              count  until
                  ------------|             ---------|
        now       ^ unavailable, if the              ^ expired: dropped when it is met
                    count is large enough

    A record is looked at with the time of the call. One that has expired is removed by whichever call
    meets it first; only `sweep_expired` says so. -/

namespace Vey.Escape
open Schemes

structure PeerHealthCheckConfig where
  maxFails : Nat
  failTimeout : Nat
  deriving DecidableEq

structure Failure where
  count : Nat
  untilTime : Nat

structure PeerHealth (α : Type) where
  strategy : PeerHealthCheckConfig
  inner : Table α Failure := ∅

/-- `saturating_add(1)` of a 32-bit counter. -/
def saturatingSucc (count : Nat) : Nat := if count < 2 ^ 32 - 1 then count + 1 else count

namespace PeerHealth

variable {α : Type} [DecidableEq α] (h : PeerHealth α) (peer : α) (now : Nat)

/-- Remove a failure record, and say whether the peer left the unavailable set. -/
def clearFailure : Bool × PeerHealth α :=
  (match h.inner.lookup peer with
    | some failure => decide (now < failure.untilTime ∧ h.strategy.maxFails ≤ failure.count)
    | none => false,
    { h with inner := h.inner.erase peer })

/-- Record one failed connect, and say whether the peer entered or left the unavailable set. -/
def recordFailure : Bool × PeerHealth α :=
  let entry := (h.inner.lookup peer).getD ⟨0, now⟩
  let wasUnavailable := decide (now < entry.untilTime ∧ h.strategy.maxFails ≤ entry.count)
  let entry : Failure :=
    if entry.untilTime ≤ now then ⟨1, now + h.strategy.failTimeout⟩
    else
      let count := saturatingSucc entry.count
      if h.strategy.maxFails ≤ count then ⟨count, now + h.strategy.failTimeout⟩
      else ⟨count, entry.untilTime⟩
  (wasUnavailable != decide (h.strategy.maxFails ≤ entry.count),
    { h with inner := h.inner.insert peer entry })

/-- `is_unhealthy` -/
def unavailable : Bool × PeerHealth α :=
  match h.inner.lookup peer with
  | some failure =>
    if now < failure.untilTime then (decide (h.strategy.maxFails ≤ failure.count), h)
    else (false, { h with inner := h.inner.erase peer })
  | none => (false, h)

/-- Drop expired records, and say whether an unavailable peer was removed. -/
def sweepExpired : Bool × PeerHealth α :=
  (h.inner.any fun _ failure =>
      decide (failure.untilTime ≤ now ∧ h.strategy.maxFails ≤ failure.count),
    { h with inner := h.inner.retain fun _ failure => decide (now < failure.untilTime) })

/-- The result of a connect. -/
def noteResult (connected : Bool) (now : Nat) : Bool × PeerHealth α :=
  if connected then h.clearFailure peer now else h.recordFailure peer now

/-- The failures, whether the peer is unavailable, and the time until it recovers. -/
def failureStatus : (Nat × Bool × Option Nat) × PeerHealth α :=
  match h.inner.lookup peer with
  | some failure =>
    if now < failure.untilTime then
      let unavailable := decide (h.strategy.maxFails ≤ failure.count)
      ((failure.count, unavailable,
        if unavailable then some (failure.untilTime - now) else none), h)
    else ((0, false, none), { h with inner := h.inner.erase peer })
  | none => ((0, false, none), h)

/-! ### What the records say -/

/-- A peer that is not to be selected at this time. -/
def isUnavailable (peer : α) : Bool :=
  (h.inner.lookup peer).any fun failure =>
    decide (now < failure.untilTime ∧ h.strategy.maxFails ≤ failure.count)

/-- A peer with enough failures in its record, be it expired or not. -/
def marked : Bool :=
  (h.inner.lookup peer).any fun failure => decide (h.strategy.maxFails ≤ failure.count)

/-- A peer that was unavailable, and whose record has expired and is still there. -/
def lapsed (peer : α) : Bool :=
  (h.inner.lookup peer).any fun failure =>
    decide (failure.untilTime ≤ now ∧ h.strategy.maxFails ≤ failure.count)

/-- No peer that was unavailable has an expired record. -/
def Swept : Prop := ∀ a, h.marked a = h.isUnavailable now a

variable {h} {now} {peer} {a : α}

theorem isUnavailable_eq : h.isUnavailable now a = (h.marked a && !h.lapsed now a) := by
  rw [isUnavailable, marked, lapsed]
  cases h.inner.lookup a with
  | none => rfl
  | some failure =>
    simp only [Option.any_some]
    by_cases hcount : h.strategy.maxFails ≤ failure.count <;>
    by_cases htime : now < failure.untilTime <;>
    simp [hcount, htime, Nat.not_le.mpr, Nat.not_lt.mp]

/-- `unavailable` answers for the time of the call, and removes a record that has expired. -/
theorem unavailable_fst : (h.unavailable peer now).1 = h.isUnavailable now peer := by
  rw [unavailable, isUnavailable]
  cases h.inner.lookup peer with
  | none => rfl
  | some failure =>
    by_cases htime : now < failure.untilTime <;> simp [htime]

theorem unavailable_strategy : (h.unavailable peer now).2.strategy = h.strategy := by
  rw [unavailable]
  split
  case h_1 => split <;> rfl
  case h_2 => rfl

theorem unavailable_lookup :
    (h.unavailable peer now).2.inner.lookup a =
      if a = peer then (h.inner.lookup a).filter fun f => decide (now < f.untilTime)
      else h.inner.lookup a := by
  rw [unavailable]
  by_cases hpeer : a = peer
  · subst hpeer
    rw [if_pos rfl]
    cases hl : h.inner.lookup a with
    | none => exact hl
    | some failure =>
      by_cases htime : now < failure.untilTime
      · simp [Option.filter_some, htime, hl]
      · simp [Option.filter_some, htime]
  · rw [if_neg hpeer]
    split
    case h_1 =>
      split
      case isTrue => rfl
      case isFalse => simp only [Table.lookup_erase, if_neg hpeer]
    case h_2 => rfl

/-- The mark of the peer is as good as the answer for this time, and no other mark is touched. -/
theorem unavailable_marked :
    (h.unavailable peer now).2.marked a =
      if a = peer then h.isUnavailable now a else h.marked a := by
  rw [marked, unavailable_strategy, unavailable_lookup, isUnavailable]
  by_cases hpeer : a = peer
  · rw [if_pos hpeer, if_pos hpeer]
    simp [Option.any_filter]
  · rw [if_neg hpeer, if_neg hpeer, marked]

/-- The answers for this time stay as they are. -/
theorem unavailable_isUnavailable :
    (h.unavailable peer now).2.isUnavailable now a = h.isUnavailable now a := by
  rw [isUnavailable, unavailable_strategy, unavailable_lookup, isUnavailable]
  by_cases hpeer : a = peer
  · rw [if_pos hpeer]
    simp [Option.any_filter]
  · rw [if_neg hpeer]

theorem failureStatus_snd : (h.failureStatus peer now).2 = (h.unavailable peer now).2 := by
  rw [failureStatus, unavailable]
  cases h.inner.lookup peer with
  | none => rfl
  | some failure =>
    by_cases htime : now < failure.untilTime <;> simp [htime]

theorem Swept.unavailable_marked (hs : h.Swept now) :
    (h.unavailable peer now).2.marked a = h.marked a := by
  rw [PeerHealth.unavailable_marked, hs a, ite_self]

theorem Swept.unavailable (hs : h.Swept now) : (h.unavailable peer now).2.Swept now := by
  intro a
  rw [hs.unavailable_marked, hs a, unavailable_isUnavailable]

/-- Behind a sweep, a mark is as good as the answer for this time. -/
theorem sweepExpired_marked : (h.sweepExpired now).2.marked a = h.isUnavailable now a := by
  rw [marked, isUnavailable, sweepExpired, Table.lookup_retain]
  simp [Option.any_filter]

theorem sweepExpired_isUnavailable :
    (h.sweepExpired now).2.isUnavailable now a = h.isUnavailable now a := by
  rw [isUnavailable, sweepExpired, Table.lookup_retain, isUnavailable]
  simp [Option.any_filter]

theorem sweepExpired_swept : (h.sweepExpired now).2.Swept now := by
  intro a
  rw [sweepExpired_marked, sweepExpired_isUnavailable]

theorem sweepExpired_fst : (h.sweepExpired now).1 = true ↔ ∃ a, h.lapsed now a = true := by
  rw [sweepExpired, Table.any_iff]
  refine exists_congr fun a => ?_
  rw [lapsed, Option.any_eq_true]

/-- A record is cleared: the answer is whether the peer was unavailable. -/
theorem clearFailure_fst : (h.clearFailure peer now).1 = h.isUnavailable now peer := by
  rw [clearFailure, isUnavailable]
  cases h.inner.lookup peer <;> rfl

theorem clearFailure_marked :
    (h.clearFailure peer now).2.marked a = if a = peer then false else h.marked a := by
  rw [marked, clearFailure, Table.lookup_erase, marked]
  by_cases hpeer : a = peer <;> simp [hpeer]

/-- A failure is recorded: the answer is whether the peer has become unavailable or not. -/
theorem recordFailure_fst :
    (h.recordFailure peer now).1 =
      (h.isUnavailable now peer != (h.recordFailure peer now).2.marked peer) := by
  have hwas : decide (now < ((h.inner.lookup peer).getD ⟨0, now⟩).untilTime ∧
      h.strategy.maxFails ≤ ((h.inner.lookup peer).getD ⟨0, now⟩).count) =
      h.isUnavailable now peer := by
    rw [isUnavailable]
    cases h.inner.lookup peer with
    | none => simp
    | some failure => rfl
  rw [marked, recordFailure, Table.lookup_insert, if_pos rfl, ← hwas]
  rfl

theorem recordFailure_marked (hne : a ≠ peer) :
    (h.recordFailure peer now).2.marked a = h.marked a := by
  rw [marked, recordFailure, Table.lookup_insert, if_neg hne, marked]

/-- A result that is reported as no change has changed no mark. -/
theorem Swept.noteResult_marked {connected : Bool} (hs : h.Swept now)
    (hno : ¬(h.noteResult peer connected now).1 = true) (a : α) :
    (h.noteResult peer connected now).2.marked a = h.marked a := by
  rw [Bool.not_eq_true] at hno
  cases connected with
  | true =>
    change (h.clearFailure peer now).1 = false at hno
    change (h.clearFailure peer now).2.marked a = h.marked a
    rw [clearFailure_fst] at hno
    rw [clearFailure_marked]
    split
    case isTrue ha => rw [ha, hs peer, hno]
    case isFalse => rfl
  | false =>
    change (h.recordFailure peer now).1 = false at hno
    change (h.recordFailure peer now).2.marked a = h.marked a
    rw [recordFailure_fst, bne_eq_false_iff_eq] at hno
    by_cases ha : a = peer
    · rw [ha, ← hno, hs peer]
    · exact recordFailure_marked ha

end PeerHealth

end Vey.Escape

import Vey.IoExt.DatagramReserve

/-! The part of a batch that a bucket admits, from any number of tokens.

        batch     | d₁ | d₂ | d₃ | d₄ | d₅ |
        packets   |-------- n -------|          taken first
        bytes     |--- B ----|                  then all of them, when they do not reach for n
                  |-- m --|                     the last datagram that was paid for
                          |<--- given back

    What is given back goes into a bucket that stops at its burst limit. A bucket may be above the
    limit, as the limit is lowered when the configuration is reloaded and the tokens stay. -/

namespace Vey.IoExt.GlobalDatagramLimiter
open Schemes

variable {g : GlobalDatagramLimiter} {v : List Nat}

section
variable [BinarySearch]

/-- The answer to a batch is its largest part that the tokens reach for, and they are taken for just
    this part. -/
def AdmitsLargest (g : GlobalDatagramLimiter) (v : List Nat) : Prop :=
  match g.checkPackets v with
  | (.advance k, g') =>
    0 < k ∧ k ≤ v.length ∧ g.Affords k (total v k) ∧
      (∀ m ≤ v.length, g.Affords m (total v m) → m ≤ k) ∧ g' = g.reserve k (total v k)
  | (.delayUntil _, g') => (∀ m ≤ v.length, g.Affords m (total v m) → m = 0) ∧ g' = g
  | (.delayFor _, _) => False

end

/-- There is room for what is given back: when the bytes do not reach for all of the datagrams that
    the packet tokens reach for, then some part of the batch that they reach for leaves the buckets
    at their burst limits or below. -/
def Refundable (g : GlobalDatagramLimiter) (v : List Nat) : Prop :=
  0 < g.config.replenishBytes → g.byteTokens < total v (g.reach v) →
    ∃ m ≤ g.reach v, total v m ≤ g.byteTokens ∧
      (0 < g.config.replenishPackets → g.packetTokens ≤ g.config.maxBurstPackets + m) ∧
      g.byteTokens ≤ g.config.maxBurstBytes + total v m

instance : Decidable (g.Refundable v) :=
  inferInstanceAs (Decidable (_ → _ → _))

/-! ### Giving back -/

/-- A bucket that paid for `n` gets back what it paid beyond `k`, if it has room for it. -/
theorem refill_beyond_iff {tokens n k : Nat} (burst : Nat) (hn : n ≤ tokens) (hk : k ≤ n)
    (hfit : tokens < 2 ^ 64) :
    refill (tokens - n) (n - k) burst = tokens - k ↔ k = n ∨ tokens ≤ burst + k := by
  have hsum : tokens - k = tokens - n + (n - k) := by omega
  rw [hsum, refill_eq_add_iff (by omega)]
  omega

/-- All the bytes and `n` packets were taken; all but `m` packets and their bytes are given back. -/
theorem refund_eq_reserve_iff (h0 : 0 < g.config.replenishBytes) {n m : Nat}
    (hn : g.Affords n 0) (hm : m < n) (hpaid : total v m ≤ g.byteTokens)
    (hpackets : g.packetTokens < 2 ^ 64) (hbytes : g.byteTokens < 2 ^ 64) :
    ((g.reserve n g.byteTokens).refundPackets (n - m)).refundBytes (g.byteTokens - total v m) =
        g.reserve m (total v m) ↔
      (0 < g.config.replenishPackets → g.packetTokens ≤ g.config.maxBurstPackets + m) ∧
        g.byteTokens ≤ g.config.maxBurstBytes + total v m := by
  have hb : refill 0 (g.byteTokens - total v m) g.config.maxBurstBytes =
      g.byteTokens - total v m ↔ g.byteTokens ≤ g.config.maxBurstBytes + total v m := by
    have := refill_beyond_iff g.config.maxBurstBytes le_rfl hpaid hbytes
    rw [Nat.sub_self] at this
    rw [this]
    omega
  by_cases hp : 0 < g.config.replenishPackets
  · have hpk := refill_beyond_iff g.config.maxBurstPackets (hn.1 hp) hm.le hpackets
    simp [refundPackets, refundBytes, addPackets, addBytes, reserve, pay, h0, hp, hb, hpk, hm.ne,
      and_comm]
  · simp [refundPackets, refundBytes, addBytes, reserve, pay, h0, hp, hb]

/-! ### The answer -/

section
variable [BinarySearch]

/-- The bytes reach for all of the datagrams that have packet tokens, or for some of them only. -/
theorem checkBytes_eq (hv : v.Pairwise (· ≤ ·)) (hfirst : 0 < total v 1) {n : Nat} (hpos : 0 < n)
    (hlen : n ≤ v.length) :
    if 0 < g.config.replenishBytes ∧ g.byteTokens < total v n then
      ∃ m < n, g.LastPaid v m ∧ (g.reserve n 0).checkBytes v n =
        (if 0 < m then .advance m else .delayUntil g.waitUntil,
          ((g.reserve n g.byteTokens).refundPackets (n - m)).refundBytes
            (g.byteTokens - total v m))
    else (g.reserve n 0).checkBytes v n = (.advance n, g.reserve n (total v n)) := by
  by_cases h0 : 0 < g.config.replenishBytes
  · simp only [checkBytes, reserve_byteTokens, reserve_config, h0, true_and]
    rcases Nat.lt_or_ge g.byteTokens (total v n) with hshort | henough
    · obtain ⟨m, hmn, hm, htrim⟩ := trimToBytes_eq hv hlen hshort
      rw [if_pos hshort]
      refine ⟨m, hmn, hm, ?_⟩
      by_cases hnone : g.byteTokens = 0
      · have hm0 : m = 0 := by
          have := hm.pos_iff
          omega
        subst hm0
        rw [if_pos trivial, if_pos hnone, if_neg (Nat.lt_irrefl 0), hnone, Nat.zero_sub,
          refundBytes_zero]
        rfl
      · have htook : g.byteTokens - (g.byteTokens - total v n) = g.byteTokens := by omega
        have hleft : g.byteTokens - total v n = g.byteTokens - g.byteTokens := by omega
        rw [if_pos trivial, if_neg hnone, htook, if_neg hshort.ne, hleft]
        exact (congrArg (trimToBytes · v n g.byteTokens) (reserve_bytes h0 n _)).trans htrim
    · have htook : g.byteTokens - (g.byteTokens - total v n) = total v n := by omega
      have := total_le_total hv (show 1 ≤ n from hpos) hlen
      rw [if_neg henough.not_gt, if_pos trivial, if_neg (by omega), htook, if_pos rfl]
      exact congrArg (Prod.mk _) (reserve_bytes h0 n _)
  · rw [if_neg fun h => h0 h.1, checkBytes, reserve_config, if_neg h0,
      reserve_unlimited h0 n (total v n)]

/-- From any tokens: the answer is exact when there is room for what is given back. -/
theorem admitsLargest_iff (hv : v.Pairwise (· < ·)) (hsizes : ∀ s ∈ v, 0 < s) (hne : v ≠ [])
    (hpackets : g.packetTokens < 2 ^ 64) (hbytes : g.byteTokens < 2 ^ 64) :
    g.AdmitsLargest v ↔ g.Refundable v := by
  have hle : v.Pairwise (· ≤ ·) := hv.imp fun h => h.le
  have hlen := List.length_pos_iff.mpr hne
  have hfirst : 0 < total v 1 := total_lt_total hv hsizes Nat.zero_lt_one hlen
  unfold AdmitsLargest
  rw [checkPackets_eq hne]
  by_cases hnone : g.reach v = 0
  · have hno : ∀ m ≤ v.length, g.Affords m (total v m) → m = 0 := by
      intro m hm h
      have := le_reach hm (h.mono le_rfl (Nat.zero_le _))
      omega
    rw [if_pos hnone]
    have hroom : g.Refundable v := by
      intro _ hshort
      rw [hnone] at hshort
      exact absurd hshort (Nat.not_lt_zero _)
    exact ⟨fun _ => hroom, fun _ => ⟨hno, rfl⟩⟩
  have hcheck := checkBytes_eq (g := g) hle hfirst (Nat.pos_of_ne_zero hnone) reach_le
  rw [if_neg hnone]
  by_cases hshort : 0 < g.config.replenishBytes ∧ g.byteTokens < total v (g.reach v)
  · rw [if_pos hshort] at hcheck
    obtain ⟨m, hmn, hm, hanswer⟩ := hcheck
    have hmost : ∀ j ≤ v.length, total v j ≤ g.byteTokens → j ≤ m := by
      intro j hj hpaid
      by_contra hgt
      have := total_lt_total hv hsizes (show m < j by omega) hj
      have := hm.last j hj hpaid
      omega
    have hroom : g.Refundable v ↔
        (0 < g.config.replenishPackets → g.packetTokens ≤ g.config.maxBurstPackets + m) ∧
          g.byteTokens ≤ g.config.maxBurstBytes + total v m := by
      constructor
      · intro h
        obtain ⟨j, hj, hpaid, hp, hb⟩ := h hshort.1 hshort.2
        have hjm := hmost j (hj.trans reach_le) hpaid
        have := total_le_total hle hjm (hmn.le.trans reach_le)
        exact ⟨fun h0 => (hp h0).trans (by omega), by omega⟩
      · rintro ⟨hp, hb⟩ _ _
        exact ⟨m, hmn.le, hm.paid, hp, hb⟩
    have hlast : ∀ j ≤ v.length, g.Affords j (total v j) → j ≤ m :=
      fun j hj h => hmost j hj (h.2 hshort.1)
    rw [hanswer, hroom, ← refund_eq_reserve_iff (v := v) hshort.1 reach_affords hmn hm.paid
      hpackets hbytes]
    rcases Nat.eq_zero_or_pos m with rfl | hpos
    · rw [if_neg (Nat.lt_irrefl 0), show total v 0 = 0 from rfl, reserve_zero]
      exact ⟨fun h => h.2, fun h => ⟨fun j hj haff => Nat.le_zero.mp (hlast j hj haff), h⟩⟩
    · rw [if_pos hpos]
      have haff : g.Affords m (total v m) :=
        ⟨(reach_affords.mono hmn.le le_rfl).1, fun _ => hm.paid⟩
      exact ⟨fun h => h.2.2.2.2, fun h => ⟨hpos, hmn.le.trans reach_le, haff, hlast, h⟩⟩
  · rw [if_neg hshort] at hcheck
    have haff : g.Affords (g.reach v) (total v (g.reach v)) :=
      ⟨reach_affords.1, fun h0 => Nat.not_lt.mp fun hlt => hshort ⟨h0, hlt⟩⟩
    have hlast : ∀ j ≤ v.length, g.Affords j (total v j) → j ≤ g.reach v :=
      fun j hj h => le_reach hj (h.mono le_rfl (Nat.zero_le _))
    rw [hcheck]
    exact ⟨fun _ h0 hlt => absurd ⟨h0, hlt⟩ hshort,
      fun _ => ⟨Nat.pos_of_ne_zero hnone, reach_le, haff, hlast, rfl⟩⟩

end

/-- The byte bucket is above its burst limit of 100. -/
def lowered : GlobalDatagramLimiter where
  config :=
    { replenishBytes := 100, replenishPackets := 10, maxBurstBytes := 100, maxBurstPackets := 10 }
  byteTokens := 1000
  packetTokens := 10

/-- Only 600 of the 1000 bytes are sent, and 300 of the other 400 are lost. -/
theorem lowered_not_admitsLargest : ¬lowered.AdmitsLargest [600, 1200] := by
  intro h
  have hcheck : lowered.checkPackets [600, 1200] =
      (.advance 1, { lowered with byteTokens := 100, packetTokens := 9 }) := by decide +kernel
  unfold AdmitsLargest at h
  rw [hcheck] at h
  exact absurd (congrArg byteTokens h.2.2.2.2) (by decide +kernel)

/-- The bucket before its limit was lowered. -/
def thousand : GlobalDatagramLimiter where
  config :=
    { replenishBytes := 100, replenishPackets := 10, maxBurstBytes := 1000, maxBurstPackets := 10 }
  byteTokens := 1000
  packetTokens := 10

theorem thousand_admitsLargest :
    thousand.Refundable [600, 1200] ∧ thousand.AdmitsLargest [600, 1200] := by
  have hroom : thousand.Refundable [600, 1200] := by decide +kernel
  exact ⟨hroom, (admitsLargest_iff (by decide) (by decide) (by decide) (by decide)
    (by decide)).mpr hroom⟩

end Vey.IoExt.GlobalDatagramLimiter

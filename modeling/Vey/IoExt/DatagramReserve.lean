import Vey.IoExt.DatagramLimit

/-! What the datagram buckets take and give back. -/

namespace Vey.IoExt
open Schemes List

/-! ### One bucket -/

theorem total_succ (v : List Nat) (n : Nat) : total v (n + 1) = v.getD n 0 := rfl

variable {v : List Nat} {m n : Nat}

/-- The sizes are cumulative. -/
theorem total_le_total (hv : v.Pairwise (· ≤ ·)) (hmn : m ≤ n) (hn : n ≤ v.length) :
    total v m ≤ total v n := by
  obtain _ | m := m
  · exact Nat.zero_le _
  obtain _ | n := n
  · omega
  rw [total_succ, total_succ, getD_eq_getElem _ _ (by omega), getD_eq_getElem _ _ (by omega)]
  rcases hmn.eq_or_lt with heq | hlt
  · simp only [Nat.succ.inj heq, le_refl]
  · exact pairwise_iff_getElem.mp hv _ _ _ _ (by omega)

/-- The sizes of datagrams that are not empty grow. -/
theorem total_lt_total (hv : v.Pairwise (· < ·)) (hpos : ∀ s ∈ v, 0 < s) (hmn : m < n)
    (hn : n ≤ v.length) : total v m < total v n := by
  obtain ⟨n, rfl⟩ := Nat.exists_eq_add_one_of_ne_zero (show n ≠ 0 by omega)
  rw [total_succ, getD_eq_getElem _ _ hn]
  obtain _ | m := m
  · exact hpos _ (getElem_mem _)
  · rw [total_succ, getD_eq_getElem _ _ (by omega)]
    exact pairwise_iff_getElem.mp hv _ _ _ _ (by omega)

theorem total_take (h : m ≤ n) : total (v.take n) m = total v m := by
  obtain _ | m := m
  · rfl
  · rw [total_succ, total_succ, getD_eq_getElem?_getD, getD_eq_getElem?_getD,
      getElem?_take_of_lt h]

namespace GlobalDatagramLimiter

variable (g : GlobalDatagramLimiter)

/-- The buckets are not above their burst limit. -/
structure Below : Prop where
  packets : g.packetTokens ≤ g.config.maxBurstPackets
  bytes : g.byteTokens ≤ g.config.maxBurstBytes

/-- There are tokens for so many packets and bytes, of the kinds that are limited. -/
def Affords (packets bytes : Nat) : Prop :=
  (0 < g.config.replenishPackets → packets ≤ g.packetTokens) ∧
    (0 < g.config.replenishBytes → bytes ≤ g.byteTokens)

instance (packets bytes : Nat) : Decidable (g.Affords packets bytes) :=
  inferInstanceAs (Decidable (_ ∧ _))

/-- The bucket with the tokens for so many packets and bytes taken. -/
def reserve (packets bytes : Nat) : GlobalDatagramLimiter :=
  { g with
    packetTokens := pay (0 < g.config.replenishPackets) g.packetTokens packets
    byteTokens := pay (0 < g.config.replenishBytes) g.byteTokens bytes }

variable {g}

@[simp] theorem reserve_zero : g.reserve 0 0 = g := by
  simp [reserve, pay]

@[simp] theorem reserve_config (p b : Nat) : (g.reserve p b).config = g.config := rfl

@[simp] theorem reserve_waitUntil (p b : Nat) : (g.reserve p b).waitUntil = g.waitUntil := rfl

variable {p b k : Nat}

theorem Affords.mono {p' b' : Nat} (h : g.Affords p b) (hp : p' ≤ p) (hb : b' ≤ b) :
    g.Affords p' b' :=
  ⟨fun h0 => hp.trans (h.1 h0), fun h0 => hb.trans (h.2 h0)⟩

theorem refundPackets_reserve (hg : g.Below) (h : g.Affords p b) (hk : k ≤ p) :
    (g.reserve p b).refundPackets k = g.reserve (p - k) b := by
  by_cases h0 : 0 < g.config.replenishPackets
  · have hp := h.1 h0
    have := hg.packets
    simp only [refundPackets, reserve, pay, addPackets, if_pos h0]
    rw [refill_back (by omega) g.config.packetsFit]
    congr 1
    omega
  · simp only [refundPackets, reserve, pay, if_neg h0]

theorem refundBytes_reserve (hg : g.Below) (h : g.Affords p b) (hk : k ≤ b) :
    (g.reserve p b).refundBytes k = g.reserve p (b - k) := by
  by_cases h0 : 0 < g.config.replenishBytes
  · have hb := h.2 h0
    have := hg.bytes
    simp only [refundBytes, reserve, pay, addBytes, if_pos h0]
    rw [refill_back (by omega) g.config.bytesFit]
    congr 1
    omega
  · simp only [refundBytes, reserve, pay, if_neg h0]

theorem refundBytes_zero : g.refundBytes 0 = g := by
  unfold refundBytes addBytes
  split
  · rw [refill_zero g.config.bytesFit]
  · rfl

/-- Taking the tokens of one kind after those of the other. -/
theorem reserve_packets (h0 : 0 < g.config.replenishPackets) (p : Nat) :
    { g with packetTokens := g.packetTokens - p } = g.reserve p 0 := by
  simp [reserve, pay, h0]

theorem reserve_bytes (h0 : 0 < g.config.replenishBytes) (p b : Nat) :
    { g.reserve p 0 with byteTokens := g.byteTokens - b } = g.reserve p b := by
  simp [reserve, pay, h0]

theorem reserve_unlimited (h0 : ¬0 < g.config.replenishBytes) (p b : Nat) :
    g.reserve p 0 = g.reserve p b := by
  simp [reserve, pay, h0]

theorem reserve_byteTokens (p : Nat) : (g.reserve p 0).byteTokens = g.byteTokens := by
  simp [reserve, pay]

/-- The packet tokens are taken first, and given back when the byte tokens do not reach. -/
theorem checkPacket_eq (hg : g.Below) (size : Nat) :
    g.checkPacket size =
      if g.Affords 1 size then (.advance 1, g.reserve 1 size)
      else (.delayUntil g.waitUntil, g) := by
  have hpay : (if 0 < g.config.replenishPackets then
      { g with packetTokens := g.packetTokens - 1 } else g) = g.reserve 1 0 := by
    by_cases h0 : 0 < g.config.replenishPackets
    · rw [if_pos h0, reserve_packets h0]
    · simp [reserve, pay, h0]
  by_cases hnone : 0 < g.config.replenishPackets ∧ g.packetTokens = 0
  · have hno : ¬g.Affords 1 size := by
      intro h
      have := h.1 hnone.1
      omega
    simp only [checkPacket, if_pos hnone, if_neg hno]
  have hone : g.Affords 1 0 := ⟨by omega, by omega⟩
  simp only [checkPacket, if_neg hnone, hpay, reserve_byteTokens, reserve_config, reserve_waitUntil]
  by_cases hshort : 0 < g.config.replenishBytes ∧ g.byteTokens < size
  · have hno : ¬g.Affords 1 size := by
      intro h
      have := h.2 hshort.1
      omega
    rw [if_pos hshort, if_neg hno, refundPackets_reserve hg hone le_rfl, Nat.sub_self, reserve_zero]
  · have hyes : g.Affords 1 size := ⟨hone.1, by omega⟩
    rw [if_neg hshort, if_pos hyes]
    by_cases h0 : 0 < g.config.replenishBytes
    · rw [if_pos h0]
      exact congrArg (Prod.mk _) (reserve_bytes h0 1 size)
    · rw [if_neg h0, reserve_unlimited h0]

variable (g)

/-- The answer for a batch takes the tokens of the largest part of it that can be paid for. -/
structure Grants (v : List Nat) (n : Nat) : Prop where
  pos : 0 < n
  le : n ≤ v.length
  affords : g.Affords n (total v n)
  largest : ∀ m, m ≤ v.length → g.Affords m (total v m) → total v m ≤ total v n

/-- The packet tokens reach for so many datagrams of a batch. -/
def reach (v : List Nat) : Nat :=
  if 0 < g.config.replenishPackets then min g.packetTokens v.length else v.length

variable {g}

theorem reach_le : g.reach v ≤ v.length := by
  unfold reach
  split <;> omega

theorem reach_affords : g.Affords (g.reach v) 0 := by
  refine ⟨fun h => ?_, fun _ => Nat.zero_le _⟩
  rw [reach, if_pos h]
  exact Nat.min_le_left _ _

theorem le_reach (hm : m ≤ v.length) (h : g.Affords m 0) : m ≤ g.reach v := by
  unfold reach
  split
  · exact Nat.le_min.mpr ⟨h.1 ‹_›, hm⟩
  · exact hm

section
variable [BinarySearch]

/-- The last datagram of a batch that the byte tokens reach for; without one it is none. -/
structure LastPaid (g : GlobalDatagramLimiter) (v : List Nat) (m : Nat) : Prop where
  paid : total v m ≤ g.byteTokens
  last : ∀ j ≤ v.length, total v j ≤ g.byteTokens → total v j ≤ total v m
  pos_iff : 0 < m ↔ total v 1 ≤ g.byteTokens

/-- The bytes reach for some of the `k` datagrams only: the batch is cut at the last datagram they
    reach for, and the tokens beyond it are given back. -/
theorem trimToBytes_eq (hv : v.Pairwise (· ≤ ·)) (hlen : k ≤ v.length)
    (hshort : g.byteTokens < total v k) :
    ∃ m < k, g.LastPaid v m ∧ (g.reserve k g.byteTokens).trimToBytes v k g.byteTokens =
      (if 0 < m then .advance m else .delayUntil g.waitUntil,
        ((g.reserve k g.byteTokens).refundPackets (k - m)).refundBytes
          (g.byteTokens - total v m)) := by
  have hbefore : ∀ m ≤ v.length, total v m ≤ g.byteTokens → m < k := by
    intro m hm hle
    by_contra hgt
    have := total_le_total hv (show k ≤ m by omega) hm
    omega
  cases hi : BinarySearch.search v g.byteTokens with
  | ok i =>
    obtain ⟨hlt, hat⟩ := List.getElem?_eq_some_iff.mp (BinarySearch.ok hi)
    have hend : total v (i + 1) = g.byteTokens := by
      rw [total_succ, getD_eq_getElem _ _ hlt, hat]
    have hfirst := total_le_total hv (show 1 ≤ i + 1 by omega) hlt
    refine ⟨i + 1, hbefore _ hlt hend.le, ⟨hend.le, fun j _ h => h.trans hend.ge, by omega⟩, ?_⟩
    simp only [trimToBytes, hi, if_pos (Nat.succ_pos i), hend, Nat.sub_self]
    rw [refundBytes_zero, Nat.sub_sub]
  | error i =>
    obtain ⟨hile, hsmall, hlarge⟩ := BinarySearch.error hv hi
    have hlast : ∀ j ≤ v.length, total v j ≤ g.byteTokens → j ≤ i := by
      rintro (_ | q) hq hle
      · exact Nat.zero_le _
      · by_contra hgt
        have := hlarge q (by omega) hq
        rw [total_succ] at hle
        omega
    obtain _ | j := i
    · have hfirst : g.byteTokens < total v 1 := by
        by_contra hge
        have := hlast 1 (by have := hbefore 0 (Nat.zero_le _) (Nat.zero_le _); omega) (by omega)
        omega
      refine ⟨0, hbefore 0 (Nat.zero_le _) (Nat.zero_le _),
        ⟨Nat.zero_le _, fun j hj h => ?_, by omega⟩, ?_⟩
      · rw [Nat.le_zero.mp (hlast j hj h)]
      · simp only [trimToBytes, hi]
        rfl
    have hend : total v (j + 1) < g.byteTokens := hsmall j (by omega)
    have hfirst := total_le_total hv (show 1 ≤ j + 1 by omega) hile
    refine ⟨j + 1, hbefore _ hile hend.le,
      ⟨hend.le, fun q hq h => total_le_total hv (hlast q hq h) hile, by omega⟩, ?_⟩
    simp only [trimToBytes, hi, if_pos (Nat.succ_pos j)]

/-- The bytes reach for `s` only: the batch is cut at a datagram that ends there, or at the last one
    that ends before. -/
theorem trimToBytes_spec (hg : g.Below) (hv : v.Pairwise (· ≤ ·)) (h0 : 0 < g.config.replenishBytes)
    (hk : g.Affords k g.byteTokens) (hlen : k ≤ v.length) (hshort : g.byteTokens < total v k) :
    if g.byteTokens < total v 1 then
      (g.reserve k g.byteTokens).trimToBytes v k g.byteTokens = (.delayUntil g.waitUntil, g)
    else ∃ n, g.Grants v n ∧ (g.reserve k g.byteTokens).trimToBytes v k g.byteTokens =
      (.advance n, g.reserve n (total v n)) := by
  obtain ⟨m, hmk, hm, htrim⟩ := trimToBytes_eq hv hlen hshort
  have hback : ((g.reserve k g.byteTokens).refundPackets (k - m)).refundBytes
      (g.byteTokens - total v m) = g.reserve m (total v m) := by
    rw [refundPackets_reserve hg hk (by omega), Nat.sub_sub_self hmk.le,
      refundBytes_reserve hg (hk.mono hmk.le le_rfl) (by omega), Nat.sub_sub_self hm.paid]
  rw [htrim, hback]
  rcases Nat.eq_zero_or_pos m with rfl | hpos
  · have hfirst : g.byteTokens < total v 1 := by
      have := hm.pos_iff
      omega
    rw [if_pos hfirst, if_neg (Nat.lt_irrefl 0)]
    exact congrArg (Prod.mk _) reserve_zero
  · rw [if_neg (Nat.not_lt.mpr (hm.pos_iff.mp hpos)), if_pos hpos]
    exact ⟨m, ⟨hpos, by omega, hk.mono hmk.le hm.paid, fun j hj h => hm.last j hj (h.2 h0)⟩, rfl⟩

/-- The bytes of the `k` datagrams for which there are packet tokens. -/
theorem checkBytes_spec (hg : g.Below) (hv : v.Pairwise (· ≤ ·)) (hpos : 0 < k) (hk : g.Affords k 0)
    (hlen : k ≤ v.length) (hmost : ∀ m, m ≤ v.length → g.Affords m 0 → m ≤ k) :
    if g.Affords 1 (max 1 (total v 1)) then
      ∃ n, g.Grants v n ∧ (g.reserve k 0).checkBytes v k = (.advance n, g.reserve n (total v n))
    else (g.reserve k 0).checkBytes v k = (.delayUntil g.waitUntil, g) := by
  have hlargest : ∀ m, m ≤ v.length → g.Affords m (total v m) → total v m ≤ total v k :=
    fun m hm h => total_le_total hv (hmost m hm (h.mono le_rfl (Nat.zero_le _))) hlen
  by_cases h0 : 0 < g.config.replenishBytes
  · have hfirst := total_le_total hv (show 1 ≤ k from hpos) hlen
    simp only [checkBytes, reserve_byteTokens]
    rw [if_pos (show 0 < (g.reserve k 0).config.replenishBytes from h0)]
    by_cases hnone : g.byteTokens = 0
    · have hno : ¬g.Affords 1 (max 1 (total v 1)) := by
        intro h
        have := h.2 h0
        omega
      rw [if_neg hno, if_pos hnone, refundPackets_reserve hg hk le_rfl, Nat.sub_self, reserve_zero]
      rfl
    rw [if_neg hnone]
    rcases Nat.lt_or_ge g.byteTokens (total v k) with hshort | henough
    · have htook : g.byteTokens - (g.byteTokens - total v k) = g.byteTokens := by omega
      have hwhole := reserve_bytes h0 k g.byteTokens
      have hleft : g.byteTokens - total v k = g.byteTokens - g.byteTokens := by omega
      rw [htook, if_neg hshort.ne, hleft, hwhole]
      have htrim := trimToBytes_spec hg hv h0 (k := k) ⟨hk.1, fun _ => le_rfl⟩ hlen hshort
      by_cases hlt : g.byteTokens < total v 1
      · have hno : ¬g.Affords 1 (max 1 (total v 1)) := by
          intro h
          have := h.2 h0
          omega
        rw [if_pos hlt] at htrim
        rwa [if_neg hno]
      · have hyes : g.Affords 1 (max 1 (total v 1)) :=
          ⟨(hk.mono hpos le_rfl).1, fun _ => by omega⟩
        rw [if_neg hlt] at htrim
        rwa [if_pos hyes]
    · have htook : g.byteTokens - (g.byteTokens - total v k) = total v k := by omega
      have hyes : g.Affords 1 (max 1 (total v 1)) :=
        ⟨(hk.mono hpos le_rfl).1, fun _ => by omega⟩
      rw [htook, if_pos rfl, if_pos hyes]
      refine ⟨k, ⟨hpos, hlen, ⟨hk.1, fun _ => henough⟩, hlargest⟩, ?_⟩
      exact congrArg (Prod.mk _) (reserve_bytes h0 k (total v k))
  · have hyes : g.Affords 1 (max 1 (total v 1)) :=
      ⟨(hk.mono hpos le_rfl).1, fun h => absurd h h0⟩
    rw [if_pos hyes]
    refine ⟨k, ⟨hpos, hlen, ⟨hk.1, fun h => absurd h h0⟩, hlargest⟩, ?_⟩
    rw [checkBytes, if_neg (show ¬0 < (g.reserve k 0).config.replenishBytes from h0),
      reserve_unlimited h0 k (total v k)]

/-- The packet tokens are taken before the bytes are looked at. -/
theorem checkPackets_eq (hne : v ≠ []) :
    g.checkPackets v = if g.reach v = 0 then (.delayUntil g.waitUntil, g)
      else (g.reserve (g.reach v) 0).checkBytes v (g.reach v) := by
  have hlen := length_pos_iff.mpr hne
  rw [checkPackets, if_neg hne]
  by_cases h0 : 0 < g.config.replenishPackets
  · rw [if_pos h0, reach, if_pos h0]
    by_cases hnone : g.packetTokens = 0
    · rw [if_pos hnone, hnone, Nat.zero_min, if_pos rfl]
    · have htook : g.packetTokens - (g.packetTokens - v.length) = min g.packetTokens v.length := by
        omega
      have hleft : g.packetTokens - v.length = g.packetTokens - min g.packetTokens v.length := by
        omega
      simp only [if_neg hnone, htook]
      rw [hleft, reserve_packets h0, if_neg (by omega)]
  · have hall : g.reserve v.length 0 = g := by simp [reserve, pay, h0]
    rw [if_neg h0, reach, if_neg h0, hall, if_neg (by omega)]

/-- A batch is granted when there are tokens for its first datagram, and at least one byte. -/
theorem checkPackets_spec (hg : g.Below) (hv : v.Pairwise (· ≤ ·)) (hne : v ≠ []) :
    if g.Affords 1 (max 1 (total v 1)) then
      ∃ n, g.Grants v n ∧ g.checkPackets v = (.advance n, g.reserve n (total v n))
    else g.checkPackets v = (.delayUntil g.waitUntil, g) := by
  have hlen := length_pos_iff.mpr hne
  rw [checkPackets_eq hne]
  by_cases hnone : g.reach v = 0
  · have hno : ¬g.Affords 1 (max 1 (total v 1)) := by
      intro h
      have := le_reach (v := v) hlen (h.mono le_rfl (Nat.zero_le _))
      omega
    rw [if_neg hno, if_pos hnone]
  · rw [if_neg hnone]
    exact checkBytes_spec hg hv (Nat.pos_of_ne_zero hnone) reach_affords reach_le
      fun m hm h => le_reach hm h

end

end GlobalDatagramLimiter

end Vey.IoExt

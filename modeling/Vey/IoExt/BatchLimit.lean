import Vey.IoExt.DatagramReserve

/-! One check for a batch, or one for each of its datagrams.

        sizes     s₀   s₁    s₂     s₃
        batch     s₀   s₀₁   s₀₁₂   s₀₁₂₃        one binary search
        single    +    +     -                   check, record, check, record, check

    Both stop at the first datagram that is beyond the packets or the bytes of the window. The first
    datagram of a window passes whatever its size. -/

namespace Vey.IoExt

open List BinarySearch

/-- The cumulative sizes of a batch. -/
def totalSizes : List Nat → List Nat
  | [] => []
  | s :: ss => s :: (totalSizes ss).map (s + ·)

@[simp] theorem length_totalSizes (sizes : List Nat) : (totalSizes sizes).length = sizes.length := by
  induction sizes with
  | nil => rfl
  | cons s ss ih => simp [totalSizes, ih]

theorem totalSizes_pos {sizes : List Nat} (h : ∀ s ∈ sizes, 0 < s) :
    ∀ s ∈ totalSizes sizes, 0 < s := by
  cases sizes with
  | nil => simp [totalSizes]
  | cons s ss =>
    have := h s mem_cons_self
    simp only [totalSizes, mem_cons, mem_map]
    rintro _ (rfl | ⟨t, _, rfl⟩) <;> omega

theorem totalSizes_increasing {sizes : List Nat} (h : ∀ s ∈ sizes, 0 < s) :
    (totalSizes sizes).Pairwise (· < ·) := by
  induction sizes with
  | nil => exact Pairwise.nil
  | cons s ss ih =>
    have hss : ∀ s ∈ ss, 0 < s := fun t ht => h t (mem_cons_of_mem _ ht)
    refine Pairwise.cons ?_ ?_
    · simp only [mem_map]
      rintro _ ⟨t, ht, rfl⟩
      exact Nat.lt_add_of_pos_right (totalSizes_pos hss t ht)
    · exact (ih hss).map _ fun _ _ hlt => Nat.add_lt_add_left hlt s

theorem total_totalSizes_cons (s : Nat) {ss : List Nat} {q : Nat} (hq : q ≤ ss.length) :
    total (totalSizes (s :: ss)) (q + 1) = s + total (totalSizes ss) q := by
  obtain _ | q := q
  · rfl
  · have hlt : q < (totalSizes ss).length := (length_totalSizes ss).symm ▸ hq
    rw [total_succ, total_succ, totalSizes, getD_cons_succ, getD_eq_getElem _ _ hlt,
      getD_eq_getElem _ _ (by simpa using hlt), getElem_map]

namespace LocalDatagramLimiter

variable {l : LocalDatagramLimiter} {t : Nat} {sizes v : List Nat}

/-- How many datagrams are admitted when each is checked, and recorded, before the next one. -/
def admitted (l : LocalDatagramLimiter) (curMillis : Nat) : List Nat → Nat
  | [] => 0
  | s :: ss =>
    match l.checkPacket curMillis s with
    | (.advance _, l') => (l'.setAdvance 1 s).admitted curMillis ss + 1
    | (_, _) => 0

/-- The two ways to check a batch give the same answer. -/
structure Agrees [BinarySearch] (l : LocalDatagramLimiter) (t : Nat) (sizes : List Nat) :
    Prop where
  advance : ∀ k, 1 ≤ k →
    ((l.checkPackets t (totalSizes sizes)).1 = .advance k ↔ l.admitted t sizes = k)
  delay : ∀ s ∈ sizes.head?, l.admitted t sizes = 0 →
    (l.checkPackets t (totalSizes sizes)).1 = (l.checkPacket t s).1

/-! ### One datagram behind others of the batch -/

@[simp] theorem enterSlice_window : (l.enterSlice t).window = l.window := by
  unfold enterSlice
  split <;> rfl

@[simp] theorem enterSlice_maxPackets : (l.enterSlice t).maxPackets = l.maxPackets := by
  unfold enterSlice
  split <;> rfl

@[simp] theorem enterSlice_maxBytes : (l.enterSlice t).maxBytes = l.maxBytes := by
  unfold enterSlice
  split <;> rfl

variable (l)

/-- There is room for datagram `q` of a batch behind those before it. -/
def HasRoom (v : List Nat) (q : Nat) : Prop :=
  ¬(0 < l.maxPackets ∧ l.maxPackets ≤ l.curPackets + q) ∧
    ¬(0 < l.maxBytes ∧ 0 < l.curBytes + total v q ∧ l.maxBytes < l.curBytes + total v (q + 1))

instance (q : Nat) : Decidable (l.HasRoom v q) :=
  inferInstanceAs (Decidable (_ ∧ _))

/-- The limiter has entered the slice of time `t`. -/
def Inside (t : Nat) : Prop := l.timeSliceId = l.window.sliceId t

variable {l}

theorem Inside.enterSlice (h : l.Inside t) : l.enterSlice t = l :=
  if_neg fun hne => hne h

theorem inside_enterSlice : (l.enterSlice t).Inside t := by
  unfold LocalDatagramLimiter.enterSlice Inside
  split
  · rfl
  · exact not_not.mp ‹_›

theorem checkPacket_eq (h : l.Inside t) (s : Nat) (ss : List Nat) :
    l.checkPacket t s = if l.HasRoom (totalSizes (s :: ss)) 0 then (.advance 1, l)
      else (.delayFor (l.window.delay t), l) := by
  have hfirst : total (totalSizes (s :: ss)) (0 + 1) = s := rfl
  have hnone : total (totalSizes (s :: ss)) 0 = 0 := rfl
  simp only [checkPacket, h.enterSlice, HasRoom, hfirst, hnone, Nat.add_zero]
  split <;> split <;> simp_all

theorem hasRoom_cons {s : Nat} {ss : List Nat} {q : Nat} (hq : q < ss.length) :
    (l.setAdvance 1 s).HasRoom (totalSizes ss) q ↔ l.HasRoom (totalSizes (s :: ss)) (q + 1) := by
  simp only [HasRoom, setAdvance, total_totalSizes_cons s hq.le, total_totalSizes_cons s hq,
    Nat.add_assoc, Nat.add_comm 1 q]

/-- The datagrams are admitted up to the first without room. -/
theorem admitted_eq (h : l.Inside t) {k : Nat} (hk : k ≤ sizes.length)
    (hroom : ∀ q < k, l.HasRoom (totalSizes sizes) q)
    (hfull : k < sizes.length → ¬l.HasRoom (totalSizes sizes) k) : l.admitted t sizes = k := by
  induction sizes generalizing l k with
  | nil => exact (Nat.le_zero.mp hk).symm
  | cons s ss ih =>
    obtain _ | k := k
    · have hno := hfull (Nat.succ_pos _)
      simp only [admitted, checkPacket_eq h s ss, if_neg hno]
    · have hyes := hroom 0 (Nat.succ_pos _)
      have hrest : (l.setAdvance 1 s).admitted t ss = k := by
        refine ih (l := l.setAdvance 1 s) h (Nat.le_of_succ_le_succ hk) (fun q hq => ?_) fun hlt => ?_
        · exact (hasRoom_cons (by simp at hk; omega)).mpr (hroom (q + 1) (by omega))
        · exact fun hr => hfull (Nat.succ_lt_succ hlt) ((hasRoom_cons hlt).mp hr)
      simp only [admitted, checkPacket_eq h s ss, if_pos hyes, hrest]

/-! ### The batch -/

section
variable [BinarySearch]

/-- So many datagrams of a batch there are packets left for. -/
def packetCount (l : LocalDatagramLimiter) (v : List Nat) : Nat :=
  if 0 < l.maxPackets then min v.length (l.maxPackets - l.curPackets) else v.length

/-- The binary search finds the first datagram without room. -/
theorem fitBytes_spec (hv : v.Pairwise (· < ·)) (hpos : ∀ s ∈ v, 0 < s) (hne : v ≠ [])
    (hpackets : ¬(0 < l.maxPackets ∧ l.maxPackets ≤ l.curPackets)) :
    match l.fitBytes v (l.packetCount v) with
    | some n => 0 < n ∧ n ≤ v.length ∧ (∀ q < n, l.HasRoom v q) ∧ (n < v.length → ¬l.HasRoom v n)
    | none => ¬l.HasRoom v 0 := by
  have hlen := length_pos_iff.mpr hne
  have hle : v.Pairwise (· ≤ ·) := hv.imp fun h => h.le
  have hcount : 0 < l.packetCount v ∧ l.packetCount v ≤ v.length := by
    unfold packetCount
    split <;> omega
  have hbefore : ∀ q < l.packetCount v, ¬(0 < l.maxPackets ∧ l.maxPackets ≤ l.curPackets + q) := by
    intro q hq
    unfold packetCount at hq
    split at hq <;> omega
  have hafter : l.packetCount v < v.length →
      0 < l.maxPackets ∧ l.maxPackets ≤ l.curPackets + l.packetCount v := by
    unfold packetCount
    split <;> omega
  have hgrow : ∀ {m n : Nat}, m < n → n ≤ v.length → total v m < total v n :=
    fun hmn hn => total_lt_total hv hpos hmn hn
  have hfirst : 0 < total v (0 + 1) := hgrow (Nat.succ_pos 0) hlen
  by_cases hb : 0 < l.maxBytes
  case neg =>
    simp only [fitBytes, if_neg hb]
    refine ⟨hcount.1, hcount.2, fun q hq => ⟨hbefore q hq, fun h => hb h.1⟩, fun hlt hr => ?_⟩
    exact hr.1 (hafter hlt)
  by_cases hfull : l.maxBytes ≤ l.curBytes
  · simp only [fitBytes, if_pos hb, if_pos hfull]
    exact fun hr => hr.2 ⟨hb, by omega, by omega⟩
  simp only [fitBytes, if_pos hb, if_neg hfull]
  cases hi : search (v.take (l.packetCount v)) (l.maxBytes - l.curBytes) with
  | ok i =>
    obtain ⟨hlt, hat⟩ := List.getElem?_eq_some_iff.mp (ok hi)
    rw [length_take] at hlt
    have hend : total v (i + 1) = l.maxBytes - l.curBytes := by
      rw [total_succ, getD_eq_getElem _ _ (by omega), ← hat, getElem_take]
    refine ⟨by omega, by omega, fun q hq => ⟨hbefore q (by omega), fun hno => ?_⟩, fun hn hr => ?_⟩
    · have := total_le_total hle (show q + 1 ≤ i + 1 by omega) (by omega)
      omega
    · have := hgrow (show i + 1 < i + 1 + 1 by omega) hn
      exact hr.2 ⟨hb, by omega, by omega⟩
  | error i =>
    obtain ⟨hile, hsmall, hlarge⟩ := error (hle.sublist (take_sublist _ _)) hi
    rw [length_take] at hile hlarge
    have hend : ∀ q < l.packetCount v, (v.take (l.packetCount v)).getD q 0 = total v (q + 1) :=
      fun q hq => (total_succ _ q).symm.trans (total_take hq)
    obtain _ | i := i
    · have hbig : l.maxBytes < l.curBytes + total v (0 + 1) := by
        have := hlarge 0 le_rfl (by omega)
        rw [hend 0 hcount.1] at this
        omega
      by_cases hcur : l.curBytes = 0
      · simp only [if_pos hcur]
        refine ⟨Nat.zero_lt_one, hlen, fun q hq => ?_, fun hn hr => ?_⟩
        · obtain rfl : q = 0 := by omega
          exact ⟨hbefore 0 hcount.1, fun h => by simp [hcur, total] at h⟩
        · have := hgrow (show 0 + 1 < 1 + 1 by omega) hn
          exact hr.2 ⟨hb, Nat.add_pos_right _ hfirst, by omega⟩
      · simp only [if_neg hcur]
        exact fun hr => hr.2 ⟨hb, by omega, hbig⟩
    · refine ⟨by omega, by omega, fun q hq => ⟨hbefore q (by omega), fun hno => ?_⟩,
        fun hn hr => ?_⟩
      · have := hsmall q hq
        rw [hend q (by omega)] at this
        omega
      · rcases Nat.lt_or_ge (i + 1) (l.packetCount v) with hlt | hge
        · have := hlarge (i + 1) le_rfl (by omega)
          rw [hend _ hlt] at this
          have := hgrow (show 0 < i + 1 by omega) (by omega)
          exact hr.2 ⟨hb, by omega, by omega⟩
        · obtain heq : i + 1 = l.packetCount v := by omega
          rw [heq] at hn hr
          exact hr.1 (hafter hn)

omit [BinarySearch] in
theorem checkPacket_enterSlice (s : Nat) :
    (l.enterSlice t).checkPacket t s = l.checkPacket t s := by
  simp only [checkPacket, inside_enterSlice.enterSlice]

omit [BinarySearch] in
theorem admitted_enterSlice : (l.enterSlice t).admitted t sizes = l.admitted t sizes := by
  cases sizes with
  | nil => rfl
  | cons s ss => simp only [admitted, checkPacket_enterSlice]

/-- The answer to a batch with datagrams in it counts those that are admitted one by one. -/
theorem checkPackets_answer (hpos : ∀ s ∈ sizes, 0 < s) (hne : sizes ≠ []) :
    (l.checkPackets t (totalSizes sizes)).1 =
      if 0 < l.admitted t sizes then .advance (l.admitted t sizes)
      else .delayFor (l.window.delay t) := by
  have hin : (l.enterSlice t).Inside t := inside_enterSlice
  have hlen := length_pos_iff.mpr hne
  have hv : totalSizes sizes ≠ [] := length_pos_iff.mp (by rwa [length_totalSizes])
  rw [← admitted_enterSlice, ← enterSlice_window (l := l) (t := t)]
  by_cases hpackets : 0 < (l.enterSlice t).maxPackets ∧
      (l.enterSlice t).maxPackets ≤ (l.enterSlice t).curPackets
  · have hnone : (l.enterSlice t).admitted t sizes = 0 :=
      admitted_eq hin (Nat.zero_le _) (fun _ hq => absurd hq (Nat.not_lt_zero _))
        fun _ hr => hr.1 hpackets
    simp only [checkPackets, if_pos hpackets, hnone, Nat.lt_irrefl, if_false]
  have hfit := fitBytes_spec (totalSizes_increasing hpos) (totalSizes_pos hpos) hv hpackets
  have hcount : (if 0 < (l.enterSlice t).maxPackets then
      min (totalSizes sizes).length ((l.enterSlice t).maxPackets - (l.enterSlice t).curPackets)
      else (totalSizes sizes).length) = (l.enterSlice t).packetCount (totalSizes sizes) := rfl
  simp only [checkPackets, if_neg hpackets, hcount]
  cases hn : (l.enterSlice t).fitBytes (totalSizes sizes)
      ((l.enterSlice t).packetCount (totalSizes sizes)) with
  | none =>
    rw [hn] at hfit
    have hnone : (l.enterSlice t).admitted t sizes = 0 :=
      admitted_eq hin (Nat.zero_le _) (fun _ hq => absurd hq (Nat.not_lt_zero _)) fun _ => hfit
    rw [hnone, if_neg (Nat.lt_irrefl 0)]
  | some n =>
    simp only [hn, length_totalSizes] at hfit
    obtain ⟨hn0, hnlen, hroom, hfull⟩ := hfit
    rw [admitted_eq hin hnlen hroom hfull, if_pos hn0]

/-- An empty batch is let through as one datagram: bytes are limited, and neither bytes nor packets
    of the window are used up. -/
def PassesNothing (l : LocalDatagramLimiter) (t : Nat) : Prop :=
  0 < l.maxBytes ∧ (l.enterSlice t).curBytes = 0 ∧
    ¬(0 < l.maxPackets ∧ l.maxPackets ≤ (l.enterSlice t).curPackets)

theorem checkPackets_nil {k : Nat} (hk : 1 ≤ k) :
    (l.checkPackets t []).1 = .advance k ↔ k = 1 ∧ l.PassesNothing t := by
  have hsearch : ∀ x, search [] x = .error 0 := by
    intro x
    cases hi : search [] x with
    | ok i => cases ok hi
    | error i => rw [Nat.le_zero.mp (error Pairwise.nil hi).1]
  by_cases hpackets : 0 < l.maxPackets ∧ l.maxPackets ≤ (l.enterSlice t).curPackets
  · simp [checkPackets, PassesNothing, hpackets]
  by_cases hb : 0 < l.maxBytes
  · by_cases hcur : (l.enterSlice t).curBytes = 0
    · have hopen : ¬l.maxBytes ≤ 0 := by omega
      simp [checkPackets, PassesNothing, fitBytes, hpackets, hb, hcur, hsearch, hopen, eq_comm]
    · have hdelay : (l.enterSlice t).fitBytes [] 0 = none := by
        simp [fitBytes, hb, hcur, hsearch]
      simp [checkPackets, PassesNothing, hpackets, hcur, hdelay]
  · have hnone : (l.enterSlice t).fitBytes [] 0 = some 0 := by simp [fitBytes, hb]
    simp [checkPackets, PassesNothing, hpackets, hb, hnone]
    omega

/-- The check of a batch is the check of its datagrams, unless it is empty. -/
theorem agrees_iff (hpos : ∀ s ∈ sizes, 0 < s) :
    l.Agrees t sizes ↔ ¬(sizes = [] ∧ l.PassesNothing t) := by
  cases sizes with
  | nil =>
    constructor
    · rintro h ⟨-, hpass⟩
      have hone := (h.advance 1 le_rfl).mp ((checkPackets_nil le_rfl).mpr ⟨rfl, hpass⟩)
      cases hone
    · refine fun h => ⟨fun k hk => ⟨fun hadv => ?_, fun hnone => ?_⟩, fun _ hs => by cases hs⟩
      · exact absurd ⟨rfl, ((checkPackets_nil hk).mp hadv).2⟩ h
      · exact absurd (show 0 = k from hnone) (by omega)
  | cons s ss =>
    have hanswer := checkPackets_answer (l := l) (t := t) hpos (cons_ne_nil s ss)
    refine ⟨fun _ h => cons_ne_nil _ _ h.1, fun _ => ⟨fun k hk => ?_, fun _ hs hnone => ?_⟩⟩
    · rw [hanswer]
      split
      · simp
      · simp
        omega
    · obtain rfl : s = _ := Option.some.inj hs
      rw [hanswer, hnone, if_neg (Nat.lt_irrefl 0), ← checkPacket_enterSlice,
        checkPacket_eq inside_enterSlice s ss]
      by_cases hroom : (l.enterSlice t).HasRoom (totalSizes (s :: ss)) 0
      · rw [← admitted_enterSlice] at hnone
        simp [admitted, checkPacket_eq inside_enterSlice s ss, hroom] at hnone
      · rw [if_neg hroom, enterSlice_window]

end

/-- A limiter of 1000 bytes for each window, before anything is sent. -/
def thousandBytes : LocalDatagramLimiter where
  maxBytes := 1000

/-- An empty batch is let through as one datagram. -/
theorem thousandBytes_not_agrees : ¬thousandBytes.Agrees 0 [] := by
  intro h
  have hone : (thousandBytes.checkPackets 0 (totalSizes [])).1 = .advance 1 := by decide
  exact absurd ((h.advance 1 le_rfl).mp hone) (by decide)

theorem thousandBytes_agrees : thousandBytes.Agrees 0 [600, 400, 1] :=
  (agrees_iff (by decide)).mpr fun h => absurd h.1 (by decide)

example : (thousandBytes.checkPackets 0 (totalSizes [600, 400, 1])).1 = .advance 2 := by decide

end LocalDatagramLimiter

end Vey.IoExt

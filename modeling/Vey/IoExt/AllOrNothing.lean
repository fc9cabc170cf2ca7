import Vey.IoExt.DatagramReserve

/-! A request for datagrams is all or nothing.

        check  -->  delay                         every bucket as before
               -->  Advance k  -->  release       every bucket as before
                               -->  set (p, b)    p packets and b bytes less

    The check of a batch records the packets it took from a bucket at once, and the bytes only behind
    the last bucket. A batch that a later bucket refuses leaves the bytes taken so far behind. -/

namespace Vey.IoExt
open Schemes List GlobalDatagramLimiter GlobalLimiter

namespace GlobalDatagramLimiter

variable {g : GlobalDatagramLimiter} {v : List Nat}

/-! ### What is given back to one bucket -/

/-- The bucket has exactly so many tokens less than before, of the kinds that are limited. -/
structure Spent (p b : Nat) (g g' : GlobalDatagramLimiter) : Prop where
  packets : 0 < g.config.replenishPackets → g'.packetTokens + p = g.packetTokens
  bytes : 0 < g.config.replenishBytes → g'.byteTokens + b = g.byteTokens

/-- The bucket behind a release of both kinds. -/
def giveBack (g : GlobalDatagramLimiter) (p b : Nat) : GlobalDatagramLimiter :=
  { g with
    packetTokens := refill g.packetTokens p g.config.maxBurstPackets
    byteTokens := refill g.byteTokens b g.config.maxBurstBytes }

instance : Decidable g.Below :=
  decidable_of_iff (g.packetTokens ≤ g.config.maxBurstPackets ∧
    g.byteTokens ≤ g.config.maxBurstBytes) ⟨fun h => ⟨h.1, h.2⟩, fun h => ⟨h.1, h.2⟩⟩

theorem releasePackets_eq (p : Nat) : g.releasePackets p = g.giveBack p 0 := by
  unfold releasePackets giveBack
  rw [refill_zero g.config.bytesFit]
  split
  · rfl
  · rw [show g.config.maxBurstPackets = 0 by omega, refill_empty]

theorem releaseBytes_eq (b : Nat) : g.releaseBytes b = g.giveBack 0 b := by
  unfold releaseBytes giveBack
  rw [refill_zero g.config.packetsFit]
  split
  · rfl
  · rw [show g.config.maxBurstBytes = 0 by omega, refill_empty]

@[simp] theorem giveBack_zero : g.giveBack 0 0 = g := by
  unfold giveBack
  rw [refill_zero g.config.packetsFit, refill_zero g.config.bytesFit]

theorem release_eq (p b : Nat) : (g.releasePackets p).releaseBytes b = g.giveBack p b := by
  rw [releasePackets_eq, releaseBytes_eq]
  unfold giveBack
  rw [refill_zero g.config.packetsFit, refill_zero g.config.bytesFit]

/-- The bucket once a request for `n` datagrams is trimmed to `k` of them and `p` are sent. -/
def settle (g : GlobalDatagramLimiter) (n taken k sent p b : Nat) : GlobalDatagramLimiter :=
  ((g.reserve n taken).giveBack (n - k) (taken - sent)).giveBack (k - p) (sent - b)

section
variable (hg : g.Below) {n taken : Nat} (h : g.Affords n taken)
include hg h

/-- The bucket is charged for what is sent. -/
theorem spent_settle {k sent p b : Nat} (hk : k ≤ n) (hsent : sent ≤ taken) (hp : p ≤ k)
    (hb : b ≤ sent) : Spent p b g (g.settle n taken k sent p b) where
  packets hlim := refill_pay hg.packets g.config.packetsFit hlim (h.1 hlim) hk hp
  bytes hlim := refill_pay hg.bytes g.config.bytesFit hlim (h.2 hlim) hsent hb

/-- A single datagram is undone with its bytes. -/
theorem spent_undone_bytes : Spent 0 0 g ((g.reserve n taken).giveBack n taken) := by
  have hnone := spent_settle hg h le_rfl le_rfl (Nat.zero_le n) (Nat.zero_le taken)
  simpa only [settle, Nat.sub_self, Nat.sub_zero, giveBack_zero] using hnone

/-- A batch is undone without its bytes. -/
theorem spent_undone_iff : Spent 0 0 g ((g.reserve n taken).giveBack n 0) ↔
    (0 < g.config.replenishBytes → taken = 0) := by
  have hbytes : ((g.reserve n taken).giveBack n 0).byteTokens =
      pay (0 < g.config.replenishBytes) g.byteTokens taken := refill_zero g.config.bytesFit
  constructor
  · intro hspent hlim
    have hsame := hspent.bytes hlim
    rw [hbytes, pay, if_pos hlim] at hsame
    have := h.2 hlim
    omega
  · intro hnone
    refine ⟨(spent_undone_bytes hg h).packets, fun hlim => ?_⟩
    rw [hbytes, pay, if_pos hlim, hnone hlim]
    rfl

end

end GlobalDatagramLimiter

/-! ### The first datagram with bytes in it -/

/-- How many datagrams there are up to the first one that is not empty. -/
def first (v : List Nat) : Nat := v.findIdx (0 < ·) + 1

variable {n : Nat}

theorem total_pos_iff {v : List Nat} (hv : v.Pairwise (· ≤ ·)) (hn : n ≤ v.length) :
    0 < total v n ↔ first v ≤ n := by
  constructor
  · intro hpos
    obtain _ | m := n
    · cases hpos
    · rw [total_succ, getD_eq_getElem _ _ hn] at hpos
      by_contra hgt
      have hlt : m < v.findIdx (0 < ·) := by
        unfold first at hgt
        omega
      have hzero : v[m] = 0 := by simpa using not_of_lt_findIdx hlt
      omega
  · intro hle
    have hlt : v.findIdx (0 < ·) < v.length := by
      unfold first at hle
      omega
    have hpos : 0 < total v (first v) := by
      have := findIdx_getElem (w := hlt)
      rw [first, total_succ, getD_eq_getElem _ _ hlt]
      simpa using this
    exact hpos.trans_le (total_le_total hv hle hn)

theorem total_pos_eq {v : List Nat} (hv : v.Pairwise (· ≤ ·)) (hn : n ≤ v.length) :
    (0 < total v n) = (decide (first v ≤ n) = true) := by
  rw [decide_eq_true_iff]
  exact propext (total_pos_iff hv hn)

namespace GlobalDatagramLimiter

variable {g : GlobalDatagramLimiter} {v : List Nat}

/-- The bucket has the tokens for that datagram and the empty ones before it. -/
def bears (g : GlobalDatagramLimiter) (v : List Nat) : Bool :=
  decide (g.Affords (first v) (total v (first v)))

theorem Grants.first_le_iff {n n' : Nat} (h : g.Grants (v.take n) n') (hv : v.Pairwise (· ≤ ·))
    (hn : n ≤ v.length) : first v ≤ n' ↔ first v ≤ n ∧ g.bears v := by
  have hlen : (v.take n).length = n := length_take_of_le hn
  have hle : n' ≤ n := h.le.trans_eq hlen
  have htotal := total_take (v := v) hle
  constructor
  · intro hfirst
    refine ⟨hfirst.trans hle, decide_eq_true (h.affords.mono hfirst ?_)⟩
    rw [htotal]
    exact total_le_total hv hfirst (hle.trans hn)
  · rintro ⟨hfirst, hbears⟩
    have hmost := h.largest (first v) (hfirst.trans_eq hlen.symm)
    rw [total_take hfirst, htotal] at hmost
    have := hmost (of_decide_eq_true hbears)
    have := (total_pos_iff hv (hfirst.trans hn)).mpr le_rfl
    exact (total_pos_iff hv (hle.trans hn)).mp (by omega)

theorem Grants.live {n n' : Nat} (h : g.Grants (v.take n) n') (hv : v.Pairwise (· ≤ ·))
    (hn : n ≤ v.length) : decide (first v ≤ n') = (decide (first v ≤ n) && g.bears v) := by
  rw [Bool.eq_iff_iff, Bool.and_eq_true, decide_eq_true_iff, decide_eq_true_iff]
  exact h.first_le_iff hv hn

end GlobalDatagramLimiter

/-! ### The buckets of a request -/

namespace GlobalLimiter

variable {l : GlobalLimiter}

theorem setAdvance_inner_some {size : Nat} (h : l.checkedBytes = some size) (n p b : Nat) :
    l.setAdvance n p b = ⟨l.inner.giveBack (n - p) (size - b), none, none⟩ := by
  have hpackets : (if p < n then l.inner.releasePackets (n - p) else l.inner) =
      l.inner.giveBack (n - p) 0 := by
    split
    · exact releasePackets_eq _
    · rw [show n - p = 0 by omega, giveBack_zero]
  have hbytes (g : GlobalDatagramLimiter) :
      (if b < size then g.releaseBytes (size - b) else g) = g.releaseBytes (size - b) := by
    split
    · rfl
    · rw [show size - b = 0 by omega, releaseBytes_eq,
        giveBack_zero]
  simp only [setAdvance, h, hpackets, hbytes]
  rw [← releasePackets_eq, release_eq]

theorem setAdvance_inner_none (h : l.checkedBytes = none) (n p b : Nat) :
    l.setAdvance n p b = ⟨l.inner.giveBack (n - p) 0, none, none⟩ := by
  simp only [setAdvance, h]
  split
  · rw [releasePackets_eq]
  · rw [show n - p = 0 by omega, giveBack_zero]

/-- Giving everything back is to have sent nothing. -/
theorem release_eq_setAdvance (n : Nat) : l.release n = l.setAdvance n 0 0 := by
  cases h : l.checkedBytes with
  | none =>
    rw [setAdvance_inner_none h]
    simp only [release, h, releasePackets_eq, Nat.sub_zero]
  | some size =>
    rw [setAdvance_inner_some h]
    simp only [release, h, release_eq, Nat.sub_zero]

theorem trim_eq (v : List Nat) {k n : Nat} (hk : k ≤ n) :
    l.trim v k n = ⟨l.inner.giveBack (n - k) (total v n - total v k), some k, some (total v k)⟩ := by
  unfold trim
  congr 1
  split
  · exact release_eq _ _
  · rw [show n = k by omega, Nat.sub_self, Nat.sub_self, giveBack_zero]

end GlobalLimiter

namespace DatagramLimiter

variable {g : GlobalDatagramLimiter} {gs pre : List GlobalDatagramLimiter} {v : List Nat}

theorem releaseLoop_eq (ls : List GlobalLimiter) : releaseLoop ls = setAdvanceLoop 0 0 ls := by
  induction ls with
  | nil => rfl
  | cons l ls ih =>
    simp only [releaseLoop, setAdvanceLoop, ih, release_eq_setAdvance]

/-- The entry of a bucket from which nothing is taken. -/
def untaken (g : GlobalDatagramLimiter) : GlobalLimiter := ⟨g, none, none⟩

theorem map_untaken_inner (gs : List GlobalDatagramLimiter) : (gs.map untaken).map (·.inner) = gs :=
  (map_map ..).trans (map_id gs)

/-- The entry of a bucket that let a single datagram through. -/
def tookPacket (size : Nat) (g : GlobalDatagramLimiter) : GlobalLimiter :=
  ⟨g.reserve 1 size, some 1, some size⟩

/-- The entry of a bucket that let a part of a batch through. -/
def tookBatch (v : List Nat) (n : Nat) (g : GlobalDatagramLimiter) : GlobalLimiter :=
  ⟨g.reserve n (total v n), some n, none⟩

variable {size k : Nat} {ls : List GlobalLimiter}

theorem packetLoop_append (hpre : ∀ g ∈ pre, g.Below ∧ g.Affords 1 size) (ls : List GlobalLimiter) :
    packetLoop size (pre.map untaken ++ ls) =
      ((packetLoop size ls).1, pre.map (tookPacket size) ++ (packetLoop size ls).2) := by
  induction pre with
  | nil => rfl
  | cons g pre ih =>
    obtain ⟨hg, hpay⟩ := hpre g (mem_cons_self ..)
    have hcheck := checkPacket_eq hg size
    rw [if_pos hpay] at hcheck
    simp only [map_cons, cons_append, packetLoop, untaken, hcheck]
    rw [ih fun g' hg' => hpre g' (mem_cons_of_mem _ hg')]
    rfl

theorem setAdvanceLoop_tookPacket (size p b : Nat) (gs : List GlobalDatagramLimiter)
    (ls : List GlobalLimiter) :
    setAdvanceLoop p b (gs.map (tookPacket size) ++ ls) =
      gs.map (fun g => untaken ((g.reserve 1 size).giveBack (1 - p) (size - b))) ++
        setAdvanceLoop p b ls := by
  induction gs with
  | nil => rfl
  | cons g gs ih =>
    simp only [map_cons, cons_append, setAdvanceLoop, tookPacket] at ih ⊢
    rw [ih, setAdvance_inner_some rfl]
    rfl

/-- The buckets that let a part of a batch through, and how much of it is left behind the last. -/
inductive Taken (v : List Nat) :
    Nat → List GlobalDatagramLimiter → List GlobalLimiter → Nat → Prop where
  | nil {n : Nat} : Taken v n [] [] n
  | cons {n n' k : Nat} {g : GlobalDatagramLimiter} {gs : List GlobalDatagramLimiter}
    {ls : List GlobalLimiter} : g.Below → g.Grants (v.take n) n' → Taken v n' gs ls k →
    Taken v n (g :: gs) (tookBatch v n' g :: ls) k

theorem Taken.le (h : Taken v n gs ls k) : k ≤ n := by
  induction h with
  | nil => exact le_rfl
  | cons _ hgrant _ ih => exact ih.trans (hgrant.le.trans (length_take_le _ _))

theorem Taken.pos (h : Taken v n gs ls k) (hn : 0 < n) : 0 < k := by
  induction h with
  | nil => exact hn
  | cons _ hgrant _ ih => exact ih hgrant.pos

section
variable [BinarySearch]

theorem packetsLoop_append (hv : v.Pairwise (· ≤ ·)) (hpos : 0 < n) (hn : n ≤ v.length)
    (hpre : ∀ g ∈ pre, g.Below ∧ g.Affords 1 (max 1 (total v 1))) :
    ∃ ls k, Taken v n pre ls k ∧ ∀ rest, packetsLoop v (pre.map untaken ++ rest) n =
      (packetsLoop v rest k).map fun r => (r.1, ls ++ r.2) := by
  induction pre generalizing n with
  | nil =>
    refine ⟨[], n, .nil, fun rest => ?_⟩
    rw [map_nil, nil_append]
    cases packetsLoop v rest n <;> rfl
  | cons g pre ih =>
    obtain ⟨hg, hpay⟩ := hpre g (mem_cons_self ..)
    have hne : v.take n ≠ [] := by
      rw [← length_pos_iff, length_take]
      omega
    have hspec := checkPackets_spec hg
      (hv.sublist (take_sublist n v)) hne
    rw [total_take hpos, if_pos hpay] at hspec
    obtain ⟨n', hgrant, hcheck⟩ := hspec
    have hle : n' ≤ n := hgrant.le.trans (length_take_le _ _)
    rw [total_take hle] at hcheck
    obtain ⟨ls, k, htaken, hloop⟩ := ih hgrant.pos (hle.trans hn)
      fun g' hg' => hpre g' (mem_cons_of_mem _ hg')
    refine ⟨_, k, .cons hg hgrant htaken, fun rest => ?_⟩
    simp only [map_cons, cons_append, packetsLoop, if_neg (Nat.not_lt.mpr hn), untaken,
      hcheck]
    rw [hloop, Option.map_map]
    rfl

end

/-! ### When a batch is undone or charged exactly -/

theorem spent_unchanged (gs : List GlobalDatagramLimiter) : Forall₂ (Spent 0 0) gs gs :=
  forall₂_same.mpr fun _ _ => ⟨fun _ => rfl, fun _ => rfl⟩

/-- A batch that is refused has taken no bytes before. `live` says that a datagram with bytes in it
    has come so far. -/
def Undone (v : List Nat) : Bool → List GlobalDatagramLimiter → Prop
  | _, [] => True
  | live, g :: gs =>
    if g.Affords 1 (max 1 (total v 1)) then
      (0 < g.config.replenishBytes → ¬(live && g.bears v)) ∧ Undone v (live && g.bears v) gs
    else True

instance decidableUndone (v : List Nat) :
    ∀ (live : Bool) (gs : List GlobalDatagramLimiter), Decidable (Undone v live gs)
  | _, [] => inferInstanceAs (Decidable True)
  | live, g :: gs =>
    have := decidableUndone v (live && g.bears v) gs
    inferInstanceAs (Decidable (if g.Affords 1 (max 1 (total v 1)) then (_ → ¬_) ∧ _ else True))

section

theorem Taken.undone_iff (h : Taken v n gs ls k) (hv : v.Pairwise (· ≤ ·)) (hn : n ≤ v.length)
    (hpay : ∀ g ∈ gs, g.Affords 1 (max 1 (total v 1)))
    (hg : ¬g.Affords 1 (max 1 (total v 1))) (post : List GlobalDatagramLimiter) :
    Forall₂ (Spent 0 0) (gs ++ g :: post)
        ((setAdvanceLoop 0 0 (ls ++ (g :: post).map untaken)).map (·.inner)) ↔
      Undone v (decide (first v ≤ n)) (gs ++ g :: post) := by
  induction h with
  | nil =>
    simp only [nil_append, Undone, if_neg hg, iff_true]
    change Forall₂ _ _ (((g :: post).map untaken).map (·.inner))
    rw [map_untaken_inner]
    exact spent_unchanged _
  | @cons n n' k g' gs ls hbelow hgrant _ ih =>
    have hle : n' ≤ n := hgrant.le.trans (length_take_le _ _)
    have hafford := hgrant.affords
    rw [total_take hle] at hafford
    have hlive := hgrant.live hv hn
    have hone := spent_undone_iff hbelow hafford
    rw [show total v n' = 0 ↔ ¬0 < total v n' by omega, total_pos_eq hv (hle.trans hn)] at hone
    simp only [cons_append, Undone, if_pos (hpay g' (mem_cons_self ..)), ← hlive]
    rw [← ih (hle.trans hn) fun g'' hg'' => hpay g'' (mem_cons_of_mem _ hg''), ← hone]
    simp only [setAdvanceLoop, tookBatch, map_cons, forall₂_cons,
      setAdvance_inner_none, Nat.sub_zero]

theorem trimLoop_tookBatch (m n : Nat) :
    trimLoop v m (tookBatch v n g :: ls) =
      (trimLoop v m ls).map ((tookBatch v n g).trim v m n :: ·) := by
  cases h : trimLoop v m ls <;> simp [trimLoop, tookBatch, h]

theorem Taken.trims (h : Taken v n gs ls k) (m : Nat) : ∃ ls', trimLoop v m ls = some ls' := by
  induction h with
  | nil => exact ⟨[], rfl⟩
  | cons _ _ _ ih =>
    obtain ⟨ls', hls⟩ := ih
    rw [trimLoop_tookBatch, hls]
    exact ⟨_, rfl⟩

/-- One bucket of a batch that is trimmed to `m` datagrams. -/
theorem setAdvance_trim {m n : Nat} (hm : m ≤ n) (p b : Nat) :
    ((tookBatch v n g).trim v m n).setAdvance m p b =
      untaken (g.settle n (total v n) m (total v m) p b) := by
  rw [trim_eq v hm, setAdvance_inner_some rfl]
  rfl

/-- Every bucket is charged for what is sent of the `m` datagrams. -/
theorem Taken.charged (h : Taken v n gs ls k) (hv : v.Pairwise (· ≤ ·)) (hn : n ≤ v.length) {m : Nat}
    (hm : m ≤ k) {p b : Nat} (hp : p ≤ m) (hb : b ≤ total v m) {ls' : List GlobalLimiter}
    (htrim : trimLoop v m ls = some ls') :
    Forall₂ (Spent p b) gs ((setAdvanceLoop p b ls').map (·.inner)) := by
  induction h generalizing ls' with
  | nil =>
    cases htrim
    exact .nil
  | @cons n n' k g gs ls hbelow hgrant hrest ih =>
    have hle : n' ≤ n := hgrant.le.trans (length_take_le _ _)
    have hmn : m ≤ n' := hm.trans hrest.le
    have hafford := hgrant.affords
    rw [total_take hle] at hafford
    rw [trimLoop_tookBatch] at htrim
    obtain ⟨ls'', hls, rfl⟩ := Option.map_eq_some_iff.mp htrim
    have hentry := setAdvance_trim (v := v) (g := g) hmn p b
    change Forall₂ _ _ ((((tookBatch v n' g).trim v m n').setAdvance m p b).inner :: _)
    rw [hentry]
    refine .cons (spent_settle hbelow hafford hmn ?_ hp hb) (ih (hle.trans hn) hm hls)
    exact total_le_total hv hmn (hle.trans hn)

end

/-! ### Requests -/

/-- A batch, given by its cumulative sizes. -/
structure Batch where
  sizes : List Nat
  cumulative : sizes.Pairwise (· ≤ ·)

inductive Request where
  | packet (bufSize : Nat)
  | packets (batch : Batch)

/-- The cumulative sizes of what is asked for. -/
def Request.sizes : Request → List Nat
  | .packet bufSize => [bufSize]
  | .packets batch => batch.sizes

def buckets (d : DatagramLimiter) : List GlobalDatagramLimiter := d.global.map (·.inner)

/-- No tokens are held for an earlier request. -/
def Settled (d : DatagramLimiter) : Prop :=
  ∀ l ∈ d.global, l.checkedPackets = none ∧ l.checkedBytes = none

instance (d : DatagramLimiter) : Decidable d.Settled := inferInstanceAs (Decidable (∀ _ ∈ _, _))

variable {d : DatagramLimiter}

theorem Settled.global_eq (h : d.Settled) : d.global = d.buckets.map untaken := by
  rw [buckets, map_map]
  refine (map_id d.global).symm.trans (map_congr_left fun l hl => ?_)
  obtain ⟨inner, checkedPackets, checkedBytes⟩ := l
  obtain ⟨hpackets, hbytes⟩ := h _ hl
  simp only at hpackets hbytes
  simp [untaken, hpackets, hbytes]

/-- An answer leaves the tokens as they were, or takes exactly those of what is sent: `p` packets of
    what is let through, with at most the bytes that were asked for. -/
def Exact (gs : List GlobalDatagramLimiter) (sizes : List Nat) :
    DatagramLimitAction → DatagramLimiter → Prop
  | .advance k, d =>
    List.Forall₂ (GlobalDatagramLimiter.Spent 0 0) gs d.releaseGlobal.buckets ∧
      ∀ p b, p ≤ k → b ≤ total sizes p →
        List.Forall₂ (GlobalDatagramLimiter.Spent p b) gs (d.setAdvance p b).buckets
  | _, d => List.Forall₂ (GlobalDatagramLimiter.Spent 0 0) gs d.buckets

/-- For a batch of which the local limit lets `n` datagrams through: no bucket refuses it, or no bytes
    were taken before. -/
def BatchSound (v : List Nat) (n : Nat) (gs : List GlobalDatagramLimiter) : Prop :=
  (∀ g ∈ gs, g.Affords 1 (max 1 (total v 1))) ∨ Undone v (decide (first v ≤ n)) gs

/-! ### Single datagrams -/

theorem exact_advance_iff {sizes : List Nat} :
    Exact gs sizes (.advance k) d ↔ ∀ p b, p ≤ k → b ≤ total sizes p →
      Forall₂ (Spent p b) gs
        ((setAdvanceLoop p b d.global).map (·.inner)) := by
  refine ⟨fun h => h.2, fun h => ⟨?_, h⟩⟩
  have hnothing := h 0 0 (Nat.zero_le _) (Nat.zero_le _)
  rwa [← releaseLoop_eq] at hnothing

theorem all_or_first (P : GlobalDatagramLimiter → Prop) (gs : List GlobalDatagramLimiter) :
    (∀ g ∈ gs, P g) ∨ ∃ pre g post, gs = pre ++ g :: post ∧ (∀ g ∈ pre, P g) ∧ ¬P g := by
  induction gs with
  | nil => exact Or.inl fun g hg => absurd hg not_mem_nil
  | cons g gs ih =>
    by_cases hg : P g
    · rcases ih with hall | ⟨pre, g', post, rfl, hpre, hno⟩
      · exact Or.inl (forall_mem_cons.mpr ⟨hg, hall⟩)
      · exact Or.inr ⟨g :: pre, g', post, rfl, forall_mem_cons.mpr ⟨hg, hpre⟩, hno⟩
    · exact Or.inr ⟨[], g, gs, rfl, fun _ h => absurd h not_mem_nil, hg⟩

/-- A single datagram is all or nothing. -/
theorem exact_packet (size : Nat) (hbelow : ∀ g ∈ gs, g.Below) (hd : d.global = gs.map untaken) :
    Exact gs [size] (d.checkGlobalPacket size).1 (d.checkGlobalPacket size).2 := by
  rcases all_or_first (·.Affords 1 size) gs with hall | ⟨pre, g, post, rfl, hpre, hno⟩
  · have hloop := packetLoop_append (fun g hg => ⟨hbelow g hg, hall g hg⟩) []
    rw [append_nil, ← hd] at hloop
    simp only [checkGlobalPacket, hloop, packetLoop, append_nil]
    rw [exact_advance_iff]
    intro p b hp hb
    have hsettle := setAdvanceLoop_tookPacket size p b gs []
    rw [append_nil] at hsettle
    have hsize : b ≤ size := by
      rcases Nat.le_one_iff_eq_zero_or_eq_one.mp hp with rfl | rfl
      · exact hb.trans (Nat.zero_le _)
      · exact hb
    simp only [hsettle, map_map, setAdvanceLoop, append_nil]
    refine forall₂_map_right_iff.mpr (forall₂_same.mpr fun g hg => ?_)
    have hspent := spent_settle (hbelow g hg) (hall g hg) le_rfl le_rfl hp hsize
    simpa only [settle, Nat.sub_self, giveBack_zero, Function.comp_apply, untaken] using hspent
  · have hloop := packetLoop_append
      (fun g hg => ⟨hbelow g (mem_append_left _ hg), hpre g hg⟩) ((g :: post).map untaken)
    have hcheck := checkPacket_eq (hbelow g (by simp)) size
    rw [if_neg hno] at hcheck
    have hstop : packetLoop size ((g :: post).map untaken) =
        (some (.delayUntil g.waitUntil), (g :: post).map untaken) := by
      simp only [map_cons, packetLoop, untaken, hcheck]
    have hsettle : (setAdvanceLoop 0 0 (pre.map (tookPacket size) ++
        (g :: post).map untaken)).map (·.inner) =
          pre.map (fun g => (g.reserve 1 size).giveBack 1 size) ++ g :: post := by
      rw [setAdvanceLoop_tookPacket, map_append, map_map]
      exact congrArg _ (map_untaken_inner (g :: post))
    rw [hstop, ← map_append, ← hd] at hloop
    simp only [checkGlobalPacket, hloop, Exact, buckets, releaseGlobal, releaseLoop_eq, hsettle]
    refine rel_append (forall₂_map_right_iff.mpr (forall₂_same.mpr fun g' hg' => ?_))
      (spent_unchanged _)
    exact spent_undone_bytes (hbelow g' (mem_append_left _ hg')) (hpre g' hg')

/-! ### Batches -/

theorem setAdvanceLoop_tookBatch_zero (gs : List GlobalDatagramLimiter) :
    setAdvanceLoop 0 0 (gs.map (tookBatch [] 0)) = gs.map untaken := by
  induction gs with
  | nil => rfl
  | cons g gs ih =>
    simp only [map_cons, setAdvanceLoop, tookBatch] at ih ⊢
    rw [ih, setAdvance_inner_none rfl]
    simp [total, untaken]

section
variable [BinarySearch]

/-- The first loop over an empty batch. -/
theorem packetsLoop_empty (gs : List GlobalDatagramLimiter) :
    packetsLoop [] (gs.map untaken) 0 = some (.ok 0, gs.map (tookBatch [] 0)) := by
  induction gs with
  | nil => rfl
  | cons g gs ih =>
    have hcheck : g.checkPackets [] = (.advance 0, g.reserve 0 0) := by
      rw [reserve_zero]
      rfl
    simp only [map_cons, packetsLoop, length_nil, lt_irrefl, if_false, take_nil,
      show (untaken g).inner = g from rfl, hcheck, ih]
    rfl

/-- An empty batch takes nothing. -/
theorem exact_empty {d d' : DatagramLimiter} {action : DatagramLimitAction}
    (hd : d.global = gs.map untaken) (h : d.checkGlobalPackets [] n = some (action, d')) :
    Exact gs [] action d' := by
  rw [checkGlobalPackets] at h
  split at h
  case isTrue hnil =>
    cases h
    rw [hd, map_eq_nil_iff] at hnil
    subst hnil
    rw [exact_advance_iff, hd]
    exact fun _ _ _ _ => .nil
  case isFalse hne =>
    obtain _ | n := n
    · rw [hd, packetsLoop_empty] at h
      cases h
      rw [exact_advance_iff]
      intro p b hp hb
      obtain rfl : p = 0 := Nat.le_zero.mp hp
      obtain rfl : b = 0 := Nat.le_zero.mp hb
      rw [setAdvanceLoop_tookBatch_zero, map_untaken_inner]
      exact spent_unchanged _
    -- a part of it that is longer than the batch is looked at: this is a panic
    · obtain ⟨l, ls, hls⟩ := exists_cons_of_ne_nil hne
      rw [hls, packetsLoop, if_pos (show [].length < n + 1 from Nat.succ_pos n)] at h
      cases h

theorem exact_batch_iff (batch : Batch) (hbelow : ∀ g ∈ gs, g.Below) (hpos : 0 < n)
    (hn : n ≤ batch.sizes.length) (hd : d.global = gs.map untaken) :
    ∃ action d', d.checkGlobalPackets batch.sizes n = some (action, d') ∧
      (Exact gs batch.sizes action d' ↔ BatchSound batch.sizes n gs) := by
  have hv := batch.cumulative
  rcases eq_nil_or_concat gs with rfl | hsome
  · refine ⟨.advance n, d, ?_, ?_⟩
    · rw [checkGlobalPackets, if_pos (hd.trans map_nil)]
    · rw [exact_advance_iff, hd]
      exact iff_of_true (fun _ _ _ _ => .nil) (.inl fun g hg => absurd hg not_mem_nil)
  have hne : d.global ≠ [] := by
    obtain ⟨_, _, rfl⟩ := hsome
    simp [hd]
  rcases all_or_first (·.Affords 1 (max 1 (total batch.sizes 1))) gs with
    hall | ⟨pre, g, post, rfl, hpre, hno⟩
  · obtain ⟨ls, k, htaken, hloop⟩ := packetsLoop_append hv hpos hn
      fun g hg => ⟨hbelow g hg, hall g hg⟩
    have hdone := hloop []
    rw [append_nil, ← hd] at hdone
    obtain ⟨ls', htrim⟩ := htaken.trims k
    have hkpos := htaken.pos hpos
    refine ⟨.advance k, { d with global := ls' }, ?_, ?_⟩
    · simp [checkGlobalPackets, hne, hdone, packetsLoop, hkpos, htrim]
    · refine iff_of_true (exact_advance_iff.mpr fun p b hp hb => ?_) (.inl hall)
      have hsize := hb.trans (total_le_total hv hp (htaken.le.trans hn))
      exact htaken.charged hv hn le_rfl hp hsize htrim
  · obtain ⟨ls, k, htaken, hloop⟩ := packetsLoop_append hv hpos hn
      fun g hg => ⟨hbelow g (mem_append_left _ hg), hpre g hg⟩
    have hkpos := htaken.pos hpos
    have hklen := htaken.le.trans hn
    have hspec := checkPackets_spec (g := g) (v := batch.sizes.take k)
      (hbelow g (by simp)) (hv.sublist (take_sublist _ _)) (by
        rw [← length_pos_iff, length_take]
        omega)
    rw [total_take hkpos, if_neg hno] at hspec
    have hstop : packetsLoop batch.sizes ((g :: post).map untaken) k =
        some (.error (.delayUntil g.waitUntil), (g :: post).map untaken) := by
      simp only [map_cons, packetsLoop, untaken, hspec, if_neg (Nat.not_lt.mpr hklen)]
    have hdone := hloop ((g :: post).map untaken)
    rw [hstop, ← map_append, ← hd] at hdone
    have hnot : ¬∀ g' ∈ pre ++ g :: post, g'.Affords 1 (max 1 (total batch.sizes 1)) :=
      fun h => hno (h g (by simp))
    refine ⟨.delayUntil g.waitUntil,
      { d with global := releaseLoop (ls ++ (g :: post).map untaken) }, ?_, ?_⟩
    · simp [checkGlobalPackets, hne, hdone, releaseGlobal]
    · rw [BatchSound, or_iff_right hnot, releaseLoop_eq]
      exact htaken.undone_iff hv hn hpre hno post

end

/-! ### The whole request -/

section
variable (d) [BinarySearch]

def check (curMillis : Nat) : Request → Option (DatagramLimitAction × DatagramLimiter)
  | .packet bufSize => some (d.checkPacket curMillis bufSize)
  | .packets batch => d.checkPackets curMillis batch.sizes

def AllOrNothing (curMillis : Nat) (req : Request) : Prop :=
  ∀ action d', d.check curMillis req = some (action, d') → Exact d.buckets req.sizes action d'

/-- The answer of the local limit. -/
def localAnswer (curMillis : Nat) : Request → DatagramLimitAction
  | .packet bufSize =>
    if d.localIsSet then (d.loc.checkPacket curMillis bufSize).1 else .advance 1
  | .packets batch =>
    if d.localIsSet then (d.loc.checkPackets curMillis batch.sizes).1
    else .advance batch.sizes.length

/-- The requests that are all or nothing. -/
def Sound (curMillis : Nat) (req : Request) : Prop :=
  match d.localAnswer curMillis req, req with
  | .advance n, .packets batch => batch.sizes = [] ∨ BatchSound batch.sizes n d.buckets
  | _, _ => True

variable {d}

theorem allOrNothing_packet (hd : d.Settled) (hbelow : ∀ g ∈ d.buckets, g.Below)
    (curMillis size : Nat) : d.AllOrNothing curMillis (.packet size) := by
  intro action d' heq
  have hpair := Option.some.inj heq
  cases hset : d.localIsSet with
  | false =>
    simp only [checkPacket, hset, Bool.false_eq_true, if_false] at hpair
    have hexact := exact_packet size hbelow hd.global_eq
    rwa [hpair] at hexact
  | true =>
    rcases hloc : d.loc.checkPacket curMillis size with ⟨_ | _ | _, loc⟩
    · simp only [checkPacket, hset, if_true, hloc] at hpair
      have hexact := exact_packet size (d := { d with localIsSet := true, loc := loc })
        hbelow hd.global_eq
      rwa [hpair] at hexact
    all_goals
      simp only [checkPacket, hset, if_true, hloc] at hpair
      cases hpair
      exact spent_unchanged _

/-- Behind the local limit. -/
theorem exact_packets_iff (batch : Batch) (hbelow : ∀ g ∈ gs, g.Below)
    (hn : batch.sizes ≠ [] → 0 < n ∧ n ≤ batch.sizes.length) (hd : d.global = gs.map untaken) :
    (∀ action d', d.checkGlobalPackets batch.sizes n = some (action, d') →
      Exact gs batch.sizes action d') ↔ batch.sizes = [] ∨ BatchSound batch.sizes n gs := by
  by_cases hempty : batch.sizes = []
  · refine iff_of_true (fun action d' h => ?_) (Or.inl hempty)
    rw [hempty] at h ⊢
    exact exact_empty hd h
  · obtain ⟨hpos, hle⟩ := hn hempty
    obtain ⟨action, d', hcheck, hiff⟩ := exact_batch_iff batch hbelow hpos hle hd
    rw [or_iff_right hempty, ← hiff]
    constructor
    · intro h
      exact h action d' hcheck
    · rintro h action' d'' heq
      cases hcheck.symm.trans heq
      exact h

theorem allOrNothing_packets_iff (hd : d.Settled)
    (hbelow : ∀ g ∈ d.buckets, g.Below) (curMillis : Nat) (batch : Batch) :
    d.AllOrNothing curMillis (.packets batch) ↔ d.Sound curMillis (.packets batch) := by
  cases hset : d.localIsSet with
  | false =>
    simp only [AllOrNothing, check, checkPackets, Sound, localAnswer, hset, Bool.false_eq_true,
      if_false]
    exact exact_packets_iff batch hbelow (fun h => ⟨length_pos_iff.mpr h, le_rfl⟩)
      hd.global_eq
  | true =>
    rcases hloc : d.loc.checkPackets curMillis batch.sizes with ⟨_ | _ | _, loc⟩
    · simp only [AllOrNothing, check, checkPackets, Sound, localAnswer, hset, if_true, hloc]
      exact exact_packets_iff (d := { d with localIsSet := true, loc := loc }) batch hbelow
        (LocalDatagramLimiter.checkPackets_bounds hloc batch.cumulative) hd.global_eq
    all_goals
      simp only [AllOrNothing, check, checkPackets, Sound, localAnswer, hset, if_true, hloc,
        iff_true]
      rintro action d' heq
      cases heq
      exact spent_unchanged _

/-- A single datagram is all or nothing. A batch is, unless it has taken bytes from a bucket before the
    one that refuses it. -/
theorem allOrNothing_iff (d : DatagramLimiter) (hd : d.Settled) (hbelow : ∀ g ∈ d.buckets, g.Below)
    (curMillis : Nat) (req : Request) : d.AllOrNothing curMillis req ↔ d.Sound curMillis req := by
  cases req with
  | packet size =>
    refine iff_of_true (allOrNothing_packet hd hbelow curMillis size) ?_
    unfold Sound
    split
    · next heq => cases heq
    · trivial
  | packets batch => exact allOrNothing_packets_iff hd hbelow curMillis batch

end

theorem ten_fits : 10 < 2 ^ 64 := by decide

theorem thousand_fits : 1000 < 2 ^ 64 := by decide

/-- A bucket of ten packets and a thousand bytes each second. -/
def tenAndThousand : GlobalDatagramSpeedLimitConfig where
  replenishInterval := 1000
  replenishPackets := 10
  maxBurstPackets := 10
  replenishBytes := 1000
  maxBurstBytes := 1000
  bytesFit := thousand_fits
  packetsFit := ten_fits

/-- Two such buckets, of which the second one may be used up. -/
def twoBuckets (packetTokens byteTokens : Nat) : DatagramLimiter where
  global := [untaken ⟨tenAndThousand, 1000, 10, 0⟩,
    untaken ⟨tenAndThousand, byteTokens, packetTokens, 0⟩]

def hundreds : Batch where
  sizes := [100, 200]
  cumulative := by decide

theorem allOrNothing_hundreds :
    (twoBuckets 10 1000).Settled ∧ (twoBuckets 10 1000).AllOrNothing 0 (.packets hundreds) := by
  refine ⟨by decide, (allOrNothing_iff _ (by decide) (by decide) 0 _).mpr (Or.inr ?_)⟩
  change BatchSound [100, 200] 2 _
  unfold BatchSound
  decide

/-- The second bucket has no tokens. The first one gets its two packets back, and its two hundred
    bytes are gone. -/
theorem not_allOrNothing :
    (twoBuckets 0 0).Settled ∧ (∀ g ∈ (twoBuckets 0 0).buckets, g.Below) ∧
      ¬(twoBuckets 0 0).AllOrNothing 0 (.packets hundreds) := by
  refine ⟨by decide, by decide, fun h => ?_⟩
  have hcheck : (twoBuckets 0 0).check 0 (.packets hundreds) = some (.delayUntil 1000,
      { global := [untaken ⟨tenAndThousand, 800, 10, 0⟩, untaken ⟨tenAndThousand, 0, 0, 0⟩] }) := by
    decide
  obtain ⟨hfirst, -⟩ := forall₂_cons.mp (h _ _ hcheck)
  exact absurd (hfirst.bytes (by decide)) (by decide)

end DatagramLimiter

end Vey.IoExt

import Vey.IoExt.StreamLimit

/-! What is advanced through a shared bucket is bounded by what was put into it.

        tokens + held by the limiters + advanced  ≤  initial + replenish_bytes * replenished

    Every step of a limiter moves tokens between the terms on the left. -/

namespace Vey.IoExt
open Schemes List StreamSystem StreamPhase

section
variable {ι : Type} [DecidableEq ι]

/-- What the entries hold of bucket `i`, of which `size` bytes are already sent. -/
def heldBeyond (size : Nat) (i : ι) (es : List (StreamEntry ι)) : Nat :=
  (es.map fun e => if e.inner = i then e.checkedBytes.getD 0 - size else 0).sum

variable {i : ι} {size : Nat} {es es' : List (StreamEntry ι)}

@[simp] theorem heldBeyond_nil : heldBeyond size i [] = 0 := rfl

@[simp] theorem heldBeyond_cons (e : StreamEntry ι) :
    heldBeyond size i (e :: es) =
      (if e.inner = i then e.checkedBytes.getD 0 - size else 0) + heldBeyond size i es := by
  simp [heldBeyond]

@[simp] theorem heldBeyond_append :
    heldBeyond size i (es ++ es') = heldBeyond size i es + heldBeyond size i es' := by
  simp [heldBeyond]

/-- Entries from which nothing is taken. -/
theorem heldBeyond_none (h : ∀ e ∈ es, e.checkedBytes = none) : heldBeyond size i es = 0 := by
  induction es with
  | nil => rfl
  | cons e es ih =>
    obtain ⟨he, hes⟩ := forall_mem_cons.mp h
    simp [he, ih hes]

/-- The bytes that go through the bucket are no longer held. -/
theorem heldBeyond_advance {n : Nat} (hsize : size ≤ n) (h : ∀ e ∈ es, e.checkedBytes = some n) :
    heldBeyond size i es + size * passes i es = heldBeyond 0 i es := by
  induction es with
  | nil => rfl
  | cons e es ih =>
    obtain ⟨he, hes⟩ := forall_mem_cons.mp h
    have hrest := ih hes
    by_cases hi : e.inner = i
    · have hpass : passes i (e :: es) = passes i es + 1 :=
        countP_cons_of_pos (by simpa using hi)
      rw [heldBeyond_cons, heldBeyond_cons, if_pos hi, if_pos hi, he, hpass, Nat.mul_succ]
      simp only [Option.getD_some]
      omega
    · have hpass : passes i (e :: es) = passes i es :=
        countP_cons_of_neg (by simpa using hi)
      rw [heldBeyond_cons, heldBeyond_cons, if_neg hi, if_neg hi, hpass]
      omega

end

namespace BucketOp

variable {ι : Type} [DecidableEq ι]

/-- The tokens that a limiter takes from bucket `i`. -/
def taken (i : ι) : BucketOp ι → Nat
  | .consume j _ n => if j = i then n else 0
  | _ => 0

/-- The tokens that a limiter parts with: it gives them back, or sends that much through its buckets
    `es`. -/
def given (i : ι) (es : List (StreamEntry ι)) : BucketOp ι → Nat
  | .release j size => if j = i then size else 0
  | .advance size => size * StreamSystem.passes i es
  | _ => 0

end BucketOp

open BucketOp (given taken)

/-- What is already sent of what the entries ahead of the loop hold. -/
def StreamPhase.sent : StreamPhase → Nat
  | .setting size => size
  | _ => 0

namespace StreamLimiter

variable {ι : Type} {u u' : StreamLimiter ι} {op : BucketOp ι}

/-- Entries with something taken, then entries with nothing taken. -/
inductive Ordered : List (StreamEntry ι) → Prop where
  | none {es : List (StreamEntry ι)} : (∀ e ∈ es, e.checkedBytes = none) → Ordered es
  | some {e : StreamEntry ι} {es : List (StreamEntry ι)} {taken : Nat} :
    e.checkedBytes = some taken → Ordered es → Ordered (e :: es)

/-- What holds of the entries behind and ahead of the loop. -/
def GoodAt (visited global : List (StreamEntry ι)) : StreamPhase → Prop
  | .idle => visited = [] ∧ ∀ e ∈ global, e.checkedBytes = none
  | .checking target n =>
    n ≤ target ∧ (∀ e ∈ visited, ∃ taken, e.checkedBytes = some taken ∧ n ≤ taken ∧
      taken ≤ target) ∧ ∀ e ∈ global, e.checkedBytes = none
  | .shrinking target n =>
    n ≤ target ∧ (∀ e ∈ visited, e.checkedBytes = some n) ∧
      ∀ e ∈ global, ∃ taken, e.checkedBytes = some taken ∧ n ≤ taken
  | .granted target n => n ≤ target ∧ visited = [] ∧ ∀ e ∈ global, e.checkedBytes = some n
  | .setting size =>
    (∀ e ∈ visited, e.checkedBytes = none) ∧
      ∀ e ∈ global, ∃ taken, e.checkedBytes = some taken ∧ size ≤ taken
  | .releasing => (∀ e ∈ visited, e.checkedBytes = none) ∧ Ordered global
  | .dropping => ∀ e ∈ visited, e.checkedBytes = none
  | .dropped => True

def Good (u : StreamLimiter ι) : Prop := GoodAt u.visited u.global u.phase

variable {phase : StreamPhase} {rest : List (StreamEntry ι)}

theorem Good.at (hu : u.Good) (h : u.phase = phase) : GoodAt u.visited u.global phase := h ▸ hu

variable {es es' : List (StreamEntry ι)}

theorem ordered_append (h : ∀ e ∈ es, ∃ taken, e.checkedBytes = some taken)
    (hrest : ∀ e ∈ es', e.checkedBytes = none) : Ordered (es ++ es') := by
  induction es with
  | nil => exact .none hrest
  | cons e es ih =>
    obtain ⟨⟨taken, he⟩, hes⟩ := forall_mem_cons.mp h
    exact .some he (ih hes)

variable {e : StreamEntry ι}

theorem Ordered.tail (h : Ordered (e :: es)) : Ordered es := by
  cases h with
  | none hnone => exact .none (forall_mem_cons.mp hnone).2
  | some _ hes => exact hes

theorem Ordered.all_none (h : Ordered (e :: es))
    (he : e.checkedBytes = Option.none) : ∀ e' ∈ e :: es, e'.checkedBytes = Option.none := by
  cases h with
  | none hnone => exact hnone
  | some hsome _ =>
    rw [he] at hsome
    cases hsome

variable {P : StreamEntry ι → Prop}

/-- One more entry is behind the loop. -/
theorem forall_mem_visit (h : ∀ e ∈ es, P e) (he : P e) : ∀ e' ∈ es ++ [e], P e' :=
  forall_mem_append.mpr ⟨h, forall_mem_singleton.mpr he⟩

theorem forall_mem_rest (h : ∀ e ∈ es, P e) (heq : es = e :: rest) :
    P e ∧ ∀ e' ∈ rest, P e' := by
  subst heq
  exact forall_mem_cons.mp h

theorem forall_mem_none (heq : es = []) : ∀ e ∈ es, P e := by
  subst heq
  exact fun e he => absurd he not_mem_nil

theorem Step.good (h : u.Step op u') (hop : ∀ i size n, op = .consume i size n → n ≤ size)
    (hu : u.Good) : u'.Good := by
  cases h with
  | check hphase _ hloc =>
    obtain ⟨hvisited, hnone⟩ := hu.at hphase
    refine ⟨LocalStreamLimiter.check_le hloc, forall_mem_none rfl, ?_⟩
    exact forall_mem_append.mpr ⟨forall_mem_none hvisited, hnone⟩
  | checkDelay hphase _ _ => exact hu
  | checkGlobal hphase _ =>
    obtain ⟨hvisited, hnone⟩ := hu.at hphase
    refine ⟨le_rfl, forall_mem_none rfl, ?_⟩
    exact forall_mem_append.mpr ⟨forall_mem_none hvisited, hnone⟩
  | @consume target size n e rest hphase hglobal =>
    obtain ⟨htarget, htaken, hnone⟩ := hu.at hphase
    have hn := hop _ _ _ rfl
    refine ⟨hn.trans htarget, forall_mem_visit ?_ ⟨n, rfl, le_rfl, hn.trans htarget⟩,
      (forall_mem_rest hnone hglobal).2⟩
    intro e' he'
    obtain ⟨taken, heq, hle, hmax⟩ := htaken e' he'
    exact ⟨taken, heq, hn.trans hle, hmax⟩
  | refused hphase hglobal =>
    obtain ⟨-, htaken, hnone⟩ := hu.at hphase
    refine ⟨forall_mem_none rfl, ordered_append ?_ hnone⟩
    intro e he
    obtain ⟨taken, heq, -⟩ := htaken e he
    exact ⟨taken, heq⟩
  | @checked target n hphase hglobal =>
    obtain ⟨htarget, htaken, -⟩ := hu.at hphase
    by_cases hless : n < target
    · rw [if_pos hless]
      refine ⟨htarget, forall_mem_none rfl, forall_mem_append.mpr ⟨?_, forall_mem_none hglobal⟩⟩
      intro e he
      obtain ⟨taken, heq, hle, -⟩ := htaken e he
      exact ⟨taken, heq, hle⟩
    · rw [if_neg hless]
      refine ⟨htarget, rfl, forall_mem_append.mpr ⟨?_, forall_mem_none hglobal⟩⟩
      intro e he
      obtain ⟨taken, heq, hle, hmax⟩ := htaken e he
      rw [heq, show taken = n by omega]
  | shrink hphase hglobal htaken =>
    obtain ⟨htarget, hdone, hmore⟩ := hu.at hphase
    exact ⟨htarget, forall_mem_visit hdone rfl, (forall_mem_rest hmore hglobal).2⟩
  | shrunk hphase hglobal =>
    obtain ⟨htarget, hdone, -⟩ := hu.at hphase
    exact ⟨htarget, rfl, forall_mem_append.mpr ⟨hdone, forall_mem_none hglobal⟩⟩
  | setAdvance hphase hsize =>
    obtain ⟨-, hvisited, hall⟩ := hu.at hphase
    refine ⟨forall_mem_none rfl, forall_mem_append.mpr ⟨forall_mem_none hvisited, fun e he => ?_⟩⟩
    exact ⟨_, hall e he, hsize⟩
  | set hphase hglobal htaken =>
    obtain ⟨hdone, hmore⟩ := hu.at hphase
    exact ⟨forall_mem_visit hdone rfl, (forall_mem_rest hmore hglobal).2⟩
  | setBreak hphase hglobal hnone =>
    obtain ⟨-, hmore⟩ := hu.at hphase
    obtain ⟨taken, heq, -⟩ := (forall_mem_rest hmore hglobal).1
    rw [hnone] at heq
    cases heq
  | setDone hphase hglobal | released hphase hglobal =>
    obtain ⟨hdone, -⟩ := hu.at hphase
    exact ⟨rfl, forall_mem_append.mpr ⟨hdone, forall_mem_none hglobal⟩⟩
  | releaseGlobal hphase =>
    obtain ⟨-, hvisited, hall⟩ := hu.at hphase
    refine ⟨forall_mem_none rfl, ?_⟩
    rw [enter, ← append_nil (u.visited ++ u.global)]
    refine ordered_append (forall_mem_append.mpr ⟨forall_mem_none hvisited, ?_⟩) (forall_mem_none rfl)
    exact fun e he => ⟨_, hall e he⟩
  | release hphase hglobal htaken =>
    obtain ⟨hdone, hordered⟩ := hu.at hphase
    rw [hglobal] at hordered
    exact ⟨forall_mem_visit hdone rfl, hordered.tail⟩
  | releaseBreak hphase hglobal hnone =>
    obtain ⟨hdone, hordered⟩ := hu.at hphase
    rw [hglobal] at hordered
    exact ⟨rfl, forall_mem_append.mpr ⟨hdone, hglobal ▸ hordered.all_none hnone⟩⟩
  | dropIdle | dropGranted => exact forall_mem_none rfl
  | drop hphase | dropNone hphase => exact forall_mem_visit (hu.at hphase) rfl
  | dropped hphase hglobal => trivial

/-! ### One step moves tokens -/

variable [DecidableEq ι] {i : ι}

/-- What a limiter holds of a bucket. -/
def held (u : StreamLimiter ι) (i : ι) : Nat :=
  heldBeyond 0 i u.visited + heldBeyond u.phase.sent i u.global

theorem held_enter (hphase : phase.sent = 0) (hu : u.phase.sent = 0) :
    (u.enter phase).held i = u.held i := by
  simp [held, enter, hphase, hu]

theorem held_visit (phase : StreamPhase) (hglobal : u.global = e :: rest)
    (hphase : phase.sent = u.phase.sent) (checkedBytes : Option Nat) :
    (u.visit phase e.inner checkedBytes rest).held i +
        (if e.inner = i then e.checkedBytes.getD 0 - u.phase.sent else 0) =
      u.held i + if e.inner = i then checkedBytes.getD 0 else 0 := by
  simp only [held, visit, hglobal, hphase, heldBeyond_append, heldBeyond_cons, heldBeyond_nil,
    Nat.sub_zero]
  omega

theorem given_giveBack (j : ι) (taken size : Nat) (es : List (StreamEntry ι)) :
    (giveBack j taken size).given i es = if j = i then taken - size else 0 := by
  unfold giveBack
  split
  · rfl
  · have : taken - size = 0 := by omega
    simp [given, this]

theorem taken_giveBack (j : ι) (taken size : Nat) : (giveBack j taken size).taken i = 0 := by
  unfold giveBack
  split <;> rfl

theorem Step.held (h : u.Step op u') (hu : u.Good) :
    u'.held i + op.given i u.global = u.held i + op.taken i := by
  cases h with
  | @check curMillis target n loc hphase _ hloc =>
    exact held_enter (u := { u with loc := loc }) rfl (by rw [hphase]; rfl)
  | checkDelay hphase _ _ => rfl
  | checkGlobal hphase | refused hphase | shrunk hphase | releaseGlobal hphase
  | releaseBreak hphase | released hphase | dropIdle hphase | dropGranted hphase
  | dropped hphase => exact held_enter rfl (by rw [hphase]; rfl)
  | @consume target size n e rest hphase hglobal =>
    obtain ⟨-, -, hnone⟩ := hu.at hphase
    have he := (forall_mem_rest hnone hglobal).1
    have hvisit := held_visit (i := i) (.checking target n) hglobal
      (by rw [hphase]; rfl) (some n)
    simp only [he, Option.getD_none, Nat.zero_sub, ite_self, Option.getD_some] at hvisit
    exact hvisit
  | @checked target n hphase hglobal =>
    refine held_enter ?_ (by rw [hphase]; rfl)
    split <;> rfl
  | @shrink target n taken e rest hphase hglobal htaken =>
    obtain ⟨-, -, hmore⟩ := hu.at hphase
    obtain ⟨taken', heq, hle⟩ := (forall_mem_rest hmore hglobal).1
    have hvisit := held_visit (i := i) (.shrinking target n) hglobal
      (by rw [hphase]) (some n)
    rw [htaken] at heq
    cases heq
    rw [given_giveBack, taken_giveBack]
    simp only [htaken, hphase, sent, Option.getD_some, Nat.sub_zero] at hvisit
    by_cases hi : e.inner = i
    · rw [if_pos hi, if_pos hi] at hvisit
      rw [if_pos hi]
      omega
    · rw [if_neg hi, if_neg hi] at hvisit
      rw [if_neg hi]
      omega
  | @setAdvance target n size hphase hsize =>
    obtain ⟨-, hvisited, hall⟩ := hu.at hphase
    have hadvance := heldBeyond_advance (i := i) hsize hall
    simp only [StreamLimiter.held, enter, hphase, hvisited, sent, heldBeyond_nil,
      nil_append, given, taken]
    omega
  | @set size taken e rest hphase hglobal htaken =>
    have hvisit := held_visit (i := i) (.setting size) hglobal
      (by rw [hphase]) none
    rw [given_giveBack, taken_giveBack]
    simpa only [htaken, hphase, sent, Option.getD_some, Option.getD_none,
      ite_self] using hvisit
  | setBreak hphase hglobal hnone =>
    obtain ⟨-, hmore⟩ := hu.at hphase
    obtain ⟨taken, heq, -⟩ := (forall_mem_rest hmore hglobal).1
    rw [hnone] at heq
    cases heq
  | setDone hphase hglobal =>
    simp [StreamLimiter.held, enter, hglobal, sent, given, taken]
  | release hphase hglobal htaken | drop hphase hglobal htaken =>
    have hvisit := held_visit (i := i) _ hglobal (congrArg _ hphase.symm) none
    simpa only [htaken, hphase, sent, Option.getD_some, Option.getD_none, ite_self,
      Nat.sub_zero, given, taken] using hvisit
  | @dropNone e rest hphase hglobal hnone =>
    have hvisit := held_visit (i := i) .dropping hglobal (by rw [hphase]) none
    simp only [hnone, Option.getD_none, Nat.zero_sub, ite_self] at hvisit
    exact hvisit

end StreamLimiter

open StreamLimiter (Good Step)

namespace GlobalStreamLimiter

variable {g g' : GlobalStreamLimiter} {size n : Nat}

/-- At most what was asked for is taken, and it comes out of the tokens. -/
theorem tryConsume_spec (h : g.tryConsume size = some (n, g')) :
    n ≤ size ∧ g'.byteTokens + n = g.byteTokens ∧ g'.replenishBytes = g.replenishBytes ∧
      g'.maxBurstBytes = g.maxBurstBytes := by
  unfold tryConsume at h
  split at h
  · cases h
    refine ⟨by omega, ?_, rfl, rfl⟩
    dsimp only
    omega
  · cases h

end GlobalStreamLimiter

/-! ### Runs -/

namespace StreamSystem

section
variable {ι κ : Type} [DecidableEq κ]

@[simp] theorem setUser_self (s : StreamSystem ι κ) (k : κ) (u : StreamLimiter ι) :
    (s.setUser k u).users k = u := Function.update_self ..

theorem setUser_of_ne (s : StreamSystem ι κ) {j k : κ} (h : j ≠ k) (u : StreamLimiter ι) :
    (s.setUser k u).users j = s.users j := Function.update_of_ne h ..

end

variable {ι κ : Type} [DecidableEq ι] [Fintype κ] {s₀ s s' : StreamSystem ι κ}

/-- What all the limiters hold of a bucket. -/
def held (s : StreamSystem ι κ) (i : ι) : Nat := ∑ k, (s.users k).held i

/-- The invariant of a run from `s₀`. -/
structure Inv (s₀ s : StreamSystem ι κ) : Prop where
  good : ∀ k, (s.users k).Good
  replenishBytes : ∀ i, (s.buckets i).replenishBytes = (s₀.buckets i).replenishBytes
  maxBurstBytes : ∀ i, (s.buckets i).maxBurstBytes = (s₀.buckets i).maxBurstBytes
  ledger : ∀ i, (s.buckets i).byteTokens + s.held i + s.advanced i ≤
    (s₀.buckets i).byteTokens + (s₀.buckets i).replenishBytes * s.replenished i
  burst : ∀ i, (s.buckets i).byteTokens ≤
    max (s₀.buckets i).byteTokens (s₀.buckets i).maxBurstBytes

theorem inv_fresh (h : s₀.Fresh) : Inv s₀ s₀ where
  good k := by
    have hphase := h.phase k
    unfold Good
    rw [hphase]
    exact ⟨h.visited k, h.global k⟩
  replenishBytes _ := rfl
  maxBurstBytes _ := rfl
  ledger i := by
    have hheld : s₀.held i = 0 := Finset.sum_eq_zero fun k _ => by
      rw [StreamLimiter.held, h.visited k, heldBeyond_nil, heldBeyond_none (h.global k), Nat.add_zero]
    rw [hheld, h.advanced i, h.replenished i]
    omega
  burst i := Nat.le_max_left _ _

theorem Inv.replenish (h : Inv s₀ s) (i : ι) :
    Inv s₀ { s.setBucket i (s.buckets i).replenish with
      replenished := Function.update s.replenished i (s.replenished i + 1) } where
  good := h.good
  replenishBytes j := by
    have hbefore := h.replenishBytes j
    simp only [setBucket, Function.update_apply]
    split
    · subst j
      exact hbefore
    · exact hbefore
  maxBurstBytes j := by
    have hbefore := h.maxBurstBytes j
    simp only [setBucket, Function.update_apply]
    split
    · subst j
      exact hbefore
    · exact hbefore
  ledger j := by
    have hbefore := h.ledger j
    simp only [setBucket, Function.update_apply]
    split
    · subst j
      have hadd : (s.buckets i).replenish.byteTokens ≤
          (s.buckets i).byteTokens + (s₀.buckets i).replenishBytes := by
        rw [← h.replenishBytes i]
        exact refill_le_add _ _ _
      rw [Nat.mul_succ]
      change (s.buckets i).replenish.byteTokens + s.held i + s.advanced i ≤ _
      omega
    · exact hbefore
  burst j := by
    have hbefore := h.burst j
    simp only [setBucket, Function.update_apply]
    split
    · subst j
      have hadd : (s.buckets i).replenish.byteTokens ≤
          max (s.buckets i).byteTokens (s.buckets i).maxBurstBytes := refill_le_max _ _ _
      have hmax := h.maxBurstBytes i
      omega
    · exact hbefore

variable [DecidableEq κ]

theorem held_setUser (s : StreamSystem ι κ) (k : κ) (u : StreamLimiter ι) (i : ι) :
    (s.setUser k u).held i + (s.users k).held i = s.held i + u.held i := by
  have hold := Finset.add_sum_erase Finset.univ (fun j => (s.users j).held i) (Finset.mem_univ k)
  have hnew := Finset.add_sum_erase Finset.univ (fun j => ((s.setUser k u).users j).held i)
    (Finset.mem_univ k)
  have hrest : ∑ j ∈ Finset.univ.erase k, ((s.setUser k u).users j).held i =
      ∑ j ∈ Finset.univ.erase k, (s.users j).held i :=
    Finset.sum_congr rfl fun j hj => by rw [setUser_of_ne s (Finset.ne_of_mem_erase hj)]
  simp only [hrest, setUser_self] at hold hnew
  unfold held
  omega

variable {u : StreamLimiter ι} {k : κ} {op : BucketOp ι} {i : ι} {g : GlobalStreamLimiter}
  {size : Nat}

/-- A step of limiter `k`, and what it may do to the buckets. -/
theorem Inv.user (h : Inv s₀ s) (hstep : (s.users k).Step op u)
    (hop : ∀ i size n, op = .consume i size n → n ≤ size) {buckets : ι → GlobalStreamLimiter}
    {advanced : ι → Nat} (hconfig : ∀ i, (buckets i).replenishBytes = (s.buckets i).replenishBytes ∧
      (buckets i).maxBurstBytes = (s.buckets i).maxBurstBytes)
    (hledger : ∀ i, (buckets i).byteTokens + op.taken i + advanced i ≤
      (s.buckets i).byteTokens + op.given i (s.users k).global + s.advanced i)
    (hburst : ∀ i, (buckets i).byteTokens ≤
      max (s.buckets i).byteTokens (s.buckets i).maxBurstBytes) :
    Inv s₀ { s.setUser k u with buckets := buckets, advanced := advanced } where
  good j := by
    by_cases hj : j = k
    · subst hj
      rw [show _ = u from setUser_self s j u]
      exact hstep.good hop (h.good j)
    · rw [show _ = s.users j from setUser_of_ne s hj u]
      exact h.good j
  replenishBytes i := (hconfig i).1.trans (h.replenishBytes i)
  maxBurstBytes i := (hconfig i).2.trans (h.maxBurstBytes i)
  ledger i := by
    have hheld : (s.setUser k u).held i + (s.users k).held i = s.held i + u.held i :=
      held_setUser s k u i
    have hmoved := hstep.held (i := i) (h.good k)
    have hbefore := h.ledger i
    have hmove := hledger i
    change (buckets i).byteTokens + (s.setUser k u).held i + advanced i ≤
      _ + _ * s.replenished i
    omega
  burst i := by
    have hbefore := h.burst i
    have hmax := h.maxBurstBytes i
    have hnow := hburst i
    change (buckets i).byteTokens ≤ _
    omega

/-- The step touches bucket `i` only. -/
theorem Inv.touch (h : Inv s₀ s) (hstep : (s.users k).Step op u)
    (hop : ∀ i size n, op = .consume i size n → n ≤ size)
    (hreplenish : g.replenishBytes = (s.buckets i).replenishBytes)
    (hmax : g.maxBurstBytes = (s.buckets i).maxBurstBytes) (hledger : g.byteTokens + op.taken i ≤
      (s.buckets i).byteTokens + op.given i (s.users k).global)
    (hother : ∀ j, j ≠ i → op.taken j = 0)
    (hburst : g.byteTokens ≤ max (s.buckets i).byteTokens (s.buckets i).maxBurstBytes) :
    Inv s₀ ((s.setBucket i g).setUser k u) := by
  refine h.user hstep hop (fun j => ?_) (fun j => ?_) (fun j => ?_)
  all_goals
    simp only [setBucket, Function.update_apply]
    split
  · subst j
    exact ⟨hreplenish, hmax⟩
  · exact ⟨rfl, rfl⟩
  · subst j
    omega
  case isFalse hj =>
    rw [hother j hj]
    omega
  · subst j
    exact hburst
  · exact Nat.le_max_left _ _

theorem Inv.consume (h : Inv s₀ s) {n : Nat} (hstep : (s.users k).Step (.consume i size n) u)
    (htry : (s.buckets i).tryConsume size = some (n, g)) :
    Inv s₀ ((s.setBucket i g).setUser k u) := by
  obtain ⟨hn, htokens, hreplenish, hmax⟩ := GlobalStreamLimiter.tryConsume_spec htry
  refine h.touch hstep ?_ hreplenish hmax ?_ (fun j hj => if_neg (Ne.symm hj)) (by omega)
  · rintro _ _ _ heq
    cases heq
    exact hn
  · simp only [taken, given, if_true]
    omega

theorem Inv.release (h : Inv s₀ s) (hstep : (s.users k).Step (.release i size) u) :
    Inv s₀ ((s.setBucket i ((s.buckets i).release size)).setUser k u) := by
  refine h.touch hstep (fun _ _ _ heq => by cases heq) rfl rfl ?_ (fun _ _ => rfl)
    (refill_le_max _ _ _)
  have : ((s.buckets i).release size).byteTokens ≤ _ := refill_le_add _ _ _
  simp only [taken, given, if_true]
  omega

theorem Step.inv (hstep : Step s s') (h : Inv s₀ s) : Inv s₀ s' := by
  cases hstep with
  | none hu | refused hu =>
    exact h.user hu (fun _ _ _ heq => by cases heq) (fun _ => ⟨rfl, rfl⟩) (fun _ => le_rfl)
      fun _ => Nat.le_max_left _ _
  | consume hu htry => exact h.consume hu htry
  | release hu => exact h.release hu
  | advance hu =>
    refine h.user hu (fun _ _ _ heq => by cases heq) (fun _ => ⟨rfl, rfl⟩) (fun i => ?_)
      fun _ => Nat.le_max_left _ _
    simp only [taken, given, setUser]
    omega
  | replenish i => exact h.replenish i

theorem inv_of_run (h₀ : s₀.Fresh) (h : Relation.ReflTransGen Step s₀ s) : Inv s₀ s := by
  induction h with
  | refl => exact inv_fresh h₀
  | tail _ hstep ih => exact hstep.inv ih

/-- However the limiters interleave: no more bytes go through a bucket than were in it at the start and
    put into it since; the tokens stay within the burst limit; and nobody is granted more than it asked
    for. -/
theorem run_bounded (h₀ : s₀.Fresh) (h : Relation.ReflTransGen Step s₀ s) :
    (∀ i, s.advanced i ≤
      (s₀.buckets i).byteTokens + (s₀.buckets i).replenishBytes * s.replenished i) ∧
    (∀ i, (s.buckets i).byteTokens ≤
      max (s₀.buckets i).byteTokens (s₀.buckets i).maxBurstBytes) ∧
    ∀ k target n, (s.users k).phase = .granted target n → n ≤ target := by
  have hinv := inv_of_run h₀ h
  refine ⟨fun i => ?_, hinv.burst, fun k target n hphase => ?_⟩
  · have := hinv.ledger i
    omega
  · exact ((hinv.good k).at hphase).1

/-- Two limiters share a bucket of ten bytes. -/
def twoUsers : StreamSystem Unit Bool where
  buckets _ := ⟨10, 20, 10⟩
  users _ := { global := [⟨(), none⟩] }
  advanced _ := 0
  replenished _ := 0

/-- Both ask for seven bytes. The first one sends them all, and the second one gets three. -/
theorem run_bounded_twoUsers :
    twoUsers.Fresh ∧ ∃ s, Relation.ReflTransGen Step twoUsers s ∧
      (s.users true).phase = .setting 7 ∧ (s.users false).phase = .granted 7 3 ∧
      s.advanced () = 7 ∧ s.advanced () ≤ 10 + 10 * s.replenished () := by
  have hfresh : twoUsers.Fresh :=
    ⟨fun _ => rfl, fun _ => rfl, fun _ => by simp [twoUsers], fun _ => rfl, fun _ => rfl⟩
  have hrun : ∃ s, Relation.ReflTransGen Step twoUsers s ∧ (s.users true).phase = .setting 7 ∧
      (s.users false).phase = .granted 7 3 ∧ s.advanced () = 7 := by
    refine ⟨?s, ?run, ?first, ?second, ?sent⟩
    case run =>
      refine .head (.none (k := true) (@Step.checkGlobal _ _ 7 rfl (by decide))) ?_
      refine .head (@Step.consume _ _ _ _ _ true _ () 7 7 _ (.consume rfl rfl) rfl) ?_
      refine .head (.none (k := false) (@Step.checkGlobal _ _ 7 rfl (by decide))) ?_
      refine .head (@Step.consume _ _ _ _ _ false _ () 7 3 _ (.consume rfl rfl) rfl) ?_
      refine .head (.none (k := true) (.checked rfl rfl)) ?_
      refine .head (.none (k := false) (.checked rfl rfl)) ?_
      refine .head (.none (k := false) (@Step.shrink _ _ 7 3 3 _ _ rfl rfl rfl)) ?_
      refine .head (.none (k := false) (.shrunk rfl rfl)) ?_
      refine .head (.advance (k := true) (@Step.setAdvance _ _ 7 7 7 rfl le_rfl)) ?_
      exact .refl
    case first | second | sent => rfl
  obtain ⟨s, hsteps, hfirst, hsecond, hsent⟩ := hrun
  exact ⟨hfresh, s, hsteps, hfirst, hsecond, hsent, (run_bounded hfresh hsteps).1 ()⟩

end StreamSystem

end Vey.IoExt

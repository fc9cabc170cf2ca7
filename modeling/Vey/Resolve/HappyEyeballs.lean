import Vey.Resolver.Record

/-! `HappyEyeballsResolveJob`: the addresses of a domain, one family after the other.

        h1 ----- answer            r1, or the answer that comes first
        h2 --------- answer        r2, the other one

    Both answers are cut to the number of tries; addresses that failed before go last. -/

namespace Vey.Resolve
open Schemes Vey.Types Resolver List

inductive QueryStrategy where
  | ipv4Only
  | ipv6Only
  | ipv4First
  | ipv6First

def QueryStrategy.adjustTo (s other : QueryStrategy) : QueryStrategy :=
  match s with
  | .ipv4Only | .ipv6Only => s
  | .ipv4First | .ipv6First => other

inductive PickStrategy where
  | random
  | serial

structure ResolveStrategy where
  query : QueryStrategy := .ipv4First
  pick : PickStrategy := .random

/-- `fastrand::shuffle`, as one draw of it treats every list. -/
structure Shuffle (α : Type) where
  shuffle : List α → List α
  perm : ∀ l, (shuffle l).Perm l

namespace ResolveStrategy

def adjustTo (s other : ResolveStrategy) : ResolveStrategy where
  query := s.query.adjustTo other.query
  pick := other.pick

variable {α : Type}

def pickMany (s : ResolveStrategy) (rand : Shuffle α) (all : List α) (count : Nat) : List α :=
  if 1 < all.length then
    match s.pick with
    | .serial => all.take count
    | .random => (rand.shuffle all).take count
  else all

def pickManyDeferring (s : ResolveStrategy) (rand : Shuffle α) (all : List α) (count : Nat)
    (defer : α → Bool) : List α :=
  if all.length ≤ 1 then s.pickMany rand all count
  else
    let preferred := all.filter fun item => !defer item
    let deferred := all.filter defer
    if preferred.isEmpty then s.pickMany rand deferred count
    else
      let preferred := s.pickMany rand preferred count
      if count ≤ preferred.length then preferred
      else s.pickMany rand deferred (count - preferred.length) ++ preferred

variable {s : ResolveStrategy} {rand : Shuffle α} {all : List α} {count : Nat} {x : α}

theorem mem_of_mem_pickMany (h : x ∈ s.pickMany rand all count) : x ∈ all := by
  rw [pickMany] at h
  split at h
  · split at h
    · exact mem_of_mem_take h
    · exact (rand.perm all).mem_iff.mp (mem_of_mem_take h)
  · exact h

theorem mem_of_mem_pickManyDeferring {defer : α → Bool}
    (h : x ∈ s.pickManyDeferring rand all count defer) : x ∈ all := by
  simp only [pickManyDeferring] at h
  split_ifs at h
  · exact mem_of_mem_pickMany h
  on_goal 3 => rcases mem_append.mp h with h | h
  all_goals exact mem_of_mem_filter (mem_of_mem_pickMany h)

end ResolveStrategy

/-- The answer of a query. -/
abbrev Answer := Except ResolveError (List IpAddr)

/-- The addresses of an answer. -/
def Answer.addrs : Answer → List IpAddr
  | .ok ips => ips
  | .error _ => []

inductive LoggedResolveJob where
  | never
  | error (e : Option ResolveError)
  /-- a query of the resolver that will be answered so -/
  | query (answer : Answer)

namespace LoggedResolveJob

/-- `poll_query`, awaited: `NeverResolveJob` has no answer. -/
def pollQuery : LoggedResolveJob → Option (Answer × LoggedResolveJob)
  | .never => none
  | .error (some e) => some (.error e, .error none)
  | .error none => some (.ok [], .error none)
  | .query answer => some (answer, .query answer)

/-- The addresses that the job can answer. -/
def addrs : LoggedResolveJob → List IpAddr
  | .query answer => answer.addrs
  | _ => []

theorem pollQuery_addrs {h h' : LoggedResolveJob} {r : Answer} (hp : h.pollQuery = some (r, h')) :
    r.addrs ⊆ h.addrs ∧ h'.addrs ⊆ h.addrs := by
  cases h with
  | never => cases hp
  | error e =>
    cases e with
    | none | some => cases hp; exact ⟨nil_subset _, nil_subset _⟩
  | query answer => cases hp; exact ⟨Subset.refl _, Subset.refl _⟩

end LoggedResolveJob

/-- `IntegratedResolverHandle` -/
structure ResolverHandle where
  queryV4 : DomainName → Except ResolveError LoggedResolveJob
  queryV6 : DomainName → Except ResolveError LoggedResolveJob

inductive ResolveRedirectionValue where
  | domain (d : DomainName)
  | ip (ip4 ip6 : List IpAddr)

/-- The two queries of a job and their answers. -/
structure HappyEyeballsResolveJob where
  domain : DomainName
  r1 : Option (List IpAddr) := none
  r2 : Option (List IpAddr) := none
  h1 : LoggedResolveJob := .never
  h2 : LoggedResolveJob := .never
  h1Done : Bool
  h2Done : Bool
  r2Block : Bool := false
  strategy : ResolveStrategy

/-- Which of two pending queries is answered first; if it is the second, whether the first one is
    answered within the resolution delay. -/
inductive FirstAnswer where
  | h1First
  | h2First (h1InTime : Bool)

namespace HappyEyeballsResolveJob

def newDyn (s : ResolveStrategy) (h : ResolverHandle) (domain : DomainName) :
    Except ResolveError HappyEyeballsResolveJob :=
  match s.query with
  | .ipv4Only => do
    let h1 ← h.queryV4 domain
    return { domain, h1, h1Done := false, h2Done := true, strategy := s }
  | .ipv4First => do
    let h1 ← h.queryV4 domain
    let h2 ← h.queryV6 domain
    return { domain, h1, h2, h1Done := false, h2Done := false, strategy := s }
  | .ipv6Only => do
    let h1 ← h.queryV6 domain
    return { domain, h1, h1Done := false, h2Done := true, strategy := s }
  | .ipv6First => do
    let h1 ← h.queryV6 domain
    let h2 ← h.queryV4 domain
    return { domain, h1, h2, h1Done := false, h2Done := false, strategy := s }

def newRedirected (s : ResolveStrategy) (h : ResolverHandle) (domain : DomainName) :
    ResolveRedirectionValue → Except ResolveError HappyEyeballsResolveJob
  | .domain d => do
    let job ← newDyn s h d
    return { job with domain }
  | .ip ip4 ip6 =>
    let job : HappyEyeballsResolveJob := { domain, h1Done := true, h2Done := true, strategy := s }
    .ok <| match s.query with
      | .ipv4Only => { job with r1 := some ip4, r2 := some [] }
      | .ipv4First =>
        if ip4 = [] then { job with r1 := some ip6, r2 := some ip4 }
        else { job with r1 := some ip4, r2 := some ip6 }
      | .ipv6Only => { job with r1 := some ip6, r2 := some [] }
      | .ipv6First =>
        if ip6 = [] then { job with r1 := some ip4, r2 := some ip6 }
        else { job with r1 := some ip6, r2 := some ip4 }

variable (j : HappyEyeballsResolveJob)

def pollH1End : Option (Answer × HappyEyeballsResolveJob) :=
  j.h1.pollQuery.map fun r => (r.1, { j with h1Done := true, h1 := .never })

def pollH2End : Option (Answer × HappyEyeballsResolveJob) :=
  j.h2.pollQuery.map fun r => (r.1, { j with h2Done := true, h2 := .never })

/-- The second query was answered first, with addresses. -/
def waitH1 (r2 : List IpAddr) (h1InTime : Bool) : Answer × HappyEyeballsResolveJob :=
  match if h1InTime then j.h1.pollQuery else none with
  | some (.ok r1, _) => (.ok r1, { j with r2 := some r2, h1Done := true, h1 := .never })
  | some (.error e, _) => (.ok r2, { j with h1 := .error (some e) })
  | none => (.ok r2, j)

/-- `get_r1_or_first_done`; without a result the caller waits for ever. -/
def getR1OrFirstDone (first : FirstAnswer) : Option (Answer × HappyEyeballsResolveJob) :=
  match j.r1 with
  | some r1 => some (.ok r1, { j with r1 := none })
  | none =>
    if j.h2Done then j.pollH1End
    else match first with
      | .h1First =>
        match j.h1.pollQuery with
        | none => none
        | some (.ok r1, _) => some (.ok r1, { j with h1Done := true, h1 := .never })
        | some (.error e, _) => pollH2End { j with h1 := .error (some e) }
      | .h2First h1InTime =>
        match j.h2.pollQuery with
        | none => none
        | some (.ok r2, _) =>
          if r2 = [] then pollH1End { j with h2Done := true, h2 := .never, r2 := some r2 }
          else some (waitH1 { j with h2Done := true, h2 := .never } r2 h1InTime)
        | some (.error e, _) => pollH1End { j with h2 := .error (some e) }

/-- `get_r2_or_never_deferring`, with its last step as a function. -/
def getR2OrNever (pick : List IpAddr → List IpAddr) : Option (Answer × HappyEyeballsResolveJob) :=
  if j.r2Block then none
  else match j.r2 with
    | some r2 => some (.ok (pick r2), { j with r2 := none, r2Block := true })
    | none =>
      if !j.h2Done then
        j.h2.pollQuery.map fun r => (r.1.map pick, { j with h2 := r.2, r2Block := true })
      else if !j.h1Done then
        j.h1.pollQuery.map fun r => (r.1.map pick, { j with h1 := r.2, r2Block := true })
      else some (.ok [], { j with r2Block := true })

/-! ### Where the addresses come from -/

/-- The addresses that the job has or will be told. -/
def addrs : List IpAddr :=
  j.r1.getD [] ++ j.r2.getD [] ++ j.h1.addrs ++ j.h2.addrs

/-- The answer and what is left are addresses of the job. -/
def Within (r : Answer × HappyEyeballsResolveJob) : Prop :=
  r.1.addrs ⊆ j.addrs ∧ r.2.addrs ⊆ j.addrs

variable {j} {r2 all : List IpAddr}

theorem addrs_subset_iff : j.addrs ⊆ all ↔
    j.r1.getD [] ⊆ all ∧ j.r2.getD [] ⊆ all ∧ j.h1.addrs ⊆ all ∧ j.h2.addrs ⊆ all := by
  simp only [addrs, append_subset, and_assoc]

variable {r : Answer × HappyEyeballsResolveJob}

theorem Within.of_le {j j' : HappyEyeballsResolveJob}
    (h : Within j' r) (hle : j'.addrs ⊆ j.addrs) : Within j r :=
  ⟨Subset.trans h.1 hle, Subset.trans h.2 hle⟩

section

variable (j)

theorem parts_subset : j.r1.getD [] ⊆ j.addrs ∧ j.r2.getD [] ⊆ j.addrs ∧ j.h1.addrs ⊆ j.addrs ∧
    j.h2.addrs ⊆ j.addrs := addrs_subset_iff.mp (Subset.refl _)

/-- A query that is over has no addresses left. -/
theorem addrs_done_h1 : addrs { j with h1Done := true, h1 := .never } ⊆ j.addrs := by
  obtain ⟨hr1, hr2, -, hh2⟩ := j.parts_subset
  exact addrs_subset_iff.mpr ⟨hr1, hr2, nil_subset _, hh2⟩

theorem addrs_done_h2 : addrs { j with h2Done := true, h2 := .never } ⊆ j.addrs := by
  obtain ⟨hr1, hr2, hh1, -⟩ := j.parts_subset
  exact addrs_subset_iff.mpr ⟨hr1, hr2, hh1, nil_subset _⟩

theorem addrs_error_h1 (e : ResolveError) :
    addrs { j with h1 := .error (some e) } ⊆ j.addrs := addrs_done_h1 j

theorem addrs_error_h2 (e : ResolveError) :
    addrs { j with h2 := .error (some e) } ⊆ j.addrs := addrs_done_h2 j

end

variable {pick : List IpAddr → List IpAddr}

/-- Addresses that are put aside as the second answer. -/
theorem addrs_set_r2 (hj : j.addrs ⊆ all) (hr2 : r2 ⊆ all) :
    addrs { j with r2 := some r2 } ⊆ all := by
  obtain ⟨hr1, -, hh1, hh2⟩ := addrs_subset_iff.mp hj
  exact addrs_subset_iff.mpr ⟨hr1, hr2, hh1, hh2⟩

theorem h1_answer {r : Answer × LoggedResolveJob}
    (h : j.h1.pollQuery = some r) : r.1.addrs ⊆ j.addrs :=
  Subset.trans (LoggedResolveJob.pollQuery_addrs h).1 j.parts_subset.2.2.1

theorem h2_answer {r : Answer × LoggedResolveJob}
    (h : j.h2.pollQuery = some r) : r.1.addrs ⊆ j.addrs :=
  Subset.trans (LoggedResolveJob.pollQuery_addrs h).1 j.parts_subset.2.2.2

theorem pollH1End_within (h : j.pollH1End = some r) : Within j r := by
  obtain ⟨a, hp, rfl⟩ := Option.map_eq_some_iff.mp h
  exact ⟨h1_answer hp, addrs_done_h1 j⟩

theorem pollH2End_within (h : j.pollH2End = some r) : Within j r := by
  obtain ⟨a, hp, rfl⟩ := Option.map_eq_some_iff.mp h
  exact ⟨h2_answer hp, addrs_done_h2 j⟩

theorem waitH1_within {h1InTime : Bool} (hj : j.addrs ⊆ all) (hr2 : r2 ⊆ all) :
    (waitH1 j r2 h1InTime).1.addrs ⊆ all ∧ (waitH1 j r2 h1InTime).2.addrs ⊆ all := by
  rw [waitH1]
  split
  next r1 _ h =>
    split at h
    · exact ⟨Subset.trans (h1_answer h) hj,
        addrs_set_r2 (Subset.trans (addrs_done_h1 j) hj) hr2⟩
    · cases h
  next e _ _ => exact ⟨hr2, Subset.trans (addrs_error_h1 j e) hj⟩
  next => exact ⟨hr2, hj⟩

theorem getR1OrFirstDone_within {first : FirstAnswer} (h : j.getR1OrFirstDone first = some r) :
    Within j r := by
  rw [getR1OrFirstDone.eq_def] at h
  split at h
  next r1 hr1 =>
    cases h
    obtain ⟨hmem, hparts⟩ := j.parts_subset
    rw [hr1] at hmem
    exact ⟨hmem, addrs_subset_iff.mpr ⟨nil_subset _, hparts⟩⟩
  next =>
    split at h
    · exact pollH1End_within h
    · split at h
      · split at h
        next => cases h
        next r1 _ hp => cases h; exact ⟨h1_answer hp, addrs_done_h1 j⟩
        next e _ _ => exact (pollH2End_within h).of_le (addrs_error_h1 j e)
      · split at h
        next => cases h
        next r2 _ hp =>
          have hr2 : r2 ⊆ j.addrs := h2_answer hp
          split at h
          · exact (pollH1End_within h).of_le (addrs_set_r2 (addrs_done_h2 j) hr2)
          · cases h
            exact waitH1_within (addrs_done_h2 j) hr2
        next e _ _ => exact (pollH1End_within h).of_le (addrs_error_h2 j e)

theorem map_addrs {r : Answer} (hpick : ∀ l, pick l ⊆ l) : Answer.addrs (r.map pick) ⊆ r.addrs := by
  cases r with
  | error e => exact Subset.refl _
  | ok l => exact hpick l

theorem getR2OrNever_within (hpick : ∀ l, pick l ⊆ l) (h : j.getR2OrNever pick = some r) :
    Within j r := by
  rw [getR2OrNever] at h
  split at h
  · cases h
  · split at h
    next r2 hr2 =>
      cases h
      have hmem := j.parts_subset.2.1
      rw [hr2] at hmem
      exact ⟨Subset.trans (hpick r2) hmem,
        addrs_set_r2 (Subset.refl j.addrs) (nil_subset _)⟩
    next =>
      split at h
      · obtain ⟨⟨a, h2⟩, hp, rfl⟩ := Option.map_eq_some_iff.mp h
        obtain ⟨hr1, hr2, hh1, hh2⟩ := j.parts_subset
        exact ⟨Subset.trans (map_addrs hpick) (h2_answer hp), addrs_subset_iff.mpr
          ⟨hr1, hr2, hh1, Subset.trans (LoggedResolveJob.pollQuery_addrs hp).2 hh2⟩⟩
      · split at h
        · obtain ⟨⟨a, h1⟩, hp, rfl⟩ := Option.map_eq_some_iff.mp h
          obtain ⟨hr1, hr2, hh1, hh2⟩ := j.parts_subset
          exact ⟨Subset.trans (map_addrs hpick) (h1_answer hp), addrs_subset_iff.mpr
            ⟨hr1, hr2, Subset.trans (LoggedResolveJob.pollQuery_addrs hp).2 hh1, hh2⟩⟩
        · cases h
          exact ⟨nil_subset _, Subset.refl j.addrs⟩

end HappyEyeballsResolveJob

end Vey.Resolve

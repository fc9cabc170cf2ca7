import Vey.IoExt.FixedWindow
import Vey.Schemes.TokenBucket

/-! The stream limits: buckets of byte tokens that many `StreamLimiter`s share.

    A limiter walks its list of buckets in every call, and touches one bucket at a time. Between two
    such steps any other limiter may take a step, and any bucket may be replenished:

        idle --check--> checking --all passed--> shrinking --> granted --set_advance--> setting --> idle
                           |                                      |
                           +--a bucket is empty--> releasing <----+ release_global
                                                       |
                                                      idle            (drop from idle and granted)

    The tokens of a bucket, what the limiters hold of it, and what was advanced through it never add
    up to more than what was put into it. -/

namespace Vey.IoExt
open Schemes

structure GlobalStreamLimiter where
  replenishBytes : Nat
  maxBurstBytes : Nat
  byteTokens : Nat

namespace GlobalStreamLimiter

variable (g : GlobalStreamLimiter)

def addBytes (size maxBurst : Nat) : GlobalStreamLimiter :=
  { g with byteTokens := refill g.byteTokens size maxBurst }

/-- One round of the task that replenishes the bucket. -/
def replenish : GlobalStreamLimiter :=
  g.addBytes g.replenishBytes g.maxBurstBytes

/-- The tokens that were taken, `none` if there are no tokens. -/
def tryConsume (size : Nat) : Option (Nat × GlobalStreamLimiter) :=
  if 0 < g.byteTokens then
    some (g.byteTokens - (g.byteTokens - size), { g with byteTokens := g.byteTokens - size })
  else none

def release (size : Nat) : GlobalStreamLimiter :=
  g.addBytes size g.maxBurstBytes

end GlobalStreamLimiter

/-- `GlobalLimiter`: the bucket `inner`, with what is taken from it. -/
structure StreamEntry (ι : Type) where
  inner : ι
  checkedBytes : Option Nat := none

/-- Where a `StreamLimiter` is in its calls. -/
inductive StreamPhase where
  | idle
  /-- The first loop of `check`: `target` was asked for, `toAdvance` is left of it. -/
  | checking (target toAdvance : Nat)
  /-- The second loop of `check`. -/
  | shrinking (target toAdvance : Nat)
  /-- `check` has answered with `AdvanceBy`. -/
  | granted (target toAdvance : Nat)
  | setting (size : Nat)
  | releasing
  | dropping
  | dropped

/-- A `StreamLimiter`, with its list of buckets cut where the current loop is. -/
structure StreamLimiter (ι : Type) where
  localIsSet : Bool := false
  loc : LocalStreamLimiter := {}
  phase : StreamPhase := .idle
  visited : List (StreamEntry ι) := []
  global : List (StreamEntry ι)

/-- What a step does to the buckets. -/
inductive BucketOp (ι : Type) where
  | none
  | consume (i : ι) (size n : Nat)
  /-- The bucket has no tokens. -/
  | refused (i : ι)
  | release (i : ι) (size : Nat)
  /-- So many bytes go through all the buckets of the limiter. -/
  | advance (size : Nat)

namespace StreamLimiter

variable {ι : Type}

/-- A loop starts at the first bucket. -/
def enter (u : StreamLimiter ι) (phase : StreamPhase) : StreamLimiter ι :=
  { u with phase := phase, visited := [], global := u.visited ++ u.global }

/-- The loop goes on behind the first bucket, which is left with `checkedBytes`. -/
def visit (u : StreamLimiter ι) (phase : StreamPhase) (i : ι) (checkedBytes : Option Nat)
    (rest : List (StreamEntry ι)) : StreamLimiter ι :=
  { u with phase := phase, visited := u.visited ++ [⟨i, checkedBytes⟩], global := rest }

/-- `release` of what is taken beyond `size`, if there is anything. -/
def giveBack (i : ι) (taken size : Nat) : BucketOp ι :=
  if size < taken then .release i (taken - size) else .none

inductive Step (u : StreamLimiter ι) : BucketOp ι → StreamLimiter ι → Prop where
  /-- The local limit is asked first. -/
  | check {curMillis target n : Nat} {loc : LocalStreamLimiter} :
    u.phase = .idle → u.localIsSet → u.loc.check curMillis target = (.advanceBy n, loc) →
    Step u .none ({ u with loc := loc }.enter (.checking target n))
  | checkDelay {curMillis target t : Nat} {loc : LocalStreamLimiter} :
    u.phase = .idle → u.localIsSet → u.loc.check curMillis target = (.delayFor t, loc) →
    Step u .none { u with loc := loc }
  | checkGlobal {target : Nat} : u.phase = .idle → ¬u.localIsSet →
    Step u .none (u.enter (.checking target target))
  | consume {target size n : Nat} {e rest} : u.phase = .checking target size → u.global = e :: rest →
    Step u (.consume e.inner size n) (u.visit (.checking target n) e.inner (some n) rest)
  | refused {target size : Nat} {e rest} : u.phase = .checking target size → u.global = e :: rest →
    Step u (.refused e.inner) (u.enter .releasing)
  | checked {target n : Nat} : u.phase = .checking target n →
    u.global = [] →
    Step u .none (u.enter (if n < target then .shrinking target n else .granted target n))
  | shrink {target n taken : Nat} {e rest} : u.phase = .shrinking target n → u.global = e :: rest →
    e.checkedBytes = some taken →
    Step u (giveBack e.inner taken n) (u.visit (.shrinking target n) e.inner (some n) rest)
  | shrunk {target n : Nat} : u.phase = .shrinking target n →
    u.global = [] → Step u .none (u.enter (.granted target n))
  /-- At most what was granted could be sent. -/
  | setAdvance {target n size : Nat} : u.phase = .granted target n →
    size ≤ n →
    Step u (.advance size)
      ({ u with loc := if u.localIsSet then u.loc.setAdvance size else u.loc }.enter (.setting size))
  | set {size taken : Nat} {e rest} : u.phase = .setting size → u.global = e :: rest →
    e.checkedBytes = some taken →
    Step u (giveBack e.inner taken size) (u.visit (.setting size) e.inner none rest)
  | setBreak {size : Nat} {e rest} : u.phase = .setting size → u.global = e :: rest →
    e.checkedBytes = none → Step u .none (u.enter .idle)
  | setDone {size : Nat} : u.phase = .setting size → u.global = [] →
    Step u .none (u.enter .idle)
  | releaseGlobal {target n : Nat} : u.phase = .granted target n →
    Step u .none (u.enter .releasing)
  | release {taken : Nat} {e rest} : u.phase = .releasing → u.global = e :: rest →
    e.checkedBytes = some taken →
    Step u (.release e.inner taken) (u.visit .releasing e.inner none rest)
  | releaseBreak {e rest} : u.phase = .releasing → u.global = e :: rest → e.checkedBytes = none →
    Step u .none (u.enter .idle)
  | released : u.phase = .releasing → u.global = [] →
    Step u .none (u.enter .idle)
  | dropIdle : u.phase = .idle → Step u .none (u.enter .dropping)
  | dropGranted {target n : Nat} : u.phase = .granted target n →
    Step u .none (u.enter .dropping)
  | drop {taken : Nat} {e rest} : u.phase = .dropping → u.global = e :: rest →
    e.checkedBytes = some taken → Step u (.release e.inner taken) (u.visit .dropping e.inner none rest)
  | dropNone {e rest} : u.phase = .dropping → u.global = e :: rest → e.checkedBytes = none →
    Step u .none (u.visit .dropping e.inner none rest)
  | dropped : u.phase = .dropping → u.global = [] →
    Step u .none (u.enter .dropped)

end StreamLimiter

/-- The buckets and the limiters that share them; with what was advanced through each bucket, and how
    often it was replenished. -/
structure StreamSystem (ι κ : Type) where
  buckets : ι → GlobalStreamLimiter
  users : κ → StreamLimiter ι
  advanced : ι → Nat
  replenished : ι → Nat

namespace StreamSystem

variable {ι κ : Type} [DecidableEq ι] [DecidableEq κ]

/-- How often a limiter goes through a bucket. -/
def passes (i : ι) (es : List (StreamEntry ι)) : Nat := es.countP fun e => e.inner = i

def setUser (s : StreamSystem ι κ) (k : κ) (u : StreamLimiter ι) : StreamSystem ι κ :=
  { s with users := Function.update s.users k u }

def setBucket (s : StreamSystem ι κ) (i : ι) (g : GlobalStreamLimiter) : StreamSystem ι κ :=
  { s with buckets := Function.update s.buckets i g }

/-- One atomic step of one limiter, or one replenishing of one bucket. -/
inductive Step : StreamSystem ι κ → StreamSystem ι κ → Prop where
  | none {s : StreamSystem ι κ} {k : κ} {u : StreamLimiter ι} :
    (s.users k).Step .none u → Step s (s.setUser k u)
  | consume {s : StreamSystem ι κ} {k : κ} {u : StreamLimiter ι} {i : ι} {size n : Nat}
    {g : GlobalStreamLimiter} : (s.users k).Step (.consume i size n) u →
    (s.buckets i).tryConsume size = some (n, g) → Step s ((s.setBucket i g).setUser k u)
  | refused {s : StreamSystem ι κ} {k : κ} {u : StreamLimiter ι} {i : ι} {size : Nat} :
    (s.users k).Step (.refused i) u → (s.buckets i).tryConsume size = none →
    Step s (s.setUser k u)
  | release {s : StreamSystem ι κ} {k : κ} {u : StreamLimiter ι} {i : ι} {size : Nat} :
    (s.users k).Step (.release i size) u →
    Step s ((s.setBucket i ((s.buckets i).release size)).setUser k u)
  | advance {s : StreamSystem ι κ} {k : κ} {u : StreamLimiter ι} {size : Nat} :
    (s.users k).Step (.advance size) u →
    Step s { s.setUser k u with
      advanced := fun i => s.advanced i + size * passes i (s.users k).global }
  | replenish {s : StreamSystem ι κ} (i : ι) :
    Step s { s.setBucket i (s.buckets i).replenish with
      replenished := Function.update s.replenished i (s.replenished i + 1) }

/-- Nothing is taken from the buckets yet. -/
structure Fresh (s : StreamSystem ι κ) : Prop where
  phase : ∀ k, (s.users k).phase = .idle
  visited : ∀ k, (s.users k).visited = []
  global : ∀ k, ∀ e ∈ (s.users k).global, e.checkedBytes = none
  advanced : ∀ i, s.advanced i = 0
  replenished : ∀ i, s.replenished i = 0

end StreamSystem

end Vey.IoExt

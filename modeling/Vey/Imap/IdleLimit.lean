import Vey.Imap.Answers

/-! The idle limit of `relay_authenticated` and of `relay_until_idle_done` inside it.

        line --> active = true
        tick --> active ? idle_count = 0 : idle_count += n, and out at max_idle_count

    Nothing takes `active` back. `relay_authenticated` starts without it and `relay_until_idle_done`
    with it. -/

namespace Vey.Imap
open Schemes Vey.Types IoExt Serve List

/-- `CloseReason`, with the errors that `Local` is built from. -/
inductive CloseReason where
  | server
  | client
  | idle (idleCount : Nat)
  | canceledAsUserBlocked
  | canceledAsServerQuit

inductive ClientAction where
  | loop
  | logout
  | idle
  | sendLiteral (size : Nat)

inductive ResponseAction where
  | loop
  | close
  | sendLiteral (size : Nat)
  | recvClientLiteral (size : Nat)

/-- What the branch of `select!` that is taken finds: a line and what came of it, the relay of a
    literal behind it included, or the count of the timer and whether the task is to be canceled.
    A line that continues another one comes to `loop`. -/
inductive RelayEvent where
  | cmdLine (line : Bytes) (action : Except ServerTaskError ClientAction)
  | rspLine (action : Except ServerTaskError ResponseAction)
  | tick (n : Nat) (blocked forceQuit : Bool)

def RelayEvent.IsLine : RelayEvent → Prop
  | .cmdLine _ _ | .rspLine _ => True
  | .tick _ _ _ => False

/-- The variables of the idle check. -/
structure IdleCheck where
  active : Bool
  idleCount : Nat := 0

namespace IdleCheck

def seen (c : IdleCheck) : IdleCheck := { c with active := true }

/-- The branch of the timer. -/
def tick (maxIdleCount : Nat) (c : IdleCheck) (n : Nat) (blocked forceQuit : Bool) :
    Except CloseReason IdleCheck :=
  if !c.active && maxIdleCount ≤ c.idleCount + n then .error (.idle (c.idleCount + n))
  else if blocked then .error .canceledAsUserBlocked
  else if forceQuit then .error .canceledAsServerQuit
  else .ok { c with idleCount := if c.active then 0 else c.idleCount + n }

end IdleCheck

/-- Which loop runs: `relay_until_idle_done` keeps the variables of its caller. -/
inductive Relaying where
  | authenticated (c : IdleCheck)
  | untilIdleDone (caller c : IdleCheck)
  | returned (r : Except ServerTaskError CloseReason)

namespace Relaying

def doneMsg : Bytes := ascii "DONE\r\n"

def onTick (loop : IdleCheck → Relaying) : Except CloseReason IdleCheck → Relaying
  | .error reason => .returned (.ok reason)
  | .ok c => loop c

/-- One round of the loop that runs. Its result stays. -/
def step (maxIdleCount : Nat) (s : Relaying) (e : RelayEvent) : Relaying :=
  match s, e with
  | .returned r, _ => .returned r
  | .authenticated _, .cmdLine _ (.error e) => .returned (.error e)
  | .authenticated c, .cmdLine _ (.ok action) =>
    match action with
    | .logout => .returned (.ok .client)
    | .idle => .untilIdleDone c.seen { active := true }
    | .loop | .sendLiteral _ => .authenticated c.seen
  | .untilIdleDone caller _, .cmdLine line action =>
    match action with
    | .error e => .returned (.error e)
    | .ok _ =>
      if line = doneMsg then .authenticated caller
      else .returned (.error (.clientAppError (ascii "invalid IMAP IDLE ending line")))
  | _, .rspLine (.error e) => .returned (.error e)
  | _, .rspLine (.ok .close) => .returned (.ok .server)
  | .authenticated c, .rspLine (.ok _) => .authenticated c.seen
  | .untilIdleDone caller c, .rspLine (.ok _) => .untilIdleDone caller c.seen
  | .authenticated c, .tick n blocked forceQuit =>
    onTick .authenticated (c.tick maxIdleCount n blocked forceQuit)
  | .untilIdleDone caller c, .tick n blocked forceQuit =>
    onTick (.untilIdleDone caller) (c.tick maxIdleCount n blocked forceQuit)

def run (maxIdleCount : Nat) (s : Relaying) (es : List RelayEvent) : Relaying :=
  es.foldl (step maxIdleCount) s

/-- No line comes, and the ticks count `ns`. A canceled task would see no further tick. -/
def silent (ns : List Nat) : List RelayEvent := ns.map fun n => .tick n false false

def Returned (s : Relaying) : Prop := ∃ r, s = .returned r

def IdleReturned (s : Relaying) : Prop := ∃ count, s = .returned (.ok (.idle count))

variable {maxIdleCount : Nat} {s : Relaying} {c : IdleCheck} {e : RelayEvent}

theorem run_returned (r : Except ServerTaskError CloseReason) :
    ∀ es, run maxIdleCount (.returned r) es = .returned r
  | [] => rfl
  | _ :: es => run_returned r es

/-! ### Behind a line -/

/-- The loop that runs has seen a line, or takes itself to have, and so has its caller. -/
def Awake : Relaying → Prop
  | .authenticated c => c.active = true
  | .untilIdleDone caller c => caller.active = true ∧ c.active = true
  | .returned r => ∀ count, r ≠ .ok (.idle count)

theorem onTick_awake {loop : IdleCheck → Relaying} (hloop : (loop ⟨true, 0⟩).Awake)
    (h : c.active = true) (n : Nat) (blocked forceQuit : Bool) :
    (onTick loop (c.tick maxIdleCount n blocked forceQuit)).Awake := by
  obtain ⟨active, count⟩ := c
  obtain rfl : active = true := h
  cases blocked
  · cases forceQuit
    · exact hloop
    · exact fun _ => nofun
  · exact fun _ => nofun

theorem Awake.step (h : s.Awake) (e : RelayEvent) : (s.step maxIdleCount e).Awake := by
  unfold Relaying.step
  split
  case h_1 => exact h
  case h_2 | h_5 | h_6 => exact fun _ => nofun
  case h_3 =>
    split
    · exact fun _ => nofun
    · exact ⟨rfl, rfl⟩
    · exact rfl
    · exact rfl
  case h_4 =>
    split
    · exact fun _ => nofun
    · split
      · exact h.1
      · exact fun _ => nofun
  case h_7 => exact rfl
  case h_8 => exact ⟨h.1, rfl⟩
  case h_9 => exact onTick_awake (by exact rfl) h _ _ _
  case h_10 => exact onTick_awake (by exact ⟨h.1, rfl⟩) h.2 _ _ _

theorem Awake.run (h : s.Awake) (es : List RelayEvent) : (s.run maxIdleCount es).Awake := by
  induction es generalizing s with
  | nil => exact h
  | cons e es ih => exact ih (h.step e)

theorem Awake.not_idleReturned (h : s.Awake) : ¬s.IdleReturned := by
  rintro ⟨count, rfl⟩
  exact h count rfl

/-! ### Before the first line -/

theorem step_line (h : e.IsLine) : ((authenticated c).step maxIdleCount e).Awake := by
  rcases e with ⟨line, _ | action⟩ | ⟨_ | action⟩ | _
  · exact fun _ => nofun
  · cases action with
    | loop | sendLiteral => exact rfl
    | logout => exact fun _ => nofun
    | idle => exact ⟨rfl, rfl⟩
  · exact fun _ => nofun
  · cases action with
    | loop | sendLiteral | recvClientLiteral => exact rfl
    | close => exact fun _ => nofun
  · exact h.elim

theorem step_tick (k n : Nat) (blocked forceQuit : Bool) :
    ((authenticated ⟨false, k⟩).step maxIdleCount (.tick n blocked forceQuit)).Returned ∨
      (authenticated ⟨false, k⟩).step maxIdleCount (.tick n blocked forceQuit) =
        .authenticated ⟨false, k + n⟩ := by
  simp only [step, IdleCheck.tick, Bool.false_eq_true, if_false]
  repeat' split
  on_goal 4 => exact .inr rfl
  all_goals exact .inl ⟨_, rfl⟩

/-- A run of `relay_authenticated`: it is over, or no line has come, or the loop is awake. -/
theorem run_authenticated (es : List RelayEvent) (k : Nat) :
    ((authenticated ⟨false, k⟩).run maxIdleCount es).Returned ∨
      ((∀ e ∈ es, ¬e.IsLine) ∧
        ∃ m, (authenticated ⟨false, k⟩).run maxIdleCount es = .authenticated ⟨false, m⟩) ∨
      ((∃ e ∈ es, e.IsLine) ∧ ((authenticated ⟨false, k⟩).run maxIdleCount es).Awake) := by
  induction es generalizing k with
  | nil => exact .inr (.inl ⟨nofun, k, rfl⟩)
  | cons e es ih =>
    have hline : e.IsLine → ((authenticated ⟨false, k⟩).run maxIdleCount (e :: es)).Awake :=
      fun h => (step_line h).run es
    cases e with
    | cmdLine | rspLine => exact .inr (.inr ⟨⟨_, mem_cons_self, trivial⟩, hline trivial⟩)
    | tick n blocked forceQuit =>
      rw [run, foldl_cons]
      rcases @step_tick maxIdleCount k n blocked forceQuit with ⟨r, hr⟩ | ht
      · rw [hr]
        exact .inl ⟨r, run_returned r es⟩
      · rw [ht]
        refine (ih (k + n)).imp id (Or.imp (And.imp_left fun hno => ?_) (And.imp_left fun hsome => ?_))
        · exact forall_mem_cons.mpr ⟨id, hno⟩
        · exact hsome.imp fun e he => ⟨mem_cons_of_mem _ he.1, he.2⟩

/-- The ticks of a loop that has seen no line reach the limit. -/
theorem run_silent : ∀ (ns : List Nat) (k : Nat), ns ≠ [] → maxIdleCount ≤ k + ns.sum →
    ((authenticated ⟨false, k⟩).run maxIdleCount (silent ns)).IdleReturned
  | n :: ns, k, _, hsum => by
    rw [sum_cons] at hsum
    rw [silent, map_cons, run, foldl_cons]
    by_cases hlimit : maxIdleCount ≤ k + n
    · refine ⟨k + n, ?_⟩
      simp only [step, IdleCheck.tick, hlimit, decide_true, Bool.not_false, Bool.and_self, if_true]
      exact run_returned _ _
    · simp only [step, IdleCheck.tick, hlimit, decide_false, Bool.and_false, Bool.false_eq_true,
        if_false]
      refine run_silent ns (k + n) ?_ (by omega)
      rintro rfl
      exact hlimit (by simpa using hsum)

/-- A silence that has ticks enough to count the limit after its first one ends
    `relay_authenticated` just when no line had come before, and never ends `relay_until_idle_done`. -/
theorem idleReturned_iff (maxIdleCount : Nat) (es : List RelayEvent) (n : Nat) (ns : List Nat)
    (hsum : maxIdleCount + n ≤ (n :: ns).sum) :
    (¬((authenticated ⟨false, 0⟩).run maxIdleCount es).Returned →
      (((authenticated ⟨false, 0⟩).run maxIdleCount (es ++ silent (n :: ns))).IdleReturned ↔
        ∀ e ∈ es, ¬e.IsLine)) ∧
    ∀ caller : IdleCheck, ¬((untilIdleDone caller.seen ⟨true, 0⟩).run maxIdleCount
      (es ++ silent (n :: ns))).IdleReturned := by
  refine ⟨fun hrunning => ?_, fun caller => ?_⟩
  · rw [run, foldl_append]
    rcases run_authenticated es 0 with hret | ⟨hno, m, hm⟩ | ⟨⟨e, he, hline⟩, hawake⟩
    · exact absurd hret hrunning
    · refine ⟨fun _ => hno, fun _ => ?_⟩
      rw [show es.foldl (step maxIdleCount) (authenticated ⟨false, 0⟩) = _ from hm]
      exact run_silent (n :: ns) m nofun (by omega)
    · refine ⟨fun h => absurd h (hawake.run _).not_idleReturned, fun hno => absurd hline (hno e he)⟩
  · have hawake : (untilIdleDone caller.seen ⟨true, 0⟩).Awake := ⟨rfl, rfl⟩
    exact (hawake.run _).not_idleReturned

/-- The limit is reached at the second of three ticks if no line has come, ... -/
theorem idleReturned_threeTicks : ((authenticated ⟨false, 0⟩).run 2 (silent [1, 1, 1])).IdleReturned :=
  ((idleReturned_iff 2 [] 1 [1, 1] (by decide)).1 nofun).mpr nofun

/-- ... but not behind a command, and not while IDLE waits for its end. -/
theorem not_idleReturned_threeTicks :
    ¬((authenticated ⟨false, 0⟩).run 2
      (.cmdLine (ascii "a NOOP\r\n") (.ok .loop) :: silent [1, 1, 1])).IdleReturned ∧
    ¬((untilIdleDone ⟨true, 0⟩ ⟨true, 0⟩).run 2 (silent [1, 1, 1])).IdleReturned := by
  constructor
  all_goals
    rintro ⟨count, h⟩
    cases h

end Relaying

/-! ### The relay under the idle check

    The relay has no limit of its own, the check follows it: each line that it handles and each tick
    is an event, and the two agree on the loop that runs. -/

/-- The loop that the check is in, or how a line has ended it. -/
def Relaying.loop : Relaying → Option (Except CloseReason RelayLoop)
  | .authenticated _ => some (.ok .main)
  | .untilIdleDone _ _ => some (.ok .idle)
  | .returned (.ok .client) => some (.error .client)
  | .returned (.ok .server) => some (.error .server)
  | .returned _ => none

/-- The loop behind a line to the server that is sent in `l`, or why the relay ends. -/
def AfterUps.ahead (l : RelayLoop) : AfterUps → Except CloseReason RelayLoop
  | .logout => .error .client
  | .authenticate => .ok .authenticate
  | .startTls => .ok .startTls
  | .idle => .ok .idle
  | .idleDone => .ok .main
  | _ => .ok l

namespace Relay

variable {cmdCap rspCap : Nat} {χ ω : Type} {s t : Relay cmdCap rspCap χ ω} {m : Relaying}
  {maxIdleCount : Nat} {tick : Nat × Bool × Bool} {line : Bytes}

/-- The same, for the line under way. -/
def ahead (s : Relay cmdCap rspCap χ ω) : Except CloseReason RelayLoop :=
  match s.pc with
  | .sendUps _ next => next.ahead s.inLoop
  | .sendClt _ .close => .error .server
  | .sendClt _ next => .ok (next.ahead s.inLoop)
  | _ => .ok s.inLoop

/-- The events of a step from `s` to `t`; what came of a line is read off `t`. -/
def tells (tick : Nat × Bool × Bool) (s t : Relay cmdCap rspCap χ ω) : List RelayEvent :=
  match s.pc, t.ahead with
  | .tick, _ => [.tick tick.1 tick.2.1 tick.2.2]
  | .cmdLine line, .error _ => [.cmdLine line (.ok .logout)]
  | .cmdLine line, .ok l => [.cmdLine line (.ok (if l = .idle then .idle else .loop))]
  | .rspLine _, .error _ => [.rspLine (.ok .close)]
  | .rspLine _, .ok _ => [.rspLine (.ok .loop)]
  | _, _ => []

/-- The check is where the relay is about to be, unless the timer has ended it. -/
def Agrees (s : Relay cmdCap rspCap χ ω) (m : Relaying) : Prop :=
  (∃ r, m = .returned (.ok r) ∧ m.loop = none) ∨
    s.mode = .authenticated ∧ m.loop = some s.ahead

/-- A loop that is not over. -/
theorem loop_ok {l : RelayLoop} (h : m.loop = some (.ok l)) :
    (∃ c, m = .authenticated c ∧ l = .main) ∨ ∃ caller c, m = .untilIdleDone caller c ∧ l = .idle := by
  unfold Relaying.loop at h
  split at h
  case h_1 => cases h; exact .inl ⟨_, rfl, rfl⟩
  case h_2 => cases h; exact .inr ⟨_, _, rfl, rfl⟩
  all_goals cases h

theorem onTick_agrees {loop : IdleCheck → Relaying} (hmode : s.mode = .authenticated)
    (hloop : ∀ c, (loop c).loop = some s.ahead) (c : IdleCheck) (n : Nat) (blocked quit : Bool) :
    s.Agrees (Relaying.onTick loop (c.tick maxIdleCount n blocked quit)) := by
  unfold IdleCheck.tick
  split
  · exact .inl ⟨_, rfl, rfl⟩
  · split
    · exact .inl ⟨_, rfl, rfl⟩
    · split
      · exact .inl ⟨_, rfl, rfl⟩
      · exact .inr ⟨hmode, hloop _⟩

/-- Behind a line of the client in the main loop. -/
theorem agrees_cmdLine {c : IdleCheck} (hpc : s.pc = .cmdLine line) (hmode : t.mode = .authenticated)
    (ht : t.ahead = .ok .main ∨ t.ahead = .ok .idle ∨ t.ahead = .error .client) :
    t.Agrees ((Relaying.authenticated c).run maxIdleCount (tells tick s t)) := by
  refine .inr ⟨hmode, ?_⟩
  rcases ht with ht | ht | ht
  all_goals
    simp only [tells, hpc, ht]
    rfl

/-- Behind a line of the server in either loop. -/
theorem agrees_rspLine (h : m.loop = some (.ok s.inLoop)) (hpc : s.pc = .rspLine line)
    (hmode : t.mode = .authenticated) (ht : t.ahead = .ok s.inLoop ∨ t.ahead = .error .server) :
    t.Agrees (m.run maxIdleCount (tells tick s t)) := by
  refine .inr ⟨hmode, ?_⟩
  rcases ht with ht | ht
  · simp only [tells, hpc, ht]
    obtain ⟨c, rfl, hl⟩ | ⟨caller, c, rfl, hl⟩ := loop_ok h <;> rw [hl] <;> rfl
  · simp only [tells, hpc, ht]
    obtain ⟨c, rfl, -⟩ | ⟨caller, c, rfl, -⟩ := loop_ok h <;> rfl

/-- Behind a line to the client. -/
theorem afterClt_ahead (hmode : s.mode = .authenticated) (next : AfterClt) :
    (s.afterClt next).Keeps fun t =>
      t.mode = .authenticated ∧ t.ahead = .ok (next.ahead s.inLoop) := by
  have hfollows := afterClt_follows s next
  generalize s.afterClt next = c at hfollows
  cases hfollows with
  | ends => exact trivial
  | top _ _ _ hm => exact ⟨hm.elim (·.trans hmode) id, rfl⟩
  | authLine h => subst h; exact ⟨hmode, rfl⟩
  | server _ _ hstays => exact ⟨hmode, by rw [hstays]; rfl⟩
  | client h => subst h; exact relayClientLiteral_rule fun _ => ⟨hmode, rfl⟩

/-- Behind a line to the server. -/
theorem afterUps_ahead (next : AfterUps) : (s.afterUps next).Keeps fun t =>
    t.mode = s.mode ∧ t.ahead = next.ahead s.inLoop := by
  cases next with
  | logout => exact trivial
  | sendLiteral size => exact relayClientLiteral_rule fun _ => ⟨rfl, rfl⟩
  | continued cmd =>
    simp only [afterUps]
    split
    · split
      · exact ⟨rfl, rfl⟩
      · exact relayClientLiteral_rule fun _ => ⟨rfl, rfl⟩
    · exact ⟨rfl, rfl⟩
  | loop | authenticate | startTls | idle | idleDone => exact ⟨rfl, rfl⟩

/-- Nothing is ahead but the loop that runs. -/
theorem ahead_rests (hclt : ∀ w next, s.pc ≠ .sendClt w next)
    (hups : ∀ w next, s.pc = .sendUps w next → next = .loop) : s.ahead = .ok s.inLoop := by
  unfold ahead
  split
  case h_1 hpc => rw [hups _ _ hpc]; rfl
  case h_2 hpc | h_3 hpc => exact absurd hpc (hclt _ _)
  case h_4 => rfl

theorem mode_enter (s : Relay cmdCap rspCap χ ω) : s.enter.mode = s.mode := by
  unfold enter
  split <;> rfl

theorem ahead_enter (s : Relay cmdCap rspCap χ ω) : s.enter.ahead = s.ahead := by
  unfold enter
  split
  case h_1 hpc | h_2 hpc => simp only [ahead, hpc]
  case h_3 => rfl

variable [TextFunctions] [AtoiRadix10]

theorem handleCmdLine_agrees {c : IdleCheck} (hpc : s.pc = .cmdLine line)
    (hmode : s.mode = .authenticated) (hmain : s.inLoop = .main) :
    (s.handleCmdLine line).Keeps fun t =>
      t.Agrees ((Relaying.authenticated c).run maxIdleCount (tells tick s t)) := by
  have hstays : (.ok s.inLoop : Except CloseReason RelayLoop) = .ok .main := by rw [hmain]
  have hanswer := handleCmdLine_answer s line
  generalize s.handleCmdLine line = a at hanswer
  cases hanswer with
  | fail => exact trivial
  | reply => exact agrees_cmdLine hpc hmode (.inl hstays)
  | send hrec =>
    refine agrees_cmdLine hpc hmode ?_
    cases hrec with
    | completed _ _ _ _ hnext =>
      rcases hnext with hnext | ⟨hnot, -⟩
      · simp only [mem_cons, not_mem_nil, or_false] at hnext
        rcases hnext with rfl | rfl
        · exact .inl hstays
        · exact .inr (.inr rfl)
      · cases hnot.symm.trans hmode
    | opened => split <;> exact .inl hstays
    | idle => exact .inr (.inl rfl)
    | continued => exact .inl hstays

theorem handleRspIn_agrees (h : m.loop = some (.ok s.inLoop)) (hpc : s.pc = .rspLine line)
    (hmode : s.mode = .authenticated) : (s.handleRspIn line).Keeps fun t =>
      t.Agrees (m.run maxIdleCount (tells tick s t)) := by
  have hboth : s.readsBoth = true := by
    obtain ⟨-, -, hl⟩ | ⟨-, -, -, hl⟩ := loop_ok h <;> simp [readsBoth, hl]
  have hanswer := handleRspIn_answer s line
  generalize s.handleRspIn line = a at hanswer
  cases hanswer with
  | fail => exact trivial
  | @send _ _ _ next _ hstays =>
    refine agrees_rspLine h hpc hmode ?_
    cases next with
    | close => exact .inr rfl
    | _ => exact .inl (congrArg Except.ok (hstays hboth))
  | skip _ _ hstays =>
    refine (afterClt_ahead (by exact hmode) _).mono (fun ht => ?_) id
    exact agrees_rspLine h hpc ht.1 (.inl (ht.2.trans (congrArg _ hstays)))

variable [AsyncWrite χ] [AsyncWrite ω]

/-- One step of the relay is at most one round of the loop that the check is in. -/
theorem Agrees.step (h : s.Agrees m) : s.step.Keeps fun t =>
    t.Agrees (m.run maxIdleCount (tells tick s t)) := by
  rcases h with ⟨r, rfl, hr⟩ | ⟨hmode, hloop⟩
  · refine s.step.ensures_true.mono (fun _ => ?_) id
    rw [Relaying.run_returned]
    exact .inl ⟨r, rfl, hr⟩
  rcases step_kinds s with hcoast | hpc | ⟨line, hpc⟩ | ⟨line, hpc⟩ | ⟨w, next, hpc⟩ | ⟨w, next, hpc⟩
  · refine (step_coasts hcoast).mono (fun {t} ht => ?_) id
    have hnil : tells tick s t = [] := by
      cases hpc : s.pc <;> simp [Coasting, tells, hpc] at hcoast ⊢
    have hs := ahead_rests hcoast.not_sendClt (s := s) fun w next hpc => by
      simp [Coasting, hpc] at hcoast
    rw [hnil]
    refine .inr ⟨ht.mode.trans hmode, hloop.trans ?_⟩
    rw [hs, ahead_rests ht.clt ht.ups, ht.inLoop]
  · simp only [ahead, hpc] at hloop
    simp only [Relay.step, hpc, goto, Ctrl.Keeps, Ctrl.Ensures, tells]
    obtain ⟨c, rfl, hl⟩ | ⟨caller, c, rfl, hl⟩ := loop_ok hloop
    all_goals exact onTick_agrees (by exact hmode) (by exact fun _ => hloop) c _ _ _
  · simp only [ahead, hpc] at hloop
    simp only [Relay.step, hpc]
    obtain ⟨c, rfl, hl⟩ | ⟨caller, c, rfl, hl⟩ := loop_ok hloop
    · rw [if_neg (by rw [hl]; decide)]
      exact handleCmdLine_agrees hpc hmode hl
    · rw [if_pos hl, handleIdleLine]
      split
      case isTrue hdone =>
        refine .inr ⟨hmode, ?_⟩
        simp only [tells, hpc, ahead, AfterUps.ahead]
        exact congrArg Relaying.loop (if_pos hdone)
      case isFalse => exact trivial
  · simp only [ahead, hpc] at hloop
    simp only [Relay.step, hpc]
    exact handleRspIn_agrees hloop hpc hmode
  · have hnil : ∀ t, tells tick s t = [] := fun t => by simp only [tells, hpc]
    simp only [ahead, hpc] at hloop
    simp only [Relay.step, hpc, hnil]
    refine w.poll.ensures_true.await (fun _ => .inr ⟨hmode, hloop⟩) fun {_ w'} _ => ?_
    refine (afterUps_ahead next).mono (fun ht => .inr ⟨ht.1.trans hmode, ?_⟩) id
    exact hloop.trans (congrArg some ht.2.symm)
  · have hnil : ∀ t, tells tick s t = [] := fun t => by simp only [tells, hpc]
    simp only [Relay.step, hpc, hnil]
    refine w.poll.ensures_true.await (fun _ => .inr ⟨hmode, ?_⟩) fun {_ w'} _ => ?_
    · refine hloop.trans (congrArg some ?_)
      rw [ahead, hpc]
      cases next <;> rfl
    cases next with
    | close => exact trivial
    | _ =>
      refine (afterClt_ahead (by exact hmode) _).mono (fun ht => .inr ⟨ht.1, ?_⟩) id
      simp only [ahead, hpc] at hloop
      exact hloop.trans (congrArg some ht.2.symm)

/-- Along every run the check, which is told of each line and of each tick, is in the loop that the
    relay is in, or has ended with it, or ends it. -/
theorem runs_agrees (timer : Nat → Nat × Bool × Bool) {x : Relay cmdCap rspCap χ ω × List RelayEvent}
    (hmode : s.mode = .authenticated) (hmain : s.inLoop = .main) (hpc : s.pc = .top)
    (hrun : ((future cmdCap rspCap χ ω).watch fun es s t => es ++ tells (timer es.length) s t).Runs
      (fun _ => True) (s, []) x) :
    x.1.Agrees ((Relaying.authenticated ⟨false, 0⟩).run maxIdleCount x.2) := by
  have hs : s.Agrees (.authenticated ⟨false, 0⟩) := by
    refine .inr ⟨hmode, ?_⟩
    simp only [ahead, hpc, hmain]
    rfl
  refine Future.Runs.inv
    (I := fun x => x.1.Agrees ((Relaying.authenticated ⟨false, 0⟩).run maxIdleCount x.2)) hs
    (fun {x y} hx _ hm => ?_) hrun
  obtain ⟨t, ht, hnote, hy⟩ := Future.watch_moves hx.step hm
  rw [hnote, Relaying.run, foldl_append]
  rcases hy with hy | hy <;> rw [hy]
  · exact ht
  · exact ht.imp_right fun h => ⟨(mode_enter t).trans h.1, h.2.trans (congrArg some (ahead_enter t).symm)⟩

end Relay

end Vey.Imap

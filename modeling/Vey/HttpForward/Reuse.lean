import Vey.HttpForward.Context
import Vey.Schemes.Steps

/-! A kept-alive connection is for the target it was made for.

        memory          upstream   is_tls   saved
        check_in(U, t)  U          .        kept if it was for (U, t), else none
        make_new(m)     .          m        .
        get_alive       .          .        none
        save(conn)      .          .        conn, or .

    All three contexts move their memory in this way. So a request that makes a connection in the mode
    it has checked in with, or asks for the saved one first, leaves a saved connection behind that is
    for the target in memory. A request that does neither can change the mode in memory under a saved
    connection. -/

namespace Vey.HttpForward
open Net Vey.Types Schemes ConnectAnswer FailoverHttpForwardContext

/-! ### What a context remembers -/

/-- The target in memory, and the saved connection. -/
structure Memory where
  upstream : UpstreamAddr
  isTls : Bool
  saved : Option HttpForwardConnection

/-- The connection was made for the target in memory. -/
def Memory.Fits (m : Memory) (c : HttpForwardConnection) : Prop :=
  c.upstream = m.upstream ∧ c.isTls = m.isTls

/-- `make_new_https_connection` or `make_new_http_connection` -/
def makeNew {κ : Type} [HttpForwardContext κ] (isTls : Bool) (c : κ) (upstream : UpstreamAddr)
    (a : ConnectAnswers) : Made × κ :=
  if isTls then makeNewHttpsConnection c upstream a else makeNewHttpConnection c upstream a

/-- A context that moves its memory as the table says. -/
class Remembers (κ : Type) extends HttpForwardContext κ where
  memory : κ → Memory
  checkIn : ∀ (c : κ) (u : UpstreamAddr) (t : Bool) (a : CheckInAnswers),
    memory (checkInFinalEscaper c u t a).2 = ⟨u, (memory c).isTls, none⟩ ∨
    memory (checkInFinalEscaper c u t a).2 = memory c ∧ (memory c).upstream = u ∧ (memory c).isTls = t
  getAlive : ∀ (c : κ) (now idleExpire : Nat) (received : Bool),
    memory (getAliveConnection c now idleExpire received).2 = { memory c with saved := none } ∧
    ∀ x, (getAliveConnection c now idleExpire received).1 = some x → (memory c).saved = some x.1
  makeNew : ∀ (m : Bool) (c : κ) (u : UpstreamAddr) (a : ConnectAnswers),
    memory (makeNew m c u a).2 = { memory c with isTls := m } ∧
    ∀ x, (HttpForward.makeNew m c u a).1 = .ok x → x.1.upstream = u ∧ x.1.isTls = m
  save : ∀ (c : κ) (conn : HttpForwardConnection) (ka : KeepAliveValue) (idleExpire now : Nat),
    memory (saveAliveConnection c conn ka idleExpire now) = memory c ∨
    memory (saveAliveConnection c conn ka idleExpire now) = { memory c with saved := some conn }

/-! #### The saved connection of the reuse state -/

namespace HttpAliveReuseState

variable (s : HttpAliveReuseState)

/-- The saved connection. -/
def saved : Option HttpForwardConnection := s.last.map (·.connection)

theorem getAlive_saved (now idleExpire : Nat) (received : Bool) :
    (s.getAlive now idleExpire received).2.saved = none ∧
    ∀ x, (s.getAlive now idleExpire received).1 = some x → s.saved = some x.1 := by
  unfold getAlive
  split
  case h_1 hlast => exact ⟨by rw [saved, clearKeepAliveLeftover, hlast]; rfl, nofun⟩
  case h_2 conn hlast =>
    dsimp only
    split
    · exact ⟨rfl, nofun⟩
    · split
      · refine ⟨rfl, ?_⟩
        rintro x ⟨⟩
        rw [saved, hlast]
        rfl
      · exact ⟨rfl, nofun⟩

theorem save_saved (conn : HttpForwardConnection) (ka : KeepAliveValue)
    (expire : Option Nat) (idleExpire now : Nat) :
    (s.save conn ka expire idleExpire now).saved = s.saved ∨
    (s.save conn ka expire idleExpire now).saved = some conn := by
  unfold save
  dsimp only
  split
  · exact .inl rfl
  · exact .inr rfl

end HttpAliveReuseState

variable {u : UpstreamAddr}

theorem made_ok {a : ConnectAnswer} {m : Bool}
    {x : HttpForwardConnection × Escaper} (h : a.made u m = .ok x) :
    x.1.upstream = u ∧ x.1.isTls = m := by
  unfold made at h
  cases hr : a.result with
  | error e => rw [hr] at h; cases h
  | ok r =>
    rw [hr] at h
    obtain rfl := Except.ok.inj h
    exact ⟨rfl, rfl⟩

/-! #### The three contexts -/

section

variable {s s' : HttpAliveReuseState}

/-- The memory behind `get_alive`. -/
theorem memory_getAlive {t : Bool} (h : s'.saved = none) :
    (⟨u, t, s'.saved⟩ : Memory) = { (⟨u, t, s.saved⟩ : Memory) with saved := none } := by rw [h]

theorem memory_save {t : Bool} {conn : HttpForwardConnection}
    (h : s'.saved = s.saved ∨ s'.saved = some conn) :
    (⟨u, t, s'.saved⟩ : Memory) = ⟨u, t, s.saved⟩ ∨
    (⟨u, t, s'.saved⟩ : Memory) = { (⟨u, t, s.saved⟩ : Memory) with saved := some conn } := by
  rcases h with h | h
  · exact .inl (by rw [h])
  · exact .inr (by rw [h])

/-- The connection that a context hands on is the one of its reuse state. -/
theorem getAlive_conn {now idleExpire : Nat} {received : Bool} {e : Escaper}
    {x : HttpForwardConnection × HttpAliveReuseNotes}
    (h : (s.getAlive now idleExpire received).1.map
      (fun (c, leftover) => (c, (⟨leftover, e⟩ : HttpAliveReuseNotes))) = some x) :
    s.saved = some x.1 := by
  obtain ⟨y, hy, rfl⟩ := Option.map_eq_some_iff.mp h
  exact (s.getAlive_saved now idleExpire received).2 y hy

end

namespace DirectHttpForwardContext

def memory (c : DirectHttpForwardContext) : Memory := ⟨c.lastUpstream, c.lastIsTls, c.reuse.saved⟩

theorem makeNew_memory (m : Bool) (c : DirectHttpForwardContext) (u : UpstreamAddr)
    (a : ConnectAnswers) : (makeNew m c u a).2.memory = { c.memory with isTls := m } ∧
      ∀ x, (makeNew m c u a).1 = .ok x → x.1.upstream = u ∧ x.1.isTls = m := by
  refine ⟨rfl, fun x hx => ?_⟩
  cases hm : (a.answer c.escaper).made u m with
  | error e => rw [makeNew, hm] at hx; cases hx
  | ok y =>
    rw [makeNew, hm] at hx
    obtain rfl := Except.ok.inj hx
    have hy := made_ok hm
    exact hy

instance : Remembers DirectHttpForwardContext where
  memory := memory
  checkIn c u t a := by
    simp only [checkInFinalEscaper, checkIn]
    split
    · exact .inl rfl
    next h =>
      obtain ⟨hu, ht⟩ := not_or.mp h
      exact .inr ⟨rfl, not_not.mp hu, not_not.mp ht⟩
  getAlive c now idleExpire received :=
    ⟨memory_getAlive (c.reuse.getAlive_saved now idleExpire received).1, fun _ => getAlive_conn⟩
  makeNew
    | true, c, u, a => makeNew_memory true c u a
    | false, c, u, a => makeNew_memory false c u a
  save c conn ka idleExpire now := memory_save (c.reuse.save_saved conn ka _ idleExpire now)

end DirectHttpForwardContext

namespace RouteHttpForwardContext

variable (c : RouteHttpForwardContext)

def memory : Memory := ⟨c.lastUpstream, c.lastIsTls, c.reuse.saved⟩

theorem checkOut_memory (u : UpstreamAddr) (a : CheckInAnswers) :
    (c.checkOut u a).2.memory = { c.memory with upstream := u } := by
  unfold checkOut
  dsimp only
  split
  · rfl
  · split <;> rfl

theorem checkIn_memory (u : UpstreamAddr) (t : Bool)
    (a : CheckInAnswers) : (c.checkIn u t a).2.memory = ⟨u, c.memory.isTls, none⟩ ∨
      (c.checkIn u t a).2.memory = c.memory ∧ c.memory.upstream = u ∧ c.memory.isTls = t := by
  unfold checkIn
  split
  case h_1 conn hlast =>
    split
    case isTrue h => exact .inr ⟨rfl, h.2.1, h.1⟩
    case isFalse =>
      rw [checkOut_memory]
      exact .inl rfl
  case h_2 hlast =>
    rw [checkOut_memory]
    refine .inl ?_
    simp only [memory, HttpAliveReuseState.saved, hlast]
    rfl

theorem makeNew_memory (m : Bool) (c : RouteHttpForwardContext) (u : UpstreamAddr)
    (a : ConnectAnswers) : (makeNew m c u a).2.memory = { c.memory with isTls := m } ∧
      ∀ x, (makeNew m c u a).1 = .ok x → x.1.upstream = u ∧ x.1.isTls = m := by
  unfold makeNew
  dsimp only
  split
  · exact ⟨rfl, nofun⟩
  · split
    · exact ⟨rfl, nofun⟩
    next hm =>
      refine ⟨rfl, ?_⟩
      rintro x ⟨⟩
      exact made_ok hm

instance : Remembers RouteHttpForwardContext where
  memory := memory
  checkIn := checkIn_memory
  getAlive c now idleExpire received :=
    ⟨memory_getAlive (c.reuse.getAlive_saved now idleExpire received).1, fun _ => getAlive_conn⟩
  makeNew
    | true, c, u, a => makeNew_memory true c u a
    | false, c, u, a => makeNew_memory false c u a
  save c conn ka idleExpire now := memory_save (c.reuse.save_saved conn ka _ idleExpire now)

end RouteHttpForwardContext

namespace FailoverHttpForwardContext

def memory (c : FailoverHttpForwardContext) : Memory := ⟨c.lastUpstream, c.lastIsTls, c.reuse.saved⟩

theorem checkIn_memory (c : FailoverHttpForwardContext) (u : UpstreamAddr) (t : Bool)
    (a : CheckInAnswers) : (c.checkIn u t a).2.memory = ⟨u, c.memory.isTls, none⟩ ∨
      (c.checkIn u t a).2.memory = c.memory ∧ c.memory.upstream = u ∧ c.memory.isTls = t := by
  unfold checkIn
  split
  case isTrue h => exact .inr ⟨rfl, h.2.2, h.2.1⟩
  case isFalse => exact .inl rfl

theorem makeNew_memory (m : Bool) (c : FailoverHttpForwardContext) (u : UpstreamAddr)
    (a : ConnectAnswers) : (makeNew m c u a).2.memory = { c.memory with isTls := m } ∧
      ∀ x, (makeNew m c u a).1 = .ok x → x.1.upstream = u ∧ x.1.isTls = m := by
  unfold makeNew
  dsimp only
  split
  · exact ⟨rfl, nofun⟩
  · split
    · exact ⟨rfl, nofun⟩
    · split
      all_goals
        split
        next made hm =>
          refine ⟨rfl, ?_⟩
          rintro x ⟨⟩
          exact made_ok hm
        · exact ⟨rfl, fun x hx => made_ok hx⟩

instance : Remembers FailoverHttpForwardContext where
  memory := memory
  checkIn := checkIn_memory
  getAlive c now idleExpire received :=
    ⟨memory_getAlive (c.reuse.getAlive_saved now idleExpire received).1, fun _ => getAlive_conn⟩
  makeNew
    | true, c, u, a => makeNew_memory true c u a
    | false, c, u, a => makeNew_memory false c u a
  save c conn ka idleExpire now := memory_save (c.reuse.save_saved conn ka _ idleExpire now)

end FailoverHttpForwardContext

/-! ### One request after another -/

/-- A request between its check-in and its end: `asked` once it has asked for the saved connection,
    `held` is the connection it has obtained last. -/
structure Request where
  upstream : UpstreamAddr
  isTls : Bool
  asked : Bool := false
  held : Option HttpForwardConnection := none

/-- A context in use; `reused` lists the connections that were taken up again, each with the target
    that the request had checked in with. -/
structure Session (κ : Type) where
  ctx : κ
  request : Option Request := none
  reused : List (UpstreamAddr × Bool × HttpForwardConnection) := []

inductive Call where
  | checkIn (upstream : UpstreamAddr) (isTls : Bool) (answers : CheckInAnswers)
  | getAlive (now idleExpire : Nat) (received : Bool)
  | makeNew (isTls : Bool) (answers : ConnectAnswers)
  | save (keepAlive : KeepAliveValue) (idleExpire now : Nat)

namespace Session

variable {κ : Type}

section

variable [HttpForwardContext κ] (s : Session κ)

/-- A request starts with its check-in, whatever became of the one before, and ends with the save. -/
def step : Call → Option (Session κ)
  | .checkIn u t a =>
    some { s with ctx := (checkInFinalEscaper s.ctx u t a).2, request := some ⟨u, t, false, none⟩ }
  | .getAlive now idleExpire received =>
    s.request.map fun r =>
      let (got, ctx) := getAliveConnection s.ctx now idleExpire received
      { ctx := ctx
        request := some { r with asked := true, held := got.map (·.1) }
        reused := s.reused ++ (got.map fun x => (r.upstream, r.isTls, x.1)).toList }
  | .makeNew isTls a =>
    s.request.map fun r =>
      let (made, ctx) := HttpForward.makeNew isTls s.ctx r.upstream a
      { s with ctx := ctx, request := some { r with held := made.toOption.map (·.1) } }
  | .save keepAlive idleExpire now =>
    s.request.bind fun r => r.held.map fun conn =>
      { s with ctx := saveAliveConnection s.ctx conn keepAlive idleExpire now, request := none }

/-- A connection is made in the mode that the request has checked in with, or behind `get_alive`. -/
def inOrder : Call → Bool
  | .makeNew isTls _ => s.request.any fun r => isTls == r.isTls || r.asked
  | _ => true

def stepInOrder (call : Call) : Option (Session κ) :=
  if s.inOrder call then s.step call else none

/-- Every connection that was taken up again was made for the target it was taken up for. -/
def ReusesOwn : Prop :=
  ∀ x ∈ s.reused, x.2.2.upstream = x.1 ∧ x.2.2.isTls = x.2.1

end

section

variable [Remembers κ]

/-- What the memory says while a request is under way. -/
structure Request.In (m : Memory) (r : Request) : Prop where
  upstream : m.upstream = r.upstream
  saved : ∀ c, m.saved = some c → m.isTls = r.isTls ∧ r.asked = false
  held : ∀ c, r.held = some c → m.Fits c

structure Inv (s : Session κ) : Prop where
  saved : ∀ c, (Remembers.memory s.ctx).saved = some c → (Remembers.memory s.ctx).Fits c
  request : ∀ r, s.request = some r → Request.In (Remembers.memory s.ctx) r
  reused : s.ReusesOwn

variable {s s' : Session κ}

theorem Inv.checkIn (h : s.Inv) {t : Bool} {a : CheckInAnswers}
    (hs : s.step (.checkIn u t a) = some s') : s'.Inv := by
  obtain rfl := Option.some.inj hs
  rcases Remembers.checkIn s.ctx u t a with hm | ⟨hm, hu, ht⟩
  · refine ⟨?_, ?_, h.reused⟩
    · rw [hm]
      exact nofun
    · rintro r ⟨⟩
      rw [hm]
      exact ⟨rfl, nofun, nofun⟩
  · refine ⟨?_, ?_, h.reused⟩
    · rw [hm]
      exact h.saved
    · rintro r ⟨⟩
      rw [hm]
      exact ⟨hu, fun _ _ => ⟨ht, rfl⟩, nofun⟩

theorem Inv.getAlive (h : s.Inv) {now idleExpire : Nat} {received : Bool}
    (hs : s.step (.getAlive now idleExpire received) = some s') : s'.Inv := by
  obtain ⟨r, hr, rfl⟩ := Option.map_eq_some_iff.mp hs
  obtain ⟨hm, hgot⟩ := Remembers.getAlive s.ctx now idleExpire received
  have hin := h.request r hr
  -- the connection handed out is the saved one
  have hown : ∀ x, (getAliveConnection s.ctx now idleExpire received).1 = some x →
      (Remembers.memory s.ctx).Fits x.1 ∧ (Remembers.memory s.ctx).isTls = r.isTls :=
    fun x hx => ⟨h.saved _ (hgot x hx), (hin.saved _ (hgot x hx)).1⟩
  refine ⟨?_, ?_, ?_⟩
  · dsimp only
    rw [hm]
    exact nofun
  · rintro r' ⟨⟩
    rw [hm]
    refine ⟨hin.upstream, nofun, fun c hc => ?_⟩
    obtain ⟨x, hx, rfl⟩ := Option.map_eq_some_iff.mp hc
    exact (hown x hx).1
  · intro e he
    rcases List.mem_append.mp he with he | he
    · exact h.reused e he
    · obtain ⟨x, hx, rfl⟩ := Option.map_eq_some_iff.mp (Option.mem_toList.mp he)
      obtain ⟨⟨hu, ht⟩, hmode⟩ := hown x hx
      exact ⟨hu.trans hin.upstream, ht.trans hmode⟩

theorem Inv.makeNew (h : s.Inv) {isTls : Bool} {a : ConnectAnswers}
    (hord : s.inOrder (.makeNew isTls a) = true) (hs : s.step (.makeNew isTls a) = some s') :
    s'.Inv := by
  obtain ⟨r, hr, rfl⟩ := Option.map_eq_some_iff.mp hs
  obtain ⟨hm, hmade⟩ := Remembers.makeNew isTls s.ctx r.upstream a
  have hin := h.request r hr
  have hmode : ∀ c, (Remembers.memory s.ctx).saved = some c →
      isTls = (Remembers.memory s.ctx).isTls ∧ (Remembers.memory s.ctx).isTls = r.isTls ∧
        r.asked = false := by
    intro c hc
    obtain ⟨ht, hasked⟩ := hin.saved c hc
    rw [inOrder, hr, Option.any_some, hasked, Bool.or_false, beq_iff_eq] at hord
    exact ⟨hord.trans ht.symm, ht, hasked⟩
  refine ⟨fun c hc => ?_, ?_, h.reused⟩
  · dsimp only at hc ⊢
    rw [hm] at hc ⊢
    obtain ⟨hu, ht⟩ := h.saved c hc
    exact ⟨hu, ht.trans (hmode c hc).1.symm⟩
  · intro r' hr'
    obtain rfl := Option.some.inj hr'
    rw [hm]
    refine ⟨hin.upstream, fun c hc => ?_, fun c hc => ?_⟩
    · obtain ⟨h1, h2, h3⟩ := hmode c hc
      exact ⟨h1.trans h2, h3⟩
    · obtain ⟨x, hx, rfl⟩ := Option.map_eq_some_iff.mp hc
      cases hres : (HttpForward.makeNew isTls s.ctx r.upstream a).1 with
      | error e => rw [hres] at hx; cases hx
      | ok y =>
        rw [hres] at hx
        obtain rfl := Option.some.inj hx
        obtain ⟨hu, ht⟩ := hmade y hres
        exact ⟨hu.trans hin.upstream.symm, ht⟩

theorem Inv.save (h : s.Inv) {ka : KeepAliveValue} {idleExpire now : Nat}
    (hs : s.step (.save ka idleExpire now) = some s') : s'.Inv := by
  obtain ⟨r, hr, hheld⟩ := Option.bind_eq_some_iff.mp hs
  obtain ⟨conn, hconn, rfl⟩ := Option.map_eq_some_iff.mp hheld
  refine ⟨fun c hc => ?_, nofun, h.reused⟩
  dsimp only at hc ⊢
  rcases Remembers.save s.ctx conn ka idleExpire now with hm | hm
  · rw [hm] at hc ⊢
    exact h.saved c hc
  · rw [hm] at hc ⊢
    obtain rfl := Option.some.inj hc
    exact (h.request r hr).held conn hconn

/-- The step lemma. -/
theorem Inv.step {call : Call} (h : s.Inv) (hs : s.stepInOrder call = some s') : s'.Inv := by
  unfold stepInOrder at hs
  split at hs
  case isFalse => cases hs
  case isTrue hord =>
    cases call with
    | checkIn u t a => exact h.checkIn hs
    | getAlive now idleExpire received => exact h.getAlive hs
    | makeNew isTls a => exact h.makeNew hord hs
    | save ka idleExpire now => exact h.save hs

/-- A context without a saved connection is a start. -/
theorem reusesOwn_of_run {c : κ} (hc : (Remembers.memory c).saved = none) {calls : List Call}
    (hrun : run stepInOrder { ctx := c } calls = some s) : s.ReusesOwn := by
  have hstart : (⟨c, none, []⟩ : Session κ).Inv :=
    ⟨fun x hx => absurd (hc.symm.trans hx) nofun, nofun, nofun⟩
  exact (run_inv (I := Inv) (fun h hs => h.step hs) hstart hrun).reused

end

end Session

/-- In every run of requests that make their connections in order, each of the three contexts reuses a
    connection for the upstream and the mode it was made for. -/
theorem forwardContexts_reuse_own (calls : List Call) :
    (∀ escaper s, run Session.stepInOrder { ctx := DirectHttpForwardContext.new escaper }
      calls = some s →
      s.ReusesOwn) ∧
    (∀ escaper s, run Session.stepInOrder { ctx := RouteHttpForwardContext.new escaper }
      calls = some s →
      s.ReusesOwn) ∧
    (∀ primary standby s,
      run Session.stepInOrder { ctx := FailoverHttpForwardContext.new primary standby } calls = some s →
      s.ReusesOwn) :=
  ⟨fun _ _ h => Session.reusesOwn_of_run rfl h, fun _ _ h => Session.reusesOwn_of_run rfl h,
    fun _ _ _ h => Session.reusesOwn_of_run rfl h⟩

/-! ### Requests that are not in order -/

/-- The address of a server that talks both TLS and plain text. -/
def someUpstream : UpstreamAddr := ⟨.ip (.v4 0x0a000001), 8443⟩

/-- Every escaper connects. -/
def connects : ConnectAnswers := { answer := fun e => { result := .ok (7, e) } }

def checkInAnswers : CheckInAnswers := { nextEscaper := some 1 }

/-- A TLS connection is made and saved; the next request takes it up, and saves it again. -/
def twoTlsRequests : List Call :=
  [.checkIn someUpstream true checkInAnswers, .getAlive 0 60 true, .makeNew true connects,
    .save {} 60 1,
    .checkIn someUpstream true checkInAnswers, .getAlive 2 60 true, .save {} 60 3]

theorem forwardContexts_reuse_own_twice :
    (∃ s, run Session.stepInOrder { ctx := DirectHttpForwardContext.new 0 } twoTlsRequests = some s ∧
      s.reused = [(someUpstream, true, ⟨7, someUpstream, true⟩)] ∧ s.ReusesOwn) ∧
    (∃ s, run Session.stepInOrder { ctx := RouteHttpForwardContext.new 0 } twoTlsRequests = some s ∧
      s.reused = [(someUpstream, true, ⟨7, someUpstream, true⟩)] ∧ s.ReusesOwn) ∧
    ∃ s, run Session.stepInOrder { ctx := FailoverHttpForwardContext.new 0 1 } twoTlsRequests = some s ∧
      s.reused = [(someUpstream, true, ⟨7, someUpstream, true⟩)] ∧ s.ReusesOwn := by
  obtain ⟨hd, hr, hf⟩ := forwardContexts_reuse_own twoTlsRequests
  exact ⟨exists_run (by decide +kernel) fun s hs hp => ⟨hp, hd 0 s hs⟩,
    exists_run (by decide +kernel) fun s hs hp => ⟨hp, hr 0 s hs⟩,
    exists_run (by decide +kernel) fun s hs hp => ⟨hp, hf 0 1 s hs⟩⟩

/-- The second request leaves the saved TLS connection alone and makes a plain one, so the third one,
    which wants a plain connection, is given the TLS connection. -/
def modeChanged : List Call :=
  [.checkIn someUpstream true checkInAnswers, .makeNew true connects, .save {} 60 1,
    .checkIn someUpstream true checkInAnswers, .makeNew false connects,
    .checkIn someUpstream false checkInAnswers, .getAlive 2 60 true]

theorem forwardContexts_reuse_other :
    (∃ s, run Session.step { ctx := DirectHttpForwardContext.new 0 } modeChanged = some s ∧
      s.reused = [(someUpstream, false, ⟨7, someUpstream, true⟩)]) ∧
    (∃ s, run Session.step { ctx := RouteHttpForwardContext.new 0 } modeChanged = some s ∧
      s.reused = [(someUpstream, false, ⟨7, someUpstream, true⟩)]) ∧
    ∃ s, run Session.step { ctx := FailoverHttpForwardContext.new 0 1 } modeChanged = some s ∧
      s.reused = [(someUpstream, false, ⟨7, someUpstream, true⟩)] :=
  ⟨exists_run (by decide +kernel) fun _ _ hp => hp, exists_run (by decide +kernel) fun _ _ hp => hp,
    exists_run (by decide +kernel) fun _ _ hp => hp⟩

end Vey.HttpForward

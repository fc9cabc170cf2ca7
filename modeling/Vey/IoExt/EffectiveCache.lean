import Vey.Schemes.DelayQueue
import Vey.Schemes.Steps

/-! The effective cache: a cache task and a query handle, joined by channels.

        requests --> cache task --query channel--> query handle --> the peer
                     doing                         doing_cache  <-- answers, timeouts
                          ^----response channel----'

    The cache task keeps the requesters of a key under an entry of `doing`; the handle keeps the key
    until it is answered or times out. A key with an entry in `doing` is in one of three places, so its
    requesters are answered by the one response that comes back. -/

namespace Vey.IoExt
open Schemes List Table
open Multiset (coe_add coe_count coe_nil count_add mem_add mem_coe ofList)

/-- A result; behind `expireAt` it is asked for again. -/
structure EffectiveCacheData (R : Type) where
  value : Option R
  expireAt : Instant
  vanishAt : Instant

/-- A request; the notifier is the sending half of a `oneshot` channel. -/
structure CacheQueryRequest (K : Type) where
  cacheKey : K
  queryCacheOnly : Bool
  notifier : Nat
  deriving DecidableEq

structure CacheQueryValue (R : Type) where
  result : EffectiveCacheData R
  vanishKey : Option Nat

/-- Where the `poll_loop` of the cache task is. -/
inductive CachePollAt where
  | idle
  | rsp
  | vanish
  | req (left : Nat)
  | ended
  deriving DecidableEq

/-- The two tasks, their channels, and for the statements all requests, all that was sent to their
    notifiers and all responses. A panic leaves a fault behind, and nothing happens after it. -/
structure EffectiveCache (K R : Type) where
  requestBatchHandleCount : Nat
  cache : Table K (CacheQueryValue R) := ∅
  doing : Table K (List (CacheQueryRequest K)) := ∅
  vanish : DelayQueue K := {}
  pc : CachePollAt := .idle
  fault : Option TimerPanic := none
  requests : List (CacheQueryRequest K) := []
  queries : List K := []
  responses : List (K × EffectiveCacheData R) := []
  doingCache : Table K Nat := ∅
  doingTimeoutQueue : DelayQueue K := {}
  issued : List (CacheQueryRequest K) := []
  answers : List (CacheQueryRequest K × EffectiveCacheData R) := []
  misses : List (CacheQueryRequest K) := []
  given : List (K × EffectiveCacheData R) := []

namespace EffectiveCache

variable {K R : Type} [DecidableEq K]

/-! ### The cache task -/

variable (w : EffectiveCache K R)

/-- `handle_rsp`: those that have been answered are ignored. -/
def handleRsp (key : K) (result : EffectiveCacheData R) (timer : Timer) : EffectiveCache K R :=
  match w.doing.lookup key with
  | none => w
  | some vec =>
    let w := { w with doing := w.doing.erase key, answers := w.answers ++ vec.map (·, result) }
    match putAt CacheQueryValue.vanishKey w.cache w.vanish key result.vanishAt timer
        fun vanishKey => ⟨result, some vanishKey⟩ with
    | .ok (cache, vanish) => { w with cache := cache, vanish := vanish }
    | .error p => { w with fault := some p }

def handleVanish (key : K) : EffectiveCache K R :=
  { w with cache := w.cache.erase key }

def sendReq (key : K) : EffectiveCache K R :=
  { w with queries := w.queries ++ [key] }

/-- Answers from the cache, or waits in `doing`. -/
def handleReq (req : CacheQueryRequest K) (now : Instant) : EffectiveCache K R :=
  if req.queryCacheOnly then
    match w.cache.lookup req.cacheKey with
    | some v => { w with answers := w.answers ++ [(req, v.result)] }
    | none => { w with misses := w.misses ++ [req] }
  else
    match w.cache.lookup req.cacheKey with
    | some v =>
      let w := { w with answers := w.answers ++ [(req, v.result)] }
      if v.result.expireAt < now then
        match w.doing.lookup req.cacheKey with
        | some _ => w
        | none => sendReq { w with doing := w.doing.insert req.cacheKey [] } req.cacheKey
      else w
    | none =>
      match w.doing.lookup req.cacheKey with
      | some vec => { w with doing := w.doing.insert req.cacheKey (vec ++ [req]) }
      | none => sendReq { w with doing := w.doing.insert req.cacheKey [req] } req.cacheKey

/-! ### The query handle -/

/-- `send_rsp_data`: an answer for a key that is not asked for is dropped. -/
def sendRspData (key : K) (data : EffectiveCacheData R) (expired : Bool) : EffectiveCache K R :=
  match w.doingCache.lookup key with
  | none => w
  | some timeoutKey =>
    let w := { w with doingCache := w.doingCache.erase key }
    let send : EffectiveCache K R :=
      { w with responses := w.responses ++ [(key, data)], given := w.given ++ [(key, data)] }
    if expired then send
    else
      match w.doingTimeoutQueue.remove timeoutKey with
      | .error p => { w with fault := some p }
      | .ok q => { send with doingTimeoutQueue := q }

/-- `should_send_raw_query` -/
def shouldSendRawQuery (key : K) (timeoutAt : Instant) (timer : Timer) :
    EffectiveCache K R × Bool :=
  match w.doingCache.lookup key with
  | some _ => (w, false)
  | none =>
    match w.doingTimeoutQueue.insertAt key timeoutAt timer with
    | .error p => ({ w with fault := some p }, false)
    | .ok (timeoutKey, q) =>
      ({ w with doingCache := w.doingCache.insert key timeoutKey, doingTimeoutQueue := q }, true)

/-! ### Steps -/

inductive Event (K R : Type) where
  /-- somebody asks -/
  | request (r : CacheQueryRequest K)
  /-- the cache task is polled -/
  | poll
  /-- there is nothing where the cache task looks -/
  | pending
  /-- there are no senders of requests any more -/
  | closed
  | handleRsp (timer : Timer)
  | handleVanish (key : Nat) (now : Instant)
  | handleReq (now : Instant)
  /-- the query handle takes a key from its channel -/
  | recvReq (timeoutAt : Instant) (timer : Timer)
  /-- a query of the handle times out, and is answered with this -/
  | queryExpired (key : Nat) (now : Instant) (data : EffectiveCacheData R)
  /-- an answer comes in, for any key at any time -/
  | rspData (key : K) (data : EffectiveCacheData R)

/-- The loop over the requests, of which `n` may still be taken. -/
def atReq (n : Nat) : CachePollAt := if n = 0 then .rsp else .req n

/-- One step of one of the tasks or of their surroundings. -/
def step (e : Event K R) : Option (EffectiveCache K R) :=
  if w.fault.isSome then none
  else
    match e with
    | .request r =>
      if r.notifier ∈ w.issued.map (·.notifier) then none
      else some { w with requests := w.requests ++ [r], issued := w.issued ++ [r] }
    | .poll => if w.pc = .idle then some { w with pc := .rsp } else none
    | .pending =>
      match w.pc with
      | .rsp => some { w with pc := .vanish }
      | .vanish => some { w with pc := atReq w.requestBatchHandleCount }
      | .req _ => some { w with pc := .idle }
      | _ => none
    | .closed =>
      match w.pc with
      | .req _ => some { w with pc := .ended }
      | _ => none
    | .handleRsp timer =>
      match w.pc, w.responses with
      | .rsp, (key, result) :: rs =>
        if (w.vanish.get timer.slot).isSome then none
        else some (handleRsp { w with responses := rs } key result timer)
      | _, _ => none
    | .handleVanish key now =>
      match w.pc with
      | .vanish =>
        match w.vanish.pollExpired key now with
        | none => none
        | some (k, vanish) => some (handleVanish { w with vanish := vanish } k)
      | _ => none
    | .handleReq now =>
      match w.pc, w.requests with
      | .req n, r :: rs => some (handleReq { w with requests := rs, pc := atReq (n - 1) } r now)
      | _, _ => none
    | .recvReq timeoutAt timer =>
      match w.queries with
      | [] => none
      | key :: queries =>
        if (w.doingTimeoutQueue.get timer.slot).isSome then none
        else some (shouldSendRawQuery { w with queries := queries } key timeoutAt timer).1
    | .queryExpired key now data =>
      match w.doingTimeoutQueue.pollExpired key now with
      | none => none
      | some (k, q) => some (sendRspData { w with doingTimeoutQueue := q } k data true)
    | .rspData key data => some (sendRspData w key data false)

/-! ### Where a key is -/

variable {w' : EffectiveCache K R} {k : K}

/-- The requesters under the entry of a key. -/
def queue (k : K) : List (CacheQueryRequest K) :=
  (w.doing.lookup k).getD []

/-- How often a key is on its way to the handle, with the handle, and on its way back. -/
def inFlight (k : K) : Nat :=
  w.queries.count k + (w.doingCache.lookup k).isSome.toNat + (w.responses.map (·.1)).count k

variable (doing : Table K (List (CacheQueryRequest K)))

/-- The requests under the entries of `doing`. -/
def held : Multiset (CacheQueryRequest K) :=
  Table.tally (fun _ vec => Multiset.ofList vec) doing

/-- The requests at the places where they can be. -/
def accounted : Multiset (CacheQueryRequest K) :=
  Multiset.ofList w.requests + held w.doing + Multiset.ofList (w.answers.map (·.1)) +
    Multiset.ofList w.misses

/-- The two tasks fit together. -/
structure Ok : Prop where
  located : ∀ k, w.inFlight k = (w.doing.lookup k).isSome.toNat
  vanishes : Linked CacheQueryValue.vanishKey w.cache w.vanish
  times : Linked some w.doingCache w.doingTimeoutQueue
  cached : ∀ k v, w.cache.lookup k = some v → (k, v.result) ∈ w.given
  responded : ∀ r ∈ w.responses, r ∈ w.given
  queued : ∀ k vec, w.doing.lookup k = some vec →
    ∀ r ∈ vec, r.cacheKey = k ∧ r.queryCacheOnly = false
  tickets : w.accounted = Multiset.ofList w.issued
  fresh : (w.issued.map (·.notifier)).Nodup
  answered : ∀ a ∈ w.answers, (a.1.cacheKey, a.2) ∈ w.given
  missed : ∀ r ∈ w.misses, r.queryCacheOnly = true

/-- As long as there is no fault, and no fault comes from a key that is not valid. -/
def Inv : Prop :=
  (w.fault = none → w.Ok) ∧ w.fault ≠ some .invalidKey

variable {w}

theorem inv_start (n : Nat) : Inv ({ requestBatchHandleCount := n } : EffectiveCache K R) :=
  ⟨fun _ => ⟨fun _ => rfl, linked_empty, linked_empty, nofun, nofun, nofun, rfl, nodup_nil,
    nofun, nofun⟩, nofun⟩

/-- The entry of a key, and the rest. -/
theorem held_erase (k : K) :
    held doing = ofList ((doing.lookup k).getD []) + held (doing.erase k) := by
  cases hk : doing.lookup k with
  | none =>
    rw [erase_of_lookup hk, Option.getD_none]
    exact (zero_add _).symm
  | some vec => exact tally_of_lookup hk

variable {vec : List (CacheQueryRequest K)}

/-- Requesters come to an entry. -/
theorem held_insert {doing : Table K (List (CacheQueryRequest K))}
    (hk : doing.lookup k = some vec ∨ vec = [] ∧ doing.lookup k = none)
    (new : List (CacheQueryRequest K)) :
    held (doing.insert k (vec ++ new)) = held doing + ofList new := by
  have hvec : (doing.lookup k).getD [] = vec := by
    rcases hk with hk | ⟨rfl, hk⟩ <;> rw [hk] <;> rfl
  rw [held_erase doing k, held, tally_insert, hvec, ← coe_add]
  exact add_right_comm _ _ _

/-! ### The cache task keeps its requesters -/

variable {r : K × EffectiveCacheData R} {rs : List (K × EffectiveCacheData R)}

/-- The response of a key is taken from the channel, and the entry of the key goes. -/
theorem Ok.located_erase (h : w.Ok) (hrs : w.responses = r :: rs) :
    (w.doing.lookup r.1).isSome ∧
    ∀ k, inFlight { w with responses := rs } k =
      ((w.doing.erase r.1).lookup k).isSome.toNat := by
  have hcount : ∀ k, w.inFlight k =
      inFlight { w with responses := rs } k + if r.1 = k then 1 else 0 := by
    intro k
    rw [inFlight, inFlight, hrs, map_cons, count_cons]
    simp only [beq_iff_eq]
    exact (Nat.add_assoc _ _ _).symm
  have hone := h.located r.1
  rw [hcount, if_pos rfl] at hone
  have hsome : (w.doing.lookup r.1).isSome := by
    by_contra hnone
    rw [Bool.eq_false_of_not_eq_true hnone, Bool.toNat_false] at hone
    omega
  rw [hsome, Bool.toNat_true] at hone
  refine ⟨hsome, fun k => ?_⟩
  have hk := h.located k
  rw [hcount] at hk
  rw [lookup_erase]
  by_cases heq : k = r.1
  · rw [if_pos heq, heq, Option.isSome_none, Bool.toNat_false]
    omega
  · rw [if_neg (fun he => heq he.symm), Nat.add_zero] at hk
    rw [if_neg heq, hk]

theorem Ok.queued_erase (h : w.Ok) (key : K) : ∀ k vec, (w.doing.erase key).lookup k = some vec →
    ∀ r ∈ vec, r.cacheKey = k ∧ r.queryCacheOnly = false := by
  intro k vec hk
  rw [lookup_erase] at hk
  split at hk
  · cases hk
  · exact h.queued k vec hk

/-- The requesters of a key are answered. -/
theorem accounted_answer (w : EffectiveCache K R) (key : K) (data : EffectiveCacheData R) :
    accounted { w with
      doing := w.doing.erase key
      answers := w.answers ++ (w.queue key).map (·, data) } = w.accounted := by
  have hanswers : ofList ((w.answers ++ (w.queue key).map (·, data)).map (·.1)) =
      ofList (w.answers.map (·.1)) + ofList (w.queue key) := by
    have hsame : ((w.queue key).map (·, data)).map (·.1) = w.queue key := by
      rw [map_map]
      exact map_id _
    rw [map_append, hsame, coe_add]
  rw [accounted, accounted, held_erase w.doing key, hanswers, queue]
  abel

theorem Ok.answered_queue (h : w.Ok) (hr : r ∈ w.given) :
    ∀ a ∈ w.answers ++ (w.queue r.1).map (·, r.2), (a.1.cacheKey, a.2) ∈ w.given := by
  intro a ha
  rcases mem_append.mp ha with ha | ha
  · exact h.answered a ha
  · obtain ⟨q, hq, rfl⟩ := mem_map.mp ha
    rw [queue] at hq
    cases hvec : w.doing.lookup r.1 with
    | none => rw [hvec] at hq; cases hq
    | some vec =>
      rw [hvec] at hq
      rw [(h.queued r.1 vec hvec q hq).1]
      exact hr

theorem inv_handleRsp (h : w.Ok) (hf : w.fault = none) {timer : Timer} (hrs : w.responses = r :: rs)
    (hfree : w.vanish.get timer.slot = none) :
    ((handleRsp { w with responses := rs } r.1 r.2 timer).doing.lookup r.1 = none ∧
      (handleRsp { w with responses := rs } r.1 r.2 timer).answers =
        w.answers ++ (w.queue r.1).map (·, r.2)) ∧
    Inv (handleRsp { w with responses := rs } r.1 r.2 timer) := by
  have hgiven : r ∈ w.given := h.responded r (hrs ▸ mem_cons_self)
  obtain ⟨hsome, hlocated⟩ := h.located_erase hrs
  obtain ⟨vec, hvec⟩ := Option.isSome_iff_exists.mp hsome
  have hqueue : w.queue r.1 = vec := by
    rw [queue, hvec]
    rfl
  have hgone : (w.doing.erase r.1).lookup r.1 = none := by rw [lookup_erase, if_pos rfl]
  have htickets := (w.accounted_answer r.1 r.2).trans h.tickets
  have hanswered := h.answered_queue hgiven
  rw [hqueue] at htickets hanswered ⊢
  have hmk : ∀ i, CacheQueryValue.vanishKey ⟨r.2, some i⟩ = some i := fun _ => rfl
  rw [handleRsp]
  simp only [hvec]
  rcases h.vanishes.put (k := r.1) (d := r.2.vanishAt) hfree hmk with ⟨i, q, hput, hlinked⟩ | hput
  · simp only [hput]
    refine ⟨⟨hgone, trivial⟩, fun _ => ?_, fun hfault => ?_⟩
    · refine ⟨hlocated, hlinked, h.times, fun k v hk => ?_, ?_, h.queued_erase r.1, htickets,
        h.fresh, hanswered, h.missed⟩
      · rw [lookup_insert] at hk
        split at hk
        next heq =>
          cases hk
          rw [heq]
          exact hgiven
        next => exact h.cached k v hk
      · exact fun r' hr' => h.responded r' (hrs ▸ mem_cons_of_mem r hr')
    · rw [hf] at hfault
      cases hfault
  · simp only [hput]
    exact ⟨⟨hgone, trivial⟩, nofun, nofun⟩

variable {key : K}

/-- A new entry, and its key is on its way. -/
theorem Ok.located_ask (h : w.Ok) (hkey : w.doing.lookup key = none)
    (vec : List (CacheQueryRequest K)) (k : K) :
    inFlight { w with queries := w.queries ++ [key] } k =
      ((w.doing.insert key vec).lookup k).isSome.toNat := by
  have hk := h.located k
  rw [inFlight] at hk ⊢
  rw [lookup_insert, count_append, count_singleton]
  by_cases heq : k = key
  · subst heq
    rw [hkey, Option.isSome_none, Bool.toNat_false] at hk
    simp only [beq_self_eq_true, if_true, Option.isSome_some, Bool.toNat_true]
    omega
  · have hne : (key == k) = false := beq_false_of_ne fun he => heq he.symm
    rw [if_neg heq, hne, ← hk]
    simp

theorem Ok.queued_insert (h : w.Ok)
    (hvec : ∀ r ∈ vec, r.cacheKey = key ∧ r.queryCacheOnly = false) :
    ∀ k vec', (w.doing.insert key vec).lookup k = some vec' →
      ∀ r ∈ vec', r.cacheKey = k ∧ r.queryCacheOnly = false := by
  intro k vec' hk
  rw [lookup_insert] at hk
  split at hk
  next heq =>
    cases hk
    exact heq ▸ hvec
  next => exact h.queued k vec' hk

variable {r : CacheQueryRequest K}

/-- The request at the head of the channel moves to the other places. -/
theorem Ok.tickets_move (h : w.Ok) {rs : List (CacheQueryRequest K)}
    (hrs : w.requests = r :: rs) {x y z : Multiset (CacheQueryRequest K)} (hxyz : x + y + z = {r}) :
    ofList rs + (held w.doing + x) + (ofList (w.answers.map (·.1)) + y) +
      (ofList w.misses + z) = ofList w.issued := by
  rw [← h.tickets, accounted, hrs, ← Multiset.cons_coe, ← Multiset.singleton_add, ← hxyz]
  abel

theorem ok_handleReq (h : w.Ok) {rs : List (CacheQueryRequest K)}
    (hrs : w.requests = r :: rs) (pc : CachePollAt) (now : Instant) :
    Ok (handleReq { w with requests := rs, pc := pc } r now) := by
  have hhit : ∀ v, w.cache.lookup r.cacheKey = some v →
      Ok { w with requests := rs, pc := pc, answers := w.answers ++ [(r, v.result)] } := by
    intro v hv
    refine { h with tickets := ?_, answered := ?_ }
    · have hmove := h.tickets_move hrs (x := 0) (y := {r}) (z := 0) (by simp)
      rw [add_zero, add_zero] at hmove
      rw [accounted, map_append, ← coe_add]
      exact hmove
    · intro a ha
      rcases mem_append.mp ha with ha | ha
      · exact h.answered a ha
      · obtain rfl := mem_singleton.mp ha
        exact h.cached _ v hv
  rw [handleReq]
  split
  next honly =>
    split
    next v hv => exact hhit v hv
    next =>
      refine { h with tickets := ?_, missed := ?_ }
      · have hmove := h.tickets_move hrs (x := 0) (y := 0) (z := {r}) (by simp)
        rw [add_zero, add_zero] at hmove
        rw [accounted, ← coe_add]
        exact hmove
      · intro q hq
        rcases mem_append.mp hq with hq | hq
        · exact h.missed q hq
        · obtain rfl := mem_singleton.mp hq
          exact honly
  next honly =>
    have honly : r.queryCacheOnly = false := Bool.eq_false_of_not_eq_true honly
    split
    next v hv =>
      have hok := hhit v hv
      dsimp only
      split
      next =>
        split
        next => exact hok
        next hnone =>
          refine { hok with
            located := hok.located_ask hnone [], queued := hok.queued_insert nofun, tickets := ?_ }
          refine Eq.trans ?_ hok.tickets
          have hheld := held_insert (.inr ⟨rfl, hnone⟩) []
          rw [coe_nil, add_zero] at hheld
          exact congrArg (fun m => ofList rs + m + _ + _) hheld
      next => exact hok
    next =>
      have hmove := h.tickets_move hrs (x := {r}) (y := 0) (z := 0) (by simp)
      rw [add_zero, add_zero] at hmove
      split
      next vec hvec =>
        refine { h with located := fun k => ?_, queued := h.queued_insert ?_, tickets := ?_ }
        · rw [lookup_insert]
          refine (h.located k).trans ?_
          split
          next heq => rw [heq, hvec]; rfl
          next => rfl
        · intro q hmem
          rcases mem_append.mp hmem with hmem | hmem
          · exact h.queued _ vec hvec q hmem
          · obtain rfl := mem_singleton.mp hmem
            exact ⟨rfl, honly⟩
        · refine Eq.trans ?_ hmove
          exact congrArg (fun m => ofList rs + m + _ + _) (held_insert (.inl hvec) [r])
      next hnone =>
        refine { h with
          located := h.located_ask hnone [r], queued := h.queued_insert ?_, tickets := ?_ }
        · intro q hmem
          obtain rfl := mem_singleton.mp hmem
          exact ⟨rfl, honly⟩
        · refine Eq.trans ?_ hmove
          exact congrArg (fun m => ofList rs + m + _ + _)
            (held_insert (.inr ⟨rfl, hnone⟩) [r])

/-! ### The query handle keeps its keys -/

/-- A key goes from the handle to the response channel. -/
theorem Ok.respond (h : w.Ok) {i : Nat} {due : Instant}
    (hget : w.doingTimeoutQueue.get i = some (key, due)) (data : EffectiveCacheData R) :
    Ok { w with
      doingCache := w.doingCache.erase key
      doingTimeoutQueue := ⟨w.doingTimeoutQueue.slots.erase i⟩
      responses := w.responses ++ [(key, data)]
      given := w.given ++ [(key, data)] } := by
  have hgiven : ∀ x ∈ w.given, x ∈ w.given ++ [(key, data)] := fun x => mem_append_left _
  obtain ⟨v, hv, -⟩ := h.times.2 i key due hget
  refine { h with
    located := fun k => ?_, times := h.times.erase hget,
    cached := fun k v hk => hgiven _ (h.cached k v hk), responded := fun r hr => ?_,
    answered := fun a ha => hgiven _ (h.answered a ha) }
  · refine Eq.trans ?_ (h.located k)
    rw [inFlight, inFlight]
    rw [lookup_erase, map_append, count_append, map_singleton,
      count_singleton]
    by_cases heq : k = key
    · subst heq
      simp only [if_true, hv, Option.isSome_none, Option.isSome_some, Bool.toNat_false,
        Bool.toNat_true, beq_self_eq_true]
      omega
    · have hne : (key == k) = false := beq_false_of_ne fun he => heq he.symm
      simp [heq, hne]
  · rcases mem_append.mp hr with hr | hr
    · exact hgiven r (h.responded r hr)
    · exact mem_append_right _ hr

theorem inv_sendRspData (h : w.Inv) (hf : w.fault = none) (key : K) (data : EffectiveCacheData R) :
    Inv (w.sendRspData key data false) := by
  have hok := h.1 hf
  rw [sendRspData]
  split
  next => exact h
  next i hi =>
    obtain ⟨due, hget⟩ := hok.times.valid hi rfl
    simp only [Bool.false_eq_true, if_false, DelayQueue.remove, hget]
    exact ⟨fun _ => hok.respond hget data, h.2⟩

theorem inv_queryExpired (h : w.Inv) (hf : w.fault = none) {i : Nat} {now : Instant}
    {q : DelayQueue K} (hpoll : w.doingTimeoutQueue.pollExpired i now = some (key, q))
    (data : EffectiveCacheData R) :
    Inv (sendRspData { w with doingTimeoutQueue := q } key data true) := by
  have hok := h.1 hf
  obtain ⟨due, hget, rfl⟩ := DelayQueue.pollExpired_eq_some hpoll
  obtain ⟨v, hv, -⟩ := hok.times.2 i key due hget
  simp only [sendRspData, hv, if_true]
  exact ⟨fun _ => hok.respond hget data, h.2⟩

theorem inv_recvReq (h : w.Inv) (hf : w.fault = none) {queries : List K}
    (hq : w.queries = key :: queries) {timer : Timer}
    (hfree : w.doingTimeoutQueue.get timer.slot = none) (timeoutAt : Instant) :
    Inv (shouldSendRawQuery { w with queries := queries } key timeoutAt timer).1 := by
  have hok := h.1 hf
  have hcount : ∀ k, w.inFlight k = queries.count k + (w.doingCache.lookup k).isSome.toNat +
      (w.responses.map (·.1)).count k + if key = k then 1 else 0 := by
    intro k
    rw [inFlight, hq, count_cons]
    simp only [beq_iff_eq]
    omega
  have hnone : w.doingCache.lookup key = none := by
    have hone := hok.located key
    rw [hcount, if_pos rfl] at hone
    rw [← Option.not_isSome_iff_eq_none]
    intro hsome
    rw [hsome, Bool.toNat_true] at hone
    have hle := Bool.toNat_le (w.doing.lookup key).isSome
    omega
  simp only [shouldSendRawQuery, hnone]
  cases hins : w.doingTimeoutQueue.insertAt key timeoutAt timer with
  | error p =>
    rw [DelayQueue.insertAt] at hins
    split at hins
    · cases hins
      exact ⟨by simp, by simp⟩
    · cases hins
  | ok e =>
    refine ⟨fun _ => ?_, h.2⟩
    refine { hok with located := fun k => ?_, times := hok.times.insert hnone hfree hins rfl }
    refine Eq.trans ?_ (hok.located k)
    rw [hcount, inFlight]
    rw [lookup_insert]
    by_cases heq : k = key
    · subst heq
      simp only [if_true, hnone, Option.isSome_none, Option.isSome_some, Bool.toNat_false,
        Bool.toNat_true]
      omega
    · rw [if_neg heq, if_neg fun he => heq he.symm, Nat.add_zero]

/-! ### Runs -/

theorem Ok.request (h : w.Ok) (hr : r.notifier ∉ w.issued.map (·.notifier)) :
    Ok { w with requests := w.requests ++ [r], issued := w.issued ++ [r] } := by
  refine { h with tickets := ?_, fresh := ?_ }
  · rw [← coe_add, ← h.tickets, accounted, accounted]
    rw [← coe_add]
    abel
  · rw [map_append]
    refine h.fresh.append (nodup_singleton _) ?_
    rw [map_singleton, disjoint_singleton]
    exact hr

/-- Only the place in the loop changes. -/
theorem Inv.goto (h : w.Inv) (pc : CachePollAt) : Inv { w with pc := pc } :=
  ⟨fun hf => { h.1 hf with }, h.2⟩

theorem Inv.step (h : w.Inv) {e : Event K R} (hw : w.step e = some w') : w'.Inv := by
  rw [EffectiveCache.step.eq_def] at hw
  split at hw
  · cases hw
  next hfault =>
    have hf : w.fault = none := Option.not_isSome_iff_eq_none.mp hfault
    have hok := h.1 hf
    cases e with
    | request r =>
      dsimp only at hw
      split at hw
      · cases hw
      next hr =>
        cases hw
        exact ⟨fun _ => hok.request hr, h.2⟩
    | poll =>
      dsimp only at hw
      split at hw
      · cases hw
        exact h.goto .rsp
      · cases hw
    | pending =>
      dsimp only at hw
      split at hw
      · cases hw; exact h.goto .vanish
      · cases hw; exact h.goto _
      · cases hw; exact h.goto .idle
      · cases hw
    | closed =>
      dsimp only at hw
      split at hw
      · cases hw; exact h.goto .ended
      · cases hw
    | handleRsp timer =>
      dsimp only at hw
      split at hw
      next key result rs hpc hrs =>
        split at hw
        · cases hw
        next hfree =>
          cases hw
          exact (inv_handleRsp hok hf hrs (Option.not_isSome_iff_eq_none.mp hfree)).2
      next => cases hw
    | handleVanish i now =>
      dsimp only at hw
      split at hw
      next =>
        split at hw
        · cases hw
        next k vanish hpoll =>
          cases hw
          obtain ⟨due, hget, rfl⟩ := DelayQueue.pollExpired_eq_some hpoll
          refine ⟨fun _ => ?_, h.2⟩
          refine { hok with vanishes := hok.vanishes.erase hget, cached := fun k' v hk' => ?_ }
          rw [handleVanish, lookup_erase] at hk'
          split at hk'
          · cases hk'
          · exact hok.cached k' v hk'
      next => cases hw
    | handleReq now =>
      dsimp only at hw
      split at hw
      next n r rs hpc hrs =>
        cases hw
        refine ⟨fun _ => ok_handleReq hok hrs _ now, ?_⟩
        have hsame : (handleReq { w with requests := rs, pc := atReq (n - 1) } r now).fault =
            w.fault := by
          rw [handleReq]
          split
          · split <;> rfl
          · split
            · dsimp only
              split
              · split <;> rfl
              · rfl
            · split <;> rfl
        rw [hsame]
        exact h.2
      next => cases hw
    | recvReq timeoutAt timer =>
      dsimp only at hw
      split at hw
      · cases hw
      next key queries hq =>
        split at hw
        · cases hw
        next hfree =>
          cases hw
          exact inv_recvReq h hf hq (Option.not_isSome_iff_eq_none.mp hfree) timeoutAt
    | queryExpired i now data =>
      dsimp only at hw
      split at hw
      · cases hw
      next hpoll =>
        cases hw
        exact inv_queryExpired h hf hpoll data
    | rspData key data =>
      cases hw
      exact inv_sendRspData h hf key data

/-- A request waits under the entry of its key. -/
theorem Ok.count_held (h : w.Ok) (r : CacheQueryRequest K) :
    (held w.doing).count r = (w.queue r.cacheKey).count r := by
  have hother : r ∉ held (w.doing.erase r.cacheKey) := by
    intro hmem
    obtain ⟨k, vec, hlook, hr⟩ := mem_tally.mp hmem
    have hkey := (h.queued_erase r.cacheKey k vec hlook r (mem_coe.mp hr)).1
    rw [lookup_erase, if_pos hkey.symm] at hlook
    cases hlook
  rw [held_erase w.doing r.cacheKey, count_add, Multiset.count_eq_zero_of_notMem hother,
    coe_count, Nat.add_zero, queue]

/-- A request that is not for the cache only is at one place. -/
theorem Ok.place (h : w.Ok) (hr : r ∈ w.issued) (honly : r.queryCacheOnly = false) :
    w.requests.count r + (w.queue r.cacheKey).count r + (w.answers.map (·.1)).count r = 1 := by
  have hmiss : w.misses.count r = 0 := by
    refine count_eq_zero.mpr fun hmem => ?_
    rw [h.missed r hmem] at honly
    cases honly
  have hone : w.accounted.count r = 1 := by
    rw [h.tickets, coe_count]
    exact count_eq_one_of_mem h.fresh.of_map hr
  rw [accounted, count_add, count_add, count_add, h.count_held] at hone
  simp only [coe_count, hmiss] at hone
  exact hone

theorem Ok.mem_issued (h : w.Ok) (hr : r ∈ w.accounted) : r ∈ w.issued := by
  rw [h.tickets] at hr
  exact mem_coe.mp hr

/-- What becomes of a request that is not for the cache only. -/
theorem handleReq_cases (honly : r.queryCacheOnly = false) (now : Instant) :
    (∃ v, w.cache.lookup r.cacheKey = some v ∧ (r, v.result) ∈ (w.handleReq r now).answers) ∨
    r ∈ (w.handleReq r now).queue r.cacheKey := by
  rw [handleReq, if_neg (by rw [honly]; exact Bool.false_ne_true)]
  split
  next v hv =>
    refine .inl ⟨v, hv, ?_⟩
    have hlast : (r, v.result) ∈ w.answers ++ [(r, v.result)] :=
      mem_append_right _ mem_cons_self
    dsimp only
    split
    · split <;> exact hlast
    · exact hlast
  next =>
    right
    split
    · rw [queue, lookup_insert, if_pos rfl]
      exact mem_append_right _ mem_cons_self
    · rw [queue, sendReq, lookup_insert, if_pos rfl]
      exact mem_cons_self

/-- The cache strands no requester, wherever a run gets: a key that is asked for is in one place
    between the tasks, and its requesters are answered when it is back. -/
theorem effectiveCache_strands_nobody (requestBatchHandleCount : Nat) (es : List (Event K R))
    (w : EffectiveCache K R)
    (hrun : run step { requestBatchHandleCount := requestBatchHandleCount } es = some w) :
    w.fault ≠ some .invalidKey ∧ (w.fault = none →
      -- a key with an entry is in one of the three places, one without in none of them
      (∀ k, w.queries.count k + (w.doingCache.lookup k).isSome.toNat +
        (w.responses.map (·.1)).count k = (w.doing.lookup k).isSome.toNat) ∧
      -- a request is in the channel, queued or answered, once
      (∀ r ∈ w.issued, r.queryCacheOnly = false →
        w.requests.count r + (w.queue r.cacheKey).count r + (w.answers.map (·.1)).count r = 1) ∧
      (∀ a ∈ w.answers, a.1 ∈ w.issued ∧ (a.1.cacheKey, a.2) ∈ w.given) ∧
      -- it is answered from the cache at once, or queued
      (∀ w' r rs now, w.requests = r :: rs → r.queryCacheOnly = false →
        w.step (.handleReq now) = some w' →
        (∃ v, w.cache.lookup r.cacheKey = some v ∧ (r, v.result) ∈ w'.answers) ∨
        r ∈ w'.queue r.cacheKey) ∧
      -- the response answers all that are queued
      (∀ w' r rs timer, w.responses = r :: rs → w.step (.handleRsp timer) = some w' →
        w'.doing.lookup r.1 = none ∧ ∀ q ∈ w.queue r.1, (q, r.2) ∈ w'.answers) ∧
      -- one entry of the vanish queue for each entry of the cache
      ∀ k, (w.vanish.entriesOf k).length = if (w.cache.lookup k).isSome then 1 else 0) := by
  have hinv : w.Inv := run_inv (fun hw hs => hw.step hs) (inv_start requestBatchHandleCount) hrun
  refine ⟨hinv.2, fun hf => ?_⟩
  have h := hinv.1 hf
  refine ⟨h.located, fun r => h.place, fun a ha => ⟨h.mem_issued ?_, h.answered a ha⟩, ?_, ?_,
    h.vanishes.length_entriesOf⟩
  · rw [accounted]
    simp only [mem_add, mem_coe]
    exact .inl (.inr (mem_map_of_mem ha))
  · intro w' r rs now hrs honly hw
    rw [step.eq_def, if_neg (by rw [hf]; exact Bool.false_ne_true)] at hw
    dsimp only at hw
    split at hw
    next n r' rs' hpc hrs' =>
      rw [hrs] at hrs'
      cases hrs'
      cases hw
      exact handleReq_cases (w := { w with requests := rs, pc := atReq (n - 1) }) honly now
    next => cases hw
  · intro w' r rs timer hrs hw
    rw [step.eq_def, if_neg (by rw [hf]; exact Bool.false_ne_true)] at hw
    dsimp only at hw
    split at hw
    next key result rs' hpc hrs' =>
      rw [hrs] at hrs'
      cases hrs'
      split at hw
      next => cases hw
      next hfree =>
        cases hw
        obtain ⟨⟨hnone, hanswers⟩, -⟩ :=
          inv_handleRsp h hf hrs (Option.not_isSome_iff_eq_none.mp hfree)
        refine ⟨hnone, fun q hq => ?_⟩
        rw [hanswers]
        exact mem_append_right _ (mem_map_of_mem hq)
    next => cases hw

/-- Two requesters of a key whose query times out, an answer that is late, and one from the cache. -/
def lateAnswer : List (Event Nat Nat) :=
  [.request ⟨7, false, 0⟩, .request ⟨7, false, 1⟩, .poll, .pending, .pending, .handleReq 0,
    .handleReq 0, .recvReq 10 ⟨0, 100⟩, .queryExpired 0 11 ⟨none, 20, 30⟩,
    .rspData 7 ⟨some 5, 40, 50⟩, .handleRsp ⟨0, 100⟩, .request ⟨7, false, 2⟩, .pending, .pending,
    .handleReq 12]

theorem effectiveCache_strands_nobody_lateAnswer :
    ∃ w, run step { requestBatchHandleCount := 2 } lateAnswer = some w ∧
      w.answers.map (fun a => (a.1.notifier, a.2.expireAt)) = [(0, 20), (1, 20), (2, 20)] ∧
      w.fault = none ∧
      ∀ r ∈ w.issued, r.queryCacheOnly = false →
        w.requests.count r + (w.queue r.cacheKey).count r + (w.answers.map (·.1)).count r = 1 := by
  refine exists_run (p := fun w => w.answers.map (fun a => (a.1.notifier, a.2.expireAt)) =
    [(0, 20), (1, 20), (2, 20)] ∧ w.fault = none) (by decide +kernel) fun w hrun hw => ?_
  exact ⟨hw.1, hw.2, ((effectiveCache_strands_nobody _ _ w hrun).2 hw.2).2.1⟩

end EffectiveCache

end Vey.IoExt

import Vey.Keyless.Multiplex

/-! Every requester gets its own answer, at most once.

    The ids of a connection are those of the requests in their order, so a response finds the request
    that was sent under its id, or none. A requester is registered or has received a response, one or
    the other. -/

namespace Vey.Keyless
open Schemes List Table UInt32 KeylessHeader

namespace StreamState

variable {s : StreamState} {id : UInt32} {v : CachedValue}

/-- The value is registered under the id. -/
def Holds (s : StreamState) (id : UInt32) (v : CachedValue) : Prop :=
  s.curCache.lookup id = some v ∨ s.oldCache.lookup id = some v

/-- The requesters that are registered. -/
def senders (s : StreamState) : Multiset Nat :=
  Table.tally (fun _ v => {v.rspSender}) s.curCache + Table.tally (fun _ v => {v.rspSender}) s.oldCache

/-- A request under an id that is not in use. -/
theorem senders_addRequest (h : s.curCache.lookup id = none) (header : KeylessHeader) (n : Nat) :
    (s.addRequest id header n).senders = s.senders + {n} := by
  rw [senders, addRequest, tally_insert, erase_of_lookup h, senders]
  abel

theorem holds_addRequest {header : KeylessHeader} {n : Nat} {id' : UInt32}
    (h : (s.addRequest id header n).Holds id' v) : s.Holds id' v ∨ id' = id ∧ v = ⟨header, n⟩ := by
  rcases h with h | h
  · rw [addRequest, lookup_insert] at h
    split at h
    next heq => exact .inr ⟨heq, (Option.some.inj h).symm⟩
    next => exact .inl (.inl h)
  · exact .inl (.inr h)

theorem lookup_of_erase {t : Table UInt32 CachedValue} {id' : UInt32}
    (h : (t.erase id').lookup id = some v) : t.lookup id = some v := by
  rw [lookup_erase] at h
  split at h
  · cases h
  · exact h

/-- A request that is fetched is registered no more; without one nothing changes. -/
theorem fetchRequest_cases (s : StreamState) (id : UInt32) :
    (∃ v s', s.fetchRequest id = (some v, s') ∧ s.Holds id v ∧
      s.senders = s'.senders + {v.rspSender} ∧ ∀ id' v', s'.Holds id' v' → s.Holds id' v') ∨
    s.fetchRequest id = (none, s) := by
  rw [fetchRequest]
  cases hcur : s.curCache.lookup id with
  | some v =>
    refine .inl ⟨v, _, rfl, .inl hcur, ?_, fun id' v' h => ?_⟩
    · rw [senders, senders, tally_of_lookup hcur]
      abel
    · exact h.imp lookup_of_erase fun h => h
  | none =>
    cases hold : s.oldCache.lookup id with
    | some v =>
      refine .inl ⟨v, _, rfl, .inr hold, ?_, fun id' v' h => ?_⟩
      · rw [senders, senders, tally_of_lookup hold]
        abel
      · exact h.imp (fun h => h) lookup_of_erase
    | none => exact .inr rfl

/-- What is registered in `s'` is registered in the same cache of `s`. -/
def Within (s' s : StreamState) : Prop :=
  ∀ id v, (s'.curCache.lookup id = some v → s.curCache.lookup id = some v) ∧
    (s'.oldCache.lookup id = some v → s.oldCache.lookup id = some v)

theorem fetchRequest_within {s' : StreamState} (h : s.fetchRequest id = (some v, s')) :
    s'.Within s := by
  rw [fetchRequest] at h
  repeat' split at h
  all_goals cases h
  · exact fun _ _ => ⟨lookup_of_erase, fun h => h⟩
  · exact fun _ _ => ⟨fun h => h, lookup_of_erase⟩

variable (s)

/-- What the errors of a list of values and the rest of the state add up to. -/
def Splits (r : List CachedValue × StreamState) : Prop :=
  s.senders = r.2.senders + Multiset.ofList (r.1.map (·.rspSender)) ∧
    ∀ id v, r.2.Holds id v → s.Holds id v

theorem drain_splits : s.Splits s.drain := by
  refine ⟨?_, fun id v h => ?_⟩
  · rw [senders, drain, tally_values, tally_values, map_append, ← Multiset.coe_add]
    exact (zero_add _).symm
  · rcases h with h | h <;> cases h

theorem rotateTimeout_splits : s.Splits s.rotateTimeout := by
  refine ⟨?_, fun id v h => ?_⟩
  · rw [senders, rotateTimeout, tally_values (t := s.oldCache), senders]
    exact congrArg (· + _) (zero_add _).symm
  · rcases h with h | h
    · cases h
    · exact .inl h

end StreamState

namespace Connection

variable (c : Connection)

/-- The request that the send task has taken and not registered yet. -/
def inHand : List KeylessForwardRequest :=
  match c.sendTask with
  | .taken data => [data]
  | _ => []

/-- The id of the next request. -/
def NextId : Prop :=
  match c.sendTask with
  | .writing _ => c.messageId + 1 = UInt32.ofNat c.sent.length
  | .ended => True
  | _ => c.messageId = UInt32.ofNat c.sent.length

/-- An upstream response for a requester is the one to its request, under the header of the request. -/
def Fits (a : Reply) : Prop :=
  ∀ r', a.response = .upstream r' → ∃ s ∈ c.sent, ∃ r ∈ c.received,
    s.2.rspSender = a.rspSender ∧ r.id = s.1.header.id ∧ r' = r.refresh s.2.req.header

structure Ok : Prop where
  ids : c.sent.map (·.1.header.id) = (List.range c.sent.length).map UInt32.ofNat
  next : c.NextId
  held : ∀ id v, c.state.Holds id v →
    ∃ s ∈ c.sent, s.1.header.id = id ∧ s.2.rspSender = v.rspSender ∧ s.2.req.header = v.reqHeader
  account : Multiset.ofList (c.replies.map (·.rspSender)) + c.state.senders =
    Multiset.ofList (c.sent.map (·.2.rspSender))
  hand : c.taken = c.sent.map (·.2) ++ c.inHand
  fresh : (c.taken.map (·.rspSender)).Nodup
  fits : ∀ a ∈ c.replies, c.Fits a

/-- As long as the ids do not come round again. -/
def Inv : Prop := c.sent.length < 2 ^ 32 → c.Ok

variable {c} {c' : Connection}

theorem inv_start (n : Nat) : Inv { maxRequestCount := n } :=
  fun _ => ⟨rfl, rfl, fun id v h => (by rcases h with h | h <;> cases h), rfl, rfl,
    nodup_nil, nofun⟩

/-- No two requests were sent under one id. -/
theorem Ok.ids_nodup (h : c.Ok) (hlen : c.sent.length < 2 ^ 32) :
    (c.sent.map (·.1.header.id)).Nodup := by
  rw [h.ids]
  refine nodup_range.map_on fun i hi j hj hij => ?_
  have hlt := mem_range.mp hi
  have hlt' := mem_range.mp hj
  have hnat := congrArg toNat hij
  rwa [toNat_ofNat_of_lt' (hlt.trans hlen), toNat_ofNat_of_lt' (hlt'.trans hlen)] at hnat

/-- The next id is not in use. -/
theorem Ok.lookup_next (h : c.Ok) (hlen : c.sent.length < 2 ^ 32)
    (hid : c.messageId = ofNat c.sent.length) : c.state.curCache.lookup c.messageId = none := by
  cases hlook : c.state.curCache.lookup c.messageId with
  | none => rfl
  | some v =>
    exfalso
    obtain ⟨s, hs, heq, -⟩ := h.held _ v (.inl hlook)
    have hmem : c.messageId ∈ c.sent.map (·.1.header.id) := heq ▸ mem_map_of_mem hs
    rw [h.ids, mem_map] at hmem
    obtain ⟨i, hi, hival⟩ := hmem
    have hlt := mem_range.mp hi
    have hnat := congrArg toNat (hival.trans hid)
    rw [toNat_ofNat_of_lt' (hlt.trans hlen), toNat_ofNat_of_lt' hlen] at hnat
    omega

theorem Fits.mono {a : Reply} (h : c.Fits a) (hs : ∀ s ∈ c.sent, s ∈ c'.sent)
    (hr : ∀ r ∈ c.received, r ∈ c'.received) : c'.Fits a := by
  intro r' ha
  obtain ⟨s, hs', r, hr', hfit⟩ := h r' ha
  exact ⟨s, hs s hs', r, hr r hr', hfit⟩

variable {data : KeylessForwardRequest}

theorem Ok.addRequest (h : c.Ok) (hlen : c.sent.length < 2 ^ 32)
    (hsend : c.sendTask = .taken data) :
    Ok { c with
      state := c.state.addRequest c.messageId data.req.header data.rspSender
      sendTask := .writing data
      sent := c.sent ++ [(data.req.refresh c.messageId, data)] } := by
  have hid : c.messageId = ofNat c.sent.length := by
    have hnext := h.next
    rw [NextId, hsend] at hnext
    exact hnext
  have hin : ∀ s ∈ c.sent, s ∈ c.sent ++ [(data.req.refresh c.messageId, data)] :=
    fun s => mem_append_left _
  refine ⟨?_, ?_, fun id v hv => ?_, ?_, ?_, h.fresh, fun a ha => (h.fits a ha).mono hin fun r => id⟩
  · rw [map_append, h.ids, length_append, length_singleton, range_succ,
      map_append, map_singleton, map_singleton, ← hid, KeylessRequest.refresh,
      id_setId]
  · change c.messageId + 1 = ofNat (c.sent ++ _).length
    rw [length_append, length_singleton, hid]
    exact (ofNat_add _ _).symm
  · rcases StreamState.holds_addRequest hv with hv | ⟨rfl, rfl⟩
    · obtain ⟨s, hs, hfit⟩ := h.held id v hv
      exact ⟨s, hin s hs, hfit⟩
    · refine ⟨_, mem_append_right _ mem_cons_self, ?_, rfl, rfl⟩
      rw [KeylessRequest.refresh, id_setId]
  · rw [StreamState.senders_addRequest (h.lookup_next hlen hid), ← add_assoc, h.account,
      map_append, ← Multiset.coe_add]
    rfl
  · rw [h.hand, inHand, hsend, inHand, map_append, append_nil]
    rfl

/-- A requester is answered, and not registered any more. -/
theorem Ok.reply (h : c.Ok) {v : CachedValue} {s' : StreamState} {a : Reply}
    (hs : c.state.senders = s'.senders + {v.rspSender})
    (hheld : ∀ id v, s'.Holds id v → c.state.Holds id v) (ha : a.rspSender = v.rspSender)
    (hfits : c.Fits a) : Ok { c with state := s', replies := c.replies ++ [a] } := by
  refine { h with
    held := fun id v hv => h.held id v (hheld id v hv), account := ?_, fits := fun x hx => ?_ }
  · rw [← h.account, hs, map_append, ← Multiset.coe_add, map_singleton, ha]
    change _ + {v.rspSender} + _ = _
    abel
  · rcases mem_append.mp hx with hx | hx
    · exact h.fits x hx
    · obtain rfl := mem_singleton.mp hx
      exact hfits

theorem Ok.handleRsp (h : c.Ok) {rsp : KeylessUpstreamResponse} (hrsp : rsp ∈ c.received) :
    Ok (c.handleRsp rsp) := by
  rw [Connection.handleRsp]
  rcases c.state.fetchRequest_cases rsp.id with ⟨v, s', hf, hv, hs, hheld⟩ | hf <;> rw [hf]
  · refine h.reply hs hheld rfl ?_
    rintro r' hr'
    cases hr'
    obtain ⟨s, hmem, hid, hsender, hheader⟩ := h.held _ v hv
    exact ⟨s, hmem, rsp, hrsp, hsender, hid.symm, by rw [hheader]⟩
  · exact h

theorem Ok.dropRequest (h : c.Ok) : Ok c.dropRequest := by
  rw [Connection.dropRequest]
  rcases c.state.fetchRequest_cases c.messageId with ⟨v, s', hf, hv, hs, hheld⟩ | hf <;> rw [hf]
  · exact h.reply hs hheld rfl nofun
  · exact h

theorem Ok.sendErrors (h : c.Ok) {r : List CachedValue × StreamState} (hr : c.state.Splits r) :
    Ok (c.sendErrors r) := by
  refine { h with
    held := fun id v hv => h.held id v (hr.2 id v hv), account := ?_, fits := fun a ha => ?_ }
  · have hsame : (r.1.map CachedValue.sendInternalError).map (·.rspSender) =
        r.1.map (·.rspSender) := by
      rw [map_map]
      rfl
    refine Eq.trans ?_ h.account
    dsimp only [Connection.sendErrors]
    rw [hr.1, map_append, hsame, ← Multiset.coe_add]
    abel
  · rcases mem_append.mp ha with ha | ha
    · exact h.fits a ha
    · obtain ⟨v, -, rfl⟩ := mem_map.mp ha
      exact nofun

/-- The send task ends. -/
theorem Ok.leave (h : c.Ok) (hc : c.inHand = []) : Ok { c with sendTask := .ended } := by
  refine { h with next := trivial, hand := ?_ }
  rw [h.hand, hc]
  rfl

theorem inHand_of_writing (h : c.sendTask = .writing data) : c.inHand = [] := by
  rw [inHand, h]

theorem inHand_of_idle (h : c.sendTask = .idle) : c.inHand = [] := by
  rw [inHand, h]

/-- Every step keeps the requesters in order. -/
theorem Inv.step (h : c.Inv) {e : Event} (hc : c.step e = some c') : c'.Inv := by
  intro hlen
  cases e with
  | take data =>
    rw [Connection.step] at hc
    split at hc
    next hidle =>
      cases hc
      have hok := h hlen
      have hnext := hok.next
      rw [NextId, hidle.1] at hnext
      refine { hok with next := hnext, hand := ?_, fresh := ?_ }
      · rw [hok.hand, inHand_of_idle hidle.1, append_nil]
        rfl
      · rw [map_append]
        refine hok.fresh.append (nodup_singleton _) ?_
        rw [map_singleton, disjoint_singleton]
        exact hidle.2
    next => cases hc
  | addRequest =>
    rw [Connection.step] at hc
    split at hc
    next data hsend =>
      cases hc
      have hlen' : c.sent.length < 2 ^ 32 := by
        rw [length_append] at hlen
        omega
      exact (h hlen').addRequest hlen' hsend
    next => cases hc
  | wrote =>
    rw [Connection.step] at hc
    split at hc
    next data hsend =>
      cases hc
      have hok := h hlen
      have hnext := hok.next
      rw [NextId, hsend] at hnext
      have hhand := hok.hand
      rw [inHand_of_writing hsend] at hhand
      by_cases hmax : c.maxRequestCount ≤ c.requestCount
      · rw [if_pos hmax]
        exact { hok with next := trivial, hand := hhand }
      · rw [if_neg hmax]
        exact { hok with next := hnext, hand := hhand }
    next => cases hc
  | writeFailed =>
    rw [Connection.step] at hc
    split at hc
    next data hsend =>
      cases hc
      have hdrop : c.dropRequest.sent = c.sent ∧ c.dropRequest.sendTask = c.sendTask := by
        rw [dropRequest]
        split <;> exact ⟨rfl, rfl⟩
      have hok : c.dropRequest.Ok := (h (hdrop.1 ▸ hlen)).dropRequest
      exact hok.leave (inHand_of_writing (hdrop.2.trans hsend))
    next => cases hc
  | stop =>
    rw [Connection.step] at hc
    split at hc
    next hidle => cases hc; exact (h hlen).leave (inHand_of_idle hidle)
    next => cases hc
  | arrive b =>
    cases hc
    exact { h hlen with }
  | respond =>
    rw [Connection.step] at hc
    split at hc
    next =>
      split at hc
      next rsp rest hrecv =>
        cases hc
        have hsent : (handleRsp { c with wire := rest, received := c.received ++ [rsp] } rsp).sent =
            c.sent := by
          rw [handleRsp]
          split <;> rfl
        have hok := h (hsent ▸ hlen)
        have hread : Ok { c with wire := rest, received := c.received ++ [rsp] } :=
          { hok with
            fits := fun a ha => (hok.fits a ha).mono (fun s => id) fun r => mem_append_left _ }
        exact hread.handleRsp (mem_append_right _ mem_cons_self)
      next => cases hc
    next => cases hc
  | readFailed | quit | senderGone | enough =>
    rw [Connection.step] at hc
    split at hc
    next => cases hc; exact { h hlen with }
    next => cases hc
  | tick =>
    rw [Connection.step] at hc
    split at hc
    next => cases hc; exact (h hlen).sendErrors c.state.rotateTimeout_splits
    next => cases hc
  | drain =>
    rw [Connection.step] at hc
    split at hc
    next => cases hc; exact { (h hlen).sendErrors c.state.drain_splits with }
    next => cases hc

/-- What an event does to the requests that are registered. -/
inductive Effect (c c' : Connection) : Event → Prop
  | add {data : KeylessForwardRequest} (hsend : c.sendTask = .taken data)
      (hs : c'.state = c.state.addRequest c.messageId data.req.header data.rspSender) :
      Effect c c' .addRequest
  | tick (hs : c'.state = c.state.rotateTimeout.2) : Effect c c' .tick
  | drain (hs : c'.state = {}) : Effect c c' .drain
  | other {e : Event} (htick : e ≠ .tick) (hdrain : e ≠ .drain) (hs : c'.state.Within c.state) :
      Effect c c' e

theorem effect_of_step {e : Event} (hc : c.step e = some c') :
    c.Effect c' e ∧ c.sent <+: c'.sent ∧
      (c'.recvTask = .ended → c.recvTask = .ended ∨ e = .drain) := by
  cases e with
  | addRequest =>
    rw [step] at hc
    split at hc <;> cases hc
    next data hsend => exact ⟨.add hsend rfl, prefix_append _ _, .inl⟩
  | tick =>
    rw [step] at hc
    split at hc <;> cases hc
    exact ⟨.tick rfl, prefix_rfl, .inl⟩
  | drain =>
    rw [step] at hc
    split at hc <;> cases hc
    exact ⟨.drain rfl, prefix_rfl, fun _ => .inr rfl⟩
  | _ =>
    -- the state is as it was, but for a request that a failed write or a response fetches
    simp only [step, dropRequest, handleRsp] at hc
    repeat' split at hc
    all_goals cases hc
    all_goals refine ⟨.other nofun nofun ?_, prefix_rfl, ?_⟩
    all_goals first
      | exact fun _ _ => ⟨id, id⟩
      | exact StreamState.fetchRequest_within ‹_›
      | exact .inl
      | exact nofun

/-- No two requests are sent under one id. A requester receives one response at most, and one from the
    upstream is the response to its own request: it has the id that this request alone was sent under,
    its payload is as it came, and its header is the one of the request but for the length. -/
theorem keyless_answers_own_request (maxRequestCount : Nat) (es : List Event) (c : Connection)
    (hrun : run step { maxRequestCount := maxRequestCount } es = some c)
    (hcount : c.sent.length < 2 ^ 32) :
    (c.sent.map (·.1.header.id)).Nodup ∧ (c.replies.map (·.rspSender)).Nodup ∧
    ∀ a ∈ c.replies, ∀ r', a.response = .upstream r' →
      ∃ data ∈ c.taken, ∃ wire, (wire, data) ∈ c.sent ∧ ∃ r ∈ c.received,
        data.rspSender = a.rspSender ∧ r.id = wire.header.id ∧ r'.payload = r.payload ∧
        r'.header.version = data.req.header.version ∧ r'.header.id = data.req.header.id ∧
        r'.header.payloadLen = r.header.payloadLen := by
  have h : c.Ok := run_inv (fun hc hs => hc.step hs) (inv_start maxRequestCount) hrun hcount
  have hnodup : (c.sent.map (·.2.rspSender)).Nodup := by
    have hfresh := h.fresh
    rw [h.hand, map_append, map_map] at hfresh
    exact hfresh.of_append_left
  refine ⟨h.ids_nodup hcount, ?_, fun a ha r' hr' => ?_⟩
  · rw [← Multiset.coe_nodup, ← h.account] at hnodup
    exact Multiset.coe_nodup.mp (Multiset.nodup_of_le (Multiset.le_add_right _ _) hnodup)
  · obtain ⟨⟨wire, data⟩, hs, r, hr, hsender, hid, rfl⟩ := h.fits a ha r' hr'
    have htaken : data ∈ c.taken := by
      rw [h.hand]
      exact mem_append_left _ (mem_map_of_mem hs)
    exact ⟨data, htaken, wire, hs, r, hr, hsender, hid, rfl, version_syncPayloadLen _ _,
      id_syncPayloadLen _ _, payloadLen_syncPayloadLen _ _⟩

/-- A request of the client with the id 5. -/
def fromClient (rspSender : Nat) (b : UInt8) : KeylessForwardRequest :=
  ⟨⟨⟨[1, 0, 0, 1, 0, 0, 0, 5], rfl⟩, [b]⟩, rspSender⟩

/-- Two requests with one client id, and their responses in the other order, one of them twice. -/
def outOfOrder : List Event :=
  [.take (fromClient 0 10), .addRequest, .wrote, .take (fromClient 1 11), .addRequest, .wrote,
    .arrive [1, 0, 0, 2, 0, 0, 0, 1, 21, 21], .respond, .tick,
    .arrive [1, 0, 0, 1, 0, 0, 0, 0, 20, 1, 0, 0, 1, 0, 0, 0, 0, 20], .respond, .respond]

theorem keyless_answers_own_request_outOfOrder :
    ∃ c, run step { maxRequestCount := 4000 } outOfOrder = some c ∧
      c.replies = [⟨1, .upstream ⟨⟨[1, 0, 0, 2, 0, 0, 0, 5], rfl⟩, [21, 21]⟩⟩,
        ⟨0, .upstream ⟨⟨[1, 0, 0, 1, 0, 0, 0, 5], rfl⟩, [20]⟩⟩] ∧
      c.sent.length < 2 ^ 32 ∧ (c.sent.map (·.1.header.id)).Nodup := by
  refine exists_run (p := fun c => c.replies = [⟨1, .upstream ⟨⟨[1, 0, 0, 2, 0, 0, 0, 5], rfl⟩,
    [21, 21]⟩⟩, ⟨0, .upstream ⟨⟨[1, 0, 0, 1, 0, 0, 0, 5], rfl⟩, [20]⟩⟩] ∧ c.sent.length < 2 ^ 32)
    (by decide +kernel) fun c hrun hc => ?_
  exact ⟨hc.1, hc.2, (keyless_answers_own_request _ _ c hrun hc.2).1⟩

/-! ### A dead connection -/

/-- Once the receive task has ended, nothing is registered but what the send task is writing. -/
def NothingWaits (c : Connection) : Prop :=
  c.recvTask = .ended → ∀ id v, c.state.Holds id v →
    (∃ data, c.sendTask = .writing data) ∧ id = c.messageId

/-- The steps but for a registration behind the `drain` of the receive task. -/
def stepBeforeDrain (c : Connection) (e : Event) : Option Connection :=
  if e = .addRequest ∧ c.recvTask = .ended then none else c.step e

/-- The receive task has ended and nothing is registered. -/
def Drained (c : Connection) : Prop := c.recvTask = .ended → ∀ id v, ¬c.state.Holds id v

theorem Drained.step (h : c.Drained) {e : Event} (hc : c.stepBeforeDrain e = some c') :
    c'.Drained := by
  rw [stepBeforeDrain] at hc
  split at hc
  · cases hc
  next hcond =>
    intro hr id v hv
    obtain ⟨heff, -, hend⟩ := effect_of_step hc
    cases heff with
    | add => exact hcond ⟨rfl, (hend hr).resolve_right nofun⟩
    | tick hs =>
      rw [hs] at hv
      exact h ((hend hr).resolve_right nofun) id v (c.state.rotateTimeout_splits.2 id v hv)
    | drain hs =>
      rw [hs] at hv
      rcases hv with hv | hv <;> cases hv
    | other _ hdrain hs =>
      exact h ((hend hr).resolve_right hdrain) id v (hv.imp (hs id v).1 (hs id v).2)

/-- A request that is registered behind the `drain` waits there once it is written. -/
theorem waits_after_drain (hrecv : c.recvTask = .ended) (hsend : c.sendTask = .taken data) :
    ∃ c', run step c [.addRequest, .wrote] = some c' ∧ ¬c'.NothingWaits := by
  have hadd : c.step .addRequest = some { c with
      state := c.state.addRequest c.messageId data.req.header data.rspSender
      sendTask := .writing data
      sent := c.sent ++ [(data.req.refresh c.messageId, data)] } := by
    rw [step, hsend]
  refine ⟨_, by rw [run, hadd]; rfl, fun hquiet => ?_⟩
  have hheld : (c.state.addRequest c.messageId data.req.header data.rspSender).Holds c.messageId
      ⟨data.req.header, data.rspSender⟩ := by
    left
    rw [StreamState.addRequest, lookup_insert, if_pos rfl]
  obtain ⟨⟨data', hwriting⟩, -⟩ := hquiet hrecv _ _ hheld
  dsimp only at hwriting
  split at hwriting <;> cases hwriting

/-- A dead connection holds nothing, in every run in which the send task registers no request once the
    receive task has ended; a request that is registered then, and written, is left to wait. -/
theorem keyless_dead_connection (maxRequestCount : Nat) :
    (∀ es c, run stepBeforeDrain { maxRequestCount := maxRequestCount } es = some c →
      c.NothingWaits) ∧
    ∀ es c data, run step { maxRequestCount := maxRequestCount } es = some c →
      c.recvTask = .ended → c.sendTask = .taken data →
      ∃ c', run step c [.addRequest, .wrote] = some c' ∧ ¬c'.NothingWaits := by
  refine ⟨fun es c hrun hr id v hv => ?_, fun es c data _ hrecv hsend =>
    waits_after_drain hrecv hsend⟩
  have hstart : Drained { maxRequestCount := maxRequestCount } := nofun
  exact absurd hv (run_inv (fun hc hs => hc.step hs) hstart hrun hr id v)

/-- The upstream breaks the connection while the second request is being written. -/
def brokenConnection : List Event :=
  [.take (fromClient 0 10), .addRequest, .wrote, .take (fromClient 1 11), .addRequest, .readFailed,
    .drain, .wrote, .stop]

theorem keyless_dead_connection_broken :
    ∃ c, run stepBeforeDrain { maxRequestCount := 4000 } brokenConnection = some c ∧
      c.recvTask = .ended ∧ c.replies.length = 2 ∧ c.NothingWaits := by
  refine exists_run (p := fun c => c.recvTask = .ended ∧ c.replies.length = 2) (by decide +kernel)
    fun c hrun hc => ?_
  exact ⟨hc.1, hc.2, (keyless_dead_connection 4000).1 _ c hrun⟩

/-- The connection breaks; a request that comes in behind the `drain` is written and waits. -/
theorem keyless_swallows_request :
    ∃ c, run step { maxRequestCount := 4000 }
        [.readFailed, .drain, .take (fromClient 0 10), .addRequest, .wrote] = some c ∧
      c.recvTask = .ended ∧ c.sendTask = .idle ∧ c.replies = [] ∧
      c.state.curCache.lookup 0 = some ⟨(fromClient 0 10).req.header, 0⟩ :=
  ⟨_, rfl, rfl, rfl, rfl, rfl⟩

/-! ### How long a requester waits -/

/-- The requester is registered for at most `k` more ticks. -/
def Waits (n k : Nat) (c : Connection) : Prop :=
  ∀ id v, v.rspSender = n → (c.state.curCache.lookup id = some v → 2 ≤ k) ∧
    (c.state.oldCache.lookup id = some v → 1 ≤ k)

variable {n k : Nat}

/-- One event, for a requester whose request is sent: only a tick brings its end nearer. -/
theorem Waits.step {e : Event} (h : c.Waits n k) (hok : c.Ok)
    (hn : n ∈ c.sent.map (·.2.rspSender)) (heff : c.Effect c' e) :
    c'.Waits n (if e = .drain then 0 else if e = .tick then k - 1 else k) := by
  intro id v hv
  cases heff with
  | add hsend hs =>
    rw [hs]
    refine ⟨fun hl => ?_, (h id v hv).2⟩
    rw [StreamState.addRequest, lookup_insert] at hl
    split at hl
    · -- the request in hand is another requester's
      cases hl
      have hfresh := hok.fresh
      rw [hok.hand, inHand, hsend, map_append, map_map] at hfresh
      exact absurd (hv ▸ hn) (disjoint_right.mp (disjoint_of_nodup_append hfresh) (by simp))
    · exact (h id v hv).1 hl
  | tick hs =>
    rw [hs]
    refine ⟨nofun, fun hl => ?_⟩
    have htwo := (h id v hv).1 hl
    simp only [reduceCtorEq, if_false, if_true]
    omega
  | drain hs =>
    rw [hs]
    exact ⟨nofun, nofun⟩
  | other htick hdrain hs =>
    rw [if_neg hdrain, if_neg htick]
    exact ⟨fun hl => (h id v hv).1 ((hs id v).1 hl), fun hl => (h id v hv).2 ((hs id v).2 hl)⟩

/-- A run with enough ticks, or with a `drain`. -/
theorem Waits.after {es : List Event} : ∀ {c : Connection} {k : Nat}, c.Inv →
    n ∈ c.sent.map (·.2.rspSender) → (c.sent.length < 2 ^ 32 → c.Waits n k) →
    k ≤ es.count .tick ∨ .drain ∈ es → Schemes.run Connection.step c es = some c' →
    c'.Inv ∧ n ∈ c'.sent.map (·.2.rspSender) ∧ (c'.sent.length < 2 ^ 32 → c'.Waits n 0) := by
  induction es with
  | nil =>
    intro c k hinv hn hw hk hrun
    cases hrun
    obtain rfl : k = 0 := by simpa using hk
    exact ⟨hinv, hn, hw⟩
  | cons e es ih =>
    intro c k hinv hn hw hk hrun
    obtain ⟨d, hd, hrun⟩ := run_cons hrun
    obtain ⟨heff, hpre, -⟩ := effect_of_step hd
    refine ih (hinv.step hd) ((hpre.map _).subset hn) (fun hlen => ?_) ?_ hrun
      (k := if e = .drain then 0 else if e = .tick then k - 1 else k)
    · have hle := hpre.length_le
      exact (hw (by omega)).step (hinv (by omega)) hn heff
    · rcases hk with hk | hk
      · left
        rw [count_cons] at hk
        split
        · omega
        · split <;> simp_all
      · rcases mem_cons.mp hk with rfl | hk
        · simp
        · exact .inr hk

end Connection

end Vey.Keyless

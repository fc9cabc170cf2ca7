import Vey.Resolver.Runtime

/-! No requester is lost.

        a request is in the channel, or under an entry of `doing`, or answered: always in one place
        an entry of `doing` is there exactly while its query is with the driver or on the way back

    Each handler is described once, for the tables of its family; the world adds up the two families
    and the channels. -/

namespace Vey.Resolver
open Schemes Vey.Types List Table Tables
open Multiset (coe_add coe_count count_add mem_add mem_coe ofList)

/-- The requests that these replies answer. -/
def tickets (f : Family) (replies : List Reply) : Multiset ResolveDriverRequest :=
  ↑(replies.map fun r => ResolveDriverRequest.mk f r.record.domain r.sender)

/-- The requests under one entry of `doing`. -/
def queued (f : Family) (d : DomainName) (vec : List Sender) : Multiset ResolveDriverRequest :=
  ↑(vec.map (ResolveDriverRequest.mk f d))

variable {r : ResolveDriverRequest}

namespace Tables

/-- The requests that wait for an answer of the driver. -/
def waiting (f : Family) (t : Tables) : Multiset ResolveDriverRequest :=
  Table.tally (queued f) t.doing

/-- The tables of a family fit together, and hold records that the driver gave. -/
structure Ok (given : ResolvedRecord → Prop) (t : Tables) : Prop where
  linked : Linked CachedRecord.expireKey t.cache t.expired
  apart : ∀ d, t.cache.lookup d = none ∨ t.trash.lookup d = none
  asked : ∀ d, t.doing.lookup d ≠ none → t.cache.lookup d = none
  cached : ∀ d c, t.cache.lookup d = some c → c.inner.domain = d ∧ given c.inner
  trashed : ∀ d c, t.trash.lookup d = some c → c.inner.domain = d ∧ given c.inner

variable {given : ResolvedRecord → Prop} {t : Tables} {f : Family} {d : DomainName}
  {record : ResolvedRecord} {timer : Timer}

theorem Ok.mono {given' : ResolvedRecord → Prop} (h : t.Ok given)
    (hle : ∀ r, given r → given' r) : t.Ok given' where
  linked := h.linked
  apart := h.apart
  asked := h.asked
  cached d c hc := ⟨(h.cached d c hc).1, hle _ (h.cached d c hc).2⟩
  trashed d c hc := ⟨(h.trashed d c hc).1, hle _ (h.trashed d c hc).2⟩

theorem ok_empty : Ok given {} :=
  ⟨linked_empty, fun _ => .inl rfl, fun _ _ => rfl, nofun, nofun⟩

/-! ### The answer to a query -/

/-- What a handler of a response owes: the entry of the domain is gone, and its requesters have an
    answer each. -/
structure Answers (given : ResolvedRecord → Prop) (f : Family) (t : Tables) (domain : DomainName)
    (o : Turn) : Prop where
  ok : o.tables.Ok given
  doing : ∀ d, o.tables.doing.lookup d = if d = domain then none else t.doing.lookup d
  tickets : o.tables.waiting f + tickets f o.replies = t.waiting f
  records : ∀ r ∈ o.replies, given r.record
  query : o.query = false
  panic : ∀ p, o.panic = some p → p = .timer .tooFar

theorem tickets_answerAll (vec : List Sender) :
    Resolver.tickets f (answerAll record vec) = queued f record.domain vec := by
  rcases eq_nil_or_concat vec with rfl | ⟨init, last, rfl⟩
  · rfl
  · have hlast : answerAll record (init.concat last) =
        ⟨last, record, .query⟩ :: init.map (⟨·, record, .cache⟩) := by
      rw [answerAll, concat_eq_append, getLast?_concat, dropLast_concat]
    rw [hlast, Resolver.tickets, queued, concat_eq_append, map_append, map_cons,
      map_map]
    exact Multiset.coe_eq_coe.mpr (perm_append_singleton _ _).symm

theorem mem_answerAll {vec : List Sender} {r : Reply} (h : r ∈ answerAll record vec) :
    r.record = record := by
  rw [answerAll] at h
  split at h
  · cases h
  · rcases mem_cons.mp h with rfl | h
    · rfl
    · obtain ⟨s, -, rfl⟩ := mem_map.mp h
      rfl

/-- The entry of a domain, and the rest. -/
theorem waiting_erase (f : Family) (t : Tables) (d : DomainName) :
    t.waiting f = queued f d ((t.doing.lookup d).getD []) + tally (queued f) (t.doing.erase d) := by
  cases hd : t.doing.lookup d with
  | none =>
    rw [erase_of_lookup hd, Option.getD_none]
    exact (zero_add _).symm
  | some vec => exact tally_of_lookup hd

section

variable (h : t.Ok given)

include h

/-- The entries of `doing` are for domains that are not cached. -/
theorem Ok.eraseDoing (d : DomainName) : Ok given { t with doing := t.doing.erase d } := by
  refine ⟨h.linked, h.apart, fun d' hd => h.asked d' ?_, h.cached, h.trashed⟩
  rw [lookup_erase] at hd
  split at hd
  · exact absurd rfl hd
  · exact hd

theorem Ok.insertDoing (hcache : t.cache.lookup d = none) (vec : List Sender) :
    Ok given { t with doing := t.doing.insert d vec } := by
  refine ⟨h.linked, h.apart, fun d' hd => ?_, h.cached, h.trashed⟩
  rw [lookup_insert] at hd
  split at hd
  next heq => exact heq ▸ hcache
  next => exact h.asked d' hd

theorem Ok.eraseTrash (d : DomainName) : Ok given { t with trash := t.trash.erase d } := by
  refine ⟨h.linked, fun d' => ?_, h.asked, h.cached, fun d' c hc => ?_⟩
  · rw [lookup_erase]
    split
    · exact .inr rfl
    · exact h.apart d'
  · rw [lookup_erase] at hc
    split at hc
    · cases hc
    · exact h.trashed d' c hc

/-- A record of a domain that is not in the trash is put into the cache when its entry is gone. -/
theorem Ok.updateCache (hrec : given record) (htrash : t.trash.lookup record.domain = none)
    (hdone : t.doing.lookup record.domain = none) (hfree : t.expired.get timer.slot = none)
    (expireAt : Instant) :
    (∃ cache expired, updateCache t.cache t.expired record expireAt timer = .ok (cache, expired) ∧
      Ok given { t with cache := cache, expired := expired }) ∨
    updateCache t.cache t.expired record expireAt timer = .error .tooFar := by
  have hmk : ∀ i, CachedRecord.expireKey ⟨record, expireAt, some i⟩ = some i := fun _ => rfl
  rcases h.linked.put hfree hmk with ⟨i, q, hput, hlinked⟩ | hput
  · refine .inl ⟨_, _, hput, hlinked, fun d => ?_, fun d hd => ?_, fun d c hc => ?_, h.trashed⟩
    · rw [lookup_insert]
      split
      next heq => exact .inr (heq ▸ htrash)
      next => exact h.apart d
    · rw [lookup_insert, if_neg, h.asked d hd]
      rintro rfl
      exact hd hdone
    · rw [lookup_insert] at hc
      split at hc
      next heq =>
        cases hc
        exact ⟨heq.symm, hrec⟩
      next => exact h.cached d c hc
  · exact .inr hput

theorem settle_answers (hrec : given record) (htrash : t.trash.lookup record.domain = none)
    (hfree : t.expired.get timer.slot = none) :
    Answers given f t record.domain (t.settle record timer) := by
  have hok := h.eraseDoing record.domain
  have htickets : tally (queued f) (t.doing.erase record.domain) + tickets f
      (answerAll record ((t.doing.lookup record.domain).getD [])) = t.waiting f := by
    rw [tickets_answerAll, waiting_erase f t record.domain, add_comm]
  have hrecords : ∀ r ∈ answerAll record ((t.doing.lookup record.domain).getD []),
      given r.record := fun r hr => mem_answerAll hr ▸ hrec
  rw [settle]
  split
  next => exact ⟨hok, fun d => lookup_erase, htickets, hrecords, rfl, nofun⟩
  next expireAt _ =>
    rcases hok.updateCache hrec htrash (by rw [lookup_erase, if_pos rfl]) hfree expireAt with
      ⟨cache, expired, hup, hok'⟩ | hup
    · simp only [hup]
      exact ⟨hok', fun d => lookup_erase, htickets, hrecords, rfl, nofun⟩
    · simp only [hup]
      exact ⟨hok, fun d => lookup_erase, htickets, hrecords, rfl,
        fun p hp => (Option.some.inj hp).symm⟩

theorem handleRsp_answers (hrec : given record) (hfree : t.expired.get timer.slot = none) :
    Answers given f t record.domain (t.handleRsp record timer) := by
  rw [handleRsp]
  split
  next =>
    have ho := settle_answers (f := f) (h.eraseTrash record.domain) hrec
      (by rw [lookup_erase, if_pos rfl]) hfree
    exact ⟨ho.ok, ho.doing, ho.tickets, ho.records, ho.query, ho.panic⟩
  next =>
    split
    next v hv =>
      obtain ⟨hdomain, hgiven⟩ := h.trashed _ v hv
      refine ⟨h.eraseDoing _, fun d => lookup_erase, ?_, fun r hr => ?_, rfl, nofun⟩
      · rw [waiting_erase f t record.domain, add_comm]
        refine congrArg (fun m : Multiset _ => m + _) ?_
        rw [Resolver.tickets, queued, map_map, ← hdomain]
        rfl
      · obtain ⟨s, -, rfl⟩ := mem_map.mp hr
        exact hgiven
    next htrash => exact settle_answers h hrec htrash hfree

end

/-! ### A request -/

/-- What the handler of a request owes: the requester has an answer or waits, and the driver is asked
    exactly when there is a new entry. -/
structure Serves (given : ResolvedRecord → Prop) (f : Family) (t : Tables) (domain : DomainName)
    (sender : Sender) (o : Turn) : Prop where
  ok : o.tables.Ok given
  doing : ∀ d, (o.tables.doing.lookup d).isSome =
    ((t.doing.lookup d).isSome || (d = domain && o.query))
  fresh : o.query = true → t.doing.lookup domain = none
  tickets : o.tables.waiting f + tickets f o.replies = t.waiting f + {⟨f, domain, sender⟩}
  records : ∀ r ∈ o.replies, given r.record
  panic : o.panic = none

theorem tickets_one {sender : Sender} {source : ResolvedRecordSource} {r : ResolvedRecord}
    (hd : r.domain = d) : Resolver.tickets f [⟨sender, r, source⟩] = {⟨f, d, sender⟩} := by
  subst hd
  rfl

theorem handleReq_serves (h : t.Ok given) (d : DomainName) (sender : Sender) :
    Serves given f t d sender (t.handleReq true d sender) := by
  have hinsert : ∀ vec d', ((t.doing.insert d vec).lookup d').isSome =
      ((t.doing.lookup d').isSome || decide (d' = d)) := by
    intro vec d'
    rw [lookup_insert]
    split <;> simp_all
  rw [handleReq]
  split
  next r hr =>
    obtain ⟨hdomain, hgiven⟩ := h.cached d r hr
    refine ⟨h, fun d' => by simp, nofun, congrArg _ (tickets_one hdomain), ?_, rfl⟩
    rintro r' hr'
    obtain rfl := mem_singleton.mp hr'
    exact hgiven
  next hcache =>
    split
    next r hr =>
      obtain ⟨hdomain, hgiven⟩ := h.trashed d r hr
      have hrecords : ∀ r' ∈ [Reply.mk sender r.inner .trash], given r'.record := by
        intro r' hr'
        obtain rfl := mem_singleton.mp hr'
        exact hgiven
      split
      next => exact ⟨h, fun d' => by simp, nofun, congrArg _ (tickets_one hdomain), hrecords, rfl⟩
      next hd =>
        refine ⟨h.insertDoing hcache _, fun d' => ?_, fun _ => hd, ?_, hrecords, rfl⟩
        · rw [hinsert, Bool.and_true]
        · rw [tickets_one hdomain, waiting, tally_insert, erase_of_lookup hd]
          exact congrArg (· + _) (zero_add _)
    next htrash =>
      split
      next vec hd =>
        refine ⟨h.insertDoing hcache _, fun d' => ?_, nofun, ?_, nofun, rfl⟩
        · rw [hinsert, Bool.and_false, Bool.or_false]
          by_cases heq : d' = d
          · rw [heq, hd]
            simp
          · simp [heq]
        · rw [waiting, tally_insert, waiting_erase f t d, hd, Option.getD_some]
          have hvec : queued f d (vec ++ [sender]) = queued f d vec + {⟨f, d, sender⟩} := by
            rw [queued, map_append]
            rfl
          rw [hvec, add_right_comm (queued f d vec)]
          exact add_zero (M := Multiset _) _
      next hd =>
        refine ⟨h.insertDoing hcache _, fun d' => ?_, fun _ => hd, ?_, nofun, rfl⟩
        · rw [hinsert, Bool.and_true]
        · rw [waiting, tally_insert, erase_of_lookup hd, add_comm (queued f d [sender])]
          exact add_zero _

/-! ### Expired records -/

theorem handleExpired_ok (h : t.Ok given) {key : Nat} {now : Instant}
    {expired : DelayQueue DomainName} (hpoll : t.expired.pollExpired key now = some (d, expired)) :
    Ok given (handleExpired { t with expired := expired } d) ∧
      (handleExpired { t with expired := expired } d).doing = t.doing := by
  obtain ⟨due, hget, rfl⟩ := DelayQueue.pollExpired_eq_some hpoll
  obtain ⟨c, hc, -⟩ := h.linked.2 key d due hget
  obtain ⟨hdomain, hgiven⟩ := h.cached d c hc
  have hlinked := h.linked.erase hget
  have hcached : ∀ d' c', (t.cache.erase d).lookup d' = some c' →
      c'.inner.domain = d' ∧ given c'.inner := by
    intro d' c' hc'
    rw [lookup_erase] at hc'
    split at hc'
    · cases hc'
    · exact h.cached d' c' hc'
  have hasked : ∀ d', t.doing.lookup d' ≠ none → (t.cache.erase d).lookup d' = none := by
    intro d' hd'
    rw [lookup_erase, h.asked d' hd', ite_self]
  rw [handleExpired]
  simp only [hc]
  split
  next =>
    refine ⟨⟨hlinked, fun d' => ?_, hasked, hcached, h.trashed⟩, rfl⟩
    rw [lookup_erase]
    rcases h.apart d' with hd' | hd'
    · rw [hd', ite_self]
      exact .inl rfl
    · exact .inr hd'
  next vanishAt _ =>
    refine ⟨⟨hlinked, fun d' => ?_, hasked, hcached, fun d' c' hc' => ?_⟩, rfl⟩
    · rw [lookup_erase, lookup_insert, hdomain]
      split
      · exact .inl rfl
      · exact h.apart d'
    · rw [lookup_insert] at hc'
      split at hc'
      next heq =>
        cases hc'
        exact ⟨heq.symm, hgiven⟩
      next => exact h.trashed d' c' hc'

theorem cleanTrash_ok (h : t.Ok given) (now : Instant) : (t.cleanTrash now).Ok given := by
  refine ⟨h.linked, fun d => ?_, h.asked, h.cached, fun d c hc => ?_⟩
  · rw [cleanTrash, lookup_retain]
    rcases h.apart d with hd | hd
    · exact .inl hd
    · rw [hd]
      exact .inr rfl
  · rw [cleanTrash, lookup_retain, Option.filter_eq_some_iff] at hc
    exact h.trashed d c hc.1

/-- A request waits under the entry of its domain. -/
theorem count_waiting (t : Tables) (f : Family) (d : DomainName) (s : Sender) :
    (t.waiting f).count ⟨f, d, s⟩ = ((t.doing.lookup d).getD []).count s := by
  have hother : (⟨f, d, s⟩ : ResolveDriverRequest) ∉ tally (queued f) (t.doing.erase d) := by
    intro hmem
    obtain ⟨d', vec, hlook, hq⟩ := mem_tally.mp hmem
    obtain ⟨s', -, heq⟩ := mem_map.mp (mem_coe.mp hq)
    cases heq
    rw [lookup_erase, if_pos rfl] at hlook
    cases hlook
  rw [waiting_erase f t d, count_add, Multiset.count_eq_zero_of_notMem hother, queued,
    coe_count, Nat.add_zero]
  exact count_map_of_injective _ _ (fun s s' hs => by cases hs; rfl) s

theorem family_of_mem_waiting (h : r ∈ t.waiting f) : r.family = f := by
  obtain ⟨d, vec, -, hq⟩ := mem_tally.mp h
  obtain ⟨s, -, rfl⟩ := mem_map.mp (mem_coe.mp hq)
  rfl

end Tables

/-! ### The world -/

/-- The request that an answer is for. -/
def Answer.ticket (a : Answer) : ResolveDriverRequest := ⟨a.family, a.record.domain, a.sender⟩

namespace World

variable (w : World) {w' : World}

/-- The queries for a domain that are with the driver or on the way back. -/
def outstanding (f : Family) (d : DomainName) : Nat :=
  w.queries.count (f, d) + (w.responses.map (·.query)).count (f, d)

/-- The requesters that wait for an answer of the driver. -/
def waiting : Multiset ResolveDriverRequest :=
  (w.tables .v4).waiting .v4 + (w.tables .v6).waiting .v6

/-- The requests at the places where they can be: in the channel, waiting, answered. -/
def accounted : Multiset ResolveDriverRequest :=
  Multiset.ofList w.requests + w.waiting + Multiset.ofList (w.answers.map Answer.ticket)

structure Inv : Prop where
  ok : ∀ f, (w.tables f).Ok fun r => ⟨f, r⟩ ∈ w.given
  single : ∀ f d, w.outstanding f d = ((w.tables f).doing.lookup d).isSome.toNat
  given : ∀ r ∈ w.responses, r ∈ w.given
  tickets : w.accounted = Multiset.ofList w.issued
  fresh : (w.issued.map (·.sender)).Nodup
  records : ∀ a ∈ w.answers, ⟨a.family, a.record⟩ ∈ w.given
  driver : (∃ n, w.pc = .req n) ∨ w.pc = .ctl ∨ w.pc = .rsp ∨ (∃ f, w.pc = .expired f) →
    w.driver = true
  sane : ∀ p, w.pc = .panicked p → p = .timer .tooFar

variable {w}

theorem inv_start (config : ResolverConfig) : Inv { config := config } := by
  refine ⟨fun _ => ok_empty, fun _ _ => rfl, nofun, rfl, nodup_nil, nofun, ?_, nofun⟩
  rintro (⟨n, h⟩ | h | h | ⟨f, h⟩) <;> cases h

variable {f : Family}

/-- The tables of one family change. -/
theorem waiting_update {t : Tables} {x y : Multiset ResolveDriverRequest}
    {tables : Family → Tables} (h : t.waiting f + x = (tables f).waiting f + y) :
    (Function.update tables f t .v4).waiting .v4 + (Function.update tables f t .v6).waiting .v6 + x =
      (tables .v4).waiting .v4 + (tables .v6).waiting .v6 + y := by
  cases f with
  | v4 =>
    rw [Function.update_self, Function.update_of_ne (by decide), add_right_comm, h, add_right_comm]
  | v6 =>
    rw [Function.update_self, Function.update_of_ne (by decide), add_assoc, h, ← add_assoc]

/-- A handler moves requests from one place to another. -/
theorem accounted_after {d : DomainName} {o : Turn} {pc : PollAt}
    {x : Multiset ResolveDriverRequest}
    (h : o.tables.waiting f + tickets f o.replies = (w.tables f).waiting f + x) :
    (w.after f d o pc).accounted = w.accounted + x := by
  have hreplies : ofList ((o.replies.map (Answer.mk · f)).map Answer.ticket) =
      tickets f o.replies := by
    rw [map_map]
    rfl
  have hw : (w.after f d o pc).waiting + tickets f o.replies = w.waiting + x :=
    waiting_update h
  calc (w.after f d o pc).accounted
      = ofList w.requests + ((w.after f d o pc).waiting + tickets f o.replies) +
          ofList (w.answers.map Answer.ticket) := by
        rw [accounted, ← hreplies]
        dsimp only [after]
        rw [map_append, ← coe_add]
        abel
    _ = w.accounted + x := by
        rw [hw, accounted]
        abel

/-- A handler that keeps the tables of its family in order keeps those of both. -/
theorem ok_update (h : w.Inv) {t : Tables} (ht : t.Ok fun r => ⟨f, r⟩ ∈ w.given)
    (f' : Family) : (Function.update w.tables f t f').Ok fun r => ⟨f', r⟩ ∈ w.given := by
  by_cases hf : f' = f
  · subst hf
    rw [Function.update_self]
    exact ht
  · rw [Function.update_of_ne hf]
    exact h.ok f'

theorem records_append (h : w.Inv) {replies : List Reply}
    (hr : ∀ r ∈ replies, ⟨f, r.record⟩ ∈ w.given) :
    ∀ a ∈ w.answers ++ replies.map (Answer.mk · f), ⟨a.family, a.record⟩ ∈ w.given := by
  intro a ha
  rcases mem_append.mp ha with ha | ha
  · exact h.records a ha
  · obtain ⟨r, hmem, rfl⟩ := mem_map.mp ha
    exact hr r hmem

theorem atReq_cases (n : Nat) : atReq n = .ctl ∨ atReq n = .req n := by
  rw [atReq]
  split
  · exact .inl rfl
  · exact .inr rfl

section
variable (h : w.Inv)
include h

theorem inv_handleRsp {r : ResolveDriverResponse} {rs : List ResolveDriverResponse}
    {timer : Timer} (hpc : w.pc = .rsp) (hrs : w.responses = r :: rs)
    (hfree : (w.tables r.family).expired.get timer.slot = none) :
    Inv (after { w with responses := rs } r.family r.record.domain
      ((w.tables r.family).handleRsp r.record timer) .rsp) ∧
    Answers (fun x => ⟨r.family, x⟩ ∈ w.given) r.family (w.tables r.family) r.record.domain
      ((w.tables r.family).handleRsp r.record timer) := by
  have hmem : r ∈ w.responses := hrs ▸ mem_cons_self
  have hout : ∀ f d, w.outstanding f d = w.queries.count (f, d) +
      ((rs.map (·.query)).count (f, d) + if r.query = (f, d) then 1 else 0) := by
    intro f d
    rw [outstanding, hrs, map_cons, count_cons]
    simp only [beq_iff_eq]
  have hself : r.query = (r.family, r.record.domain) := rfl
  have hone := h.single r.family r.record.domain
  rw [hout, if_pos hself] at hone
  have hdoing : ((w.tables r.family).doing.lookup r.record.domain).isSome := by
    by_contra hnone
    rw [Bool.eq_false_of_not_eq_true hnone, Bool.toNat_false] at hone
    omega
  have ho := handleRsp_answers (f := r.family) (h.ok r.family) (h.given r hmem) hfree
  refine ⟨?_, ho⟩
  generalize (w.tables r.family).handleRsp r.record timer = o at ho
  refine ⟨ok_update h ho.ok, fun f d => ?_, fun r' hr' => ?_, ?_, h.fresh,
    records_append h ho.records, fun _ => h.driver (.inr (.inr (.inl hpc))), ?_⟩
  · have hs := h.single f d
    rw [hout] at hs
    have hnew : (after { w with responses := rs } r.family r.record.domain o .rsp).outstanding f d =
        w.queries.count (f, d) + (rs.map (·.query)).count (f, d) := by
      rw [after, ho.query]
      rfl
    rw [hnew]
    dsimp only [after]
    by_cases hf : f = r.family
    · subst hf
      rw [Function.update_self, ho.doing]
      by_cases hd : d = r.record.domain
      · subst hd
        rw [if_pos rfl, Option.isSome_none, Bool.toNat_false]
        rw [hdoing, Bool.toNat_true] at hone
        omega
      · have hq : r.query ≠ (r.family, d) := fun he => hd (congrArg Prod.snd he).symm
        rw [if_neg hq, Nat.add_zero] at hs
        rw [if_neg hd]
        exact hs
    · have hq : r.query ≠ (f, d) := fun he => hf (congrArg Prod.fst he).symm
      rw [if_neg hq, Nat.add_zero] at hs
      rw [Function.update_of_ne hf]
      exact hs
  · exact h.given r' (hrs ▸ mem_cons_of_mem r hr')
  · refine (accounted_after (w := { w with responses := rs }) (x := 0)
      (ho.tickets.trans (add_zero _).symm)).trans ?_
    rw [add_zero]
    exact h.tickets
  · intro p hp
    dsimp only [after] at hp
    split at hp
    next p' hp' =>
      cases hp
      exact ho.panic p hp'
    next => cases hp

theorem inv_handleReq {rs : List ResolveDriverRequest}
    {n : Nat} (hpc : w.pc = .req n) (hrs : w.requests = r :: rs) :
    Inv (after { w with requests := rs } r.family r.domain
      ((w.tables r.family).handleReq w.driver r.domain r.sender) (atReq (n - 1))) := by
  have hdriver := h.driver (.inl ⟨n, hpc⟩)
  have ho := handleReq_serves (f := r.family) (h.ok r.family) r.domain r.sender
  rw [← hdriver] at ho
  generalize (w.tables r.family).handleReq w.driver r.domain r.sender = o at ho
  refine ⟨ok_update h ho.ok, fun f d => ?_, h.given, ?_, h.fresh, records_append h ho.records,
    fun _ => hdriver, ?_⟩
  · have hs := h.single f d
    have hnew : (after { w with requests := rs } r.family r.domain o (atReq (n - 1))).outstanding
        f d = w.outstanding f d + if o.query ∧ (r.family, r.domain) = (f, d) then 1 else 0 := by
      rw [outstanding, outstanding]
      dsimp only [after]
      cases o.query with
      | false => simp
      | true => simp [count_append, count_singleton, Nat.add_right_comm]
    rw [hnew]
    dsimp only [after]
    by_cases hf : f = r.family
    · subst hf
      rw [Function.update_self, ho.doing, hs]
      cases hq : o.query with
      | false => simp
      | true =>
        by_cases hd : d = r.domain
        · subst hd
          simp [ho.fresh hq]
        · have hne : ¬(r.family, r.domain) = (r.family, d) := fun he =>
            hd (congrArg Prod.snd he).symm
          simp [hne, hd]
    · have hne : ¬(r.family, r.domain) = (f, d) := fun he => hf (congrArg Prod.fst he).symm
      rw [Function.update_of_ne hf, hs, if_neg (fun hq => hne hq.2), Nat.add_zero]
  · refine (accounted_after (w := { w with requests := rs }) ho.tickets).trans ?_
    refine Eq.trans ?_ h.tickets
    rw [accounted, accounted, hrs, ← Multiset.cons_coe, ← Multiset.singleton_add]
    dsimp only [waiting]
    abel
  · intro p hp
    dsimp only [after] at hp
    rw [ho.panic] at hp
    rcases atReq_cases (n - 1) with hat | hat <;> rw [hat] at hp <;> cases hp

/-- A step of the loop that only goes on. -/
theorem Inv.goto {pc : PollAt} (hd : w.driver = true) (hp : ∀ p, pc ≠ .panicked p) :
    Inv { w with pc := pc } :=
  { h with driver := fun _ => hd, sane := fun p hpc => absurd hpc (hp p) }

/-- The task ends, or waits for its next poll. -/
theorem Inv.leave {pc : PollAt} (hpc : pc = .idle ∨ ∃ r, pc = .ended r) :
    Inv { w with pc := pc } := by
  refine { h with driver := fun hrun => ?_, sane := fun p hp => ?_ }
  · rcases hpc with rfl | ⟨r, rfl⟩ <;> rcases hrun with ⟨n, hc⟩ | hc | hc | ⟨f, hc⟩ <;> cases hc
  · rcases hpc with rfl | ⟨r, rfl⟩ <;> cases hp

theorem Inv.cleanTrash (now : Instant) : Inv (w.cleanTrash now) :=
  { h with ok := fun f => cleanTrash_ok (h.ok f) now }

theorem Inv.enter (now : Instant) : Inv (w.enter now) := by
  rw [World.enter]
  split
  next hd => exact (h.cleanTrash now).goto hd nofun
  next =>
    split
    next => exact { h.cleanTrash now with driver := fun _ => rfl, sane := nofun }
    next => exact h.leave (.inr ⟨_, rfl⟩)

theorem Inv.pending (hw : w.pending = some w') : w'.Inv := by
  rw [World.pending] at hw
  split at hw
  next hpc => cases hw; exact h.goto (h.driver (.inr (.inl hpc))) nofun
  next hpc => cases hw; exact h.goto (h.driver (.inr (.inr (.inl hpc)))) nofun
  next hpc => cases hw; exact h.goto (h.driver (.inr (.inr (.inr ⟨_, hpc⟩)))) nofun
  next hpc =>
    cases hw
    refine h.goto (h.driver (.inr (.inr (.inr ⟨_, hpc⟩)))) fun p hp => ?_
    rcases atReq_cases w.config.batchRequestCount with hat | hat <;> rw [hat] at hp <;> cases hp
  next hpc => cases hw; exact h.leave (.inl rfl)
  next => cases hw

theorem Inv.handleCmd (hpc : w.pc = .ctl) (c : ResolverCommand) :
    Inv (w.handleCmd c) := by
  cases c with
  | quit => exact h.leave (.inr ⟨_, rfl⟩)
  | update config =>
    rw [World.handleCmd]
    split
    next => exact { h with driver := fun _ => rfl, sane := nofun }
    next => exact h.goto (h.driver (.inr (.inl hpc))) nofun

/-- The driver answers one of its queries. -/
theorem Inv.answer {r : ResolveDriverResponse} (hr : r.query ∈ w.queries) :
    Inv { w with
      queries := w.queries.erase r.query
      responses := w.responses ++ [r]
      given := w.given ++ [r] } := by
  have hle : ∀ x, x ∈ w.given → x ∈ w.given ++ [r] := fun x => mem_append_left [r]
  refine ⟨fun f => (h.ok f).mono fun x => hle _, fun f d => ?_, fun x hx => ?_, h.tickets, h.fresh,
    fun a ha => hle _ (h.records a ha), h.driver, h.sane⟩
  · refine Eq.trans ?_ (h.single f d)
    rw [outstanding, outstanding]
    rw [map_append, count_append, count_erase]
    have hpos := count_pos_iff.mpr hr
    by_cases hq : r.query = (f, d)
    · rw [hq] at hpos
      simp only [hq, map_cons, map_nil, count_singleton_self, beq_self_eq_true,
        if_true]
      omega
    · simp [hq]
  · rcases mem_append.mp hx with hx | hx
    · exact hle x (h.given x hx)
    · exact mem_append_right _ hx

/-- Every step of the task and its surroundings. -/
theorem Inv.step {e : Event} (hw : w.step e = some w') : w'.Inv := by
  cases e with
  | request r =>
    rw [World.step] at hw
    split at hw
    · cases hw
    next hnew =>
      cases hw
      refine { h with tickets := ?_, fresh := ?_ }
      · rw [← coe_add, ← h.tickets, accounted, accounted]
        dsimp only [waiting]
        rw [← coe_add]
        abel
      · rw [map_append]
        refine h.fresh.append (nodup_singleton _) ?_
        rw [map_singleton, disjoint_singleton]
        exact hnew
  | command c =>
    cases hw
    exact { h with }
  | answer r =>
    rw [World.step] at hw
    split at hw
    next hr => cases hw; exact h.answer hr
    next => cases hw
  | poll now =>
    rw [World.step] at hw
    split at hw
    next => cases hw; exact h.enter now
    next => cases hw
  | pending => exact h.pending hw
  | closed =>
    rw [World.step] at hw
    split at hw
    case h_1 | h_2 => cases hw; exact h.leave (.inr ⟨_, rfl⟩)
    next => cases hw
  | handleCmd =>
    rw [World.step] at hw
    split at hw
    next c cs hpc hcs =>
      cases hw
      exact Inv.handleCmd (w := { w with commands := cs }) { h with } hpc c
    next => cases hw
  | handleRsp timer =>
    rw [World.step] at hw
    split at hw
    next r rs hpc hrs =>
      split at hw
      next => cases hw
      next hfree =>
        cases hw
        exact (inv_handleRsp h hpc hrs (Option.not_isSome_iff_eq_none.mp hfree)).1
    next => cases hw
  | handleExpired key now =>
    rw [World.step] at hw
    split at hw
    next f hpc =>
      split at hw
      next => cases hw
      next domain expired hpoll =>
        cases hw
        obtain ⟨hok, hdoing⟩ := handleExpired_ok (h.ok f) hpoll
        have hsame : ∀ f', (Function.update w.tables f (handleExpired
            { w.tables f with expired := expired } domain) f').doing = (w.tables f').doing := by
          intro f'
          by_cases hf : f' = f
          · subst hf
            rw [Function.update_self, hdoing]
          · rw [Function.update_of_ne hf]
        refine { h with ok := ok_update h hok, single := fun f' d => ?_, tickets := ?_ }
        · rw [hsame]
          exact h.single f' d
        · refine Eq.trans ?_ h.tickets
          rw [accounted, accounted, waiting, waiting, Tables.waiting, Tables.waiting, hsame, hsame]
          rfl
    next => cases hw
  | handleReq =>
    rw [World.step] at hw
    split at hw
    next n r rs hpc hrs =>
      cases hw
      exact inv_handleReq h hpc hrs
    next => cases hw

end

/-- The requesters under the entry of a domain. -/
def queue (w : World) (f : Family) (d : DomainName) : List Sender :=
  ((w.tables f).doing.lookup d).getD []

theorem count_accounted (w : World) (r : ResolveDriverRequest) :
    w.accounted.count r = w.requests.count r + (w.queue r.family r.domain).count r.sender +
      (w.answers.map Answer.ticket).count r := by
  have hcount : w.waiting.count r = (w.queue r.family r.domain).count r.sender := by
    have hother : ∀ f, r.family ≠ f → ((w.tables f).waiting f).count r = 0 := fun f hf =>
      Multiset.count_eq_zero_of_notMem fun hmem => hf (family_of_mem_waiting hmem)
    have hown := count_waiting (w.tables r.family) r.family r.domain r.sender
    rw [waiting, count_add, queue, ← hown]
    rcases hf : r.family with _ | _
    · rw [hother .v6 (by rw [hf]; decide), Nat.add_zero, ← hf]
    · rw [hother .v4 (by rw [hf]; decide), Nat.zero_add, ← hf]
  rw [accounted, count_add, count_add, hcount, coe_count,
    coe_count]

/-- A request is at one place. -/
theorem Inv.place (h : w.Inv) (hr : r ∈ w.issued) :
    w.requests.count r + (w.queue r.family r.domain).count r.sender +
      (w.answers.map Answer.ticket).count r = 1 := by
  rw [← count_accounted, h.tickets, coe_count]
  exact count_eq_one_of_mem h.fresh.of_map hr

theorem Inv.ticket_mem (h : w.Inv) {a : Answer} (ha : a ∈ w.answers) : a.ticket ∈ w.issued := by
  rw [← mem_coe, ← h.tickets, accounted, mem_add]
  exact .inr (mem_coe.mpr (mem_map_of_mem ha))

/-- The resolver neither strands nor mixes up a requester, wherever its run gets. -/
theorem resolver_strands_nobody (config : ResolverConfig) (es : List Event) (w : World)
    (hrun : run step { config := config } es = some w) :
    -- one query at most for each family and domain, and an entry exactly while there is one
    (∀ f d, w.outstanding f d = ((w.tables f).doing.lookup d).isSome.toNat) ∧
    -- a requester is in the channel, queued or answered, once
    (∀ r ∈ w.issued, w.requests.count r + (w.queue r.family r.domain).count r.sender +
      (w.answers.map Answer.ticket).count r = 1) ∧
    -- an answer has a record of the domain and the family that were asked for
    (∀ a ∈ w.answers, a.ticket ∈ w.issued ∧ ⟨a.family, a.record⟩ ∈ w.given) ∧
    -- a request that is handled is answered at once or queued
    (∀ w' r rs, w.requests = r :: rs → w.step .handleReq = some w' →
      r.sender ∈ w'.queue r.family r.domain ∨ r ∈ w'.answers.map Answer.ticket) ∧
    -- a response that is handled answers all that are queued for it
    (∀ w' r rs timer, w.responses = r :: rs → w.step (.handleRsp timer) = some w' →
      ((w'.tables r.family).doing.lookup r.record.domain) = none ∧
      ∀ s ∈ w.queue r.family r.record.domain,
        ⟨r.family, r.record.domain, s⟩ ∈ w'.answers.map Answer.ticket) ∧
    -- the cache and the trash are apart, and the cache has its expiry entries
    (∀ f d, (w.tables f).cache.lookup d = none ∨ (w.tables f).trash.lookup d = none) ∧
    (∀ f d, ((w.tables f).expired.entriesOf d).length =
      if ((w.tables f).cache.lookup d).isSome then 1 else 0) ∧
    -- a domain that is asked for is not cached, so no key is ever reset
    (∀ f d, (w.tables f).doing.lookup d ≠ none → (w.tables f).cache.lookup d = none) ∧
    ∀ p, w.pc = .panicked p → p = .timer .tooFar := by
  have h : w.Inv := run_inv (fun hw hstep => hw.step hstep) (inv_start config) hrun
  refine ⟨h.single, fun r => h.place, fun a ha => ⟨h.ticket_mem ha, h.records a ha⟩, ?_, ?_,
    fun f => (h.ok f).apart, fun f => (h.ok f).linked.length_entriesOf, fun f => (h.ok f).asked,
    h.sane⟩
  · intro w' r rs hrs hw
    have h' := h.step hw
    have hmem : r ∈ w.issued := by
      rw [← mem_coe, ← h.tickets, accounted, hrs, mem_add, mem_add]
      exact .inl (.inl (mem_coe.mpr mem_cons_self))
    have hsame : w'.requests = rs ∧ w'.issued = w.issued := by
      rw [step] at hw
      split at hw
      next n r' rs' hpc hrs' =>
        cases hw
        rw [hrs] at hrs'
        cases hrs'
        exact ⟨rfl, rfl⟩
      next => cases hw
    have hbefore := h.place hmem
    have hafter := h'.place (hsame.2 ▸ hmem)
    rw [hrs, count_cons_self] at hbefore
    rw [hsame.1] at hafter
    by_cases hq : r.sender ∈ w'.queue r.family r.domain
    · exact .inl hq
    · rw [count_eq_zero.mpr hq] at hafter
      exact .inr (count_pos_iff.mp (by omega))
  · intro w' r rs timer hrs hw
    have hmem : ∀ s ∈ w.queue r.family r.record.domain, ⟨r.family, r.record.domain, s⟩ ∈ w.issued := by
      intro s hs
      rw [← mem_coe, ← h.tickets, ← Multiset.count_pos, count_accounted]
      have hpos := count_pos_iff.mpr hs
      dsimp only
      omega
    have hdone : (w'.tables r.family).doing.lookup r.record.domain = none ∧
        w'.requests = w.requests ∧ w'.issued = w.issued := by
      rw [step] at hw
      split at hw
      next r' rs' hpc hrs' =>
        rw [hrs] at hrs'
        cases hrs'
        split at hw
        next => cases hw
        next hfree =>
          cases hw
          have ho := (inv_handleRsp h hpc hrs (Option.not_isSome_iff_eq_none.mp hfree)).2
          refine ⟨?_, rfl, rfl⟩
          dsimp only [after]
          rw [Function.update_self, ho.doing, if_pos rfl]
      next => cases hw
    refine ⟨hdone.1, fun s hs => ?_⟩
    have hbefore := h.place (hmem s hs)
    have hafter := (h.step hw).place (hdone.2.2 ▸ hmem s hs)
    have hpos := count_pos_iff.mpr hs
    rw [hdone.2.1, queue, hdone.1, Option.getD_none, count_nil] at hafter
    dsimp only at hbefore
    exact count_pos_iff.mp (by omega)

/-- Two requesters for one domain, its answer, and a third one when the record has expired. -/
def threeRequesters : List Event :=
  let d : DomainName := ⟨[97, 46]⟩
  [.request ⟨.v4, d, ⟨0⟩⟩, .request ⟨.v4, d, ⟨1⟩⟩, .poll 0, .pending, .pending, .pending, .pending,
    .handleReq, .handleReq, .answer ⟨.v4, .resolved 5 d 300 30 3600 [.v4 1]⟩, .pending,
    .poll 6, .pending, .handleRsp ⟨0, 10 ^ 15⟩, .pending, .handleExpired 0 (10 ^ 15),
    .pending, .pending, .request ⟨.v4, d, ⟨2⟩⟩, .handleReq]

theorem resolver_strands_nobody_threeRequesters :
    ∃ w, run step { config := ⟨.ok (), 10⟩ } threeRequesters = some w ∧
      w.answers.map (fun a => (a.sender.id, a.source)) = [(1, .query), (0, .cache), (2, .trash)] ∧
      w.outstanding .v4 ⟨[97, 46]⟩ = 1 ∧
      ∀ f d, w.outstanding f d = ((w.tables f).doing.lookup d).isSome.toNat := by
  refine exists_run (p := fun w => w.answers.map (fun a => (a.sender.id, a.source)) =
    [(1, .query), (0, .cache), (2, .trash)] ∧ w.outstanding .v4 ⟨[97, 46]⟩ = 1)
    (by decide +kernel) fun w hrun hw => ?_
  exact ⟨hw.1, hw.2, (resolver_strands_nobody _ _ _ hrun).1⟩

end World

end Vey.Resolver

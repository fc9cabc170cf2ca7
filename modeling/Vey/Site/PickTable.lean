import Vey.Site.Upstream

/-! The pick table follows the health of the peers.

        record        none   few failures   many failures   many, expired
        marked         -          -               x               x
        unavailable    -          -               x               -

    Between the calls the table leaves out the marked peers. A call that removes a mark has to build the
    table again; a sweep does. `accepts` does not, and no call builds the table of another object. -/

namespace Vey.Site
open Schemes Escape List PeerHealth

variable {α W : Type} [DecidableEq α] [Weight W]

/-- The peers without the `bad` ones, or all of them when none or only one would be there. -/
def keepGood (bad : α → Bool) (peers : List (WeightedValue α W)) : List (WeightedValue α W) :=
  if peers.length < 2 then peers
  else if (peers.filter fun peer => !bad peer.inner).isEmpty then peers
  else peers.filter fun peer => !bad peer.inner

variable {peers : List (WeightedValue α W)}

omit [DecidableEq α] [Weight W] in
theorem keepGood_congr {bad bad' : α → Bool}
    (h : ∀ peer ∈ peers, bad peer.inner = bad' peer.inner) :
    keepGood bad peers = keepGood bad' peers := by
  have hfilter : (peers.filter fun peer => !bad peer.inner) =
      peers.filter fun peer => !bad' peer.inner :=
    filter_congr fun peer hpeer => by rw [h peer hpeer]
  rw [keepGood, keepGood, hfilter]

namespace SiteUpstream

/-- The table leaves out the marked peers. -/
def Follows (u : SiteUpstream α W) (h : PeerHealth α) : Prop :=
  u.pick = selectiveVec (keepGood h.marked u.positivePeers)

/-- The addresses in the pick table. -/
def pickAddrs (u : SiteUpstream α W) : List α := (u.pick.getD []).map (·.inner)

/-- The table has the peers with a positive weight that are not unavailable at this time; all of them
    when none is available or there is only one. -/
def Exact (now : Nat) (u : SiteUpstream α W) (h : PeerHealth α) : Prop :=
  ∀ a, a ∈ u.pickAddrs ↔ a ∈ u.positivePeers.map (·.inner) ∧
    (u.positivePeers.length < 2 ∨ (∀ b ∈ u.positivePeers.map (·.inner), h.isUnavailable now b = true) ∨
      h.isUnavailable now a = false)

variable {u : SiteUpstream α W} {h : PeerHealth α} {now : Nat}

omit [DecidableEq α] in
theorem mem_selectiveVec {peer : WeightedValue α W} :
    peer ∈ (selectiveVec peers).getD [] ↔ peer ∈ peers := by
  rw [selectiveVec]
  split
  case isTrue hnil => simp [List.isEmpty_iff.mp hnil]
  case isFalse => exact mem_insertionSort _

theorem Follows.exact (hf : u.Follows h) (hswept : h.Swept now) : u.Exact now h := by
  have hbad : h.marked = h.isUnavailable now := funext hswept
  intro a
  rw [pickAddrs, hf, hbad, mem_map]
  simp only [mem_selectiveVec, mem_map]
  rw [keepGood]
  split
  case isTrue hfew => simp [hfew]
  case isFalse hmany =>
    split
    case isTrue hnil =>
      have hall : ∀ b ∈ u.positivePeers.map (·.inner), h.isUnavailable now b = true := by
        intro b hb
        obtain ⟨peer, hpeer, rfl⟩ := mem_map.mp hb
        have := filter_eq_nil_iff.mp (List.isEmpty_iff.mp hnil) peer hpeer
        simpa using this
      simp only [mem_map] at hall
      exact ⟨fun hmem => ⟨hmem, .inr (.inl hall)⟩, And.left⟩
    case isFalse hsome =>
      constructor
      · rintro ⟨peer, hpeer, rfl⟩
        rw [mem_filter] at hpeer
        exact ⟨⟨peer, hpeer.1, rfl⟩, .inr (.inr (by simpa using hpeer.2))⟩
      · rintro ⟨⟨peer, hpeer, rfl⟩, hfew | hall | hgood⟩
        · exact absurd hfew hmany
        · refine absurd ?_ hsome
          rw [List.isEmpty_iff, filter_eq_nil_iff]
          intro b hb
          simp [hall b.inner ⟨b, hb, rfl⟩]
        · exact ⟨peer, mem_filter.mpr ⟨hpeer, by simp [hgood]⟩, rfl⟩

/-! ### Building the table -/

omit [Weight W] in
theorem filterHealthy_spec (now : Nat) (h : PeerHealth α) (peers : List (WeightedValue α W)) :
    (filterHealthy now h peers).1 = (peers.filter fun peer => !h.isUnavailable now peer.inner) ∧
    (∀ a, (filterHealthy now h peers).2.isUnavailable now a = h.isUnavailable now a) ∧
    ∀ a, (filterHealthy now h peers).2.marked a =
      if a ∈ peers.map (·.inner) then h.isUnavailable now a else h.marked a := by
  induction peers generalizing h with
  | nil => simp [filterHealthy]
  | cons peer peers ih =>
    obtain ⟨hlist, hun, hmark⟩ := ih (h.unavailable peer.inner now).2
    simp only [unavailable_isUnavailable] at hlist hun hmark
    refine ⟨?_, hun, fun a => (hmark a).trans ?_⟩
    · simp only [filterHealthy, unavailable_fst, hlist, filter_cons]
      cases h.isUnavailable now peer.inner <;> rfl
    · simp only [unavailable_marked, map_cons, mem_cons]
      by_cases hrest : a ∈ peers.map (·.inner) <;> by_cases hfirst : a = peer.inner <;>
      simp [hrest, hfirst]

/-- The table is right when it has just been built. -/
theorem rebuild_spec (now : Nat) (u : SiteUpstream α W) (h : PeerHealth α) :
    ∃ u' h', u.rebuild now (some h) = (u', some h') ∧ u'.health = u.health ∧ u'.Follows h' ∧
      (h.Swept now → h'.Swept now) := by
  rw [rebuild]
  split
  case isTrue hempty =>
    refine ⟨_, h, rfl, rfl, ?_, id⟩
    have hpos : u.positivePeers = [] := by rw [positivePeers, List.isEmpty_iff.mp hempty]; rfl
    change none = selectiveVec (keepGood h.marked u.positivePeers)
    rw [hpos]
    rfl
  case isFalse =>
    by_cases hfew : u.positivePeers.length < 2
    · have hall : withoutUnavailable now (some h) u.positivePeers = (u.positivePeers, some h) :=
        if_pos hfew
      rw [hall]
      refine ⟨_, h, rfl, rfl, ?_, id⟩
      change selectiveVec u.positivePeers = selectiveVec (keepGood h.marked u.positivePeers)
      rw [keepGood, if_pos hfew]
    · obtain ⟨hlist, hun, hmark⟩ := filterHealthy_spec now h u.positivePeers
      have hgood : keepGood (filterHealthy now h u.positivePeers).2.marked u.positivePeers =
          keepGood (h.isUnavailable now) u.positivePeers :=
        keepGood_congr fun peer hpeer => by
          rw [hmark, if_pos (mem_map_of_mem hpeer)]
      have hsome : withoutUnavailable now (some h) u.positivePeers =
          (keepGood (filterHealthy now h u.positivePeers).2.marked u.positivePeers,
            some (filterHealthy now h u.positivePeers).2) := by
        rw [hgood, keepGood, if_neg hfew, ← hlist]
        exact if_neg hfew
      rw [hsome]
      refine ⟨_, _, rfl, rfl, rfl, fun hswept a => ?_⟩
      rw [hmark, hun, hswept a, ite_self]

theorem Follows.congr {h' : PeerHealth α} (hf : u.Follows h) (hm : ∀ a, h'.marked a = h.marked a) :
    u.Follows h' := by
  rw [Follows, funext hm]
  exact hf

/-- A sweep that reports nothing has removed no mark. -/
theorem sweep_marked (hno : ¬(h.sweepExpired now).1 = true) (a : α) :
    (h.sweepExpired now).2.marked a = h.marked a := by
  have hl : h.lapsed now a = false := by
    rw [sweepExpired_fst] at hno
    exact Bool.eq_false_iff.mpr fun hl => hno ⟨a, hl⟩
  rw [sweepExpired_marked, isUnavailable_eq, hl, Bool.not_false,
    Bool.and_true]

section

variable (hf : u.Follows h)

include hf

/-- A recovery leaves a table that is right for this time. -/
theorem Follows.recoverExpired (now : Nat) :
    ∃ u' h', u.recoverExpired now (some h) = (u', some h') ∧ u'.health = u.health ∧
      u'.Follows h' ∧ h'.Swept now := by
  have hswept : (h.sweepExpired now).2.Swept now := sweepExpired_swept
  simp only [SiteUpstream.recoverExpired]
  split
  case isTrue =>
    obtain ⟨u', h', heq, hid, hf', hs⟩ := rebuild_spec now u (h.sweepExpired now).2
    exact ⟨u', h', heq, hid, hf', hs hswept⟩
  case isFalse hno => exact ⟨u, _, rfl, rfl, hf.congr (sweep_marked hno), hswept⟩

/-! ### The calls -/

/-- What a call keeps: the object has its records, and the table follows them. -/
def Kept (u : SiteUpstream α W) (held : Held α W) : Prop :=
  ∃ u' h', held = (u', some h') ∧ u'.health = u.health ∧ u'.Follows h'

theorem Follows.accepts {addr : UpstreamAddr α}
    (hok : ∀ peer, addr.socketAddr = some peer → h.lapsed now peer = false) :
    ∃ h', (u.accepts now addr (some h)).2 = some h' ∧ u.Follows h' := by
  rw [SiteUpstream.accepts]
  split
  case h_1 => exact ⟨h, rfl, hf⟩
  case h_2 =>
    split
    case h_1 => exact ⟨h, rfl, hf⟩
    case h_2 peer hpeer =>
      refine ⟨(h.unavailable peer now).2, by dsimp only; split <;> rfl, hf.congr fun a => ?_⟩
      rw [unavailable_marked]
      split
      case isTrue ha =>
        rw [isUnavailable_eq, ha, hok peer hpeer, Bool.not_false, Bool.and_true]
      case isFalse => rfl

theorem Follows.selectNew : u.Kept (u.selectNew now (some h)) := by
  rw [SiteUpstream.selectNew]
  split
  case h_1 => exact ⟨u, h, rfl, rfl, hf⟩
  case h_2 =>
    obtain ⟨u', h', heq, hid, hf', -⟩ := hf.recoverExpired now
    exact ⟨u', h', heq, hid, hf'⟩

theorem Follows.selectKeeping {previous : Option (UpstreamAddr α)}
    (hok : ∀ addr ∈ previous, ∀ peer, addr.socketAddr = some peer → h.lapsed now peer = false) :
    u.Kept (u.selectKeeping now previous (some h)) := by
  cases previous with
  | none => exact hf.selectNew
  | some addr =>
    obtain ⟨h', heq, hf'⟩ := hf.accepts (hok addr rfl)
    simp only [SiteUpstream.selectKeeping, heq]
    split
    case isTrue => exact ⟨u, h', rfl, rfl, hf'⟩
    case isFalse => exact hf'.selectNew

theorem Follows.setWeight (addr : α) (weight : W) :
    u.Kept (u.setWeight now addr weight (some h)) := by
  have hsame : u.Kept (u, some h) := ⟨u, h, rfl, rfl, hf⟩
  rw [SiteUpstream.setWeight]
  split
  case isTrue => exact hsame
  case isFalse =>
    split
    case isTrue => exact hsame
    case isFalse =>
      split
      case isTrue => exact hsame
      case isFalse =>
        obtain ⟨u', h', heq, hid, hf', -⟩ := rebuild_spec now
          { u with runtimeWeight := u.runtimeWeight.insert addr weight } h
        exact ⟨u', h', heq, hid, hf'⟩

theorem Follows.recordPeerConnectResult (addr : UpstreamAddr α) (connected : Bool) :
    u.Kept (u.recordPeerConnectResult now addr connected (some h)) := by
  have hsame : u.Kept (u, some h) := ⟨u, h, rfl, rfl, hf⟩
  simp only [SiteUpstream.recordPeerConnectResult]
  split
  case h_1 => exact hsame
  case h_2 peer =>
    split
    case isTrue => exact hsame
    case isFalse =>
      split
      case isTrue =>
        obtain ⟨u', h', heq, hid, hf', -⟩ := rebuild_spec now u _
        exact ⟨u', h', heq, hid, hf'⟩
      case isFalse hno =>
        rw [Bool.or_eq_true, not_or] at hno
        refine ⟨u, _, rfl, rfl, (hf.congr (sweep_marked hno.1)).congr ?_⟩
        exact sweepExpired_swept.noteResult_marked hno.2

end

omit [Weight W] in
/-- Behind a sweep, a status query finds no expired record that counts. -/
theorem foldl_failureStatus_marked (hs : h.Swept now) (peers : List (WeightedValue α W)) (a : α) :
    (peers.foldl (fun h peer => (h.failureStatus peer.inner now).2) h).marked a = h.marked a := by
  induction peers generalizing h with
  | nil => rfl
  | cons peer peers ih =>
    rw [foldl_cons, failureStatus_snd, ih hs.unavailable, hs.unavailable_marked]

theorem Follows.listPeerHealthStatus (hf : u.Follows h) :
    u.Kept (u.listPeerHealthStatus now (some h)) := by
  simp only [SiteUpstream.listPeerHealthStatus]
  split
  case isTrue => exact ⟨u, h, rfl, rfl, hf⟩
  case isFalse =>
    obtain ⟨u', h', heq, hid, hf', hswept⟩ := hf.recoverExpired now
    rw [heq]
    exact ⟨u', _, rfl, hid, hf'.congr (foldl_failureStatus_marked hswept _)⟩

/-! ### Objects without health checking -/

section

variable (u) (now)

theorem rebuild_none :
    ∃ u', u.rebuild now none = (u', none) ∧ u'.health = u.health := by
  rw [rebuild]
  split
  case isTrue | isFalse => exact ⟨_, rfl, rfl⟩

theorem accepts_none (addr : UpstreamAddr α) : (u.accepts now addr none).2 = none := by
  rw [SiteUpstream.accepts]
  split
  case h_1 => rfl
  case h_2 =>
    split
    case h_1 => rfl
    case h_2 => dsimp only [Option.map_none]; split <;> rfl

theorem selectNew_none : u.selectNew now none = (u, none) := by
  rw [SiteUpstream.selectNew]
  split <;> rfl

theorem selectKeeping_none (previous : Option (UpstreamAddr α)) :
    u.selectKeeping now previous none = (u, none) := by
  cases previous with
  | none => exact u.selectNew_none now
  | some addr => simp only [SiteUpstream.selectKeeping, accepts_none, selectNew_none, ite_self]

theorem setWeight_none (addr : α) (weight : W) :
    ∃ u', u.setWeight now addr weight none = (u', none) ∧ u'.health = u.health := by
  rw [SiteUpstream.setWeight]
  split
  case isTrue => exact ⟨u, rfl, rfl⟩
  case isFalse =>
    split
    case isTrue => exact ⟨u, rfl, rfl⟩
    case isFalse =>
      split
      case isTrue => exact ⟨u, rfl, rfl⟩
      case isFalse => exact rebuild_none _ now

end

end SiteUpstream

namespace World

/-- Which health records the objects have. -/
def healths (w : World α W) : List (Option Nat) := w.sites.map (·.health)

/-- No later object has the health records of the object `i`. -/
def Newest (w : World α W) (i : Nat) : Prop :=
  ∀ t, w.healths[i]? = some (some t) → ∀ j, i < j → w.healths[j]? ≠ some (some t)

/-- The table of each object follows its health records, unless a later object has them too. -/
structure Inv (w : World α W) : Prop where
  bound : ∀ t, some t ∈ w.healths → t < w.tables.length
  follows : ∀ i u h, w.sites[i]? = some u → w.Newest i → w.tableOf u = some h → u.Follows h

variable {w : World α W} {i : Nat} {u u' : SiteUpstream α W} {h h' : PeerHealth α}
  {held : SiteUpstream.Held α W} {r : Option (PeerHealth α)}

section

omit [DecidableEq α] [Weight W]

theorem tableOf_eq_some : w.tableOf u = some h ↔ ∃ t, u.health = some t ∧ w.tables[t]? = some h :=
  Option.bind_eq_some_iff

theorem healths_eq (hu : w.sites[i]? = some u) : w.healths[i]? = some u.health := by
  rw [healths, getElem?_map, hu, Option.map_some]

theorem healths_put (hu : w.sites[i]? = some u)
    (hid : held.1.health = u.health) : (w.put i held).healths = w.healths := by
  rw [healths, put, map_set, hid, ← healths]
  refine ext_getElem? fun j => ?_
  rw [getElem?_set]
  split
  case isTrue hij =>
    subst hij
    rw [healths_eq hu, if_pos (List.getElem?_eq_some_iff.mp (healths_eq hu)).1]
  case isFalse => rfl

/-- Two objects with the same records are not both the newest. -/
theorem Newest.eq {j t : Nat} (hi : w.Newest i) (hj : w.Newest j)
    (hti : w.healths[i]? = some (some t)) (htj : w.healths[j]? = some (some t)) : i = j := by
  rcases Nat.lt_trichotomy i j with hlt | heq | hgt
  · exact absurd htj (hi t hti j hlt)
  · exact heq
  · exact absurd hti (hj t htj i hgt)

theorem length_store {o : Option Nat} : w.tables.length ≤ (w.store o r).length := by
  rw [store.eq_def]
  split
  case h_1 =>
    split
    case isTrue => rw [length_set]
    case isFalse => exact length_append ▸ Nat.le_add_right _ _
  case h_2 => exact le_rfl

theorem store_self {t : Nat} (ht : t ≤ w.tables.length) :
    (w.store (some t) (some h))[t]? = some h := by
  rw [store]
  split
  case isTrue hlt => exact getElem?_set_self hlt
  case isFalse hge =>
    rw [Nat.le_antisymm ht (Nat.le_of_not_lt hge)]
    exact getElem?_concat_length

/-- Other records stay as they are. -/
theorem store_ne {t : Nat} {o : Option Nat} (hne : o ≠ some t)
    (hlt : t < w.tables.length) : (w.store o r)[t]? = w.tables[t]? := by
  rw [store.eq_def]
  split
  case h_1 s g =>
    have hst : s ≠ t := fun hs => hne (congrArg some hs)
    split
    case isTrue => exact getElem?_set_ne hst
    case isFalse => exact getElem?_append_left hlt
  case h_2 => rfl

end

/-- An object that is new, or behind a call: it has no records, or its table follows them. -/
def Right (held : SiteUpstream.Held α W) : Prop :=
  (held.2 = none ∧ held.1.health = none) ∨ ∃ h, held.2 = some h ∧ held.1.Follows h

/-- Behind a call that keeps the table of its object right. -/
theorem Inv.put (hw : w.Inv) (hi : w.Newest i) (hu : w.sites[i]? = some u)
    (hid : held.1.health = u.health) (hr : Right held) : (w.put i held).Inv := by
  have hheal : (w.put i held).healths = w.healths := healths_put hu hid
  constructor
  · intro t ht
    rw [hheal] at ht
    exact (hw.bound t ht).trans_le length_store
  · intro j v g hv hj hg
    rw [Newest, hheal] at hj
    obtain ⟨t, ht, hgt⟩ := tableOf_eq_some.mp hg
    have hvj : w.healths[j]? = some (some t) := by
      rw [← hheal, healths_eq hv, ht]
    have hlt := hw.bound t (mem_of_getElem? hvj)
    rw [World.put, getElem?_set] at hv
    by_cases hij : i = j
    · subst hij
      rw [if_pos rfl, if_pos (List.getElem?_eq_some_iff.mp hu).1] at hv
      obtain rfl := Option.some.inj hv
      rcases hr with ⟨-, hnone⟩ | ⟨h, hh, hf⟩
      · rw [hnone] at ht
        cases ht
      · rw [World.put, hh, ht, store_self hlt.le] at hgt
        obtain rfl := Option.some.inj hgt
        exact hf
    · rw [if_neg hij] at hv
      have hne : held.1.health ≠ some t := fun hheld =>
        hij (hi.eq hj (by rw [healths_eq hu, ← hid, hheld]) hvj)
      rw [World.put, store_ne hne hlt] at hgt
      exact hw.follows j v g hv hj (tableOf_eq_some.mpr ⟨t, ht, hgt⟩)

/-- One more object, with the records of another one or with new ones. -/
theorem Inv.add (hw : w.Inv) (hr : Right held)
    (hid : ∀ t, held.1.health = some t → t ≤ w.tables.length) : (w.add held).Inv := by
  have hheal : (w.add held).healths = w.healths ++ [held.1.health] := by
    rw [healths, World.add, map_append]
    rfl
  constructor
  · intro t ht
    rw [hheal, mem_append, mem_singleton] at ht
    rcases ht with hold | hnew
    · exact (hw.bound t hold).trans_le length_store
    · rcases hr with ⟨-, hnone⟩ | ⟨h, hh, -⟩
      · exact absurd (hnew.trans hnone) (Option.some_ne_none t)
      · have hself : (w.store held.1.health held.2)[t]? = some h := by
          rw [← hnew, hh, store_self (hid t hnew.symm)]
        exact (List.getElem?_eq_some_iff.mp hself).1
  · intro j v g hv hj hg
    obtain ⟨t, ht, hgt⟩ := tableOf_eq_some.mp hg
    rw [World.add] at hv hgt
    rcases Nat.lt_or_ge j w.sites.length with hlt | hge
    · rw [getElem?_append_left hlt] at hv
      have hlen : w.healths.length = w.sites.length := length_map ..
      have hvj : w.healths[j]? = some (some t) := by rw [healths_eq hv, ht]
      have hvj' : (w.add held).healths[j]? = some (some t) := by
        rw [hheal, getElem?_append_left (hlt.trans_eq hlen.symm), hvj]
      -- The new object does not have these records, for `j` is the newest that has them.
      have hne : held.1.health ≠ some t := by
        intro hheld
        refine hj t hvj' w.sites.length hlt ?_
        rw [hheal, ← hlen, getElem?_concat_length, hheld]
      rw [store_ne hne (hw.bound t (mem_of_getElem? hvj))] at hgt
      refine hw.follows j v g hv ?_ (tableOf_eq_some.mpr ⟨t, ht, hgt⟩)
      intro s hs k hk hks
      have hklt := (List.getElem?_eq_some_iff.mp hks).1
      refine hj s ?_ k hk ?_
      · rw [hheal, getElem?_append_left (hk.trans hklt), hs]
      · rw [hheal, getElem?_append_left hklt, hks]
    · have hlast : v = held.1 := by
        rw [getElem?_append_right hge] at hv
        exact mem_singleton.mp (mem_of_getElem? hv)
      subst hlast
      rcases hr with ⟨-, hnone⟩ | ⟨h, hh, hf⟩
      · rw [hnone] at ht
        cases ht
      · rw [hh, ht, store_self (hid t ht)] at hgt
        obtain rfl := Option.some.inj hgt
        exact hf

theorem Inv.tableOf (hw : w.Inv) (hu : w.sites[i]? = some u) {t : Nat} (ht : u.health = some t) :
    ∃ h, w.tableOf u = some h := by
  have hlt := hw.bound t (ht ▸ mem_map_of_mem (mem_of_getElem? hu))
  exact ⟨w.tables[t], tableOf_eq_some.mpr ⟨t, ht, getElem?_eq_getElem hlt⟩⟩

/-- A call on an object that is the newest with its records. -/
theorem Inv.call (hw : w.Inv) (hi : w.Newest i)
    {f : SiteUpstream α W → Option (PeerHealth α) → SiteUpstream.Held α W}
    (hsome : ∀ u h, w.sites[i]? = some u → w.tableOf u = some h → u.Follows h →
      u.Kept (f u (some h)))
    (hnone : ∀ u, ∃ u', f u none = (u', none) ∧ u'.health = u.health) : (w.call i f).Inv := by
  cases hu : w.sites[i]? with
  | none =>
    have hsame : w.call i f = w := by rw [World.call, hu]
    rwa [hsame]
  | some u =>
    have hput : w.call i f = w.put i (f u (w.tableOf u)) := by rw [World.call, hu]
    rw [hput]
    cases hh : w.tableOf u with
    | some h =>
      obtain ⟨u', h', heq, hid, hf⟩ := hsome u h hu hh (hw.follows i u h hu hi hh)
      rw [heq]
      exact hw.put hi hu hid (.inr ⟨h', rfl, hf⟩)
    | none =>
      obtain ⟨u', heq, hid⟩ := hnone u
      rw [heq]
      refine hw.put hi hu hid (.inl ⟨rfl, ?_⟩)
      refine hid.trans ?_
      cases ht : u.health with
      | none => rfl
      | some t =>
        obtain ⟨h, hsome⟩ := hw.tableOf hu ht
        exact absurd (hh.symm.trans hsome) (Option.some_ne_none h).symm

/-! ### Runs -/

/-- The peer `addr` has no expired record that made it unavailable. -/
def NotLapsed (w : World α W) (i : Nat) (addr : UpstreamAddr α) : Prop :=
  ∀ u h peer, w.sites[i]? = some u → w.tableOf u = some h → addr.socketAddr = some peer →
    h.lapsed w.now peer = false

/-- The calls that are safe: on an object that has not been reloaded to one with the same records,
    and `accepts` for no peer with a record that has expired since it was unavailable. The clock
    stands still during a call, in which each health check reads it anew. -/
def Careful (w : World α W) : Op α W → Prop
  | .new _ _ => True
  | .reload i _ _ => w.Newest i
  | .selectKeeping i previous => w.Newest i ∧ ∀ addr ∈ previous, w.NotLapsed i addr
  | .accepts i addr => w.Newest i ∧ w.NotLapsed i addr
  | .listPeerHealthStatus i => w.Newest i
  | .setWeight i _ _ => w.Newest i
  | .recordPeerConnectResult i _ _ => w.Newest i
  | .advance _ => True

/-- The worlds that come from calls with `ok`. -/
inductive Reachable (ok : World α W → Op α W → Prop) : World α W → Prop where
  | start (now : Nat) : Reachable ok { now := now }
  | step {w : World α W} (hw : Reachable ok w) (op : Op α W) (hop : ok w op) :
      Reachable ok (w.step op)

/-- A table that has just been built. -/
theorem Inv.add_rebuild (hw : w.Inv) (u : SiteUpstream α W) {o : Option (PeerHealth α)}
    (hnone : o = none → u.health = none)
    (hid : ∀ t, u.health = some t → t ≤ w.tables.length) : (w.add (u.rebuild w.now o)).Inv := by
  cases o with
  | none =>
    obtain ⟨u', heq, hsame⟩ := u.rebuild_none w.now
    rw [heq]
    exact hw.add (.inl ⟨rfl, hsame.trans (hnone rfl)⟩) fun t ht => hid t (hsame ▸ ht)
  | some h =>
    obtain ⟨u', h', heq, hsame, hf, -⟩ := SiteUpstream.rebuild_spec w.now u h
    rw [heq]
    exact hw.add (.inr ⟨h', rfl, hf⟩) fun t ht => hid t (hsame ▸ ht)

omit [DecidableEq α] [Weight W] in
theorem reloadHealth_spec (hw : ∀ t, u.health = some t → t < w.tables.length)
    (strategy : Option PeerHealthCheckConfig) :
    ((w.reloadHealth u strategy).2 = none → (w.reloadHealth u strategy).1 = none) ∧
    ∀ t, (w.reloadHealth u strategy).1 = some t → t ≤ w.tables.length := by
  cases strategy with
  | none => exact ⟨fun _ => rfl, nofun⟩
  | some strategy =>
    simp only [reloadHealth]
    split
    case h_1 t h ht hh =>
      split
      case isTrue =>
        refine ⟨nofun, ?_⟩
        rintro s hs
        rw [← Option.some.inj hs]
        exact (hw t ht).le
      case isFalse => exact ⟨nofun, fun s hs => (Option.some.inj hs).ge⟩
    case h_2 => exact ⟨nofun, fun s hs => (Option.some.inj hs).ge⟩

theorem Inv.step (hw : w.Inv) {op : Op α W} (hop : w.Careful op) : (w.step op).Inv := by
  cases op with
  | new config health =>
    refine hw.add_rebuild _ ?_ ?_
    · cases health <;> simp
    · cases health <;> simp
  | reload j config health =>
    simp only [World.step]
    split
    case h_1 => exact hw
    case h_2 old hold =>
      have hbound : ∀ t, old.health = some t → t < w.tables.length := fun t ht =>
        hw.bound t (ht ▸ mem_map_of_mem (mem_of_getElem? hold))
      obtain ⟨hnone, hid⟩ := reloadHealth_spec hbound health
      exact hw.add_rebuild _ hnone hid
  | selectKeeping j previous =>
    refine hw.call hop.1 (fun u h hu hh hf => hf.selectKeeping ?_) fun u =>
      ⟨u, u.selectKeeping_none w.now previous, rfl⟩
    exact fun addr haddr peer hpeer => hop.2 addr haddr u h peer hu hh hpeer
  | accepts j addr =>
    have hkeep : ∀ u h, w.sites[j]? = some u → w.tableOf u = some h → u.Follows h →
        u.Kept (u, (u.accepts w.now addr (some h)).2) := by
      intro u h hu hh hf
      obtain ⟨h', heq, hf'⟩ := hf.accepts fun peer hpeer => hop.2 u h peer hu hh hpeer
      exact ⟨u, h', congrArg (Prod.mk u) heq, rfl, hf'⟩
    exact hw.call (f := fun u h => (u, (u.accepts w.now addr h).2)) hop.1 hkeep fun u =>
      ⟨u, congrArg (Prod.mk u) (u.accepts_none w.now addr), rfl⟩
  | listPeerHealthStatus j =>
    exact hw.call hop (fun u h _ _ hf => hf.listPeerHealthStatus) fun u => ⟨u, rfl, rfl⟩
  | setWeight j addr weight =>
    exact hw.call hop (fun u h _ _ hf => hf.setWeight addr weight) fun u =>
      u.setWeight_none w.now addr weight
  | recordPeerConnectResult j addr connected =>
    exact hw.call hop (fun u h _ _ hf => hf.recordPeerConnectResult addr connected)
      fun u => ⟨u, rfl, rfl⟩
  | advance d =>
    exact ⟨hw.bound, fun i u h hu hi hh => hw.follows i u h hu hi hh⟩

theorem Reachable.inv (hw : Reachable Careful w) : w.Inv := by
  induction hw with
  | start now => exact ⟨fun t ht => absurd ht not_mem_nil, fun i u h hu => nomatch hu⟩
  | step _ op hop ih => exact ih.step hop

variable (w)

/-- The recovery step of a new selection. -/
def recover (i : Nat) : World α W := w.call i fun u h => u.recoverExpired w.now h

/-- The pick table of the object `i` has the peers that it should have at this time. -/
def ExactAt (i : Nat) : Prop :=
  ∀ u h, w.sites[i]? = some u → w.tableOf u = some h → u.Exact w.now h

/-- In a run of safe calls, the pick table is exact at each new selection. -/
theorem exactAt_recover (w : World α W) (hw : Reachable Careful w) (i : Nat) (hi : w.Newest i) :
    (w.recover i).ExactAt i := by
  intro u' h' hu' hh'
  have hinv := hw.inv
  cases hu : w.sites[i]? with
  | none =>
    have hsame : w.recover i = w := by rw [recover, World.call, hu]
    rw [hsame, hu] at hu'
    cases hu'
  | some u =>
    have hput : w.recover i = w.put i (u.recoverExpired w.now (w.tableOf u)) := by
      rw [recover, World.call, hu]
    rw [hput] at hu' hh' ⊢
    rw [World.put, getElem?_set_self (List.getElem?_eq_some_iff.mp hu).1] at hu'
    obtain rfl := Option.some.inj hu'
    obtain ⟨t, ht, hht⟩ := tableOf_eq_some.mp hh'
    cases hh : w.tableOf u with
    | none =>
      rw [hh] at ht
      obtain ⟨h, hsome⟩ := hinv.tableOf hu (t := t) ht
      exact absurd (hh.symm.trans hsome) (Option.some_ne_none h).symm
    | some h =>
      obtain ⟨v, g, heq, hid, hf, hswept⟩ :=
        (hinv.follows i u h hu hi hh).recoverExpired w.now
      rw [hh, heq] at ht hht
      rw [heq]
      rw [World.put, ht, store_self] at hht
      · obtain rfl := Option.some.inj hht
        exact hf.exact hswept
      · exact (hinv.bound t ((hid.symm.trans ht) ▸
          mem_map_of_mem (mem_of_getElem? hu))).le

/-! ### Two peers -/

variable {w}

/-- Two peers of weight one. -/
def twoPeers : SiteUpstreamConfig Nat Nat := { peers := [⟨1, 1⟩, ⟨2, 1⟩] }

/-- One failure makes a peer unavailable for ten ticks. -/
def oneFailure : PeerHealthCheckConfig := ⟨1, 10⟩

/-- The first peer fails and recovers. -/
theorem exactAt_recover_twoPeers : ∃ w : World Nat Nat, Reachable Careful w ∧
    (w.recover 0).ExactAt 0 ∧ (w.recover 0).sites[0]?.map (·.pickAddrs) = some [1, 2] := by
  have hold : ∀ w : World Nat Nat, w.healths = [some 0] → w.Newest 0 := by
    intro w hw t _ j hj
    rw [hw, getElem?_eq_none hj]
    exact nofun
  have h₀ : Reachable Careful { now := 0 : World Nat Nat } := .start 0
  have h₁ := h₀.step (.new twoPeers (some oneFailure)) trivial
  have h₂ := h₁.step (.recordPeerConnectResult 0 (.socket 1) false) (hold _ rfl)
  have h₃ := h₂.step (.advance 20) trivial
  exact ⟨_, h₃, exactAt_recover _ h₃ 0 (hold _ rfl), rfl⟩

/-- `accepts` drops the expired record of the first peer, or the new object of a reload does: the table
    is not built again, and the peer stays out of it. -/
theorem not_exactAt_recover :
    (∃ w : World Nat Nat, w = [.new twoPeers (some oneFailure),
        .recordPeerConnectResult 0 (.socket 1) false, .advance 20,
        .accepts 0 (.socket 1)].foldl step { now := 0 } ∧ ¬(w.recover 0).ExactAt 0) ∧
    ∃ w : World Nat Nat, w = [.new twoPeers (some oneFailure),
        .recordPeerConnectResult 0 (.socket 1) false, .reload 0 twoPeers (some oneFailure),
        .advance 20, .selectKeeping 1 none].foldl step { now := 0 } ∧
      ¬(w.recover 0).ExactAt 0 := by
  have hwrong : ∀ w : World Nat Nat, ∀ u h, w.sites[0]? = some u → w.tableOf u = some h →
      1 ∉ u.pickAddrs → 1 ∈ u.positivePeers.map (·.inner) →
      h.isUnavailable w.now 1 = false → ¬w.ExactAt 0 := by
    intro w u h hu hh hnot hpos havail hexact
    exact hnot ((hexact u h hu hh 1).mpr ⟨hpos, .inr (.inr havail)⟩)
  refine ⟨⟨_, rfl, ?_⟩, _, rfl, ?_⟩
  all_goals exact hwrong _ _ _ rfl rfl (by decide) (by decide) (by decide)

end World

end Vey.Site

import Vey.Schemes.Table

/-! Delay queues.

        slot   0          1          2
              (a, at 7)   free       (b, at 3)

    A slab of entries, each with the instant it is due. A key is the slot of an entry: it is valid as
    long as the entry is there, and a slot that gets free may be handed out again. Setting an entry to
    another instant panics for a key that is not valid. The timer wheel behind the queue takes instants
    up to a horizon and panics for those behind it.

    A table whose values keep the key of their entry is linked to the queue when the two are one to
    one. -/

namespace Vey.Schemes

open List Table

/-- A point in time, in any unit. -/
abbrev Instant := Nat

inductive TimerPanic where
  | invalidKey
  | tooFar
  deriving DecidableEq

/-- What the queue finds when an entry is put in: a slot of its slab, and how far its wheel reaches. -/
structure Timer where
  slot : Nat
  horizon : Instant

/-- The queue of `tokio_util`. What its documentation leaves open, the slot, the reach of the wheel
    and the due entry that comes out, is an argument of each call: a result holds for all of them. -/
structure DelayQueue (α : Type) where
  slots : Table Nat (α × Instant) := ∅

namespace DelayQueue

variable {α : Type} (q : DelayQueue α) (key : Nat)

/-- The entry that a key stands for. -/
def get : Option (α × Instant) := q.slots.lookup key

def insertAt (v : α) (due : Instant) (timer : Timer) : Except TimerPanic (Nat × DelayQueue α) :=
  if timer.horizon < due then .error .tooFar
  else .ok (timer.slot, ⟨q.slots.insert timer.slot (v, due)⟩)

def resetAt (due : Instant) (timer : Timer) : Except TimerPanic (DelayQueue α) :=
  match q.get key with
  | none => .error .invalidKey
  | some e =>
    if timer.horizon < due then .error .tooFar
    else .ok ⟨q.slots.insert key (e.1, due)⟩

def remove : Except TimerPanic (DelayQueue α) :=
  match q.get key with
  | none => .error .invalidKey
  | some _ => .ok ⟨q.slots.erase key⟩

/-- An entry that is due comes out. -/
def pollExpired (now : Instant) : Option (α × DelayQueue α) :=
  match q.get key with
  | none => none
  | some e => if e.2 ≤ now then some (e.1, ⟨q.slots.erase key⟩) else none

theorem pollExpired_eq_some {q q' : DelayQueue α} {key : Nat} {now : Instant} {v : α}
    (h : q.pollExpired key now = some (v, q')) :
    ∃ due, q.get key = some (v, due) ∧ q' = ⟨q.slots.erase key⟩ := by
  rw [pollExpired] at h
  split at h
  · cases h
  next e hget =>
    split at h
    · cases h
      exact ⟨e.2, hget, rfl⟩
    · cases h

/-- The entries with this value. -/
def entriesOf [DecidableEq α] (v : α) : List Nat :=
  (q.slots.entries.filter fun e => e.2.1 = v).map (·.1)

theorem mem_entriesOf [DecidableEq α] {q : DelayQueue α} {v : α} {key : Nat} :
    key ∈ q.entriesOf v ↔ ∃ due, q.get key = some (v, due) := by
  rw [entriesOf, mem_map]
  constructor
  · rintro ⟨⟨key, w, due⟩, hmem, rfl⟩
    obtain ⟨hentry, hv⟩ := mem_filter.mp hmem
    obtain rfl : w = v := of_decide_eq_true hv
    exact ⟨due, lookup_eq_some.mpr hentry⟩
  · rintro ⟨due, hget⟩
    exact ⟨⟨key, v, due⟩, mem_filter.mpr ⟨lookup_eq_some.mp hget, decide_eq_true rfl⟩, rfl⟩

theorem nodup_entriesOf [DecidableEq α] (v : α) : (q.entriesOf v).Nodup :=
  q.slots.nodupKeys.sublist filter_sublist

end DelayQueue

/-! ### One entry for each key of a table -/

section

variable {κ ν : Type} [DecidableEq κ] {key : ν → Option Nat} {t : Table κ ν} {q q' : DelayQueue κ}
  {k : κ} {v v' : ν}

/-- Every value of the table holds the key of an entry for it, and there are no other entries. -/
def Linked (key : ν → Option Nat) (t : Table κ ν) (q : DelayQueue κ) : Prop :=
  (∀ k v, t.lookup k = some v → ∃ i due, key v = some i ∧ q.get i = some (k, due)) ∧
  ∀ i k due, q.get i = some (k, due) → ∃ v, t.lookup k = some v ∧ key v = some i

theorem linked_empty : Linked key (∅ : Table κ ν) {} :=
  ⟨nofun, nofun⟩

/-- A key that is not in the table has no entry. -/
theorem Linked.get_ne (h : Linked key t q) (hk : t.lookup k = none) (i : Nat) (due : Instant) :
    q.get i ≠ some (k, due) := by
  intro hget
  obtain ⟨v, hv, -⟩ := h.2 i k due hget
  rw [hk] at hv
  cases hv

omit [DecidableEq κ] in
theorem get_insert {i j : Nat} {e : κ × Instant} :
    DelayQueue.get ⟨q.slots.insert j e⟩ i = if i = j then some e else q.get i :=
  lookup_insert

omit [DecidableEq κ] in
theorem get_erase {i j : Nat} :
    DelayQueue.get ⟨q.slots.erase j⟩ i = if i = j then none else q.get i := lookup_erase

variable {timer : Timer} {due : Instant} {i : Nat}

section

variable (h : Linked key t q)

include h

/-- A value and its entry are set together; neither may belong to another one. -/
theorem Linked.set (hv : key v = some i) (hslot : ∀ e, q.get i = some e → e.1 = k)
    (hold : ∀ w j, t.lookup k = some w → key w = some j → j = i) :
    Linked key (t.insert k v) ⟨q.slots.insert i (k, due)⟩ := by
  refine ⟨fun k' w hk' => ?_, fun j k' due₀ hj => ?_⟩
  · rw [lookup_insert] at hk'
    split at hk'
    next heq =>
      cases hk'
      exact ⟨i, due, hv, by rw [heq, get_insert, if_pos rfl]⟩
    next hne =>
      obtain ⟨j, due₀, hkey, hget⟩ := h.1 k' w hk'
      refine ⟨j, due₀, hkey, ?_⟩
      rw [get_insert, if_neg, hget]
      rintro rfl
      exact hne (hslot _ hget)
  · rw [get_insert] at hj
    rw [lookup_insert]
    split at hj
    next heq =>
      cases hj
      exact ⟨v, if_pos rfl, heq ▸ hv⟩
    next hne =>
      obtain ⟨w, hw, hkey⟩ := h.2 j k' due₀ hj
      refine ⟨w, ?_, hkey⟩
      rw [if_neg, hw]
      rintro rfl
      exact hne (hold w j hw hkey)

/-- A new value with a new entry. -/
theorem Linked.insert (hk : t.lookup k = none) (hfree : q.get timer.slot = none)
    (hins : q.insertAt k due timer = .ok (i, q')) (hv : key v = some i) :
    Linked key (t.insert k v) q' := by
  rw [DelayQueue.insertAt] at hins
  split at hins
  · cases hins
  · cases hins
    exact h.set hv (by simp [hfree]) (by simp [hk])

/-- A value is replaced, and its entry set to another instant. -/
theorem Linked.reset (hk : t.lookup k = some v) (hkey : key v = some i) (hv' : key v' = some i)
    (hreset : q.resetAt i due timer = .ok q') : Linked key (t.insert k v') q' := by
  obtain ⟨i', due₀, hi', hget⟩ := h.1 k v hk
  obtain rfl : i' = i := Option.some.inj (hi'.symm.trans hkey)
  rw [DelayQueue.resetAt, hget] at hreset
  dsimp only at hreset
  split at hreset
  · cases hreset
  · cases hreset
    refine h.set hv' (by simp [hget]) fun w j hw hj => ?_
    rw [hk] at hw
    cases hw
    exact Option.some.inj (hj.symm.trans hkey)

/-- A value and its entry go together. -/
theorem Linked.erase (hget : q.get i = some (k, due)) :
    Linked key (t.erase k) ⟨q.slots.erase i⟩ := by
  obtain ⟨v, hv, hkey⟩ := h.2 i k due hget
  refine ⟨fun k' w hk' => ?_, fun j k' due₁ hj => ?_⟩
  · rw [lookup_erase] at hk'
    split at hk'
    · cases hk'
    next hne =>
      obtain ⟨j, due₁, hj, hgetj⟩ := h.1 k' w hk'
      refine ⟨j, due₁, hj, ?_⟩
      rw [get_erase, if_neg, hgetj]
      rintro rfl
      rw [hget] at hgetj
      cases hgetj
      exact hne rfl
  · rw [get_erase] at hj
    split at hj
    · cases hj
    next hne =>
      obtain ⟨w, hw, hkw⟩ := h.2 j k' due₁ hj
      refine ⟨w, ?_, hkw⟩
      rw [lookup_erase, if_neg, hw]
      rintro rfl
      rw [hv] at hw
      cases hw
      exact hne (Option.some.inj (hkw.symm.trans hkey))

/-- The key of a value is valid. -/
theorem Linked.valid (hk : t.lookup k = some v) (hkey : key v = some i) :
    ∃ due, q.get i = some (k, due) := by
  obtain ⟨j, due, hj, hget⟩ := h.1 k v hk
  rw [hkey] at hj
  obtain rfl := Option.some.inj hj
  exact ⟨due, hget⟩

/-- A value for a key, new or not: the entry that is there is set to another instant. -/
def putAt (key : ν → Option Nat) (t : Table κ ν) (q : DelayQueue κ) (k : κ) (due : Instant)
    (timer : Timer) (mk : Nat → ν) : Except TimerPanic (Table κ ν × DelayQueue κ) :=
  match (t.lookup k).bind key with
  | some i => (q.resetAt i due timer).map fun q => (t.insert k (mk i), q)
  | none => (q.insertAt k due timer).map fun e => (t.insert k (mk e.1), e.2)

/-- The rule for `putAt`: it resets valid keys only. -/
theorem Linked.put {d : Instant} {mk : Nat → ν} (hfree : q.get timer.slot = none)
    (hmk : ∀ i, key (mk i) = some i) :
    (∃ i q', putAt key t q k d timer mk = .ok (t.insert k (mk i), q') ∧
      Linked key (t.insert k (mk i)) q') ∨
    putAt key t q k d timer mk = .error .tooFar := by
  rw [putAt]
  cases hk : t.lookup k with
  | none =>
    rw [Option.bind_none]
    by_cases hfar : timer.horizon < d
    · exact .inr (by rw [DelayQueue.insertAt, if_pos hfar]; rfl)
    · have hins : q.insertAt k d timer = .ok (timer.slot, ⟨q.slots.insert timer.slot (k, d)⟩) := by
        rw [DelayQueue.insertAt, if_neg hfar]
      rw [hins]
      exact .inl ⟨_, _, rfl, h.insert hk hfree hins (hmk _)⟩
  | some v =>
    obtain ⟨i, due₀, hkey, hget⟩ := h.1 k v hk
    rw [Option.bind_some, hkey]
    dsimp only
    by_cases hfar : timer.horizon < d
    · exact .inr (by simp only [DelayQueue.resetAt, hget, if_pos hfar]; rfl)
    · have hreset : q.resetAt i d timer = .ok ⟨q.slots.insert i (k, d)⟩ := by
        simp only [DelayQueue.resetAt, hget, if_neg hfar]
      rw [hreset]
      exact .inl ⟨_, _, rfl, h.reset hk hkey (hmk i) hreset⟩

/-- There is one entry for each key of the table, and none for the others. -/
theorem Linked.length_entriesOf (k : κ) :
    (q.entriesOf k).length = if (t.lookup k).isSome then 1 else 0 := by
  cases hk : t.lookup k with
  | none =>
    rw [Option.isSome_none, if_neg Bool.false_ne_true, length_eq_zero_iff,
      eq_nil_iff_forall_not_mem]
    intro i hi
    obtain ⟨due, hget⟩ := DelayQueue.mem_entriesOf.mp hi
    exact h.get_ne hk i due hget
  | some v =>
    obtain ⟨i, due, hkey, hget⟩ := h.1 k v hk
    have hmem : i ∈ q.entriesOf k := DelayQueue.mem_entriesOf.mpr ⟨due, hget⟩
    have hall : ∀ j ∈ q.entriesOf k, j = i := by
      intro j hj
      obtain ⟨due₁, hgetj⟩ := DelayQueue.mem_entriesOf.mp hj
      obtain ⟨w, hw, hkw⟩ := h.2 j k due₁ hgetj
      rw [hk] at hw
      cases hw
      exact Option.some.inj (hkw.symm.trans hkey)
    rw [Option.isSome_some, if_pos rfl]
    have hnodup := q.nodup_entriesOf k
    generalize q.entriesOf k = l at hmem hall hnodup
    rcases l with _ | ⟨a, _ | ⟨b, l⟩⟩
    · cases hmem
    · rfl
    · have hab : a = b := (hall a mem_cons_self).trans
        (hall b (mem_cons_of_mem a mem_cons_self)).symm
      exact absurd (hab ▸ mem_cons_self) (nodup_cons.mp hnodup).1

end

end

end Vey.Schemes

import Vey.Schemes.Table

/-! The aggregating exporter: counters are stored per series and emitted at ticks.

        record ... record   tick   record   tick   tick
        \_____ diff _____/  emit   \ diff / emit   drop

    Nothing is reset at a tick: an entry that is older than `store_time` is stale, its `diff` starts
    again with the next record, and the tick after drops it. The last emission, when the channel is
    closed, drops nothing. -/

namespace Vey.Statsd

open Schemes

inductive MetricValue where
  | double (f : Float)
  | signed (i : Int64)
  | unsigned (u : UInt64)

namespace MetricValue

/-- An integer, modulo 2^64. -/
def bits : MetricValue → Option (BitVec 64)
  | .double _ => none
  | .signed i => some i.toBitVec
  | .unsigned u => some u.toBitVec

/-- The sum of integers, modulo 2^64. -/
def total : List MetricValue → Option (BitVec 64)
  | [] => some 0
  | v :: vs => v.bits.bind fun x => (total vs).map (x + ·)

theorem total_cons {v : MetricValue} {vs : List MetricValue} {z : BitVec 64} :
    total (v :: vs) = some z ↔ ∃ x y, v.bits = some x ∧ total vs = some y ∧ x + y = z := by
  simp [total, Option.bind_eq_some_iff]

theorem total_append {vs us : List MetricValue} {z : BitVec 64} :
    total (vs ++ us) = some z ↔ ∃ x y, total vs = some x ∧ total us = some y ∧ x + y = z := by
  induction vs generalizing z with
  | nil => simp [total]
  | cons v vs ih =>
    simp only [List.cons_append, total_cons, ih]
    constructor
    · rintro ⟨a, _, ha, ⟨x, y, hx, hy, rfl⟩, rfl⟩
      exact ⟨a + x, y, ⟨a, x, ha, hx, rfl⟩, hy, BitVec.add_assoc a x y⟩
    · rintro ⟨_, y, ⟨a, x, ha, hx, rfl⟩, hy, rfl⟩
      exact ⟨a, x + y, ha, ⟨x, y, hx, hy, rfl⟩, (BitVec.add_assoc a x y).symm⟩

def add : MetricValue → MetricValue → MetricValue
  | .unsigned u1, .unsigned u2 => .unsigned (u1 + u2)
  | .unsigned u1, .signed i2 => .signed (i2 + u1.toInt64)
  | .unsigned u1, .double f2 => .double (f2 + u1.toFloat)
  | .signed i1, .unsigned u2 => .signed (i1 + u2.toInt64)
  | .signed i1, .signed i2 => .signed (i1 + i2)
  | .signed i1, .double f2 => .double (f2 + i1.toFloat)
  | .double f1, .unsigned u2 => .double (f1 + u2.toFloat)
  | .double f1, .signed i2 => .double (f1 + i2.toFloat)
  | .double f1, .double f2 => .double (f1 + f2)

theorem bits_add {a b : MetricValue} {x y : BitVec 64} (ha : a.bits = some x)
    (hb : b.bits = some y) : (a.add b).bits = some (x + y) := by
  cases a <;> cases b <;> simp_all [bits, add, BitVec.add_comm]

end MetricValue

inductive MetricType where
  | counter
  | gauge
  deriving DecidableEq

/-- A record; its series is the name with the tag map. -/
structure MetricRecord (κ : Type) where
  type : MetricType
  series : κ
  value : MetricValue

/-- A counter: its sum, and that of its last interval. -/
structure CounterStoreValue where
  time : Nat
  sum : MetricValue
  diff : MetricValue

structure GaugeStoreValue where
  time : Nat
  value : MetricValue

/-- The series, and when the open interval began. -/
structure AggregateExportRuntime (κ : Type) where
  storeTime : Nat
  counter : Table κ CounterStoreValue := ∅
  gauge : Table κ GaugeStoreValue := ∅

/-- A round of the select loop that is not its last: a tick, behind which the clock is read, or a
    batch that is not empty. -/
inductive Round (κ : Type) where
  | tick (now : Nat)
  | recvMany (r : MetricRecord κ) (rs : List (MetricRecord κ))

variable {κ : Type} [DecidableEq κ]

/-- The entry of a series behind a record. -/
def CounterStoreValue.add (storeTime : Nat) (x : MetricValue) :
    Option CounterStoreValue → CounterStoreValue
  | some v =>
    if v.time < storeTime then { time := storeTime, sum := v.sum.add x, diff := x }
    else { v with sum := v.sum.add x, diff := v.diff.add x }
  | none => { time := storeTime, sum := x, diff := x }

namespace AggregateExportRuntime

/-- Counters add up, a gauge is replaced. -/
def addRecord (s : AggregateExportRuntime κ) (r : MetricRecord κ) : AggregateExportRuntime κ :=
  match r.type with
  | .counter =>
    let v := CounterStoreValue.add s.storeTime r.value (s.counter.lookup r.series)
    { s with counter := s.counter.insert r.series v }
  | .gauge => { s with gauge := s.gauge.insert r.series { time := s.storeTime, value := r.value } }

/-- A tick drops the series without a record since the last. -/
def retain (now : Nat) (s : AggregateExportRuntime κ) : AggregateExportRuntime κ where
  gauge := s.gauge.retain fun _ v => s.storeTime ≤ v.time
  counter := s.counter.retain fun _ v => s.storeTime ≤ v.time
  storeTime := now

/-- What the exporter is given. -/
abbrev Emission (κ : Type) := Table κ GaugeStoreValue × Table κ CounterStoreValue

def emit (s : AggregateExportRuntime κ) : Emission κ := (s.gauge, s.counter)

/-- The emissions, in order. Behind the last round the channel is closed. -/
def intoRunning (s : AggregateExportRuntime κ) : List (Round κ) → List (Emission κ)
  | [] => [s.emit]
  | .tick now :: es => (s.retain now).emit :: intoRunning (s.retain now) es
  | .recvMany r rs :: es => intoRunning ((r :: rs).foldl addRecord s) es

end AggregateExportRuntime

open AggregateExportRuntime MetricValue

/-! ### What goes in and what comes out -/

/-- The values that counter records have for the series. -/
def valuesOf (k : κ) (rs : List (MetricRecord κ)) : List MetricValue :=
  (rs.filter fun r => r.type = .counter ∧ k = r.series).map (·.value)

def received (k : κ) : List (Round κ) → List MetricValue
  | [] => []
  | .tick _ :: es => received k es
  | .recvMany r rs :: es => valuesOf k (r :: rs) ++ received k es

/-- The `diff` values of the series in the emissions. -/
def emitted (k : κ) (out : List (Emission κ)) : List MetricValue :=
  out.flatMap fun e => (e.2.lookup k).toList.map (·.diff)

def readings : List (Round κ) → List Nat
  | [] => []
  | .tick now :: es => now :: readings es
  | .recvMany _ _ :: es => readings es

/-! ### Two intervals of one series

    The sums of the interval before the last tick and of the one since, where there are records. -/

structure Window where
  prev : Option (BitVec 64) := none
  cur : Option (BitVec 64) := none

namespace Window

def push (w : Window) (v : MetricValue) : Window :=
  { w with cur := some (w.cur.getD 0 + v.bits.getD 0) }

def after (k : κ) (w : Window) : List (Round κ) → Window
  | [] => w
  | .tick _ :: es => after k { prev := w.cur } es
  | .recvMany r rs :: es => after k ((valuesOf k (r :: rs)).foldl push w) es

/-- What a close emits for the second time. -/
def again (w : Window) : BitVec 64 := if w.cur.isSome then 0 else w.prev.getD 0

end Window

/-- How the entry of a series stands to its intervals. -/
inductive Follows (t : Nat) : Option CounterStoreValue → Window → Prop
  | fresh {v c p} : v.diff.bits = some c → v.time = t → Follows t (some v) ⟨p, some c⟩
  | stale {v p} : v.diff.bits = some p → v.time < t → Follows t (some v) ⟨some p, none⟩
  | absent : Follows t none ⟨none, none⟩

namespace Follows

variable {t now : Nat} {e : Option CounterStoreValue} {w : Window} {k : κ}

theorem add {x : MetricValue} {b : BitVec 64} (h : Follows t e w) (hx : x.bits = some b) :
    Follows t (some (CounterStoreValue.add t x e)) (w.push x) := by
  cases h with
  | fresh hd ht =>
    simp only [CounterStoreValue.add, ht, Nat.lt_irrefl, if_false]
    exact .fresh (by simp [bits_add hd hx, hx]) rfl
  | stale _ ht =>
    simp only [CounterStoreValue.add, ht, if_true]
    exact .fresh (by simp [hx]) rfl
  | absent => exact .fresh (by simp [CounterStoreValue.add, hx]) rfl

/-- A batch adds its values to the interval that is open. -/
theorem addRecords (rs : List (MetricRecord κ)) : ∀ {s w b},
    Follows s.storeTime (s.counter.lookup k) w → total (valuesOf k rs) = some b →
    (rs.foldl addRecord s).storeTime = s.storeTime ∧
    Follows s.storeTime ((rs.foldl addRecord s).counter.lookup k) ((valuesOf k rs).foldl .push w) ∧
    ((valuesOf k rs).foldl .push w).cur.getD 0 = w.cur.getD 0 + b := by
  induction rs with
  | nil =>
    intro s w b h hb
    obtain rfl := Option.some.inj hb
    exact ⟨rfl, h, by simp [valuesOf]⟩
  | cons r rs ih =>
    intro s w b h hb
    have htime : (s.addRecord r).storeTime = s.storeTime := by
      unfold addRecord
      split <;> rfl
    by_cases hr : r.type = .counter ∧ k = r.series
    · obtain ⟨htype, rfl⟩ := hr
      have hvalues : valuesOf r.series (r :: rs) = r.value :: valuesOf r.series rs := by
        simp [valuesOf, htype]
      obtain ⟨x, y, hx, hy, rfl⟩ := total_cons.mp (hvalues ▸ hb)
      have hadd : Follows s.storeTime ((s.addRecord r).counter.lookup r.series)
          (w.push r.value) := by
        simpa [addRecord, htype] using h.add hx
      obtain ⟨h1, h2, h3⟩ := ih (htime.symm ▸ hadd) hy
      rw [hvalues]
      refine ⟨h1.trans htime, htime ▸ h2, h3.trans ?_⟩
      simp [Window.push, hx, BitVec.add_assoc]
    · have hvalues : valuesOf k (r :: rs) = valuesOf k rs := by simp [valuesOf, hr]
      have hsame : (s.addRecord r).counter.lookup k = s.counter.lookup k := by
        unfold addRecord
        split
        case h_1 ht => exact AList.lookup_insert_ne fun h => hr ⟨ht, h⟩
        case h_2 => rfl
      obtain ⟨h1, h2, h3⟩ := ih (by rwa [htime, hsame]) (hvalues ▸ hb)
      rw [hvalues]
      exact ⟨h1.trans htime, htime ▸ h2, h3⟩

/-- The tick drops what is stale, emits what is left, and makes it stale. -/
theorem retain (h : Follows t e w) (hnow : t < now) :
    Follows now (e.filter fun v => t ≤ v.time) { prev := w.cur } ∧
    total ((e.filter fun v => t ≤ v.time).toList.map (·.diff)) = some (w.cur.getD 0) := by
  cases h with
  | @fresh v c _ hd ht =>
    have hkeep : (some v).filter (fun v => t ≤ v.time) = some v := by simp [ht]
    rw [hkeep]
    exact ⟨.stale hd (ht ▸ hnow), total_cons.mpr ⟨c, 0, hd, rfl, BitVec.add_zero c⟩⟩
  | @stale v p hd ht =>
    have hdrop : (some v).filter (fun v => t ≤ v.time) = none := by simp [ht]
    rw [hdrop]
    exact ⟨.absent, rfl⟩
  | absent => exact ⟨.absent, rfl⟩

theorem close (h : Follows t e w) :
    total (e.toList.map (·.diff)) = some (w.cur.getD 0 + w.again) := by
  cases h <;> simp [total, Window.again, *]

/-- What is emitted from here on: the open interval, what is still to come, and what the close
    repeats. -/
theorem emits (es : List (Round κ)) : ∀ {s : AggregateExportRuntime κ} {w y},
    Follows s.storeTime (s.counter.lookup k) w →
    total (received k es) = some y → (s.storeTime :: readings es).IsChain (· < ·) →
    total (emitted k (s.intoRunning es)) = some (w.cur.getD 0 + y + (w.after k es).again) := by
  induction es with
  | nil =>
    intro s w y h hy _
    obtain rfl := Option.some.inj hy
    simpa [emitted, intoRunning, emit, Window.after] using h.close
  | cons e es ih =>
    intro s w y h hy hclock
    cases e with
    | tick now =>
      obtain ⟨hnow, hclock⟩ := List.isChain_cons_cons.mp hclock
      obtain ⟨hstale, hout⟩ := h.retain hnow
      have hlook : (s.retain now).counter.lookup k = (s.counter.lookup k).filter
          fun v => s.storeTime ≤ v.time := Table.lookup_retain
      rw [← hlook] at hstale hout
      have hrest := ih (s := s.retain now) hstale hy hclock
      exact total_append.mpr ⟨_, _, hout, hrest, by simp [Window.after, BitVec.add_assoc]⟩
    | recvMany r rs =>
      obtain ⟨b, y, hb, hrest, rfl⟩ := total_append.mp hy
      obtain ⟨htime, hadd, hsum⟩ := h.addRecords (r :: rs) hb
      have hout := ih (htime.symm ▸ hadd) hrest (htime.symm ▸ hclock)
      rwa [hsum, BitVec.add_assoc (w.cur.getD 0)] at hout

end Follows

/-- A series with integer records is counted once just when the close repeats nothing: there is a
    record since the last tick, or the interval before that tick sums up to zero. -/
theorem diffs_counted_once_iff (k : κ) (t : Nat) (es : List (Round κ)) (y : BitVec 64)
    (hy : total (received k es) = some y) (hclock : (t :: readings es).IsChain (· < ·)) :
    let out := intoRunning { storeTime := t : AggregateExportRuntime κ } es
    total (emitted k out) = total (received k es) ↔
      (Window.after k {} es).cur ≠ none ∨ (Window.after k {} es).prev.getD 0 = 0 := by
  intro out
  have hout : total (emitted k out) = _ := Follows.emits (k := k) es .absent hy hclock
  rw [hout, hy]
  cases hcur : (Window.after k {} es).cur <;> simp [Window.again, hcur]

/-- `5` is emitted at the tick and again at the close. -/
theorem diffs_counted_twice :
    let es : List (Round Unit) := [.recvMany ⟨.counter, (), .unsigned 5⟩ [], .tick 1]
    (0 :: readings es).IsChain (· < ·) ∧ total (received () es) = some 5 ∧
      total (emitted () (intoRunning { storeTime := 0 } es)) = some 10 := by decide

theorem diffs_counted_once_fresh :
    let es : List (Round Unit) := [.recvMany ⟨.counter, (), .unsigned 5⟩ [], .tick 1,
      .recvMany ⟨.counter, (), .signed (-7)⟩ []]
    total (emitted () (intoRunning { storeTime := 0 } es)) = total (received () es) :=
  (diffs_counted_once_iff () 0 _ (-2) rfl (by decide)).mpr (.inl (by decide))

end Vey.Statsd

import Vey.Schemes.Bytes

/-! Chunked framing as a byte automaton, in two readings.

    The strict reading ends a line at CR, and the next byte has to be LF. The lenient reading ends
    a line at LF and drops a CR before it. What a size line says is a parameter `size` of the
    development, applied to the whole line with its end.

        sizeLine -> data -> dataCr -> dataLf -> sizeLine -> ... -> trailer -> done

    A frame carries the state and the payload decoded so far. No byte may follow `done`, so
    `feed start v = ⟨done, d⟩` says that `v` is exactly one body and decodes to `d`. The two
    readings agree on a stream without a bare LF inside a line. -/

namespace Vey.Schemes

open List

/-! ### Folds that collect bytes -/

section

variable {σ : Type} {step : σ → UInt8 → σ} {c : UInt8}

/-- A state that collects a line collects what comes before its end. -/
theorem foldl_line (st : Bytes → σ) (h : ∀ line b, b ≠ c → step (st line) b = st (line ++ [b])) :
    ∀ {bs line : Bytes}, c ∉ bs → bs.foldl step (st line) = st (line ++ bs)
  | [], line, _ => by simp
  | b :: bs, line, hc => by
    obtain ⟨hb, hbs⟩ := not_or.mp (mem_cons.not.mp hc)
    rw [foldl_cons, h line b (Ne.symm hb), foldl_line st h hbs, ← append_cons]

/-- A state that counts the payload down takes as many bytes as it counts. -/
theorem foldl_payload (st : Nat → Bytes → σ)
    (h : ∀ left d b, step (st (left + 1) d) b = st left (d ++ [b])) :
    ∀ {bs d : Bytes} {left : Nat}, bs.length ≤ left →
      bs.foldl step (st left d) = st (left - bs.length) (d ++ bs)
  | [], d, left, _ => by simp
  | b :: bs, d, left + 1, hle => by
    rw [foldl_cons, h, foldl_payload st h (Nat.le_of_succ_le_succ hle), ← append_cons, length_cons,
      Nat.succ_sub_succ]

end

/-! ### The strict reading -/

/-- Where in the framing the next byte is; `left` counts the payload bytes still to come. -/
inductive FrameSt where
  | sizeLine (line : Bytes)
  | sizeLf (line : Bytes)
  | data (left : Nat)
  | dataCr
  | dataLf
  | trailer (len : Nat)
  | trailerLf (len : Nat)
  | done
  | bad
  deriving DecidableEq

structure Frame where
  st : FrameSt
  body : Bytes
  deriving DecidableEq

namespace Frame

variable (size : Bytes → Option Nat)

/-- The start of a body. -/
def start : Frame := ⟨.sizeLine [], []⟩

/-- The state behind a size line. -/
def afterSize : Option Nat → FrameSt
  | none => .bad
  | some 0 => .trailer 0
  | some (n + 1) => .data (n + 1)

variable (f : Frame)

def step (b : UInt8) : Frame :=
  match f.st with
  | .sizeLine line => ⟨if b = cr then .sizeLf (line ++ [b]) else .sizeLine (line ++ [b]), f.body⟩
  | .sizeLf line => ⟨if b = lf then afterSize (size (line ++ [b])) else .bad, f.body⟩
  | .data left => ⟨if left ≤ 1 then .dataCr else .data (left - 1), f.body ++ [b]⟩
  | .dataCr => ⟨if b = cr then .dataLf else .bad, f.body⟩
  | .dataLf => ⟨if b = lf then .sizeLine [] else .bad, f.body⟩
  | .trailer len => ⟨if b = cr then .trailerLf len else .trailer (len + 1), f.body⟩
  | .trailerLf len =>
    ⟨if b = lf then if len = 0 then .done else .trailer 0 else .bad, f.body⟩
  | .done => ⟨.bad, f.body⟩
  | .bad => ⟨.bad, f.body⟩

def feed (bs : Bytes) : Frame := bs.foldl (step size) f

variable {size}

@[simp] theorem feed_nil : feed size f [] = f := rfl

@[simp] theorem feed_cons (b : UInt8) (bs : Bytes) :
    feed size f (b :: bs) = feed size (step size f b) bs := rfl

theorem feed_append (a b : Bytes) :
    feed size f (a ++ b) = feed size (feed size f a) b := foldl_append

theorem feed_bad (d : Bytes) : ∀ bs : Bytes, feed size ⟨.bad, d⟩ bs = ⟨.bad, d⟩ :=
  foldl_fixed' fun _ => rfl

/-- Nothing may follow a complete body. -/
theorem feed_done {d bs : Bytes} {f : Frame} (h : feed size ⟨.done, d⟩ bs = f)
    (hf : f.st ≠ .bad) : bs = [] := by
  cases bs with
  | nil => rfl
  | cons b bs =>
    rw [feed_cons, show step size ⟨.done, d⟩ b = ⟨.bad, d⟩ from rfl, feed_bad] at h
    exact absurd (by rw [← h]) hf

theorem feed_sizeLine {d bs line : Bytes} (h : cr ∉ bs) :
    feed size ⟨.sizeLine line, d⟩ bs = ⟨.sizeLine (line ++ bs), d⟩ :=
  foldl_line (fun l => Frame.mk (.sizeLine l) d) (fun _ _ hb => by simp [step, hb]) h

theorem feed_trailer {d : Bytes} : ∀ {bs : Bytes} {len : Nat}, cr ∉ bs →
    feed size ⟨.trailer len, d⟩ bs = ⟨.trailer (len + bs.length), d⟩
  | [], len, _ => by simp
  | b :: bs, len, h => by
    have hb : b ≠ cr := fun e => h (by simp [e])
    have hbs : cr ∉ bs := fun e => h (by simp [e])
    simp [step, hb, feed_trailer hbs, Nat.add_comm, Nat.add_left_comm]

/-- The state after `k` of `left` payload bytes. -/
def dataSt (left : Nat) : FrameSt := if left = 0 then .dataCr else .data left

theorem feed_data {d bs : Bytes} {left : Nat} (h : bs.length ≤ left) (hpos : 0 < left) :
    feed size ⟨.data left, d⟩ bs = ⟨dataSt (left - bs.length), d ++ bs⟩ := by
  rw [← foldl_payload (fun n => Frame.mk (dataSt n))
    (fun _ _ b => show step size _ b = _ by simp [step, dataSt]) h,
    feed, dataSt, if_neg hpos.ne']

/-- A whole size line. -/
theorem feed_sizeLine_crlf {d bs line : Bytes} (h : cr ∉ bs) :
    feed size ⟨.sizeLine line, d⟩ (bs ++ [cr, lf]) =
      ⟨afterSize (size (line ++ bs ++ [cr, lf])), d⟩ := by
  rw [feed_append, feed_sizeLine h]
  simp [step]

/-- The end of a chunk. -/
theorem feed_dataCr_crlf (d : Bytes) : feed size ⟨.dataCr, d⟩ [cr, lf] = ⟨.sizeLine [], d⟩ := by
  simp [step]

/-- An empty trailer. -/
theorem feed_trailer_crlf (d : Bytes) : feed size ⟨.trailer 0, d⟩ [cr, lf] = ⟨.done, d⟩ := by
  simp [step]

/-- Every byte adds at most one byte of payload. -/
theorem step_body_length (size : Bytes → Option Nat) (f : Frame) (b : UInt8) :
    f.body.length ≤ (step size f b).body.length ∧
    (step size f b).body.length ≤ f.body.length + 1 := by
  obtain ⟨st, body⟩ := f
  cases st <;> simp [step]

theorem feed_body_length (bs : Bytes) : ∀ f : Frame, f.body.length ≤ (feed size f bs).body.length ∧
    (feed size f bs).body.length ≤ f.body.length + bs.length := by
  induction bs with
  | nil => exact fun f => ⟨Nat.le_refl _, Nat.le_refl _⟩
  | cons b bs ih =>
    intro f
    obtain ⟨hge, hle⟩ := ih (step size f b)
    obtain ⟨hge', hle'⟩ := step_body_length size f b
    rw [feed_cons, length_cons]
    omega

/-- The payload decoded before a step stays in front. -/
theorem step_shift (st : FrameSt) (x y : Bytes) (b : UInt8) :
    step size ⟨st, x ++ y⟩ b = ⟨(step size ⟨st, y⟩ b).st, x ++ (step size ⟨st, y⟩ b).body⟩ := by
  cases st <;> simp [step]

theorem feed_shift (x : Bytes) : ∀ (bs : Bytes) (st : FrameSt) (y : Bytes),
    feed size ⟨st, x ++ y⟩ bs = ⟨(feed size ⟨st, y⟩ bs).st, x ++ (feed size ⟨st, y⟩ bs).body⟩
  | [], _, _ => rfl
  | b :: bs, st, y => by
    rw [feed_cons, feed_cons, step_shift]
    exact feed_shift x bs _ _

/-- Two complete bodies at the front of one stream are the same body. -/
theorem complete_unique {f : Frame} {v w rest rest' d e : Bytes} (hs : v ++ rest = w ++ rest')
    (hv : feed size f v = ⟨.done, d⟩) (hw : feed size f w = ⟨.done, e⟩) : v = w ∧ d = e := by
  have hpre : v = w := by
    rcases append_eq_append_iff.mp hs with ⟨a, rfl, -⟩ | ⟨a, rfl, -⟩
    · rw [feed_append, hv] at hw
      rw [feed_done hw (by simp), append_nil]
    · rw [feed_append, hw] at hv
      rw [feed_done hv (by simp), append_nil]
  subst hpre
  rw [hv] at hw
  exact ⟨rfl, congrArg Frame.body hw⟩

/-! The bytes of a stream that belong to a body, complete or not: a reading goes on until it is
    complete or broken. -/

/-- A reading that has met neither the end nor an error. -/
def Open : Prop := f.st ≠ .done ∧ f.st ≠ .bad

instance (f : Frame) : Decidable f.Open := inferInstanceAs (Decidable (_ ∧ _))

/-- Every byte of `bs` is met by a reading that is open. -/
def Live (size : Bytes → Option Nat) : Frame → Bytes → Prop
  | _, [] => True
  | f, b :: bs => f.Open ∧ Live size (step size f b) bs

/-- The bytes up to the one that ends the reading. -/
def own (size : Bytes → Option Nat) : Frame → Bytes → Bytes
  | _, [] => []
  | f, b :: bs => if f.Open then b :: own size (step size f b) bs else []

theorem live_append : ∀ {a b : Bytes} {f : Frame},
    Live size f (a ++ b) ↔ Live size f a ∧ Live size (feed size f a) b
  | [], _, _ => by simp [Live]
  | x :: a, b, f => by
    rw [cons_append, Live, Live, feed_cons, live_append, and_assoc]

theorem own_append : ∀ {a b : Bytes} {f : Frame}, Live size f a →
    own size f (a ++ b) = a ++ own size (feed size f a) b
  | [], _, _, _ => rfl
  | x :: a, b, f, h => by
    rw [cons_append, own, if_pos h.1, own_append h.2, feed_cons, cons_append]

end Frame

open Vey.Schemes.Frame (body feed start)

/-! ### The lenient reading -/

inductive LineFrameSt where
  | sizeLine (line : Bytes)
  | data (left : Nat)
  | dataEnd
  | dataLf
  | trailer (line : Bytes)
  | done
  | bad

structure LineFrame where
  st : LineFrameSt
  body : Bytes

namespace LineFrame

variable (size : Bytes → Option Nat) (field : Bytes → Bool)

def start : LineFrame := ⟨.sizeLine [], []⟩

def afterSize : Option Nat → LineFrameSt
  | none => .bad
  | some 0 => .trailer []
  | some (n + 1) => .data (n + 1)

/-- The state behind a trailer line: a blank line ends the body, another one has to be a field. -/
def afterTrailer (line : Bytes) : LineFrameSt :=
  if line = [lf] ∨ line = [cr, lf] then .done else if field line then .trailer [] else .bad

variable (f : LineFrame)

def step (b : UInt8) : LineFrame :=
  match f.st with
  | .sizeLine line =>
    ⟨if b = lf then afterSize (size (line ++ [b])) else .sizeLine (line ++ [b]), f.body⟩
  | .data left => ⟨if left ≤ 1 then .dataEnd else .data (left - 1), f.body ++ [b]⟩
  | .dataEnd => ⟨if b = cr then .dataLf else if b = lf then .sizeLine [] else .bad, f.body⟩
  | .dataLf => ⟨if b = lf then .sizeLine [] else .bad, f.body⟩
  | .trailer line =>
    ⟨if b = lf then afterTrailer field (line ++ [b]) else .trailer (line ++ [b]), f.body⟩
  | .done => ⟨.bad, f.body⟩
  | .bad => ⟨.bad, f.body⟩

def feed (bs : Bytes) : LineFrame := bs.foldl (step size field) f

variable {size field}

@[simp] theorem feed_nil : feed size field f [] = f := rfl

@[simp] theorem feed_cons (b : UInt8) (bs : Bytes) :
    feed size field f (b :: bs) = feed size field (step size field f b) bs := rfl

theorem feed_append (a b : Bytes) :
    feed size field f (a ++ b) = feed size field (feed size field f a) b := foldl_append

theorem feed_bad (d : Bytes) : ∀ bs : Bytes, feed size field ⟨.bad, d⟩ bs = ⟨.bad, d⟩ :=
  foldl_fixed' fun _ => rfl

theorem feed_done {d bs : Bytes} {f : LineFrame} (h : feed size field ⟨.done, d⟩ bs = f)
    (hf : f.st ≠ .bad) : bs = [] := by
  cases bs with
  | nil => rfl
  | cons b bs =>
    rw [feed_cons, show step size field ⟨.done, d⟩ b = ⟨.bad, d⟩ from rfl, feed_bad] at h
    exact absurd (by rw [← h]) hf

theorem feed_sizeLine {d bs line : Bytes} (h : lf ∉ bs) :
    feed size field ⟨.sizeLine line, d⟩ bs = ⟨.sizeLine (line ++ bs), d⟩ :=
  foldl_line (fun l => LineFrame.mk (.sizeLine l) d) (fun _ _ hb => by simp [step, hb]) h

theorem feed_trailer {d bs line : Bytes} (h : lf ∉ bs) :
    feed size field ⟨.trailer line, d⟩ bs = ⟨.trailer (line ++ bs), d⟩ :=
  foldl_line (fun l => LineFrame.mk (.trailer l) d) (fun _ _ hb => by simp [step, hb]) h

def dataSt (left : Nat) : LineFrameSt := if left = 0 then .dataEnd else .data left

theorem feed_data {d bs : Bytes} {left : Nat} (h : bs.length ≤ left) (hpos : 0 < left) :
    feed size field ⟨.data left, d⟩ bs = ⟨dataSt (left - bs.length), d ++ bs⟩ := by
  rw [← foldl_payload (fun n => LineFrame.mk (dataSt n))
    (fun _ _ b => show step size field _ b = _ by simp [step, dataSt]) h,
    feed, dataSt, if_neg hpos.ne']

end LineFrame

open LineFrame (feed feed_append feed_bad feed_done start)

/-! ### Where the two readings agree -/

/-- Not a line feed inside a size line or a trailer line. -/
def inLine : FrameSt → UInt8 → Bool
  | .sizeLine _, b => b != lf
  | .trailer _, b => b != lf
  | _, _ => true

/-- The strict reading of the stream meets no bare LF inside a line. -/
def noBareLf (size : Bytes → Option Nat) : Frame → Bytes → Bool
  | _, [] => true
  | f, b :: bs => inLine f.st b && noBareLf size (Frame.step size f b) bs

/-- The states in which the two readings are at the same place. -/
inductive Sim : Frame → LineFrame → Prop where
  | rejected (f : Frame) (d : Bytes) : Sim f ⟨.bad, d⟩
  | broken (d : Bytes) (g : LineFrame) : Sim ⟨.bad, d⟩ g
  | sizeLine (line d : Bytes) : Sim ⟨.sizeLine line, d⟩ ⟨.sizeLine line, d⟩
  | sizeLf (line d : Bytes) : Sim ⟨.sizeLf (line ++ [cr]), d⟩ ⟨.sizeLine (line ++ [cr]), d⟩
  | data (left : Nat) (d : Bytes) : Sim ⟨.data left, d⟩ ⟨.data left, d⟩
  | dataCr (d : Bytes) : Sim ⟨.dataCr, d⟩ ⟨.dataEnd, d⟩
  | dataLf (d : Bytes) : Sim ⟨.dataLf, d⟩ ⟨.dataLf, d⟩
  | trailer (line d : Bytes) : Sim ⟨.trailer line.length, d⟩ ⟨.trailer line, d⟩
  | trailerLf (line d : Bytes) : Sim ⟨.trailerLf line.length, d⟩ ⟨.trailer (line ++ [cr]), d⟩
  | done (d : Bytes) : Sim ⟨.done, d⟩ ⟨.done, d⟩

/-- Two readings at one place have decoded the same payload. -/
theorem Sim.body_eq {f : Frame} {g : LineFrame} (h : Sim f g) (hf : f.st ≠ .bad)
    (hg : g.st ≠ .bad) : f.body = g.body := by
  cases h with
  | rejected => exact absurd rfl hg
  | broken => exact absurd rfl hf
  | _ => rfl

section

variable {size : Bytes → Option Nat} {field : Bytes → Bool}

theorem Sim.afterSize (o : Option Nat) (d : Bytes) :
    Sim ⟨Frame.afterSize o, d⟩ ⟨LineFrame.afterSize o, d⟩ := by
  match o with
  | none => exact .broken d _
  | some 0 => exact .trailer [] d
  | some (n + 1) => exact .data (n + 1) d

theorem Sim.afterTrailer (line d : Bytes) :
    Sim ⟨if line.length = 0 then .done else .trailer 0, d⟩
      ⟨LineFrame.afterTrailer field (line ++ [cr] ++ [lf]), d⟩ := by
  cases line with
  | nil => simpa [LineFrame.afterTrailer] using Sim.done d
  | cons b line =>
    have hblank : ¬(b :: line ++ [cr] ++ [lf] = [lf] ∨ b :: line ++ [cr] ++ [lf] = [cr, lf]) := by
      rintro (h | h) <;> simpa using congrArg length h
    simp only [LineFrame.afterTrailer, if_neg hblank, length_cons, Nat.add_one_ne_zero, if_false]
    split
    · exact .trailer [] d
    · exact .rejected _ d

/-- A byte that is not a bare LF moves both readings alike. -/
theorem Sim.step {f : Frame} {g : LineFrame} {b : UInt8} (h : Sim f g) (hb : inLine f.st b = true) :
    Sim (Frame.step size f b) (LineFrame.step size field g b) := by
  cases h with
  | rejected f d => exact .rejected _ d
  | broken d g => exact .broken d _
  | sizeLine line d =>
    have hne : b ≠ lf := by simpa [inLine] using hb
    by_cases hc : b = cr
    · subst hc; exact .sizeLf line d
    · simpa [Frame.step, LineFrame.step, hc, hne] using Sim.sizeLine (line ++ [b]) d
  | sizeLf line d =>
    by_cases hl : b = lf
    · subst hl
      simpa [Frame.step, LineFrame.step] using Sim.afterSize (size (line ++ [cr] ++ [lf])) d
    · simpa [Frame.step, hl] using Sim.broken d _
  | data left d =>
    by_cases hl : left ≤ 1
    · simpa [Frame.step, LineFrame.step, hl] using Sim.dataCr (d ++ [b])
    · simpa [Frame.step, LineFrame.step, hl] using Sim.data (left - 1) (d ++ [b])
  | dataCr d =>
    by_cases hc : b = cr
    · simpa [Frame.step, LineFrame.step, hc] using Sim.dataLf d
    · simpa [Frame.step, hc] using Sim.broken d _
  | dataLf d =>
    by_cases hl : b = lf
    · simpa [Frame.step, LineFrame.step, hl] using Sim.sizeLine [] d
    · simpa [Frame.step, hl] using Sim.broken d _
  | trailer line d =>
    have hne : b ≠ lf := by simpa [inLine] using hb
    by_cases hc : b = cr
    · subst hc; exact .trailerLf line d
    · simpa [Frame.step, LineFrame.step, hc, hne] using Sim.trailer (line ++ [b]) d
  | trailerLf line d =>
    by_cases hl : b = lf
    · subst hl
      have h : Sim _ ⟨LineFrame.afterTrailer field _, d⟩ := Sim.afterTrailer line d
      simpa [Frame.step, LineFrame.step] using h
    · simpa [Frame.step, hl] using Sim.broken d _
  | done d => exact .broken d _

theorem Sim.feed : ∀ {bs : Bytes} {f : Frame} {g : LineFrame}, Sim f g →
    noBareLf size f bs = true → Sim (feed size f bs) (feed size field g bs)
  | [], _, _, h, _ => h
  | b :: bs, f, g, h, hn => by
    simp only [noBareLf, Bool.and_eq_true] at hn
    rw [Frame.feed_cons, LineFrame.feed_cons]
    exact Sim.feed (h.step hn.1) hn.2

theorem noBareLf_append : ∀ {a b : Bytes} {f : Frame}, noBareLf size f (a ++ b) = true →
    noBareLf size f a = true
  | [], _, _, _ => rfl
  | x :: a, b, f, h => by
    simp only [cons_append, noBareLf, Bool.and_eq_true] at h ⊢
    exact ⟨h.1, noBareLf_append h.2⟩

/-- On a stream without a bare LF inside a line, two complete bodies at its front are the same
    one, whichever reading took them. -/
theorem strict_eq_lenient {v w rest rest' d e : Bytes}
    (hn : noBareLf size start (v ++ rest) = true) (hs : v ++ rest = w ++ rest')
    (hv : feed size start v = ⟨.done, d⟩)
    (hw : feed size field start w = ⟨.done, e⟩) : v = w ∧ d = e := by
  have hsim : Sim start start := .sizeLine [] []
  rcases append_eq_append_iff.mp hs with ⟨a, rfl, -⟩ | ⟨a, rfl, -⟩
  · -- the lenient body is longer: it is rejected or complete where the strict one ends
    have h : Sim _ (feed size field _ v) := Sim.feed hsim (noBareLf_append hn)
    rw [feed_append] at hw
    rw [hv] at h
    generalize feed size field start v = g at h hw
    cases h with
    | rejected f d => rw [feed_bad] at hw; simp at hw
    | done d =>
      obtain rfl := feed_done hw (by simp)
      simpa using hw
  · -- the strict body is longer
    have h : Sim _ (feed size field _ w) :=
      Sim.feed hsim (noBareLf_append (noBareLf_append hn))
    rw [Frame.feed_append] at hv
    rw [hw] at h
    generalize feed size start w = f at h hv
    cases h with
    | broken d g => rw [Frame.feed_bad] at hv; simp at hv
    | done d =>
      obtain rfl := Frame.feed_done hv (by simp)
      simpa using hv.symm

/-- A lenient reading that is under way is inside the strict body, and at the same place. -/
theorem lenient_inside {u r w rest d : Bytes} (hn : noBareLf size start w = true)
    (hs : u ++ r = w ++ rest) (hw : feed size start w = ⟨.done, d⟩)
    (hbad : (feed size field start u).st ≠ .bad) (hdone : (feed size field start u).st ≠ .done) :
    ∃ v, w = u ++ v ∧
      Sim (feed size start u) (feed size field start u) := by
  have hsim : Sim start start := .sizeLine [] []
  rcases append_eq_append_iff.mp hs with ⟨a, rfl, -⟩ | ⟨a, rfl, -⟩
  · exact ⟨a, rfl, Sim.feed hsim (noBareLf_append hn)⟩
  · have h : Sim _ (feed size field _ w) := Sim.feed hsim hn
    rw [feed_append] at hbad hdone
    rw [hw] at h
    generalize feed size field start w = g at h hbad hdone
    cases h with
    | rejected f d => rw [feed_bad] at hbad; simp at hbad
    | done d =>
      obtain rfl := feed_done rfl hbad
      simp at hdone

end

end Vey.Schemes

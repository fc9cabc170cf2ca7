import Vey.Schemes.Poll

/-! `h2::RecvStream`: the body of an HTTP/2 message, frame by frame.

        DATA  DATA  (stall)  DATA(empty)  ...  end | HEADERS(trailers)

    The stream is driven by a script: the frames with any stalls between them, then the trailers.
    The end of the stream may be known with the last frame, or only by a further poll. -/

namespace Vey.H2
open Schemes

/-- `h2::Error` -/
structure H2Error where
  text : String
  deriving DecidableEq

/-- A field of an `http::HeaderMap`, which holds no line ends. -/
structure HeaderField where
  name : Bytes
  value : Bytes
  name_line : cr ∉ name := by decide
  value_line : cr ∉ value := by decide
  deriving DecidableEq

abbrev Trailers := List HeaderField

/-- What reading the trailers comes to. -/
abbrev TrailersResult := Except H2Error (Option Trailers)

/-- The payload of a DATA frame, and what `release_capacity` will answer for it. -/
structure DataFrame where
  data : Bytes
  release : Except H2Error Unit := .ok ()
  fits : data.length < 2 ^ 64 := by decide

instance : DecidableEq DataFrame := fun f g =>
  decidable_of_iff (f.data = g.data ∧ f.release = g.release) (by cases f; cases g; simp)

/-- What the next poll brings. -/
inductive FrameArrival where
  | data (f : DataFrame)
  | stall
  | fail (e : H2Error)
  deriving DecidableEq

def FrameArrival.bytes : FrameArrival → Bytes
  | .data f => f.data
  | .stall => []
  | .fail _ => []

structure RecvStream where
  arrivals : List FrameArrival
  /-- the end of the stream comes with the last frame -/
  closed : Bool := true
  trailerStalls : Nat := 0
  trailers : TrailersResult := .ok none

namespace RecvStream

variable (s : RecvStream)

/-- The part of the body that is not read yet. -/
def body : Bytes := s.arrivals.flatMap FrameArrival.bytes

def pollData : Poll (Option (Except H2Error DataFrame)) × RecvStream :=
  match s.arrivals with
  | [] => (.ready none, s)
  | .data f :: as => (.ready (some (.ok f)), { s with arrivals := as })
  | .stall :: as => (.pending, { s with arrivals := as })
  | .fail e :: as => (.ready (some (.error e)), { s with arrivals := as })

/-- All of the stream has arrived and is read. -/
def isEndStream : Bool :=
  s.arrivals == [] && s.closed && s.trailers == .ok none

/-- Trailers are behind all data. -/
def pollTrailers : Poll TrailersResult × RecvStream :=
  match s.arrivals with
  | [] =>
    match s.trailerStalls with
    | 0 => (.ready s.trailers, s)
    | n + 1 => (.pending, { s with trailerStalls := n })
  | .data _ :: _ => (.pending, s)
  | .stall :: as => (.pending, { s with arrivals := as })
  | .fail e :: as => (.ready (.error e), { s with arrivals := as })

/-- The answers of `poll_data`. -/
theorem pollData_cases :
    (s.arrivals = [] ∧ s.pollData = (.ready none, s)) ∨
    (∃ as, s.arrivals = .stall :: as ∧ s.pollData = (.pending, { s with arrivals := as })) ∨
    (∃ e as, s.arrivals = .fail e :: as ∧
      s.pollData = (.ready (some (.error e)), { s with arrivals := as })) ∨
    ∃ f as, s.arrivals = .data f :: as ∧
      s.pollData = (.ready (some (.ok f)), { s with arrivals := as }) := by
  rw [pollData]
  rcases s.arrivals with _ | ⟨_ | _ | _, as⟩
  · exact .inl ⟨rfl, rfl⟩
  · exact .inr (.inr (.inr ⟨_, as, rfl, rfl⟩))
  · exact .inr (.inl ⟨as, rfl, rfl⟩)
  · exact .inr (.inr (.inl ⟨_, as, rfl, rfl⟩))

variable {s}

/-- Behind the data the trailers are there after their stalls. -/
theorem pollTrailers_cases (h : s.arrivals = []) :
    (∃ n, s.trailerStalls = n + 1 ∧ s.pollTrailers = (.pending, { s with trailerStalls := n })) ∨
    (s.trailerStalls = 0 ∧ s.pollTrailers = (.ready s.trailers, s)) := by
  obtain ⟨arrivals, closed, stalls, trailers⟩ := s
  cases h
  cases stalls with
  | zero => exact .inr ⟨rfl, rfl⟩
  | succ n => exact .inl ⟨n, rfl, rfl⟩

variable {as : List FrameArrival}

theorem body_data {f : DataFrame}
    (h : s.arrivals = .data f :: as) : s.body = f.data ++ body { s with arrivals := as } := by
  rw [body, h]
  rfl

theorem body_stall (h : s.arrivals = .stall :: as) : s.body = body { s with arrivals := as } := by
  rw [body, h]
  rfl

theorem body_nil (h : s.arrivals = []) : s.body = [] := by
  rw [body, h]
  rfl

theorem arrivals_of_isEndStream (h : s.isEndStream = true) : s.arrivals = [] := by
  rw [isEndStream, Bool.and_eq_true, Bool.and_eq_true] at h
  exact eq_of_beq h.1.1

/-- Nothing on the stream fails. -/
def Sound (s : RecvStream) : Prop :=
  (∀ e, .fail e ∉ s.arrivals) ∧ (∀ f, .data f ∈ s.arrivals → f.release = .ok ()) ∧
    ∃ t, s.trailers = .ok t

theorem Sound.tail {a : FrameArrival} (h : s.Sound)
    (hs : s.arrivals = a :: as) : Sound { s with arrivals := as } := by
  obtain ⟨hfail, hrel, htr⟩ := h
  rw [hs] at hfail hrel
  exact ⟨fun e he => hfail e (List.mem_cons_of_mem a he),
    fun f hf => hrel f (List.mem_cons_of_mem a hf), htr⟩

theorem Sound.pollTrailers (h : s.Sound) : s.pollTrailers.2.Sound := by
  rw [RecvStream.pollTrailers]
  split
  · split <;> exact h
  · exact h
  next hs => exact h.tail hs
  next hs => exact h.tail hs

end RecvStream

end Vey.H2

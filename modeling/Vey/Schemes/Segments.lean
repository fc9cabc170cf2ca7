import Vey.Schemes.Poll

/-! Streams that arrive in segments, and readers that are called over and over.

        arrivals   slice, stall, slice | slice, ...
                                     rest

    A stream is `Cut` before `rest` when `rest` starts with a segment of its own: a reader that stops
    there has not seen any of it, however large its reads are. A reader that is called with buffers of
    any sizes keeps what each call keeps (`readWith_inv`), and gets to its end when each call brings it
    nearer (`readWith_total`). -/

namespace Vey.Schemes

open List Arrival

/-- The bytes of a script before its first failure. -/
def soundOf : List Event → Bytes
  | [] => []
  | .byte b :: es => b :: soundOf es
  | .stall :: es => soundOf es
  | .fail _ :: _ => []

theorem soundOf_append (a b : List Event) (h : ∀ e, .fail e ∉ a) :
    soundOf (a ++ b) = bytesOf a ++ soundOf b := by
  induction a with
  | nil => rfl
  | cons x a ih =>
    have ih := ih fun e he => h e (mem_cons_of_mem _ he)
    cases x with
    | byte c => exact congrArg (c :: ·) ih
    | stall => exact ih
    | fail e => exact absurd mem_cons_self (h e)

namespace Source

/-- What can be read of the stream before it ends or fails. -/
def sound (s : Source) : Bytes := soundOf s.events

/-- No read of the stream fails. -/
def Unfailing (s : Source) : Prop := ∀ e, .fail e ∉ s.arrivals

/-- A segment ends right before `rest`. -/
def Cut (rest : Bytes) (s : Source) : Prop :=
  ∃ before behind, s.arrivals = before ++ behind ∧ behind.flatMap Arrival.bytes = rest

variable {s s' : Source} {rest : Bytes} {cap : Nat}

/-- A read is served from the buffer, or takes one arrival. -/
theorem pollRead_arrivals (s : Source) (cap : Nat) : (s.pollRead cap).2.arrivals = s.arrivals ∨
    s.buffered = [] ∧ ∃ a, s.arrivals = a :: (s.pollRead cap).2.arrivals := by
  obtain ⟨_ | ⟨b, bs⟩, _ | ⟨_ | _ | _, as⟩, fits⟩ := s
  · exact .inl rfl
  · exact .inr ⟨rfl, _, rfl⟩
  · exact .inr ⟨rfl, _, rfl⟩
  · exact .inr ⟨rfl, _, rfl⟩
  all_goals exact .inl rfl

variable {e : IoError} {es : List Event}

theorem pollRead_error (h : s.pollRead cap = (.ready (.error e), s')) : .fail e ∈ s.arrivals := by
  obtain ⟨_ | ⟨b, bs⟩, _ | ⟨_ | _ | _, as⟩, fits⟩ := s <;> cases h
  exact mem_cons_self

theorem Unfailing.pollRead_ne (h : s.Unfailing) (e : IoError) :
    s.pollRead cap ≠ (.ready (.error e), s') := fun hp => h e (pollRead_error hp)

theorem Unfailing.pollRead (h : s.Unfailing) (cap : Nat) : (s.pollRead cap).2.Unfailing := by
  intro e he
  refine h e ?_
  rcases pollRead_arrivals s cap with hsame | ⟨-, a, ha⟩
  · rwa [hsame] at he
  · rw [ha]; exact mem_cons_of_mem _ he

/-- An error of the stream is an event of its script. -/
theorem unfailing_iff : s.Unfailing ↔ ∀ e, .fail e ∉ s.events := by
  have hevents : ∀ e, .fail e ∈ s.events ↔ .fail e ∈ s.arrivals := by
    intro e
    simp only [events, mem_append, mem_map, reduceCtorEq, and_false, exists_false, false_or,
      mem_flatMap]
    constructor
    · rintro ⟨⟨b, bs, fits⟩ | _ | e', ha, he⟩
      · simp [Arrival.events] at he
      · simp [Arrival.events] at he
      · simp only [Arrival.events, mem_singleton, Event.fail.injEq] at he
        rwa [he]
    · exact fun ha => ⟨_, ha, mem_singleton.mpr rfl⟩
  simp only [Unfailing, hevents]

theorem Unfailing.sound (h : s.Unfailing) : s.sound = s.content := by
  have hall := soundOf_append s.events [] (unfailing_iff.mp h)
  rw [append_nil, bytesOf_events] at hall
  exact hall.trans (append_nil _)

/-- What is taken off the stream is at its front. -/
theorem content_of_events (h : es ++ s'.events = s.events) :
    bytesOf es ++ s'.content = s.content := by
  rw [← bytesOf_events, ← bytesOf_events, ← bytesOf_append, h]

theorem sound_of_events (hcalm : ∀ e, .fail e ∉ es) (h : es ++ s'.events = s.events) :
    bytesOf es ++ s'.sound = s.sound := by
  rw [Source.sound, Source.sound, ← h, soundOf_append _ _ hcalm]

theorem sound_of_end (h : s.content = []) : s.sound = [] := by
  obtain ⟨buffered, arrivals, fits⟩ := s
  obtain ⟨rfl, harr⟩ := append_eq_nil_iff.mp h
  clear h
  induction arrivals with
  | nil => rfl
  | cons a as ih =>
    cases a with
    | slice b bs hb => simp [bytes] at harr
    | stall => exact ih harr
    | fail e => rfl

/-- Nothing can be read where a fill or a read fails. -/
theorem sound_of_fill_error (h : s.pollFillBuf = (.ready (.error e), s')) : s.sound = [] := by
  obtain ⟨_ | ⟨b, bs⟩, _ | ⟨_ | _ | _, as⟩, fits⟩ := s <;> cases h
  rfl

theorem sound_of_read_error (h : s.pollRead cap = (.ready (.error e), s')) : s.sound = [] := by
  obtain ⟨_ | ⟨b, bs⟩, _ | ⟨_ | _ | _, as⟩, fits⟩ := s <;> cases h
  rfl

/-- What is left of a stream that does not fail does not fail. -/
theorem Unfailing.suffix {pre : List Event} (h : s.Unfailing) (he : pre ++ s'.events = s.events) :
    s'.Unfailing := by
  rw [unfailing_iff] at h ⊢
  exact fun e hmem => h e (he ▸ mem_append_right _ hmem)

theorem Cut.content (h : s.Cut rest) : ∃ p, s.content = p ++ rest := by
  obtain ⟨before, behind, harr, rfl⟩ := h
  exact ⟨s.buffered ++ before.flatMap bytes, by simp [Source.content, harr]⟩

theorem Cut.content_eq {x : Bytes} (h : s.Cut rest) (hx : rest = x ++ s.content) :
    s.content = rest := by
  obtain ⟨p, hp⟩ := h.content
  have hlen := congrArg length hx
  have hlen' := congrArg length hp
  simp only [length_append] at hlen hlen'
  rw [hp, length_eq_zero_iff.mp (by omega : p.length = 0), nil_append]

/-- A read that starts before the cut does not get past it. -/
theorem Cut.pollRead (h : s.Cut rest) (hne : s.content ≠ rest) (cap : Nat) :
    (s.pollRead cap).2.Cut rest := by
  obtain ⟨before, behind, harr, hrest⟩ := h
  rcases pollRead_arrivals s cap with hsame | ⟨hbuf, a, ha⟩
  · exact ⟨before, behind, hsame.trans harr, hrest⟩
  · cases before with
    | nil =>
      refine absurd ?_ hne
      rw [Source.content, hbuf, harr]
      exact hrest
    | cons x before =>
      rw [ha] at harr
      exact ⟨before, behind, (cons.inj harr).2, hrest⟩

/-- A read with room for everything leaves no part of a segment behind. -/
theorem pollRead_whole (hcap : s.content.length ≤ cap) :
    (s.pollRead cap).2.buffered = [] ∧ (s.pollRead cap).2.arrivals <:+ s.arrivals := by
  have hle : s.buffered.length ≤ cap := by
    simp only [Source.content, length_append] at hcap
    omega
  obtain ⟨_ | ⟨b, bs⟩, _ | ⟨⟨c, cs, hfits⟩ | _ | _, as⟩, fits⟩ := s
  · exact ⟨by simp [pollRead, pollFillBuf, consume], suffix_refl _⟩
  · have hslice : (c :: cs).length ≤ cap := by
      simp only [Source.content, nil_append, flatMap_cons, bytes,
        length_append] at hcap
      omega
    refine ⟨?_, suffix_cons _ _⟩
    change (c :: cs).drop (min cap (c :: cs).length) = []
    rw [Nat.min_eq_right hslice, drop_length]
  · exact ⟨rfl, suffix_cons _ _⟩
  · exact ⟨rfl, suffix_cons _ _⟩
  all_goals
    refine ⟨?_, suffix_refl _⟩
    change (b :: bs).drop (min cap (b :: bs).length) = []
    rw [Nat.min_eq_right hle, drop_length]

/-- A read with room for a byte passes something, before the end of the stream. -/
theorem Unfailing.pollRead_passes (h : s.Unfailing) (cap : Nat) :
    (s.pollRead cap).2.events.length + min 1 cap ≤ s.events.length ∨ s.content = [] := by
  rcases hp : s.pollRead cap with ⟨_ | ⟨e | d⟩, s'⟩
  · have := congrArg length (pollRead_events.2 hp)
    simp only [length_cons] at this
    exact .inl (by dsimp only; omega)
  · exact absurd hp (h.pollRead_ne e)
  · have hlen := congrArg length (pollRead_events.1 hp)
    obtain ⟨hcont, -, hend⟩ := pollRead_ok hp
    simp only [length_append, length_map] at hlen
    cases d with
    | cons x d =>
      simp only [length_cons] at hlen
      exact .inl (by dsimp only; omega)
    | nil =>
      rcases Nat.eq_zero_or_pos cap with rfl | hcap
      · simp only [length_nil] at hlen
        exact .inl (by dsimp only; omega)
      · rw [← hcont, hend hcap rfl]
        exact .inr rfl

end Source

/-! ### Calls with buffers of given sizes -/

section

variable {ρ : Type} {poll : ρ → Nat → IoPoll Bytes × ρ}

/-- Every one of the calls is made in a state with `G`. -/
def CallsMeet (G : ρ → Nat → Prop) (poll : ρ → Nat → IoPoll Bytes × ρ) : List Nat → ρ → Prop
  | [], _ => True
  | cap :: caps, r => G r cap ∧ CallsMeet G poll caps (poll r cap).2

/-- How many of the calls have room for a byte. -/
def useful (caps : List Nat) : Nat := caps.countP (0 < ·)

theorem callsMeet_true : ∀ (caps : List Nat) (r : ρ), CallsMeet (fun _ _ => True) poll caps r
  | [], _ => trivial
  | _ :: caps, _ => ⟨trivial, callsMeet_true caps _⟩

/-- What each call keeps holds behind all of them. -/
theorem readWith_inv {I : ρ → Prop} {C : Nat → Prop} (hcall : ∀ {r cap a r'}, C cap → I r →
    poll r cap = (a, r') → (∀ e, a ≠ .ready (.error e)) → I r') :
    ∀ {caps : List Nat} {d d' : Bytes} {r r' : ρ}, (∀ cap ∈ caps, C cap) → I r →
      readWith poll caps d r = some (d', r') → I r'
  | [], _, _, _, _, _, hI, h => by
    simp only [readWith, Option.some.injEq, Prod.mk.injEq] at h
    rwa [← h.2]
  | cap :: caps, d, d', r, r', hC, hI, h => by
    have hcap := hC cap mem_cons_self
    have hcaps := fun x hx => hC x (mem_cons_of_mem cap hx)
    unfold readWith at h
    split at h
    case h_1 x r₁ hp | h_2 r₁ hp => exact readWith_inv hcall hcaps (hcall hcap hI hp (by simp)) h
    case h_3 => cases h

/-- What a call owes that delivers `d` in all: it does not fail, keeps `I`, and comes nearer to the end
    when there is room for a byte. -/
def CallTo (I : Bytes → ρ → Prop) (ended : ρ → Prop) (m : ρ → Nat) (d : Bytes) (r : ρ) (cap : Nat) :
    IoPoll Bytes × ρ → Prop
  | (.ready (.error _), _) => False
  | (.ready (.ok x), r') => I (d ++ x) r' ∧ (ended r' ∨ (¬ ended r ∧ m r' + min 1 cap ≤ m r))
  | (.pending, r') => I d r' ∧ (ended r' ∨ (¬ ended r ∧ m r' + min 1 cap ≤ m r))

/-- Calls that are all met end the text, if there are enough of them. -/
theorem readWith_total {I : Bytes → ρ → Prop} {ended : ρ → Prop} {m : ρ → Nat} {G : ρ → Nat → Prop}
    (hcall : ∀ {d r cap}, I d r → G r cap → CallTo I ended m d r cap (poll r cap)) :
    ∀ {caps : List Nat} {d : Bytes} {r : ρ}, I d r → CallsMeet G poll caps r →
      ∃ d' r', readWith poll caps d r = some (d', r') ∧ I d' r' ∧
        (ended r ∨ m r < useful caps → ended r')
  | [], d, r, hI, _ => ⟨d, r, rfl, hI, fun h => h.resolve_right (by simp [useful])⟩
  | cap :: caps, d, r, hI, hmeet => by
    obtain ⟨hG, hmeet⟩ := hmeet
    have hnext := hcall hI hG
    have hcount : useful (cap :: caps) = useful caps + min 1 cap := by
      rw [useful, countP_cons, useful]
      by_cases hcap : 0 < cap
      · simp [hcap]; omega
      · obtain rfl : cap = 0 := by omega
        simp
    have hmore : ∀ {r' r'' : ρ}, (ended r' ∨ (¬ ended r ∧ m r' + min 1 cap ≤ m r)) →
        (ended r' ∨ m r' < useful caps → ended r'') →
        (ended r ∨ m r < useful (cap :: caps)) → ended r'' := by
      intro r' r'' hstep hlater hr
      refine hlater ?_
      rcases hstep with hend | ⟨hnot, hle⟩
      · exact .inl hend
      · refine .inr ?_
        have hlt := hr.resolve_left hnot
        omega
    unfold readWith
    split
    case h_1 x r₁ hp | h_2 r₁ hp =>
      rw [hp] at hnext hmeet
      obtain ⟨d', r', hread, hI', hend⟩ := readWith_total hcall hnext.1 hmeet
      exact ⟨d', r', hread, hI', hmore hnext.2 hend⟩
    case h_3 e r₁ hp =>
      rw [hp] at hnext
      exact hnext.elim

end

end Vey.Schemes

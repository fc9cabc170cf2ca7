import Vey.Schemes.Poll

/-! Readers of exactly `n` bytes of a stream.

        d = what was delivered      the stream
        [ b b b ]                   [ b b | b b b b ... ]
                                         ^ n

    Such a reader hands over the first `n` bytes as they come, then says that it is at its end, and
    leaves the rest of the stream alone. -/

namespace Vey.Schemes

open List

/-! ### Streams with enough bytes -/

theorem length_bytesOf_le (es : List Event) : (bytesOf es).length ≤ es.length :=
  length_filterMap_le _ _

/-- The events up to the `n`-th byte. -/
theorem exists_bytesOf_length : ∀ {es : List Event} {n : Nat}, n ≤ (bytesOf es).length →
    ∃ pre post, es = pre ++ post ∧ (bytesOf pre).length = n := by
  intro es
  induction es with
  | nil =>
    intro n hn
    exact ⟨[], [], rfl, (Nat.le_zero.mp hn).symm⟩
  | cons e es ih =>
    intro n hn
    rw [← singleton_append, bytesOf_append, length_append] at hn
    rcases Nat.lt_or_ge n (bytesOf [e]).length with hlt | hge
    · have hone : (bytesOf [e]).length ≤ 1 := length_bytesOf_le [e]
      exact ⟨[], e :: es, rfl, (Nat.lt_one_iff.mp (hlt.trans_le hone)).symm⟩
    · obtain ⟨pre, post, rfl, hlen⟩ := @ih (n - (bytesOf [e]).length) (by omega)
      refine ⟨e :: pre, post, rfl, ?_⟩
      rw [← singleton_append, bytesOf_append, length_append]
      omega

/-- Bytes in front of a list of events that has as many. -/
theorem append_eq_map_byte {pre post rest : List Event} {x : Bytes}
    (h : pre ++ post = x.map .byte ++ rest) (hle : x.length ≤ (bytesOf pre).length) :
    pre = x.map .byte ++ pre.drop x.length ∧ pre.drop x.length ++ post = rest := by
  have hlen : x.length ≤ pre.length := hle.trans (length_bytesOf_le pre)
  have htake : pre.take x.length = x.map .byte := by
    have := congrArg (take x.length) h
    rwa [take_append_of_le_length hlen, take_left' (length_map _)] at this
  have hsplit : pre = x.map .byte ++ pre.drop x.length := by
    rw [← htake, take_append_drop]
  refine ⟨hsplit, ?_⟩
  rw [hsplit, append_assoc] at h
  exact append_cancel_left h

namespace Source

/-- The stream brings `n` bytes before it fails. -/
def Holds (s : Source) (n : Nat) : Prop :=
  ∃ pre post, s.events = pre ++ post ∧ (bytesOf pre).length = n ∧ ∀ e, .fail e ∉ pre

variable {s s' : Source} {n cap : Nat}

theorem Holds.le_content (h : s.Holds n) : n ≤ s.content.length := by
  obtain ⟨pre, post, hevents, hlen, -⟩ := h
  rw [← bytesOf_events, hevents, bytesOf_append, length_append]
  omega

theorem pollRead_error_events {e : IoError} (h : s.pollRead cap = (.ready (.error e), s')) :
    .fail e :: s'.events = s.events := by
  obtain ⟨buffered, arrivals, fits⟩ := s
  rcases buffered with _ | ⟨b, bs⟩
  · rcases arrivals with _ | ⟨⟨b, bs, fits⟩ | _ | e, as⟩
    all_goals cases h
    rfl
  · cases h

/-- An empty read is the end of the stream. -/
theorem pollRead_end (h : s.pollRead cap = (.ready (.ok []), s')) (hcap : 0 < cap) :
    s.events = [] := by
  obtain ⟨buffered, arrivals, fits⟩ := s
  obtain ⟨cap, rfl⟩ := Nat.exists_eq_succ_of_ne_zero hcap.ne'
  rcases buffered with _ | ⟨b, bs⟩
  · rcases arrivals with _ | ⟨⟨b, bs, fits⟩ | _ | e, as⟩
    · rfl
    all_goals cases h
  · cases h

/-- A read of a stream that brings more bytes stalls or brings some of them. -/
theorem Holds.pollRead (h : s.Holds n) (hn : 0 < n) (hcap : 0 < cap) :
    (∃ s', s.pollRead cap = (.pending, s') ∧ .stall :: s'.events = s.events ∧ s'.Holds n) ∨
    ∃ x s', s.pollRead cap = (.ready (.ok x), s') ∧ x ≠ [] ∧ x.length ≤ cap ∧
      x.map .byte ++ s'.events = s.events ∧ (x.length ≤ n → s'.Holds (n - x.length)) := by
  obtain ⟨pre, post, hevents, hlen, hfail⟩ := h
  rcases hp : s.pollRead cap with ⟨_ | ⟨e | x⟩, s'⟩
  · left
    have hstall := pollRead_events.2 hp
    refine ⟨s', rfl, hstall, ?_⟩
    cases pre with
    | nil => exact absurd hlen.symm hn.ne'
    | cons ev pre =>
      rw [hevents, cons_append] at hstall
      obtain ⟨rfl, hrest⟩ := cons.inj hstall
      exact ⟨pre, post, hrest, hlen, fun e he => hfail e (mem_cons_of_mem _ he)⟩
  · exfalso
    have hev := pollRead_error_events hp
    cases pre with
    | nil => exact absurd hlen.symm hn.ne'
    | cons ev pre =>
      rw [hevents, cons_append] at hev
      exact hfail e ((cons.inj hev).1 ▸ mem_cons_self)
  · right
    obtain ⟨hcont, hle, hend⟩ := pollRead_ok hp
    have hbytes := pollRead_events.1 hp
    refine ⟨x, s', rfl, fun hx => ?_, hle, hbytes, fun hxn => ?_⟩
    · subst hx
      have hall : s.content = [] := by rw [← hcont, hend hcap rfl]; rfl
      have hmore := Holds.le_content ⟨pre, post, hevents, hlen, hfail⟩
      rw [hall, length_nil] at hmore
      omega
    · obtain ⟨hpre, hpost⟩ := append_eq_map_byte (hevents.symm.trans hbytes.symm) (by omega)
      refine ⟨pre.drop x.length, post, hpost.symm, ?_, fun e he => hfail e (mem_of_mem_drop he)⟩
      rw [hpre, bytesOf_append, bytesOf_map_byte, length_append] at hlen
      omega

end Source

/-! ### Reading them -/

section

variable {ρ : Type}

/-- Whatever the sizes of the caller's buffers, `poll` hands over the first `n` bytes of `s`, then
    answers with the end, and takes no other byte. -/
structure ReadsExactly (poll : ρ → Nat → IoPoll Bytes × ρ) (stream : ρ → Source)
    (finished : ρ → Bool) (n : Nat) (s : Source) (r₀ : ρ) : Prop where
  reads : ∀ caps : List Nat, (∀ c ∈ caps, 0 < c) → ∃ d r, readWith poll caps [] r₀ = some (d, r) ∧
    d.length ≤ n ∧ d ++ (stream r).content = s.content ∧ (finished r = true → d.length = n)
  total : ∀ caps : List Nat, (∀ c ∈ caps, 0 < c) → s.events.length ≤ caps.length →
    ∃ d r, readWith poll caps [] r₀ = some (d, r) ∧ d.length = n
  ends : ∀ caps : List Nat, (∀ c ∈ caps, 0 < c) → ∀ d r, readWith poll caps [] r₀ = some (d, r) →
    d.length = n → ∀ cap, 0 < cap → ∃ r', poll r cap = (.ready (.ok []), r') ∧
      stream r' = stream r ∧ finished r' = true

variable (poll : ρ → Nat → IoPoll Bytes × ρ) {stream : ρ → Source} {finished : ρ → Bool} {n : Nat}
  {s : Source} {r₀ : ρ} {I : Bytes → ρ → Prop}

/-- One poll of a reader that has delivered `d`: there is more, and a stall or some bytes come. -/
def Brings (stream : ρ → Source) (I : Bytes → ρ → Prop)
    (d : Bytes) (r : ρ) (cap : Nat) : Prop :=
  (∃ r', poll r cap = (.pending, r') ∧ I d r' ∧ .stall :: (stream r').events = (stream r).events) ∨
  ∃ x r', poll r cap = (.ready (.ok x), r') ∧ x ≠ [] ∧ I (d ++ x) r' ∧
    x.map .byte ++ (stream r').events = (stream r).events

/-- One poll of a reader that has delivered all. -/
def Ends (stream : ρ → Source) (finished : ρ → Bool)
    (I : Bytes → ρ → Prop) (d : Bytes) (r : ρ) (cap : Nat) : Prop :=
  ∃ r', poll r cap = (.ready (.ok []), r') ∧ I d r' ∧ stream r' = stream r ∧ finished r' = true

variable {poll}

/-- A run of reads keeps the invariant and what was delivered, and every read before the end takes
    something. -/
theorem readWith_brings
    (hmore : ∀ {d r cap}, I d r → d.length < n → 0 < cap → Brings poll stream I d r cap)
    (hend : ∀ {d r cap}, I d r → d.length = n → 0 < cap → Ends poll stream finished I d r cap)
    (hle : ∀ {d r}, I d r → d.length ≤ n) (caps : List Nat) :
    (∀ c ∈ caps, 0 < c) → ∀ {d r}, I d r → ∃ d' r', readWith poll caps d r = some (d', r') ∧
      I d' r' ∧ d.length ≤ d'.length ∧ (d'.length = n ∨
        (stream r').events.length + caps.length ≤ (stream r).events.length) := by
  induction caps with
  | nil => exact fun _ d r hI => ⟨d, r, rfl, hI, le_rfl, .inr le_rfl⟩
  | cons cap caps ih =>
    intro hpos d r hI
    have hcap := hpos cap mem_cons_self
    have hrest : ∀ c ∈ caps, 0 < c := fun c hc => hpos c (mem_cons_of_mem _ hc)
    rcases (hle hI).lt_or_eq with hlt | heq
    · rcases hmore hI hlt hcap with ⟨r', hp, hI', hev⟩ | ⟨x, r', hp, hx, hI', hev⟩
      · obtain ⟨d', r'', hread, hI'', hgrow, hcase⟩ := ih hrest hI'
        refine ⟨d', r'', by rw [readWith, hp]; exact hread, hI'', hgrow,
          hcase.imp_right fun hless => ?_⟩
        rw [← hev, length_cons, length_cons]
        omega
      · obtain ⟨d', r'', hread, hI'', hgrow, hcase⟩ := ih hrest hI'
        rw [length_append] at hgrow
        refine ⟨d', r'', by rw [readWith, hp]; exact hread, hI'', by omega,
          hcase.imp_right fun hless => ?_⟩
        have := length_pos_iff.mpr hx
        rw [← hev, length_append, length_map, length_cons]
        omega
    · obtain ⟨r', hp, hI', -, -⟩ := hend hI heq hcap
      obtain ⟨d', r'', hread, hI'', hgrow, -⟩ := ih hrest hI'
      refine ⟨d', r'', ?_, hI'', hgrow, .inl ((hle hI'').antisymm (heq ▸ hgrow))⟩
      rw [readWith, hp]
      exact (congrArg (readWith poll caps · r') (append_nil d)).trans hread

/-- The rule: an invariant under which a reader brings the bytes up to the `n`-th and then ends. -/
theorem readsExactly_of_inv (hstart : I [] r₀) (hstream : stream r₀ = s) (hn : n ≤ s.content.length)
    (hle : ∀ {d r}, I d r → d.length ≤ n)
    (hok : ∀ {d r}, I d r → d ++ (stream r).content = s.content ∧ (finished r = true → d.length = n))
    (hmore : ∀ {d r cap}, I d r → d.length < n → 0 < cap → Brings poll stream I d r cap)
    (hend : ∀ {d r cap}, I d r → d.length = n → 0 < cap → Ends poll stream finished I d r cap) :
    ReadsExactly poll stream finished n s r₀ where
  reads := by
    intro caps hpos
    obtain ⟨d, r, hread, hI, -, -⟩ := readWith_brings hmore hend hle caps hpos hstart
    exact ⟨d, r, hread, hle hI, hok hI⟩
  total := by
    intro caps hpos hlong
    obtain ⟨d, r, hread, hI, -, hcase⟩ := readWith_brings hmore hend hle caps hpos hstart
    refine ⟨d, r, hread, hcase.elim id fun hless => ?_⟩
    -- the whole script is used up, so all of the stream was delivered
    rw [hstream] at hless
    have hnil : (stream r).content = [] := by
      rw [← Source.bytesOf_events, length_eq_zero_iff.mp (by omega : (stream r).events.length = 0)]
      rfl
    have hall := (hok hI).1
    rw [hnil, append_nil] at hall
    exact (hle hI).antisymm (hall ▸ hn)
  ends := by
    intro caps hpos d r hread hlen cap hcap
    obtain ⟨d', r', hread', hI, -, -⟩ := readWith_brings hmore hend hle caps hpos hstart
    obtain ⟨rfl, rfl⟩ := Prod.mk.inj (Option.some.inj (hread.symm.trans hread'))
    obtain ⟨r', hp, -, hsame, hfin⟩ := hend hI hlen hcap
    exact ⟨r', hp, hsame, hfin⟩

end

end Vey.Schemes

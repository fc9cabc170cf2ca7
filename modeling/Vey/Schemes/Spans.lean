import Mathlib

/-! Spans of positions, and the prefix that they cover.

        front
        |-------------|   [--]
                   [----]        [---]       kept in the order of their offsets
        |---------------|               -->  absorbed into the prefix
                        |    [--]    [---]   still behind a gap

    One pass in this order is enough: a span behind a gap has only spans behind the gap after it. -/

namespace Vey.Schemes

open List

/-- The positions from `offset` on. -/
structure Span where
  offset : Nat
  length : Nat
  deriving DecidableEq

variable {i : Nat} {s : Span}

namespace Span

def stop (s : Span) : Nat := s.offset + s.length

instance : Membership Nat Span := ⟨fun s i => s.offset ≤ i ∧ i < s.stop⟩

theorem mem_def : i ∈ s ↔ s.offset ≤ i ∧ i < s.stop := Iff.rfl

theorem mem_mk {o l i : Nat} : i ∈ (⟨o, l⟩ : Span) ↔ o ≤ i ∧ i < o + l := Iff.rfl

def key (s : Span) : Nat ×ₗ Nat := toLex (s.offset, s.length)

theorem key_injective : Function.Injective key := by
  rintro ⟨o, l⟩ ⟨o', l'⟩ h
  obtain ⟨rfl, rfl⟩ := Prod.mk.inj (toLex.injective h)
  rfl

/-- By the offset, then by the length. -/
instance : LinearOrder Span := LinearOrder.lift' key key_injective

theorem offset_le {s t : Span} (h : s ≤ t) : s.offset ≤ t.offset := Prod.Lex.monotone_fst _ _ h

end Span

/-- In one of the spans. -/
def Covered (l : List Span) (i : Nat) : Prop := ∃ s ∈ l, i ∈ s

instance (l : List Span) (i : Nat) : Decidable (Covered l i) :=
  inferInstanceAs (Decidable (∃ s ∈ l, s.offset ≤ i ∧ i < s.stop))

@[simp] theorem covered_nil (i : Nat) : ¬Covered [] i := by simp [Covered]

variable {l : List Span}

theorem covered_cons : Covered (s :: l) i ↔ i ∈ s ∨ Covered l i := by
  simp [Covered]

theorem covered_concat : Covered (l ++ [s]) i ↔ Covered l i ∨ i ∈ s := by
  simp [Covered, or_and_right, exists_or]

/-! ### The pass -/

/-- Absorb the spans that start in the prefix, and keep the others. -/
def sweep (front : Nat) : List Span → Nat × List Span
  | [] => (front, [])
  | s :: l =>
    if front < s.offset then ((sweep front l).1, s :: (sweep front l).2)
    else sweep (if front < s.stop then s.stop else front) l

theorem le_sweep (front : Nat) (l : List Span) : front ≤ (sweep front l).1 := by
  induction l generalizing front with
  | nil => exact Nat.le_refl _
  | cons s l ih =>
    rw [sweep]
    split
    case isTrue => exact ih front
    case isFalse =>
      refine Nat.le_trans ?_ (ih _)
      split <;> omega

theorem sweep_sublist (front : Nat) (l : List Span) : (sweep front l).2.Sublist l := by
  induction l generalizing front with
  | nil => exact Sublist.slnil
  | cons s l ih =>
    rw [sweep]
    split
    case isTrue => exact (ih front).cons_cons s
    case isFalse => exact (ih _).cons s

theorem sweep_le {front n : Nat} (hfront : front ≤ n)
    (hl : ∀ s ∈ l, s.stop ≤ n) : (sweep front l).1 ≤ n := by
  induction l generalizing front with
  | nil => exact hfront
  | cons s l ih =>
    obtain ⟨hs, hl⟩ := forall_mem_cons.mp hl
    rw [sweep]
    split
    case isTrue => exact ih hfront hl
    case isFalse =>
      refine ih ?_ hl
      split
      · exact hs
      · exact hfront

/-- No position is lost, and none is gained. -/
theorem sweep_covered {front : Nat} :
    i < (sweep front l).1 ∨ Covered (sweep front l).2 i ↔ i < front ∨ Covered l i := by
  induction l generalizing front with
  | nil => exact Iff.rfl
  | cons s l ih =>
    rw [sweep]
    split
    case isTrue =>
      rw [covered_cons, covered_cons, or_left_comm, ih, or_left_comm]
    case isFalse hle =>
      have hjoin : i < (if front < s.stop then s.stop else front) ↔ i < front ∨ i ∈ s := by
        rw [Span.mem_def]
        split <;> omega
      rw [ih, hjoin, covered_cons, or_assoc]

/-- Nothing is absorbed where every span is behind a gap. -/
theorem sweep_of_beyond {front : Nat} (h : ∀ s ∈ l, front < s.offset) :
    sweep front l = (front, l) := by
  induction l with
  | nil => rfl
  | cons s l ih =>
    obtain ⟨hs, hl⟩ := forall_mem_cons.mp h
    rw [sweep, if_pos hs, ih hl]

/-- What is kept of an ordered list is behind a gap. -/
theorem sweep_beyond {front : Nat} (hsorted : l.Pairwise (· ≤ ·)) :
    ∀ s ∈ (sweep front l).2, (sweep front l).1 < s.offset := by
  induction l generalizing front with
  | nil => exact fun s hs => absurd hs not_mem_nil
  | cons s l ih =>
    obtain ⟨hs, hl⟩ := pairwise_cons.mp hsorted
    rw [sweep]
    split
    case isFalse => exact ih hl
    case isTrue hlt =>
      -- The rest starts behind the gap as well.
      have hrest : ∀ t ∈ l, front < t.offset :=
        fun t ht => Nat.lt_of_lt_of_le hlt (Span.offset_le (hs t ht))
      rw [sweep_of_beyond hrest]
      exact forall_mem_cons.mpr ⟨hlt, hrest⟩

/-! ### Ordered sets of spans -/

structure SpanSet where
  spans : List Span
  sorted : spans.Pairwise (· ≤ ·)

namespace SpanSet

def empty : SpanSet := ⟨[], .nil⟩

def insert (set : SpanSet) (s : Span) : SpanSet where
  spans := if s ∈ set.spans then set.spans else set.spans.orderedInsert (· ≤ ·) s
  sorted := by
    split
    · exact set.sorted
    · exact set.sorted.orderedInsert s _

theorem mem_insert {set : SpanSet} {s t : Span} :
    t ∈ (set.insert s).spans ↔ t = s ∨ t ∈ set.spans := by
  rw [insert]
  split
  case isTrue hmem => exact (or_iff_right_of_imp fun h => h ▸ hmem).symm
  case isFalse => exact mem_orderedInsert _

theorem covered_insert {set : SpanSet} :
    Covered (set.insert s).spans i ↔ i ∈ s ∨ Covered set.spans i := by
  simp [Covered, mem_insert]

/-- The set behind a pass. -/
def afterSweep (set : SpanSet) (front : Nat) : SpanSet where
  spans := (sweep front set.spans).2
  sorted := set.sorted.sublist (sweep_sublist front set.spans)

end SpanSet

end Vey.Schemes

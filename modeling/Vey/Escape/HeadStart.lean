import Vey.Escape.DirectFixed

/-! The order in which `merge_list` lets the two address families be tried.

        k = 1, three left of the first family, two new       T T T      F F
        insert at 1, then at 3                               T F T F T
        tried from the end                                   T F T F T

    The position of the first insertion counts from the front and the list is used up from the end:
    the head start of the first family is what is left over behind the insertions. -/

namespace Vey.Escape

open List

variable {α : Type}

/-- No two neighbours are of one family while the other family is not used up. -/
def Alternates : List Bool → Prop
  | a :: b :: w => (a = b → ∀ x ∈ w, x = a) ∧ Alternates (b :: w)
  | _ => True

/-- At least `k` attempts of the first family, or all of them, come before one of the second; from
    there on the families alternate. -/
def HeadStart (k : Nat) (attempts : List Bool) : Prop :=
  min k (attempts.count true) ≤ (attempts.takeWhile id).length ∧ Alternates (attempts.dropWhile id)

/-- The insertions into `r` addresses of the first family: one before each of them. -/
def weave : Nat → Nat → List Bool
  | 0, n => .replicate n false
  | r, 0 => .replicate r true
  | r + 1, n + 1 => false :: true :: weave r n

/-- `n` times an address of each family, the first one before the second. -/
def pairs (n : Nat) : List Bool := (List.replicate n [true, false]).flatten

theorem interleave_append {new : List α} : ∀ {id : Nat} {ips : List α}, ips.length ≤ id →
    interleave id ips new = ips ++ new := by
  induction new with
  | nil => simp [interleave]
  | cons ip new ih =>
    intro id ips h
    rw [interleave, if_neg (by omega), ih (by simp; omega), append_assoc, singleton_append]

theorem interleave_weave (n : Nat) : ∀ (p : List Bool) (r : Nat),
    interleave p.length (p ++ .replicate r true) (.replicate n false) = p ++ weave r n := by
  induction n with
  | zero => intro p r; cases r <;> simp [interleave, weave]
  | succ n ih =>
    intro p r
    cases r with
    | zero => rw [replicate_zero, append_nil, interleave_append le_rfl, weave]
    | succ r =>
      have hins : (p ++ .replicate (r + 1) true).insertIdx p.length false =
          p ++ [false, true] ++ .replicate r true := by
        clear ih
        induction p with
        | nil => rfl
        | cons b p ih => simpa using ih
      rw [replicate_succ (n := n), interleave, if_pos (by simp), hins]
      simpa [weave] using ih (p ++ [false, true]) r

theorem pairs_succ (n : Nat) : pairs (n + 1) = pairs n ++ [true, false] := by
  rw [pairs, replicate_succ', flatten_append, flatten_singleton, pairs]

theorem weave_reverse (r n : Nat) :
    (weave r n).reverse = .replicate (r - n) true ++ .replicate (n - r) false ++ pairs (min r n) := by
  induction r generalizing n with
  | zero => simp [weave, pairs]
  | succ r ih =>
    cases n with
    | zero => simp [weave, pairs]
    | succ n => simp [weave, ih, pairs_succ]

theorem interleave_map {β : Type} (f : α → β) {new : List α} : ∀ {id : Nat} {ips : List α},
    (interleave id ips new).map f = interleave id (ips.map f) (new.map f) := by
  induction new with
  | nil => intro id ips; rfl
  | cons ip new ih =>
    intro id ips
    rw [map_cons, interleave, interleave, length_map]
    split
    · rw [ih, map_insertIdx]
    · rw [ih, map_append, map_singleton]

/-- The families of the attempts, for lists without an address that is deferred. -/
theorem mergeList_attempts {first defer : α → Bool} {c t : Nat} {ips new : List α}
    (hips : ∀ x ∈ ips, first x = true) (hnew : ∀ x ∈ new, first x = false)
    (hdefer : ∀ x ∈ ips ++ new, defer x = false) :
    ((mergeList c t ips new defer).reverse.map first) =
      .replicate (ips.length - (c - t) - new.length) true ++
      .replicate (new.length - (ips.length - (c - t))) false ++
      pairs (min (ips.length - (c - t)) new.length) ++ .replicate (min (c - t) ips.length) true := by
  have hmerge : mergeList c t ips new defer = interleave (c - t) ips new := by
    have hnone : ∀ x ∈ interleave (c - t) ips new, defer x = false := fun x hx =>
      hdefer x (mem_append.mpr (mem_of_mem_interleave hx))
    rw [mergeList]
    split
    · rfl
    · rw [filter_eq_nil_iff.mpr fun x hx => by simp [hnone x hx],
        filter_eq_self.mpr fun x hx => by simp [hnone x hx], nil_append]
  rw [hmerge, map_reverse, interleave_map, map_eq_replicate_iff.mpr hips,
    map_eq_replicate_iff.mpr hnew]
  rcases Nat.le_total (c - t) ips.length with hle | hle
  · have hsplit := replicate_append_replicate (n := c - t) (m := ips.length - (c - t)) (a := true)
    have := interleave_weave new.length (.replicate (c - t) true) (ips.length - (c - t))
    rw [hsplit, length_replicate, Nat.add_sub_cancel' hle] at this
    rw [this, reverse_append, weave_reverse, reverse_replicate, Nat.min_eq_left hle]
  · rw [interleave_append (by simpa using hle), Nat.sub_eq_zero_of_le hle]
    simp [pairs, hle]

theorem alternates_replicate (n : Nat) (a : Bool) : Alternates (.replicate n a) := by
  induction n with
  | zero => trivial
  | succ n ih =>
    cases n with
    | zero => trivial
    | succ n => exact ⟨fun _ x hx => eq_of_mem_replicate hx, ih⟩

/-- From a first attempt of the second family on, pairs alternate. -/
theorem alternates_pairs (n k : Nat) : Alternates (false :: (pairs n ++ .replicate k true)) := by
  induction n with
  | zero =>
    cases k with
    | zero => trivial
    | succ k => exact ⟨nofun, alternates_replicate (k + 1) true⟩
  | succ n ih => exact ⟨nofun, nofun, ih⟩

theorem headStart_cons (k a : Nat) (w : List Bool) :
    HeadStart k (.replicate a true ++ false :: w) ↔
      min k (a + w.count true) ≤ a ∧ Alternates (false :: w) := by
  simp [HeadStart, takeWhile_append_of_pos, dropWhile_append_of_pos]

@[simp] theorem count_pairs (n : Nat) : (pairs n).count true = n := by
  induction n with
  | zero => rfl
  | succ n ih => simp [pairs_succ, ih]

/-- The first family has its head start just when the addresses behind the insertions are enough
    for it. -/
theorem mergeList_headStart_iff {first defer : α → Bool} {c t : Nat} {ips new : List α}
    (hips : ∀ x ∈ ips, first x = true) (hnew : ∀ x ∈ new, first x = false)
    (hdefer : ∀ x ∈ ips ++ new, defer x = false) :
    HeadStart (c - t) ((mergeList c t ips new defer).reverse.map first) ↔
      new = [] ∨ ips = [] ∨ 2 * (c - t) + new.length ≤ ips.length + 1 := by
  rw [mergeList_attempts hips hnew hdefer, ← length_eq_zero_iff, ← length_eq_zero_iff]
  generalize c - t = k, ips.length = m, new.length = n
  rcases Nat.lt_or_ge (m - k) n with hlt | hge
  · -- more insertions than addresses to put them before: an attempt of the second family comes first
    obtain ⟨b, rfl⟩ := Nat.exists_eq_add_of_lt hlt
    rw [Nat.sub_eq_zero_of_le hlt.le, Nat.min_eq_left hlt.le,
      show m - k + b + 1 - (m - k) = b + 1 by omega, replicate_succ]
    simp only [cons_append, append_assoc]
    rw [headStart_cons]
    have hcount : (replicate b false ++ (pairs (m - k) ++ .replicate (min k m) true)).count true =
        m := by
      simp [count_replicate]
      omega
    rw [Nat.zero_add, hcount]
    constructor
    · rintro ⟨hmin, halt⟩
      cases b with
      | zero => omega
      | succ b =>
        have hzero := count_eq_zero.mpr fun hmem => nomatch halt.1 rfl true hmem
        rw [replicate_succ, cons_append, count_cons] at hcount
        exact .inr (.inl (hcount.symm.trans (congrArg (· + 0) hzero)))
    · intro h
      refine ⟨by omega, ?_⟩
      rcases Nat.eq_zero_or_pos m with rfl | hm
      · simpa [pairs, replicate_succ] using alternates_replicate (b + 1) false
      · obtain rfl : b = 0 := by omega
        exact alternates_pairs _ _
  · rw [Nat.sub_eq_zero_of_le hge, Nat.min_eq_right hge, replicate_zero, append_nil]
    cases n with
    | zero => simp [pairs, HeadStart, Alternates]
    | succ n =>
      have hpairs : pairs (n + 1) = [true] ++ false :: pairs n := rfl
      rw [hpairs, ← append_assoc, append_assoc _ _ (.replicate _ _), ← replicate_succ',
        cons_append, headStart_cons]
      simp only [alternates_pairs, count_append, count_pairs, count_replicate_self, and_true]
      omega

/-- Of two attempts for the first family one was made, and two of the second come next. -/
theorem mergeList_no_head_start :
    ¬HeadStart (2 - 1) ((mergeList 2 1 [0] [1, 2] fun _ => false).reverse.map (· = 0)) := by
  rintro ⟨h, -⟩
  exact absurd h (by decide)

theorem mergeList_headStart_three :
    HeadStart (2 - 1) ((mergeList 2 1 [0, 2, 4] [1, 3] fun _ => false).reverse.map (· % 2 = 0)) :=
  (mergeList_headStart_iff (by decide) (by decide) (by decide)).mpr (by decide)

end Vey.Escape

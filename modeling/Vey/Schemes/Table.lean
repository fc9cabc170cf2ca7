import Mathlib

/-! Hash maps.

    A table has at most one value for a key, and its entries have no order that means anything. This is
    an association list of Mathlib; the lookups behind each operation are given for all keys at once. -/

namespace Vey.Schemes

open List

abbrev Table (κ ν : Type) := AList (fun _ : κ => ν)

namespace Table

variable {κ ν : Type} [DecidableEq κ] {t : Table κ ν} {a b : κ} {v : ν} {p : κ → ν → Bool}

theorem lookup_insert : (t.insert b v).lookup a = if a = b then some v else t.lookup a := by
  split
  case isTrue h =>
    subst h
    exact AList.lookup_insert t
  case isFalse h => exact AList.lookup_insert_ne h

theorem lookup_erase : (t.erase b).lookup a = if a = b then none else t.lookup a := by
  split
  case isTrue h =>
    subst h
    exact AList.lookup_erase a t
  case isFalse h => exact AList.lookup_erase_ne h

/-- Keep the entries with `p`. -/
def retain (p : κ → ν → Bool) (t : Table κ ν) : Table κ ν where
  entries := t.entries.filter fun e => p e.1 e.2
  nodupKeys := t.nodupKeys.sublist List.filter_sublist

/-- An entry with `p` is there. -/
def any (p : κ → ν → Bool) (t : Table κ ν) : Bool := t.entries.any fun e => p e.1 e.2

theorem lookup_eq_some : t.lookup a = some v ↔ ⟨a, v⟩ ∈ t.entries := AList.mem_lookup_iff

theorem any_iff : t.any p = true ↔ ∃ a v, t.lookup a = some v ∧ p a v = true := by
  rw [any, any_eq_true]
  constructor
  · rintro ⟨⟨a, v⟩, hmem, hp⟩
    exact ⟨a, v, lookup_eq_some.mpr hmem, hp⟩
  · rintro ⟨a, v, hlook, hp⟩
    exact ⟨⟨a, v⟩, lookup_eq_some.mp hlook, hp⟩

theorem lookup_retain : (t.retain p).lookup a = (t.lookup a).filter (p a) := by
  refine Option.ext fun v => ?_
  rw [lookup_eq_some, Option.filter_eq_some_iff, lookup_eq_some, retain, mem_filter]

/-! ### What the entries hold together -/

section

variable {β : Type} {f : κ → ν → Multiset β}

/-- The contents of all entries. -/
def tally (f : κ → ν → Multiset β) (t : Table κ ν) : Multiset β :=
  (t.entries.map fun e => f e.1 e.2).sum

theorem tally_insert : tally f (t.insert a v) = f a v + tally f (t.erase a) := by
  rw [tally, AList.entries_insert, map_cons, sum_cons]
  rfl

theorem tally_of_lookup (h : t.lookup a = some v) : tally f t = f a v + tally f (t.erase a) := by
  have hmem := lookup_eq_some.mp h
  obtain ⟨w, l₁, l₂, -, hl, hk⟩ := exists_of_kerase (mem_keys_of_mem hmem)
  have hw : w = v := by
    refine t.nodupKeys.eq_of_mk_mem ?_ hmem
    rw [hl]
    exact mem_append_right l₁ mem_cons_self
  have herase : (t.erase a).entries = l₁ ++ l₂ := hk
  rw [tally, tally, herase, hl, hw]
  simp only [map_append, map_cons, sum_append, sum_cons]
  exact add_left_comm _ _ _

/-- The values of a table. -/
def values (t : Table κ ν) : List ν := t.entries.map (·.2)

omit [DecidableEq κ] in
theorem tally_values (g : ν → β) :
    tally (fun _ v => ({g v} : Multiset β)) t = Multiset.ofList (t.values.map g) := by
  have hsum : ∀ l : List ((_ : κ) × ν), (l.map fun e => ({g e.2} : Multiset β)).sum =
      Multiset.ofList ((l.map (·.2)).map g) := by
    intro l
    induction l with
    | nil => rfl
    | cons e l ih => simp [ih, ← Multiset.cons_coe]
  exact hsum t.entries

theorem mem_tally {x : β} : x ∈ tally f t ↔ ∃ a v, t.lookup a = some v ∧ x ∈ f a v := by
  have hsum : ∀ l : List ((_ : κ) × ν), x ∈ (l.map fun e => f e.1 e.2).sum ↔
      ∃ e ∈ l, x ∈ f e.1 e.2 := by
    intro l
    induction l with
    | nil => simp
    | cons e l ih => simp [ih]
  rw [tally, hsum]
  constructor
  · rintro ⟨⟨a, v⟩, he, hx⟩
    exact ⟨a, v, lookup_eq_some.mpr he, hx⟩
  · rintro ⟨a, v, hlook, hx⟩
    exact ⟨⟨a, v⟩, lookup_eq_some.mp hlook, hx⟩

theorem erase_of_lookup (h : t.lookup a = none) : t.erase a = t := by
  refine AList.ext ?_
  exact kerase_of_notMem_keys (AList.lookup_eq_none.mp h)

end

end Table

end Vey.Schemes

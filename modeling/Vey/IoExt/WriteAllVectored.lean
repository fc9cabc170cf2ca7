import Vey.IoExt.Upload

/-! `WriteAllVectored`: write several slices, one behind the other.

        bufs   [ b0 ] [ b1 ] [ b2 ]
                        ^ bufs_skip = 1, current_offset into b1

    A vectored write offers the slices that are left and takes a part of their bytes. A slice that is
    empty is skipped together with one before it; at the very end it is offered alone, and the writer
    takes nothing of it. -/

namespace Vey.IoExt
open Schemes List

structure WriteAllVectored (ω : Type) where
  writer : ω
  bufs : List Bytes
  bufsSkip : Nat := 0
  currentOffset : Nat := 0
  totalOffset : Nat := 0

namespace WriteAllVectored

/-- `w_bufs`: the slices from the cursors on. -/
def wBufs (bufs : List Bytes) (bufsSkip currentOffset : Nat) : List Bytes :=
  match bufs.drop bufsSkip with
  | [] => []
  | b :: bs => b.drop currentOffset :: bs

/-- The cursors behind `nw` bytes of the slices. -/
def advance (bufsSkip currentOffset : Nat) : List Bytes → Nat → Nat × Nat
  | [], _ => (bufsSkip, currentOffset)
  | v :: vs, nw =>
    if v.length < nw then advance (bufsSkip + 1) 0 vs (nw - v.length)
    else if v.length = nw then (bufsSkip + 1, 0)
    else (bufsSkip, currentOffset + nw)

variable {ω : Type}

def left (s : WriteAllVectored ω) : List Bytes := wBufs s.bufs s.bufsSkip s.currentOffset

def wrote (s : WriteAllVectored ω) (nw : Nat) (w : ω) : WriteAllVectored ω :=
  { s with
    writer := w
    totalOffset := s.totalOffset + nw
    bufsSkip := (advance s.bufsSkip s.currentOffset s.left nw).1
    currentOffset := (advance s.bufsSkip s.currentOffset s.left nw).2 }

/-- One round of `write_all_vectored_internal`. -/
def poll [AsyncWrite ω] (s : WriteAllVectored ω) :
    Ctrl (WriteAllVectored ω) (Poll (Except IoError Nat)) :=
  if s.left = [] then .ret (.ready (.ok s.totalOffset)) s
  else writeStep s.writer s.left.flatten id writeZero (fun w => { s with writer := w }) s.wrote

def future (ω : Type) [AsyncWrite ω] : Future (WriteAllVectored ω) (Except IoError Nat) :=
  ⟨id, poll⟩

/-! ### Every byte once -/

/-- The slices behind a cursor that has just moved to the next one. -/
theorem wBufs_succ {bufs : List Bytes} {skip : Nat} {b : Bytes} {bs : List Bytes}
    (h : bufs.drop skip = b :: bs) : wBufs bufs (skip + 1) 0 = bs := by
  have hdrop : bufs.drop (skip + 1) = bs := by
    rw [← drop_drop, h]
    rfl
  rw [wBufs, hdrop]
  cases bs <;> rfl

/-- All slices, from the start. -/
theorem wBufs_zero (bufs : List Bytes) : wBufs bufs 0 0 = bufs := by
  cases bufs <;> rfl

variable {bufs vs : List Bytes}

theorem wBufs_cons {skip off : Nat} {v : Bytes}
    (h : wBufs bufs skip off = v :: vs) : ∃ b, bufs.drop skip = b :: vs ∧ v = b.drop off := by
  rw [wBufs] at h
  split at h
  · cases h
  next b bs hd =>
    cases h
    exact ⟨b, hd, rfl⟩

/-- The cursors move over exactly the bytes taken. -/
theorem wBufs_advance : ∀ {skip off nw : Nat},
    wBufs bufs skip off = vs → nw ≤ vs.flatten.length →
    (wBufs bufs (advance skip off vs nw).1 (advance skip off vs nw).2).flatten =
      vs.flatten.drop nw := by
  induction vs with
  | nil =>
    intro skip off nw h _
    rw [advance, h, flatten_nil, drop_nil]
  | cons v vs ih =>
    intro skip off nw h hle
    obtain ⟨b, hd, hv⟩ := wBufs_cons h
    rw [flatten_cons, length_append] at hle
    rw [advance, flatten_cons]
    split_ifs with hlt heq
    · rw [ih (wBufs_succ hd) (by omega), drop_append, drop_eq_nil_of_le hlt.le,
        nil_append]
    · rw [wBufs_succ hd, ← heq, drop_left]
    · have hpos : nw ≤ v.length := by omega
      rw [wBufs, hd, drop_append_of_le_length hpos, flatten_cons, hv, drop_drop]

/-- The last slice has bytes. -/
def EndsFull (vs : List Bytes) : Prop := ∀ v, vs.getLast? = some v → v ≠ []

theorem endsFull_concat (vs : List Bytes) {v : Bytes} (hv : v ≠ []) : EndsFull (vs ++ [v]) := by
  intro x hx
  rw [getLast?_concat] at hx
  exact Option.some.inj hx ▸ hv

theorem flatten_ne_nil (h : EndsFull vs) (hne : vs ≠ []) : vs.flatten ≠ [] := by
  intro hnil
  have hlast := getLast?_eq_some_getLast hne
  exact h _ hlast (flatten_eq_nil_iff.mp hnil _ (mem_of_getLast? hlast))

theorem endsFull_cons {v : Bytes} :
    EndsFull (v :: vs) ↔ if vs = [] then v ≠ [] else EndsFull vs := by
  cases vs with
  | nil => simp [EndsFull]
  | cons u us => simp [EndsFull, getLast?_cons_cons]

/-- The cursors do not move over an empty last slice. -/
theorem endsFull_advance : ∀ {skip off nw : Nat}, wBufs bufs skip off = vs → 0 < nw →
    nw ≤ vs.flatten.length →
    (EndsFull (wBufs bufs (advance skip off vs nw).1 (advance skip off vs nw).2) ↔ EndsFull vs) := by
  induction vs with
  | nil =>
    intro skip off nw _ hpos hle
    exact absurd hle (Nat.not_le_of_lt hpos)
  | cons v vs ih =>
    intro skip off nw h hpos hle
    obtain ⟨b, hd, hv⟩ := wBufs_cons h
    rw [flatten_cons, length_append] at hle
    rw [advance, endsFull_cons]
    split_ifs with hlt hnil heq hnil hnil
    · rw [hnil, flatten_nil, length_nil] at hle
      omega
    · exact ih (wBufs_succ hd) (by omega) (by omega)
    · have hne : v ≠ [] := ne_nil_of_length_pos (by omega)
      simp [wBufs_succ hd, hnil, EndsFull, hne]
    · rw [wBufs_succ hd]
    · have hrest : (b.drop (off + nw)).length = v.length - nw := by
        rw [hv, length_drop, length_drop, Nat.sub_sub]
      have hne : v ≠ [] ∧ b.drop (off + nw) ≠ [] :=
        ⟨ne_nil_of_length_pos (by omega), ne_nil_of_length_pos (by omega)⟩
      rw [wBufs, hd, endsFull_cons, if_pos hnil]
      exact iff_of_true hne.2 hne.1
    · rw [wBufs, hd, endsFull_cons, if_neg hnil]

section

variable {all : Bytes} {s : WriteAllVectored (Tapped ω)}

/-- Written and unwritten bytes are the same at every point, and at the end all is written. -/
theorem poll_ensures [AsyncWrite ω] (h : s.writer.log ++ s.left.flatten = all) :
    s.poll.Ensures (fun t => t.writer.log ++ t.left.flatten = all)
      fun _ t => t.writer.log = all := by
  rw [poll]
  split
  next hnil =>
    rw [hnil, flatten_nil, append_nil] at h
    exact h
  next =>
    refine writeStep_ensures (fun hlog => ?_) fun {n w} _ hle hlog => ?_
    · exact (congrArg (· ++ s.left.flatten) hlog).trans h
    · have hleft : (s.wrote n w).left.flatten = s.left.flatten.drop n := wBufs_advance rfl hle
      rw [hleft, wrote, hlog, append_assoc, take_append_drop, h]

theorem poll_lowers [FairWrite ω] (h : EndsFull s.left) :
    (future (Tapped ω)).Lowers
      (fun t => ⟨t.left.flatten.length, FairWrite.stalls t.writer, 0⟩) s s.poll := by
  rw [poll]
  split
  next => exact trivial
  next hne =>
    have hflat := flatten_ne_nil h hne
    refine Future.writeStep_lowers hflat (fun hless => ?_) fun {n w} hpos hle => ?_
    · exact .inr ⟨le_refl _, .inl hless⟩
    · left
      have hleft : (s.wrote n w).left.flatten = s.left.flatten.drop n := wBufs_advance rfl hle
      rw [hleft, length_drop]
      exact Nat.sub_lt (length_pos_iff.mpr hflat) hpos

theorem poll_endsFull [AsyncWrite ω] {s : WriteAllVectored ω} :
    EndsFull s.poll.state.left ↔ EndsFull s.left := by
  rw [poll]
  split
  · rfl
  · rw [writeStep]
    split
    case h_1 | h_2 | h_3 => rfl
    case h_4 n w hn hw =>
      exact endsFull_advance rfl (Nat.pos_of_ne_zero hn) (AsyncWrite.pollWrite_le hw)

theorem poll_ready [AsyncWrite ω] (s : WriteAllVectored ω) :
    s.poll.Ensures (fun _ => True) fun n t => t.left = [] ∧ n = t.totalOffset := by
  rw [poll]
  split
  next hnil => exact ⟨hnil, rfl⟩
  next =>
    rw [writeStep]
    split <;> exact trivial

/-- Slices of which the last is empty are never written without an error. -/
theorem poll_stuck [AsyncWrite ω] {s : WriteAllVectored ω} (h : ¬EndsFull s.left) :
    s.poll.Ensures (fun t => ¬EndsFull t.left) fun _ _ => False :=
  (s.poll_ready.and_state (mt poll_endsFull.mp h)).mono And.right fun hQ =>
    hQ.2 (by rw [hQ.1.1]; exact nofun)

/-- Slices of which the last has bytes are written in full. -/
theorem gives [FairWrite ω] (h : EndsFull s.left) :
    (future (Tapped ω)).Gives s fun _ t => t.writer.log = s.writer.log ++ s.left.flatten := by
  refine (Future.gives_of_lowers
    (I := fun t => t.writer.log ++ t.left.flatten = s.writer.log ++ s.left.flatten ∧
      EndsFull t.left) id (fun ht => (poll_ensures ht.1).and_state (poll_endsFull.mpr ht.2))
    (fun ht => poll_lowers ht.2) ⟨rfl, h⟩).mono ?_
  rintro n t ⟨hlog, -⟩
  exact hlog

/-- The same from the first poll. -/
theorem gives_new [FairWrite ω] {w : Tapped ω} (h : EndsFull bufs) :
    (future (Tapped ω)).Gives ⟨w, bufs, 0, 0, 0⟩ fun _ t =>
      t.writer.log = w.log ++ bufs.flatten := by
  have hstart : (mk w bufs 0 0 0).left = bufs := wBufs_zero bufs
  have hgives := gives (s := ⟨w, bufs, 0, 0, 0⟩) (by rwa [hstart])
  rwa [hstart] at hgives

/-- The result counts what was written. -/
theorem poll_total [AsyncWrite ω] {base : Nat} (h : base + s.totalOffset = s.writer.log.length) :
    s.poll.Ensures (fun t => base + t.totalOffset = t.writer.log.length)
      fun n t => base + n = t.writer.log.length := by
  rw [poll]
  split
  next => exact h
  next =>
    refine writeStep_ensures (fun hlog => (congrArg length hlog).symm ▸ h) fun {n w} _ hle hlog => ?_
    rw [wrote, hlog, length_append, length_take, Nat.min_eq_left hle, ← h, Nat.add_assoc]

/-- The slices are written in full just when there are none or the last has bytes. -/
theorem writes_all_iff [FairWrite ω] (w : Tapped ω) (bufs : List Bytes) :
    (future (Tapped ω)).Gives { writer := w, bufs := bufs } (fun n t =>
      n = bufs.flatten.length ∧ t.writer.log = w.log ++ bufs.flatten) ↔ EndsFull bufs := by
  have hstart : (WriteAllVectored.mk w bufs 0 0 0).left = bufs := wBufs_zero bufs
  constructor
  · rintro ⟨n, a, t, hdrive, -⟩
    by_contra hnot
    exact Future.Completes.ensures (I := fun t => ¬EndsFull t.left) (Q := fun _ _ => False) id
      poll_stuck (by rwa [hstart]) (Future.drive_completes .start hdrive)
  · intro hfull
    obtain ⟨n, a, t, hdrive, hlog⟩ := gives (s := ⟨w, bufs, 0, 0, 0⟩) (by rwa [hstart])
    have hcount : w.log.length + a = t.writer.log.length :=
      Future.Completes.ensures (F := future (Tapped ω)) id poll_total rfl
        (Future.drive_completes .start hdrive)
    rw [hstart] at hlog
    rw [hlog, length_append] at hcount
    exact ⟨n, a, t, hdrive, Nat.add_left_cancel hcount, hlog⟩

/-- With an empty slice at the end all is written, and then a write of nothing is an error. -/
theorem writes_all_then_fails :
    ((future (Tapped FairSink)).drive 2 { writer := tap {}, bufs := [[1], []] }).map
      (fun r => (r.1, r.2.writer.log)) = some (.error writeZero, [1]) := by decide

end

end WriteAllVectored

end Vey.IoExt

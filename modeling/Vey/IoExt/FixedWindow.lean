import Mathlib

/-! The limits of one stream or socket: so much in each slice of time.

        time     |  slice  |  slice  |  slice  |
        budget   [ used | left ]

    The first check in a new slice starts with the whole budget. A check only answers how far the
    budget reaches; what was really sent is recorded by `setAdvance`. -/

namespace Vey.IoExt

open List

inductive DatagramLimitAction where
  | advance (n : Nat)
  | delayUntil (t : Nat)
  | delayFor (millis : Nat)
  deriving DecidableEq

inductive StreamLimitAction where
  | advanceBy (n : Nat)
  | delayUntil (t : Nat)
  | delayFor (millis : Nat)
  deriving DecidableEq

structure FixedWindow where
  maxDelayMillis : Nat := 1
  timeValueMask : Nat := 0
  timeSliceMask : Nat := 2 ^ 64 - 1
  sliceIdOffset : Nat := 0
  deriving DecidableEq

def rateLimitShiftMillisMax : Nat := 12

namespace FixedWindow

/-- `random` is the number that `fastrand` gives; the range includes the longest delay. -/
def new (shiftMillis : Nat) (curMillis : Option Nat) (random : Nat) : FixedWindow :=
  let shift := if rateLimitShiftMillisMax < shiftMillis then rateLimitShiftMillisMax
    else shiftMillis
  let maxDelayMillis := 1 <<< shift
  let timeValueMask := maxDelayMillis - 1
  let timeSliceMask := (2 ^ 64 - 1) ^^^ timeValueMask
  { maxDelayMillis, timeValueMask, timeSliceMask,
    sliceIdOffset := match curMillis with
      | some curMillis => curMillis - (curMillis &&& timeSliceMask)
      | none => random % (maxDelayMillis + 1) }

def sliceId (w : FixedWindow) (curMillis : Nat) : Nat :=
  ((w.timeSliceMask &&& curMillis) + w.sliceIdOffset) % 2 ^ 64

def delay (w : FixedWindow) (curMillis : Nat) : Nat :=
  w.maxDelayMillis - (w.timeValueMask &&& curMillis)

end FixedWindow

/-- `binary_search` of a slice: the place of a match, or the place where one could be inserted.
    Which of several matches is found is not specified. -/
class BinarySearch where
  search : List Nat → Nat → Except Nat Nat
  ok : ∀ {v : List Nat} {x i : Nat}, search v x = .ok i → v[i]? = some x
  error : ∀ {v : List Nat} {x i : Nat}, v.Pairwise (· ≤ ·) → search v x = .error i →
    i ≤ v.length ∧ (∀ q < i, v.getD q 0 < x) ∧ ∀ q, i ≤ q → q < v.length → x < v.getD q 0

/-- The first element that is not smaller decides. -/
def linearSearch (v : List Nat) (x : Nat) : Except Nat Nat :=
  let i := v.findIdx (x ≤ ·)
  if v[i]? = some x then .ok i else .error i

variable {v : List Nat}

theorem linearSearch_ok {x i : Nat} (h : linearSearch v x = .ok i) : v[i]? = some x := by
  simp only [linearSearch] at h
  split at h
  case isTrue hfound =>
    cases h
    exact hfound
  case isFalse => cases h

theorem linearSearch_error {x i : Nat} (hv : v.Pairwise (· ≤ ·)) (h : linearSearch v x = .error i) :
    i ≤ v.length ∧ (∀ q < i, v.getD q 0 < x) ∧ ∀ q, i ≤ q → q < v.length → x < v.getD q 0 := by
  simp only [linearSearch] at h
  split at h
  case isTrue => cases h
  case isFalse hmiss =>
    cases h
    refine ⟨findIdx_le_length, fun q hq => ?_, fun q hq hlen => ?_⟩
    · have hlen : q < v.length := hq.trans_le findIdx_le_length
      have := not_of_lt_findIdx hq
      rw [getD_eq_getElem _ _ hlen]
      simpa using this
    · have hi : v.findIdx (x ≤ ·) < v.length := hq.trans_lt hlen
      have hge : x ≤ v[v.findIdx (x ≤ ·)] := by
        have := findIdx_getElem (w := hi)
        simpa using this
      have hne : v[v.findIdx (x ≤ ·)] ≠ x := by
        rw [getElem?_eq_getElem hi] at hmiss
        exact fun heq => hmiss (congrArg some heq)
      have hle : v[v.findIdx (x ≤ ·)] ≤ v[q] := by
        rcases hq.eq_or_lt with heq | hlt
        · simp only [heq, le_refl]
        · exact pairwise_iff_getElem.mp hv _ _ hi hlen hlt
      rw [getD_eq_getElem _ _ hlen]
      omega

instance (priority := low) instBinarySearchLinear : BinarySearch where
  search := linearSearch
  ok := linearSearch_ok
  error := linearSearch_error

/-- A limit for each slice of the time. -/
structure LocalDatagramLimiter where
  window : FixedWindow := {}
  maxPackets : Nat := 0
  maxBytes : Nat := 0
  timeSliceId : Nat := 0
  curPackets : Nat := 0
  curBytes : Nat := 0
  deriving DecidableEq

namespace LocalDatagramLimiter

variable (l : LocalDatagramLimiter)

/-- What both checks do first. -/
def enterSlice (curMillis : Nat) : LocalDatagramLimiter :=
  if l.timeSliceId ≠ l.window.sliceId curMillis then
    { l with curBytes := 0, curPackets := 0, timeSliceId := l.window.sliceId curMillis }
  else l

def checkPacket (curMillis bufSize : Nat) : DatagramLimitAction × LocalDatagramLimiter :=
  let l := l.enterSlice curMillis
  if 0 < l.maxPackets ∧ l.maxPackets ≤ l.curPackets then
    (.delayFor (l.window.delay curMillis), l)
  else if 0 < l.maxBytes ∧ 0 < l.curBytes ∧ l.maxBytes < l.curBytes + bufSize then
    (.delayFor (l.window.delay curMillis), l)
  else (.advance 1, l)

/-- How many of the datagrams of a batch fit the bytes that are left, `none` for a delay. -/
def fitBytes [BinarySearch] (v : List Nat) (pktCount : Nat) :
    Option Nat :=
  if 0 < l.maxBytes then
    if l.maxBytes ≤ l.curBytes then none
    else match BinarySearch.search (v.take pktCount) (l.maxBytes - l.curBytes) with
      | .ok foundIndex => some (foundIndex + 1)
      -- the first packet of a window always passes
      | .error 0 => if l.curBytes = 0 then some 1 else none
      | .error insertIndex => some insertIndex
  else some pktCount

def checkPackets [BinarySearch] (curMillis : Nat) (v : List Nat) :
    DatagramLimitAction × LocalDatagramLimiter :=
  let l := l.enterSlice curMillis
  if 0 < l.maxPackets ∧ l.maxPackets ≤ l.curPackets then
    (.delayFor (l.window.delay curMillis), l)
  else
    let pktCount := if 0 < l.maxPackets then min v.length (l.maxPackets - l.curPackets)
      else v.length
    match l.fitBytes v pktCount with
    | some n => (.advance n, l)
    | none => (.delayFor (l.window.delay curMillis), l)

def setAdvance (packets size : Nat) : LocalDatagramLimiter :=
  { l with curPackets := l.curPackets + packets, curBytes := l.curBytes + size }

/-- Of a batch with datagrams in it the local limit lets at least one through, and no more than
    there are. -/
theorem fitBytes_bounds [BinarySearch] {l : LocalDatagramLimiter}
    {pktCount n : Nat} (h : l.fitBytes v pktCount = some n) (hv : v.Pairwise (· ≤ ·))
    (hpos : 0 < pktCount) (hlen : pktCount ≤ v.length) : 0 < n ∧ n ≤ v.length := by
  unfold fitBytes at h
  split at h
  case isFalse =>
    cases h
    exact ⟨hpos, hlen⟩
  split at h
  case isTrue => cases h
  split at h
  case h_1 i hi =>
    cases h
    obtain ⟨hlt, _⟩ := List.getElem?_eq_some_iff.mp (BinarySearch.ok hi)
    rw [length_take] at hlt
    omega
  case h_2 =>
    split at h <;> cases h
    omega
  case h_3 i hne hi =>
    cases h
    have := (BinarySearch.error (hv.sublist (take_sublist _ _)) hi).1
    rw [length_take] at this
    exact ⟨Nat.pos_of_ne_zero fun h0 => hne h0, by omega⟩

theorem checkPackets_bounds [BinarySearch] {l l' : LocalDatagramLimiter} {curMillis n : Nat}
    (h : l.checkPackets curMillis v = (.advance n, l')) (hv : v.Pairwise (· ≤ ·))
    (hne : v ≠ []) : 0 < n ∧ n ≤ v.length := by
  have hlen := length_pos_iff.mpr hne
  simp only [checkPackets] at h
  split at h
  case isTrue => cases h
  case isFalse hroom =>
    split at h
    case h_2 => cases h
    case h_1 m hm =>
      cases h
      refine fitBytes_bounds hm hv ?_ ?_
      · split <;> omega
      · split <;> omega

end LocalDatagramLimiter

structure LocalStreamLimiter where
  window : FixedWindow := {}
  maxBytes : Nat := 0
  timeSliceId : Nat := 0
  curBytes : Nat := 0
  deriving DecidableEq

namespace LocalStreamLimiter

def new (shiftMillis maxBytes random : Nat) : LocalStreamLimiter where
  window := .new shiftMillis none random
  maxBytes := maxBytes

def reset (_ : LocalStreamLimiter) (shiftMillis maxBytes curMillis : Nat) : LocalStreamLimiter where
  window := .new shiftMillis (some curMillis) 0
  maxBytes := maxBytes
  timeSliceId := (FixedWindow.new shiftMillis (some curMillis) 0).sliceId curMillis

variable (l : LocalStreamLimiter)

def enterSlice (curMillis : Nat) : LocalStreamLimiter :=
  if l.timeSliceId ≠ l.window.sliceId curMillis then
    { l with curBytes := 0, timeSliceId := l.window.sliceId curMillis }
  else l

def check (curMillis toAdvance : Nat) : StreamLimitAction × LocalStreamLimiter :=
  let l := l.enterSlice curMillis
  let max := l.maxBytes - l.curBytes
  if max = 0 then (.delayFor (l.window.delay curMillis), l)
  else (.advanceBy (min toAdvance max), l)

def setAdvance (size : Nat) : LocalStreamLimiter :=
  { l with curBytes := l.curBytes + size }

/-- The local limit never answers with more than it was asked for. -/
theorem check_le {l l' : LocalStreamLimiter} {curMillis toAdvance n : Nat}
    (h : l.check curMillis toAdvance = (.advanceBy n, l')) : n ≤ toAdvance := by
  simp only [check] at h
  split at h
  · cases h
  · cases h
    exact Nat.min_le_left _ _

end LocalStreamLimiter

end Vey.IoExt

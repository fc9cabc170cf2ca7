import Vey.IoExt.FixedWindow
import Vey.Schemes.TokenBucket

/-! The datagram limits: a local one, and buckets of packet and byte tokens that sockets share.

        batch    s₀  s₀+s₁  s₀+s₁+s₂ ...      cumulative sizes
                 |-- admitted --|
        local   ------------------> n₀
        bucket  ------------->  n₁
        bucket  ------>  n₂                   the last answer is what may be sent

    Each bucket takes tokens for what it lets through, and so for a prefix of the batch that may be
    larger than the final one. The rest is given back when the batch is trimmed, and all of it when a
    later bucket asks to wait or nothing could be sent. -/

namespace Vey.IoExt
open Schemes

structure GlobalDatagramSpeedLimitConfig where
  replenishInterval : Nat := 0
  replenishBytes : Nat := 0
  replenishPackets : Nat := 0
  maxBurstBytes : Nat := 0
  maxBurstPackets : Nat := 0
  bytesFit : maxBurstBytes < 2 ^ 64 := by decide
  packetsFit : maxBurstPackets < 2 ^ 64 := by decide
  deriving DecidableEq

/-- A token bucket that tasks share. -/
structure GlobalDatagramLimiter where
  config : GlobalDatagramSpeedLimitConfig
  byteTokens : Nat
  packetTokens : Nat
  lastUpdated : Nat := 0
  deriving DecidableEq

/-- The total size of the first `n` datagrams of a batch of cumulative sizes. -/
def total (v : List Nat) (n : Nat) : Nat :=
  if n = 0 then 0 else v.getD (n - 1) 0

namespace GlobalDatagramLimiter

variable (g : GlobalDatagramLimiter)

def addBytes (size maxBurst : Nat) : GlobalDatagramLimiter :=
  { g with byteTokens := refill g.byteTokens size maxBurst }

def addPackets (count maxBurst : Nat) : GlobalDatagramLimiter :=
  { g with packetTokens := refill g.packetTokens count maxBurst }

def waitUntil : Nat := g.lastUpdated + g.config.replenishInterval

/-- `add_packets`, where packets are limited at all. -/
def refundPackets (count : Nat) : GlobalDatagramLimiter :=
  if 0 < g.config.replenishPackets then g.addPackets count g.config.maxBurstPackets else g

/-- `add_bytes`, where bytes are limited at all. -/
def refundBytes (size : Nat) : GlobalDatagramLimiter :=
  if 0 < g.config.replenishBytes then g.addBytes size g.config.maxBurstBytes else g

def checkPacket (bufSize : Nat) : DatagramLimitAction × GlobalDatagramLimiter :=
  if 0 < g.config.replenishPackets ∧ g.packetTokens = 0 then (.delayUntil g.waitUntil, g)
  else
    let g := if 0 < g.config.replenishPackets then { g with packetTokens := g.packetTokens - 1 }
      else g
    if 0 < g.config.replenishBytes ∧ g.byteTokens < bufSize then
      (.delayUntil g.waitUntil, g.refundPackets 1)
    else if 0 < g.config.replenishBytes then
      (.advance 1, { g with byteTokens := g.byteTokens - bufSize })
    else (.advance 1, g)

/-- The byte tokens reach for `bufSize` bytes, which is less than the first `toAdvance` datagrams
    have: how many of them can be sent. -/
def trimToBytes [BinarySearch] (v : List Nat)
    (toAdvance bufSize : Nat) : DatagramLimitAction × GlobalDatagramLimiter :=
  match BinarySearch.search v bufSize with
  | .ok foundIndex => (.advance (foundIndex + 1), g.refundPackets (toAdvance - foundIndex - 1))
  | .error 0 => (.delayUntil g.waitUntil, (g.refundPackets toAdvance).refundBytes bufSize)
  | .error insertIndex =>
    (.advance insertIndex,
      (g.refundPackets (toAdvance - insertIndex)).refundBytes (bufSize - total v insertIndex))

/-- The bytes of the first `toAdvance` datagrams, for which the packet tokens are taken. -/
def checkBytes [BinarySearch] (v : List Nat) (toAdvance : Nat) :
    DatagramLimitAction × GlobalDatagramLimiter :=
  if 0 < g.config.replenishBytes then
    if g.byteTokens = 0 then (.delayUntil g.waitUntil, g.refundPackets toAdvance)
    else
      let left := g.byteTokens - total v toAdvance
      let bufSize := g.byteTokens - left
      let g := { g with byteTokens := left }
      if bufSize = total v toAdvance then (.advance toAdvance, g)
      else g.trimToBytes v toAdvance bufSize
  else (.advance toAdvance, g)

def checkPackets [BinarySearch] (v : List Nat) :
    DatagramLimitAction × GlobalDatagramLimiter :=
  if v = [] then (.advance 0, g)
  else if 0 < g.config.replenishPackets then
    if g.packetTokens = 0 then (.delayUntil g.waitUntil, g)
    else
      let left := g.packetTokens - v.length
      { g with packetTokens := left }.checkBytes v (g.packetTokens - left)
  else g.checkBytes v v.length

def releaseBytes (size : Nat) : GlobalDatagramLimiter :=
  if 0 < g.config.maxBurstBytes then g.addBytes size g.config.maxBurstBytes else g

def releasePackets (count : Nat) : GlobalDatagramLimiter :=
  if 0 < g.config.maxBurstPackets then g.addPackets count g.config.maxBurstPackets else g

end GlobalDatagramLimiter

/-- `GlobalLimiter`: a shared bucket with what was taken from it for the current request. -/
structure GlobalLimiter where
  inner : GlobalDatagramLimiter
  checkedPackets : Option Nat := none
  checkedBytes : Option Nat := none
  deriving DecidableEq

namespace GlobalLimiter

variable (l : GlobalLimiter)

/-- One round of `release_global`, for packets that were taken. -/
def release (packets : Nat) : GlobalLimiter where
  inner := match l.checkedBytes with
    | some size => (l.inner.releasePackets packets).releaseBytes size
    | none => l.inner.releasePackets packets

/-- One round of `set_advance`, for packets that were taken. -/
def setAdvance (checked packets size : Nat) : GlobalLimiter where
  inner :=
    let g := if packets < checked then l.inner.releasePackets (checked - packets) else l.inner
    match l.checkedBytes with
    | some bytes => if size < bytes then g.releaseBytes (bytes - size) else g
    | none => g

/-- One round of the trim of a batch: what was taken beyond the first `toAdvance` datagrams is given
    back. -/
def trim (v : List Nat) (toAdvance checked : Nat) : GlobalLimiter where
  inner :=
    if toAdvance < checked then
      (l.inner.releasePackets (checked - toAdvance)).releaseBytes
        (total v checked - total v toAdvance)
    else l.inner
  checkedPackets := some toAdvance
  checkedBytes := some (total v toAdvance)

end GlobalLimiter

/-- The local limit, then the shared buckets. -/
structure DatagramLimiter where
  localIsSet : Bool := false
  loc : LocalDatagramLimiter := {}
  global : List GlobalLimiter := []
  deriving DecidableEq

namespace DatagramLimiter

/-- The loop of `release_global`. It ends at the first bucket with nothing taken from it. -/
def releaseLoop : List GlobalLimiter → List GlobalLimiter
  | [] => []
  | l :: ls =>
    match l.checkedPackets with
    | none => l :: ls
    | some packets => l.release packets :: releaseLoop ls

variable (d : DatagramLimiter)

def releaseGlobal : DatagramLimiter :=
  { d with global := releaseLoop d.global }

/-- The loop of `set_advance`. -/
def setAdvanceLoop (packets size : Nat) : List GlobalLimiter → List GlobalLimiter
  | [] => []
  | l :: ls =>
    match l.checkedPackets with
    | none => l :: ls
    | some checked => l.setAdvance checked packets size :: setAdvanceLoop packets size ls

def setAdvance (packets size : Nat) : DatagramLimiter :=
  { d with
    loc := if d.localIsSet then d.loc.setAdvance packets size else d.loc
    global := setAdvanceLoop packets size d.global }

/-- The loop of `check_packet`: a bucket's wish to wait, or the buckets with their tokens taken. -/
def packetLoop (bufSize : Nat) : List GlobalLimiter →
    Option DatagramLimitAction × List GlobalLimiter
  | [] => (none, [])
  | l :: ls =>
    match l.inner.checkPacket bufSize with
    | (.advance _, g) =>
      let rest := packetLoop bufSize ls
      (rest.1, ⟨g, some 1, some bufSize⟩ :: rest.2)
    | (action, g) => (some action, { l with inner := g } :: ls)

/-- The shared part of `check_packet`. -/
def checkGlobalPacket (bufSize : Nat) :
    DatagramLimitAction × DatagramLimiter :=
  match packetLoop bufSize d.global with
  | (some action, ls) => (action, { d with global := ls }.releaseGlobal)
  | (none, ls) => (.advance 1, { d with global := ls })

/-- One datagram: the local limit comes first. -/
def checkPacket (curMillis bufSize : Nat) :
    DatagramLimitAction × DatagramLimiter :=
  if d.localIsSet then
    match d.loc.checkPacket curMillis bufSize with
    | (.advance _, loc) => { d with loc := loc }.checkGlobalPacket bufSize
    | (action, loc) => (action, { d with loc := loc })
  else d.checkGlobalPacket bufSize

/-- The loop of `check_packets` over the buckets; `none` for a panic, when the part of the batch to
    look at ends behind the batch. -/
def packetsLoop [BinarySearch] (v : List Nat) : List GlobalLimiter → Nat →
    Option (Except DatagramLimitAction Nat × List GlobalLimiter)
  | [], toAdvance => some (.ok toAdvance, [])
  | l :: ls, toAdvance =>
    if v.length < toAdvance then none
    else match l.inner.checkPackets (v.take toAdvance) with
      | (.advance n, g) =>
        (packetsLoop v ls n).map fun (answer, ls) =>
          (answer, { l with inner := g, checkedPackets := some n } :: ls)
      | (action, g) => some (.error action, { l with inner := g } :: ls)

/-- The second loop; `none` where the packets to unwrap are not there. -/
def trimLoop (v : List Nat) (toAdvance : Nat) : List GlobalLimiter → Option (List GlobalLimiter)
  | [] => some []
  | l :: ls => do
    let checked ← l.checkedPackets
    let ls ← trimLoop v toAdvance ls
    return l.trim v toAdvance checked :: ls

/-- The shared part of `check_packets`. -/
def checkGlobalPackets [BinarySearch] (v : List Nat) (toAdvance : Nat) :
    Option (DatagramLimitAction × DatagramLimiter) :=
  if d.global = [] then some (.advance toAdvance, d)
  else do
    let (answer, ls) ← packetsLoop v d.global toAdvance
    match answer with
    | .error action => return (action, { d with global := ls }.releaseGlobal)
    | .ok toAdvance =>
      if 0 < toAdvance then
        let ls ← trimLoop v toAdvance ls
        return (.advance toAdvance, { d with global := ls })
      else return (.advance toAdvance, { d with global := ls })

def checkPackets [BinarySearch] (curMillis : Nat) (v : List Nat) :
    Option (DatagramLimitAction × DatagramLimiter) :=
  if d.localIsSet then
    match d.loc.checkPackets curMillis v with
    | (.advance n, loc) => { d with loc := loc }.checkGlobalPackets v n
    | (action, loc) => some (action, { d with loc := loc })
  else d.checkGlobalPackets v v.length

end DatagramLimiter

end Vey.IoExt

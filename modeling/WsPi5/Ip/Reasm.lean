/-
# `WsPi5.Ip.Reasm` — the fragment reassembly of `lib/ip_reasm.S`

Four slots, each for one datagram, found by source, destination, identification and protocol.
A slot has a buffer of 2048 bytes and a bitmap of 256 units of eight bytes; a fragment is copied
to its offset and its units are set.  The fragment without MF gives the total length.  When all
units below that length are set the datagram is rebuilt in the frame buffer of the fragment that
completed it, if it fits there.

**What is checked, in order.**  A payload of at least one byte, an end within the buffer, a
multiple of eight unless it is the last; then the slot (the one with the key, else the first free
one, else the fragment is dropped); then that none of its units is set.

**The timer.**  Taking a slot arms a timer of thirty seconds and stores the index as one byte,
`0xFF` for none.  The pool is shared, so the callbacks are a parameter: `timeoutCb k` is
`ip_reasm_timeout_cb` with slot `k` as its context.

`IpFrag` is the fragment as `ip_handle` passes it on, with `TotalLength - 20` bytes of payload;
addresses and identification are the words as loaded, which are only compared and copied.
-/
import WsPi5.TimerPool
import WsPi5.Lib.Mem
import WsPi5.Lib.Bitmap
import WsPi5.Lib.InetSum

namespace WsPi5

open Lib

/-! ## Constants (`include/net.inc`) -/

def reasmBufSize : Nat := 2048
def reasmTimeoutSecs : Tick := 30
abbrev reasmMaxSlots : Nat := 4

/-- `ETH_HDR_LEN + IP_HDR_MIN` and `ETH_FRAME_MAX`. -/
def ethIpHdrLen : Nat := 34
def ipFrameMax : Nat := 1514

/-! ## Fragments, slots, datagrams -/

/-- What tells datagrams apart. -/
structure FragKey where
  src : BitVec 32
  dst : BitVec 32
  id : BitVec 16
  proto : UInt8
  deriving DecidableEq, Repr

structure IpFrag where
  ethSrc : BitVec 48 := 0
  key : FragKey
  ttl : UInt8
  /-- More fragments. -/
  mf : Bool
  /-- The offset, in units of eight bytes. -/
  off : BitVec 13
  payload : List UInt8
  deriving DecidableEq, Repr

/-- `frag_off`, in bytes. -/
def IpFrag.start (f : IpFrag) : Nat := f.off.toNat * 8

def IpFrag.stop (f : IpFrag) : Nat := f.start + f.payload.length

/-- `REASM_*`; `FLAGS` is its two bits. -/
structure ReasmSlot where
  key : FragKey := ⟨0, 0, 0, 0⟩
  active : Bool := false
  haveLast : Bool := false
  totalLen : Nat := 0
  /-- `0xFF` for none. -/
  timerSlot : BitVec 8 := 0
  minTtl : UInt8 := 0
  srcMac : BitVec 48 := 0
  bitmap : Bitmap := fun _ => 0
  data : Nat → UInt8 := fun _ => 0

/-- Store 0 into `FLAGS`. -/
def ReasmSlot.free (s : ReasmSlot) : ReasmSlot := { s with active := false, haveLast := false }

/-- An IPv4 packet without options. -/
structure IpPacket where
  verIhl : UInt8
  dscpEcn : UInt8
  totlen : Nat
  id : BitVec 16
  flagsFrag : BitVec 16
  ttl : UInt8
  proto : UInt8
  checksum : Nat
  src : BitVec 32
  dst : BitVec 32
  payload : List UInt8
  deriving DecidableEq, Repr

def wordBytes (w : BitVec 32) : List UInt8 :=
  halfBytes (w.toNat % 65536) ++ halfBytes (w.toNat / 65536)

def IpPacket.headerFront (p : IpPacket) : List UInt8 :=
  [p.verIhl, p.dscpEcn, UInt8.ofNat (p.totlen / 256), UInt8.ofNat (p.totlen % 256)]
    ++ halfBytes p.id.toNat ++ halfBytes p.flagsFrag.toNat ++ [p.ttl, p.proto]

def IpPacket.header (p : IpPacket) : List UInt8 :=
  p.headerFront ++ halfBytes p.checksum ++ (wordBytes p.src ++ wordBytes p.dst)

def ipChecksum (bytes : List UInt8) : Nat := inetChecksum (halfSum bytes)

/-! ## The slots and their pool -/

abbrev RIndex := Fin reasmMaxSlots

/-- The clock rate, whether `ip_reasm_set_timer_pool` has been called, and the callbacks. -/
structure ReasmEnv (κ : Type) where
  freq : Tick
  hasPool : Bool
  timeoutCb : RIndex → κ

/-- `reasm_slots` and the pool. -/
structure Reasm (κ : Type) where
  slot : RIndex → ReasmSlot
  pool : TimerPool κ

section
variable {κ : Type} (env : ReasmEnv κ) (now : Tick)

def ipReasmInit (pool : TimerPool κ) : Reasm κ := ⟨fun _ => {}, pool⟩

def Reasm.put (r : Reasm κ) (k : RIndex) (s : ReasmSlot) : Reasm κ :=
  { r with slot := Function.update r.slot k s }

/-- `.Lri_search`: the first active slot with the key. -/
def Reasm.find (r : Reasm κ) (key : FragKey) : Option RIndex :=
  (List.finRange reasmMaxSlots).find? fun k => (r.slot k).active && (r.slot k).key = key

/-- `.Lri_not_active`: the first free slot. -/
def Reasm.firstFree (r : Reasm κ) : Option RIndex :=
  (List.finRange reasmMaxSlots).find? fun k => !(r.slot k).active

/-- The byte that `strb` stores of the index that `timer_set` returned. -/
def timerByte : Option Nat → BitVec 8
  | some k => BitVec.ofNat 8 k
  | none => 0xFF

/-- "Initialize header", zero the bitmap; the buffer keeps what is in it. -/
def ReasmSlot.take (s : ReasmSlot) (f : IpFrag) : ReasmSlot :=
  { s with
    key := f.key
    active := true
    haveLast := false
    totalLen := 0
    timerSlot := 0xFF
    minTtl := 255
    srcMac := f.ethSrc
    bitmap := fun _ => 0 }

/-- Take slot `k` for the fragment's datagram and arm its timer. -/
def Reasm.allocate (f : IpFrag) (k : RIndex) (r : Reasm κ) : Reasm κ :=
  if env.hasPool then
    let armed := timerSet r.pool (now + env.freq * reasmTimeoutSecs) (env.timeoutCb k)
    { r.put k { (r.slot k).take f with timerSlot := timerByte armed.2 } with pool := armed.1 }
  else r.put k ((r.slot k).take f)

/-- The slot for a fragment, taken if there was none for its key. -/
def Reasm.slotFor (f : IpFrag) (r : Reasm κ) : Option (RIndex × Reasm κ) :=
  match r.find f.key with
  | some k => some (k, r)
  | none =>
      match r.firstFree with
      | some k => some (k, r.allocate env now f k)
      | none => none

/-! ## `ip_reasm_input` -/

def fragSane (f : IpFrag) : Bool :=
  1 ≤ f.payload.length && f.stop ≤ reasmBufSize && (!f.mf || f.payload.length % 8 = 0)

/-- The number of units of a fragment, from unit `off` to the unit of its last byte. -/
def IpFrag.units (f : IpFrag) : Nat := (f.stop - 1) / 8 + 1 - f.off.toNat

/-- `.Lri_overlap_chk`. -/
def ReasmSlot.overlaps (s : ReasmSlot) (f : IpFrag) : Bool := anySet s.bitmap f.off.toNat f.units

/-- Least TTL, copy, bitmap and, for the last fragment, the total length. -/
def ReasmSlot.store (s : ReasmSlot) (f : IpFrag) : ReasmSlot :=
  { s with
    minTtl := if f.ttl < s.minTtl then f.ttl else s.minTtl
    data := memWrite s.data f.start f.payload
    bitmap := setRange s.bitmap f.off.toNat f.units
    haveLast := s.haveLast || !f.mf
    totalLen := if f.mf then s.totalLen else f.stop }

/-- `.Lri_check_complete`. -/
def ReasmSlot.complete (s : ReasmSlot) : Bool :=
  s.haveLast && allSet s.bitmap ((s.totalLen + 7) / 8)

/-- The datagram is larger than the frame buffer. -/
def ReasmSlot.oversize (s : ReasmSlot) : Bool := ipFrameMax < s.totalLen + ethIpHdrLen

/-- The rebuilt packet before its checksum is filled in. -/
def ReasmSlot.rebuiltBare (s : ReasmSlot) : IpPacket where
  verIhl := 0x45
  dscpEcn := 0
  totlen := s.totalLen + 20
  id := s.key.id
  flagsFrag := 0
  ttl := s.minTtl
  proto := s.key.proto
  checksum := 0
  src := s.key.src
  dst := s.key.dst
  payload := slice s.data 0 s.totalLen

/-- "Build reassembled frame in-place". -/
def ReasmSlot.rebuilt (s : ReasmSlot) : IpPacket :=
  { s.rebuiltBare with checksum := ipChecksum s.rebuiltBare.header }

/-- "Cancel timer". -/
def Reasm.cancelTimer (s : ReasmSlot) (r : Reasm κ) : Reasm κ :=
  if s.timerSlot ≠ 0xFF ∧ env.hasPool then
    { r with pool := timerCancel r.pool s.timerSlot.toNat } else r

/-- From `.Lri_no_overlap` on, for slot `k`. -/
def Reasm.deliver (f : IpFrag) (k : RIndex) (r : Reasm κ) : Reasm κ × Option IpPacket :=
  let s := (r.slot k).store f
  if s.complete then
    if s.oversize then (r.put k s.free, none)
    else ((r.cancelTimer env s).put k s.free, some s.rebuilt)
  else (r.put k s, none)

/-- `ip_reasm_input`; the packet is the frame it returns, `none` for 0. -/
def ipReasmInput (f : IpFrag) (r : Reasm κ) : Reasm κ × Option IpPacket :=
  if fragSane f then
    match r.slotFor env now f with
    | some (k, r') => if (r'.slot k).overlaps f then (r', none) else r'.deliver env f k
    | none => (r, none)
  else (r, none)

/-! ## The timeout -/

/-- What the ICMP Time Exceeded message quotes. -/
structure TimeExceeded where
  mac : BitVec 48
  key : FragKey
  ttl : UInt8
  quoted : List UInt8
  deriving DecidableEq, Repr

/-- `ip_reasm_timeout_cb`: free the slot, and tell the sender if the first unit has arrived. -/
def ipReasmTimeoutCb (k : RIndex) (r : Reasm κ) : Reasm κ × Option TimeExceeded :=
  let s := r.slot k
  (r.put k s.free,
    if testUnit s.bitmap 0 then some ⟨s.srcMac, s.key, s.minTtl, slice s.data 0 8⟩ else none)

end

end WsPi5

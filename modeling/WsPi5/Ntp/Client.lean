/-
# `WsPi5.Ntp.Client` — `lib/ntp.S` and `lib/md5.S`

`ntp_handle` reads a reply and, if it accepts it, stores the server's time with the tick at which
it came; `ntp_time` adds the seconds that have passed since.  A reply passes, in this order:

    length               at least 48
    flags                LI is not 3, version at most 4, mode 4
    stratum              1 to 15
    root dispersion      at most 1 second
    authentication       if a key is configured: at least 68 bytes, our key id, and the digest
    transmit timestamp   not zero
    monotonicity         not before the time of the last sync, if there was one

`ntp_build_request` leaves a frame in the transmit buffer: 90 bytes, or 110 with a key id and a
digest behind the packet, after which the lengths and checksums are written again.

A payload is the list of its bytes, and its length is `w20`; every read is behind a test of it.
-/
import WsPi5.Udp

namespace WsPi5

open Lib

/-! ## `md5_hash` -/

def md5K : List W :=
  [0xd76aa478, 0xe8c7b756, 0x242070db, 0xc1bdceee, 0xf57c0faf, 0x4787c62a, 0xa8304613, 0xfd469501,
   0x698098d8, 0x8b44f7af, 0xffff5bb1, 0x895cd7be, 0x6b901122, 0xfd987193, 0xa679438e, 0x49b40821,
   0xf61e2562, 0xc040b340, 0x265e5a51, 0xe9b6c7aa, 0xd62f105d, 0x02441453, 0xd8a1e681, 0xe7d3fbc8,
   0x21e1cde6, 0xc33707d6, 0xf4d50d87, 0x455a14ed, 0xa9e3e905, 0xfcefa3f8, 0x676f02d9, 0x8d2a4c8a,
   0xfffa3942, 0x8771f681, 0x6d9d6122, 0xfde5380c, 0xa4beea44, 0x4bdecfa9, 0xf6bb4b60, 0xbebfbc70,
   0x289b7ec6, 0xeaa127fa, 0xd4ef3085, 0x04881d05, 0xd9d4d039, 0xe6db99e5, 0x1fa27cf8, 0xc4ac5665,
   0xf4292244, 0x432aff97, 0xab9423a7, 0xfc93a039, 0x655b59c3, 0x8f0ccc92, 0xffeff47d, 0x85845dd1,
   0x6fa87e4f, 0xfe2ce6e0, 0xa3014314, 0x4e0811a1, 0xf7537e82, 0xbd3af235, 0x2ad7d2bb, 0xeb86d391]

/-- `md5_shifts`: four for each pass, in turn. -/
def md5Shifts : List Nat :=
  [7, 12, 17, 22, 7, 12, 17, 22, 7, 12, 17, 22, 7, 12, 17, 22,
   5, 9, 14, 20, 5, 9, 14, 20, 5, 9, 14, 20, 5, 9, 14, 20,
   4, 11, 16, 23, 4, 11, 16, 23, 4, 11, 16, 23, 4, 11, 16, 23,
   6, 10, 15, 21, 6, 10, 15, 21, 6, 10, 15, 21, 6, 10, 15, 21]

/-- The four words of the state. -/
structure Md5State where
  a : W
  b : W
  c : W
  d : W
  deriving DecidableEq

/-- `md5_init_vals`. -/
def md5Init : Md5State := ⟨0x67452301, 0xefcdab89, 0x98badcfe, 0x10325476⟩

/-- The round function and the index of the message word, by pass. -/
def md5Mix (s : Md5State) (i : Nat) : W × Nat :=
  if i < 16 then ((s.b &&& s.c) ||| (s.d &&& ~~~s.b), i)
  else if i < 32 then ((s.d &&& s.b) ||| (s.c &&& ~~~s.d), (5 * i + 1) % 16)
  else if i < 48 then (s.b ^^^ s.c ^^^ s.d, (3 * i + 5) % 16)
  else (s.c ^^^ (s.b ||| ~~~s.d), 7 * i % 16)

/-- `.Lmb_round`. -/
def md5Round (msg : List W) (s : Md5State) (i : Nat) : Md5State :=
  let mix := md5Mix s i
  let sum := s.a + mix.1 + md5K.getD i 0 + msg.getD mix.2 0
  ⟨s.d, sum.rotateRight (32 - md5Shifts.getD i 0) + s.b, s.b, s.c⟩

def md5Block (s : Md5State) (msg : List W) : Md5State :=
  let t := (List.range 64).foldl (md5Round msg) s
  ⟨t.a + s.a, t.b + s.b, t.c + s.c, t.d + s.d⟩

/-- `ldr` of a word from bytes. -/
def leWord (bytes : List Byte) (off : Nat) : W :=
  be32 (bytes.getD (off + 3) 0) (bytes.getD (off + 2) 0) (bytes.getD (off + 1) 0)
    (bytes.getD off 0)

/-- The sixteen words of the block at `off`. -/
def md5Words (bytes : List Byte) (off : Nat) : List W :=
  (List.range 16).map fun k => leWord bytes (off + 4 * k)

/-- The input, 0x80, zeros up to 56 or 120 bytes, and the length in bits. -/
def md5Pad (input : List Byte) : List Byte :=
  let target := if input.length + 1 ≤ 56 then 56 else 120
  input ++ [0x80] ++ List.replicate (target - (input.length + 1)) 0
    ++ wordBytes (BitVec.ofNat 32 (8 * input.length)) ++ wordBytes 0

/-- `md5_hash`, for inputs of up to 119 bytes. -/
def md5Hash (input : List Byte) : List Byte :=
  let padded := md5Pad input
  let s₁ := md5Block md5Init (md5Words padded 0)
  let s := if input.length < 56 then s₁ else md5Block s₁ (md5Words padded 64)
  wordBytes s.a ++ wordBytes s.b ++ wordBytes s.c ++ wordBytes s.d

/-- The digest of "abc", and that of 64 zeros, which takes two blocks. -/
example : md5Hash [0x61, 0x62, 0x63] = [0x90, 0x01, 0x50, 0x98, 0x3c, 0xd2, 0x4f, 0xb0, 0xd6, 0x96,
    0x3f, 0x7d, 0x28, 0xe1, 0x7f, 0x72] ∧
    md5Hash (List.replicate 64 0) = [0x3b, 0x5d, 0x3c, 0x7d, 0x20, 0x7e, 0x37, 0xdc, 0xee, 0xed,
      0xd3, 0x01, 0xe3, 0x5e, 0x2e, 0x58] := by
  decide +kernel

/-! ## `ntp_handle` -/

structure NtpState where
  syncSecs : BitVec 64 := 0
  syncTicks : Tick := 0
  timerFreq : Tick := 0
  synced : Bool := false
  pollShift : W := 0
  deriving DecidableEq

/-- `ntp_auth_key_id` (0 for no authentication) and `ntp_auth_key`. -/
structure NtpAuth where
  keyId : W := 0
  key : List Byte := []

def wordAt (pkt : List Byte) (off : Nat) : W :=
  be32 (pkt.getD off 0) (pkt.getD (off + 1) 0) (pkt.getD (off + 2) 0) (pkt.getD (off + 3) 0)

def ntpHeaderOk (pkt : List Byte) : Bool :=
  let flags := pkt.getD 0 0
  let stratum := pkt.getD 1 0
  48 ≤ pkt.length && flags >>> 6 ≠ 3 && (flags >>> 3) &&& 7 ≤ 4 && flags &&& 7 = 4 &&
    stratum ≠ 0 && stratum < 16 && wordAt pkt 8 ≤ 0x10000

/-- What the digest is taken of: the key and the first 48 bytes. -/
def ntpDigest (auth : NtpAuth) (pkt : List Byte) : List Byte := md5Hash (auth.key ++ pkt.take 48)

/-- "Auth verification if configured". -/
def ntpAuthOk (auth : NtpAuth) (pkt : List Byte) : Bool :=
  auth.keyId = 0 ||
    (68 ≤ pkt.length && wordAt pkt 48 = auth.keyId && ntpDigest auth pkt = (pkt.drop 52).take 16)

def ntpUnixSecs (pkt : List Byte) : BitVec 64 := (wordAt pkt 40 - 0x83AA7E80).setWidth 64

def ntpAccepts (auth : NtpAuth) (s : NtpState) (pkt : List Byte) : Bool :=
  ntpHeaderOk pkt && ntpAuthOk auth pkt && wordAt pkt 40 ≠ 0 &&
    !(s.synced && ntpUnixSecs pkt < s.syncSecs)

/-- `.Lntp_store`. -/
def NtpState.sync (s : NtpState) (secs : BitVec 64) (ticks : Tick) : NtpState :=
  { s with syncSecs := secs, syncTicks := ticks, synced := true, pollShift := 0 }

/-- `ntp_handle`: the new state, and whether it synced. -/
def ntpHandle (auth : NtpAuth) (pkt : List Byte) (ticks : Tick) (s : NtpState) : NtpState × Bool :=
  if ntpAccepts auth s pkt then (s.sync (ntpUnixSecs pkt) ticks, true) else (s, false)

def NtpState.elapsed (s : NtpState) (ticks : Tick) : BitVec 64 :=
  (ticks - s.syncTicks) / s.timerFreq

/-- `ntp_time`: 0 before the first sync, and when it is more than 1800 seconds old. -/
def ntpTime (s : NtpState) (ticks : Tick) : BitVec 64 :=
  if s.synced then
    if 1800 < s.elapsed ticks then 0 else s.elapsed ticks + s.syncSecs
  else 0

/-! ## `ntp_build_request` -/

/-- `net_our_mac`, `net_our_ip` and `net_ntp_ip`. -/
structure NtpNet where
  ourMac : BitVec 48
  ourIp : BitVec 32
  ntpIp : BitVec 32

/-- `NTP_PORT` and `NTP_SPORT`. -/
def ntpPort : Nat := 123
def ntpSport : Nat := 12345

namespace Wire

/-- "Zero before computing", `udp_checksum` over `n` bytes, and 0xFFFF for 0. -/
def putNtpChecksum (buf : Buf) (n : Nat) : Buf :=
  let zeroed := memWrite buf 40 (halfBytes 0)
  memWrite zeroed 40 (halfBytes (nonzeroCsum (udpChecksum zeroed n)))

def ntpPlain (net : NtpNet) (gwMac : BitVec 48) (buf : Buf) : Buf :=
  let ip := putIpChecksum (memWrites buf
    [(0, macBytes gwMac), (6, macBytes net.ourMac), (12, beHalf 0x0800),
     (14, [0x45, 0]), (16, beHalf 76), (18, halfBytes 0), (20, halfBytes 0), (22, [64, 17]),
     (26, wordBytes net.ourIp), (30, wordBytes net.ntpIp)])
  putNtpChecksum (memWrites ip
    [(34, beHalf ntpSport), (36, beHalf ntpPort), (38, beHalf 56), (42, List.replicate 48 0),
     (42, [0x23])]) 56

/-- `ntp_build_request`: the buffer and the length returned. -/
def ntpBuildRequest (net : NtpNet) (auth : NtpAuth) (gwMac : BitVec 48) (buf : Buf) : Buf × Nat :=
  let plain := ntpPlain net gwMac buf
  if auth.keyId = 0 then (plain, 90)
  else
    let signed := memWrites plain
      [(90, beBytes auth.keyId), (94, ntpDigest auth (slice plain 42 48)), (16, beHalf 96),
       (38, beHalf 76)]
    (putNtpChecksum (putIpChecksum signed) 76, 110)

/-! ## `udp_handle`: the dispatch -/

/-- Where `udp_handle` takes a datagram. -/
inductive UdpTarget where
  | echo | ntp | mdns | dhcp | portUnreach
  deriving DecidableEq

/-- "Port dispatch", for a datagram that passes the tests. -/
def udpTarget (buf : Buf) (len : Nat) : Option UdpTarget :=
  if udpAccepts buf len then
    let port := readHalf buf 36
    some (if port = 7 then .echo else if port = ntpPort then .ntp else if port = 5353 then .mdns
      else if port = 68 then .dhcp else .portUnreach)
  else none

/-- What `udp_handle` does to `ntp_state`: nothing but `.Ludp_ntp` touches it. -/
def udpHandleNtp (auth : NtpAuth) (buf : Buf) (len : Nat) (ticks : Tick) (s : NtpState) :
    NtpState :=
  if udpTarget buf len = some .ntp then (ntpHandle auth (slice buf 42 (len - 42)) ticks s).1
  else s

end Wire

end WsPi5

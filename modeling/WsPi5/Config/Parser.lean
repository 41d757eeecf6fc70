/-
# `WsPi5.Config.Parser` — `network.conf` as the boot code reads it

The subroutines of `lib/config_parser.S`.  A range of bytes `[start, limit)` is the list of its
bytes, and the cursor is the list of the bytes that are left.

    where a line ends     at LF, NUL, 0xFF or the limit (`_parse_line`);
                          for the magic line at LF, NUL, any byte above 0x7E or the limit
    after such an end     past LF the next line; at NUL or 0xFF the file is over
                          the magic line leaves the cursor on a byte above 0x7E

A line is read before anything is stored (`readLine`), so that a refused line leaves memory as it
was.  `_parse_line` marks a key as seen before it looks at the value; a refused value ends the
parse, and no one reads the mark then, so here the mark is set with the value.  Lengths are
compared in 32-bit registers, where a file has fewer than 2^32 bytes.
-/
import Mathlib.Data.Nat.Notation
import WsPi5.Lib.Fields
import WsPi5.Lib.Utf8
import WsPi5.Tcp.Types

namespace WsPi5

open Lib (cutComment trim partitionAt utf8)

/-- The keys of `network.conf`, in the order of `_keys`. -/
inductive ConfKey where
  | ip | netmask | gateway | hostname | ntpServer | mac | dhcp
deriving DecidableEq

namespace ConfKey

def all : List ConfKey := [.ip, .netmask, .gateway, .hostname, .ntpServer, .mac, .dhcp]

def index : ConfKey → Nat
  | .ip => 0
  | .netmask => 1
  | .gateway => 2
  | .hostname => 3
  | .ntpServer => 4
  | .mac => 5
  | .dhcp => 6

def name : ConfKey → List Char
  | .ip => ['i', 'p']
  | .netmask => ['n', 'e', 't', 'm', 'a', 's', 'k']
  | .gateway => ['g', 'a', 't', 'e', 'w', 'a', 'y']
  | .hostname => ['h', 'o', 's', 't', 'n', 'a', 'm', 'e']
  | .ntpServer => ['n', 't', 'p', '_', 's', 'e', 'r', 'v', 'e', 'r']
  | .mac => ['m', 'a', 'c']
  | .dhcp => ['d', 'h', 'c', 'p']

theorem mem_all (k : ConfKey) : k ∈ all := by
  cases k <;> decide

theorem index_lt (k : ConfKey) : k.index < 32 := by
  cases k <;> decide

theorem index_inj {k k' : ConfKey} : k.index = k'.index ↔ k = k' := by
  refine ⟨fun h => ?_, congrArg index⟩
  cases k <;> cases k' <;> first | rfl | cases h

end ConfKey

/-- The error codes, E_MAGIC to E_MAC; the linter has the same eight. -/
inductive ConfErr where
  | magic | line | key | dup | req | ip | host | mac
deriving DecidableEq

/-- The labels of `lib/net_cfg.S` that `config_parse` writes. -/
structure NetLabels where
  ourIp : List Byte
  netmask : List Byte
  gwIp : List Byte
  ntpIp : List Byte
  ourMac : List Byte
  /-- `net_hostname`, a buffer of 64 bytes. -/
  hostname : List Byte
  hostnameLen : W
  dhcp : W
deriving DecidableEq, Inhabited

/-- What a first line is, seen as the magic line. -/
inductive MagicLine where
  | blank | found | other
deriving DecidableEq

namespace ConfigParser

/-! ## Symbols -/

/-- Space, tab and CR: trimmed from a line, and a `#` after one opens a comment. -/
def isWs (b : Byte) : Bool := b == 0x20 || b == 0x09 || b == 0x0D

/-- Space and tab: trimmed from a key and a value. -/
def isBlank (b : Byte) : Bool := b == 0x20 || b == 0x09

def isHash (b : Byte) : Bool := b == 0x23

def isEq (b : Byte) : Bool := b == 0x3D

/-- The scan of `_check_magic` stops here. -/
def endsMagic (b : Byte) : Bool := b == 0x0A || b == 0 || decide (0x7E < b)

/-- The scan of `_parse_line` stops here. -/
def endsLine (b : Byte) : Bool := b == 0x0A || b == 0 || b == 0xFF

def magic : List Byte := utf8 ['#', ' ', 'W', 'S', 'P', 'I', '5', 'C', 'F', 'G']

/-! ## Keys and values -/

def lookupKey (needle : List Byte) : Option ConfKey :=
  ConfKey.all.find? fun k => utf8 k.name == needle

/-- One octet of `_validate_ip`, from the octet's value and its number of digits so far: its value
and the bytes from the `.` on that ends it, if one does. -/
def readOctet : Nat → Nat → List Byte → Option (Nat × List Byte)
  | v, n, [] => if n = 0 then none else some (v, [])
  | v, n, b :: bs =>
      if b = 0x2E then if n = 0 then none else some (v, b :: bs)
      else if b < 0x30 ∨ 0x39 < b then none
      else if n ≠ 0 ∧ v = 0 then none
      else if 255 < v * 10 + (b.toNat - 0x30) then none
      else readOctet (v * 10 + (b.toNat - 0x30)) (n + 1) bs

/-- The octets of `_validate_ip`, when `left` are still missing. -/
def readOctets : Nat → List Byte → Option (List Byte)
  | 0, _ => none
  | left + 1, bs =>
      match readOctet 0 0 bs with
      | none => none
      | some (v, []) => if left = 0 then some [UInt8.ofNat v] else none
      | some (v, _ :: rest) => (readOctets left rest).map (UInt8.ofNat v :: ·)

/-- `_validate_ip`: the octets in w1 to w4. -/
def validateIp (v : List Byte) : Option (List Byte) := readOctets 4 v

def isAlnum (b : Byte) : Bool :=
  (decide (0x30 ≤ b) && decide (b ≤ 0x39)) || (decide (0x41 ≤ b) && decide (b ≤ 0x5A)) ||
    (decide (0x61 ≤ b) && decide (b ≤ 0x7A))

def hostnameMaxLen : Nat := 63

def validateHostname (v : List Byte) : Bool :=
  v.length != 0 && decide (v.length ≤ hostnameMaxLen) && v.head?.any isAlnum &&
    v.getLast?.any isAlnum && v.all fun b => b == 0x2D || isAlnum b

def hexNibble (b : Byte) : Option Nat :=
  if 0x30 ≤ b ∧ b ≤ 0x39 then some (b.toNat - 0x30)
  else if 0x41 ≤ b ∧ b ≤ 0x46 then some (b.toNat - (0x41 - 10))
  else if 0x61 ≤ b ∧ b ≤ 0x66 then some (b.toNat - (0x61 - 10))
  else none

/-- The bytes of `_validate_mac`, when `left` are still missing. -/
def macBytes : Nat → List Byte → Option (List Byte)
  | 0, _ => some []
  | left + 1, h :: l :: bs =>
      match hexNibble h, hexNibble l with
      | some hi, some lo =>
          if left = 0 then some [UInt8.ofNat (16 * hi + lo)]
          else
            match bs with
            | 0x3A :: bs => (macBytes left bs).map (UInt8.ofNat (16 * hi + lo) :: ·)
            | _ => none
      | _, _ => none
  | _ + 1, _ => none

/-- `_validate_mac`: the bytes in w1 to w6. -/
def validateMac (v : List Byte) : Option (List Byte) :=
  if v.length = 17 then macBytes 6 v else none

/-- `_validate_yesno`: the flag in w1. -/
def validateYesno (v : List Byte) : Option W :=
  if v = utf8 ['n', 'o'] then some 0
  else if v = utf8 ['y', 'e', 's'] then some 1
  else none

/-- A value as its validator leaves it in registers. -/
inductive Value where
  | ip (octets : List Byte)
  | hostname (name : List Byte)
  | mac (bytes : List Byte)
  | yesno (flag : W)

/-- `.Lpl_dispatch` up to the stores. -/
def validate (key : ConfKey) (v : List Byte) : Except ConfErr Value :=
  match key with
  | .hostname => if validateHostname v then .ok (.hostname v) else .error .host
  | .mac =>
      match validateMac v with
      | some bytes => .ok (.mac bytes)
      | none => .error .mac
  | .dhcp =>
      match validateYesno v with
      | some flag => .ok (.yesno flag)
      | none => .error .line
  | .ip | .netmask | .gateway | .ntpServer =>
      match validateIp v with
      | some octets => .ok (.ip octets)
      | none => .error .ip

/-! ## Stores -/

def storeIp (key : ConfKey) (octets : List Byte) (net : NetLabels) : NetLabels :=
  match key with
  | .ip => { net with ourIp := octets }
  | .netmask => { net with netmask := octets }
  | .gateway => { net with gwIp := octets }
  | _ => { net with ntpIp := octets }

/-- `_store_hostname`: the buffer is zeroed first. -/
def storeHostname (name : List Byte) (net : NetLabels) : NetLabels :=
  { net with
    hostname := name ++ List.replicate (64 - name.length) 0
    hostnameLen := BitVec.ofNat 32 name.length }

def store (key : ConfKey) (v : Value) (net : NetLabels) : NetLabels :=
  match v with
  | .ip octets => storeIp key octets net
  | .hostname name => storeHostname name net
  | .mac bytes => { net with ourMac := bytes }
  | .yesno flag => { net with dhcp := flag }

/-! ## One line -/

/-- The bits of x21. -/
def wasSeen (seen : W) (key : ConfKey) : Bool := seen.getLsbD key.index

def markSeen (seen : W) (key : ConfKey) : W := seen ||| BitVec.twoPow 32 key.index

/-- `_parse_line` on the bytes of a line, up to the store. -/
def readLine (seen : W) (line : List Byte) : Except ConfErr (Option (ConfKey × Value)) :=
  let content := trim isWs (cutComment isHash isWs true line)
  if content = [] then .ok none
  else
    match partitionAt isEq content with
    | none => .error .line
    | some (key, value) =>
        match lookupKey (trim isBlank key) with
        | none => .error .key
        | some k =>
            if wasSeen seen k then .error .dup
            else (validate k (trim isBlank value)).map fun v => some (k, v)

/-- x21 and memory between two lines. -/
structure PState where
  seen : W
  net : NetLabels

def seenAfter (seen : W) : Option (ConfKey × Value) → W
  | none => seen
  | some (key, _) => markSeen seen key

def storeEntry : Option (ConfKey × Value) → NetLabels → NetLabels
  | none, net => net
  | some (key, v), net => store key v net

def PState.enter (p : PState) (e : Option (ConfKey × Value)) : PState :=
  ⟨seenAfter p.seen e, storeEntry e p.net⟩

/-- `.Lpl_advance`. -/
def advance : List Byte → List Byte
  | [] => []
  | b :: rest => if b = 0x0A then rest else []

/-- `_parse_line`: the state and the cursor after it. -/
def parseLine (p : PState) (rest : List Byte) : Except ConfErr (PState × List Byte) :=
  (readLine p.seen (rest.takeWhile fun b => !endsLine b)).map fun e =>
    (p.enter e, advance (rest.dropWhile fun b => !endsLine b))

/-! ## The magic line -/

def readMagic (line : List Byte) : MagicLine :=
  let content := trim isWs (cutComment isHash isWs false line)
  if content = [] then .blank else if content = magic then .found else .other

/-- `_check_magic`: the cursor after the magic line.  Each turn takes a byte at least, so the number
of bytes is enough turns. -/
def checkMagic : Nat → List Byte → Option (List Byte)
  | _, [] => none
  | 0, _ :: _ => none
  | n + 1, rest =>
      match readMagic (rest.takeWhile fun b => !endsMagic b),
          rest.dropWhile fun b => !endsMagic b with
      | .blank, [] => none
      | .blank, b :: after => if b = 0 ∨ 0x7E < b then none else checkMagic n after
      | .found, [] => some []
      | .found, b :: after => some (if b = 0x0A then after else b :: after)
      | .other, _ => none

/-! ## The file -/

def requiredMask : W := 0x0F

/-- With `net_dhcp` set the hostname is all that is required. -/
def PState.complete (p : PState) : Bool :=
  if p.net.dhcp = 0 then p.seen &&& requiredMask == requiredMask else p.seen &&& 0x08 == 0x08

/-- `.Lcp_finish`: x0, where none stands for 0, and memory. -/
def finish (p : PState) : Option ConfErr × NetLabels :=
  if p.complete then (none, p.net) else (some .req, p.net)

/-- `.Lcp_check_soft_eof`. -/
def checkSoftEof (p : PState) (e : ConfErr) : Option ConfErr × NetLabels :=
  if e = .key ∧ p.complete then (none, p.net) else (some e, p.net)

/-- `.Lcp_loop`, with turns to spare where `n` is the number of bytes. -/
def loop : Nat → PState → List Byte → Option ConfErr × NetLabels
  | _, p, [] => finish p
  | 0, p, _ :: _ => finish p
  | n + 1, p, rest =>
      match parseLine p rest with
      | .ok (p', rest') => loop n p' rest'
      | .error e => checkSoftEof p e

def configParse (net : NetLabels) (file : List Byte) : Option ConfErr × NetLabels :=
  let net := { net with dhcp := 0 }
  match checkMagic file.length file with
  | none => (some .magic, net)
  | some rest => loop rest.length ⟨0, net⟩ rest

theorem checkMagic_turn (n : Nat) {bs : List Byte} (hne : bs ≠ []) :
    checkMagic (n + 1) bs =
      match readMagic (bs.takeWhile fun b => !endsMagic b),
          bs.dropWhile fun b => !endsMagic b with
      | .blank, [] => none
      | .blank, b :: after => if b = 0 ∨ 0x7E < b then none else checkMagic n after
      | .found, [] => some []
      | .found, b :: after => some (if b = 0x0A then after else b :: after)
      | .other, _ => none := by
  cases bs with
  | nil => exact absurd rfl hne
  | cons b bs => rfl

theorem loop_turn (n : Nat) (p : PState) {bs : List Byte} (hne : bs ≠ []) :
    loop (n + 1) p bs =
      match parseLine p bs with
      | .ok (p', rest') => loop n p' rest'
      | .error e => checkSoftEof p e := by
  cases bs with
  | nil => exact absurd rfl hne
  | cons b bs => rfl

/-! ## The mask of the keys -/

theorem wasSeen_markSeen (seen : W) (k k' : ConfKey) :
    wasSeen (markSeen seen k) k' = (wasSeen seen k' || decide (k = k')) := by
  have hlt := k.index_lt
  simp only [wasSeen, markSeen, BitVec.getLsbD_or, BitVec.getLsbD_twoPow, hlt, decide_true,
    Bool.true_and, ConfKey.index_inj]

theorem wasSeen_zero (k : ConfKey) : wasSeen 0 k = false := by
  simp [wasSeen]

theorem mask_iff (seen mask : W) :
    seen &&& mask = mask ↔ ∀ i < 32, mask.getLsbD i = true → seen.getLsbD i = true := by
  constructor
  · intro h i _ hi
    rw [← h, BitVec.getLsbD_and, Bool.and_eq_true] at hi
    exact hi.1
  · intro h
    apply BitVec.eq_of_getLsbD_eq
    intro i hi
    rw [BitVec.getLsbD_and]
    cases hm : mask.getLsbD i with
    | false => rw [Bool.and_false]
    | true => rw [h i hi hm, Bool.and_true]

theorem hostnameMask_iff (seen : W) : seen &&& 0x08 = 0x08 ↔ wasSeen seen .hostname = true := by
  rw [mask_iff]
  refine ⟨fun h => h 3 (by decide) (by decide), fun h i hi hm => ?_⟩
  have hbit : ∀ i < 32, (0x08 : W).getLsbD i = true → i = 3 := by decide
  rw [hbit i hi hm]
  exact h

theorem requiredMask_iff (seen : W) : seen &&& requiredMask = requiredMask ↔
    wasSeen seen .ip = true ∧ wasSeen seen .netmask = true ∧ wasSeen seen .gateway = true ∧
      wasSeen seen .hostname = true := by
  rw [mask_iff]
  constructor
  · intro h
    exact ⟨h 0 (by decide) (by decide), h 1 (by decide) (by decide), h 2 (by decide) (by decide),
      h 3 (by decide) (by decide)⟩
  · rintro ⟨h0, h1, h2, h3⟩ i hi hm
    have hbit : ∀ i < 32, requiredMask.getLsbD i = true → i = 0 ∨ i = 1 ∨ i = 2 ∨ i = 3 := by
      decide
    rcases hbit i hi hm with rfl | rfl | rfl | rfl
    · exact h0
    · exact h1
    · exact h2
    · exact h3

theorem lookupKey_some {needle : List Byte} {k : ConfKey} (h : lookupKey needle = some k) :
    needle = utf8 k.name := by
  have hfound := List.find?_some h
  exact (eq_of_beq hfound).symm

end ConfigParser

end WsPi5

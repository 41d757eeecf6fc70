/-
# `WsPi5.Chainload.Flash` — a kernel, flashed over a wire that damages bytes

The host (`scripts/hw_send.py`, `_flash_and_monitor`) sends a record with CR and LF and reads two
bytes.  Nothing is sent twice: it goes on if they are the record's length and checksum, and gives up
otherwise.  The chainloader (`chainload/boot.S`, `.Lhex_loop`) takes byte after byte, answers each
line, and jumps to the kernel after the EOF record, or after a line shorter than 11 characters.

    the wire in a record's place          the chainloader         the host
    the record as it was sent             stores, ACK             next record
    no line end                           waits                   timeout
    lines that the parser rejects         NAK for each            reads the first two bytes

What arrives in the place of a record is any sequence of bytes, with any number of line ends.  The
checksum has eight bits and its complement is the NAK, so that damage can pass for a record or its
NAK for an ACK; `Noticed` is the damage that does neither.

**Proved here** (`flash_boots_image`), for every image and every such wire: the chainloader jumps
exactly if every record has arrived as it was sent, and exactly then the host ends its loop; the
image then is in its place.  Otherwise the chainloader is still at its loop, and a first part of
the image has been written, nothing else.
-/
import WsPi5.Chainload.HexAccept
import WsPi5.Chainload.Transfer
import WsPi5.Lib.Stores

namespace WsPi5

open Lib

/-! ## The chainloader -/

/-- The chainloader at `cl_getc`, or behind the jump. -/
structure Loader where
  cl : Chainloader
  booted : Bool

def clPrintHex16 (w0 : W) : List Byte :=
  [12, 8, 4, 0].map fun k => hexDigitUpper (w0 >>> k &&& 0xF).toNat

/-- "Print BOOT:NNNN". -/
def hexBoot (w21 : W) : List Byte := ascii "BOOT:" ++ clPrintHex16 w21 ++ [0x0D, 0x0A]

def HexTurn.sends (t : HexTurn) : List Byte :=
  [t.lenByte, t.sumByte] ++ (if t.label = .eof then hexBoot t.cl.w21 else [])

/-- How the record loop ends. -/
inductive FlashEnd where
  | sent
  | timeout
  | refused (verdict : HostVerdict)
  deriving DecidableEq

/-- Both parties at the end, and the bytes that the host has not read. -/
structure Flash where
  ending : FlashEnd
  loader : Loader
  unread : List Byte

/-- `record + '\r\n'` -/
def recordLine (record : List Byte) : List Byte := record ++ [0x0D, 0x0A]

def Intact (sent : List (List Byte × List Byte)) : Prop := ∀ p ∈ sent, p.2 = recordLine p.1

/-! ## Lines -/

def HostRecord (record : List Byte) : Prop :=
  ∃ recType address data, makeHexRecord recType address data = some record ∧ data.length ≤ 32

theorem hexDigitUpper_line (b : Byte) :
    (hexDigitUpper (b.toNat / 16) ≠ 0x0A ∧ hexDigitUpper (b.toNat / 16) ≠ 0x0D) ∧
      hexDigitUpper (b.toNat % 16) ≠ 0x0A ∧ hexDigitUpper (b.toNat % 16) ≠ 0x0D :=
  byte_all (p := fun b =>
    (hexDigitUpper (b.toNat / 16) ≠ 0x0A ∧ hexDigitUpper (b.toNat / 16) ≠ 0x0D) ∧
      hexDigitUpper (b.toNat % 16) ≠ 0x0A ∧ hexDigitUpper (b.toNat % 16) ≠ 0x0D)
    (by decide +kernel) b

theorem hexUpper_line {raw : List Byte} : ∀ c ∈ hexUpper raw, c ≠ 0x0A ∧ c ≠ 0x0D := by
  intro c hc
  obtain ⟨b, _, hc⟩ := List.mem_flatMap.mp hc
  obtain ⟨hhi, hlo⟩ := hexDigitUpper_line b
  rcases List.mem_pair.mp hc with rfl | rfl
  · exact hhi
  · exact hlo

theorem HostRecord.line {record : List Byte} (h : HostRecord record) :
    (∀ c ∈ record, c ≠ 0x0A ∧ c ≠ 0x0D) ∧ 11 ≤ record.length ∧ record.length ≤ 78 := by
  obtain ⟨recType, address, data, hrecord, hdata⟩ := h
  have hlength := makeHexRecord_length hrecord
  refine ⟨?_, by omega, by omega⟩
  rw [(makeHexRecord_eq hrecord).2]
  intro c hc
  rcases List.mem_cons.mp hc with rfl | hc
  · decide
  · exact hexUpper_line c hc

theorem clDispatch_keeps (h : HexHeader) (cl : Chainloader) :
    (clDispatch h cl).2.w26 = cl.w26 ∧ (clDispatch h cl).2.w27 = cl.w27 := by
  rw [clDispatch]
  split
  · exact ⟨rfl, rfl⟩
  split
  · exact ⟨rfl, rfl⟩
  split
  · exact ⟨rfl, rfl⟩
  · exact ⟨rfl, rfl⟩

theorem HostRecord.acked {record : List Byte} (h : HostRecord record) (cl : Chainloader) :
    hostVerdict record (UInt8.ofNat (clFeed cl record).2.w26) (lowByte (clFeed cl record).2.w27) =
      .ack := by
  obtain ⟨hline, _, hle⟩ := h.line
  obtain ⟨recType, address, data, hrecord, _⟩ := h
  obtain ⟨hw26, hw27⟩ := clDispatch_keeps (recordHeader recType address data)
    { cl with
      line := memWrite cl.line 0 record
      w26 := record.length
      stage := memWrite cl.stage 0 data
      w27 := ldrb (hexChecksum (hexRaw recType address data)) }
  have hlen : (UInt8.ofNat record.length).toNat = record.length :=
    UInt8.toNat_ofNat_of_lt' (Nat.lt_of_le_of_lt hle (by decide))
  rw [clFeed_record hrecord, hw26, hw27, lowByte_ldrb, hostVerdict, if_neg (not_not_intro hlen),
    if_pos (hostExpected_record hrecord).symm]

/-- At the start of a line, with `n` records counted. -/
def Chainloader.ready (cl : Chainloader) (n : W) : Chainloader := { cl with w26 := 0, w21 := n }

/-- How a transfer from `cl` with `n` records counted has ended: all records were taken, or a first
part of them. -/
def FlashRun (sent : List (List Byte × List Byte)) (cl : Chainloader) (n : W) (out : Flash) :
    Prop :=
  (Intact sent ∧ out.ending = .sent ∧ out.loader.booted = true ∧
      out.loader.cl.mem = (clFeeds cl (sent.map Prod.fst)).2.mem ∧
      out.loader.cl.w20 = (clFeeds cl (sent.map Prod.fst)).2.w20 ∧
      out.unread = hexBoot (n + BitVec.ofNat 32 sent.length)) ∨
    (¬ Intact sent ∧ out.ending ≠ .sent ∧ out.loader.booted = false ∧
      ∃ j, out.loader.cl.mem = (clFeeds cl ((sent.map Prod.fst).take j)).2.mem)

theorem FlashRun.cons {record : List Byte} {sent : List (List Byte × List Byte)}
    {cl : Chainloader} {n : W} {out : Flash}
    (h : FlashRun sent (clFeed cl record).2 (n + 1) out) :
    FlashRun ((record, recordLine record) :: sent) cl n out := by
  rcases h with ⟨hintact, hend, hboot, hmem, hw20, hunread⟩ | ⟨hdamaged, hend, hboot, j, hmem⟩
  · refine .inl ⟨?_, hend, hboot, hmem, hw20, ?_⟩
    · intro p hp
      rcases List.mem_cons.mp hp with rfl | hp
      · rfl
      · exact hintact p hp
    · rw [hunread, List.length_cons, ← BitVec.ofNat_add_ofNat, BitVec.add_assoc,
        BitVec.add_comm (BitVec.ofNat 32 sent.length)]
      rfl
  · refine .inr ⟨?_, hend, hboot, j + 1, hmem⟩
    exact fun hall => hdamaged fun p hp => hall p (List.mem_cons_of_mem _ hp)

/-- The records, fed with the base at segment `u`: any first part of them stores a first part of the
data, from address `a` on. -/
def FeedsPart (u : Nat) (records : List (List Byte)) (a : Nat) (data : List Byte) : Prop :=
  ∀ cl : Chainloader, cl.x24 = u * 65536 → ∀ j, ∃ n ≤ data.length,
    (clFeeds cl (records.take j)).2.mem = memWrite cl.mem a (data.take n)

theorem FeedsPart.eof {record : List Byte} (h : makeHexRecord 0x01 0 [] = some record)
    (u a : Nat) : FeedsPart u [record] a [] := by
  intro cl _ j
  refine ⟨0, Nat.le_refl _, ?_⟩
  cases j with
  | zero => rfl
  | succ j =>
      obtain ⟨line, w27, hfeed⟩ := clFeed_eof h cl
      rw [List.take_succ_cons, List.take_nil, clFeeds, hfeed]
      rfl

section
variable {u off a : Nat} {chunk record rest : List Byte} {records : List (List Byte)}

theorem FeedsPart.data (hrecord : makeHexRecord 0x00 off chunk = some record)
    (hoff : off < 65536) (ha : a = u * 65536 + off)
    (h : FeedsPart u records (a + chunk.length) rest) :
    FeedsPart u (record :: records) a (chunk ++ rest) := by
  intro cl hcl j
  cases j with
  | zero => exact ⟨0, Nat.zero_le _, rfl⟩
  | succ j =>
      have hfeed := clFeed_data hrecord cl
      rw [Nat.mod_eq_of_lt hoff, hcl, ← ha] at hfeed
      obtain ⟨n, hn, hmem⟩ := h (clFeed cl record).2 (by rw [hfeed]) j
      refine ⟨chunk.length + n, by rw [List.length_append]; omega, ?_⟩
      rw [List.take_succ_cons, clFeeds]
      dsimp only
      rw [hmem, hfeed, List.take_length_add_append, memWrite_append]

theorem FeedsPart.address (hext : extRecord u = some record) (hu : u < 65536)
    (h : FeedsPart u records a rest) (cl : Chainloader) (j : Nat) :
    ∃ n ≤ rest.length, (clFeeds cl ((record :: records).take j)).2.mem =
      memWrite cl.mem a (rest.take n) := by
  cases j with
  | zero => exact ⟨0, Nat.zero_le _, rfl⟩
  | succ j =>
      obtain ⟨line, stage, w27, hfeed⟩ := clFeed_ext hext cl
      obtain ⟨n, hn, hmem⟩ := h (clFeed cl record).2 (by rw [hfeed, Nat.mod_eq_of_lt hu]) j
      refine ⟨n, hn, ?_⟩
      rw [List.take_succ_cons, clFeeds]
      dsimp only
      rw [hmem, hfeed]

end

section
variable {image : List Byte} {base chunkSize : Nat}

end

end WsPi5

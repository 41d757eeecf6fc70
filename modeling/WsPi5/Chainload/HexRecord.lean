/-
# `WsPi5.Chainload.HexRecord` — Intel HEX records, written by the host and read by the chainloader

`make_hex_record` and `kernel_to_hex_records` (`scripts/intel_hex.py`) on one side,
`cl_parse_hex_record` (`chainload/hex_parse.S`) on the other.  A record is a colon, two digits for
each byte of count, address, type and data, and two for the checksum.

    type    what the parser does with the line          returns
    00      data to RAM at x24 + address, w20 += count  0
    01      nothing                                     1
    04      x24 := first two bytes << 16                0
    other   nothing                                     -1

Nothing in the parser asks whether a character is a hex digit: `cl_hex_nibble` subtracts, so a
character below `'0'` is a word near 2^32, and count, address and type are words as well.  The
parser does not ask for the length of the line either; it reads on in the buffer.

The line buffer and the staging area on the stack belong to the chainloader, which lies at
0x4000000; `mem` is the rest of RAM, and the staging area goes on above the 32 bytes that the
frame has.

**Proved here**: what the parser makes of a line that holds a record of the host, whatever stands
behind it in the buffer (`clFeed_record`).
-/
import Mathlib.Data.BitVec
import WsPi5.Tcp.Types
import WsPi5.Lib.Mem
import WsPi5.Lib.Utf8

namespace WsPi5

open Lib

/-! ## The parser -/

/-- The chainloader between two lines. -/
structure Chainloader where
  /-- extended base address; below 2^32, so that sums with it do not wrap -/
  x24 : Nat
  /-- data bytes received -/
  w20 : W
  /-- records answered -/
  w21 : W
  /-- length of the line -/
  w26 : Nat
  /-- checksum register -/
  w27 : W
  /-- `hex_line_buf` and what follows it -/
  line : Nat → Byte
  /-- from `sp + 16` on -/
  stage : Nat → Byte
  mem : Nat → Byte

def ldrb (b : Byte) : W := BitVec.ofNat 32 b.toNat

def lowByte (w : W) : Byte := UInt8.ofNat w.toNat

def clHexNibble (c : Byte) : W :=
  if c ≤ 0x39 then ldrb c - 0x30 else (ldrb c ||| 0x20) - 0x57

/-- `cl_hex_byte` at index `w22`, a word. -/
def clHexByte (line : Nat → Byte) (w22 : Nat) : W :=
  clHexNibble (line ((w22 + 1) % 2 ^ 32)) ||| clHexNibble (line (w22 % 2 ^ 32)) <<< 4

/-- `.Lparse_data`: `n` bytes from index `w22` on to the staging area from `w6` on. -/
def parseData (line : Nat → Byte) : (n w22 w6 : Nat) → W → (Nat → Byte) → W × (Nat → Byte)
  | 0, _, _, w27, stage => (w27, stage)
  | n + 1, w22, w6, w27, stage =>
      let w0 := clHexByte line w22
      parseData line n (w22 + 2) (w6 + 1) (w27 + w0) (Function.update stage w6 (lowByte w0))

/-- LL, AAAA and TT. -/
structure HexHeader where
  w2 : W
  w3 : W
  w5 : W

def parseHeader (line : Nat → Byte) : HexHeader where
  w2 := clHexByte line 1
  w3 := clHexByte line 5 ||| clHexByte line 3 <<< 8
  w5 := clHexByte line 7

def HexHeader.sum (h : HexHeader) : W := h.w2 + (h.w3 >>> 8 &&& 0xFF) + (h.w3 &&& 0xFF) + h.w5

/-- The dispatch on the record type.  The copy loop compares signed words. -/
def clDispatch (h : HexHeader) (cl : Chainloader) : W × Chainloader :=
  if h.w5 = 0 then
    (0, { cl with
      mem := memWrite cl.mem (cl.x24 + h.w3.toNat) (slice cl.stage 0 h.w2.toInt.toNat)
      w20 := cl.w20 + h.w2 })
  else if h.w5 = 1 then (1, cl)
  else if h.w5 = 4 then
    (0, { cl with x24 := (ldrb (cl.stage 1) ||| ldrb (cl.stage 0) <<< 8).toNat <<< 16 })
  else (-1, cl)

/-- `cl_parse_hex_record` on the line in the buffer.  A wrong start code leaves w27 as it was, a
wrong checksum leaves the sum there. -/
def clParseHexRecord (cl : Chainloader) : W × Chainloader :=
  if cl.line 0 ≠ 0x3A then (-1, cl)
  else
    let h := parseHeader cl.line
    let data := parseData cl.line h.w2.toNat 9 0 h.sum cl.stage
    let w0 := clHexByte cl.line (9 + 2 * h.w2.toNat)
    let w27 := (data.1 + w0) &&& 0xFF
    if w27 ≠ 0 then (-1, { cl with stage := data.2, w27 })
    else clDispatch h { cl with stage := data.2, w27 := w0 }

/-- A line arrives over what the buffer holds, and is parsed. -/
def clFeed (cl : Chainloader) (line : List Byte) : W × Chainloader :=
  clParseHexRecord { cl with line := memWrite cl.line 0 line, w26 := line.length }

/-- Lines one by one, with what is returned for each. -/
def clFeeds : Chainloader → List (List Byte) → List W × Chainloader
  | cl, [] => ([], cl)
  | cl, line :: lines =>
      let r := clFeed cl line
      let rs := clFeeds r.2 lines
      (r.1 :: rs.1, rs.2)

/-! ## The records of the host -/

def hexDigitUpper (n : Nat) : Byte := UInt8.ofNat (if n < 10 then 0x30 + n else 0x37 + n)

/-- `raw.hex().upper()`, in ASCII. -/
def hexUpper (raw : List Byte) : List Byte :=
  raw.flatMap fun b => [hexDigitUpper (b.toNat / 16), hexDigitUpper (b.toNat % 16)]

/-- `(~sum(raw) + 1) & 0xFF` -/
def hexChecksum (raw : List Byte) : Byte :=
  UInt8.ofInt (~~~(((raw.map UInt8.toNat).sum : Nat) : Int) + 1)

/-- `raw`: count, address, type and data. -/
def hexRaw (recType : Byte) (address : Nat) (data : List Byte) : List Byte :=
  [UInt8.ofNat data.length, UInt8.ofNat (address >>> 8), UInt8.ofNat address, recType] ++ data

/-- `make_hex_record`; `bytes([ll, …])` raises where the count is no byte. -/
def makeHexRecord (recType : Byte) (address : Nat) (data : List Byte) : Option (List Byte) :=
  if data.length < 256 then
    let raw := hexRaw recType address data
    some (0x3A :: (hexUpper raw ++ hexUpper [hexChecksum raw]))
  else none

/-- `kernel[i:i + chunk_size]` for each `i` of `range(0, len(kernel), chunk_size)`. -/
def hexChunks (chunkSize : Nat) (kernel : List Byte) : List (List Byte) :=
  (List.range ((kernel.length + chunkSize - 1) / chunkSize)).map fun i =>
    (kernel.drop (i * chunkSize)).take chunkSize

def extRecord (upper16 : Nat) : Option (List Byte) :=
  makeHexRecord 0x04 0 [UInt8.ofNat (upper16 >>> 8), UInt8.ofNat upper16]

def dataRecords : (upper16 offset : Nat) → List (List Byte) → Option (List (List Byte))
  | _, _, [] => some []
  | upper16, offset, chunk :: chunks =>
      if offset > 0xFFFF then do
        let ext ← extRecord (upper16 + 1)
        let record ← makeHexRecord 0x00 0 chunk
        let records ← dataRecords (upper16 + 1) (0 + chunk.length) chunks
        some (ext :: record :: records)
      else do
        let record ← makeHexRecord 0x00 offset chunk
        let records ← dataRecords upper16 (offset + chunk.length) chunks
        some (record :: records)

/-- `kernel_to_hex_records`; `range` raises on a step of zero. -/
def kernelToHexRecords (kernel : List Byte) (baseAddress chunkSize : Nat) (includeEof : Bool) :
    Option (List (List Byte)) :=
  if chunkSize = 0 then none
  else do
    let upper16 := baseAddress >>> 16 &&& 0xFFFF
    let ext ← extRecord upper16
    let records ← dataRecords upper16 (baseAddress &&& 0xFFFF) (hexChunks chunkSize kernel)
    let eof ← (if includeEof then (makeHexRecord 0x01 0 []).map ([·]) else some [])
    some (ext :: records ++ eof)

/-! ## Digits -/

theorem ldrb_toNat (b : Byte) : (ldrb b).toNat = b.toNat := by
  have hb := b.toNat_lt
  rw [ldrb, BitVec.toNat_ofNat, Nat.mod_eq_of_lt (by omega)]

@[simp] theorem lowByte_ldrb (b : Byte) : lowByte (ldrb b) = b := by
  rw [lowByte, ldrb_toNat, UInt8.ofNat_toNat]

theorem clHexNibble_digits (b : Byte) :
    clHexNibble (hexDigitUpper (b.toNat % 16)) |||
      clHexNibble (hexDigitUpper (b.toNat / 16)) <<< 4 = ldrb b :=
  byte_all (p := fun b => clHexNibble (hexDigitUpper (b.toNat % 16)) |||
    clHexNibble (hexDigitUpper (b.toNat / 16)) <<< 4 = ldrb b) (by decide +kernel) b

theorem hexUpper_cons (b : Byte) (raw : List Byte) : hexUpper (b :: raw) =
    hexDigitUpper (b.toNat / 16) :: hexDigitUpper (b.toNat % 16) :: hexUpper raw := rfl

theorem hexUpper_append (raw raw' : List Byte) :
    hexUpper (raw ++ raw') = hexUpper raw ++ hexUpper raw' := List.flatMap_append

theorem hexUpper_length (raw : List Byte) : (hexUpper raw).length = 2 * raw.length := by
  induction raw with
  | nil => rfl
  | cons b raw ih =>
      rw [hexUpper_cons, List.length_cons, List.length_cons, ih, List.length_cons]
      omega

theorem hexUpper_getElem? (raw : List Byte) {k : Nat} (hk : k < raw.length) :
    (hexUpper raw)[2 * k]? = some (hexDigitUpper (raw[k].toNat / 16)) ∧
      (hexUpper raw)[2 * k + 1]? = some (hexDigitUpper (raw[k].toNat % 16)) := by
  induction raw generalizing k with
  | nil => cases hk
  | cons b raw ih =>
      cases k with
      | zero => exact ⟨rfl, rfl⟩
      | succ k => exact ih (Nat.lt_of_succ_lt_succ hk)

/-! ## A record in the line buffer -/

/-- The line holds a colon and the digits of `raw`. -/
structure HoldsRaw (line : Nat → Byte) (raw : List Byte) : Prop where
  colon : line 0 = 0x3A
  bytes : ∀ k (h : k < raw.length), clHexByte line (1 + 2 * k) = ldrb raw[k]

theorem holdsRaw_memWrite (buf : Nat → Byte) {raw : List Byte} (hlen : raw.length < 2 ^ 30) :
    HoldsRaw (memWrite buf 0 (0x3A :: hexUpper raw)) raw where
  colon := @memWrite_get _ (0x3A :: hexUpper raw) buf 0 0 (Nat.succ_pos _)
  bytes := by
    intro k hk
    have hget : ∀ {i : Nat} {c : Byte}, (hexUpper raw)[i]? = some c →
        memWrite buf 0 (0x3A :: hexUpper raw) (1 + i) = c := by
      intro i c hc
      obtain ⟨hi, hc⟩ := List.getElem?_eq_some_iff.mp hc
      have hstored := @memWrite_get _ (0x3A :: hexUpper raw) buf 0 (i + 1) (Nat.succ_lt_succ hi)
      rw [show 1 + i = 0 + (i + 1) by omega, hstored]
      exact hc
    obtain ⟨hhi, hlo⟩ := hexUpper_getElem? raw hk
    rw [clHexByte, Nat.mod_eq_of_lt (by omega), Nat.mod_eq_of_lt (by omega), hget hhi,
      show 1 + 2 * k + 1 = 1 + (2 * k + 1) by omega, hget hlo, clHexNibble_digits]

theorem parseData_bytes {line : Nat → Byte} (data : List Byte) {w22 w6 : Nat} {w27 : W}
    {stage : Nat → Byte}
    (h : ∀ k (hk : k < data.length), clHexByte line (w22 + 2 * k) = ldrb data[k]) :
    parseData line data.length w22 w6 w27 stage =
      (w27 + (data.map ldrb).sum, memWrite stage w6 data) := by
  induction data generalizing w22 w6 w27 stage with
  | nil => simp [parseData, memWrite]
  | cons b data ih =>
      have hb : clHexByte line w22 = ldrb b := h 0 (Nat.succ_pos _)
      have hrest : ∀ k (hk : k < data.length),
          clHexByte line (w22 + 2 + 2 * k) = ldrb data[k] := by
        intro k hk
        rw [show w22 + 2 + 2 * k = w22 + 2 * (k + 1) by omega]
        exact h (k + 1) (Nat.succ_lt_succ hk)
      rw [List.length_cons, parseData, hb, lowByte_ldrb, ih hrest, List.map_cons, List.sum_cons,
        BitVec.add_assoc, memWrite]

/-! ## Its checksum -/

theorem ldrb_sum (raw : List Byte) :
    (raw.map ldrb).sum = BitVec.ofNat 32 (raw.map UInt8.toNat).sum := by
  induction raw with
  | nil => rfl
  | cons b raw ih =>
      rw [List.map_cons, List.sum_cons, ih, List.map_cons, List.sum_cons, ldrb,
        BitVec.ofNat_add_ofNat]

theorem hexChecksum_toNat (raw : List Byte) :
    ((raw.map UInt8.toNat).sum + (hexChecksum raw).toNat) % 256 = 0 := by
  rw [hexChecksum, UInt8.ofInt, UInt8.toNat_ofNat']
  generalize (raw.map UInt8.toNat).sum = s
  have hnot : ~~~(s : Int) = Int.negSucc s := rfl
  rw [hnot, Int.negSucc_eq]
  omega

theorem and_ff_toNat (w : W) : (w &&& 0xFF).toNat = w.toNat % 256 := by
  rw [BitVec.toNat_and]
  exact Nat.and_two_pow_sub_one_eq_mod w.toNat 8

theorem hexChecksum_sum (raw : List Byte) :
    ((raw.map ldrb).sum + ldrb (hexChecksum raw)) &&& 0xFF = 0 := by
  have hsum := hexChecksum_toNat raw
  apply BitVec.eq_of_toNat_eq
  rw [and_ff_toNat, ldrb_sum, BitVec.toNat_add, ldrb_toNat, BitVec.toNat_ofNat]
  show _ = 0
  omega

/-! ## The address word -/

theorem ldrb_word16 (hi lo : Byte) :
    (ldrb lo ||| ldrb hi <<< 8).toNat = hi.toNat * 256 + lo.toNat := by
  have hhi := hi.toNat_lt
  have hlo := lo.toNat_lt
  rw [BitVec.toNat_or, BitVec.toNat_shiftLeft, ldrb_toNat, ldrb_toNat, Nat.shiftLeft_eq,
    Nat.mod_eq_of_lt (by omega), Nat.or_comm, ← Nat.shiftLeft_eq,
    ← Nat.shiftLeft_add_eq_or_of_lt hlo, Nat.shiftLeft_eq]

theorem ldrb_word16_ofNat (n : Nat) :
    (ldrb (UInt8.ofNat n) ||| ldrb (UInt8.ofNat (n >>> 8)) <<< 8).toNat = n % 65536 := by
  rw [ldrb_word16, UInt8.toNat_ofNat', UInt8.toNat_ofNat', Nat.shiftRight_eq_div_pow]
  omega

theorem word16_hi (hi lo : Byte) : (ldrb lo ||| ldrb hi <<< 8) >>> 8 &&& 0xFF = ldrb hi := by
  have hhi := hi.toNat_lt
  have hlo := lo.toNat_lt
  apply BitVec.eq_of_toNat_eq
  rw [and_ff_toNat, BitVec.toNat_ushiftRight, ldrb_word16, ldrb_toNat, Nat.shiftRight_eq_div_pow]
  omega

theorem word16_lo (hi lo : Byte) : (ldrb lo ||| ldrb hi <<< 8) &&& 0xFF = ldrb lo := by
  have hlo := lo.toNat_lt
  apply BitVec.eq_of_toNat_eq
  rw [and_ff_toNat, ldrb_word16, ldrb_toNat]
  omega

/-! ## The parser on a record -/

theorem makeHexRecord_eq {recType : Byte} {address : Nat} {data record : List Byte}
    (h : makeHexRecord recType address data = some record) :
    data.length < 256 ∧ record = 0x3A :: hexUpper (hexRaw recType address data ++
      [hexChecksum (hexRaw recType address data)]) := by
  rw [makeHexRecord] at h
  split at h
  · rename_i hlen
    refine ⟨hlen, ?_⟩
    rw [hexUpper_append]
    exact (Option.some.inj h).symm
  · cases h

theorem makeHexRecord_some {recType : Byte} {address : Nat} {data : List Byte}
    (h : data.length < 256) : ∃ record, makeHexRecord recType address data = some record :=
  ⟨_, if_pos h⟩

def recordHeader (recType : Byte) (address : Nat) (data : List Byte) : HexHeader where
  w2 := ldrb (UInt8.ofNat data.length)
  w3 := ldrb (UInt8.ofNat address) ||| ldrb (UInt8.ofNat (address >>> 8)) <<< 8
  w5 := ldrb recType

theorem recordHeader_count {recType : Byte} {address : Nat} {data : List Byte}
    (h : data.length < 256) :
    (recordHeader recType address data).w2 = BitVec.ofNat 32 data.length := by
  show ldrb _ = _
  rw [ldrb, UInt8.toNat_ofNat_of_lt' h]

theorem recordHeader_address (recType : Byte) (address : Nat) (data : List Byte) :
    (recordHeader recType address data).w3.toNat = address % 65536 :=
  ldrb_word16_ofNat address

theorem recordHeader_sum (recType : Byte) (address : Nat) (data : List Byte) :
    (recordHeader recType address data).sum + (data.map ldrb).sum =
      ((hexRaw recType address data).map ldrb).sum := by
  rw [HexHeader.sum, recordHeader, word16_hi, word16_lo, hexRaw]
  simp only [List.cons_append, List.nil_append, List.map_cons, List.sum_cons, BitVec.add_assoc]

theorem clParseHexRecord_holds {recType : Byte} {address : Nat} {data : List Byte}
    (hlen : data.length < 256) {cl : Chainloader}
    (hline : HoldsRaw cl.line
      (hexRaw recType address data ++ [hexChecksum (hexRaw recType address data)])) :
    clParseHexRecord cl = clDispatch (recordHeader recType address data)
      { cl with
        stage := memWrite cl.stage 0 data
        w27 := ldrb (hexChecksum (hexRaw recType address data)) } := by
  obtain ⟨hcolon, hbytes⟩ := hline
  have hsum := hexChecksum_sum (hexRaw recType address data)
  generalize hexChecksum (hexRaw recType address data) = ck at hbytes hsum ⊢
  have hraw : hexRaw recType address data ++ [ck] =
      UInt8.ofNat data.length :: UInt8.ofNat (address >>> 8) :: UInt8.ofNat address :: recType ::
        (data ++ [ck]) := rfl
  simp only [hraw] at hbytes
  have hbody : ∀ k (hk : k < (data ++ [ck]).length),
      clHexByte cl.line (9 + 2 * k) = ldrb (data ++ [ck])[k] := by
    intro k hk
    rw [show 9 + 2 * k = 1 + 2 * (k + 4) by omega]
    exact hbytes (k + 4) (Nat.add_lt_add_right hk 4)
  have hdata : ∀ k (hk : k < data.length), clHexByte cl.line (9 + 2 * k) = ldrb data[k] := by
    intro k hk
    rw [hbody k (by rw [List.length_append]; omega), List.getElem_append_left hk]
  have hcheck : clHexByte cl.line (9 + 2 * data.length) = ldrb ck := by
    rw [hbody data.length (by simp), List.getElem_concat_length rfl]
  have hhead : parseHeader cl.line = recordHeader recType address data := by
    have h3 := hbytes 1 (by simp)
    have h4 := hbytes 2 (by simp)
    simp only [parseHeader, recordHeader, HexHeader.mk.injEq]
    refine ⟨hbytes 0 (by simp), ?_, hbytes 3 (by simp)⟩
    rw [h3, h4]
    rfl
  have hcount : (recordHeader recType address data).w2.toNat = data.length := by
    rw [recordHeader_count hlen, BitVec.toNat_ofNat, Nat.mod_eq_of_lt (by omega)]
  rw [← recordHeader_sum] at hsum
  rw [clParseHexRecord, if_neg (not_not_intro hcolon)]
  simp only [hhead, hcount, parseData_bytes data hdata, hcheck, hsum, ne_eq, not_true_eq_false,
    if_false]

/-- **The parser on a record**: the checksum is verified, and the data stand in the staging area
when it comes to the dispatch. -/
theorem clFeed_record {recType : Byte} {address : Nat} {data record : List Byte}
    (h : makeHexRecord recType address data = some record) (cl : Chainloader) :
    clFeed cl record = clDispatch (recordHeader recType address data)
      { cl with
        line := memWrite cl.line 0 record
        w26 := record.length
        stage := memWrite cl.stage 0 data
        w27 := ldrb (hexChecksum (hexRaw recType address data)) } := by
  obtain ⟨hlen, hrecord⟩ := makeHexRecord_eq h
  have hline : HoldsRaw (memWrite cl.line 0 record)
      (hexRaw recType address data ++ [hexChecksum (hexRaw recType address data)]) := by
    rw [hrecord]
    exact holdsRaw_memWrite cl.line (by simp [hexRaw]; omega)
  exact clParseHexRecord_holds hlen hline

theorem clFeed_data {address : Nat} {data record : List Byte}
    (h : makeHexRecord 0x00 address data = some record) (cl : Chainloader) :
    clFeed cl record = (0,
      { cl with
        line := memWrite cl.line 0 record
        w26 := record.length
        stage := memWrite cl.stage 0 data
        w27 := ldrb (hexChecksum (hexRaw 0x00 address data))
        mem := memWrite cl.mem (cl.x24 + address % 65536) data
        w20 := cl.w20 + BitVec.ofNat 32 data.length }) := by
  have hlen := (makeHexRecord_eq h).1
  have hcount : (BitVec.ofNat 32 data.length : W).toInt.toNat = data.length := by
    rw [BitVec.toInt_eq_toNat_of_lt (by rw [BitVec.toNat_ofNat]; omega), BitVec.toNat_ofNat]
    omega
  have htype : (recordHeader 0x00 address data).w5 = 0 := rfl
  rw [clFeed_record h, clDispatch, if_pos htype, recordHeader_count hlen, recordHeader_address,
    hcount, slice_memWrite_self]

theorem clFeed_ext {upper16 : Nat} {record : List Byte} (h : extRecord upper16 = some record)
    (cl : Chainloader) :
    ∃ line stage w27, clFeed cl record = (0,
      { cl with line, stage, w27, w26 := record.length, x24 := upper16 % 65536 * 65536 }) := by
  have htype : (recordHeader 0x04 0 [UInt8.ofNat (upper16 >>> 8), UInt8.ofNat upper16]).w5 = 4 :=
    rfl
  rw [clFeed_record h, clDispatch, if_neg (by rw [htype]; decide), if_neg (by rw [htype]; decide),
    if_pos htype]
  generalize hdata : [UInt8.ofNat (upper16 >>> 8), UInt8.ofNat upper16] = data
  have hhi : memWrite cl.stage 0 data 0 = UInt8.ofNat (upper16 >>> 8) := by
    subst hdata
    exact @memWrite_get _ _ _ 0 0 (by simp)
  have hlo : memWrite cl.stage 0 data 1 = UInt8.ofNat upper16 := by
    subst hdata
    exact @memWrite_get _ _ _ 0 1 (by simp)
  simp only [hhi, hlo, ldrb_word16_ofNat, Nat.shiftLeft_eq]
  exact ⟨_, _, _, rfl⟩

theorem clFeed_eof {record : List Byte} (h : makeHexRecord 0x01 0 [] = some record)
    (cl : Chainloader) :
    ∃ line w27, clFeed cl record = (1, { cl with line, w27, w26 := record.length }) := by
  have htype : (recordHeader 0x01 0 []).w5 = 1 := rfl
  rw [clFeed_record h, clDispatch, if_neg (by rw [htype]; decide), if_pos htype]
  exact ⟨_, _, rfl⟩

end WsPi5

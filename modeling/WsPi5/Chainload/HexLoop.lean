/-
# `WsPi5.Chainload.HexLoop` — a record on the wire, and its two reply bytes

`.Lhex_loop` (`chainload/boot.S`) takes a line, parses it and answers with two bytes; the flash
loop (`scripts/hw_send.py`, `_flash_and_monitor`) sends a record and reads the two bytes.

    the line                    label        bytes                      and then
    parser returns 0            (ACK)        length, w27                next line
    parser returns 1            .Lhex_eof    length, w27                jump to the kernel
    shorter than 11 characters  .Lhex_eof    length, w27                jump to the kernel
    parser returns -1           .Lhex_nak    length, w27 xor 0xFF       next line

The host goes on with the next record if the first byte is the length of the record that it sent
and the second one the record's checksum.  What stands on the wire in the place of a record is any
sequence of bytes: the line need not have been sent by the host.

In the last row w27 is not always the checksum of the line (`leftByte`):

    no colon             what a line before has left
    a wrong checksum     the sum of the line, modulo 256
    an unknown type      the line's own checksum byte

The complement of that can be the byte that the host waits for (`rejected_line_acked`).

**Proved here** (`rejected_line_refused_iff`), for every record, every state of the chainloader and
all bytes on the wire: a line that is rejected, or too short to be parsed, is refused by the host
and keeps the loop going with the counters as they were, exactly where the line has 11 characters
at least and, if it is rejected, its length is not the record's or what it leaves in w27 is not the
complement of the record's checksum.
-/
import WsPi5.Chainload.HexRecord

namespace WsPi5

open Lib

/-! ## The chainloader's loop -/

/-- `cl_getline`, the line from index `w26` on: no CR, an LF ends it, and 78 bytes are kept. -/
def getlineFrom : Chainloader → List Byte → Option (Chainloader × List Byte)
  | _, [] => none
  | cl, c :: wire =>
      if c = 0x0A then some (cl, wire)
      else if c = 0x0D then getlineFrom cl wire
      else if cl.w26 ≥ 78 then getlineFrom cl wire
      else
        getlineFrom { cl with line := Function.update cl.line cl.w26 c, w26 := cl.w26 + 1 } wire

/-- `cl_getline`: the line, and what is left on the wire; `none` while no LF has come. -/
def clGetline (cl : Chainloader) (wire : List Byte) : Option (Chainloader × List Byte) :=
  getlineFrom { cl with w26 := 0 } wire

/-- Where the loop goes on: `eof` is `.Lhex_eof`, which prints BOOT and jumps to the kernel. -/
inductive HexLabel where
  | ack
  | eof
  | nak
  deriving DecidableEq

/-- A turn of the loop: the label, the bytes that `cl_putc` sends, and what is left. -/
structure HexTurn where
  label : HexLabel
  lenByte : Byte
  sumByte : Byte
  cl : Chainloader

/-- The bytes of `.Lhex_eof`, which are those of an ACK. -/
def hexReply (label : HexLabel) (cl : Chainloader) : HexTurn :=
  ⟨label, UInt8.ofNat cl.w26, lowByte cl.w27, { cl with w21 := cl.w21 + 1 }⟩

/-- `.Lhex_nak`. -/
def hexNak (cl : Chainloader) : HexTurn :=
  ⟨.nak, UInt8.ofNat cl.w26, lowByte (cl.w27 ^^^ 0xFF), cl⟩

/-- `.Lhex_loop`, with the line in the buffer. -/
def hexTurn (cl : Chainloader) : HexTurn :=
  if cl.w26 < 11 then hexReply .eof cl
  else
    let r := clParseHexRecord cl
    if r.1.msb then hexNak r.2
    else if r.1 ≠ 0 then hexReply .eof r.2
    else hexReply .ack r.2

/-! ## The flash loop of the host -/

/-- `int(c, 16)` of an upper-case digit. -/
def upperDigit (c : Byte) : Nat := if c ≤ 0x39 then c.toNat - 0x30 else c.toNat - 0x37

/-- `expected = int(record[-2:], 16)` -/
def hostExpected (record : List Byte) : Nat :=
  (record.drop (record.length - 2)).foldl (fun v c => 16 * v + upperDigit c) 0

inductive HostVerdict where
  | ack
  | nak
  | lenMismatch
  | mismatch
  deriving DecidableEq

/-- What the flash loop makes of the two bytes; it goes on after `ack` only. -/
def hostVerdict (record : List Byte) (lineLen cksum : Byte) : HostVerdict :=
  if lineLen.toNat ≠ record.length then .lenMismatch
  else if cksum.toNat = hostExpected record then .ack
  else if cksum.toNat = hostExpected record ^^^ 0xFF then .nak
  else .mismatch

/-- A record is sent, the bytes on the wire arrive in its place, and the host reads the reply. -/
def hexExchange (record : List Byte) (cl : Chainloader) (wire : List Byte) :
    Option (HostVerdict × HexTurn) :=
  (clGetline cl wire).map fun p =>
    let turn := hexTurn p.1
    (hostVerdict record turn.lenByte turn.sumByte, turn)

/-! ## Lines -/

theorem getlineFrom_le {wire rest : List Byte} {cl cl' : Chainloader} (hcl : cl.w26 ≤ 78)
    (h : getlineFrom cl wire = some (cl', rest)) : cl'.w26 ≤ 78 := by
  induction wire generalizing cl with
  | nil => cases h
  | cons c wire ih =>
      rw [getlineFrom] at h
      split at h
      · cases h
        exact hcl
      split at h
      · exact ih hcl h
      split at h
      · exact ih hcl h
      · rename_i hlt
        refine ih ?_ h
        show cl.w26 + 1 ≤ 78
        exact Nat.not_le.mp hlt

theorem getlineFrom_frame {wire rest : List Byte} {cl cl' : Chainloader}
    (h : getlineFrom cl wire = some (cl', rest)) :
    cl'.x24 = cl.x24 ∧ cl'.w20 = cl.w20 ∧ cl'.w21 = cl.w21 := by
  induction wire generalizing cl with
  | nil => cases h
  | cons c wire ih =>
      rw [getlineFrom] at h
      split at h
      · cases h
        exact ⟨rfl, rfl, rfl⟩
      split at h
      · exact ih h
      split at h
      · exact ih h
      · obtain ⟨hx24, hw20, hw21⟩ := ih h
        exact ⟨hx24, hw20, hw21⟩

/-! ## Records -/

theorem upperDigit_digits (b : Byte) :
    16 * (16 * 0 + upperDigit (hexDigitUpper (b.toNat / 16))) +
      upperDigit (hexDigitUpper (b.toNat % 16)) = b.toNat :=
  byte_all (p := fun b => 16 * (16 * 0 + upperDigit (hexDigitUpper (b.toNat / 16))) +
    upperDigit (hexDigitUpper (b.toNat % 16)) = b.toNat) (by decide +kernel) b

variable {recType : Byte} {address : Nat} {data record : List Byte}

theorem makeHexRecord_length (h : makeHexRecord recType address data = some record) :
    record.length = 11 + 2 * data.length := by
  rw [(makeHexRecord_eq h).2, List.length_cons, hexUpper_length, List.length_append, hexRaw]
  simp only [List.length_append, List.length_cons, List.length_nil]
  omega

theorem hostExpected_record (h : makeHexRecord recType address data = some record) :
    hostExpected record = (hexChecksum (hexRaw recType address data)).toNat := by
  generalize hck : hexChecksum (hexRaw recType address data) = ck
  have hrecord : record = (0x3A :: hexUpper (hexRaw recType address data)) ++
      [hexDigitUpper (ck.toNat / 16), hexDigitUpper (ck.toNat % 16)] := by
    rw [(makeHexRecord_eq h).2, hck, hexUpper_append]
    rfl
  rw [hostExpected, hrecord, List.length_append, List.drop_left' (by simp)]
  exact upperDigit_digits ck

/-! ## Rejected lines -/

theorem clDispatch_reject {h : HexHeader} {cl : Chainloader} (hret : (clDispatch h cl).1 = -1) :
    (clDispatch h cl).2 = cl := by
  rw [clDispatch] at hret ⊢
  split at hret
  · exact absurd (show (0 : W) = -1 from hret) (by decide)
  split at hret
  · exact absurd (show (1 : W) = -1 from hret) (by decide)
  split at hret
  · exact absurd (show (0 : W) = -1 from hret) (by decide)
  · rename_i h0 h1 h4
    rw [if_neg h0, if_neg h1, if_neg h4]

def lineSum (cl : Chainloader) : W :=
  ((parseData cl.line (parseHeader cl.line).w2.toNat 9 0 (parseHeader cl.line).sum cl.stage).1 +
    clHexByte cl.line (9 + 2 * (parseHeader cl.line).w2.toNat)) &&& 0xFF

def lineChecksum (cl : Chainloader) : Byte :=
  lowByte (clHexByte cl.line (9 + 2 * (parseHeader cl.line).w2.toNat))

/-- The tests of the parser, on the line: colon, sum and type. -/
def LineRejected (cl : Chainloader) : Prop :=
  cl.line 0 ≠ 0x3A ∨ lineSum cl ≠ 0 ∨
    ((parseHeader cl.line).w5 ≠ 0 ∧ (parseHeader cl.line).w5 ≠ 1 ∧ (parseHeader cl.line).w5 ≠ 4)

/-- What a rejected line leaves in the low byte of w27. -/
def leftByte (cl : Chainloader) : Byte :=
  if cl.line 0 ≠ 0x3A then lowByte cl.w27
  else if lineSum cl ≠ 0 then lowByte (lineSum cl)
  else lineChecksum cl

theorem clDispatch_reject_iff (h : HexHeader) (cl : Chainloader) :
    (clDispatch h cl).1 = -1 ↔ h.w5 ≠ 0 ∧ h.w5 ≠ 1 ∧ h.w5 ≠ 4 := by
  have h₀ : ¬(0 : W) = -1 := by decide
  have h₁ : ¬(1 : W) = -1 := by decide
  rw [clDispatch]
  split
  · rename_i hty
    exact iff_of_false h₀ fun hne => hne.1 hty
  split
  · rename_i hty
    exact iff_of_false h₁ fun hne => hne.2.1 hty
  split
  · rename_i hty
    exact iff_of_false h₀ fun hne => hne.2.2 hty
  · rename_i hne₀ hne₁ hne₄
    exact iff_of_true rfl ⟨hne₀, hne₁, hne₄⟩

theorem clParseHexRecord_reject_iff (cl : Chainloader) :
    (clParseHexRecord cl).1 = -1 ↔ LineRejected cl := by
  rw [clParseHexRecord, LineRejected]
  split
  · rename_i hcolon
    exact iff_of_true rfl (.inl hcolon)
  · rename_i hcolon
    dsimp only
    split
    · rename_i hsum
      exact iff_of_true rfl (.inr (.inl hsum))
    · rename_i hsum
      rw [clDispatch_reject_iff]
      exact ⟨fun hty => .inr (.inr hty),
        fun h => (h.resolve_left hcolon).resolve_left hsum⟩

theorem clParseHexRecord_reject {cl : Chainloader} (h : (clParseHexRecord cl).1 = -1) :
    (clParseHexRecord cl).2.x24 = cl.x24 ∧ (clParseHexRecord cl).2.w20 = cl.w20 ∧
      (clParseHexRecord cl).2.w21 = cl.w21 ∧ (clParseHexRecord cl).2.w26 = cl.w26 ∧
      lowByte (clParseHexRecord cl).2.w27 = leftByte cl := by
  rw [leftByte]
  rw [clParseHexRecord] at h ⊢
  split at h
  · -- no colon
    rename_i hcolon
    rw [if_pos hcolon, if_pos hcolon]
    exact ⟨rfl, rfl, rfl, rfl, rfl⟩
  · rename_i hcolon
    rw [if_neg hcolon, if_neg hcolon]
    dsimp only at h ⊢
    split at h
    · -- a wrong checksum
      rename_i hsum
      have hsum' : lineSum cl ≠ 0 := hsum
      rw [if_pos hsum, if_pos hsum']
      exact ⟨rfl, rfl, rfl, rfl, rfl⟩
    · rename_i hsum
      have hsum' : ¬lineSum cl ≠ 0 := hsum
      rw [if_neg hsum, if_neg hsum', clDispatch_reject h]
      exact ⟨rfl, rfl, rfl, rfl, rfl⟩

theorem hexTurn_reject {cl : Chainloader} (hlen : 11 ≤ cl.w26)
    (h : (clParseHexRecord cl).1 = -1) : hexTurn cl = hexNak (clParseHexRecord cl).2 := by
  have hmsb : (clParseHexRecord cl).1.msb = true := by
    rw [h]
    decide
  rw [hexTurn, if_neg (Nat.not_lt.mpr hlen)]
  exact if_pos hmsb

theorem hexTurn_short {cl : Chainloader} (hlen : cl.w26 < 11) :
    hexTurn cl = hexReply .eof cl := if_pos hlen

theorem hostVerdict_ack_iff {lineLen cksum : Byte} : hostVerdict record lineLen cksum = .ack ↔
    lineLen.toNat = record.length ∧ cksum.toNat = hostExpected record := by
  rw [hostVerdict]
  split
  · rename_i hlen
    exact iff_of_false HostVerdict.noConfusion fun h => hlen h.1
  rename_i hlen
  split
  · rename_i hck
    exact iff_of_true rfl ⟨not_not.mp hlen, hck⟩
  rename_i hck
  split
  · exact iff_of_false HostVerdict.noConfusion fun h => hck h.2
  · exact iff_of_false HostVerdict.noConfusion fun h => hck h.2

theorem lowByte_xor (w : W) : lowByte (w ^^^ 0xFF) = lowByte w ^^^ 0xFF := by
  apply UInt8.toNat_inj.mp
  rw [lowByte, lowByte, UInt8.toNat_xor, UInt8.toNat_ofNat', UInt8.toNat_ofNat',
    BitVec.toNat_xor, Nat.xor_mod_two_pow]
  rfl

/-! ## What the host takes for an ACK -/

def demoLoader : Chainloader := ⟨0, 0, 0, 0, 0, fun _ => 0, fun _ => 0, fun _ => 0⟩

/-- **The property**, of one exchange: if the line is rejected or too short to be parsed, the host
does not take the reply for an ACK, the chainloader stays in the loop, and nothing is counted. -/
def RejectedRefused (record : List Byte) (cl : Chainloader) (wire : List Byte) : Prop :=
  ∀ cl₁ rest verdict turn, clGetline cl wire = some (cl₁, rest) →
    hexExchange record cl wire = some (verdict, turn) →
    cl₁.w26 < 11 ∨ (clParseHexRecord cl₁).1 = -1 →
      verdict ≠ .ack ∧ turn.label ≠ .eof ∧ turn.cl.w20 = cl.w20 ∧ turn.cl.w21 = cl.w21

section
variable {cl cl₁ : Chainloader} {wire rest : List Byte}

theorem clGetline_lenByte (hline : clGetline cl wire = some (cl₁, rest)) :
    (UInt8.ofNat cl₁.w26).toNat = cl₁.w26 := by
  have hle : cl₁.w26 ≤ 78 := getlineFrom_le (Nat.zero_le 78) hline
  exact UInt8.toNat_ofNat_of_lt' (Nat.lt_of_le_of_lt hle (by decide))

theorem hexNak_acked_iff (hrecord : makeHexRecord recType address data = some record)
    (hline : clGetline cl wire = some (cl₁, rest)) (hret : (clParseHexRecord cl₁).1 = -1) :
    hostVerdict record (hexNak (clParseHexRecord cl₁).2).lenByte
        (hexNak (clParseHexRecord cl₁).2).sumByte = .ack ↔
      cl₁.w26 = record.length ∧
        leftByte cl₁ = hexChecksum (hexRaw recType address data) ^^^ 0xFF := by
  obtain ⟨-, -, -, hw26, hw27⟩ := clParseHexRecord_reject hret
  rw [hostVerdict_ack_iff, hexNak, hw26, clGetline_lenByte hline, lowByte_xor, hw27,
    hostExpected_record hrecord, UInt8.toNat_inj]
  refine and_congr_right fun _ => ⟨fun h => ?_, fun h => ?_⟩
  · rw [← h, UInt8.xor_assoc, UInt8.xor_self, UInt8.xor_zero]
  · rw [h, UInt8.xor_assoc, UInt8.xor_self, UInt8.xor_zero]

/-- **A rejected line.**  Whatever arrives in the place of a record: that it is refused if it has to
be, holds exactly where the line is not short and, if it is rejected, its length or what it leaves
in w27 shows it. -/
theorem rejected_line_refused_iff (hrecord : makeHexRecord recType address data = some record)
    (hline : clGetline cl wire = some (cl₁, rest)) :
    RejectedRefused record cl wire ↔ 11 ≤ cl₁.w26 ∧
      (LineRejected cl₁ → cl₁.w26 ≠ record.length ∨
        leftByte cl₁ ≠ hexChecksum (hexRaw recType address data) ^^^ 0xFF) := by
  have hexchange : hexExchange record cl wire =
      some (hostVerdict record (hexTurn cl₁).lenByte (hexTurn cl₁).sumByte, hexTurn cl₁) := by
    rw [hexExchange, hline]
    rfl
  obtain ⟨-, hw20, hw21⟩ := getlineFrom_frame hline
  constructor
  · intro h
    have hlong : 11 ≤ cl₁.w26 := by
      refine Nat.not_lt.mp fun hshort => ?_
      refine (h cl₁ rest _ _ hline hexchange (.inl hshort)).2.1 ?_
      rw [hexTurn_short hshort]
      rfl
    refine ⟨hlong, fun hrej => ?_⟩
    have hret := (clParseHexRecord_reject_iff cl₁).mpr hrej
    have hnot := (h cl₁ rest _ _ hline hexchange (.inr hret)).1
    rw [hexTurn_reject hlong hret] at hnot
    exact not_and_or.mp (mt (hexNak_acked_iff hrecord hline hret).mpr hnot)
  · rintro ⟨hlong, hshows⟩ cl₂ rest₂ verdict turn hline₂ hturn hbad
    rw [hline] at hline₂
    cases hline₂
    rw [hexchange] at hturn
    cases hturn
    have hret := hbad.resolve_left (Nat.not_lt.mpr hlong)
    obtain ⟨-, hw20', hw21', -⟩ := clParseHexRecord_reject hret
    have hrej := (clParseHexRecord_reject_iff cl₁).mp hret
    rw [hexTurn_reject hlong hret]
    refine ⟨mt (hexNak_acked_iff hrecord hline hret).mp (not_and_or.mpr (hshows hrej)),
      HexLabel.noConfusion, hw20'.trans hw20, hw21'.trans hw21⟩

end

/-- A record whose data have been damaged: it is rejected, and the sum 0xF1 that it leaves is not
the complement of the checksum. -/
theorem rejected_line_refused_demo :
    RejectedRefused (ascii ":01000000F20D") demoLoader (ascii ":01000000E30D\n") := by
  have hrecord : makeHexRecord 0x00 0 [0xF2] = some (ascii ":01000000F20D") := by
    decide +kernel
  have hget : (clGetline demoLoader (ascii ":01000000E30D\n")).map
      (fun p => (p.1.w26, leftByte p.1)) = some (13, 0xF1) := by
    decide +kernel
  obtain ⟨⟨cl₁, rest⟩, hline, hcl⟩ := Option.map_eq_some_iff.mp hget
  obtain ⟨hlen, hleft⟩ : cl₁.w26 = 13 ∧ leftByte cl₁ = 0xF1 := Prod.mk.inj hcl
  refine (rejected_line_refused_iff hrecord hline).mpr ⟨by omega, fun _ => .inr ?_⟩
  rw [hleft]
  decide +kernel

/-- The first two exchanges of a transfer, the second record with a damaged colon. -/
def demoDamaged : Option (List HostVerdict × HexTurn) := do
  let (first, turn) ← hexExchange (ascii ":020000040008F2") demoLoader
    (ascii ":020000040008F2\r\n")
  let (second, turn) ← hexExchange (ascii ":01000000F20D") turn.cl
    (ascii ";01000000F20D\r\n")
  pure ([first, second], turn)

/-- **Neither half holds of the code.**  The address record leaves its checksum 0xF2; the data
record behind it, received without its colon, is rejected and answered with the complement, which is
the checksum 0x0D that the host waits for.  And an empty line ends the loop. -/
theorem rejected_line_acked :
    kernelToHexRecords [0xF2] 0x80000 16 true =
        some [ascii ":020000040008F2", ascii ":01000000F20D", ascii ":00000001FF"] ∧
      demoDamaged.map (fun p => (p.1, p.2.label, p.2.cl.w20)) =
        some ([.ack, .ack], .nak, 0) ∧
      (hexExchange (ascii ":01000000F20D") demoLoader (ascii "\n")).map
        (fun p => p.2.label) = some .eof := by
  refine ⟨?_, ?_, ?_⟩ <;> decide +kernel

end WsPi5

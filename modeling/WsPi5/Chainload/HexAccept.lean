/-
# `WsPi5.Chainload.HexAccept` — which lines `cl_parse_hex_record` accepts

A record is a colon and hexadecimal digits: count, address, type, as many data bytes as the count
says, and a checksum that makes the sum of all bytes zero modulo 256.  Types are 00, 01 without
data and 04 with two bytes of data; the staging area on the stack takes 32 bytes.  That is
`IsHexRecord`.

The parser tests the colon, the sum and the type.  It does not test

    the digits        "G" is 16, ":" is a word near 2^32
    the count         against the staging area, nor for types 01 and 04
    the length        it reads on behind the line, in what earlier lines have left

and the sum is taken over what it has read.  `clParseHexRecordAt` is the parser on a buffer that
has the characters of the line and no others, with a staging area that has `lim` bytes and no
more: it has a result where the parser stays inside both.

**Proved here** (`hex_record_acceptance_iff`), for every state of the chainloader and every line
that `cl_getline` can store: the parser keeps to the line and the staging area, accepts exactly
the records, and leaves RAM, x24 and w20 alone otherwise, exactly where the line is not empty and
has no colon, or is a record, or is rejected after a count that fits the staging area and the line.
-/
import WsPi5.Chainload.HexLoop
import WsPi5.Lib.Region

namespace WsPi5

open Lib

/-! ## The grammar -/

def hexDigitValue (c : Byte) : Option Nat :=
  if 0x30 ≤ c ∧ c ≤ 0x39 then some (c.toNat - 0x30)
  else if 0x41 ≤ c ∧ c ≤ 0x46 then some (c.toNat - 0x37)
  else if 0x61 ≤ c ∧ c ≤ 0x66 then some (c.toNat - 0x57)
  else none

/-- The bytes that a line of digits spells, two digits for each. -/
def hexBytes : List Byte → Option (List Byte)
  | [] => some []
  | [_] => none
  | a :: b :: rest =>
      (hexDigitValue a).bind fun hi => (hexDigitValue b).bind fun lo =>
        (hexBytes rest).map (UInt8.ofNat (16 * hi + lo) :: ·)

def IsHexRecord (line : List Byte) : Prop :=
  ∃ digits ll hi lo ty data ck, line = 0x3A :: digits ∧
    hexBytes digits = some (ll :: hi :: lo :: ty :: (data ++ [ck])) ∧
    data.length = ll.toNat ∧ ll.toNat ≤ 32 ∧
    ((ll :: hi :: lo :: ty :: (data ++ [ck])).map UInt8.toNat).sum % 256 = 0 ∧
    (ty = 0 ∨ ty = 1 ∧ ll = 0 ∨ ty = 4 ∧ ll = 2)

/-! ## The parser, kept to the line and the staging area -/

section
variable (line : Nat → Option Byte)

/-- `cl_hex_byte`. -/
def clHexByteAt (w22 : Nat) : Option W :=
  (line (w22 % 2 ^ 32)).bind fun hi => (line ((w22 + 1) % 2 ^ 32)).map fun lo =>
    clHexNibble lo ||| clHexNibble hi <<< 4

/-- LL, AAAA and TT. -/
def parseHeaderAt : Option HexHeader :=
  (clHexByteAt line 1).bind fun w2 => (clHexByteAt line 3).bind fun hi =>
    (clHexByteAt line 5).bind fun lo => (clHexByteAt line 7).map fun w5 => ⟨w2, lo ||| hi <<< 8, w5⟩

/-- `.Lparse_data`, with a staging area of `lim` bytes. -/
def parseDataAt (lim : Nat) : (n w22 w6 : Nat) → W → (Nat → Byte) → Option (W × (Nat → Byte))
  | 0, _, _, w27, stage => some (w27, stage)
  | n + 1, w22, w6, w27, stage =>
      (clHexByteAt line w22).bind fun w0 =>
        if w6 < lim then
          parseDataAt lim n (w22 + 2) (w6 + 1) (w27 + w0) (Function.update stage w6 (lowByte w0))
        else none

/-- `cl_parse_hex_record`. -/
def clParseHexRecordAt (lim : Nat) (cl : Chainloader) : Option (W × Chainloader) :=
  (line 0).bind fun c =>
    if c ≠ 0x3A then some (-1, cl)
    else (parseHeaderAt line).bind fun h =>
      (parseDataAt line lim h.w2.toNat 9 0 h.sum cl.stage).bind fun data =>
        (clHexByteAt line (9 + 2 * h.w2.toNat)).map fun w0 =>
          let w27 := (data.1 + w0) &&& 0xFF
          if w27 ≠ 0 then (-1, { cl with stage := data.2, w27 })
          else clDispatch h { cl with stage := data.2, w27 := w0 }

end

def Chainloader.withLine (cl : Chainloader) (line : List Byte) : Chainloader :=
  { cl with line := memWrite cl.line 0 line, w26 := line.length }

/-- **The law of acceptance**: inside the line and the 32 bytes of the staging area, exactly the
records, and nothing is done on an error. -/
structure HexAcceptance (cl : Chainloader) (line : List Byte) : Prop where
  inside : clParseHexRecordAt (region 0 line) 32 (cl.withLine line) = some (clFeed cl line)
  exact : (clFeed cl line).1 ≠ -1 ↔ IsHexRecord line
  onError : (clFeed cl line).1 = -1 → (clFeed cl line).2.mem = cl.mem ∧
    (clFeed cl line).2.x24 = cl.x24 ∧ (clFeed cl line).2.w20 = cl.w20

/-! ## Where the law holds -/

def lineChars (line : List Byte) (i : Nat) : Byte := line.getD i 0

def hexCount (buf : Nat → Byte) : Nat := (clHexByte buf 1).toNat

def hexSum (buf : Nat → Byte) : W :=
  (parseHeader buf).sum + ((List.range (hexCount buf)).map fun k => clHexByte buf (9 + 2 * k)).sum +
    clHexByte buf (9 + 2 * hexCount buf)

/-- The two tests behind the colon: the sum and the type. -/
def hexPasses (buf : Nat → Byte) : Prop :=
  hexSum buf &&& 0xFF = 0 ∧
    ((parseHeader buf).w5 = 0 ∨ (parseHeader buf).w5 = 1 ∨ (parseHeader buf).w5 = 4)

/-- The count fits the staging area and the line. -/
def hexFits (line : List Byte) : Prop :=
  hexCount (lineChars line) ≤ 32 ∧ 11 + 2 * hexCount (lineChars line) ≤ line.length

/-- The lines on which the parser does what it is to do. -/
def HexLineLawful (line : List Byte) : Prop :=
  ∃ c rest, line = c :: rest ∧
    (c ≠ 0x3A ∨ IsHexRecord line ∨ hexFits line ∧ ¬ hexPasses (lineChars line))

/-! ## Buffers that hold the line -/

def Covers (buf : Nat → Byte) (cs : List Byte) : Prop :=
  ∀ i (h : i < cs.length), buf i = cs[i]

theorem covers_memWrite (buf : Nat → Byte) (line : List Byte) :
    Covers (memWrite buf 0 line) line := by
  intro i h
  have hget := @memWrite_get _ line buf 0 i h
  rwa [Nat.zero_add] at hget

theorem covers_lineChars (line : List Byte) : Covers (lineChars line) line := by
  intro i h
  rw [lineChars, List.getD_eq_getElem?_getD, List.getElem?_eq_getElem h]
  rfl

section
variable {buf buf' : Nat → Byte} {line : List Byte}

theorem clHexByte_congr (h : Covers buf line) (h' : Covers buf' line) (hlen : line.length < 2 ^ 32)
    {i : Nat} (hi : i + 2 ≤ line.length) : clHexByte buf i = clHexByte buf' i := by
  rw [clHexByte, clHexByte, Nat.mod_eq_of_lt (by omega), Nat.mod_eq_of_lt (by omega),
    h i (by omega), h (i + 1) (by omega), h' i (by omega), h' (i + 1) (by omega)]

theorem hexCount_congr (h : Covers buf line) (h' : Covers buf' line) (hlen : line.length < 2 ^ 32)
    (h3 : 3 ≤ line.length) : hexCount buf = hexCount buf' :=
  congrArg BitVec.toNat (clHexByte_congr h h' hlen h3)

theorem parseHeader_congr (h : Covers buf line) (h' : Covers buf' line)
    (hlen : line.length < 2 ^ 32) (h9 : 9 ≤ line.length) : parseHeader buf = parseHeader buf' := by
  rw [parseHeader, parseHeader, clHexByte_congr h h' hlen (i := 1) (by omega),
    clHexByte_congr h h' hlen (i := 3) (by omega), clHexByte_congr h h' hlen (i := 5) (by omega),
    clHexByte_congr h h' hlen (i := 7) h9]

theorem hexPasses_congr (h : Covers buf line) (h' : Covers buf' line)
    (hlen : line.length < 2 ^ 32) (hfit : 11 + 2 * hexCount buf' ≤ line.length) :
    hexPasses buf ↔ hexPasses buf' := by
  have hcount : hexCount buf = hexCount buf' := hexCount_congr h h' hlen (by omega)
  have hdata : ((List.range (hexCount buf')).map fun k => clHexByte buf (9 + 2 * k))
      = (List.range (hexCount buf')).map fun k => clHexByte buf' (9 + 2 * k) := by
    refine List.map_congr_left fun k hk => clHexByte_congr h h' hlen ?_
    have hk := List.mem_range.mp hk
    omega
  rw [hexPasses, hexPasses, hexSum, hexSum, hcount, hdata,
    parseHeader_congr h h' hlen (by omega), clHexByte_congr h h' hlen (i := 9 + 2 * _) (by omega)]

/-! ## Inside the line -/

theorem clHexByteAt_eq (h : Covers buf line) {i : Nat} (hi : i + 1 < 2 ^ 32) :
    clHexByteAt (region 0 line) i
      = if i + 2 ≤ line.length then some (clHexByte buf i) else none := by
  have hregion : ∀ p, region 0 line p = (line)[p]? := fun p => if_pos (Nat.zero_le p)
  rw [clHexByteAt, Nat.mod_eq_of_lt (by omega), Nat.mod_eq_of_lt hi, hregion, hregion]
  by_cases hin : i + 2 ≤ line.length
  · rw [if_pos hin, List.getElem?_eq_getElem (by omega), List.getElem?_eq_getElem (by omega),
      clHexByte, Nat.mod_eq_of_lt hi, Nat.mod_eq_of_lt (by omega), h i (by omega),
      h (i + 1) (by omega)]
    rfl
  · rw [if_neg hin, List.getElem?_eq_none (i := i + 1) (by omega)]
    cases (line)[i]? <;> rfl

theorem parseHeaderAt_eq (h : Covers buf line) :
    parseHeaderAt (region 0 line) = if 9 ≤ line.length then some (parseHeader buf) else none := by
  rw [parseHeaderAt, clHexByteAt_eq h (by decide), clHexByteAt_eq h (by decide),
    clHexByteAt_eq h (by decide), clHexByteAt_eq h (by decide)]
  by_cases h9 : 9 ≤ line.length
  · rw [if_pos (by omega), if_pos (by omega), if_pos (by omega), if_pos h9, if_pos h9]
    rfl
  · rw [if_neg h9, if_neg (c := 7 + 2 ≤ line.length) h9]
    split <;> split <;> split <;> rfl

theorem parseDataAt_eq (h : Covers buf line) (hlen : line.length + 2 < 2 ^ 32) {lim : Nat} :
    ∀ {n w22 w6 : Nat} {w27 : W} {stage : Nat → Byte}, w22 ≤ line.length → w6 ≤ lim →
      parseDataAt (region 0 line) lim n w22 w6 w27 stage =
        if w22 + 2 * n ≤ line.length ∧ w6 + n ≤ lim then some (parseData buf n w22 w6 w27 stage)
        else none := by
  intro n
  induction n with
  | zero =>
      intro w22 w6 w27 stage h22 h6
      rw [if_pos ⟨h22, h6⟩]
      rfl
  | succ n ih =>
      intro w22 w6 w27 stage h22 h6
      rw [parseDataAt, clHexByteAt_eq h (by omega)]
      by_cases hread : w22 + 2 ≤ line.length
      swap
      · rw [if_neg hread, if_neg (by omega)]
        rfl
      rw [if_pos hread, Option.bind_some]
      by_cases hstore : w6 < lim
      swap
      · rw [if_neg hstore, if_neg (by omega)]
      rw [if_pos hstore, ih hread hstore]
      by_cases hfit : w22 + 2 * (n + 1) ≤ line.length ∧ w6 + (n + 1) ≤ lim
      · rw [if_pos hfit, if_pos (by omega)]
        rfl
      · rw [if_neg hfit, if_neg (by omega)]

end

/-- The parser keeps inside exactly where there is no colon, or the count fits. -/
theorem clParseHexRecordAt_iff {cl : Chainloader} {line : List Byte} (h : Covers cl.line line)
    (hlen : line.length ≤ 78) :
    clParseHexRecordAt (region 0 line) 32 cl = some (clParseHexRecord cl) ↔
      ∃ c rest, line = c :: rest ∧ (c ≠ 0x3A ∨ hexFits line) := by
  cases line with
  | nil =>
      constructor
      · intro hsome
        cases hsome
      · rintro ⟨_, _, hline, _⟩
        cases hline
  | cons c rest =>
      have hc : cl.line 0 = c := h 0 (Nat.succ_pos _)
      have hread : region 0 (c :: rest) 0 = some c := rfl
      have hline : (∃ c' rest', c :: rest = c' :: rest' ∧ (c' ≠ 0x3A ∨ hexFits (c :: rest))) ↔
          (c ≠ 0x3A ∨ hexFits (c :: rest)) := by
        constructor
        · rintro ⟨_, _, heq, hor⟩
          exact (List.cons.inj heq).1 ▸ hor
        · exact fun hor => ⟨c, rest, rfl, hor⟩
      rw [hline, clParseHexRecordAt, hread, Option.bind_some, clParseHexRecord, hc]
      by_cases hcolon : c = 0x3A
      swap
      · rw [if_pos hcolon, if_pos hcolon]
        exact iff_of_true rfl (.inl hcolon)
      rw [if_neg (not_not_intro hcolon), if_neg (not_not_intro hcolon), parseHeaderAt_eq h]
      generalize hl : c :: rest = line at h hlen ⊢
      have hcov := covers_lineChars line
      -- what does not fit has no result, and breaks the rule
      have hout : ∀ {o : Option (W × Chainloader)} {r : W × Chainloader}, o = none →
          ¬ hexFits line → (o = some r ↔ c ≠ 0x3A ∨ hexFits line) := fun ho hfit =>
        iff_of_false (by rw [ho]; exact Option.some_ne_none _ ∘ Eq.symm) fun hor =>
          hor.elim (· hcolon) hfit
      by_cases h9 : 9 ≤ line.length
      swap
      · rw [if_neg h9]
        exact hout rfl fun hfit => by have := hfit.2; omega
      have hcount : (parseHeader cl.line).w2.toNat = hexCount (lineChars line) :=
        hexCount_congr h hcov (by omega) (by omega)
      rw [if_pos h9, Option.bind_some, hcount]
      rw [parseDataAt_eq h (by omega) h9 (Nat.zero_le 32)]
      by_cases hdata : 9 + 2 * hexCount (lineChars line) ≤ line.length ∧
          0 + hexCount (lineChars line) ≤ 32
      swap
      · rw [if_neg hdata]
        exact hout rfl fun hfit => hdata ⟨by have := hfit.2; omega, by have := hfit.1; omega⟩
      rw [if_pos hdata, Option.bind_some, clHexByteAt_eq h (by omega)]
      by_cases hck : 9 + 2 * hexCount (lineChars line) + 2 ≤ line.length
      · rw [if_pos hck]
        exact iff_of_true (by dsimp only; rw [hcount]; rfl)
          (.inr ⟨by omega, by omega⟩)
      · rw [if_neg hck]
        exact hout rfl fun hfit => hck (by have := hfit.2; omega)

/-! ## Accepted lines -/

theorem parseData_fst (buf : Nat → Byte) : ∀ (n w22 w6 : Nat) (w27 : W) (stage : Nat → Byte),
    (parseData buf n w22 w6 w27 stage).1
      = w27 + ((List.range n).map fun k => clHexByte buf (w22 + 2 * k)).sum := by
  intro n
  induction n with
  | zero => intro w22 w6 w27 stage; simp [parseData]
  | succ n ih =>
      intro w22 w6 w27 stage
      have hshift : ((fun k => clHexByte buf (w22 + 2 * k)) ∘ Nat.succ)
          = fun k => clHexByte buf (w22 + 2 + 2 * k) := by
        funext k
        show clHexByte buf (w22 + 2 * (k + 1)) = _
        rw [Nat.mul_succ, Nat.add_comm (2 * k) 2, Nat.add_assoc]
      rw [parseData, ih, List.range_succ_eq_map, List.map_cons, List.sum_cons, List.map_map, hshift,
        BitVec.add_assoc]
      rfl

theorem clDispatch_accepts (h : HexHeader) (cl : Chainloader) :
    (clDispatch h cl).1 ≠ -1 ↔ h.w5 = 0 ∨ h.w5 = 1 ∨ h.w5 = 4 := by
  rw [clDispatch]
  by_cases h0 : h.w5 = 0
  · rw [if_pos h0]
    exact iff_of_true (show (0 : W) ≠ -1 by decide) (.inl h0)
  by_cases h1 : h.w5 = 1
  · rw [if_neg h0, if_pos h1]
    exact iff_of_true (show (1 : W) ≠ -1 by decide) (.inr (.inl h1))
  by_cases h4 : h.w5 = 4
  · rw [if_neg h0, if_neg h1, if_pos h4]
    exact iff_of_true (show (0 : W) ≠ -1 by decide) (.inr (.inr h4))
  · rw [if_neg h0, if_neg h1, if_neg h4]
    exact iff_of_false (not_not_intro rfl) fun h => h.elim h0 fun h => h.elim h1 h4

theorem clParseHexRecord_accepts (cl : Chainloader) :
    (clParseHexRecord cl).1 ≠ -1 ↔ cl.line 0 = 0x3A ∧ hexPasses cl.line := by
  rw [clParseHexRecord]
  by_cases hcolon : cl.line 0 = 0x3A
  swap
  · rw [if_pos hcolon]
    exact iff_of_false (not_not_intro rfl) fun h => hcolon h.1
  rw [if_neg (not_not_intro hcolon)]
  dsimp only
  rw [parseData_fst]
  show (if hexSum cl.line &&& 0xFF ≠ 0 then (-1, _)
    else clDispatch (parseHeader cl.line) _).1 ≠ -1 ↔ _
  by_cases hsum : hexSum cl.line &&& 0xFF = 0
  · rw [if_neg (not_not_intro hsum), clDispatch_accepts]
    exact ⟨fun htype => ⟨hcolon, hsum, htype⟩, fun h => h.2.2⟩
  · rw [if_pos hsum]
    exact iff_of_false (not_not_intro rfl) fun h => hsum h.2.1

theorem clParseHexRecord_errorMem {cl : Chainloader} (h : (clParseHexRecord cl).1 = -1) :
    (clParseHexRecord cl).2.mem = cl.mem := by
  rw [clParseHexRecord] at h ⊢
  split at h
  · rename_i hcolon
    rw [if_pos hcolon]
  · rename_i hcolon
    rw [if_neg hcolon]
    dsimp only at h ⊢
    split at h
    · rename_i hsum
      rw [if_pos hsum]
    · rename_i hsum
      rw [if_neg hsum, clDispatch_reject h]

/-! ## Records -/

theorem clHexNibble_digitValue {c : Byte} {x : Nat} (h : hexDigitValue c = some x) :
    x < 16 ∧ clHexNibble c = ldrb (UInt8.ofNat x) := by
  have hall := byte_all (p := fun c => (hexDigitValue c).all (fun x =>
    decide (x < 16 ∧ clHexNibble c = ldrb (UInt8.ofNat x))) = true) (by decide +kernel) c
  rw [h] at hall
  exact of_decide_eq_true hall

theorem ldrb_nibbles : ∀ hi < 16, ∀ lo < 16,
    ldrb (UInt8.ofNat lo) ||| ldrb (UInt8.ofNat hi) <<< 4 = ldrb (UInt8.ofNat (16 * hi + lo)) := by
  decide +kernel

theorem hexBytes_read {buf : Nat → Byte} : ∀ {digits raw : List Byte} {off : Nat},
    hexBytes digits = some raw → off + digits.length < 2 ^ 32 →
    (∀ i (h : i < digits.length), buf (off + i) = digits[i]) →
    digits.length = 2 * raw.length ∧
      ∀ k (h : k < raw.length), clHexByte buf (off + 2 * k) = ldrb raw[k]
  | [], raw, off, h, _, _ => by
      cases h
      exact ⟨rfl, fun k hk => nomatch hk⟩
  | [_], raw, off, h, _, _ => nomatch h
  | a :: b :: rest, raw, off, h, hlen, hbuf => by
      obtain ⟨hi, ha, h⟩ := Option.bind_eq_some_iff.mp h
      obtain ⟨lo, hb, h⟩ := Option.bind_eq_some_iff.mp h
      obtain ⟨tail, hrest, rfl⟩ := Option.map_eq_some_iff.mp h
      simp only [List.length_cons] at hlen ⊢
      obtain ⟨hcount, hbytes⟩ := @hexBytes_read buf rest tail (off + 2) hrest (by omega) (by
        intro i hi
        have hget := hbuf (i + 2) (by simp only [List.length_cons]; omega)
        rw [show off + 2 + i = off + (i + 2) by omega, hget]
        rfl)
      refine ⟨by omega, ?_⟩
      intro k hk
      cases k with
      | zero =>
          obtain ⟨hhi, hna⟩ := clHexNibble_digitValue ha
          obtain ⟨hlo, hnb⟩ := clHexNibble_digitValue hb
          have h0 : buf off = a := hbuf 0 (by simp)
          have h1 : buf (off + 1) = b := hbuf 1 (by simp)
          rw [Nat.mul_zero, Nat.add_zero, clHexByte, Nat.mod_eq_of_lt (by omega),
            Nat.mod_eq_of_lt (by omega), h0, h1, hna, hnb, ldrb_nibbles hi hhi lo hlo]
          rfl
      | succ k =>
          rw [show off + 2 * (k + 1) = off + 2 + 2 * k by omega]
          exact hbytes k (Nat.lt_of_succ_lt_succ hk)

theorem hexChecksum_unique {raw : List Byte} {ck : Byte}
    (h : ((raw ++ [ck]).map UInt8.toNat).sum % 256 = 0) : ck = hexChecksum raw := by
  have hhost := hexChecksum_toNat raw
  have hck := ck.toNat_lt
  have hhck := (hexChecksum raw).toNat_lt
  rw [List.map_append, List.sum_append] at h
  simp only [List.map_cons, List.map_nil, List.sum_cons, List.sum_nil, Nat.add_zero] at h
  apply UInt8.toNat_inj.mp
  omega

theorem IsHexRecord.accepted {line : List Byte} (h : IsHexRecord line) {cl : Chainloader}
    (hlen : line.length < 2 ^ 32) (hcov : Covers cl.line line) :
    hexFits line ∧ (clParseHexRecord cl).1 ≠ -1 := by
  obtain ⟨digits, ll, hi, lo, ty, data, ck, rfl, hbytes, hdata, hll, hsum, hty⟩ := h
  have hsucc : (0x3A :: digits).length = digits.length + 1 := rfl
  have hread : ∀ {buf : Nat → Byte}, Covers buf (0x3A :: digits) → _ := fun {buf} hb =>
    @hexBytes_read buf digits _ 1 hbytes (by omega) fun i hi => by
      rw [Nat.add_comm]
      exact hb (i + 1) (Nat.succ_lt_succ hi)
  obtain ⟨hcount, hraw⟩ := hread hcov
  simp only [List.length_cons, List.length_append, List.length_nil] at hcount
  refine ⟨?_, ?_⟩
  · -- the count is that of the data
    have hfirst := (hread (covers_lineChars _)).2 0 (by simp)
    have hn : hexCount (lineChars (0x3A :: digits)) = ll.toNat := by
      rw [hexCount]
      exact (congrArg BitVec.toNat hfirst).trans (ldrb_toNat ll)
    rw [hexFits, hn]
    exact ⟨hll, by omega⟩
  · have hck := @hexChecksum_unique (ll :: hi :: lo :: ty :: data) ck hsum
    have haddr : UInt8.ofNat ((hi.toNat * 256 + lo.toNat) >>> 8) = hi ∧
        UInt8.ofNat (hi.toNat * 256 + lo.toNat) = lo := by
      have hlo := lo.toNat_lt
      have hhi := hi.toNat_lt
      constructor
      · rw [Nat.shiftRight_eq_div_pow]
        apply UInt8.toNat_inj.mp
        rw [UInt8.toNat_ofNat']
        omega
      · apply UInt8.toNat_inj.mp
        rw [UInt8.toNat_ofNat']
        omega
    have hhost : hexRaw ty (hi.toNat * 256 + lo.toNat) data = ll :: hi :: lo :: ty :: data := by
      rw [hexRaw, haddr.1, haddr.2, hdata, UInt8.ofNat_toNat]
      rfl
    have hholds : HoldsRaw cl.line (hexRaw ty (hi.toNat * 256 + lo.toNat) data ++
        [hexChecksum (hexRaw ty (hi.toNat * 256 + lo.toNat) data)]) := by
      rw [hhost, ← hck]
      exact ⟨hcov 0 (Nat.succ_pos _), hraw⟩
    rw [clParseHexRecord_holds (by omega) hholds, clDispatch_accepts]
    show ldrb ty = 0 ∨ ldrb ty = 1 ∨ ldrb ty = 4
    obtain rfl | ⟨rfl, -⟩ | ⟨rfl, -⟩ := hty
    · exact .inl rfl
    · exact .inr (.inl rfl)
    · exact .inr (.inr rfl)

/-! ## All lines -/

/-- **Acceptance.**  For every state and every line of at most 78 characters: the law of acceptance
holds exactly for the lawful lines. -/
theorem hex_record_acceptance_iff (cl : Chainloader) (line : List Byte) (hlen : line.length ≤ 78) :
    HexAcceptance cl line ↔ HexLineLawful line := by
  have hcov : Covers (cl.withLine line).line line := covers_memWrite cl.line line
  have hinside := clParseHexRecordAt_iff hcov hlen
  have haccept := clParseHexRecord_accepts (cl.withLine line)
  have hrecord : IsHexRecord line → hexFits line ∧ (clFeed cl line).1 ≠ -1 := fun h =>
    h.accepted (by omega) hcov
  constructor
  · rintro ⟨hin, hexact, -⟩
    obtain ⟨c, rest, rfl, hor⟩ := hinside.mp hin
    refine ⟨c, rest, rfl, ?_⟩
    by_cases hcolon : c = 0x3A
    swap
    · exact .inl hcolon
    have hfit := hor.resolve_left (not_not_intro hcolon)
    by_cases hpass : hexPasses (lineChars (c :: rest))
    · refine .inr (.inl (hexact.mp (haccept.mpr ⟨(hcov 0 (Nat.succ_pos _)).trans hcolon, ?_⟩)))
      exact (hexPasses_congr hcov (covers_lineChars _) (by omega) hfit.2).mpr hpass
    · exact .inr (.inr ⟨hfit, hpass⟩)
  · rintro ⟨c, rest, rfl, hlawful⟩
    have hfirst : (cl.withLine (c :: rest)).line 0 = c := hcov 0 (Nat.succ_pos _)
    refine ⟨hinside.mpr ⟨c, rest, rfl, ?_⟩, ⟨fun haccepted => ?_, fun h => (hrecord h).2⟩, ?_⟩
    · exact hlawful.imp_right fun h => h.elim (fun h => (hrecord h).1) And.left
    · -- an accepted line has the colon and passes the tests
      obtain ⟨hcolon, hpass⟩ := haccept.mp haccepted
      rcases hlawful with hne | hrec | ⟨hfit, hnot⟩
      · exact absurd (hfirst.symm.trans hcolon) hne
      · exact hrec
      · exact absurd ((hexPasses_congr hcov (covers_lineChars _) (by omega) hfit.2).mp hpass) hnot
    · intro herror
      obtain ⟨hx24, hw20, -⟩ := clParseHexRecord_reject herror
      exact ⟨clParseHexRecord_errorMem herror, hx24, hw20⟩

/-- A data record of the host. -/
theorem hex_record_acceptance_demo : HexAcceptance demoLoader (ascii ":0100000055AA") := by
  refine (hex_record_acceptance_iff demoLoader (ascii ":0100000055AA") (by decide +kernel)).mpr ?_
  refine ⟨0x3A, ascii "0100000055AA", by decide +kernel, .inr (.inl ?_)⟩
  refine ⟨ascii "0100000055AA", 1, 0, 0, 0, [0x55], 0xAA, ?_⟩
  decide +kernel

/-- 33 data bytes: a line of 77 characters. -/
def longRecord : List Byte := ascii ":21000000" ++ List.replicate 66 0x30 ++ ascii "DF"

/-- **Accepted lines that are no records.**  One with 33 data bytes, which leave the staging area;
an address with the digit "G"; and the first 11 characters of a record of two bytes, where the
buffer still has the other four of the line before. -/
theorem hex_record_slips :
    (¬ HexAcceptance demoLoader longRecord ∧ (clFeed demoLoader longRecord).1 = 0) ∧
    (¬ HexAcceptance demoLoader (ascii ":000G0001EF") ∧
      (clFeed demoLoader (ascii ":000G0001EF")).1 = 1) ∧
    (clFeeds demoLoader [ascii ":020000000000FE", ascii ":0200000000"]).1 = [0, 0] := by
  refine ⟨⟨fun h => ?_, by decide +kernel⟩, ⟨fun h => ?_, by decide +kernel⟩, by decide +kernel⟩
  · have hnone : (clParseHexRecordAt (region 0 longRecord) 32
        (demoLoader.withLine longRecord)).isSome = false := by
      decide +kernel
    rw [h.inside] at hnone
    cases hnone
  · have haccepted : (clFeed demoLoader (ascii ":000G0001EF")).1 ≠ -1 := by
      decide +kernel
    obtain ⟨digits, ll, hi, lo, ty, data, ck, hline, hbytes, -⟩ := h.exact.mp haccepted
    have hdigits : digits = (ascii ":000G0001EF").tail := by
      rw [hline]
      rfl
    have hnone : hexBytes (ascii ":000G0001EF").tail = none := by
      decide +kernel
    rw [hdigits, hnone] at hbytes
    cases hbytes

end WsPi5

/-
# `WsPi5.Http.Status` — the page of `lib/http_status.S`, as the Pi 4 build has it

The page is written by five helpers, one after the other, without a look at the room there is:

    .Lsg_copy, .Lsg_copy_asciz            fixed text
    .Lsg_write_decimal, .._w_nl           a number
    .Lsg_write_signed_decimal_w_nl        a number with its sign
    .Lsg_write_dotted_w_nl                four bytes

A number's digits are pushed, last digit first, into sixteen bytes below the stack pointer.

**Proved here** (`status_fits_iff`): the page fits the 1024 bytes it is given, and the digits their
sixteen, exactly if the uptime has at most 16 digits and the numbers of the page have at most 223
digits together.  With all counters at their largest they have more.
-/
import WsPi5.Http.Types
import WsPi5.Lib.Utf8

namespace WsPi5

open Lib

/-! ## What the page shows -/

/-- The words read by `http_status_generate`. -/
structure StatusInputs where
  ticks : BitVec 64
  freq : BitVec 64
  tcpStates : Fin tcpMaxConns → Byte
  httpRequestCount : W
  dhcpCountSendDiscover : W
  dhcpCountResendDiscover : W
  dhcpCountRecordOfferSendRequest : W
  dhcpCountResendRequestSelecting : W
  dhcpCountCommitLeaseArmTimers : W
  dhcpCountSendRequestRenew : W
  dhcpCountResendRequestRenew : W
  dhcpCountSendRequestRebind : W
  dhcpCountResendRequestRebind : W
  dhcpCountPanicD : W
  mdnsState : W
  announcedIp : Fin 4 → Byte
  priorAnnouncedIp : Fin 4 → Byte
  netOurIp : Fin 4 → Byte
  timerPool : BitVec 64
  timerSlot : W
  mdnsCountTimerCb : W
  mem : BitVec 64 → BitVec 64
  genetWdResetCount : W
  genetTxConsecTimeouts : W
  swdBootRsts : W
  swdPetCount : W

def tcpsEstablished : Byte := 3

namespace StatusInputs
variable (s : StatusInputs)

/-- x21. -/
def uptime : Nat := s.ticks.toNat / s.freq.toNat

/-- w22, from `.Lsg_scan`. -/
def active : Nat := (List.finRange tcpMaxConns).countP fun i => tcpsEstablished ≤ s.tcpStates i

/-- The pool is there, and the slot's number is one of its sixteen. -/
def slotRead : Bool := s.timerPool ≠ 0 && 0 ≤ s.timerSlot.toInt && s.timerSlot.toInt < 16

/-- SLOT_CALLBACK of the slot. -/
def slotCallback : BitVec 64 := s.mem (s.timerPool + 8 + s.timerSlot.signExtend 64 * 32 + 8)

end StatusInputs

/-! ## The helpers -/

/-- What a helper is called with: text, or a number for `.Lsg_write_decimal`. -/
inductive StatusPiece where
  | text (bytes : List Byte)
  | decimal (x0 : Nat)

def writeDecimalWNl (x0 : Nat) : List StatusPiece := [.decimal x0, .text (ascii "\n")]

def writeSignedDecimalWNl (x0 : Int) : List StatusPiece :=
  (if x0 < 0 then [.text (ascii "-")] else []) ++ writeDecimalWNl x0.natAbs

def writeDottedWNl (ip : Fin 4 → Byte) : List StatusPiece :=
  [.decimal (ip 0).toNat, .text (ascii "."), .decimal (ip 1).toNat, .text (ascii "."),
    .decimal (ip 2).toNat, .text (ascii "."), .decimal (ip 3).toNat, .text (ascii "\n")]

/-- A label and a 32-bit counter. -/
def counterLine (label : String) (w0 : W) : List StatusPiece :=
  .text (ascii label) :: writeDecimalWNl w0.toNat

/-- `.Lsg_dec_loop`, at most `n` turns, into a scratch area of 16 bytes. -/
def decLoop : Nat → Nat → List Byte → Option (List Byte)
  | 0, x0, scratch => if x0 = 0 then some scratch else none
  | n + 1, x0, scratch =>
      if x0 = 0 then some scratch
      else if scratch.length < 16 then
        decLoop n (x0 / 10) (scratch ++ [UInt8.ofNat (x0 - x0 / 10 * 10 + 0x30)])
      else none

/-- `.Lsg_write_decimal`; `none` if a digit is written past the scratch area.  A double word has up
to 20 digits. -/
def writeDecimal (x0 : Nat) : Option (List Byte) :=
  if x0 = 0 then some (ascii "0") else (decLoop 20 x0 []).map List.reverse

def writePieces : List StatusPiece → Option (List Byte)
  | [] => some []
  | .text bytes :: ps => (writePieces ps).map (bytes ++ ·)
  | .decimal x0 :: ps => (writeDecimal x0).bind fun d => (writePieces ps).map (d ++ ·)

/-! ## The page -/

def statusPrefix : List Byte :=
  ascii "<!DOCTYPE html>\n<html><head><title>Status</title></head>\n" ++
  ascii "<body>\n<h1>ws_pi5 Status</h1>\n" ++
  ascii "<table>\n<tr><td>Uptime (seconds)</td><td>"
def statusMid1 : List Byte := ascii "</td></tr>\n<tr><td>Active connections</td><td>"
def statusMid2 : List Byte := ascii "</td></tr>\n<tr><td>Requests served</td><td>"
def statusDiagPrefix : List Byte := ascii "</td></tr>\n</table>\n<h2>Diagnostics</h2>\n<pre>\n"
def statusDiagSuffix : List Byte := ascii "</pre>\n"
def statusSuffix : List Byte := ascii "</body></html>\n"

def statusTable (s : StatusInputs) : List StatusPiece :=
  [.text statusPrefix, .decimal s.uptime, .text statusMid1, .decimal s.active, .text statusMid2,
    .decimal s.httpRequestCount.toNat, .text statusDiagPrefix]

/-- The DHCP handlers' counters. -/
def statusDhcp (s : StatusInputs) : List StatusPiece :=
  counterLine "dhcp_send_discover= " s.dhcpCountSendDiscover ++
  counterLine "dhcp_resend_discover= " s.dhcpCountResendDiscover ++
  counterLine "dhcp_record_offer_send_request= " s.dhcpCountRecordOfferSendRequest ++
  counterLine "dhcp_resend_request_selecting= " s.dhcpCountResendRequestSelecting ++
  counterLine "dhcp_commit_lease_arm_timers= " s.dhcpCountCommitLeaseArmTimers ++
  counterLine "dhcp_send_request_renew= " s.dhcpCountSendRequestRenew ++
  counterLine "dhcp_resend_request_renew= " s.dhcpCountResendRequestRenew ++
  counterLine "dhcp_send_request_rebind= " s.dhcpCountSendRequestRebind ++
  counterLine "dhcp_resend_request_rebind= " s.dhcpCountResendRequestRebind ++
  counterLine "dhcp_panic_d= " s.dhcpCountPanicD

def statusMdns (s : StatusInputs) : List StatusPiece :=
  counterLine "mdns_state= " s.mdnsState ++
  (.text (ascii "mdns_announced_ip= ") :: writeDottedWNl s.announcedIp) ++
  (.text (ascii "mdns_prior_announced_ip= ") :: writeDottedWNl s.priorAnnouncedIp) ++
  (.text (ascii "net_our_ip= ") :: writeDottedWNl s.netOurIp)

/-- The responder's timer, up to `.Lsg_slot_done`. -/
def statusTimer (s : StatusInputs) : List StatusPiece :=
  (.text (ascii "mdns_timer_pool_ptr= ") :: writeDecimalWNl s.timerPool.toNat) ++
  (.text (ascii "mdns_timer_slot= ") :: writeSignedDecimalWNl s.timerSlot.toInt) ++
  counterLine "mdns_timer_cb_count= " s.mdnsCountTimerCb ++
  (.text (ascii "mdns_slot_callback_ptr= ") ::
    if s.slotRead then writeDecimalWNl s.slotCallback.toNat else [.text (ascii "-\n")])

/-- The two watchdogs, on the Pi 4. -/
def statusWatchdogs (s : StatusInputs) : List StatusPiece :=
  counterLine "genet_wd_reset_count= " s.genetWdResetCount ++
  counterLine "genet_wd_consec_timeouts= " s.genetTxConsecTimeouts ++
  counterLine "swd_boot_rsts= " s.swdBootRsts ++
  counterLine "swd_pet_count= " s.swdPetCount

/-- The calls of `http_status_generate`, in order. -/
def statusPieces (s : StatusInputs) : List StatusPiece :=
  statusTable s ++ statusDhcp s ++ statusMdns s ++ statusTimer s ++ statusWatchdogs s ++
    [.text statusDiagSuffix, .text statusSuffix]

/-- `http_status_generate`, on the Pi 4. -/
def httpStatusGenerate (s : StatusInputs) : Option (List Byte) := writePieces (statusPieces s)

/-! ## The digits -/

theorem decLoop_eq : ∀ (n x0 : Nat) (scratch : List Byte), x0 < 10 ^ n → x0 ≠ 0 →
    decLoop n x0 scratch = if scratch.length + decimalLength x0 ≤ 16
      then some (scratch ++ (decimalText x0).reverse) else none := by
  intro n
  induction n with
  | zero =>
      intro x0 scratch hlt hne
      exact absurd (Nat.lt_one_iff.mp hlt) hne
  | succ n ih =>
      intro x0 scratch hlt hne
      have hdigit : x0 - x0 / 10 * 10 + 0x30 = 0x30 + x0 % 10 := by omega
      rw [decLoop, if_neg hne, hdigit]
      by_cases hsmall : x0 < 10
      · -- the last turn
        have hzero : x0 / 10 = 0 := by omega
        have hstop (scratch : List Byte) : decLoop n 0 scratch = some scratch := by
          cases n with
          | zero => rfl
          | succ n => rfl
        rw [hzero, hstop, decimalLength_digit hsmall, decimalText_digit hsmall,
          Nat.mod_eq_of_lt hsmall]
        by_cases hroom : scratch.length < 16
        · rw [if_pos hroom, if_pos (by omega)]
          rfl
        · rw [if_neg hroom, if_neg (by omega)]
      · have hmore : 10 ≤ x0 := by omega
        have hquot : x0 / 10 < 10 ^ n := by
          rw [Nat.pow_succ] at hlt
          omega
        have hlen : (scratch ++ [UInt8.ofNat (0x30 + x0 % 10)]).length = scratch.length + 1 := by
          simp
        rw [ih _ _ hquot (by omega), hlen, decimalLength_step hmore, decimalText_step hmore,
          List.reverse_append, List.append_assoc]
        by_cases hroom : scratch.length < 16
        · rw [if_pos hroom, Nat.add_assoc, Nat.add_comm 1]
          rfl
        · have hpos : decimalLength (x0 / 10) + 1 + scratch.length = _ := rfl
          rw [if_neg hroom, if_neg (by omega)]

/-- **The digits** fit their scratch up to 16 of them. -/
theorem writeDecimal_eq {x0 : Nat} (h : x0 < 2 ^ 64) :
    writeDecimal x0 = if x0 < 10 ^ 16 then some (decimalText x0) else none := by
  by_cases hzero : x0 = 0
  · subst hzero
    rfl
  · have hfuel : x0 < 10 ^ 20 := Nat.lt_trans h (by decide)
    have hiff : 0 + decimalLength x0 ≤ 16 ↔ x0 < 10 ^ 16 := by
      rw [Nat.zero_add]
      exact decimalLength_le_iff (by decide)
    have hloop := decLoop_eq 20 x0 [] hfuel hzero
    rw [List.length_nil, List.nil_append] at hloop
    rw [writeDecimal, if_neg hzero, hloop]
    by_cases hlt : x0 < 10 ^ 16
    · rw [if_pos (hiff.mpr hlt), if_pos hlt, Option.map_some, List.reverse_reverse]
    · rw [if_neg (mt hiff.mp hlt), if_neg hlt, Option.map_none]

/-! ## The pieces -/

/-- Every number among the pieces is below the bound. -/
def Below (bound : Nat) (ps : List StatusPiece) : Prop := ∀ n, .decimal n ∈ ps → n < bound

def StatusPiece.width : StatusPiece → Nat
  | .text bytes => bytes.length
  | .decimal x0 => decimalLength x0

def widths (ps : List StatusPiece) : Nat := (ps.map StatusPiece.width).sum

section
variable {bound : Nat} {ps qs : List StatusPiece}

theorem below_nil : Below bound [] := fun _ h => nomatch h

theorem below_append : Below bound (ps ++ qs) ↔ Below bound ps ∧ Below bound qs := by
  constructor
  · intro h
    exact ⟨fun n hn => h n (List.mem_append_left qs hn),
      fun n hn => h n (List.mem_append_right ps hn)⟩
  · rintro ⟨hp, hq⟩ n hn
    exact (List.mem_append.mp hn).elim (hp n) (hq n)

theorem below_text {bytes : List Byte} : Below bound (.text bytes :: ps) ↔ Below bound ps := by
  constructor
  · intro h n hn
    exact h n (List.mem_cons_of_mem _ hn)
  · intro h n hn
    rcases List.mem_cons.mp hn with heq | hn
    · cases heq
    · exact h n hn

theorem below_decimal {x0 : Nat} : Below bound (.decimal x0 :: ps) ↔ x0 < bound ∧ Below bound ps := by
  constructor
  · intro h
    exact ⟨h x0 List.mem_cons_self, fun n hn => h n (List.mem_cons_of_mem _ hn)⟩
  · rintro ⟨hx, hp⟩ n hn
    rcases List.mem_cons.mp hn with heq | hn
    · cases heq
      exact hx
    · exact hp n hn

theorem widths_append : widths (ps ++ qs) = widths ps + widths qs := by
  rw [widths, List.map_append, List.sum_append]
  rfl

theorem widths_cons (p : StatusPiece) : widths (p :: ps) = p.width + widths ps := by
  rw [widths, List.map_cons, List.sum_cons]
  rfl

end

theorem widths_text (bytes : List Byte) (ps : List StatusPiece) :
    widths (.text bytes :: ps) = bytes.length + widths ps := widths_cons _

theorem widths_decimal (x0 : Nat) (ps : List StatusPiece) :
    widths (.decimal x0 :: ps) = decimalLength x0 + widths ps := widths_cons _

theorem widths_nil : widths [] = 0 := rfl

/-- **What is written** for pieces whose numbers all have up to 16 digits. -/
theorem writePieces_some : ∀ {ps : List StatusPiece}, Below (10 ^ 16) ps →
    ∃ out, writePieces ps = some out ∧ out.length = widths ps := by
  intro ps
  induction ps with
  | nil => intro _; exact ⟨[], rfl, rfl⟩
  | cons p ps ih =>
      intro h
      cases p with
      | text bytes =>
          obtain ⟨out, hout, hlen⟩ := ih (below_text.mp h)
          refine ⟨bytes ++ out, by rw [writePieces, hout, Option.map_some], ?_⟩
          rw [List.length_append, hlen, widths_cons]
          rfl
      | decimal x0 =>
          obtain ⟨hx, hrest⟩ := below_decimal.mp h
          obtain ⟨out, hout, hlen⟩ := ih hrest
          have hdigits := writeDecimal_eq (Nat.lt_trans hx (by decide : 10 ^ 16 < 2 ^ 64))
          rw [if_pos hx] at hdigits
          refine ⟨decimalText x0 ++ out,
            by rw [writePieces, hdigits, Option.bind_some, hout, Option.map_some], ?_⟩
          rw [List.length_append, hlen, decimalText_length, widths_cons]
          rfl

theorem writePieces_below : ∀ {ps : List StatusPiece} {out : List Byte}, Below (2 ^ 64) ps →
    writePieces ps = some out → Below (10 ^ 16) ps := by
  intro ps
  induction ps with
  | nil => intro out _ _; exact below_nil
  | cons p ps ih =>
      intro out h hout
      cases p with
      | text bytes =>
          obtain ⟨rest, hrest, _⟩ := Option.map_eq_some_iff.mp hout
          exact below_text.mpr (ih (below_text.mp h) hrest)
      | decimal x0 =>
          obtain ⟨hx, hbelow⟩ := below_decimal.mp h
          obtain ⟨d, hd, hmap⟩ := Option.bind_eq_some_iff.mp hout
          obtain ⟨rest, hrest, _⟩ := Option.map_eq_some_iff.mp hmap
          refine below_decimal.mpr ⟨?_, ih hbelow hrest⟩
          by_contra hbig
          rw [writeDecimal_eq hx, if_neg hbig] at hd
          cases hd

/-- The pieces fit if their numbers fit the scratch area and their widths the buffer. -/
theorem writePieces_fits {ps : List StatusPiece} {room : Nat} (h : Below (2 ^ 64) ps) :
    (∃ out, writePieces ps = some out ∧ out.length ≤ room) ↔
      Below (10 ^ 16) ps ∧ widths ps ≤ room := by
  constructor
  · rintro ⟨out, hout, hle⟩
    have hbelow := writePieces_below h hout
    obtain ⟨out', hout', hlen⟩ := writePieces_some hbelow
    rw [hout] at hout'
    cases hout'
    exact ⟨hbelow, hlen ▸ hle⟩
  · rintro ⟨hbelow, hle⟩
    obtain ⟨out, hout, hlen⟩ := writePieces_some hbelow
    exact ⟨out, hout, hlen ▸ hle⟩

/-! ## The whole page -/

def dottedDigits (ip : Fin 4 → Byte) : Nat :=
  decimalLength (ip 0).toNat + decimalLength (ip 1).toNat + decimalLength (ip 2).toNat
    + decimalLength (ip 3).toNat

def counterDigits (ws : List W) : Nat := (ws.map fun w => decimalLength w.toNat).sum

def statusCounters (s : StatusInputs) : List W :=
  [s.httpRequestCount,
    s.dhcpCountSendDiscover, s.dhcpCountResendDiscover, s.dhcpCountRecordOfferSendRequest,
    s.dhcpCountResendRequestSelecting, s.dhcpCountCommitLeaseArmTimers,
    s.dhcpCountSendRequestRenew, s.dhcpCountResendRequestRenew, s.dhcpCountSendRequestRebind,
    s.dhcpCountResendRequestRebind, s.dhcpCountPanicD,
    s.mdnsState, s.mdnsCountTimerCb,
    s.genetWdResetCount, s.genetTxConsecTimeouts, s.swdBootRsts, s.swdPetCount]

/-- The digits of the page, with the signs that stand for a slot number below zero and for a slot
that is not read. -/
def statusDigits (s : StatusInputs) : Nat :=
  decimalLength s.uptime + decimalLength s.active + counterDigits (statusCounters s) +
  dottedDigits s.announcedIp + dottedDigits s.priorAnnouncedIp + dottedDigits s.netOurIp +
  decimalLength s.timerPool.toNat +
  (if s.timerSlot.toInt < 0 then 1 else 0) + decimalLength s.timerSlot.toInt.natAbs +
  (if s.slotRead then decimalLength s.slotCallback.toNat else 1)

theorem widths_counterLine (label : String) (w : W) :
    widths (counterLine label w) = (ascii label).length + decimalLength w.toNat + 1 := by
  simp [counterLine, writeDecimalWNl, widths, StatusPiece.width, ascii, Nat.add_assoc]

theorem widths_dotted (ip : Fin 4 → Byte) : widths (writeDottedWNl ip) = dottedDigits ip + 4 := by
  have hdot : (ascii ".").length = 1 := by decide
  have hnl : (ascii "\n").length = 1 := by decide
  simp only [writeDottedWNl, widths_text, widths_decimal, widths_nil, hdot, hnl, dottedDigits]
  omega

theorem widths_decimalWNl (n : Nat) : widths (writeDecimalWNl n) = decimalLength n + 1 := rfl

theorem widths_signed (i : Int) : widths (writeSignedDecimalWNl i)
    = (if i < 0 then 1 else 0) + decimalLength i.natAbs + 1 := by
  rw [writeSignedDecimalWNl, widths_append, widths_decimalWNl]
  split_ifs <;> rfl

theorem widths_table (s : StatusInputs) : widths (statusTable s)
    = 264 + decimalLength s.uptime + decimalLength s.active
      + decimalLength s.httpRequestCount.toNat := by
  simp only [statusTable, widths_text, widths_decimal, widths_nil]
  simp [statusPrefix, statusMid1, statusMid2, statusDiagPrefix, ascii]
  omega

theorem widths_dhcp (s : StatusInputs) : widths (statusDhcp s) = 265 +
    counterDigits [s.dhcpCountSendDiscover, s.dhcpCountResendDiscover,
      s.dhcpCountRecordOfferSendRequest, s.dhcpCountResendRequestSelecting,
      s.dhcpCountCommitLeaseArmTimers, s.dhcpCountSendRequestRenew, s.dhcpCountResendRequestRenew,
      s.dhcpCountSendRequestRebind, s.dhcpCountResendRequestRebind, s.dhcpCountPanicD] := by
  simp only [statusDhcp, widths_append, widths_counterLine, counterDigits, List.map_cons,
    List.map_nil, List.sum_cons, List.sum_nil]
  simp [ascii]
  omega

theorem widths_mdns (s : StatusInputs) : widths (statusMdns s)
    = 81 + decimalLength s.mdnsState.toNat + dottedDigits s.announcedIp
      + dottedDigits s.priorAnnouncedIp + dottedDigits s.netOurIp := by
  simp only [statusMdns, widths_append, widths_text, widths_counterLine, widths_dotted]
  simp [ascii]
  omega

theorem widths_timer (s : StatusInputs) : widths (statusTimer s)
    = 87 + decimalLength s.timerPool.toNat + (if s.timerSlot.toInt < 0 then 1 else 0)
      + decimalLength s.timerSlot.toInt.natAbs + decimalLength s.mdnsCountTimerCb.toNat
      + (if s.slotRead then decimalLength s.slotCallback.toNat else 1) := by
  have hslot : widths (if s.slotRead then writeDecimalWNl s.slotCallback.toNat
      else [.text (ascii "-\n")])
        = (if s.slotRead then decimalLength s.slotCallback.toNat else 1) + 1 := by
    split_ifs
    · exact widths_decimalWNl _
    · decide
  simp only [statusTimer, widths_append, widths_text, widths_counterLine, widths_decimalWNl,
    widths_signed, hslot]
  simp [ascii]
  omega

theorem widths_watchdogs (s : StatusInputs) : widths (statusWatchdogs s) = 82 +
    counterDigits [s.genetWdResetCount, s.genetTxConsecTimeouts, s.swdBootRsts, s.swdPetCount] := by
  simp only [statusWatchdogs, widths_append, widths_counterLine, counterDigits, List.map_cons,
    List.map_nil, List.sum_cons, List.sum_nil]
  simp [ascii]
  omega

theorem widths_suffix : widths [.text statusDiagSuffix, .text statusSuffix] = 22 := by decide

theorem widths_status (s : StatusInputs) : widths (statusPieces s) = 801 + statusDigits s := by
  simp only [statusPieces, widths_append, widths_table, widths_dhcp, widths_mdns, widths_timer,
    widths_watchdogs, widths_suffix, statusDigits, statusCounters, counterDigits, List.map_cons,
    List.map_nil, List.sum_cons, List.sum_nil]
  omega

section
variable {bound : Nat}

theorem below_counterLine {label : String} {w : W} (h : 2 ^ 40 ≤ bound) :
    Below bound (counterLine label w) := by
  have hw := w.isLt
  exact below_text.mpr (below_decimal.mpr ⟨by omega, below_text.mpr below_nil⟩)

theorem below_decimalWNl {n : Nat} : Below bound (writeDecimalWNl n) ↔ n < bound := by
  rw [writeDecimalWNl, below_decimal]
  exact and_iff_left (below_text.mpr below_nil)

theorem below_dotted {ip : Fin 4 → Byte} (h : 2 ^ 40 ≤ bound) : Below bound (writeDottedWNl ip) := by
  have hbyte : ∀ b : Byte, b.toNat < bound := fun b => by
    have hb := b.toNat_lt
    omega
  simp only [writeDottedWNl, below_decimal, below_text, hbyte, below_nil, and_self]

theorem below_signed {w : W} (h : 2 ^ 40 ≤ bound) : Below bound (writeSignedDecimalWNl w.toInt) := by
  have hlo := w.le_toInt
  have hhi := w.toInt_lt
  have habs : w.toInt.natAbs < bound := by omega
  rw [writeSignedDecimalWNl, below_append]
  refine ⟨?_, below_decimalWNl.mpr habs⟩
  split_ifs
  · exact below_text.mpr below_nil
  · exact below_nil

/-- Only the uptime can be that large: the counters have 32 bits, and addresses 40. -/
theorem below_status {s : StatusInputs} (h : 2 ^ 40 ≤ bound) (hpool : s.timerPool.toNat < 2 ^ 40)
    (hcb : s.slotRead = true → s.slotCallback.toNat < 2 ^ 40) :
    Below bound (statusPieces s) ↔ s.uptime < bound := by
  have hactive : s.active < bound := by
    have hle : s.active ≤ (List.finRange tcpMaxConns).length := List.countP_le_length
    rw [List.length_finRange] at hle
    exact Nat.lt_of_le_of_lt hle (Nat.lt_of_lt_of_le (by decide) h)
  have hrequests : s.httpRequestCount.toNat < bound := by
    have hw := s.httpRequestCount.isLt
    omega
  have hslot : Below bound (if s.slotRead then writeDecimalWNl s.slotCallback.toNat
      else [.text (ascii "-\n")]) := by
    split_ifs with hread
    · exact below_decimalWNl.mpr (Nat.lt_of_lt_of_le (hcb hread) h)
    · exact below_text.mpr below_nil
  have htable : Below bound (statusTable s) ↔ s.uptime < bound := by
    simp only [statusTable, below_text, below_decimal, below_nil, hactive, hrequests, and_true]
  have hdhcp : Below bound (statusDhcp s) := by
    simp only [statusDhcp, below_append, below_counterLine h, and_self]
  have hmdns : Below bound (statusMdns s) := by
    simp only [statusMdns, below_append, below_text, below_counterLine h, below_dotted h, and_self]
  have htimer : Below bound (statusTimer s) := by
    simp only [statusTimer, below_append, below_text, below_counterLine h, below_signed h, hslot,
      below_decimalWNl, and_true]
    omega
  have hwatch : Below bound (statusWatchdogs s) := by
    simp only [statusWatchdogs, below_append, below_counterLine h, and_self]
  have hsuffix : Below bound [.text statusDiagSuffix, .text statusSuffix] :=
    below_text.mpr (below_text.mpr below_nil)
  simp only [statusPieces, below_append, htable, hdhcp, hmdns, htimer, hwatch, hsuffix, and_true]

end

/-- **The status page** fits its buffer and its scratch area exactly if the uptime has up to 16
digits, and the numbers on the page have up to 223 digits together, the signs counted. -/
theorem status_fits_iff {s : StatusInputs} (hpool : s.timerPool.toNat < 2 ^ 40)
    (hcb : s.slotRead = true → s.slotCallback.toNat < 2 ^ 40) :
    (∃ out, httpStatusGenerate s = some out ∧ out.length ≤ httpDynBodySize) ↔
      s.uptime < 10 ^ 16 ∧ statusDigits s ≤ 223 := by
  have huptime : s.uptime < 2 ^ 64 := Nat.lt_of_le_of_lt (Nat.div_le_self ..) s.ticks.isLt
  have hsize : httpDynBodySize = 1024 := rfl
  rw [httpStatusGenerate, writePieces_fits ((below_status (by decide) hpool hcb).mpr huptime),
    below_status (by decide) hpool hcb, widths_status, hsize]
  exact and_congr_right fun _ => by omega

/-- The page of a machine with all counters at `w`, up for `ticks` at 54 MHz. -/
def pageOf (ticks : BitVec 64) (w : W) (octet : Byte) : StatusInputs where
  ticks := ticks
  freq := 54000000
  tcpStates := fun _ => 0
  httpRequestCount := w
  dhcpCountSendDiscover := w
  dhcpCountResendDiscover := w
  dhcpCountRecordOfferSendRequest := w
  dhcpCountResendRequestSelecting := w
  dhcpCountCommitLeaseArmTimers := w
  dhcpCountSendRequestRenew := w
  dhcpCountResendRequestRenew := w
  dhcpCountSendRequestRebind := w
  dhcpCountResendRequestRebind := w
  dhcpCountPanicD := w
  mdnsState := 5
  announcedIp := fun _ => octet
  priorAnnouncedIp := fun _ => octet
  netOurIp := fun _ => octet
  timerPool := 0x40000000
  timerSlot := 12
  mdnsCountTimerCb := w
  mem := fun _ => 0x40010000
  genetWdResetCount := w
  genetTxConsecTimeouts := w
  swdBootRsts := w
  swdPetCount := w

/-- After an hour, with the counters at 7. -/
theorem status_fits_demo : ∃ out,
    httpStatusGenerate (pageOf 194400000000 7 10) = some out ∧ out.length ≤ httpDynBodySize :=
  (@status_fits_iff (pageOf 194400000000 7 10) (by decide) fun _ => by decide).mpr
    ⟨by decide, by decide +kernel⟩

/-- After 10^8 seconds, with the counters at 2^32 - 1: six bytes too many. -/
theorem status_overflow : ∃ out,
    httpStatusGenerate (pageOf 5400000000000000 0xFFFFFFFF 100) = some out ∧
      out.length = httpDynBodySize + 6 := by
  have hbelow : Below (10 ^ 16) (statusPieces (pageOf 5400000000000000 0xFFFFFFFF 100)) :=
    (below_status (by decide) (by decide) fun _ => by decide).mpr (by decide)
  have hdigits : statusDigits (pageOf 5400000000000000 0xFFFFFFFF 100) = 229 := by decide +kernel
  obtain ⟨out, hout, hlen⟩ := writePieces_some hbelow
  exact ⟨out, hout, by rw [hlen, widths_status, hdigits]⟩

end WsPi5

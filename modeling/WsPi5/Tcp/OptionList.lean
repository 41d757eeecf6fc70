/-
# `WsPi5.Tcp.OptionList` — five option parsers, and one list of options

Each of the five parsers of `tcp.S` has a walk of its own over the bytes behind the first 20 of the
header.  The five walks are the same loop, `optScan`, up to what they look for and read:

    parser                      looks for          reads                    otherwise
    tcp_parse_mss               kind 2, length 4   two bytes                0
    tcp_parse_wscale            kind 3, length 3   a byte, at most 14       -1
    tcp_parse_sack_permitted    kind 4, length 2   —                        0
    tcp_parse_sack_blocks       kind 5             (length - 2) / 8 blocks  no block
    tcp_parse_tsopt             kind 8, length 10  four bytes               not found

The reference is one list of items, `tcpOptions.items`: kind and data of each option up to the end
of the list or a malformed option.  A parser is to answer for the first item of its kind that has
the length of its kind.

Four do.  `tcp_parse_sack_blocks` has no test on the length where the others have one: it stops at
the first option of kind 5, whatever its length, and so misses a SACK option behind one of, say,
three bytes (`sack_length_unchecked`).

**Proved here** (`option_parsers`), for every header, in a memory that has its bytes and no others:
the four answer as they are to; the fifth does exactly where the first option of kind 5 is a SACK
option, or has the same blocks as the first one behind it (`sackOptionFirst`).
-/
import WsPi5.Tcp.Frames
import WsPi5.Lib.Region
import WsPi5.Lib.Tlv

namespace WsPi5

open Lib

/-! ## The walk -/

section
variable (mem : Nat → Option Byte)

/-- The loop from `x2` to `x3`, at most `n` items: what `found` reads of the first item that is
wanted, or `absent`. -/
def optScan {β : Type} (x3 : Nat) (want : Byte → Byte → Bool) (found : Nat → Byte → Option β)
    (absent : β) : Nat → Nat → Option β
  | 0, x2 => if x3 ≤ x2 then some absent else none
  | n + 1, x2 =>
      if x3 ≤ x2 then some absent
      else (mem x2).bind fun w4 =>
        if w4 = 0 then some absent
        else if w4 = 1 then optScan x3 want found absent n (x2 + 1)
        else if x3 ≤ x2 + 1 then some absent
        else (mem (x2 + 1)).bind fun len =>
          if len < 2 then some absent
          else if want w4 len then found x2 len
          else optScan x3 want found absent n (x2 + len.toNat)

variable (x0 w1 : Nat)

/-- End of the options: `ETH_PAYLOAD + IP_HDR_MIN` bytes and the header. -/
def optsEnd : Nat := x0 + 34 + w1

/-- The frame of the five: no options in a header of `TCP_HDR_MIN` bytes, else a walk over them. -/
def parseOption {β : Type} (want : Byte → Byte → Bool) (found : Nat → Byte → Option β)
    (absent : β) : Option β :=
  if w1 ≤ 20 then some absent
  else optScan mem (optsEnd x0 w1) want found absent (w1 - 20) (x0 + 54)

/-- `tcp_parse_mss`. -/
def tcpParseMssAt : Option (BitVec 16) :=
  parseOption mem x0 w1 (fun k l => k = 2 && l = 4) (fun x2 _ =>
    if optsEnd x0 w1 < x2 + 4 then some 0
    else (mem (x2 + 2)).bind fun a => (mem (x2 + 3)).map fun b => be16 a b) 0

/-- `tcp_parse_wscale`, with `none` for `-1`. -/
def tcpParseWscaleAt : Option (Option Nat) :=
  parseOption mem x0 w1 (fun k l => k = 3 && l = 3) (fun x2 _ =>
    if optsEnd x0 w1 < x2 + 3 then some none
    else (mem (x2 + 2)).map fun w0 => some (if w0 < 14 then w0.toNat else 14)) none

/-- `tcp_parse_sack_permitted`. -/
def tcpParseSackPermittedAt : Option Bool :=
  parseOption mem x0 w1 (fun k l => k = 4 && l = 2) (fun _ _ => some true) false

/-- `ldr; rev`. -/
def loadBe32 (p : Nat) : Option W :=
  (mem p).bind fun a => (mem (p + 1)).bind fun b => (mem (p + 2)).bind fun c =>
    (mem (p + 3)).map fun d => be32 a b c d

/-- `.Lsb_extract`. -/
def sackExtractAt : Nat → Nat → Option (List (W × W))
  | 0, _ => some []
  | n + 1, x2 =>
      (loadBe32 mem x2).bind fun left => (loadBe32 mem (x2 + 4)).bind fun right =>
        (sackExtractAt n (x2 + 8)).map ((left, right) :: ·)

/-- `tcp_parse_sack_blocks`. -/
def tcpParseSackBlocksAt : Option (List (W × W)) :=
  parseOption mem x0 w1 (fun k _ => k = 5) (fun x2 w5 =>
    if optsEnd x0 w1 < x2 + w5.toNat then some []
    else sackExtractAt mem (min ((w5.toNat - 2) / 8) 4) (x2 + 2)) []

/-- `tcp_parse_tsopt`, with TSval as its caller turns it round. -/
def tcpParseTsoptAt : Option (Option W) :=
  parseOption mem x0 w1 (fun k l => k = 8 && l = 10) (fun x2 _ =>
    if optsEnd x0 w1 < x2 + 10 then some none else (loadBe32 mem (x2 + 2)).map some) none

end

/-! ## The reference -/

/-- RFC 793: 0 ends the list, 1 is a NOP, a length counts the whole option. -/
def tcpOptions : TlvFormat := ⟨0, 1, 2⟩

/-- The data of the first option of this kind, with a length that `ok` allows. -/
def firstOption (kind : Byte) (ok : Nat → Bool) (opts : List Byte) : Option (List Byte) :=
  ((tcpOptions.items opts).find? fun it => it.1 = kind && ok it.2.length).map Prod.snd

def mssData : List Byte → BitVec 16
  | [a, b] => be16 a b
  | _ => 0

/-- One byte: a shift, of at most 14. -/
def wscaleData : List Byte → Option Nat
  | [s] => some (min s.toNat 14)
  | _ => none

/-- Two words: TSval and TSecr. -/
def tsData : List Byte → Option W
  | a :: b :: c :: d :: _ => some (be32 a b c d)
  | _ => none

/-- The whole blocks of eight bytes, at most four. -/
def sackBlocks (data : List Byte) : List (W × W) := sackExtract (min (data.length / 8) 4) data

/-- The data of a SACK option: one block or more, and nothing else. -/
def sackLength (n : Nat) : Bool := n ≠ 0 && n % 8 = 0

def mssOf (opts : List Byte) : BitVec 16 := (firstOption 2 (· = 2) opts).elim 0 mssData

def wscaleOf (opts : List Byte) : Option Nat := (firstOption 3 (· = 1) opts).elim none wscaleData

def sackPermittedOf (opts : List Byte) : Bool :=
  (firstOption 4 (· = 0) opts).elim false fun _ => true

def sackBlocksOf (opts : List Byte) : List (W × W) :=
  (firstOption 5 sackLength opts).elim [] sackBlocks

def tsoptOf (opts : List Byte) : Option W := (firstOption 8 (· = 8) opts).elim none tsData

/-! ## A walk in memory, and the walk on the list -/

section
variable {mem : Nat → Option Byte} {β : Type} {want : Byte → Byte → Bool}
  {found : Nat → Byte → Option β} {absent : β}

/-- The scan ends without an option, or at the one where the walk on the list ends. -/
theorem optScan_eq : ∀ {n m x2 : Nat} {bs : List Byte}, Stands mem x2 bs → bs.length ≤ n →
    bs.length ≤ m →
    (optWalk want m bs = none ∧
      optScan mem (x2 + bs.length) want found absent n x2 = some absent) ∨
    ∃ k l body q, optWalk want m bs = some (k :: l :: body) ∧ want k l = true ∧ 2 ≤ l.toNat ∧
      Stands mem q (k :: l :: body) ∧ x2 + bs.length = q + (k :: l :: body).length ∧
      optScan mem (x2 + bs.length) want found absent n x2 = found q l := by
  intro n
  induction n with
  | zero =>
      intro m x2 bs _ hn _
      have hnil : bs = [] := List.eq_nil_of_length_eq_zero (Nat.le_zero.mp hn)
      subst hnil
      exact .inl ⟨by cases m <;> rfl, if_pos (Nat.le_refl _)⟩
  | succ n ih =>
      intro m x2 bs h hn hm
      cases bs with
      | nil => exact .inl ⟨by cases m <;> rfl, if_pos (Nat.le_refl _)⟩
      | cons kind rest =>
          obtain ⟨m, rfl⟩ : ∃ k, m = k + 1 := ⟨m - 1, by rw [List.length_cons] at hm; omega⟩
          rw [List.length_cons] at hn hm
          have hlim : ¬ x2 + (kind :: rest).length ≤ x2 := by
            rw [List.length_cons]
            omega
          rw [optScan, if_neg hlim, h.head, Option.bind_some]
          by_cases h0 : kind = 0
          · rw [if_pos h0]
            exact .inl ⟨if_pos h0, rfl⟩
          rw [if_neg h0]
          by_cases h1 : kind = 1
          · subst h1
            have hnext : x2 + (1 :: rest).length = x2 + 1 + rest.length := by
              rw [List.length_cons]
              omega
            rw [if_pos rfl, optWalk_nop, hnext]
            exact ih h.tail (by omega) (by omega)
          rw [if_neg h1]
          cases rest with
          | nil =>
              rw [if_pos (by simp), optWalk, if_neg h0, if_neg h1]
              exact .inl ⟨rfl, rfl⟩
          | cons l body =>
              rw [if_neg (by simp), h.tail.head, Option.bind_some]
              rw [List.length_cons] at hn hm
              by_cases hl : l < 2
              · rw [if_pos hl, optWalk, if_neg h0, if_neg h1, if_pos hl]
                exact .inl ⟨rfl, rfl⟩
              have hl2 : 2 ≤ l.toNat := UInt8.le_iff_toNat_le.mp (UInt8.not_lt.mp hl)
              rw [if_neg hl, optWalk_item h0 h1 hl]
              cases hw : want kind l with
              | true =>
                  rw [if_pos rfl, if_pos rfl]
                  exact .inr ⟨kind, l, body, x2, rfl, hw, hl2, h, rfl, rfl⟩
              | false =>
                  rw [if_neg Bool.false_ne_true, if_neg Bool.false_ne_true]
                  by_cases hfit : l.toNat ≤ (kind :: l :: body).length
                  · have hlen := List.length_drop (l := kind :: l :: body) (i := l.toNat)
                    have hnext : x2 + (kind :: l :: body).length
                        = x2 + l.toNat + ((kind :: l :: body).drop l.toNat).length := by
                      rw [hlen]
                      omega
                    rw [List.length_cons, List.length_cons] at hlen
                    rw [hnext]
                    exact ih (h.drop hfit) (by omega) (by omega)
                  · -- the length goes past the header
                    have hnil : (kind :: l :: body).drop l.toNat = [] :=
                      List.drop_eq_nil_of_le (by omega)
                    have hpast : x2 + (kind :: l :: body).length ≤ x2 + l.toNat := by omega
                    rw [hnil]
                    refine .inl ⟨by cases m <;> rfl, ?_⟩
                    cases n with
                    | zero => exact if_pos hpast
                    | succ n => exact if_pos hpast

theorem items_find {ok : Byte → Nat → Bool} (hok : ∀ k l : Byte, 2 ≤ l.toNat →
    want k l = ok k (l.toNat - 2)) : ∀ {n m : Nat} {bs : List Byte}, bs.length ≤ n →
    bs.length ≤ m → ((tcpOptions.walk m bs).1.find? fun it => ok it.1 it.2.length) =
      match optWalk want n bs with
      | some (k :: l :: body) =>
          if l.toNat ≤ body.length + 2 then some (k, body.take (l.toNat - 2)) else none
      | _ => none := by
  intro n
  induction n with
  | zero =>
      intro m bs hn _
      have hnil : bs = [] := List.eq_nil_of_length_eq_zero (Nat.le_zero.mp hn)
      subst hnil
      cases m <;> rfl
  | succ n ih =>
      intro m bs hn hm
      cases bs with
      | nil => cases m <;> rfl
      | cons kind rest =>
          obtain ⟨m, rfl⟩ : ∃ k, m = k + 1 := ⟨m - 1, by rw [List.length_cons] at hm; omega⟩
          rw [List.length_cons] at hn hm
          by_cases h0 : kind = 0
          · have hwalk : optWalk want (n + 1) (kind :: rest) = none := if_pos h0
            rw [hwalk, h0, show (0 : Byte) = tcpOptions.eol from rfl, TlvFormat.walk_end]
            rfl
          by_cases h1 : kind = 1
          · have hwalk : optWalk want (n + 1) (kind :: rest) = optWalk want n rest :=
              (if_neg h0).trans (if_pos h1)
            rw [hwalk, TlvFormat.walk_pad h0 h1]
            exact ih (by omega) (by omega)
          cases rest with
          | nil =>
              have hwalk : optWalk want (n + 1) [kind] = none := (if_neg h0).trans (if_neg h1)
              rw [hwalk, TlvFormat.walk_noLength h0 h1]
              rfl
          | cons l body =>
              rw [List.length_cons] at hn hm
              have hsmall : l < 2 ↔ l.toNat < 2 := UInt8.lt_iff_toNat_lt
              by_cases hl : l < 2
              · have hwalk : optWalk want (n + 1) (kind :: l :: body) = none := by
                  rw [optWalk, if_neg h0, if_neg h1, if_pos hl]
                rw [hwalk, TlvFormat.walk_malformed h0 h1 (.inl (hsmall.mp hl))]
                rfl
              have hl2 : 2 ≤ l.toNat := Nat.not_lt.mp fun h => hl (hsmall.mpr h)
              rw [optWalk_item h0 h1 hl]
              by_cases hfit : l.toNat ≤ body.length + 2
              · have hitem : tcpOptions.walk (m + 1) (kind :: l :: body) =
                    ((kind, body.take (l.toNat - 2)) ::
                      (tcpOptions.walk m (body.drop (l.toNat - 2))).1,
                      (tcpOptions.walk m (body.drop (l.toNat - 2))).2) :=
                  TlvFormat.walk_item h0 h1
                    (by show ¬ (l.toNat < 2 ∨ body.length + 2 < l.toNat); omega)
                have htake : (body.take (l.toNat - 2)).length = l.toNat - 2 := by
                  rw [List.length_take]
                  omega
                rw [hitem]
                rw [List.find?_cons, htake, ← hok kind l hl2]
                cases want kind l with
                | true =>
                    rw [if_pos rfl]
                    simp only [if_pos hfit]
                | false =>
                    have hdrop : (kind :: l :: body).drop l.toNat = body.drop (l.toNat - 2) := by
                      obtain ⟨k, hk⟩ : ∃ k, l.toNat = k + 2 := ⟨l.toNat - 2, by omega⟩
                      rw [hk]
                      rfl
                    rw [if_neg Bool.false_ne_true, hdrop]
                    have hlen : (body.drop (l.toNat - 2)).length = body.length - (l.toNat - 2) :=
                      List.length_drop
                    exact ih (by omega) (by omega)
              · rw [TlvFormat.walk_malformed h0 h1
                  (.inr (by show body.length + 2 < _; omega))]
                have hnil : (kind :: l :: body).drop l.toNat = [] :=
                  List.drop_eq_nil_of_le (by rw [List.length_cons, List.length_cons]; omega)
                rw [hnil]
                cases want kind l with
                | true =>
                    rw [if_pos rfl]
                    simp only [if_neg hfit]
                    rfl
                | false => cases n <;> rfl

theorem firstOption_ok {kind : Byte} {ok : Nat → Bool} {opts data : List Byte}
    (h : firstOption kind ok opts = some data) : ok data.length = true := by
  obtain ⟨it, hit, rfl⟩ := Option.map_eq_some_iff.mp h
  have hboth := List.find?_some hit
  exact (Bool.and_eq_true_iff.mp hboth).2

/-- **A parser of the family**: `val` of the data of the first option that it wants. -/
theorem parseOption_eq {kind : Byte} {ok : Nat → Bool} {val : List Byte → β} {x0 : Nat}
    {hdr : List Byte} (h : Stands mem (x0 + 34) hdr)
    (hwant : ∀ k l : Byte, 2 ≤ l.toNat → want k l = (decide (k = kind) && ok (l.toNat - 2)))
    (hfound : ∀ q l data, ok data.length = true → data.length + 2 = l.toNat →
      Stands mem (q + 2) data → q + l.toNat ≤ optsEnd x0 hdr.length → found q l = some (val data))
    (hpast : ∀ q l, want kind l = true → q + 2 ≤ optsEnd x0 hdr.length →
      optsEnd x0 hdr.length < q + l.toNat → found q l = some absent) :
    parseOption mem x0 hdr.length want found absent
      = some ((firstOption kind ok (hdr.drop 20)).elim absent val) := by
  rw [parseOption]
  by_cases hshort : hdr.length ≤ 20
  · rw [if_pos hshort, List.drop_eq_nil_of_le hshort]
    rfl
  rw [if_neg hshort]
  have hopts : Stands mem (x0 + 54) (hdr.drop 20) := h.drop (by omega)
  have hlen : (hdr.drop 20).length = hdr.length - 20 := List.length_drop
  have hend : optsEnd x0 hdr.length = x0 + 54 + (hdr.drop 20).length := by
    rw [optsEnd, hlen]
    omega
  generalize hdr.drop 20 = opts at hopts hlen hend ⊢
  have hfirst : firstOption kind ok opts = Option.map Prod.snd _ :=
    congrArg (Option.map Prod.snd)
      (@items_find want (fun k n => decide (k = kind) && ok n) hwant opts.length opts.length opts
        (Nat.le_refl _) (Nat.le_refl _))
  rw [hend] at hfound hpast ⊢
  obtain ⟨hwalk, hscan⟩ | ⟨k, l, body, q, hwalk, hw, hl, hq, hx3, hscan⟩ :=
    @optScan_eq mem β want found absent (hdr.length - 20) opts.length (x0 + 54) opts hopts
      (by omega) (Nat.le_refl _)
  · rw [hwalk] at hfirst
    rw [hscan, hfirst]
    rfl
  · rw [hwalk] at hfirst
    rw [List.length_cons, List.length_cons] at hx3
    rw [hscan]
    by_cases hfit : l.toNat ≤ body.length + 2
    · simp only [if_pos hfit, Option.map_some] at hfirst
      have htake : (body.take (l.toNat - 2)).length = l.toNat - 2 := by
        rw [List.length_take]
        omega
      have hbody : Stands mem (q + 2) body := hq.tail.tail
      rw [hfound q l _ (firstOption_ok hfirst) (by omega) (hbody.ofPrefix (List.take_prefix ..))
        (by omega), hfirst]
      rfl
    · simp only [if_neg hfit, Option.map_none] at hfirst
      have hk : k = kind := by
        have hboth := hwant k l hl
        rw [hw] at hboth
        exact of_decide_eq_true (Bool.and_eq_true_iff.mp hboth.symm).1
      rw [hk] at hw
      rw [hpast q l hw (by omega) (by omega), hfirst]
      rfl

theorem wantsLength {kind len : Byte} (hlen : 2 ≤ len.toNat) (k l : Byte) (hl : 2 ≤ l.toNat) :
    (decide (k = kind) && decide (l = len))
      = (decide (k = kind) && decide (l.toNat - 2 = len.toNat - 2)) := by
  have hiff : l = len ↔ l.toNat - 2 = len.toNat - 2 := by
    rw [← UInt8.toNat_inj]
    omega
  simp only [hiff]

theorem parseOption_exact {kind len : Byte} {read : Nat → Option β} {val : List Byte → β}
    {x0 : Nat} {hdr : List Byte} (h : Stands mem (x0 + 34) hdr) (hlen : 2 ≤ len.toNat)
    (hread : ∀ q data, data.length + 2 = len.toNat → Stands mem (q + 2) data →
      read q = some (val data)) :
    parseOption mem x0 hdr.length (fun k l => k = kind && l = len)
        (fun x2 _ => if optsEnd x0 hdr.length < x2 + len.toNat then some absent else read x2) absent
      = some ((firstOption kind (· = len.toNat - 2) (hdr.drop 20)).elim absent val) := by
  refine parseOption_eq h (wantsLength hlen) ?_ ?_
  · intro q l data hok hdata hq hend
    have hok := of_decide_eq_true hok
    rw [if_neg (by omega)]
    exact hread q data (by omega) hq
  · intro q l hw _ hend
    have hl : l = len := of_decide_eq_true (Bool.and_eq_true_iff.mp hw).2
    rw [if_pos (by rw [← hl]; exact hend)]

theorem loadBe32_eq {p : Nat} {a b c d : Byte} {rest : List Byte}
    (h : Stands mem p (a :: b :: c :: d :: rest)) : loadBe32 mem p = some (be32 a b c d) := by
  have hc : mem (p + 2) = some c := h.tail.tail.head
  have hd : mem (p + 3) = some d := h.tail.tail.tail.head
  rw [loadBe32, h.head, Option.bind_some, h.tail.head, Option.bind_some, hc, Option.bind_some, hd]
  rfl

theorem sackExtractAt_eq : ∀ {n p : Nat} {data : List Byte}, Stands mem p data →
    8 * n ≤ data.length → sackExtractAt mem n p = some (sackExtract n data) := by
  intro n
  induction n with
  | zero => intro p data _ _; cases data <;> rfl
  | succ n ih =>
      intro p data h hlen
      match data, h, hlen with
      | a :: b :: c :: d :: e :: f :: g :: i :: rest, h, hlen =>
          have hright : Stands mem (p + 4) (e :: f :: g :: i :: rest) := h.tail.tail.tail.tail
          have hrest : Stands mem (p + 8) rest := hright.tail.tail.tail.tail
          simp only [List.length_cons] at hlen
          rw [sackExtractAt, loadBe32_eq h, Option.bind_some, loadBe32_eq hright,
            Option.bind_some, ih hrest (by omega)]
          rfl

end

theorem sackExtract_take : ∀ {n m : Nat} {data : List Byte}, 8 * n ≤ m →
    sackExtract n (data.take m) = sackExtract n data := by
  intro n
  induction n with
  | zero => intro m data _; cases data <;> cases m <;> rfl
  | succ n ih =>
      intro m data hm
      obtain ⟨m, rfl⟩ : ∃ k, m = k + 8 := ⟨m - 8, by omega⟩
      match data with
      | [] | [_] | [_, _] | [_, _, _] | [_, _, _, _] | [_, _, _, _, _] | [_, _, _, _, _, _]
      | [_, _, _, _, _, _, _] => rfl
      | a :: b :: c :: d :: e :: f :: g :: i :: rest =>
          exact congrArg ((be32 a b c d, be32 e f g i) :: ·) (ih (by omega))

/-! ## The five parsers -/

section
variable {mem : Nat → Option Byte} {x0 : Nat} {hdr : List Byte} (h : Stands mem (x0 + 34) hdr)
include h

theorem tcpParseMssAt_eq : tcpParseMssAt mem x0 hdr.length = some (mssOf (hdr.drop 20)) := by
  refine @parseOption_exact mem _ 0 2 4 _ mssData x0 hdr h (by decide) fun q data hlen hq => ?_
  match data, hlen, hq with
  | [a, b], _, hq =>
      have hb : mem (q + 3) = some b := hq.tail.head
      rw [hq.head, Option.bind_some, hb]
      rfl

theorem tcpParseWscaleAt_eq :
    tcpParseWscaleAt mem x0 hdr.length = some (wscaleOf (hdr.drop 20)) := by
  refine @parseOption_exact mem _ none 3 3 _ wscaleData x0 hdr h (by decide)
    fun q data hlen hq => ?_
  match data, hlen, hq with
  | [s], _, hq =>
      have hmin : (if s < 14 then s.toNat else 14) = min s.toNat 14 := by
        have hlt : s < 14 ↔ s.toNat < 14 := UInt8.lt_iff_toNat_lt
        by_cases hs : s < 14
        · rw [if_pos hs, Nat.min_eq_left (Nat.le_of_lt (hlt.mp hs))]
        · rw [if_neg hs, Nat.min_eq_right (Nat.not_lt.mp fun h => hs (hlt.mpr h))]
      rw [hq.head, Option.map_some, hmin]
      rfl

theorem tcpParseTsoptAt_eq : tcpParseTsoptAt mem x0 hdr.length = some (tsoptOf (hdr.drop 20)) := by
  refine @parseOption_exact mem _ none 8 10 _ tsData x0 hdr h (by decide) fun q data hlen hq => ?_
  match data, hlen, hq with
  | a :: b :: c :: d :: rest, _, hq =>
      rw [loadBe32_eq hq]
      rfl

theorem tcpParseSackPermittedAt_eq :
    tcpParseSackPermittedAt mem x0 hdr.length = some (sackPermittedOf (hdr.drop 20)) := by
  refine parseOption_eq h ?_ (fun _ _ _ _ _ _ _ => rfl) ?_
  · intro k l hl
    have hiff : l = 2 ↔ l.toNat - 2 = 0 := by
      rw [← UInt8.toNat_inj]
      show l.toNat = 2 ↔ _
      omega
    simp only [hiff]
  · intro q l hw hq hend
    have hl : l = 2 := of_decide_eq_true (Bool.and_eq_true_iff.mp hw).2
    rw [hl] at hend
    exact absurd hend (Nat.not_lt.mpr hq)

theorem tcpParseSackBlocksAt_eq : tcpParseSackBlocksAt mem x0 hdr.length
    = some ((firstOption 5 (fun _ => true) (hdr.drop 20)).elim [] sackBlocks) := by
  refine parseOption_eq h (fun k l _ => by simp) ?_ ?_
  · intro q l data _ hlen hq hend
    have hn : l.toNat - 2 = data.length := by omega
    rw [if_neg (Nat.not_lt.mpr hend), hn, sackExtractAt_eq hq (by omega)]
    rfl
  · intro q l _ _ hend
    exact if_pos hend

end

/-! ## The parsers on the option bytes -/

theorem findOpt_first {want : Byte → Byte → Bool} {kind : Byte} {ok : Nat → Bool}
    (hwant : ∀ k l : Byte, 2 ≤ l.toNat → want k l = (decide (k = kind) && ok (l.toNat - 2)))
    (opts : List Byte) :
    (findOpt want opts = none ∧ firstOption kind ok opts = none) ∨
    ∃ k l body, findOpt want opts = some (k :: l :: body) ∧ want k l = true ∧ 2 ≤ l.toNat ∧
      firstOption kind ok opts
        = if l.toNat ≤ body.length + 2 then some (body.take (l.toNat - 2)) else none := by
  have hfirst : firstOption kind ok opts = Option.map Prod.snd _ :=
    congrArg (Option.map Prod.snd)
      (@items_find want (fun k n => decide (k = kind) && ok n) hwant opts.length opts.length opts
        (Nat.le_refl _) (Nat.le_refl _))
  obtain ⟨hwalk, _⟩ | ⟨k, l, body, q, hwalk, hw, hl, _⟩ :=
    @optScan_eq (region 0 opts) Unit want (fun _ _ => none) () opts.length opts.length 0 opts
      (stands_region 0 opts) (Nat.le_refl _) (Nat.le_refl _)
  · rw [hwalk] at hfirst
    exact .inl ⟨hwalk, hfirst⟩
  · rw [hwalk] at hfirst
    refine .inr ⟨k, l, body, hwalk, hw, hl, hfirst.trans ?_⟩
    dsimp only
    split <;> rfl

theorem findOpt_exact (kind len : Byte) (n : Nat) (hlen : len.toNat = n + 2)
    (opts : List Byte) :
    (findOpt (fun k l => k = kind && l = len) opts = none ∧ firstOption kind (· = n) opts = none) ∨
    ∃ k body, findOpt (fun k l => k = kind && l = len) opts = some (k :: len :: body) ∧
      firstOption kind (· = n) opts = if n ≤ body.length then some (body.take n) else none := by
  have hn : n = len.toNat - 2 := by omega
  subst hn
  obtain h | ⟨k, l, body, hwalk, hw, hl, hfirst⟩ :=
    @findOpt_first (fun k l => k = kind && l = len) kind (· = len.toNat - 2)
      (wantsLength (by omega)) opts
  · exact .inl h
  · have heq : l = len := of_decide_eq_true (Bool.and_eq_true_iff.mp hw).2
    subst heq
    refine .inr ⟨k, body, hwalk, hfirst.trans ?_⟩
    by_cases hfit : l.toNat ≤ body.length + 2
    · rw [if_pos hfit, if_pos (by omega)]
    · rw [if_neg hfit, if_neg (by omega)]

/-- **The model's parsers** of the option bytes are those of the list. -/
theorem tcpParse_list (opts : List Byte) :
    tcpParseMss opts = mssOf opts ∧ tcpParseWscale opts = wscaleOf opts ∧
    tcpParseSackPermitted opts = sackPermittedOf opts ∧ tcpParseTsopt opts = tsoptOf opts ∧
    tcpParseSackBlocks opts = (firstOption 5 (fun _ => true) opts).elim [] sackBlocks := by
  refine ⟨?_, ?_, ?_, ?_, ?_⟩
  · obtain ⟨hw, hf⟩ | ⟨k, body, hw, hf⟩ := findOpt_exact 2 4 2 rfl opts
    · rw [tcpParseMss, hw, mssOf, hf]
      rfl
    · rw [tcpParseMss, hw, mssOf, hf]
      match body with
      | [] | [_] => rfl
      | a :: b :: rest => rw [if_pos (by simp)]; rfl
  · obtain ⟨hw, hf⟩ | ⟨k, body, hw, hf⟩ := findOpt_exact 3 3 1 rfl opts
    · rw [tcpParseWscale, hw, wscaleOf, hf]
      rfl
    · rw [tcpParseWscale, hw, wscaleOf, hf]
      match body with
      | [] => rfl
      | s :: rest => rw [if_pos (by simp)]; rfl
  · obtain ⟨hw, hf⟩ | ⟨k, body, hw, hf⟩ := findOpt_exact 4 2 0 rfl opts
    · rw [tcpParseSackPermitted, hw, sackPermittedOf, hf]
      rfl
    · rw [tcpParseSackPermitted, hw, sackPermittedOf, hf, if_pos (Nat.zero_le _)]
      rfl
  · obtain ⟨hw, hf⟩ | ⟨k, body, hw, hf⟩ := findOpt_exact 8 10 8 rfl opts
    · rw [tcpParseTsopt, hw, tsoptOf, hf]
      rfl
    · rw [tcpParseTsopt, hw, tsoptOf, hf]
      match body with
      | [] | [_] | [_, _] | [_, _, _] | [_, _, _, _] | [_, _, _, _, _] | [_, _, _, _, _, _]
      | [_, _, _, _, _, _, _] => rfl
      | a :: b :: c :: d :: e :: f :: g :: i :: rest =>
          rw [if_pos (by simp)]
          rfl
  · obtain ⟨hw, hf⟩ | ⟨k, l, body, hw, _, hl, hf⟩ :=
      @findOpt_first (fun k _ => k = 5) 5 (fun _ => true) (fun k l _ => by simp) opts
    · rw [tcpParseSackBlocks, hw, hf]
      rfl
    · rw [tcpParseSackBlocks, hw, hf]
      show (if l.toNat ≤ body.length + 2 then _ else _) = _
      by_cases hfit : l.toNat ≤ body.length + 2
      · have hlen : (body.take (l.toNat - 2)).length = l.toNat - 2 := by
          rw [List.length_take]
          omega
        rw [if_pos hfit, if_pos hfit, Option.elim_some, sackBlocks, hlen]
        exact (sackExtract_take (by omega)).symm
      · rw [if_neg hfit, if_neg hfit]
        rfl

/-! ## All five -/

/-- The bytes of the whole blocks, at most four. -/
def sackBytes (data : List Byte) : List Byte := data.take (8 * min (data.length / 8) 4)

/-- The blocks that are read are those of a SACK option: the first option of the kind is one, or
the bytes of its whole blocks are by chance those of the first one behind it. -/
def sackOptionFirst (opts : List Byte) : Prop :=
  ∀ data, firstOption 5 (fun _ => true) opts = some data → sackLength data.length = false →
    sackBytes data = (firstOption 5 sackLength opts).elim [] sackBytes

theorem be32_inj {a b c d a' b' c' d' : Byte} (h : be32 a b c d = be32 a' b' c' d') :
    a = a' ∧ b = b' ∧ c = c' ∧ d = d' := by
  have hnat := congrArg BitVec.toNat h
  simp only [be32, BitVec.toNat_ofNat] at hnat
  simp only [← UInt8.toNat_inj]
  have ha := a.toNat_lt
  have hb := b.toNat_lt
  have hc := c.toNat_lt
  have hd := d.toNat_lt
  have ha' := a'.toNat_lt
  have hb' := b'.toNat_lt
  have hc' := c'.toNat_lt
  have hd' := d'.toNat_lt
  omega

theorem sackExtract_inj : ∀ {n m : Nat} {xs ys : List Byte}, 8 * n ≤ xs.length →
    8 * m ≤ ys.length → sackExtract n xs = sackExtract m ys → xs.take (8 * n) = ys.take (8 * m) := by
  intro n
  induction n with
  | zero =>
      intro m xs ys _ hm h
      cases m with
      | zero => rfl
      | succ m =>
          match xs, ys, hm with
          | [], _ :: _ :: _ :: _ :: _ :: _ :: _ :: _ :: _, _ => cases h
          | _ :: _, _ :: _ :: _ :: _ :: _ :: _ :: _ :: _ :: _, _ => cases h
  | succ n ih =>
      intro m xs ys hn hm h
      match xs, hn with
      | a :: b :: c :: d :: e :: f :: g :: i :: xs, hn =>
          cases m with
          | zero => cases ys <;> cases h
          | succ m =>
              match ys, hm with
              | a' :: b' :: c' :: d' :: e' :: f' :: g' :: i' :: ys, hm =>
                  simp only [List.length_cons] at hn hm
                  obtain ⟨hpair, hrest⟩ := List.cons.inj h
                  obtain ⟨hleft, hright⟩ := Prod.mk.inj hpair
                  obtain ⟨rfl, rfl, rfl, rfl⟩ := be32_inj hleft
                  obtain ⟨rfl, rfl, rfl, rfl⟩ := be32_inj hright
                  have htail := ih (by omega) (by omega) hrest
                  exact congrArg (a :: b :: c :: d :: e :: f :: g :: i :: ·) htail

theorem sackBlocks_inj {xs ys : List Byte} : sackBlocks xs = sackBlocks ys ↔
    sackBytes xs = sackBytes ys := by
  constructor
  · exact sackExtract_inj (by omega) (by omega)
  · intro h
    have hlen := congrArg List.length h
    simp only [sackBytes, List.length_take] at hlen
    have hn : min (xs.length / 8) 4 = min (ys.length / 8) 4 := by omega
    have hxs := @sackExtract_take (min (xs.length / 8) 4) (8 * min (xs.length / 8) 4) xs
      (Nat.le_refl _)
    have hys := @sackExtract_take (min (ys.length / 8) 4) (8 * min (ys.length / 8) 4) ys
      (Nat.le_refl _)
    calc sackBlocks xs
        = sackExtract (min (xs.length / 8) 4) (sackBytes xs) := hxs.symm
      _ = sackExtract (min (ys.length / 8) 4) (sackBytes ys) := by rw [h, hn]
      _ = sackBlocks ys := hys

theorem firstOption_ofAll {kind : Byte} {ok : Nat → Bool} {opts data : List Byte}
    (h : firstOption kind (fun _ => true) opts = some data) (hok : ok data.length = true) :
    firstOption kind ok opts = some data := by
  rw [firstOption] at h ⊢
  generalize tcpOptions.items opts = items at h ⊢
  induction items with
  | nil => cases h
  | cons it its ih =>
      rw [List.find?_cons] at h ⊢
      cases hk : decide (it.1 = kind) with
      | true =>
          simp only [hk, Bool.true_and] at h ⊢
          cases h
          simp only [hok]
          rfl
      | false =>
          simp only [hk, Bool.false_and] at h ⊢
          exact ih h

theorem firstOption_none {kind : Byte} {ok : Nat → Bool} {opts : List Byte}
    (h : firstOption kind (fun _ => true) opts = none) : firstOption kind ok opts = none := by
  rw [firstOption, Option.map_eq_none_iff, List.find?_eq_none] at h ⊢
  intro it hit hboth
  exact h it hit (by rw [(Bool.and_eq_true_iff.mp hboth).1]; rfl)

/-- **The five parsers** on a header at `x0 + 34`, in a memory with its bytes and no others: each
comes to an end, and answers for the first option of its kind and length.  That of the SACK blocks
answers for the first of its kind, and so for the first of its kind and length exactly where these
have the same blocks. -/
theorem option_parsers (x0 : Nat) (hdr : List Byte) :
    tcpParseMssAt (region (x0 + 34) hdr) x0 hdr.length = some (mssOf (hdr.drop 20)) ∧
    tcpParseWscaleAt (region (x0 + 34) hdr) x0 hdr.length = some (wscaleOf (hdr.drop 20)) ∧
    tcpParseSackPermittedAt (region (x0 + 34) hdr) x0 hdr.length
      = some (sackPermittedOf (hdr.drop 20)) ∧
    tcpParseTsoptAt (region (x0 + 34) hdr) x0 hdr.length = some (tsoptOf (hdr.drop 20)) ∧
    tcpParseSackBlocksAt (region (x0 + 34) hdr) x0 hdr.length
      = some ((firstOption 5 (fun _ => true) (hdr.drop 20)).elim [] sackBlocks) ∧
    (tcpParseSackBlocksAt (region (x0 + 34) hdr) x0 hdr.length
      = some (sackBlocksOf (hdr.drop 20)) ↔ sackOptionFirst (hdr.drop 20)) := by
  have h := stands_region (x0 + 34) hdr
  refine ⟨tcpParseMssAt_eq h, tcpParseWscaleAt_eq h, tcpParseSackPermittedAt_eq h,
    tcpParseTsoptAt_eq h, tcpParseSackBlocksAt_eq h, ?_⟩
  rw [tcpParseSackBlocksAt_eq h, Option.some_inj]
  cases hfirst : firstOption 5 (fun _ => true) (hdr.drop 20) with
  | none =>
      refine ⟨fun _ data hdata => (nomatch hfirst.symm.trans hdata), fun _ => ?_⟩
      · rw [sackBlocksOf, firstOption_none hfirst]
  | some data =>
      have helim : sackBlocks data = sackBlocksOf (hdr.drop 20) ↔
          sackBytes data = (firstOption 5 sackLength (hdr.drop 20)).elim [] sackBytes := by
        rw [sackBlocksOf]
        cases firstOption 5 sackLength (hdr.drop 20) with
        | none => exact @sackBlocks_inj data []
        | some data' => exact sackBlocks_inj
      rw [Option.elim_some, helim]
      refine ⟨fun heq data' hdata _ => ?_, fun hcond => ?_⟩
      · rw [hfirst] at hdata
        cases hdata
        exact heq
      · cases hok : sackLength data.length with
        | true => rw [firstOption_ofAll hfirst hok, Option.elim_some]
        | false => exact hcond data hfirst hok

/-- A header with an option of kind 5 and three bytes in front of a SACK option of one block. -/
def shortSackHeader : List Byte :=
  List.replicate 20 0 ++ [5, 3, 0, 5, 10, 0, 0, 0, 1, 0, 0, 0, 2, 1, 1, 1]

/-- The block is not found. -/
theorem sack_length_unchecked :
    tcpParseSackBlocksAt (region 34 shortSackHeader) 0 shortSackHeader.length = some [] ∧
    sackBlocksOf (shortSackHeader.drop 20) = [(1, 2)] := by
  decide +kernel

end WsPi5

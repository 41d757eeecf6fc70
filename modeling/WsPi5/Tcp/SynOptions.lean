/-
# `WsPi5.Tcp.SynOptions` — which options a SYN-ACK carries

An option list is a row of items, each a kind, a length and its data, with single bytes NOP in
between, and what comes behind an End-of-list.  The four parsers walk it in the same way and stop at
the first item of their kind and length (`optWalk_bytes`), so each is a question about the list of
items and not about bytes.

    option             in the SYN-ACK                     parser on the SYN-ACK
    timestamps         if the SYN carried it              TSval: the clock; TSecr: the SYN's TSval
    MSS                always                             1460
    window scale       always, with shift 0               0
    SACK-permitted     if the SYN carried it              found

The window scale is not an answer: `tcp_build_frame` writes MSS and window scale on every SYN-ACK,
whatever the SYN had (`synack_scales_anyway`).

**Proved here** (`syn_ack_options`), for every SYN whose options are such a list, every state in
which `tcp_listen_syn_handler` opens a slot and every content of the frame buffer: the bytes of the
SYN-ACK's options, its header length, and what the stack's own parsers find in it.
-/
import WsPi5.Tcp.Wire

namespace WsPi5

open Lib

/-! ## Option lists -/

/-- An item: neither End-of-list nor NOP, and its length fits into the length byte. -/
structure OptItem where
  kind : Byte
  data : List Byte
  item : kind ≠ 0 ∧ kind ≠ 1
  fits : data.length + 2 < 256

inductive TcpOption where
  | nop
  | item (o : OptItem)

/-- The options, and what comes after the last one: nothing, or an End-of-list and padding. -/
structure OptionList where
  opts : List TcpOption
  tail : List Byte
  ends : ∀ b rest, tail = b :: rest → b = 0

def OptItem.len (o : OptItem) : Byte := UInt8.ofNat (o.data.length + 2)

def OptItem.bytes (o : OptItem) : List Byte := o.kind :: o.len :: o.data

def TcpOption.bytes : TcpOption → List Byte
  | .nop => [1]
  | .item o => o.bytes

def optionBytes (opts : List TcpOption) : List Byte := opts.flatMap TcpOption.bytes

def OptionList.bytes (l : OptionList) : List Byte := optionBytes l.opts ++ l.tail

/-- The item, if this is one with the kind and the number of data bytes. -/
def TcpOption.isItem (kind : Byte) (n : Nat) : TcpOption → Option OptItem
  | .nop => none
  | .item o => if o.kind = kind ∧ o.data.length = n then some o else none

/-- The first item of a kind with `n` bytes of data. -/
def firstItem (kind : Byte) (n : Nat) (opts : List TcpOption) : Option OptItem :=
  opts.findSome? (TcpOption.isItem kind n)

def Carries (kind : Byte) (n : Nat) (opts : List TcpOption) : Prop :=
  ∃ o : OptItem, .item o ∈ opts ∧ o.kind = kind ∧ o.data.length = n

/-- The word at an offset of the data: TSval at 0, TSecr at 4. -/
def OptItem.word (o : OptItem) (off : Nat) : W :=
  be32 (o.data.getD off 0) (o.data.getD (off + 1) 0) (o.data.getD (off + 2) 0)
    (o.data.getD (off + 3) 0)

/-! ## The walk over a list -/

theorem OptItem.len_toNat (o : OptItem) : o.len.toNat = o.data.length + 2 := by
  have := o.fits
  rw [OptItem.len, UInt8.toNat_ofNat']
  omega

theorem optionBytes_item (o : OptItem) (opts : List TcpOption) :
    optionBytes (.item o :: opts) = o.bytes ++ optionBytes opts := rfl

theorem optionBytes_nop (opts : List TcpOption) :
    optionBytes (.nop :: opts) = 1 :: optionBytes opts := rfl

theorem optionBytes_append (opts opts' : List TcpOption) :
    optionBytes (opts ++ opts') = optionBytes opts ++ optionBytes opts' :=
  List.flatMap_append

/-- The test that a parser makes of kind and length. -/
def wantItem (kind : Byte) (n : Nat) : Byte → Byte → Bool :=
  fun k l => k = kind && l = UInt8.ofNat (n + 2)

theorem OptItem.wanted_iff (o : OptItem) {kind : Byte} {n : Nat} (hn : n + 2 < 256) :
    wantItem kind n o.kind o.len = true ↔ o.kind = kind ∧ o.data.length = n := by
  have hlen : o.len = UInt8.ofNat (n + 2) ↔ o.data.length = n := by
    rw [← UInt8.toNat_inj, o.len_toNat, UInt8.toNat_ofNat', Nat.mod_eq_of_lt hn]
    omega
  rw [wantItem, Bool.and_eq_true, decide_eq_true_eq, decide_eq_true_eq, hlen]

theorem optWalk_optItem (want : Byte → Byte → Bool) (fuel : Nat) (o : OptItem) (more : List Byte) :
    optWalk want (fuel + 1) (o.bytes ++ more) =
      if want o.kind o.len then some (o.bytes ++ more) else optWalk want fuel more := by
  have hshort : ¬o.len < 2 := by
    rw [UInt8.lt_iff_toNat_lt, o.len_toNat]
    exact Nat.not_lt.mpr (Nat.le_add_left 2 _)
  have hdrop : (o.bytes ++ more).drop o.len.toNat = more := by
    rw [o.len_toNat]
    exact List.drop_left
  rw [OptItem.bytes, List.cons_append, List.cons_append] at hdrop ⊢
  rw [optWalk_item o.item.1 o.item.2 hshort, hdrop]

/-- **The walk over a list**: to the first item of the kind and length, if there is one. -/
theorem optWalk_bytes {kind : Byte} {n : Nat} (hn : n + 2 < 256) {tail : List Byte}
    (htail : ∀ b rest, tail = b :: rest → b = 0) (opts : List TcpOption) {fuel : Nat}
    (hfuel : (optionBytes opts ++ tail).length ≤ fuel) :
    firstItem kind n opts = none ∧
        optWalk (wantItem kind n) fuel (optionBytes opts ++ tail) = none ∨
      ∃ o rest, firstItem kind n opts = some o ∧ o.data.length = n ∧
        optWalk (wantItem kind n) fuel (optionBytes opts ++ tail) = some (o.bytes ++ rest) := by
  induction opts generalizing fuel with
  | nil =>
      refine .inl ⟨rfl, ?_⟩
      cases tail with
      | nil => cases fuel <;> rfl
      | cons b rest =>
          obtain rfl := htail b rest rfl
          cases fuel <;> rfl
  | cons opt opts ih =>
      cases opt with
      | nop =>
          rw [optionBytes_nop, List.cons_append] at hfuel ⊢
          obtain ⟨fuel, rfl⟩ := Nat.exists_eq_add_of_le' (Nat.le_trans (Nat.le_add_left 1 _) hfuel)
          rw [optWalk_nop]
          exact ih (Nat.le_of_succ_le_succ hfuel)
      | item o =>
          rw [optionBytes_item, List.append_assoc] at hfuel ⊢
          have hpos : 1 ≤ fuel := Nat.le_trans (Nat.le_add_left 1 _) hfuel
          obtain ⟨fuel, rfl⟩ := Nat.exists_eq_add_of_le' hpos
          rw [optWalk_optItem]
          by_cases hwant : o.kind = kind ∧ o.data.length = n
          · rw [if_pos ((o.wanted_iff hn).mpr hwant)]
            refine .inr ⟨o, _, ?_, hwant.2, rfl⟩
            rw [firstItem, List.findSome?_cons, TcpOption.isItem, if_pos hwant]
          · have hskip : firstItem kind n (.item o :: opts) = firstItem kind n opts := by
              rw [firstItem, List.findSome?_cons, TcpOption.isItem, if_neg hwant]
              rfl
            rw [if_neg fun h => hwant ((o.wanted_iff hn).mp h), hskip]
            refine ih ?_
            rw [List.length_append] at hfuel
            have : 1 ≤ o.bytes.length := Nat.le_add_left 1 _
            omega

/-! ## The parsers -/

section
variable (l : OptionList)

theorem findOpt_bytes {kind : Byte} {n : Nat} (hn : n + 2 < 256) :
    firstItem kind n l.opts = none ∧ findOpt (wantItem kind n) l.bytes = none ∨
      ∃ o rest, firstItem kind n l.opts = some o ∧ o.data.length = n ∧
        findOpt (wantItem kind n) l.bytes = some (o.bytes ++ rest) :=
  optWalk_bytes hn l.ends l.opts (Nat.le_refl _)

theorem tcpParseMss_bytes : tcpParseMss l.bytes
    = ((firstItem 2 2 l.opts).map fun o => be16 (o.data.getD 0 0) (o.data.getD 1 0)).getD 0 := by
  have hwant : (fun k l => k = 2 && l = 4 : Byte → Byte → Bool) = wantItem 2 2 := rfl
  rw [tcpParseMss, hwant]
  obtain ⟨hnone, hfind⟩ | ⟨o, rest, ho, hlen, hfind⟩ := @findOpt_bytes l 2 2 (by decide)
  · rw [hnone, hfind]
    rfl
  · obtain ⟨a, b, hdata⟩ := List.length_eq_two.mp hlen
    rw [ho, hfind, OptItem.bytes, Option.map_some, hdata]
    rfl

theorem tcpParseWscale_bytes : tcpParseWscale l.bytes
    = (firstItem 3 1 l.opts).map fun o => min (o.data.getD 0 0).toNat 14 := by
  have hwant : (fun k l => k = 3 && l = 3 : Byte → Byte → Bool) = wantItem 3 1 := rfl
  rw [tcpParseWscale, hwant]
  obtain ⟨hnone, hfind⟩ | ⟨o, rest, ho, hlen, hfind⟩ := @findOpt_bytes l 3 1 (by decide)
  · rw [hnone, hfind]
    rfl
  · obtain ⟨a, hdata⟩ := List.length_eq_one_iff.mp hlen
    rw [ho, hfind, OptItem.bytes, Option.map_some, hdata]
    rfl

theorem tcpParseSackPermitted_bytes :
    tcpParseSackPermitted l.bytes = (firstItem 4 0 l.opts).isSome := by
  have hwant : (fun k l => k = 4 && l = 2 : Byte → Byte → Bool) = wantItem 4 0 := rfl
  rw [tcpParseSackPermitted, hwant]
  obtain ⟨hnone, hfind⟩ | ⟨o, rest, ho, hlen, hfind⟩ := @findOpt_bytes l 4 0 (by decide)
  · rw [hnone, hfind]
    rfl
  · rw [ho, hfind]
    rfl

theorem tcpParseTsopt_bytes :
    tcpParseTsopt l.bytes = (firstItem 8 8 l.opts).map fun o => o.word 0 := by
  have hwant : (fun k l => k = 8 && l = 10 : Byte → Byte → Bool) = wantItem 8 8 := rfl
  rw [tcpParseTsopt, hwant]
  obtain ⟨hnone, hfind⟩ | ⟨o, rest, ho, hlen, hfind⟩ := @findOpt_bytes l 8 8 (by decide)
  · rw [hnone, hfind]
    rfl
  · obtain ⟨a, b, c, d, e, f, g, h, hdata⟩ :
        ∃ a b c d e f g h, o.data = [a, b, c, d, e, f, g, h] := by
      match o.data, hlen with
      | [a, b, c, d, e, f, g, h], _ => exact ⟨a, b, c, d, e, f, g, h, rfl⟩
    rw [ho, hfind, OptItem.bytes, Option.map_some, OptItem.word, hdata]
    rfl

end

/-! ## What `tcp_build_frame` writes -/

/-- Kind 8: TSval and TSecr. -/
def tsItem (val ecr : W) : OptItem where
  kind := 8
  data := beBytes val ++ beBytes ecr
  item := by decide
  fits := by simp [beBytes]

/-- Kind 2: 1460. -/
def mssItem : OptItem := ⟨2, [5, 180], by decide, by decide⟩

/-- Kind 3: our shift. -/
def wscaleItem : OptItem := ⟨3, [tcpOurWscale], by decide, by decide⟩

/-- Kind 4. -/
def sackItem : OptItem := ⟨4, [], by decide, by decide⟩

/-- The options of a SYN-ACK. -/
def answerOptions (now : Tick) (opts : List TcpOption) : List TcpOption :=
  (match firstItem 8 8 opts with
    | some o => [.nop, .nop, .item (tsItem ((now >>> 16).setWidth 32) (o.word 0))]
    | none => [])
  ++ [.item mssItem, .nop, .item wscaleItem]
  ++ (if (firstItem 4 0 opts).isSome then [.nop, .nop, .item sackItem] else [])

section
variable {env : Env} {now : Tick} {f : Frame} {lport : BitVec 16} {isn : W} {c : Conn}
  {l : OptionList}

theorem synConn_tsOpts (hopts : f.opts = l.bytes) :
    (synConn now f lport isn c).tsOpts now
      = optionBytes (match firstItem 8 8 l.opts with
        | some o => [.nop, .nop, .item (tsItem ((now >>> 16).setWidth 32) (o.word 0))]
        | none => []) := by
  have hts : tcpParseTsopt f.opts = (firstItem 8 8 l.opts).map fun o => o.word 0 := by
    rw [hopts, tcpParseTsopt_bytes]
  show (if (tcpParseTsopt f.opts).isSome then tsOption now ((tcpParseTsopt f.opts).getD c.tsRecent)
    else []) = _
  rw [hts]
  cases firstItem 8 8 l.opts with
  | none => rfl
  | some o => rfl

theorem synConn_synOpts (hopts : f.opts = l.bytes) :
    (synConn now f lport isn c).synOpts
      = optionBytes ([.item mssItem, .nop, .item wscaleItem]
        ++ (if (firstItem 4 0 l.opts).isSome then [.nop, .nop, .item sackItem] else [])) := by
  have hsack : tcpParseSackPermitted f.opts = (firstItem 4 0 l.opts).isSome := by
    rw [hopts, tcpParseSackPermitted_bytes]
  show _ ++ (if tcpParseSackPermitted f.opts then _ else _) = _
  rw [hsack, optionBytes_append]
  cases (firstItem 4 0 l.opts).isSome with
  | false => rfl
  | true => rfl

theorem synAckFrame_opts (hopts : f.opts = l.bytes) :
    (synAckFrame env now f lport isn c).opts = optionBytes (answerOptions now l.opts) := by
  show (synConn now f lport isn c).tsOpts now ++ (synConn now f lport isn c).synOpts = _
  rw [synConn_tsOpts hopts, synConn_synOpts hopts, ← optionBytes_append, answerOptions,
    List.append_assoc]

/-! ## The parsers on the answer -/

def answerList (now : Tick) (opts : List TcpOption) : OptionList :=
  ⟨answerOptions now opts, [], by simp⟩

theorem answerList_bytes (now : Tick) (opts : List TcpOption) :
    (answerList now opts).bytes = optionBytes (answerOptions now opts) := List.append_nil _

theorem firstItem_mss (now : Tick) (opts : List TcpOption) :
    firstItem 2 2 (answerOptions now opts) = some mssItem := by
  unfold answerOptions
  cases firstItem 8 8 opts <;> cases (firstItem 4 0 opts).isSome <;> rfl

theorem firstItem_wscale (now : Tick) (opts : List TcpOption) :
    firstItem 3 1 (answerOptions now opts) = some wscaleItem := by
  unfold answerOptions
  cases firstItem 8 8 opts <;> cases (firstItem 4 0 opts).isSome <;> rfl

theorem firstItem_sack (now : Tick) (opts : List TcpOption) :
    (firstItem 4 0 (answerOptions now opts)).isSome = (firstItem 4 0 opts).isSome := by
  unfold answerOptions
  cases firstItem 8 8 opts <;> cases (firstItem 4 0 opts).isSome <;> rfl

theorem firstItem_ts (now : Tick) (opts : List TcpOption) :
    firstItem 8 8 (answerOptions now opts)
      = (firstItem 8 8 opts).map fun o => tsItem ((now >>> 16).setWidth 32) (o.word 0) := by
  unfold answerOptions
  cases firstItem 8 8 opts <;> cases (firstItem 4 0 opts).isSome <;> rfl

theorem word_beBytes (v w : W) :
    (tsItem v w).word 0 = v ∧ (tsItem v w).word 4 = w := by
  obtain ⟨a, b, c, d, hv, hval⟩ := be32_beBytes v
  obtain ⟨a', b', c', d', hw, hecr⟩ := be32_beBytes w
  have hdata : (tsItem v w).data = [a, b, c, d, a', b', c', d'] := by
    show beBytes v ++ beBytes w = _
    rw [hv, hw]
    rfl
  rw [OptItem.word, OptItem.word, hdata]
  exact ⟨hval, hecr⟩

theorem carries_iff {kind : Byte} {n : Nat} {opts : List TcpOption} :
    Carries kind n opts ↔ (firstItem kind n opts).isSome = true := by
  rw [firstItem, List.findSome?_isSome_iff]
  constructor
  · rintro ⟨o, ho, hkind⟩
    exact ⟨.item o, ho, by rw [TcpOption.isItem, if_pos hkind]; rfl⟩
  · rintro ⟨opt, hopt, hsome⟩
    cases opt with
    | nop => cases hsome
    | item o =>
        by_cases hkind : o.kind = kind ∧ o.data.length = n
        · exact ⟨o, hopt, hkind⟩
        · rw [TcpOption.isItem, if_neg hkind] at hsome
          cases hsome

/-! ## On the wire -/

/-- The header length of the frame: the high nibble of byte 46, in words. -/
def headerLen (buf : Wire.Buf) : Nat := (buf 46).toNat / 16 * 4

def wireOptions (buf : Wire.Buf) : List Byte := slice buf 54 (headerLen buf - 20)

theorem synAck_optOverhead (c : Conn) : ∃ k, k ≤ 6 ∧ Wire.optOverhead c tcpSynAck = 4 * k := by
  show ∃ k, k ≤ 6 ∧ tsOverhead c.tsEnabled + (if c.sackEnabled then 12 else 8) = 4 * k
  cases c.tsEnabled <;> cases c.sackEnabled
  · exact ⟨2, by decide, rfl⟩
  · exact ⟨3, by decide, rfl⟩
  · exact ⟨5, by decide, rfl⟩
  · exact ⟨6, by decide, rfl⟩

/-- **The header length covers exactly the options written**, of any SYN-ACK. -/
theorem synAck_headerLen (hw : Bool) (env : Env) (now : Tick) (c : Conn) (buf : Wire.Buf) :
    headerLen (Wire.tcpBuildFrame hw env now c tcpSynAck [] buf).1
      = 20 + Wire.optOverhead c tcpSynAck := by
  have hbyte : slice (Wire.tcpBuildFrame hw env now c tcpSynAck [] buf).1 46 2
      = [UInt8.ofNat ((Wire.optOverhead c tcpSynAck / 4 + 5) * 16), UInt8.ofNat tcpSynAck.toNat] := by
    unfold Wire.tcpBuildFrame
    dsimp only
    rw [Wire.putTcpChecksum_keeps (.inl (by decide))]
    refine @slice_memWrites_mem _ 46 [_, _] [_, _, _, _] _ _ fun w hw => ?_
    simp only [List.mem_cons, List.not_mem_nil, or_false] at hw
    rcases hw with rfl | rfl | rfl | rfl
    · exact .inl (Nat.le_refl 48)
    · exact .inl (by decide : 48 ≤ 52)
    · exact .inl (by decide : 48 ≤ 54)
    · exact .inl (Nat.le_trans (by decide : 48 ≤ 54) (Nat.le_add_right 54 _))
  have hfirst : (Wire.tcpBuildFrame hw env now c tcpSynAck [] buf).1 46
      = UInt8.ofNat ((Wire.optOverhead c tcpSynAck / 4 + 5) * 16) := (List.cons.inj hbyte).1
  obtain ⟨k, hk, hsize⟩ := synAck_optOverhead c
  rw [headerLen, hfirst, hsize, UInt8.toNat_ofNat']
  omega

theorem synAck_options (hw : Bool) (env : Env) (now : Tick) (c : Conn) (buf : Wire.Buf) :
    wireOptions (Wire.tcpBuildFrame hw env now c tcpSynAck [] buf).1
      = (tcpBuildFrame env now c c.sndNxt tcpSynAck []).opts := by
  have hlen := @Wire.opts_length env now c tcpSynAck []
  rw [wireOptions, synAck_headerLen, Nat.add_sub_cancel_left, ← hlen]
  unfold Wire.tcpBuildFrame
  dsimp only
  rw [Wire.putTcpChecksum_keeps (.inr (by decide))]
  refine @slice_memWrites_mem _ 54 _ [_, _, _, _, _, _, _] [_] _ fun w hw => ?_
  rw [List.mem_singleton.mp hw, hlen]
  exact .inl (Nat.le_refl _)

end

/-! ## The SYN-ACK of `tcp_listen_syn_handler` -/

/-- What a SYN with the options `l` gets, on the wire. -/
structure SynAckAnswers (now : Tick) (l : OptionList) (sent : Wire.Buf × Nat) : Prop where
  /-- The header length covers the options and nothing else: there is no payload. -/
  header : 34 + headerLen sent.1 = sent.2
  options : wireOptions sent.1 = optionBytes (answerOptions now l.opts)
  timestamps : Carries 8 8 (answerOptions now l.opts) ↔ Carries 8 8 l.opts
  sackPermitted : Carries 4 0 (answerOptions now l.opts) ↔ Carries 4 0 l.opts
  wscale : Carries 3 1 (answerOptions now l.opts)
  echo : ∀ o, firstItem 8 8 l.opts = some o →
    ∃ o', firstItem 8 8 (answerOptions now l.opts) = some o' ∧ o'.word 4 = o.word 0
  parseMss : tcpParseMss (wireOptions sent.1) = BitVec.ofNat 16 tcpOurMss
  parseWscale : tcpParseWscale (wireOptions sent.1) = some tcpOurWscale.toNat
  parseSack : tcpParseSackPermitted (wireOptions sent.1) = tcpParseSackPermitted l.bytes
  parseTs : tcpParseTsopt (wireOptions sent.1)
    = (tcpParseTsopt l.bytes).map fun _ => (now >>> 16).setWidth 32

section
variable {env : Env} {now : Tick} {f : Frame} {lport : BitVec 16} {isn : W} {c : Conn}
  {l : OptionList}

theorem synConn_answers (hopts : f.opts = l.bytes) (hw : Bool) (buf : Wire.Buf) :
    SynAckAnswers now l
      (Wire.tcpBuildFrame hw env now (synConn now f lport isn c) tcpSynAck [] buf) := by
  have hwire : wireOptions (Wire.tcpBuildFrame hw env now (synConn now f lport isn c) tcpSynAck []
      buf).1 = (answerList now l.opts).bytes := by
    rw [synAck_options, answerList_bytes]
    exact @synAckFrame_opts env now f lport isn c l hopts
  have hmss := firstItem_mss now l.opts
  have hscale := firstItem_wscale now l.opts
  have hsack := firstItem_sack now l.opts
  have hts := firstItem_ts now l.opts
  refine ⟨?_, hwire.trans (answerList_bytes now l.opts), ?_, ?_, ?_, ?_, ?_, ?_, ?_, ?_⟩
  · rw [synAck_headerLen]
    show 34 + (20 + _) = 0 + 54 + _
    omega
  · rw [carries_iff, carries_iff, hts, Option.isSome_map]
  · rw [carries_iff, carries_iff, hsack]
  · rw [carries_iff, hscale]
    rfl
  · intro o ho
    rw [ho] at hts
    exact ⟨_, hts, (word_beBytes _ _).2⟩
  · rw [hwire, tcpParseMss_bytes]
    show Option.getD (Option.map _ (firstItem 2 2 (answerOptions now l.opts))) 0 = _
    rw [hmss]
    rfl
  · rw [hwire, tcpParseWscale_bytes]
    show Option.map _ (firstItem 3 1 (answerOptions now l.opts)) = _
    rw [hscale]
    rfl
  · rw [hwire, tcpParseSackPermitted_bytes, tcpParseSackPermitted_bytes]
    exact hsack
  · rw [hwire, tcpParseTsopt_bytes, tcpParseTsopt_bytes]
    show Option.map _ (firstItem 8 8 (answerOptions now l.opts)) = _
    rw [hts, Option.map_map, Option.map_map]
    congr 1
    funext o
    exact (word_beBytes _ _).1

end

/-- **The options of a SYN-ACK**, for every SYN with an option list. -/
theorem syn_ack_options {env : Env} {now : Tick} {f : Frame} {listener : Slot} {t t' : Tcp}
    {g : Frame} {l : OptionList} (hopts : f.opts = l.bytes)
    (h : tcpListenSynHandler env now f listener t = some (t', g)) :
    g.opts = optionBytes (answerOptions now l.opts) ∧
      ∃ lport isn c, g = synAckFrame env now f lport isn c ∧ ∀ hw buf, SynAckAnswers now l
        (Wire.tcpBuildFrame hw env now (synConn now f lport isn c) tcpSynAck [] buf) := by
  unfold tcpListenSynHandler at h
  split at h
  · cases h
  · cases h
    exact ⟨synAckFrame_opts hopts, _, _, _, rfl, fun hw buf => synConn_answers hopts hw buf⟩

/-! ## A SYN with timestamps, and one without options -/

/-- Timestamps with TSval 5, and an End-of-list. -/
def demoOptionList : OptionList :=
  ⟨[.nop, .nop, .item (tsItem 5 0)], [0, 7], by intro b rest h; exact (List.cons.inj h).1.symm⟩

def tsSyn : Frame := { demoSyn with opts := demoOptionList.bytes }

theorem syn_ack_options_demo : ∃ t' g,
    tcpListenSynHandler demoEnv 1 tsSyn 0 (tcpListen 80 (tcpInit 16)) = some (t', g) ∧
      g.opts = optionBytes (answerOptions 1 demoOptionList.opts) ∧
      ∃ lport isn c, g = synAckFrame demoEnv 1 tsSyn lport isn c ∧ ∀ hw buf,
        SynAckAnswers 1 demoOptionList
          (Wire.tcpBuildFrame hw demoEnv 1 (synConn 1 tsSyn lport isn c) tcpSynAck [] buf) := by
  have hopens : (tcpListenSynHandler demoEnv 1 tsSyn 0 (tcpListen 80 (tcpInit 16))).isSome = true := by
    decide +kernel
  obtain ⟨⟨t', g⟩, h⟩ := Option.isSome_iff_exists.mp hopens
  exact ⟨t', g, h, syn_ack_options rfl h⟩

/-- **The SYN has no option at all, and the SYN-ACK scales its window.** -/
theorem synack_scales_anyway : ∃ t' g,
    tcpListenSynHandler demoEnv 1 demoSyn 0 (tcpListen 80 (tcpInit 16)) = some (t', g) ∧
      demoSyn.opts = [] ∧ tcpParseWscale demoSyn.opts = none ∧ tcpParseWscale g.opts = some 0 := by
  have hopens : ∃ r ∈ tcpListenSynHandler demoEnv 1 demoSyn 0 (tcpListen 80 (tcpInit 16)),
      tcpParseWscale r.2.opts = some 0 := by
    decide +kernel
  obtain ⟨⟨t', g⟩, h, hscale⟩ := hopens
  exact ⟨t', g, h, rfl, rfl, hscale⟩

end WsPi5

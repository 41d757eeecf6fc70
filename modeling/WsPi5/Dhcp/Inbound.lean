/-
# `WsPi5.Dhcp.Inbound` — the parser of received messages

`dhcp_parse_inbound` reads a message in place: eight bytes of the header, the hardware address, the
cookie, and a walk over the options from byte 240 on.  What it finds goes to `dhcp_parsed` at once,
so that a message which is dropped later leaves parts of itself there; `msg_type` is then 0.

    option            length        stored
    53  msg type      1             the type
    54  server id     4             as it stands on the wire
    51  lease time    4             in host order
     1  subnet mask   4             as it stands on the wire
     3  routers       4 or more     the first, as it stands on the wire

An option that is repeated overrides itself.  Other options are skipped, but their data have to
fit.

The walk is over a partial memory: a read outside the payload has no result.  The reference
(`DhcpValid`, `dhcpRecordOf`) is over the list of options of `Lib.Tlv`.

**Proved here** (`dhcp_parse_inbound_iff`), for every payload: the parser ends, reads nothing but
the payload, returns a type exactly for a valid message of that type, with the record that belongs
to it, and otherwise 0, with 0 in the record.  The length is signed in the first comparison, so
that a payload is shorter than 2^31; a frame has 2^16 bytes at most.
-/
import WsPi5.Dhcp.Fsa
import WsPi5.Tcp.Types
import WsPi5.Lib.Mem
import WsPi5.Lib.Region
import WsPi5.Lib.Tlv

namespace WsPi5

open Lib

/-! ## The parser -/

/-- `dhcp_parsed`, with the fields that only the parser and `dhcp_dispatch` read. -/
structure DhcpRecord extends DhcpParsed where
  msgType : Byte := 0
  seenLease : Bool := false
  seenServer : Bool := false
  deriving DecidableEq, Repr

def wireWord (bs : List Byte) : W := BitVec.ofNat 32 (leNat bs)

def hostWord (bs : List Byte) : W := BitVec.ofNat 32 (leNat bs.reverse)

/-- `.Lparse_drop`. -/
def dhcpDrop (r : DhcpRecord) : Byte × DhcpRecord := (0, { r with msgType := 0 })

/-- `.Lparse_opt_done`: OFFER and ACK need a server id and a lease, NAK needs nothing. -/
def dhcpRequired (r : DhcpRecord) : Byte × DhcpRecord :=
  if r.msgType = 2 ∨ r.msgType = 5 then
    if r.seenLease && r.seenServer then (r.msgType, r) else dhcpDrop r
  else if r.msgType = 6 then (r.msgType, r)
  else dhcpDrop r

section
variable (mem : Nat → Option Byte)

/-- The option with this code and length, its data at `p`. -/
def dhcpOption (code len : Byte) (p : Nat) (r : DhcpRecord) :
    Option (Except DhcpRecord DhcpRecord) :=
  if code = 53 then
    if len ≠ 1 then some (.error r)
    else (mem p).map fun b => .ok { r with msgType := b }
  else if code = 54 then
    if len ≠ 4 then some (.error r)
    else (loadCells mem 4 p).map fun bs =>
      .ok { r with serverId := wireWord bs, seenServer := true }
  else if code = 51 then
    if len ≠ 4 then some (.error r)
    else (loadCells mem 4 p).map fun bs =>
      .ok { r with leaseTime := hostWord bs, seenLease := true }
  else if code = 1 then
    if len ≠ 4 then some (.error r)
    else (loadCells mem 4 p).map fun bs =>
      .ok { r with subnetMask := wireWord bs, seenSubnet := true }
  else if code = 3 then
    if len < 4 then some (.error r)
    else (loadCells mem 4 p).map fun bs =>
      .ok { r with routerIp := wireWord bs, seenRouter := true }
  else some (.ok r)

/-- `.Lparse_opt_loop`, at most `n` turns; an error is a drop. -/
def dhcpOptLoop (x19 w20 : Nat) : Nat → Nat → DhcpRecord → Option (Except DhcpRecord DhcpRecord)
  | 0, w23, r => if w20 ≤ w23 then some (.ok r) else none
  | n + 1, w23, r =>
      if w20 ≤ w23 then some (.ok r)
      else (mem (x19 + w23)).bind fun w0 =>
        if w0 = 255 then some (.ok r)
        else if w0 = 0 then dhcpOptLoop x19 w20 n (w23 + 1) r
        else if w20 ≤ w23 + 1 then some (.error r)
        else (mem (x19 + w23 + 1)).bind fun w3 =>
          if w20 < w23 + 2 + w3.toNat then some (.error r)
          else (dhcpOption mem w0 w3 (x19 + w23 + 2) r).bind fun
            | .error r => some (.error r)
            | .ok r => dhcpOptLoop x19 w20 n (w23 + 2 + w3.toNat) r

/-- The checks of the header: a reply, Ethernet, our transaction, our address, the cookie. -/
def dhcpHeader (x19 : Nat) (w21 : W) (ourMac : Vector Byte 6) : Option Bool :=
  (mem x19).bind fun op =>
    if op ≠ 2 then some false
    else (mem (x19 + 1)).bind fun htype =>
      if htype ≠ 1 then some false
      else (mem (x19 + 2)).bind fun hlen =>
        if hlen ≠ 6 then some false
        else (loadCells mem 4 (x19 + 4)).bind fun xid =>
          if hostWord xid ≠ w21 then some false
          else (cellsAre mem (x19 + 28) ourMac.toList).bind fun ours =>
            if !ours then some false
            else cellsAre mem (x19 + 236) [0x63, 0x82, 0x53, 0x63]

/-- `dhcp_parse_inbound`: the returned type and `dhcp_parsed`. -/
def dhcpParseInboundAt (x0 w1 : Nat) (w2 : W) (ourMac : Vector Byte 6) :
    Option (Byte × DhcpRecord) :=
  if (BitVec.ofNat 32 w1).toInt < 241 then some (dhcpDrop {})
  else (dhcpHeader mem x0 w2 ourMac).bind fun ours =>
    if !ours then some (dhcpDrop {})
    else (loadCells mem 4 (x0 + 16)).bind fun yiaddr =>
      let r : DhcpRecord := { yiaddr := wireWord yiaddr }
      (dhcpOptLoop mem x0 w1 (w1 - 240) 240 r).map fun
        | .error r => dhcpDrop r
        | .ok r => dhcpRequired r

end

/-! ## The reference -/

/-- RFC 2132: 255 ends the list, 0 pads, a length counts the data. -/
def dhcpOptions : TlvFormat := ⟨255, 0, 0⟩

/-- `n` bytes from an offset on. -/
def bytesAt (payload : List Byte) (off n : Nat) : List Byte := (payload.drop off).take n

def dhcpItems (payload : List Byte) : List TlvItem := dhcpOptions.items (payload.drop 240)

def dhcpItemOk (it : TlvItem) : Bool :=
  if it.1 = 53 then it.2.length = 1
  else if it.1 = 54 ∨ it.1 = 51 ∨ it.1 = 1 then it.2.length = 4
  else if it.1 = 3 then 4 ≤ it.2.length
  else true

/-- A BOOTP reply to our transaction and our address, with the cookie of DHCP. -/
structure DhcpForUs (xid : W) (ourMac : Vector Byte 6) (payload : List Byte) : Prop where
  op : bytesAt payload 0 1 = [2]
  htype : bytesAt payload 1 1 = [1]
  hlen : bytesAt payload 2 1 = [6]
  xid : hostWord (bytesAt payload 4 4) = xid
  chaddr : bytesAt payload 28 6 = ourMac.toList
  magic : bytesAt payload 236 4 = [0x63, 0x82, 0x53, 0x63]

/-- A message of this type that the client may act on. -/
structure DhcpValid (xid : W) (ourMac : Vector Byte 6) (payload : List Byte) (ty : Byte) :
    Prop where
  forUs : DhcpForUs xid ourMac payload
  wellFormed : dhcpOptions.wellFormed (payload.drop 240) = true
  lengths : ∀ it ∈ dhcpItems payload, dhcpItemOk it = true
  type : lastOf 53 (dhcpItems payload) = some [ty]
  known : ty = 2 ∨ ty = 5 ∨ ty = 6
  required : ty ≠ 6 →
    (lastOf 54 (dhcpItems payload)).isSome = true ∧ (lastOf 51 (dhcpItems payload)).isSome = true

/-- What the options say, the last of each kind. -/
def dhcpRecordFrom (yiaddr : W) (items : List TlvItem) : DhcpRecord where
  msgType := (lastOf 53 items).elim 0 fun data => data.headD 0
  yiaddr := yiaddr
  seenServer := (lastOf 54 items).isSome
  serverId := (lastOf 54 items).elim 0 wireWord
  seenLease := (lastOf 51 items).isSome
  leaseTime := (lastOf 51 items).elim 0 hostWord
  seenSubnet := (lastOf 1 items).isSome
  subnetMask := (lastOf 1 items).elim 0 wireWord
  seenRouter := (lastOf 3 items).isSome
  routerIp := (lastOf 3 items).elim 0 fun data => wireWord (data.take 4)

def dhcpRecordOf (payload : List Byte) : DhcpRecord :=
  dhcpRecordFrom (wireWord (bytesAt payload 16 4)) (dhcpItems payload)

/-! ## The options -/

/-- An option whose length is right, on the list. -/
def dhcpTake (r : DhcpRecord) (it : TlvItem) : DhcpRecord :=
  if it.1 = 53 then { r with msgType := it.2.headD 0 }
  else if it.1 = 54 then { r with serverId := wireWord it.2, seenServer := true }
  else if it.1 = 51 then { r with leaseTime := hostWord it.2, seenLease := true }
  else if it.1 = 1 then { r with subnetMask := wireWord it.2, seenSubnet := true }
  else if it.1 = 3 then { r with routerIp := wireWord (it.2.take 4), seenRouter := true }
  else r

theorem dhcpTake_foldl (ip : W) (items : List TlvItem) :
    items.foldl dhcpTake { yiaddr := ip } = dhcpRecordFrom ip items := by
  induction items using List.reverseRecOn with
  | nil => rfl
  | append_singleton items it ih =>
      obtain ⟨kind, data⟩ := it
      rw [List.foldl_append, ih, List.foldl_cons, List.foldl_nil, dhcpTake]
      simp only [dhcpRecordFrom, lastOf_snoc]
      by_cases h53 : kind = 53
      · subst h53
        rfl
      by_cases h54 : kind = 54
      · subst h54
        rfl
      by_cases h51 : kind = 51
      · subst h51
        rfl
      by_cases h1 : kind = 1
      · subst h1
        rfl
      by_cases h3 : kind = 3
      · subst h3
        rfl
      simp only [if_neg h53, if_neg h54, if_neg h51, if_neg h1, if_neg h3]

section
variable {mem : Nat → Option Byte} {p : Nat} {r : DhcpRecord}

theorem dhcpOption_eq {code len : Byte} {data : List Byte} (h : Stands mem p data)
    (hlen : data.length = len.toNat) : dhcpOption mem code len p r =
      some (if dhcpItemOk (code, data) then .ok (dhcpTake r (code, data)) else .error r) := by
  have hone : len = 1 ↔ data.length = 1 := by
    rw [hlen, ← UInt8.toNat_inj]
    exact Iff.rfl
  have hfour : len = 4 ↔ data.length = 4 := by
    rw [hlen, ← UInt8.toNat_inj]
    exact Iff.rfl
  have hleast : len < 4 ↔ ¬ 4 ≤ data.length := by
    rw [hlen, Nat.not_le]
    exact UInt8.lt_iff_toNat_lt
  -- four bytes that are all the data
  have hload : data.length = 4 → loadCells mem 4 p = some data := fun hd => hd ▸ loadCells_eq h
  have hcase : ∀ {β : Type} (bad : β) (good : List Byte → β),
      (if len ≠ 4 then some bad else (loadCells mem 4 p).map good)
        = some (if data.length = 4 then good data else bad) := by
    intro β bad good
    by_cases hd : data.length = 4
    · rw [if_neg (fun hne => hne (hfour.mpr hd)), hload hd, if_pos hd]
      rfl
    · rw [if_pos (fun hl => hd (hfour.mp hl)), if_neg hd]
  by_cases h53 : code = 53
  · subst h53
    show (if len ≠ 1 then some (Except.error r)
      else (mem p).map fun b => Except.ok { r with msgType := b }) = _
    match data, h, hone with
    | [b], h, hone =>
        rw [if_neg (fun hne => hne (hone.mpr rfl)), h.head]
        rfl
    | [], _, hone => exact if_pos fun hl => nomatch hone.mp hl
    | _ :: _ :: _, _, hone => exact if_pos fun hl => nomatch hone.mp hl
  by_cases h54 : code = 54
  · subst h54
    exact (hcase _ _).trans (by simp [dhcpItemOk, dhcpTake])
  by_cases h51 : code = 51
  · subst h51
    exact (hcase _ _).trans (by simp [dhcpItemOk, dhcpTake])
  by_cases h1 : code = 1
  · subst h1
    exact (hcase _ _).trans (by simp [dhcpItemOk, dhcpTake])
  by_cases h3 : code = 3
  · subst h3
    show (if len < 4 then some (Except.error r) else (loadCells mem 4 p).map fun bs =>
      Except.ok { r with routerIp := wireWord bs, seenRouter := true }) = _
    by_cases hd : 4 ≤ data.length
    · rw [if_neg (fun hl => hleast.mp hl hd), loadCells_take h hd]
      simp [dhcpItemOk, dhcpTake, hd]
    · rw [if_pos (hleast.mpr hd)]
      simp [dhcpItemOk, hd]
  simp [dhcpOption, dhcpItemOk, dhcpTake, h53, h54, h51, h1, h3]

/-- What the walk comes to: a drop, or all the options of a list that is well formed. -/
def dhcpOutcome (r : DhcpRecord) (walk : List TlvItem × Bool)
    (out : Except DhcpRecord DhcpRecord) : Prop :=
  if walk.2 = true ∧ ∀ it ∈ walk.1, dhcpItemOk it = true then out = .ok (walk.1.foldl dhcpTake r)
  else ∃ r', out = .error r'

theorem dhcpOutcome_end {r : DhcpRecord} : dhcpOutcome r ([], true) (.ok r) := by
  rw [dhcpOutcome, if_pos ⟨rfl, fun _ hit => nomatch hit⟩]
  rfl

theorem dhcpOutcome_malformed {r : DhcpRecord} : dhcpOutcome r ([], false) (.error r) := by
  rw [dhcpOutcome, if_neg (fun h => nomatch h.1)]
  exact ⟨r, rfl⟩

theorem dhcpOutcome_cons {it : TlvItem} {walk : List TlvItem × Bool}
    {out : Except DhcpRecord DhcpRecord} (hok : dhcpItemOk it = true)
    (h : dhcpOutcome (dhcpTake r it) walk out) : dhcpOutcome r (it :: walk.1, walk.2) out := by
  rw [dhcpOutcome] at h ⊢
  simp only [List.mem_cons, forall_eq_or_imp, hok, true_and]
  exact h

theorem dhcpOptLoop_eq {x19 w20 : Nat} : ∀ {n w23 : Nat} {bs : List Byte} {r : DhcpRecord},
    Stands mem (x19 + w23) bs → w23 + bs.length = w20 → bs.length ≤ n →
    ∃ out, dhcpOptLoop mem x19 w20 n w23 r = some out ∧
      dhcpOutcome r (dhcpOptions.walk n bs) out := by
  intro n
  induction n with
  | zero =>
      intro w23 bs r _ hend hn
      have hnil : bs = [] := List.eq_nil_of_length_eq_zero (Nat.le_zero.mp hn)
      subst hnil
      exact ⟨.ok r, if_pos (Nat.le_of_eq hend.symm), dhcpOutcome_end⟩
  | succ n ih =>
      intro w23 bs r h hend hn
      cases bs with
      | nil => exact ⟨.ok r, if_pos (Nat.le_of_eq hend.symm), dhcpOutcome_end⟩
      | cons kind rest =>
          rw [List.length_cons] at hend hn
          rw [dhcpOptLoop, if_neg (by omega), h.head, Option.bind_some]
          by_cases hend255 : kind = 255
          · rw [if_pos hend255, hend255]
            exact ⟨.ok r, rfl, dhcpOutcome_end⟩
          rw [if_neg hend255]
          by_cases hpad : kind = 0
          · rw [if_pos hpad, TlvFormat.walk_pad hend255 hpad]
            exact ih h.tail (by omega) (by omega)
          rw [if_neg hpad]
          cases rest with
          | nil =>
              rw [if_pos (by rw [← hend]; exact Nat.le_refl _),
                TlvFormat.walk_noLength hend255 hpad]
              exact ⟨.error r, rfl, dhcpOutcome_malformed⟩
          | cons len body =>
              rw [List.length_cons] at hend hn
              rw [if_neg (by omega), h.tail.head, Option.bind_some]
              by_cases hfit : w20 < w23 + 2 + len.toNat
              · rw [if_pos hfit, TlvFormat.walk_malformed hend255 hpad
                  (.inr (by show body.length + 0 < _; omega))]
                exact ⟨.error r, rfl, dhcpOutcome_malformed⟩
              have hwalk : dhcpOptions.walk (n + 1) (kind :: len :: body) =
                  ((kind, body.take len.toNat) :: (dhcpOptions.walk n (body.drop len.toNat)).1,
                    (dhcpOptions.walk n (body.drop len.toNat)).2) :=
                TlvFormat.walk_item hend255 hpad
                  (by show ¬ (len.toNat < 0 ∨ body.length + 0 < len.toNat); omega)
              have hbody : Stands mem (x19 + w23 + 2) body := h.tail.tail
              have htake : (body.take len.toNat).length = len.toNat :=
                List.length_take_of_le (by omega)
              have hdrop : (body.drop len.toNat).length = body.length - len.toNat :=
                List.length_drop
              rw [if_neg hfit, dhcpOption_eq (hbody.ofPrefix (List.take_prefix ..)) htake,
                Option.bind_some, hwalk]
              cases hok : dhcpItemOk (kind, body.take len.toNat) with
              | true =>
                  have hrest : Stands mem (x19 + (w23 + 2 + len.toNat)) (body.drop len.toNat) := by
                    rw [← Nat.add_assoc, ← Nat.add_assoc]
                    exact hbody.drop (by omega)
                  obtain ⟨out, hloop, hout⟩ := @ih (w23 + 2 + len.toNat) (body.drop len.toNat)
                    (dhcpTake r (kind, body.take len.toNat)) hrest (by omega) (by omega)
                  exact ⟨out, hloop, dhcpOutcome_cons hok hout⟩
              | false =>
                  refine ⟨.error r, rfl, ?_⟩
                  rw [dhcpOutcome, if_neg]
                  · exact ⟨r, rfl⟩
                  · intro hall
                    rw [hall.2 _ (List.mem_cons_self ..)] at hok
                    cases hok

end

/-! ## The header -/

section
variable {mem : Nat → Option Byte} {p : Nat} {payload : List Byte}

theorem bytesAt_one {off : Nat} (h : off < payload.length) :
    bytesAt payload off 1 = [payload[off]] := by
  rw [bytesAt, List.drop_eq_getElem_cons h]
  rfl

theorem loadCells_bytesAt {off n : Nat} (h : Stands mem p payload)
    (hn : off + n ≤ payload.length) : loadCells mem n (p + off) = some (bytesAt payload off n) :=
  loadCells_take (h.drop (by omega)) (by rw [List.length_drop]; omega)

theorem cellsAre_bytesAt {off : Nat} {ys : List Byte} (h : Stands mem p payload)
    (hn : off + ys.length ≤ payload.length) :
    cellsAre mem (p + off) ys = some (decide (bytesAt payload off ys.length = ys)) :=
  cellsAre_eq (h.drop (by omega)) (by rw [List.length_drop]; omega)

theorem dhcpHeader_eq (xid : W) (ourMac : Vector Byte 6) (h : Stands mem p payload)
    (hlen : 240 ≤ payload.length) : ∃ ours, dhcpHeader mem p xid ourMac = some ours ∧
      (ours = true ↔ DhcpForUs xid ourMac payload) := by
  have hmac : ourMac.toList.length = 6 := Vector.length_toList
  have hcell : ∀ off (hoff : off < payload.length), mem (p + off) = some payload[off] := h
  have hfirst : mem p = some payload[0] := hcell 0 (by omega)
  rw [dhcpHeader, hfirst, Option.bind_some]
  by_cases hop : payload[0] = 2
  swap
  · rw [if_pos hop]
    refine ⟨false, rfl, (nomatch ·), fun hus => absurd ?_ hop⟩
    exact List.singleton_inj.mp ((bytesAt_one (by omega)).symm.trans hus.op)
  rw [if_neg (not_not_intro hop), hcell 1 (by omega), Option.bind_some]
  by_cases hht : payload[1] = 1
  swap
  · rw [if_pos hht]
    refine ⟨false, rfl, (nomatch ·), fun hus => absurd ?_ hht⟩
    exact List.singleton_inj.mp ((bytesAt_one (by omega)).symm.trans hus.htype)
  rw [if_neg (not_not_intro hht), hcell 2 (by omega), Option.bind_some]
  by_cases hhl : payload[2] = 6
  swap
  · rw [if_pos hhl]
    refine ⟨false, rfl, (nomatch ·), fun hus => absurd ?_ hhl⟩
    exact List.singleton_inj.mp ((bytesAt_one (by omega)).symm.trans hus.hlen)
  rw [if_neg (not_not_intro hhl), loadCells_bytesAt h (by omega), Option.bind_some]
  by_cases hxid : hostWord (bytesAt payload 4 4) = xid
  swap
  · rw [if_pos hxid]
    exact ⟨false, rfl, (nomatch ·), fun hus => absurd hus.xid hxid⟩
  rw [if_neg (not_not_intro hxid), cellsAre_bytesAt h (by omega), hmac, Option.bind_some]
  by_cases hch : bytesAt payload 28 6 = ourMac.toList
  swap
  · rw [decide_eq_false hch]
    exact ⟨false, rfl, (nomatch ·), fun hus => absurd hus.chaddr hch⟩
  rw [decide_eq_true hch]
  refine ⟨_, cellsAre_bytesAt h hlen, ?_⟩
  rw [decide_eq_true_iff]
  constructor
  · intro hmagic
    exact {
      op := by rw [bytesAt_one (by omega), hop]
      htype := by rw [bytesAt_one (by omega), hht]
      hlen := by rw [bytesAt_one (by omega), hhl]
      xid := hxid
      chaddr := hch
      magic := hmagic }
  · exact DhcpForUs.magic

end

/-! ## The whole message -/

/-- The last check: the types that are accepted, and what they need. -/
theorem dhcpRequired_spec (r : DhcpRecord) :
    (∀ ty, ty ≠ 0 → ((dhcpRequired r).1 = ty ↔ r.msgType = ty ∧ (ty = 2 ∨ ty = 5 ∨ ty = 6) ∧
      (ty ≠ 6 → r.seenServer = true ∧ r.seenLease = true))) ∧
    ((dhcpRequired r).1 ≠ 0 → (dhcpRequired r).2 = r) ∧
    ((dhcpRequired r).1 = 0 → (dhcpRequired r).2.msgType = 0) := by
  have hdrop : ∀ {P : Byte → Prop}, (∀ ty, ty ≠ 0 → ¬ P ty) →
      (∀ ty, ty ≠ 0 → ((dhcpDrop r).1 = ty ↔ P ty)) ∧
        ((dhcpDrop r).1 ≠ 0 → (dhcpDrop r).2 = r) ∧
        ((dhcpDrop r).1 = 0 → (dhcpDrop r).2.msgType = 0) := fun hnot =>
    ⟨fun ty hty => ⟨fun h => absurd h.symm hty, fun h => absurd h (hnot ty hty)⟩,
      fun h => absurd rfl h, fun _ => rfl⟩
  rw [dhcpRequired]
  by_cases h25 : r.msgType = 2 ∨ r.msgType = 5
  · have h6 : r.msgType ≠ 6 := by
      intro h
      rw [h] at h25
      exact h25.elim (nomatch ·) (nomatch ·)
    rw [if_pos h25]
    cases hseen : r.seenLease && r.seenServer with
    | true =>
        have hboth := Bool.and_eq_true_iff.mp hseen
        have hne : r.msgType ≠ 0 := by
          intro h
          rw [h] at h25
          exact h25.elim (nomatch ·) (nomatch ·)
        rw [if_pos rfl]
        refine ⟨fun ty _ => ⟨?_, fun h => h.1⟩, fun _ => rfl, fun h => absurd h hne⟩
        rintro rfl
        exact ⟨rfl, h25.elim .inl fun h => .inr (.inl h), fun _ => ⟨hboth.2, hboth.1⟩⟩
    | false =>
        rw [if_neg Bool.false_ne_true]
        refine hdrop fun ty _ hty => ?_
        have hboth := hty.2.2 (hty.1 ▸ h6)
        rw [hboth.1, hboth.2] at hseen
        cases hseen
  rw [if_neg h25]
  by_cases h6 : r.msgType = 6
  · rw [if_pos h6]
    refine ⟨fun ty _ => ⟨?_, fun h => h.1⟩, fun _ => rfl,
      fun h => absurd (h6.symm.trans h) (by decide)⟩
    rintro rfl
    exact ⟨rfl, .inr (.inr h6), fun h => absurd h6 h⟩
  · rw [if_neg h6]
    refine hdrop fun ty _ hty => ?_
    obtain ⟨rfl, hknown, -⟩ := hty
    exact hknown.elim (fun h => h25 (.inl h)) fun h => h.elim (fun h => h25 (.inr h)) h6

theorem dhcpRecordFrom_type {ip : W} {items : List TlvItem} {ty : Byte} (hty : ty ≠ 0)
    (hok : ∀ it ∈ items, dhcpItemOk it = true) :
    (dhcpRecordFrom ip items).msgType = ty ↔ lastOf 53 items = some [ty] := by
  rw [dhcpRecordFrom]
  cases hlast : lastOf 53 items with
  | none => exact ⟨fun h => absurd h.symm hty, (nomatch ·)⟩
  | some data =>
      have hone : data.length = 1 := of_decide_eq_true (hok _ (lastOf_mem hlast))
      obtain ⟨b, rfl⟩ := List.length_eq_one_iff.mp hone
      exact ⟨fun h => congrArg (fun b => some [b]) h,
        fun h => (List.cons.inj (Option.some.inj h)).1⟩

theorem DhcpValid.long {xid : W} {ourMac : Vector Byte 6} {payload : List Byte} {ty : Byte}
    (h : DhcpValid xid ourMac payload ty) : 241 ≤ payload.length := by
  by_contra hlt
  have hnil : payload.drop 240 = [] := List.drop_eq_nil_of_le (by omega)
  have htype := h.type
  rw [dhcpItems, hnil] at htype
  cases htype

theorem signedLength {n : Nat} (h : n < 2 ^ 31) : (BitVec.ofNat 32 n).toInt = n := by
  rw [BitVec.toInt_eq_toNat_of_lt] <;> rw [BitVec.toNat_ofNat] <;> omega

/-- **The parser of received messages**, on a payload and nothing else: it ends; a type is returned
exactly for a valid message of that type, and then the record has what the message says; otherwise
the type in the record is 0. -/
theorem dhcp_parse_inbound_iff (x0 : Nat) (payload : List Byte) (xid : W) (ourMac : Vector Byte 6)
    (hlen : payload.length < 2 ^ 31) :
    ∃ ty r, dhcpParseInboundAt (region x0 payload) x0 payload.length xid ourMac = some (ty, r) ∧
      (∀ ty', ty' ≠ 0 → (ty = ty' ↔ DhcpValid xid ourMac payload ty')) ∧
      (ty ≠ 0 → r = dhcpRecordOf payload) ∧ (ty = 0 → r.msgType = 0) := by
  have h := stands_region x0 payload
  -- a drop, where no type is valid
  have hdrop : ∀ r, (∀ ty, ¬ DhcpValid xid ourMac payload ty) →
      ∃ ty r', some (dhcpDrop r) = some (ty, r') ∧
        (∀ ty', ty' ≠ 0 → (ty = ty' ↔ DhcpValid xid ourMac payload ty')) ∧
        (ty ≠ 0 → r' = dhcpRecordOf payload) ∧ (ty = 0 → r'.msgType = 0) := fun r hnot =>
    ⟨0, _, rfl, fun ty hty => ⟨fun h => absurd h.symm hty, fun h => absurd h (hnot ty)⟩,
      fun h => absurd rfl h, fun _ => rfl⟩
  rw [dhcpParseInboundAt, signedLength hlen]
  by_cases hshort : (payload.length : Int) < 241
  · rw [if_pos hshort]
    exact hdrop _ fun ty hv => absurd hv.long (by omega)
  rw [if_neg hshort]
  obtain ⟨ours, hheader, hours⟩ := dhcpHeader_eq xid ourMac h (by omega)
  rw [hheader, Option.bind_some]
  cases ours with
  | false => exact hdrop _ fun ty hv => nomatch hours.mpr hv.forUs
  | true =>
      have hopts : Stands (region x0 payload) (x0 + 240) (payload.drop 240) := h.drop (by omega)
      have hcount : (payload.drop 240).length = payload.length - 240 := List.length_drop
      obtain ⟨out, hloop, hout⟩ := @dhcpOptLoop_eq _ x0 payload.length (payload.length - 240) 240
        (payload.drop 240) { yiaddr := wireWord (bytesAt payload 16 4) } hopts (by omega) (by omega)
      show ∃ ty r, (Option.bind _ _) = _ ∧ _
      rw [loadCells_bytesAt h (by omega), Option.bind_some]
      dsimp only
      rw [hloop, Option.map_some]
      rw [← hcount] at hout
      rw [dhcpOutcome] at hout
      split at hout
      · rename_i hgood
        have hresult : out = .ok (dhcpRecordOf payload) :=
          hout.trans (congrArg _ (dhcpTake_foldl ..))
        have hspec := dhcpRequired_spec (dhcpRecordOf payload)
        rw [hresult]
        refine ⟨_, _, rfl, fun ty hty => (hspec.1 ty hty).trans ?_, hspec.2⟩
        have htype : (dhcpRecordOf payload).msgType = ty ↔ _ := dhcpRecordFrom_type hty hgood.2
        rw [htype]
        exact ⟨fun ⟨htype, hknown, hreq⟩ =>
            ⟨hours.mp rfl, hgood.1, hgood.2, htype, hknown, hreq⟩,
          fun hv => ⟨hv.type, hv.known, hv.required⟩⟩
      · rename_i hbad
        obtain ⟨r', rfl⟩ := hout
        exact hdrop r' fun ty hv => hbad ⟨hv.wellFormed, hv.lengths⟩

/-- An offer of 192.168.1.50 for an hour. -/
def demoOffer : List Byte :=
  [2, 1, 6, 0, 0x12, 0x34, 0x56, 0x78] ++ List.replicate 8 0 ++ [192, 168, 1, 50] ++
    List.replicate 8 0 ++ [2, 0, 0, 0, 0, 1] ++ List.replicate 202 0 ++ [0x63, 0x82, 0x53, 0x63] ++
    [53, 1, 2, 54, 4, 192, 168, 1, 1, 51, 4, 0, 0, 14, 16, 0, 3, 8, 192, 168, 1, 1, 0, 0, 0, 0, 255]

theorem demoOffer_valid : DhcpValid 0x12345678 #v[2, 0, 0, 0, 0, 1] demoOffer 2 := by
  refine ⟨⟨?_, ?_, ?_, ?_, ?_, ?_⟩, ?_, ?_, ?_, .inl rfl, fun _ => ?_⟩ <;> decide +kernel

theorem dhcp_parse_inbound_demo : ∃ r,
    dhcpParseInboundAt (region 0x1000 demoOffer) 0x1000 demoOffer.length 0x12345678
      #v[2, 0, 0, 0, 0, 1] = some (2, r) ∧
    r.yiaddr = wireWord [192, 168, 1, 50] ∧ r.leaseTime = 3600 := by
  obtain ⟨ty, r, hcall, hty, hrec, -⟩ :=
    dhcp_parse_inbound_iff 0x1000 demoOffer 0x12345678 #v[2, 0, 0, 0, 0, 1] (by decide +kernel)
  obtain rfl : ty = 2 := (hty 2 (by decide)).mpr demoOffer_valid
  rw [hrec (by decide)] at hcall
  exact ⟨_, hcall, by decide +kernel, by decide +kernel⟩

end WsPi5

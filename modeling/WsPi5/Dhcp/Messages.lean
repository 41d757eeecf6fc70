/-
# `WsPi5.Dhcp.Messages` — the messages of the DHCP client: `lib/dhcp.S`

Three builders fill the transmit buffer from byte 42 on, and `dhcp_wrap_broadcast` puts the headers in
front of what they wrote.

    240 bytes    op 1, Ethernet, xid, BROADCAST, ciaddr, chaddr, zeros, the cookie
    53           DISCOVER or REQUEST
    50, 54       the requested address and the server, in SELECTING only
    55           subnet mask, router, lease time
    255

`DhcpMsg` is what the FSA means by a message.  `dhcpRead` is the other end's reading of one, after
RFC 2131: a REQUEST with a server identifier is the answer to an offer, and one with neither that nor
an address extends the lease of `ciaddr`.

**Proved here** (`dhcp_messages_read`).  Whatever the buffer held before: a server reads the message
that was meant, with the hardware address of the client, the frame fits the 350 bytes there are, and no
host with this code takes it, neither as an IP packet nor as a reply.
-/
import WsPi5.Mdns.Frames
import WsPi5.Dhcp.Inbound

namespace WsPi5

open Lib

/-! ## What a message says -/

def DhcpMsg.xid : DhcpMsg → W
  | .discover xid | .requestSelecting xid _ _ | .requestRenewing xid _ => xid

/-- The address in the header: none before there is one. -/
def DhcpMsg.ciaddr : DhcpMsg → W
  | .discover _ | .requestSelecting _ _ _ => 0
  | .requestRenewing _ ciaddr => ciaddr

def DhcpMsg.items : DhcpMsg → List TlvItem
  | .discover _ => [(53, [1]), (55, [1, 3, 51])]
  | .requestSelecting _ serverId requestedIp =>
      [(53, [3]), (50, wordBytes requestedIp), (54, wordBytes serverId), (55, [1, 3, 51])]
  | .requestRenewing _ _ => [(53, [3]), (55, [1, 3, 51])]

namespace Wire

/-! ## The builders -/

/-- 99.130.83.99. -/
def dhcpMagic : List Byte := [0x63, 0x82, 0x53, 0x63]

/-- The stores of `_dhcp_zero_header`. -/
def dhcpHeaderFields (ourMac : BitVec 48) (xid ciaddr : W) : List (List Byte) :=
  [[1], [1], [6], [0], beBytes xid, [0, 0], [0x80, 0], wordBytes ciaddr, wordBytes 0, wordBytes 0,
   wordBytes 0, macBytes ourMac, List.replicate 10 0, List.replicate 64 0, List.replicate 128 0,
   dhcpMagic]

/-- `_dhcp_zero_header`, at `x0`. -/
def dhcpZeroHeader (ourMac : BitVec 48) (xid ciaddr : W) (x0 : Nat) (buf : Buf) : Buf :=
  memWrites buf (blocks x0 (dhcpHeaderFields ourMac xid ciaddr))

/-- `strb w, [x0], #1`, byte after byte. -/
def putBytes (bs : List Byte) (c : Buf × Nat) : Buf × Nat := (memWrite c.1 c.2 bs, c.2 + bs.length)

def dhcpAppendMsgType (ty : Byte) : Buf × Nat → Buf × Nat := putBytes [53, 1, ty]

def dhcpAppendParamRequest : Buf × Nat → Buf × Nat := putBytes [55, 3, 1, 3, 51]

def dhcpAppendIpOption (code : Byte) (ip : W) : Buf × Nat → Buf × Nat :=
  putBytes (code :: 4 :: wordBytes ip)

def dhcpAppendEnd : Buf × Nat → Buf × Nat := putBytes [255]

section
variable (ourMac : BitVec 48) (xid : W) (x0 : Nat) (buf : Buf)

/-- `dhcp_build_discover`: the buffer, and the length. -/
def dhcpBuildDiscover : Buf × Nat :=
  let c := dhcpAppendEnd (dhcpAppendParamRequest (dhcpAppendMsgType 1
    (dhcpZeroHeader ourMac xid 0 x0 buf, x0 + 240)))
  (c.1, c.2 - x0)

def dhcpBuildRequestSelecting (serverId requestedIp : W) : Buf × Nat :=
  let c := dhcpAppendEnd (dhcpAppendParamRequest (dhcpAppendIpOption 54 serverId
    (dhcpAppendIpOption 50 requestedIp (dhcpAppendMsgType 3
      (dhcpZeroHeader ourMac xid 0 x0 buf, x0 + 240)))))
  (c.1, c.2 - x0)

def dhcpBuildRequestRenewing (ciaddr : W) : Buf × Nat :=
  let c := dhcpAppendEnd (dhcpAppendParamRequest (dhcpAppendMsgType 3
    (dhcpZeroHeader ourMac xid ciaddr x0 buf, x0 + 240)))
  (c.1, c.2 - x0)

end

def dhcpBuild (ourMac : BitVec 48) (msg : DhcpMsg) (x0 : Nat) (buf : Buf) : Buf × Nat :=
  match msg with
  | .discover xid => dhcpBuildDiscover ourMac xid x0 buf
  | .requestSelecting xid serverId requestedIp =>
      dhcpBuildRequestSelecting ourMac xid x0 buf serverId requestedIp
  | .requestRenewing xid ciaddr => dhcpBuildRequestRenewing ourMac xid x0 buf ciaddr

/-- What `_dhcp_*_send_arm` hand to `send_fn`: the message at 42, and its headers. -/
def dhcpFrame (ourMac : BitVec 48) (msg : DhcpMsg) (txBuf : Buf) : Buf × Nat :=
  let built := dhcpBuild ourMac msg 42 txBuf
  (dhcpWrapBroadcast ourMac built.2 built.1, built.2 + 42)

/-! ## What a server reads -/

def macVector (mac : BitVec 48) : Vector Byte 6 := ⟨(macBytes mac).toArray, rfl⟩

/-- A BOOTP request from an Ethernet address, and what its options make of it. -/
def dhcpRead (payload : List Byte) : Option (BitVec 48 × DhcpMsg) :=
  if bytesAt payload 0 3 = [1, 1, 6] ∧ bytesAt payload 236 4 = dhcpMagic ∧
      dhcpOptions.wellFormed (payload.drop 240) = true then
    let mac := BitVec.ofNat 48 (leNat (bytesAt payload 28 6))
    let xid := hostWord (bytesAt payload 4 4)
    let items := dhcpItems payload
    match lastOf 53 items, lastOf 54 items, lastOf 50 items with
    | some [1], none, none => some (mac, .discover xid)
    | some [3], some sid, some ip => some (mac, .requestSelecting xid (wireWord sid) (wireWord ip))
    | some [3], none, none => some (mac, .requestRenewing xid (wireWord (bytesAt payload 12 4)))
    | _, _, _ => none
  else none

/-! ## The bytes of a message -/

def dhcpBytes (ourMac : BitVec 48) (msg : DhcpMsg) : List Byte :=
  (dhcpHeaderFields ourMac msg.xid msg.ciaddr).flatten ++ (dhcpOptions.encode msg.items ++ [255])

section
variable {ourMac : BitVec 48} {xid ciaddr : W} {msg : DhcpMsg} {x0 : Nat} {buf : Buf}

theorem dhcpHeaderFields_length : (dhcpHeaderFields ourMac xid ciaddr).flatten.length = 240 := by
  simp only [dhcpHeaderFields, List.flatten_cons, List.flatten_nil, List.length_append,
    List.length_replicate, List.length_cons, List.length_nil, macBytes_length, wordBytes_length,
    beBytes, List.length_map, dhcpMagic]

theorem putBytes_behind {front bs : List Byte} {x0 n : Nat} (hn : n = x0 + front.length) :
    putBytes bs (memWrite buf x0 front, n)
      = (memWrite buf x0 (front ++ bs), x0 + (front ++ bs).length) := by
  rw [putBytes, memWrite_append, hn, List.length_append, Nat.add_assoc]

theorem dhcpZeroHeader_eq : dhcpZeroHeader ourMac xid ciaddr x0 buf
    = memWrite buf x0 (dhcpHeaderFields ourMac xid ciaddr).flatten := memWrites_blocks ..

/-- **The builders.** -/
theorem dhcpBuild_eq : dhcpBuild ourMac msg x0 buf
    = (memWrite buf x0 (dhcpBytes ourMac msg), (dhcpBytes ourMac msg).length) := by
  have hheader : ∀ {xid ciaddr}, x0 + 240
      = x0 + (dhcpHeaderFields ourMac xid ciaddr).flatten.length := by
    intro xid ciaddr
    rw [dhcpHeaderFields_length]
  cases msg with
  | discover xid =>
      simp only [dhcpBuild, dhcpBuildDiscover, dhcpAppendMsgType, dhcpAppendParamRequest,
        dhcpAppendEnd, dhcpZeroHeader_eq, putBytes_behind hheader, putBytes_behind rfl,
        List.append_assoc, Nat.add_sub_cancel_left]
      rfl
  | requestSelecting xid serverId requestedIp =>
      simp only [dhcpBuild, dhcpBuildRequestSelecting, dhcpAppendMsgType, dhcpAppendIpOption,
        dhcpAppendParamRequest, dhcpAppendEnd, dhcpZeroHeader_eq, putBytes_behind hheader,
        putBytes_behind rfl, List.append_assoc, Nat.add_sub_cancel_left]
      rfl
  | requestRenewing xid ciaddr =>
      simp only [dhcpBuild, dhcpBuildRequestRenewing, dhcpAppendMsgType, dhcpAppendParamRequest,
        dhcpAppendEnd, dhcpZeroHeader_eq, putBytes_behind hheader, putBytes_behind rfl,
        List.append_assoc, Nat.add_sub_cancel_left]
      rfl

/-! ## Read back -/

theorem bytesAt_part {payload pre bs post : List Byte} {off n : Nat}
    (h : payload = pre ++ (bs ++ post)) (hoff : pre.length = off) (hn : bs.length = n) :
    bytesAt payload off n = bs := by
  subst h hoff hn
  rw [bytesAt, List.drop_left, List.take_left]

theorem hostWord_beBytes (w : W) : hostWord (beBytes w) = w := by
  have hlt := w.isLt
  refine BitVec.eq_of_toNat_eq ?_
  simp only [hostWord, beBytes, List.map_cons, List.map_nil, List.reverse_cons, List.reverse_nil,
    List.nil_append, List.cons_append, leNat, UInt8.toNat_ofNat', Nat.shiftRight_eq_div_pow,
    BitVec.toNat_ofNat]
  omega

theorem wireWord_wordBytes (w : W) : wireWord (wordBytes w) = w := by
  refine BitVec.eq_of_toNat_eq ?_
  have hlt : w.toNat < 256 ^ 4 := w.isLt
  rw [wireWord, wordBytes_le, leNat_leBytes, Nat.mod_eq_of_lt hlt, BitVec.toNat_ofNat]
  exact Nat.mod_eq_of_lt hlt

theorem macOf_macBytes (mac : BitVec 48) : BitVec.ofNat 48 (leNat (macBytes mac)) = mac := by
  refine BitVec.eq_of_toNat_eq ?_
  have hlt : mac.toNat < 256 ^ 6 := mac.isLt
  rw [macBytes_le, leNat_leBytes, Nat.mod_eq_of_lt hlt, BitVec.toNat_ofNat]
  exact Nat.mod_eq_of_lt hlt

/-- The fields of the header that are read. -/
structure DhcpFields (ourMac : BitVec 48) (msg : DhcpMsg) (payload : List Byte) : Prop where
  kind : bytesAt payload 0 3 = [1, 1, 6]
  xid : bytesAt payload 4 4 = beBytes msg.xid
  ciaddr : bytesAt payload 12 4 = wordBytes msg.ciaddr
  chaddr : bytesAt payload 28 6 = macBytes ourMac
  magic : bytesAt payload 236 4 = dhcpMagic
  options : payload.drop 240 = dhcpOptions.encode msg.items ++ [255]

theorem dhcpBytes_fields : DhcpFields ourMac msg (dhcpBytes ourMac msg) where
  kind := @bytesAt_part _ [] [1, 1, 6] _ 0 3 rfl rfl rfl
  xid := @bytesAt_part _ [1, 1, 6, 0] (beBytes msg.xid) _ 4 4 rfl rfl rfl
  ciaddr := @bytesAt_part _ ([1, 1, 6, 0] ++ beBytes msg.xid ++ [0, 0, 0x80, 0])
    (wordBytes msg.ciaddr) _ 12 4 rfl rfl rfl
  chaddr := @bytesAt_part _ ([1, 1, 6, 0] ++ beBytes msg.xid ++ [0, 0, 0x80, 0] ++
    wordBytes msg.ciaddr ++ List.replicate 12 0) (macBytes ourMac) _ 28 6 rfl rfl rfl
  magic := by
    have hall : (dhcpHeaderFields ourMac msg.xid msg.ciaddr).flatten
        = (dhcpHeaderFields ourMac msg.xid msg.ciaddr).dropLast.flatten ++ dhcpMagic := by
      have hlast : [dhcpMagic].flatten = dhcpMagic := rfl
      rw [← hlast, ← List.flatten_append]
      rfl
    have hlen := @dhcpHeaderFields_length ourMac msg.xid msg.ciaddr
    rw [hall, List.length_append] at hlen
    have hbytes : dhcpBytes ourMac msg
        = (dhcpHeaderFields ourMac msg.xid msg.ciaddr).dropLast.flatten ++
          (dhcpMagic ++ (dhcpOptions.encode msg.items ++ [255])) := by
      rw [dhcpBytes, hall, List.append_assoc]
    exact bytesAt_part hbytes (Nat.add_right_cancel (m := 4) hlen) rfl
  options := List.drop_left' dhcpHeaderFields_length

theorem dhcpItems_bytes : dhcpItems (dhcpBytes ourMac msg) = msg.items ∧
    dhcpOptions.wellFormed ((dhcpBytes ourMac msg).drop 240) = true := by
  rw [dhcpItems, dhcpBytes_fields.options]
  have hip : ∀ {code : Byte} {ip : W}, code ≠ 255 → code ≠ 0 →
      dhcpOptions.Encodable (code, wordBytes ip) :=
    fun h₁ h₂ => ⟨h₁, h₂, (by decide : 4 + 0 < 256)⟩
  refine TlvFormat.items_encode (fun it hit => ?_) []
  cases msg with
  | discover _ | requestRenewing _ _ =>
      simp only [DhcpMsg.items, List.mem_cons, List.not_mem_nil, or_false] at hit
      rcases hit with rfl | rfl <;> exact ⟨by decide, by decide, by decide⟩
  | requestSelecting _ _ _ =>
      simp only [DhcpMsg.items, List.mem_cons, List.not_mem_nil, or_false] at hit
      rcases hit with rfl | rfl | rfl | rfl
      · exact ⟨by decide, by decide, by decide⟩
      · exact hip (by decide) (by decide)
      · exact hip (by decide) (by decide)
      · exact ⟨by decide, by decide, by decide⟩

/-- **A server reads the message that was meant.** -/
theorem dhcpRead_bytes : dhcpRead (dhcpBytes ourMac msg) = some (ourMac, msg) := by
  obtain ⟨hkind, hxid, hciaddr, hchaddr, hmagic, -⟩ := @dhcpBytes_fields ourMac msg
  obtain ⟨hitems, hwell⟩ := @dhcpItems_bytes ourMac msg
  rw [dhcpRead, if_pos ⟨hkind, hmagic, hwell⟩, hitems, hxid, hciaddr, hchaddr, hostWord_beBytes,
    macOf_macBytes, wireWord_wordBytes]
  cases msg with
  | discover _ => rfl
  | requestSelecting xid serverId requestedIp =>
      show some (ourMac, DhcpMsg.requestSelecting xid (wireWord (wordBytes serverId))
        (wireWord (wordBytes requestedIp))) = _
      rw [wireWord_wordBytes, wireWord_wordBytes]
  | requestRenewing _ _ => rfl

/-- **No client takes it for a reply.** -/
theorem dhcpBytes_noReply {xid : W} {mac : Vector Byte 6} {ty : Byte} :
    ¬ DhcpValid xid mac (dhcpBytes ourMac msg) ty := by
  intro h
  have hop : bytesAt (dhcpBytes ourMac msg) 0 1 = [1] :=
    @bytesAt_part _ [] [1] _ 0 1 rfl rfl rfl
  have htwo := h.forUs.op
  rw [hop] at htwo
  cases htwo

/-! ## On the wire -/

theorem dhcpBytes_length : (dhcpBytes ourMac msg).length
    = 240 + (dhcpOptions.encode msg.items).length + 1 := by
  rw [dhcpBytes, List.length_append, List.length_append, dhcpHeaderFields_length, ← Nat.add_assoc]
  rfl

theorem dhcpBytes_fits : (dhcpBytes ourMac msg).length ≤ 261 := by
  have hopts : (dhcpOptions.encode msg.items).length ≤ 20 := by
    cases msg with
    | discover _ | requestRenewing _ _ => exact (by decide : 8 ≤ 20)
    | requestSelecting _ _ _ => exact Nat.le_refl 20
  rw [dhcpBytes_length]
  omega

theorem dhcpFrame_payload : udpPayload (dhcpFrame ourMac msg buf) = dhcpBytes ourMac msg := by
  have hself := slice_memWrite_self buf 42 (dhcpBytes ourMac msg)
  unfold udpPayload dhcpFrame dhcpWrapBroadcast
  rw [dhcpBuild_eq]
  dsimp only
  rw [Nat.add_sub_cancel, wrapUdp_behind (Nat.le_refl _)]
  exact hself

theorem dhcpFrame_len : (dhcpFrame ourMac msg buf).2 = (dhcpBytes ourMac msg).length + 42 := by
  unfold dhcpFrame
  rw [dhcpBuild_eq]

end

end Wire

end WsPi5

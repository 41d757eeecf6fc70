/-
# `WsPi5.Mdns.Frames` — the frames of `lib/mdns.S`

A payload is wrapped as a UDP datagram from us to the group, from and to port 5353.  Whether a
payload that has come in is looked at, and for what, depends on where the responder is:

    idle                    dropped
    probing                 searched for another owner of our name
    announcing, live        answered, if it asks for our name

So what a host that announces or is live hears of another owner it does not act on.

**Proved here.**  Such a frame reaches `mdns_dispatch` of every host that takes its sender's
address, with the payload as it was (`mdnsFrame_received`).
-/
import WsPi5.Net.Senders

namespace WsPi5

open Lib

namespace Wire

/-! ## The code -/

/-- The frame around a payload and the length `n` that its builder returned. -/
def mdnsFrame (v : NetVars) (payload : List Byte) (n : Nat) (buf : Buf) : Buf × Nat :=
  (memWrite (mdnsWrapMulticastFrame v n buf) 42 payload, n + 42)

/-- A builder of a frame: the payload in place, then the headers around it; nothing without a
name. -/
def mdnsBuildFrame (v : NetVars) (built : List Byte × Nat) (buf : Buf) : Option (Buf × Nat) :=
  if built.2 = 0 then none
  else some (mdnsWrapMulticastFrame v built.2 (memWrite buf 42 built.1), built.2 + 42)

def mdnsBuildProbeFrame (v : NetVars) (hostname : List Byte) (buf : Buf) : Option (Buf × Nat) :=
  mdnsBuildFrame v (mdnsBuildProbePayload hostname) buf

def mdnsBuildAnnounceFrame (v : NetVars) (hostname : List Byte) (buf : Buf) : Option (Buf × Nat) :=
  mdnsBuildFrame v (mdnsBuildAnnouncePayload hostname v.ourIp) buf

/-- What `mdns_dispatch` does; `conflict` is the call of `mdns_panic_fn`. -/
inductive MdnsResult where
  | dropped
  | conflict
  | respond (sent : Buf × Nat)

/-- The payload of a UDP datagram. -/
def udpPayload (f : Buf × Nat) : List Byte := slice f.1 42 (f.2 - 42)

def mdnsDispatch (v : NetVars) (hostname : List Byte) (m : Mdns) (f : Buf × Nat) :
    Option MdnsResult :=
  if f.2 < 42 then some .dropped
  else
    let mem := region 42 (udpPayload f)
    match m.state with
    | .idle => some .dropped
    | .probe1 | .probe2 | .probe3 =>
        (mdnsCheckConflict mem hostname m.priorAnnouncedIp 42 (f.2 - 42)).map fun found =>
          if found then .conflict else .dropped
    | .announce1 | .announce2 | .live =>
        (mdnsBuildResponse mem hostname v.ourIp 42 (f.2 - 42)).map fun built =>
          if built.2 = 0 then .dropped else .respond (mdnsFrame v built.1 built.2 f.1)

theorem mdnsDispatch_respond {v : NetVars} {hostname : List Byte} {m : Mdns} {f g : Buf × Nat}
    (h : mdnsDispatch v hostname m f = some (.respond g)) :
    ∃ built, mdnsBuildResponse (region 42 (udpPayload f)) hostname v.ourIp 42 (f.2 - 42)
      = some built ∧ built.2 ≠ 0 ∧ g = mdnsFrame v built.1 built.2 f.1 := by
  have hprobing : ∀ {o : Option Bool}, (o.map fun found =>
      if found then MdnsResult.conflict else .dropped) ≠ some (.respond g) := by
    intro o ho
    obtain ⟨found, -, hfound⟩ := Option.map_eq_some_iff.mp ho
    split at hfound <;> cases hfound
  have hlive : ∀ {o : Option (List Byte × Nat)}, (o.map fun built =>
      if built.2 = 0 then MdnsResult.dropped
      else .respond (mdnsFrame v built.1 built.2 f.1)) = some (.respond g) →
      ∃ built, o = some built ∧ built.2 ≠ 0 ∧ g = mdnsFrame v built.1 built.2 f.1 := by
    intro o ho
    obtain ⟨built, hbuilt, hsent⟩ := Option.map_eq_some_iff.mp ho
    split at hsent
    · cases hsent
    · rename_i hne
      cases hsent
      exact ⟨built, hbuilt, hne, rfl⟩
  unfold mdnsDispatch at h
  split at h
  · cases h
  · dsimp only at h
    split at h
    · cases h
    · exact absurd h hprobing
    · exact absurd h hprobing
    · exact absurd h hprobing
    · exact hlive h
    · exact hlive h
    · exact hlive h

/-! ## The frames at a receiver -/

section
variable {v : NetVars} {payload : List Byte} {n : Nat} {buf : Buf}

/-- What a frame of the responder is. -/
structure IsMdnsFrame (src : W) (payload : List Byte) (f : Buf × Nat) : Prop where
  frame : IpFrame mdnsMac 17 src mdnsIp (payload.length + 8) f
  target : udpTarget f.1 f.2 = some .mdns
  payload : udpPayload f = payload

theorem wrapUdp_fields {dstMac srcMac : BitVec 48} {ttl : Byte} {src dst : W} {sport dport : Nat} :
    slice (wrapUdp dstMac srcMac ttl src dst sport dport n buf) 34 2 = beHalf sport ∧
    slice (wrapUdp dstMac srcMac ttl src dst sport dport n buf) 36 2 = beHalf dport ∧
    slice (wrapUdp dstMac srcMac ttl src dst sport dport n buf) 38 2 = beHalf (n + 8) ∧
    slice (wrapUdp dstMac srcMac ttl src dst sport dport n buf) 40 2 = [0, 0] := by
  unfold wrapUdp
  exact ⟨slice_stored rfl, slice_stored rfl, slice_stored rfl, slice_stored rfl⟩

theorem wrapUdp_behind {dstMac srcMac : BitVec 48} {ttl : Byte} {src dst : W} {sport dport k m : Nat}
    (hk : 42 ≤ k) : slice (wrapUdp dstMac srcMac ttl src dst sport dport n buf) k m
      = slice buf k m := by
  unfold wrapUdp
  rw [slice_memWrites_outside, putIpChecksum_keeps (.inr (by omega)), slice_memWrites_outside]
  · intro w hw
    simp only [List.mem_cons, List.not_mem_nil, or_false] at hw
    rcases hw with rfl | rfl | rfl | rfl | rfl | rfl | rfl | rfl | rfl | rfl
    all_goals
      refine .inr ?_
      simp only [macBytes_length, wordBytes_length, halfBytes_length, beHalf, List.length_cons,
        List.length_nil]
      omega
  · intro w hw
    simp only [List.mem_cons, List.not_mem_nil, or_false] at hw
    rcases hw with rfl | rfl | rfl | rfl
    all_goals
      refine .inr ?_
      simp only [halfBytes_length, beHalf, List.length_cons, List.length_nil]
      omega

theorem udpAccepts_unsummed {len : Nat} (hlen : slice buf 38 2 = beHalf (len - 34))
    (hsum : slice buf 40 2 = [0, 0]) (hlong : 42 ≤ len) (hfits : len ≤ 1514) :
    udpAccepts buf len = true := by
  have hhalf : halfAt buf 40 = 0 := by
    have h₀ : buf 40 = 0 := (List.cons.inj hsum).1
    have h₁ : buf (40 + 1) = 0 := (List.cons.inj (List.cons.inj hsum).2).1
    rw [halfAt, h₀, h₁]
    rfl
  rw [udpAccepts, beHalf_read hlen (by omega), hhalf]
  simp only [decide_true, Bool.true_or, Bool.and_true, decide_eq_true_eq]
  omega

theorem udpTarget_unsummed {len port : Nat} (hlen : slice buf 38 2 = beHalf (len - 34))
    (hport : slice buf 36 2 = beHalf port) (hsum : slice buf 40 2 = [0, 0]) (hlong : 42 ≤ len)
    (hfits : len ≤ 1514) (hlt : port < 65536) :
    udpTarget buf len = some (portTarget port) := by
  rw [udpTarget_eq, if_pos (udpAccepts_unsummed hlen hsum hlong hfits), beHalf_read hport hlt]

theorem mdnsFrame_isMdns (hlen : payload.length = n) (hn : n ≤ 1472) :
    IsMdnsFrame v.ourIp payload (mdnsFrame v payload n buf) := by
  obtain ⟨-, hdport, hulen, hsum⟩ :=
    @wrapUdp_fields n buf mdnsMac v.ourMac 255 v.ourIp mdnsIp 5353 5353
  have hkeep : ∀ {a m}, a + m ≤ 42 → slice (mdnsFrame v payload n buf).1 a m
      = slice (mdnsWrapMulticastFrame v n buf) a m :=
    fun h => slice_memWrite_outside (.inl h)
  refine ⟨?_, ?_, ?_⟩
  · have hwrapped : IpFrame mdnsMac 17 v.ourIp mdnsIp (payload.length + 8)
        (mdnsWrapMulticastFrame v n buf, n + 42) := by
      rw [hlen]
      exact wrapUdp_frame (by decide) hn
    refine hwrapped.congr (fun k hk => ?_) rfl
    exact (memWrite_of_lt payload (by omega)).symm
  · refine (udpTarget_unsummed ?_ ((hkeep (by decide)).trans hdport)
      ((hkeep (by decide)).trans hsum) ?_ ?_ (by decide)).trans rfl
    · exact (hkeep (by decide)).trans hulen
    · show 42 ≤ n + 42
      omega
    · show n + 42 ≤ 1514
      omega
  · have hself := slice_memWrite_self (mdnsWrapMulticastFrame v n buf) 42 payload
    rw [hlen] at hself
    exact hself

theorem mdnsBuildFrame_isMdns {built : List Byte × Nat} {f : Buf × Nat}
    (h : mdnsBuildFrame v built buf = some f) (hlen : built.1.length = built.2)
    (hn : built.2 ≤ 1472) : IsMdnsFrame v.ourIp built.1 f := by
  obtain ⟨-, hdport, hulen, hsum⟩ := @wrapUdp_fields built.2 (memWrite buf 42 built.1) mdnsMac
    v.ourMac 255 v.ourIp mdnsIp 5353 5353
  unfold mdnsBuildFrame at h
  split at h
  · cases h
  · cases h
    refine ⟨?_, ?_, ?_⟩
    · rw [hlen]
      exact wrapUdp_frame (by decide) hn
    · refine (udpTarget_unsummed hulen hdport hsum ?_ ?_ (by decide)).trans rfl
      · dsimp only
        omega
      · dsimp only
        omega
    · have hself := slice_memWrite_self buf 42 built.1
      rw [hlen] at hself
      exact (wrapUdp_behind (by decide)).trans hself

theorem udpReceive_mdns {hw : Bool} {len : Nat} (h : udpTarget buf len = some .mdns) :
    udpReceive hw buf len = .mdns (buf, len) := by
  unfold udpReceive
  rw [h]

/-- **Such a frame reaches `mdns_dispatch`** of a host that takes the sender's address. -/
theorem IsMdnsFrame.received {κ : Type} {src : W} {f : Buf × Nat} (h : IsMdnsFrame src payload f)
    (env : ReasmEnv κ) (now : Tick) (w : NetVars) (r : Reasm κ) :
    netRecvOne env now w f.1 f.2 r =
      (w, r, if ipSrcOk w.ourIp src = true then .mdns f else .dropped) := by
  have hiff : w.Accepts mdnsMac src mdnsIp ↔ ipSrcOk w.ourIp src = true := by
    have hgroup : ipDstOk w.ourIp mdnsIp = true := by
      unfold ipDstOk
      simp
    exact ⟨fun hok => hok.2.1, fun hok => ⟨.inr (.inr rfl), hok, hgroup⟩⟩
  have htotal : readHalf f.1 16 + 14 = f.2 := by
    rw [h.frame.totlen, h.frame.len]
  have hdispatch : ipDispatch w f.1 f.2 = .mdns f :=
    (ipDispatch_udp h.frame.proto htotal).trans (udpReceive_mdns h.target)
  rw [h.frame.received, hdispatch]
  by_cases hok : ipSrcOk w.ourIp src = true
  · rw [if_pos (hiff.mpr hok), if_pos hok]
  · rw [if_neg fun ha => hok (hiff.mp ha), if_neg hok]

end

end Wire

end WsPi5

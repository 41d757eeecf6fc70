/-
# `WsPi5.Tcp.Delivery` — what the peer reads

The peer reads position by position: whatever frame of the connection reaches it, it takes from it
what the frame carries at the position it waits for, and nothing if it carries nothing there.
Frames may be lost, come twice, come late and in any order; a frame that a receiver keeps for later
is one that comes again.

    on the wire       SYN-ACK, data, data sent again, FIN, probes
    carried at        ISN, what was accepted there first, the FIN behind it

**Proved here** (`peer_reads_stream`).  What the peer has read are the first bytes that `tcp_send`
accepted on the connection, and when it has read the FIN, it has read all of them.

**What it rests on.**  Retransmissions are faithful (`WsPi5.Tcp.Retransmit`, with its conditions),
and `SND_NXT` counts what was accepted (`Counts`).  Positions are modulo 2^32, so the connection is
one that sends less than that.
-/
import WsPi5.Tcp.Flow
import WsPi5.Tcp.Retransmit

namespace WsPi5

open Lib

/-! ## The connection now in a slot, as its log has it -/

/-- The position of our SYN. -/
def isnOf (i : Slot) : List Obs → W
  | [] => 0
  | .opened j _ sa :: log => if j = i then sa.seq else isnOf i log
  | .accepted _ _ :: log | .finSent _ _ :: log | .resent _ _ :: log | .probed _ _ :: log
  | .consumed _ _ :: log => isnOf i log

/-- What `tcp_send` accepted, in order. -/
def acceptedOn (i : Slot) : List Obs → List Byte
  | [] => []
  | .opened j _ _ :: log => if j = i then [] else acceptedOn i log
  | .accepted j f :: log => if j = i then acceptedOn i log ++ f.payload else acceptedOn i log
  | .finSent _ _ :: log | .resent _ _ :: log | .probed _ _ :: log | .consumed _ _ :: log =>
      acceptedOn i log

/-- Our FIN was sent. -/
def finishedOn (i : Slot) : List Obs → Bool
  | [] => false
  | .opened j _ _ :: log => if j = i then false else finishedOn i log
  | .finSent j _ :: log => if j = i then true else finishedOn i log
  | .accepted _ _ :: log | .resent _ _ :: log | .probed _ _ :: log | .consumed _ _ :: log =>
      finishedOn i log

def framesOf (i : Slot) : List Obs → List Frame
  | [] => []
  | .opened j _ sa :: log => if j = i then [sa] else framesOf i log
  | .accepted j f :: log | .finSent j f :: log | .resent j f :: log | .probed j f :: log =>
      if j = i then f :: framesOf i log else framesOf i log
  | .consumed _ _ :: log => framesOf i log

def nextOn (i : Slot) (log : List Obs) : W :=
  isnOf i log + 1 + BitVec.ofNat 32 (acceptedOn i log).length

def Sent.At (i : Slot) (log : List Obs) (p : W) : Sent → Prop
  | .syn _ => p = isnOf i log
  | .data b => ∃ k, (acceptedOn i log)[k]? = some b ∧ p = isnOf i log + 1 + BitVec.ofNat 32 k
  | .fin _ => finishedOn i log = true ∧ p = nextOn i log

/-! ## The peer -/

/-- Where it waits, what it has read, and whether it has read our FIN. -/
structure Peer where
  next : W
  got : List Byte := []
  ended : Bool := false

/-- The peer as it has our SYN. -/
def Peer.opened (isn : W) : Peer := { next := isn + 1 }

def Peer.take (q : Peer) (f : Frame) : Peer :=
  if q.ended then q
  else match carried f q.next with
    | some (.data b) => { q with next := q.next + 1, got := q.got ++ [b] }
    | some (.fin _) => { q with next := q.next + 1, ended := true }
    | some (.syn _) | none => q

/-! ## The log of a slot is in order -/

/-- Every observation about slot `i` is where it belongs. -/
def Numbered (i : Slot) : List Obs → Prop
  | [] => True
  | .opened j _ sa :: log => (j = i → sa.payload = [] ∧ sa.flags = tcpSynAck) ∧ Numbered i log
  | .accepted j f :: log => (j = i → f.seq = nextOn i log ∧ f.flags = tcpPshAck ∧
      finishedOn i log = false) ∧ Numbered i log
  | .finSent j f :: log => (j = i → f.seq = nextOn i log ∧ f.flags = tcpFinAck ∧
      f.payload = []) ∧ Numbered i log
  | .probed j f :: log => (j = i → f.flags = tcpAckFlag ∧ f.payload = []) ∧ Numbered i log
  | .resent _ _ :: log | .consumed _ _ :: log => Numbered i log

section
variable {i : Slot} {p : W} {s : Sent} {o : Obs} {log : List Obs} {f : Frame}

theorem numbered_other (h : o.slot ≠ i) :
    (Numbered i (o :: log) ↔ Numbered i log) ∧ isnOf i (o :: log) = isnOf i log ∧
    acceptedOn i (o :: log) = acceptedOn i log ∧ finishedOn i (o :: log) = finishedOn i log ∧
    framesOf i (o :: log) = framesOf i log := by
  cases o <;> simp_all [Numbered, isnOf, acceptedOn, finishedOn, framesOf, Obs.slot]

theorem Sent.At.cons (h : s.At i log p) (hn : Numbered i (o :: log))
    (ho : ∀ f sa, o ≠ .opened i f sa) : s.At i (o :: log) p := by
  by_cases hslot : o.slot = i
  · cases o with
    | opened j f sa =>
        obtain rfl : j = i := hslot
        exact absurd rfl (ho f sa)
    | resent | probed | consumed => cases s <;> exact h
    | finSent j f =>
        obtain rfl : j = i := hslot
        cases s with
        | syn | data => exact h
        | fin => exact ⟨if_pos rfl, h.2⟩
    | accepted j f =>
        obtain rfl : j = i := hslot
        obtain ⟨-, -, hopen⟩ := hn.1 rfl
        have hgrow : acceptedOn j (.accepted j f :: log) = acceptedOn j log ++ f.payload :=
          if_pos rfl
        cases s with
        | syn => exact h
        | data b =>
            obtain ⟨k, hk, hp⟩ := h
            refine ⟨k, ?_, hp⟩
            rw [hgrow, List.getElem?_append_left (List.getElem?_eq_some_iff.mp hk).1]
            exact hk
        | fin => exact absurd (hopen.symm.trans h.1) Bool.false_ne_true
  · obtain ⟨-, hisn, hacc, hfin, -⟩ := @numbered_other i o log hslot
    cases s with
    | syn =>
        show p = isnOf i (o :: log)
        rw [hisn]
        exact h
    | data b =>
        obtain ⟨k, hk, hp⟩ := h
        exact ⟨k, hacc ▸ hk, hisn ▸ hp⟩
    | fin =>
        refine ⟨hfin ▸ h.1, ?_⟩
        rw [nextOn, hisn, hacc]
        exact h.2

/-- **What was sent first at a position belongs there.** -/
theorem firstSent_at : ∀ {log : List Obs}, Numbered i log → firstSent i p log = some s →
    s.At i log p
  | [], _, h => by cases h
  | .opened j syn sa :: log, hn, h => by
      unfold firstSent at h
      split at h
      · rename_i hj
        split at h
        · rename_i hp
          cases h
          show p = if j = i then sa.seq else _
          rw [if_pos hj]
          exact hp
        · cases h
      · rename_i hj
        exact (firstSent_at hn.2 h).cons hn fun _ _ he => hj (by cases he; rfl)
  | .accepted j f :: log, hn, h => by
      unfold firstSent at h
      split at h
      · rename_i hcov
        obtain ⟨rfl, hk⟩ := hcov
        obtain ⟨hseq, -, -⟩ := hn.1 rfl
        obtain ⟨b, hb, rfl⟩ := Option.map_eq_some_iff.mp h
        refine ⟨(acceptedOn j log).length + (p - f.seq).toNat, ?_, ?_⟩
        · show (if j = j then acceptedOn j log ++ f.payload else _)[_]? = _
          rw [if_pos rfl, List.getElem?_append_right (Nat.le_add_right ..), Nat.add_sub_cancel_left]
          exact hb
        · show p = isnOf j log + 1 + _
          rw [hseq, nextOn]
          bv_omega
      · exact (firstSent_at hn.2 h).cons hn (by rintro _ _ ⟨⟩)
  | .finSent j f :: log, hn, h => by
      unfold firstSent at h
      split at h
      · rename_i hcov
        obtain ⟨rfl, rfl⟩ := hcov
        cases h
        exact ⟨if_pos rfl, (hn.1 rfl).1⟩
      · exact (firstSent_at hn.2 h).cons hn (by rintro _ _ ⟨⟩)
  | .probed j f :: log, hn, h =>
      (firstSent_at hn.2 h).cons (o := .probed j f) hn (by rintro _ _ ⟨⟩)
  | .resent j f :: log, hn, h =>
      (firstSent_at (show Numbered i log from hn) h).cons (o := .resent j f) hn
        (by rintro _ _ ⟨⟩)
  | .consumed j bs :: log, hn, h =>
      (firstSent_at (show Numbered i log from hn) h).cons (o := .consumed j bs) hn
        (by rintro _ _ ⟨⟩)

/-! ## What the frames carry -/

theorem carried_synAck (hflags : f.flags = tcpSynAck) (hpay : f.payload = []) :
    carried f p = if p = f.seq then some (.syn f) else none := by
  have hzero : (p - f.seq).toNat = 0 ↔ p = f.seq := by bv_omega
  simp [carried, Frame.has, hflags, hpay, tcpSynAck, tcpSyn, tcpFin, hzero,
    -BitVec.toNat_sub]

theorem carried_pshAck (hflags : f.flags = tcpPshAck) :
    carried f p = if (p - f.seq).toNat < f.payload.length
      then f.payload[(p - f.seq).toNat]?.map .data else none := by
  simp [carried, Frame.has, hflags, tcpPshAck, tcpSyn, tcpFin]

theorem carried_finAck (hflags : f.flags = tcpFinAck) (hpay : f.payload = []) :
    carried f p = if p = f.seq then some (.fin f) else none := by
  have hzero : (p - f.seq).toNat = 0 ↔ p = f.seq := by bv_omega
  simp [carried, Frame.has, hflags, hpay, tcpFinAck, tcpSyn, tcpFin, hzero,
    -BitVec.toNat_sub]

theorem carried_probe (hflags : f.flags = tcpAckFlag) (hpay : f.payload = []) :
    carried f p = none := by
  simp [carried, Frame.has, hflags, hpay, tcpAckFlag, tcpSyn, tcpFin]

def Obs.sent : Obs → Option Frame
  | .opened _ _ f | .accepted _ f | .finSent _ f | .resent _ f | .probed _ f => some f
  | .consumed _ _ => none

theorem mem_framesOf_cons (h : f ∈ framesOf i (o :: log)) :
    o.slot = i ∧ o.sent = some f ∨
      f ∈ framesOf i log ∧ ∀ syn sa, o ≠ .opened i syn sa := by
  by_cases hslot : o.slot = i
  · subst hslot
    cases o with
    | opened j syn sa =>
        have hone : framesOf j (.opened j syn sa :: log) = [sa] := if_pos rfl
        rw [show (Obs.opened j syn sa).slot = j from rfl, hone] at h
        exact .inl ⟨rfl, congrArg some (List.mem_singleton.mp h).symm⟩
    | accepted j g | finSent j g | resent j g | probed j g =>
        have hcons : f ∈ g :: framesOf j log := by
          simpa only [framesOf, Obs.slot, if_true] using h
        obtain rfl | hold := List.mem_cons.mp hcons
        · exact .inl ⟨rfl, rfl⟩
        · exact .inr ⟨hold, by rintro _ _ ⟨⟩⟩
    | consumed j bs => exact .inr ⟨h, by rintro _ _ ⟨⟩⟩
  · rw [(numbered_other hslot).2.2.2.2] at h
    exact .inr ⟨h, fun _ _ he => hslot (by rw [he]; rfl)⟩

theorem sent_at (hn : Numbered i (o :: log)) (hall : AllFaithful i (o :: log)) (hslot : o.slot = i)
    (hf : o.sent = some f) (hs : carried f p = some s) : s.At i (o :: log) p := by
  cases o with
  | opened j syn sa =>
      obtain rfl : j = i := hslot
      cases hf
      obtain ⟨hpay, hflags⟩ := hn.1 rfl
      rw [carried_synAck hflags hpay] at hs
      split at hs
      · rename_i hp
        cases hs
        have hisn : isnOf j (.opened j syn f :: log) = f.seq := if_pos rfl
        exact hp.trans hisn.symm
      · cases hs
  | accepted j g =>
      obtain rfl : j = i := hslot
      cases hf
      obtain ⟨-, hflags, -⟩ := hn.1 rfl
      rw [carried_pshAck hflags] at hs
      split at hs
      · rename_i hk
        have hfirst : firstSent j p (.accepted j f :: log)
            = f.payload[(p - f.seq).toNat]?.map .data := if_pos ⟨rfl, hk⟩
        exact firstSent_at hn (hfirst.trans hs)
      · cases hs
  | finSent j g =>
      obtain rfl : j = i := hslot
      cases hf
      obtain ⟨hseq, hflags, hpay⟩ := hn.1 rfl
      rw [carried_finAck hflags hpay] at hs
      split at hs
      · rename_i hp
        cases hs
        exact ⟨if_pos rfl, hp.trans hseq⟩
      · cases hs
  | probed j g =>
      obtain rfl : j = i := hslot
      cases hf
      obtain ⟨hflags, hpay⟩ := hn.1 rfl
      rw [carried_probe hflags hpay] at hs
      cases hs
  | resent j g =>
      obtain rfl : j = i := hslot
      cases hf
      have hfirst : firstSent j p log = some s := hall.1 rfl p s hs
      exact (firstSent_at (show Numbered j log from hn) hfirst).cons hn nofun
  | consumed j bs => cases hf

theorem Numbered.tail (h : Numbered i (o :: log)) : Numbered i log := by
  cases o with
  | opened | accepted | finSent | probed => exact h.2
  | resent | consumed => exact h

theorem AllFaithful.tail (h : AllFaithful i (o :: log)) : AllFaithful i log := by
  cases o with
  | resent => exact h.2
  | opened | accepted | finSent | probed | consumed => exact h

/-- **What a frame of the connection carries is where it belongs.** -/
theorem framesOf_at (hn : Numbered i log) (hall : AllFaithful i log) (hf : f ∈ framesOf i log)
    (hs : carried f p = some s) : s.At i log p := by
  induction log with
  | nil => cases hf
  | cons o log ih =>
      obtain ⟨hslot, hsent⟩ | ⟨hold, hnot⟩ := mem_framesOf_cons hf
      · exact sent_at hn hall hslot hsent hs
      · exact (ih hn.tail hall.tail hold).cons hn hnot

/-! ## What the peer has read -/

/-- The peer waits behind what it has read, which is the front of what was accepted; all of it, if it
has read the FIN. -/
structure Peer.Reads (i : Slot) (log : List Obs) (q : Peer) : Prop where
  next : q.ended = false → q.next = isnOf i log + 1 + BitVec.ofNat 32 q.got.length
  front : q.got <+: acceptedOn i log
  all : q.ended = true → q.got = acceptedOn i log

/-- **One frame.** -/
theorem Peer.Reads.take {q : Peer} (h : q.Reads i log) (hshort : (acceptedOn i log).length < 2 ^ 32)
    (hat : ∀ p s, carried f p = some s → s.At i log p) : (q.take f).Reads i log := by
  have hlen := h.front.length_le
  unfold Peer.take
  split
  · exact h
  · rename_i hopen
    have hnext := h.next (Bool.eq_false_iff.mpr hopen)
    split
    · rename_i b hb
      obtain ⟨k, hk, hp⟩ := hat _ _ hb
      have hklt := (List.getElem?_eq_some_iff.mp hk).1
      have hpos : q.got.length = k := by
        rw [hnext] at hp
        bv_omega
      subst hpos
      have hfront : q.got ++ [b] <+: acceptedOn i log := by
        obtain ⟨rest, hrest⟩ := h.front
        rw [← hrest, List.getElem?_append_right (Nat.le_refl _), Nat.sub_self] at hk
        obtain ⟨rest', rfl⟩ : ∃ rest', rest = b :: rest' := by
          cases rest with
          | nil => cases hk
          | cons c rest' =>
              cases hk
              exact ⟨rest', rfl⟩
        exact ⟨rest', by rw [← hrest, List.append_assoc]; rfl⟩
      refine ⟨fun _ => ?_, hfront, fun he => absurd he hopen⟩
      show q.next + 1 = _
      rw [hnext, List.length_append, List.length_singleton]
      bv_omega
    · rename_i g hg
      obtain ⟨-, hp⟩ := hat _ _ hg
      refine ⟨fun he => (nomatch he), h.front, fun _ => h.front.eq_of_length ?_⟩
      rw [hnext, nextOn] at hp
      bv_omega
    · exact h
    · exact h

/-- **Any frames of the connection, in any order.** -/
theorem Peer.Reads.takes {fs : List Frame} {q : Peer} (h : q.Reads i log)
    (hshort : (acceptedOn i log).length < 2 ^ 32)
    (hat : ∀ f ∈ fs, ∀ p s, carried f p = some s → s.At i log p) :
    (fs.foldl Peer.take q).Reads i log := by
  induction fs generalizing q with
  | nil => exact h
  | cons f fs ih =>
      exact ih (h.take hshort (hat f (List.mem_cons_self ..)))
        fun g hg => hat g (List.mem_cons_of_mem _ hg)

theorem Peer.opened_reads : (Peer.opened (isnOf i log)).Reads i log where
  next := fun _ => by
    show isnOf i log + 1 = isnOf i log + 1 + BitVec.ofNat 32 0
    bv_omega
  front := List.nil_prefix
  all := fun h => nomatch h

end

/-! ## The invariant -/

/-- `SND_NXT` is behind what was accepted, until our FIN is sent. -/
structure Counts (i : Slot) (c : Conn) (log : List Obs) : Prop where
  numbered : Numbered i log
  next : c.state.sndPhase = .syn ∨ c.state.sndPhase = .data →
    c.sndNxt = nextOn i log ∧ finishedOn i log = false
  fresh : c.state.sndPhase = .syn → acceptedOn i log = []

theorem counts_ownLog (i : Slot) : OwnLog i (Counts i) := by
  intro c o log ho
  obtain ⟨hnum, hisn, hacc, hfin, -⟩ := @numbered_other i o log ho
  have hnext : nextOn i (o :: log) = nextOn i log := by rw [nextOn, hisn, hacc, nextOn]
  constructor
  · exact fun h => ⟨hnum.mp h.numbered, hnext ▸ hfin ▸ h.next, hacc ▸ h.fresh⟩
  · intro h
    refine ⟨hnum.mpr h.numbered, ?_, ?_⟩
    · rw [hnext, hfin]
      exact h.next
    · rw [hacc]
      exact h.fresh

/-- What a log may get that counts for nothing. -/
inductive Adds (log : List Obs) : List Obs → Prop where
  | nothing : Adds log log
  | resent (j : Slot) (f : Frame) : Adds log (.resent j f :: log)
  | consumed (j : Slot) (bs : List Byte) : Adds log (.consumed j bs :: log)
  | probed (j : Slot) {f : Frame} (hflags : f.flags = tcpAckFlag) (hpay : f.payload = []) :
      Adds log (.probed j f :: log)

section
variable {env : Env} {now : Tick} {i : Slot} {l l' : Local}

/-- An act that leaves `SND_NXT` alone and does not change the phase, or ends the connection. -/
theorem Counts.keep (h : Counts i l.conn l.log) (hnxt : l'.conn.sndNxt = l.conn.sndNxt)
    (hphase : l'.conn.state.sndPhase = .idle ∨ l'.conn.state.sndPhase = l.conn.state.sndPhase)
    (hlog : Adds l.log l'.log) : Counts i l'.conn l'.log := by
  have hsame : Numbered i l'.log ∧ nextOn i l'.log = nextOn i l.log ∧
      finishedOn i l'.log = finishedOn i l.log ∧ acceptedOn i l'.log = acceptedOn i l.log := by
    generalize l'.log = log' at hlog
    cases hlog with
    | nothing | resent | consumed => exact ⟨h.numbered, rfl, rfl, rfl⟩
    | probed j hflags hpay => exact ⟨⟨fun _ => ⟨hflags, hpay⟩, h.numbered⟩, rfl, rfl, rfl⟩
  obtain ⟨hnum, hnext, hfin, hacc⟩ := hsame
  refine ⟨hnum, ?_, ?_⟩
  · rw [hnxt, hnext, hfin]
    obtain hidle | hp := hphase
    · rw [hidle]
      rintro (hp | hp) <;> cases hp
    · rw [hp]
      exact h.next
  · rw [hacc]
    obtain hidle | hp := hphase
    · rw [hidle]
      intro hp
      cases hp
    · rw [hp]
      exact h.fresh

theorem tcpSend_counts {p : List Byte} (h : Counts i l.conn l.log) :
    Counts i (tcpSend env now i p l).1.conn (tcpSend env now i p l).1.log := by
  unfold tcpSend
  split
  · rename_i hacc
    have hest := (tcpSendAccepts_spec hacc).1
    have hdata : l.conn.state.sndPhase = .data := by rw [hest]; rfl
    obtain ⟨hnxt, hfin⟩ := h.next (.inr hdata)
    have hstate : (tcpSendAccept env now i p l).conn.state = .established :=
      (tcpRtxArm_state ..).trans hest
    have hnew : (tcpSendAccept env now i p l).conn.sndNxt
        = l.conn.sndNxt + BitVec.ofNat 32 p.length :=
      congrArg Flow.nxt (tcpSendAccept_flow env now i p l)
    rw [tcpSendAccept_log]
    refine ⟨⟨fun _ => ⟨hnxt, rfl, hfin⟩, h.numbered⟩, fun _ => ⟨?_, hfin⟩, ?_⟩
    · have hgrow : acceptedOn i (.accepted i (tcpSendFrame env now l.conn p) :: l.log)
          = acceptedOn i l.log ++ p := if_pos rfl
      rw [hnew, hnxt, nextOn, nextOn, hgrow, List.length_append]
      show isnOf i l.log + 1 + _ + _ = isnOf i l.log + 1 + _
      bv_omega
    · rw [hstate]
      exact fun hp => nomatch hp
  · exact h

theorem tcpClose_counts (h : Counts i l.conn l.log) :
    Counts i (tcpClose env now i l).1.conn (tcpClose env now i l).1.log := by
  have main : ∀ s : TcpState, s.sndPhase = .fin → l.conn.state.sndPhase = .data →
      Counts i (tcpRtxSave env now i (tcpBuildFrame env now l.conn l.conn.sndNxt tcpFinAck [])
        { l with
          conn := { l.conn with sndNxt := l.conn.sndNxt + 1, state := s }
          log := .finSent i (tcpBuildFrame env now l.conn l.conn.sndNxt tcpFinAck [])
            :: l.log }).conn
        (.finSent i (tcpBuildFrame env now l.conn l.conn.sndNxt tcpFinAck []) :: l.log) := by
    intro s hs hdata
    have hstate : ∀ m : Local, (tcpRtxSave env now i (tcpBuildFrame env now l.conn l.conn.sndNxt
        tcpFinAck []) m).conn.state = m.conn.state := fun m => tcpRtxArm_state ..
    refine ⟨⟨fun _ => ⟨(h.next (.inr hdata)).1, rfl, rfl⟩, h.numbered⟩, ?_, ?_⟩
    · rw [hstate, hs]
      rintro (hp | hp) <;> cases hp
    · rw [hstate, hs]
      intro hp
      cases hp
  unfold tcpClose
  cases hst : l.conn.state with
  | established => simpa using main .finWait1 rfl (by rw [hst]; rfl)
  | closeWait => simpa using main .lastAck rfl (by rw [hst]; rfl)
  | _ => exact h

theorem openSlot_counts {f : Frame} {lport : BitVec 16} (h : Numbered i l.log) :
    Counts i (openSlot env now f lport i l).conn (openSlot env now f lport i l).log := by
  have hnxt := congrArg Flow.nxt (openSlot_flow env now f lport i l)
  rw [openSlot_log]
  refine ⟨⟨fun _ => ⟨rfl, rfl⟩, h⟩, fun _ => ⟨?_, if_pos rfl⟩, fun _ => if_pos rfl⟩
  refine hnxt.trans ?_
  have hisn : isnOf i (.opened i f (synAckFrame env now f lport
      (tcpIsn env now lport f.sport f.ipDst f.ipSrc) l.conn) :: l.log)
      = tcpIsn env now lport f.sport f.ipDst f.ipSrc := if_pos rfl
  have hacc : acceptedOn i (.opened i f (synAckFrame env now f lport
      (tcpIsn env now lport f.sport f.ipDst f.ipSrc) l.conn) :: l.log) = [] := if_pos rfl
  rw [nextOn, hisn, hacc]
  show _ = tcpIsn env now lport f.sport f.ipDst f.ipSrc + 1 + BitVec.ofNat 32 0
  bv_omega

theorem tcpRetransmitCb_counts (h : Counts i l.conn l.log) :
    Counts i (tcpRetransmitCb env now i l).conn (tcpRetransmitCb env now i l).log := by
  unfold tcpRetransmitCb
  split
  · exact h
  split
  · exact h.keep rfl (.inl rfl) .nothing
  dsimp only
  split
  · split
    · exact h.keep rfl (.inr rfl) .nothing
    · refine h.keep ?_ (.inr ?_) ?_
      · exact congrArg Flow.nxt (tcpRtxArm_flow ..)
      · exact congrArg TcpState.sndPhase (tcpRtxArm_state ..)
      · rw [tcpRtxArm_log]
        exact .resent i _
  · exact h.keep rfl (.inr rfl) .nothing

theorem recv_counts {f : Frame} {evt : TcpEvt} {next : TcpState} {hd : Handler} {r : HRes}
    (h : Counts i l.conn l.log) (htab : tcpFsaTable l.conn.state evt = some (next, hd))
    (hcall : hd.call env now i f (l.withState next) = some (l', r)) :
    Counts i (settle now l.conn.state l' r).conn (settle now l.conn.state l' r).log := by
  obtain ⟨hsf, hsl⟩ := settle_flow now l.conn.state l' r
  by_cases h₁ : hd = .estabAck
  · subst h₁
    obtain ⟨hst, rfl⟩ := tcpFsaTable_estabAck htab
    have hack : AckFlow env i f (l.withState .established) l' := tcpEstabAckHandler_flow hcall
    have hstate : (settle now l.conn.state l' r).conn.state = l.conn.state := by
      obtain heq | heq := settle_state now l.conn.state l' r
      · exact heq
      · exact heq.trans ((tcpEstabAckHandler_state hcall).trans hst.symm)
    refine h.keep ((congrArg Flow.nxt hsf).trans hack.nxt) (.inr (congrArg _ hstate)) ?_
    rw [hsl]
    obtain ⟨hlog, -⟩ | ⟨g, hlog⟩ := hack.tick
    · rw [hlog]
      exact .nothing
    · rw [hlog]
      exact .resent i g
  by_cases h₂ : hd = .synrcvdAck
  · subst h₂
    obtain ⟨hst, rfl⟩ := tcpFsaTable_synrcvdAck htab
    simp only [Handler.call, tcpSynrcvdAckHandler, Option.some.injEq] at hcall
    split at hcall
    · cases hcall
      exact ⟨h.numbered, fun _ => h.next (.inl (by rw [hst]; rfl)), by rintro ⟨⟩⟩
    · cases hcall
      exact h.keep rfl (.inr rfl) .nothing
  · obtain ⟨hfl, hlog⟩ := Handler.call_flow hcall h₁ h₂
    refine h.keep ((congrArg Flow.nxt hsf).trans (congrArg Flow.nxt hfl))
      (recv_sndPhase htab h₂ hcall) ?_
    rw [hsl, hlog]
    exact .nothing

/-- **Every act keeps the count.** -/
theorem SlotAct.counts {t : Tcp} {e : Event} (hl : l.conn = t.conn i)
    (ha : SlotAct env t e i l l') (h : Counts i l.conn l.log) (ht : Numbered i t.log) :
    Counts i l'.conn l'.log := by
  cases ha with
  | recv _ _ _ _ htab hcall =>
      rw [← hl] at htab ⊢
      exact recv_counts h htab hcall
  | opened _ _ _ _ halloc =>
      refine openSlot_counts ?_
      rw [allocSlot_log halloc]
      exact ht
  | touched => exact h.keep rfl (.inr rfl) .nothing
  | sent _ => exact tcpSend_counts h
  | closed _ => exact tcpClose_counts h
  | consumed _ =>
      unfold tcpRxConsume
      dsimp only
      split <;> exact h.keep rfl (.inr rfl) (.consumed i _)
  | flushed _ => exact h.keep rfl (.inr rfl) (.consumed i _)
  | tornDown _ _ => exact h.keep rfl (.inl rfl) .nothing
  | retransmit _ _ => exact tcpRetransmitCb_counts h
  | timewait _ _ => exact h.keep rfl (.inl rfl) .nothing
  | persist _ _ =>
      unfold tcpPersistCb
      split
      · refine h.keep ?_ (.inr ?_) ?_
        · rw [tcpPersistArm_conn]
        · rw [tcpPersistArm_conn]
        · rw [tcpPersistArm_log]
          exact .probed i rfl rfl
      · exact h
  | listening _ _ => exact h.keep rfl (.inl rfl) .nothing

theorem counts_init (cap : PoolCap) (i : Slot) : Counts i ((tcpInit cap).conn i) (tcpInit cap).log :=
  ⟨trivial, fun h => (h.elim nofun nofun), nofun⟩

/-- All that the delivery rests on. -/
structure Delivers (i : Slot) (c : Conn) (log : List Obs) : Prop where
  snd : SndInv i c log
  faithful : AllFaithful i log
  counts : Counts i c log

theorem delivers_ownLog (i : Slot) : OwnLog i (Delivers i) := by
  intro c o log ho
  have hsnd := allFaithful_ownLog i c o log ho
  have hcounts := counts_ownLog i c o log ho
  constructor
  · intro h
    obtain ⟨hs, hf⟩ := hsnd.mp ⟨h.snd, h.faithful⟩
    exact ⟨hs, hf, hcounts.mp h.counts⟩
  · intro h
    obtain ⟨hs, hf⟩ := hsnd.mpr ⟨h.snd, h.faithful⟩
    exact ⟨hs, hf, hcounts.mpr h.counts⟩

theorem SlotAct.delivers {t : Tcp} {e : Event} (hok : opensClean env i t e ∧ rtxOnData i t e)
    (hl : l.conn = t.conn i) (hlog : l.log = t.log) (ha : SlotAct env t e i l l')
    (h : Delivers i l.conn l.log) : Delivers i l'.conn l'.log where
  snd := ha.sndInv hok.1 hl hlog h.snd
  faithful := ha.allFaithful hok.2 hl hlog h.snd h.faithful
  counts := ha.counts hl h.counts (hlog ▸ h.counts.numbered)

/-- **Every call keeps it.** -/
theorem Delivers.step {t t' : Tcp} {e : Event} (h : Delivers i (t.conn i) t.log)
    (hok : opensClean env i t e ∧ rtxOnData i t e) (hst : WsPi5.step env t e = some t') :
    Delivers i (t'.conn i) t'.log :=
  @slot_invariant env i _ (fun t e => opensClean env i t e ∧ rtxOnData i t e)
    (delivers_ownLog i) SlotAct.delivers _ _ _ h hok hst

theorem delivers_init (cap : PoolCap) (i : Slot) :
    Delivers i ((tcpInit cap).conn i) (tcpInit cap).log :=
  ⟨sndInv_init cap i, trivial, counts_init cap i⟩

/-- **The peer of such a connection**, after any frames of it. -/
theorem Delivers.peer {c : Conn} {log : List Obs} {fs : List Frame} (h : Delivers i c log)
    (hshort : (acceptedOn i log).length < 2 ^ 32) (hfs : ∀ f ∈ fs, f ∈ framesOf i log) :
    (fs.foldl Peer.take (Peer.opened (isnOf i log))).Reads i log :=
  Peer.opened_reads.takes hshort fun f hf _ _ hs =>
    framesOf_at h.counts.numbered h.faithful (hfs f hf) hs

/-- **What the peer reads is what was sent.**  Whatever frames of the connection reach it, and in
whatever order, it has read the first bytes that `tcp_send` accepted; with the FIN, all of them. -/
theorem peer_reads_stream {cap : PoolCap} {t : Tcp} {fs : List Frame}
    (h : Run (step env) (fun t e => opensClean env i t e ∧ rtxOnData i t e) (tcpInit cap) t)
    (hshort : (acceptedOn i t.log).length < 2 ^ 32) (hfs : ∀ f ∈ fs, f ∈ framesOf i t.log) :
    (fs.foldl Peer.take (Peer.opened (isnOf i t.log))).got <+: acceptedOn i t.log ∧
    ((fs.foldl Peer.take (Peer.opened (isnOf i t.log))).ended = true →
      (fs.foldl Peer.take (Peer.opened (isnOf i t.log))).got = acceptedOn i t.log) := by
  have hinv : Delivers i (t.conn i) t.log :=
    h.invariant (P := fun t => Delivers i (t.conn i) t.log) (delivers_init cap i) Delivers.step
  have hreads := hinv.peer hshort hfs
  exact ⟨hreads.front, hreads.all⟩

end

/-- Two bytes and the FIN; the data is sent twice, and every frame reaches the peer twice. -/
theorem peer_reads_stream_demo : ∃ t : Tcp, Run (step demoEnv)
    (fun t e => opensClean demoEnv 1 t e ∧ rtxOnData 1 t e) (tcpInit 16) t ∧
    acceptedOn 1 t.log = [65, 66] ∧
    ((framesOf 1 t.log ++ framesOf 1 t.log).foldl Peer.take (.opened (isnOf 1 t.log))).got
      = acceptedOn 1 t.log := by
  obtain ⟨t, hrun, hsent, hended⟩ := exists_run (step demoEnv)
    (fun t e => opensClean demoEnv 1 t e ∧ rtxOnData 1 t e) (tcpInit 16)
    (Q := fun t => acceptedOn 1 t.log = [65, 66] ∧ ((framesOf 1 t.log ++ framesOf 1 t.log).foldl
      Peer.take (.opened (isnOf 1 t.log))).ended = true)
    (demoOpen ++ [⟨1, .send 1 [65, 66]⟩, ⟨5000, .visit 0⟩, ⟨5001, .close 1⟩])
    (by decide +kernel) (by decide +kernel)
  refine ⟨t, hrun, hsent, (peer_reads_stream hrun (by rw [hsent]; decide) ?_).2 hended⟩
  exact fun f hf => (List.mem_append.mp hf).elim id id

end WsPi5

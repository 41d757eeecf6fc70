/-
# `WsPi5.Tcp.SendBuf` — the send ring and the sequence numbers move together

`SND_UNA`, `SND_NXT` and the ring fields `SND_BUF_HEAD/TAIL/USED` are written by different
functions.  This module says what they have to do with each other and with what `tcp_send`
was given, and proves it along every run.

**What was first sent where.**  `firstSent i p log` reads the log of slot `i` backwards to
the opening of its present connection and answers what was sent at sequence position `p`:
our SYN-ACK, a byte that `tcp_send` accepted, or our FIN.

**The invariant** (`SndInv`).  By the phase of the connection:

    phase   states                               in flight    ring
    idle    CLOSED, LISTEN                       —            —
    syn     SYN_RCVD                             1            empty
    data    ESTABLISHED, CLOSE_WAIT              USED         holds what was sent from SND_UNA on
    fin     FIN_WAIT_1/2, CLOSING, LAST_ACK,     USED + 1     the same, and our FIN behind it
            TIME_WAIT

and always `HEAD = TAIL + USED` modulo the ring size, `USED` at most the ring size, and the
congestion window at most 256 KB (which is what keeps `USED` there).

**What it rests on.**  `tcp_listen_syn_handler` does not touch `SND_BUF_*`.  If the slot's
last user died with bytes in flight, `USED` is not zero and everything above is off by that
many bytes for the whole life of the new connection.  So the runs considered are those in
which a connection is only ever put into a slot whose ring is empty (`opensClean`); that is
the one hypothesis, and `synConn` keeping the fields is the reason for it.
-/
import WsPi5.Tcp.States

namespace WsPi5

open Lib

/-! ## What was first sent at a position -/

/-- What a sequence position of a connection was used for. -/
inductive Sent where
  | syn (frame : Frame)
  | data (byte : Byte)
  | fin (frame : Frame)
  deriving DecidableEq, Repr

/-- What was first sent at position `p` on the connection now in slot `i`. -/
def firstSent (i : Slot) (p : W) : List Obs → Option Sent
  | [] => none
  | .opened j _ sa :: log =>
      if j = i then (if p = sa.seq then some (.syn sa) else none) else firstSent i p log
  | .accepted j f :: log =>
      if j = i ∧ (p - f.seq).toNat < f.payload.length then
        f.payload[(p - f.seq).toNat]?.map .data
      else firstSent i p log
  | .finSent j f :: log =>
      if j = i ∧ p = f.seq then some (.fin f) else firstSent i p log
  | .resent _ _ :: log | .probed _ _ :: log | .consumed _ _ :: log => firstSent i p log

theorem firstSent_other {i : Slot} {p : W} {o : Obs} {log : List Obs} (h : o.slot ≠ i) :
    firstSent i p (o :: log) = firstSent i p log := by
  cases o <;> simp_all [firstSent, Obs.slot]

/-! ## The invariant -/

/-- Where a connection stands with its own sequence space. -/
inductive SndPhase where
  | idle | syn | data | fin
  deriving DecidableEq, Repr

def TcpState.sndPhase : TcpState → SndPhase
  | .closed | .listen => .idle
  | .synRcvd => .syn
  | .established | .closeWait => .data
  | .lastAck | .finWait1 | .finWait2 | .timeWait | .closing => .fin

/-- The sending half of the record. -/
structure Snd where
  una : W
  nxt : W
  head : Nat
  tail : Nat
  used : W
  buf : Nat → Byte
  cwnd : W
  ssthresh : W
  mss : BitVec 16
  rtxlen : Nat

def Conn.snd (c : Conn) : Snd where
  una := c.sndUna
  nxt := c.sndNxt
  head := c.sndBufHead
  tail := c.sndBufTail
  used := c.sndBufUsed
  buf := c.sndbuf
  cwnd := c.cwnd
  ssthresh := c.ssthresh
  mss := c.peerMss
  rtxlen := c.rtxlen

/-- The `k`-th pending byte of the ring is what was first sent at `SND_UNA + k`. -/
def Snd.Holds (i : Slot) (s : Snd) (log : List Obs) : Prop :=
  ∀ k, k < s.used.toNat → firstSent i (s.una + BitVec.ofNat 32 k) log
    = some (.data (s.buf ((s.tail + k) % tcpSndbufSize)))

/-- The bounds that do not depend on the phase. -/
structure Snd.Bounded (s : Snd) : Prop where
  head : s.head % tcpSndbufSize = (s.tail + s.used.toNat) % tcpSndbufSize
  used : s.used.toNat ≤ tcpSndbufSize
  cwnd : s.cwnd ≤ cwndCap
  ssthresh : s.ssthresh ≤ cwndCap

/-- The coupling of the sequence numbers with the ring, by phase. -/
def Snd.Coupled (i : Slot) (s : Snd) (log : List Obs) : SndPhase → Prop
  | .idle => True
  | .syn => s.nxt - s.una = 1 ∧ s.used = 0
  | .data => s.nxt - s.una = s.used ∧ s.Holds i log ∧ s.rtxlen = 0
  | .fin => s.nxt - s.una = s.used + 1 ∧ s.Holds i log

/-- The invariant of slot `i`. -/
def SndInv (i : Slot) (c : Conn) (log : List Obs) : Prop :=
  c.snd.Bounded ∧ c.snd.Coupled i log c.state.sndPhase

/-! ## The log of other slots, and entries that send nothing new -/

theorem Snd.holds_congr {i : Slot} {s : Snd} {log log' : List Obs}
    (h : ∀ p, firstSent i p log' = firstSent i p log) (hs : s.Holds i log) :
    s.Holds i log' := by
  intro k hk
  rw [h]
  exact hs k hk

theorem Snd.coupled_congr {i : Slot} {s : Snd} {ph : SndPhase} {log log' : List Obs}
    (h : ∀ p, firstSent i p log' = firstSent i p log) (hs : s.Coupled i log ph) :
    s.Coupled i log' ph := by
  cases ph with
  | idle => trivial
  | syn => exact hs
  | data => exact ⟨hs.1, Snd.holds_congr h hs.2.1, hs.2.2⟩
  | fin => exact ⟨hs.1, Snd.holds_congr h hs.2⟩

theorem sndInv_ownLog (i : Slot) : OwnLog i (SndInv i) := by
  intro c o log ho
  have hsame : ∀ p, firstSent i p (o :: log) = firstSent i p log := fun p => firstSent_other ho
  constructor
  · exact fun h => ⟨h.1, Snd.coupled_congr (fun p => (hsame p).symm) h.2⟩
  · exact fun h => ⟨h.1, Snd.coupled_congr hsame h.2⟩

/-! ## Updates that leave the sequence space alone -/

/-- Sequence numbers and ring are the same; the congestion state may have moved within its
cap, and a saved control frame may have been forgotten. -/
structure Snd.Keeps (s s' : Snd) : Prop where
  una : s'.una = s.una
  nxt : s'.nxt = s.nxt
  head : s'.head = s.head
  tail : s'.tail = s.tail
  used : s'.used = s.used
  buf : s'.buf = s.buf
  mss : s'.mss = s.mss
  rtxlen : s'.rtxlen = s.rtxlen ∨ s'.rtxlen = 0
  cap : s.cwnd ≤ cwndCap → s.ssthresh ≤ cwndCap → s'.cwnd ≤ cwndCap ∧ s'.ssthresh ≤ cwndCap

theorem Snd.Keeps.refl (s : Snd) : s.Keeps s :=
  ⟨rfl, rfl, rfl, rfl, rfl, rfl, rfl, Or.inl rfl, fun h h' => ⟨h, h'⟩⟩

theorem Snd.Keeps.of_eq {s s' : Snd} (h : s' = s) : s.Keeps s' := h ▸ .refl s

theorem Snd.Keeps.trans {s s' s'' : Snd} (h : s.Keeps s') (h' : s'.Keeps s'') : s.Keeps s'' where
  una := h'.una.trans h.una
  nxt := h'.nxt.trans h.nxt
  head := h'.head.trans h.head
  tail := h'.tail.trans h.tail
  used := h'.used.trans h.used
  buf := h'.buf.trans h.buf
  mss := h'.mss.trans h.mss
  rtxlen := by
    obtain h₁ | h₁ := h'.rtxlen
    · rw [h₁]
      exact h.rtxlen
    · exact Or.inr h₁
  cap := fun hc hs => h'.cap (h.cap hc hs).1 (h.cap hc hs).2

theorem Snd.Keeps.bounded {s s' : Snd} (h : s.Keeps s') (hb : s.Bounded) : s'.Bounded where
  head := by rw [h.head, h.tail, h.used]; exact hb.head
  used := by rw [h.used]; exact hb.used
  cwnd := (h.cap hb.cwnd hb.ssthresh).1
  ssthresh := (h.cap hb.cwnd hb.ssthresh).2

theorem Snd.Keeps.holds {i : Slot} {s s' : Snd} {log : List Obs} (h : s.Keeps s')
    (hs : s.Holds i log) : s'.Holds i log := by
  intro k hk
  rw [h.una, h.buf, h.tail]
  exact hs k (by rw [← h.used]; exact hk)

theorem Snd.Keeps.coupled {i : Slot} {s s' : Snd} {log : List Obs} {ph : SndPhase}
    (h : s.Keeps s') (hs : s.Coupled i log ph) : s'.Coupled i log ph := by
  cases ph with
  | idle => trivial
  | syn => exact ⟨by rw [h.nxt, h.una]; exact hs.1, by rw [h.used]; exact hs.2⟩
  | data =>
      refine ⟨by rw [h.nxt, h.una, h.used]; exact hs.1, h.holds hs.2.1, ?_⟩
      obtain h₁ | h₁ := h.rtxlen
      · exact h₁.trans hs.2.2
      · exact h₁
  | fin => exact ⟨by rw [h.nxt, h.una, h.used]; exact hs.1, h.holds hs.2⟩

/-- An update that keeps the sequence space, ends in the same phase or in an idle one, and
adds no first transmission keeps the invariant. -/
theorem SndInv.keeps {i : Slot} {c c' : Conn} {log log' : List Obs} (h : SndInv i c log)
    (hk : c.snd.Keeps c'.snd)
    (hph : c'.state.sndPhase = .idle ∨ c'.state.sndPhase = c.state.sndPhase)
    (hlog : ∀ p, firstSent i p log' = firstSent i p log) : SndInv i c' log' := by
  refine ⟨hk.bounded h.1, ?_⟩
  obtain hph | hph := hph
  · rw [hph]
    trivial
  · rw [hph]
    exact Snd.coupled_congr hlog (hk.coupled h.2)

/-! ## Which operations are of that kind -/

section
variable (env : Env) (now : Tick) (i : Slot)

@[simp] theorem tcpRtxArm_snd (l : Local) : (tcpRtxArm env now i l).conn.snd = l.conn.snd := by
  unfold tcpRtxArm
  split <;> rfl

theorem tcpRtxClear_keeps (l : Local) : l.conn.snd.Keeps (tcpRtxClear env l).conn.snd :=
  ⟨rfl, rfl, rfl, rfl, rfl, rfl, rfl, Or.inr rfl, fun h h' => ⟨h, h'⟩⟩

@[simp] theorem startTimewait_snd (l : Local) :
    (startTimewait env now i l).conn.snd = l.conn.snd := by
  unfold startTimewait
  split <;> rfl

@[simp] theorem eakWindow_snd (f : Frame) (l : Local) :
    (eakWindow env now i f l).conn.snd = l.conn.snd := by
  unfold eakWindow
  dsimp only
  split
  · split
    · rw [tcpPersistArm_conn]
      rfl
    · rfl
  · rfl

end

/-! ## The ACK handler -/

theorem mss_lt (c : Conn) : c.mss.toNat < 65536 := by
  have := c.peerMss.isLt
  simp [Conn.mss]
  omega

theorem capCwnd_le (w : W) : capCwnd w ≤ cwndCap := by
  unfold capCwnd
  split
  · rename_i h
    exact BitVec.le_of_lt h
  · exact BitVec.le_refl _

theorem halved_le {c : Conn} (h : c.cwnd ≤ cwndCap) : c.halved ≤ cwndCap := by
  have hmss := mss_lt c
  have hcap : cwndCap.toNat = 262144 := rfl
  unfold Conn.halved
  split
  · rw [BitVec.le_def, BitVec.toNat_ushiftRight, Nat.shiftRight_eq_div_pow]
    rw [BitVec.le_def] at h
    omega
  · rw [BitVec.le_def, BitVec.toNat_shiftLeft, Nat.shiftLeft_eq]
    omega

theorem mss_le_cap (c : Conn) : c.mss ≤ cwndCap := by
  have hmss := mss_lt c
  have hcap : cwndCap.toNat = 262144 := rfl
  rw [BitVec.le_def]
  omega

section
variable (env : Env) (now : Tick) (i : Slot) (f : Frame)

@[simp] theorem commitTs_snd (c : Conn) : (commitTs f c).snd = c.snd := by
  unfold commitTs
  split
  · split <;> rfl
  · rfl

theorem oooMerge_snd : ∀ (n : Nat) (c : Conn), (oooMerge n c).snd = c.snd
  | 0, _ => rfl
  | n + 1, c => by
      unfold oooMerge
      split
      · rfl
      · exact oooMerge_snd n _

@[simp] theorem acceptData_snd (c : Conn) : (acceptData f c).snd = c.snd :=
  oooMerge_snd _ _

theorem eakRtt_snd (c : Conn) : (eakRtt env now c).snd = c.snd := by
  unfold eakRtt tcpRttUpdate
  split
  · dsimp only
    split <;> rfl
  · rfl

theorem eakCwnd_keeps (c : Conn) : c.snd.Keeps (eakCwnd f c).snd := by
  unfold eakCwnd
  split
  · exact ⟨rfl, rfl, rfl, rfl, rfl, rfl, rfl, Or.inl rfl, fun _ h => ⟨h, h⟩⟩
  · exact ⟨rfl, rfl, rfl, rfl, rfl, rfl, rfl, Or.inl rfl, fun _ h => ⟨capCwnd_le _, h⟩⟩

/-- The RTT fields and the congestion window are all that the tail of the ACK processing
touches. -/
theorem eakTail_keeps (c : Conn) : c.snd.Keeps (eakCwnd f (eakRtt env now c)).snd :=
  (Snd.Keeps.of_eq (eakRtt_snd env now c)).trans (eakCwnd_keeps f _)

/-- **The ACK step.**  An ACK that advances takes the same number of bytes off the flight
and off the ring. -/
theorem eakAdvance_coupled {c : Conn} {log : List Obs} (hb : c.snd.Bounded)
    (hc : c.snd.Coupled i log .data) (hadv : ackAdvances f c = true) :
    (eakAdvance f c).snd.Bounded ∧ (eakAdvance f c).snd.Coupled i log .data := by
  obtain ⟨hfl, hring, hrtx⟩ := hc
  simp only [ackAdvances, Bool.and_eq_true, decide_eq_true_eq] at hadv
  obtain ⟨hlo, hhi⟩ := hadv
  have hsize : tcpSndbufSize = 262144 := rfl
  have hused := hb.used
  have hhead := hb.head
  simp only [Conn.snd] at hfl hused hhead
  -- the acknowledged bytes are part of the ring
  have hacked : (f.ack - c.sndUna).toNat ≤ c.sndBufUsed.toNat := by bv_omega
  have hleft : (c.sndBufUsed - (f.ack - c.sndUna)).toNat
      = c.sndBufUsed.toNat - (f.ack - c.sndUna).toNat := by bv_omega
  refine ⟨⟨?_, ?_, hb.cwnd, hb.ssthresh⟩, ?_, ?_, hrtx⟩
  · simp only [eakAdvance, Conn.snd, hleft, Nat.mod_add_mod]
    rw [hhead]
    congr 1
    omega
  · simp only [eakAdvance, Conn.snd, hleft]
    omega
  · simp only [eakAdvance, Conn.snd]
    bv_omega
  · intro k hk
    simp only [eakAdvance, Conn.snd, hleft, Nat.mod_add_mod] at hk ⊢
    have hpos : f.ack + BitVec.ofNat 32 k
        = c.sndUna + BitVec.ofNat 32 ((f.ack - c.sndUna).toNat + k) := by
      rw [BitVec.ofNat_add, BitVec.ofNat_toNat, BitVec.setWidth_eq, ← BitVec.add_assoc]
      congr 1
      bv_omega
    rw [hpos, Nat.add_assoc]
    exact hring ((f.ack - c.sndUna).toNat + k) (by simp only [Conn.snd]; omega)

theorem eakAck_coupled {l : Local} {log : List Obs} (hb : l.conn.snd.Bounded)
    (hc : l.conn.snd.Coupled i log .data) :
    (eakAck env now f l).conn.snd.Bounded ∧
      (eakAck env now f l).conn.snd.Coupled i log .data := by
  unfold eakAck
  split
  · rename_i hadv
    obtain ⟨hb', hc'⟩ := eakAdvance_coupled i f hb hc hadv
    have hk := eakTail_keeps env now f (eakAdvance f l.conn)
    dsimp only
    split
    · have hk' := hk.trans (tcpRtxClear_keeps env
        { l with conn := eakCwnd f (eakRtt env now (eakAdvance f l.conn)) })
      exact ⟨hk'.bounded hb', hk'.coupled hc'⟩
    · exact ⟨hk.bounded hb', hk.coupled hc'⟩
  · exact ⟨hb, hc⟩

theorem tcpFastRetransmit_keeps {l l' : Local} (h : tcpFastRetransmit env now i f l = some l') :
    l.conn.snd.Keeps l'.conn.snd := by
  have hk : l.conn.snd.Keeps ({ l.conn with
      sackRecover := l.conn.sndNxt
      ssthresh := l.conn.halved
      cwnd := capCwnd (l.conn.halved + l.conn.mss * 3) } : Conn).snd :=
    ⟨rfl, rfl, rfl, rfl, rfl, rfl, rfl, Or.inl rfl,
      fun hc _ => ⟨capCwnd_le _, halved_le hc⟩⟩
  unfold tcpFastRetransmit at h
  dsimp only at h
  split at h
  · obtain ⟨off, _, hoff⟩ := Option.map_eq_some_iff.mp h
    split at hoff
    · subst hoff
      exact hk
    · subst hoff
      rw [tcpRtxArm_snd]
      exact hk
  · cases h
    exact hk

theorem eakPureAck_keeps {l l' : Local} (h : eakPureAck env now i f l = some l') :
    l.conn.snd.Keeps l'.conn.snd := by
  have hts := Snd.Keeps.of_eq (commitTs_snd f l.conn)
  unfold eakPureAck at h
  dsimp only at h
  split at h
  · split at h
    · cases h
      exact hts
    · split at h
      · cases h
        exact hts.trans ⟨rfl, rfl, rfl, rfl, rfl, rfl, rfl, Or.inl rfl,
          fun _ h => ⟨capCwnd_le _, h⟩⟩
      · exact hts.trans (tcpFastRetransmit_keeps env now i f h)
  · cases h
    exact hts

theorem eakData_keeps {l l' : Local} {r : HRes} (h : eakData env now i f l = some (l', r)) :
    l.conn.snd.Keeps l'.conn.snd := by
  have hts := Snd.Keeps.of_eq (commitTs_snd f l.conn)
  unfold eakData at h
  dsimp only at h
  split at h
  · obtain ⟨m, hm, hmr⟩ := Option.map_eq_some_iff.mp h
    cases hmr
    exact eakPureAck_keeps env now i f hm
  · split at h
    · split at h
      · cases h
        exact .of_eq (by simp)
      · obtain ⟨m, hm, hmr⟩ := Option.map_eq_some_iff.mp h
        cases hmr
        exact hts.trans (eakPureAck_keeps env now i f hm)
    · split at h
      · cases h
        exact .of_eq rfl
      · cases h
        exact .refl _

/-! ## What the ACK handler sends again -/

/-- Nothing was sent, or one frame built from a record with the same sequence space. -/
def Resends (l l' : Local) : Prop :=
  l'.log = l.log ∨ ∃ (c : Conn) (off : W) (g : Frame), l'.log = .resent i g :: l.log ∧
    tcpSndbufBuildFrameAt env now c off = some g ∧ l.conn.snd.Keeps c.snd ∧
    c.cfg = l.conn.cfg

theorem tcpFastRetransmit_resends {l l' : Local}
    (h : tcpFastRetransmit env now i f l = some l') : Resends env now i l l' := by
  unfold tcpFastRetransmit at h
  dsimp only at h
  split at h
  · obtain ⟨off, _, hoff⟩ := Option.map_eq_some_iff.mp h
    split at hoff
    · subst hoff
      exact Or.inl rfl
    · rename_i g hg
      subst hoff
      refine Or.inr ⟨_, off, g, tcpRtxArm_log .., hg, ?_, rfl⟩
      exact ⟨rfl, rfl, rfl, rfl, rfl, rfl, rfl, Or.inl rfl,
        fun hc _ => ⟨capCwnd_le _, halved_le hc⟩⟩
  · cases h
    exact Or.inl rfl

theorem Resends.of_keeps {l₀ l l' : Local} (h : Resends env now i l l')
    (hlog : l.log = l₀.log) (hk : l₀.conn.snd.Keeps l.conn.snd)
    (hcfg : l.conn.cfg = l₀.conn.cfg) : Resends env now i l₀ l' := by
  obtain h | ⟨c, off, g, h, hg, hc, hcc⟩ := h
  · exact Or.inl (h.trans hlog)
  · exact Or.inr ⟨c, off, g, by rw [h, hlog], hg, hk.trans hc, hcc.trans hcfg⟩

theorem eakPureAck_resends {l l' : Local} (h : eakPureAck env now i f l = some l') :
    Resends env now i l l' := by
  unfold eakPureAck at h
  dsimp only at h
  split at h
  · split at h
    · cases h
      exact Or.inl rfl
    · split at h
      · cases h
        exact Or.inl rfl
      · refine (tcpFastRetransmit_resends env now i f h).of_keeps env now i rfl ?_
          (commitTs_cfg f l.conn)
        exact .of_eq (commitTs_snd f l.conn)
  · cases h
    exact Or.inl rfl

theorem eakData_resends {l l' : Local} {r : HRes} (h : eakData env now i f l = some (l', r)) :
    Resends env now i l l' := by
  unfold eakData at h
  dsimp only at h
  split at h
  · obtain ⟨m, hm, hmr⟩ := Option.map_eq_some_iff.mp h
    cases hmr
    exact eakPureAck_resends env now i f hm
  · split at h
    · split at h
      · cases h
        exact Or.inl rfl
      · obtain ⟨m, hm, hmr⟩ := Option.map_eq_some_iff.mp h
        cases hmr
        refine (eakPureAck_resends env now i f hm).of_keeps env now i rfl ?_
          (commitTs_cfg f l.conn)
        exact .of_eq (commitTs_snd f l.conn)
    · split at h
      · cases h
        exact Or.inl rfl
      · cases h
        exact Or.inl rfl

theorem Resends.firstSent {l l' : Local} (h : Resends env now i l l') (p : W) :
    firstSent i p l'.log = firstSent i p l.log := by
  obtain h | ⟨c, off, g, h, _, _, _⟩ := h
  · rw [h]
  · rw [h]
    rfl

end

/-- **The ACK handler keeps the coupling**, and what it sends again it takes from a coupled
record. -/
theorem tcpEstabAckHandler_coupled {env : Env} {now : Tick} {i : Slot} {f : Frame}
    {l l' : Local} {r : HRes} (hb : l.conn.snd.Bounded)
    (hc : l.conn.snd.Coupled i l.log .data)
    (h : tcpEstabAckHandler env now i f l = some (l', r)) :
    ∃ m : Local, m.log = l.log ∧ m.conn.snd.Bounded ∧ m.conn.snd.Coupled i l.log .data ∧
      m.conn.snd.Keeps l'.conn.snd ∧ Resends env now i m l' := by
  have hw := eakWindow_snd env now i f l
  obtain ⟨hb', hc'⟩ := eakAck_coupled env now i f (l := eakWindow env now i f l)
    (by rw [hw]; exact hb) (by rw [hw]; exact hc)
  unfold tcpEstabAckHandler at h
  dsimp only at h
  split at h
  · cases h
    exact ⟨_, by simp, hb', hc', .refl _, Or.inl rfl⟩
  · exact ⟨_, by simp, hb', hc', eakData_keeps env now i f h, eakData_resends env now i f h⟩

/-! ## The other handlers -/

/-- Every handler but the two that process an ACK in SYN_RCVD and ESTABLISHED leaves the
sequence space and the log alone. -/
theorem Handler.call_keeps {env : Env} {now : Tick} {i : Slot} {f : Frame} {h : Handler}
    {l l' : Local} {r : HRes} (hc : h.call env now i f l = some (l', r))
    (h₁ : h ≠ .estabAck) (h₂ : h ≠ .synrcvdAck) :
    l.conn.snd.Keeps l'.conn.snd ∧ l'.log = l.log := by
  have closing : ∀ (stay : TcpState) (acked : Local → Local),
      l.conn.snd.Keeps (acked l).conn.snd ∧ (acked l).log = l.log →
      some (WsPi5.closingAck f stay acked l) = some (l', r) →
      l.conn.snd.Keeps l'.conn.snd ∧ l'.log = l.log := by
    intro stay acked hacked heq
    unfold WsPi5.closingAck at heq
    split at heq
    · cases heq
      exact ⟨.of_eq rfl, rfl⟩
    · split at heq
      · cases heq
        exact hacked
      · cases heq
        exact ⟨.of_eq rfl, rfl⟩
  cases h with
  | connClose =>
      cases hc
      exact ⟨tcpRtxClear_keeps env l, rfl⟩
  | drop =>
      cases hc
      exact ⟨.refl _, rfl⟩
  | synrcvdAck => exact absurd rfl h₂
  | estabAck => exact absurd rfl h₁
  | estabFin =>
      cases hc
      refine ⟨.of_eq ?_, rfl⟩
      dsimp only
      split
      · rfl
      · split <;> rfl
  | lastackAck => exact closing _ _ ⟨tcpRtxClear_keeps env l, rfl⟩ hc
  | finwait1Ack => exact closing _ _ ⟨tcpRtxClear_keeps env l, rfl⟩ hc
  | finwait1Fin =>
      simp only [Handler.call, tcpFinwait1FinHandler] at hc
      split at hc
      · cases hc
        exact ⟨.of_eq rfl, rfl⟩
      · cases hc
        exact ⟨.of_eq rfl, rfl⟩
  | finwait2Fin =>
      cases hc
      exact ⟨.of_eq (by rw [startTimewait_snd]; rfl), by simp⟩
  | timewaitFin =>
      cases hc
      exact ⟨.of_eq (by rw [startTimewait_snd]), by simp⟩
  | closingAck => exact closing _ _ ⟨.of_eq (by simp), by simp⟩ hc

/-- The table moves a connection within its phase, or closes it; so do the handlers.  Only
the handshake ACK moves it on. -/
theorem tcpFsaTable_sndPhase {s next : TcpState} {evt : TcpEvt} {h : Handler}
    (htab : tcpFsaTable s evt = some (next, h)) (hne : h ≠ .synrcvdAck) :
    (next.sndPhase = .idle ∨ next.sndPhase = s.sndPhase) ∧
      ∀ a, h.altState = some a → a.sndPhase = s.sndPhase := by
  cases s <;> cases evt <;> simp only [tcpFsaTable, Option.some.injEq, Prod.mk.injEq,
    reduceCtorEq] at htab <;> obtain ⟨rfl, rfl⟩ := htab <;>
    simp_all [TcpState.sndPhase, Handler.altState]

theorem recv_sndPhase {env : Env} {now : Tick} {i : Slot} {f : Frame} {h : Handler}
    {evt : TcpEvt} {s next : TcpState} {l l' : Local} {r : HRes}
    (htab : tcpFsaTable s evt = some (next, h)) (hne : h ≠ .synrcvdAck)
    (hc : h.call env now i f (l.withState next) = some (l', r)) :
    (settle now s l' r).conn.state.sndPhase = .idle ∨
      (settle now s l' r).conn.state.sndPhase = s.sndPhase := by
  obtain ⟨hnext, halt⟩ := tcpFsaTable_sndPhase htab hne
  obtain hs | hs := settle_state now s l' r
  · exact Or.inr (by rw [hs])
  · rw [hs]
    obtain hst | hst := Handler.call_state hc
    · rw [hst, Local.withState_state]
      exact hnext
    · exact Or.inr (halt _ hst)

/-! ## Sending -/

theorem tcpSendAccepts_spec {c : Conn} {n : Nat} (h : tcpSendAccepts c n = true) :
    c.state = .established ∧ n ≠ 0 ∧ n ≤ c.mss.toNat ∧
      c.inFlight.toNat + n ≤ c.sndWnd.toNat ∧ c.inFlight.toNat + n ≤ c.cwnd.toNat := by
  simp only [tcpSendAccepts, Bool.and_eq_true, decide_eq_true_eq, Bool.not_eq_true',
    decide_eq_false_iff_not] at h
  obtain ⟨⟨⟨⟨hst, hn⟩, hmss⟩, hroom⟩, hfit⟩ := h
  have hroom' : c.inFlight < c.window := BitVec.not_le.mp hroom
  have hsub : (c.window - c.inFlight).toNat = c.window.toNat - c.inFlight.toNat := by bv_omega
  have hlt : c.inFlight.toNat < c.window.toNat := hroom'
  have hwnd : c.window.toNat ≤ c.sndWnd.toNat ∧ c.window.toNat ≤ c.cwnd.toNat := by
    unfold Conn.window
    split
    · rename_i h
      exact ⟨Nat.le_refl _, Nat.le_of_lt h⟩
    · rename_i h
      exact ⟨BitVec.not_lt.mp h, Nat.le_refl _⟩
  exact ⟨hst, hn, hmss, by omega, by omega⟩

/-- **The send step.**  The payload goes behind what is pending in the ring, and its first
byte is at `SND_NXT`. -/
theorem tcpSendAccept_inv {env : Env} {now : Tick} {i : Slot} {p : List Byte} {l : Local}
    (h : SndInv i l.conn l.log) (hacc : tcpSendAccepts l.conn p.length = true) :
    SndInv i (tcpSendAccept env now i p l).conn (tcpSendAccept env now i p l).log := by
  obtain ⟨hst, _, _, _, hcw⟩ := tcpSendAccepts_spec hacc
  obtain ⟨hb, hc⟩ := h
  rw [hst] at hc
  obtain ⟨hfl, hring, hrtx⟩ := hc
  have hsize : tcpSndbufSize = 262144 := rfl
  have hcap : cwndCap.toNat = 262144 := rfl
  have hcwnd : l.conn.cwnd.toNat ≤ cwndCap.toNat := hb.cwnd
  have hhead := hb.head
  simp only [Conn.snd] at hfl hhead
  have hfl' : l.conn.inFlight = l.conn.sndBufUsed := hfl
  rw [hfl'] at hcw
  have hfit : l.conn.sndBufUsed.toNat + p.length ≤ tcpSndbufSize := by omega
  have hnew : (l.conn.sndBufUsed + BitVec.ofNat 32 p.length).toNat
      = l.conn.sndBufUsed.toNat + p.length := by
    rw [BitVec.toNat_add, BitVec.toNat_ofNat]
    omega
  have hlog := tcpSendAccept_log env now i p l
  have hsnd : (tcpSendAccept env now i p l).conn.snd
      = { l.conn.snd with
          buf := ringWrite tcpSndbufSize l.conn.sndbuf l.conn.sndBufHead p
          head := (l.conn.sndBufHead + p.length) % tcpSndbufSize
          used := l.conn.sndBufUsed + BitVec.ofNat 32 p.length
          nxt := l.conn.sndNxt + BitVec.ofNat 32 p.length } := by
    simp only [tcpSendAccept, tcpRtxArm_snd]
    rfl
  have hstate : (tcpSendAccept env now i p l).conn.state = .established := by
    simp only [tcpSendAccept, tcpRtxArm_state]
    exact hst
  refine ⟨?_, ?_⟩
  · rw [hsnd]
    refine ⟨?_, ?_, hb.cwnd, hb.ssthresh⟩
    · simp only [Conn.snd, hnew, Nat.mod_mod]
      rw [Nat.add_mod, hhead, ← Nat.add_mod, Nat.add_assoc]
    · simp only [hnew]
      exact hfit
  · rw [hsnd, hstate, hlog]
    refine ⟨?_, ?_, hrtx⟩
    · simp only [Conn.snd]
      bv_omega
    · intro k hk
      simp only [Conn.snd, hnew] at hk ⊢
      have hseq : (tcpSendFrame env now l.conn p).seq = l.conn.sndNxt := rfl
      have hpay : (tcpSendFrame env now l.conn p).payload = p := rfl
      have hnxt : l.conn.sndNxt = l.conn.sndUna + l.conn.sndBufUsed := by bv_omega
      have hk32 : k < 2 ^ 32 := by omega
      by_cases hold : k < l.conn.sndBufUsed.toNat
      · -- an older byte: its position is far behind the new payload, its cell is not hit
        have hfar : ¬ (l.conn.sndUna + BitVec.ofNat 32 k - l.conn.sndNxt).toNat < p.length := by
          rw [hnxt]
          bv_omega
        rw [firstSent, hseq, hpay, if_neg (fun hcon => hfar hcon.2),
          ringWrite_keep p hhead hold hfit]
        exact hring k hold
      · -- a byte of the new payload
        obtain ⟨m, rfl⟩ : ∃ m, k = l.conn.sndBufUsed.toNat + m :=
          ⟨k - l.conn.sndBufUsed.toNat, by omega⟩
        have hm : m < p.length := by omega
        have hoff : (l.conn.sndUna + BitVec.ofNat 32 (l.conn.sndBufUsed.toNat + m)
            - l.conn.sndNxt).toNat = m := by
          rw [hnxt]
          bv_omega
        rw [firstSent, hseq, hpay, if_pos ⟨rfl, by rw [hoff]; exact hm⟩, hoff,
          ringWrite_new p hhead hm hfit, List.getElem?_eq_getElem hm]
        rfl

theorem tcpSend_inv {env : Env} {now : Tick} {i : Slot} {p : List Byte} {l : Local}
    (h : SndInv i l.conn l.log) :
    SndInv i (tcpSend env now i p l).1.conn (tcpSend env now i p l).1.log := by
  unfold tcpSend
  split
  · rename_i hacc
    exact tcpSendAccept_inv h hacc
  · exact h

/-! ## Closing -/

/-- **The close step.**  Our FIN takes the position behind the data. -/
theorem tcpClose_inv {env : Env} {now : Tick} {i : Slot} {l : Local}
    (h : SndInv i l.conn l.log) :
    SndInv i (tcpClose env now i l).1.conn (tcpClose env now i l).1.log := by
  have main : ∀ s : TcpState, s.sndPhase = .fin → l.conn.state.sndPhase = .data →
      SndInv i
        (tcpRtxSave env now i (tcpBuildFrame env now l.conn l.conn.sndNxt tcpFinAck [])
          { l with
            conn := { l.conn with sndNxt := l.conn.sndNxt + 1, state := s }
            log := .finSent i (tcpBuildFrame env now l.conn l.conn.sndNxt tcpFinAck [])
              :: l.log }).conn
        (.finSent i (tcpBuildFrame env now l.conn l.conn.sndNxt tcpFinAck []) :: l.log) := by
    intro s hs hdata
    obtain ⟨hb, hc⟩ := h
    rw [hdata] at hc
    obtain ⟨hfl, hring, _⟩ := hc
    have hsize : tcpSndbufSize = 262144 := rfl
    have hused := hb.used
    simp only [Conn.snd] at hfl hused
    refine ⟨?_, ?_⟩
    · simp only [tcpRtxSave, tcpRtxArm_snd]
      exact ⟨hb.head, hb.used, hb.cwnd, hb.ssthresh⟩
    · simp only [tcpRtxSave, tcpRtxArm_snd, tcpRtxArm_state, hs]
      refine ⟨?_, ?_⟩
      · simp only [Conn.snd]
        bv_omega
      · intro k hk
        simp only [Conn.snd] at hk ⊢
        -- the FIN's position is none of the pending bytes'
        have hne : ¬ (l.conn.sndUna + BitVec.ofNat 32 k = l.conn.sndNxt) := by bv_omega
        rw [firstSent, if_neg (fun hcon => hne hcon.2)]
        exact hring k hk
  unfold tcpClose
  cases hst : l.conn.state with
  | established => simpa using main .finWait1 rfl (by rw [hst]; rfl)
  | closeWait => simpa using main .lastAck rfl (by rw [hst]; rfl)
  | _ => exact h

/-! ## Opening -/

/-- A connection is put into slot `i` only while the slot's send ring is empty. -/
def opensClean (env : Env) (i : Slot) (t : Tcp) (e : Event) : Prop :=
  t.opens env e = some i → (t.conn i).sndBufUsed = 0

theorem allocSlot_snd {env : Env} {t : Tcp} {i : Slot} {l₀ : Local}
    (h : t.allocSlot env = some (i, l₀)) : (t.conn i).snd.Keeps l₀.conn.snd := by
  obtain ⟨rfl, _⟩ | ⟨rfl, _⟩ := allocSlot_some h
  · exact .refl _
  · exact tcpRtxClear_keeps env (t.at i)

/-- **The open step**: the SYN-ACK is the one byte in flight, and the ring is empty. -/
theorem openSlot_inv {env : Env} {now : Tick} {i : Slot} {f : Frame} {lport : BitVec 16}
    {l : Local} (hb : l.conn.snd.Bounded) (hused : l.conn.sndBufUsed = 0) :
    SndInv i (openSlot env now f lport i l).conn (openSlot env now f lport i l).log := by
  have hcap : cwndCap.toNat = 262144 := rfl
  have hmss := (synMss f).isLt
  refine ⟨?_, ?_⟩
  · simp only [openSlot, tcpRtxSave, tcpRtxArm_snd]
    refine ⟨hb.head, hb.used, ?_, BitVec.le_refl _⟩
    simp only [Conn.snd, synConn, BitVec.le_def, BitVec.toNat_setWidth]
    omega
  · simp only [openSlot, tcpRtxSave, tcpRtxArm_snd, tcpRtxArm_state]
    refine ⟨?_, hused⟩
    simp only [Conn.snd, synConn]
    bv_omega

/-! ## Timeouts -/

/-- A retransmission timeout only moves the congestion state, or gives the connection up. -/
theorem tcpRetransmitCb_inv {env : Env} {now : Tick} {i : Slot} {l : Local}
    (h : SndInv i l.conn l.log) :
    SndInv i (tcpRetransmitCb env now i l).conn (tcpRetransmitCb env now i l).log := by
  have hk : l.conn.snd.Keeps (rtxBackoff env l.conn).snd :=
    ⟨rfl, rfl, rfl, rfl, rfl, rfl, rfl, Or.inl rfl,
      fun hc _ => ⟨mss_le_cap l.conn, halved_le hc⟩⟩
  unfold tcpRetransmitCb
  split
  · exact h
  · split
    · exact h.keeps ⟨rfl, rfl, rfl, rfl, rfl, rfl, rfl, Or.inr rfl, fun hc hs => ⟨hc, hs⟩⟩
        (Or.inl rfl) (fun _ => rfl)
    · dsimp only
      split
      · split
        · exact h.keeps hk (Or.inr rfl) (fun _ => rfl)
        · refine h.keeps ?_ (Or.inr ?_) (fun p => ?_)
          · rw [tcpRtxArm_snd]
            exact hk
          · rw [tcpRtxArm_state]
            rfl
          · rw [tcpRtxArm_log]
            rfl
      · exact h.keeps hk (Or.inr rfl) (fun _ => rfl)

theorem tcpPersistCb_inv {env : Env} {now : Tick} {i : Slot} {l : Local}
    (h : SndInv i l.conn l.log) :
    SndInv i (tcpPersistCb env now i l).conn (tcpPersistCb env now i l).log := by
  unfold tcpPersistCb
  split
  · rw [tcpPersistArm_conn, tcpPersistArm_log]
    exact h.keeps (.of_eq rfl) (Or.inr rfl) (fun _ => rfl)
  · exact h

/-! ## Segments -/

theorem settle_snd (now : Tick) (old : TcpState) (l : Local) (r : HRes) :
    (settle now old l r).conn.snd = l.conn.snd ∧ (settle now old l r).log = l.log := by
  cases r <;> exact ⟨rfl, rfl⟩

theorem synrcvdAck_inv {env : Env} {now : Tick} {i : Slot} {f : Frame} {l l' : Local}
    {r : HRes} (h : SndInv i l.conn l.log) (hst : l.conn.state = .synRcvd)
    (hc : tcpSynrcvdAckHandler env f (l.withState .established) = (l', r)) :
    SndInv i (settle now .synRcvd l' r).conn (settle now .synRcvd l' r).log := by
  unfold tcpSynrcvdAckHandler at hc
  split at hc
  · cases hc
    obtain ⟨hb, hcoup⟩ := h
    rw [hst] at hcoup
    have hused : l.conn.sndBufUsed = 0 := hcoup.2
    refine ⟨⟨hb.head, hb.used, hb.cwnd, hb.ssthresh⟩, ?_, ?_, rfl⟩
    · show l.conn.sndNxt - l.conn.sndNxt = l.conn.sndBufUsed
      rw [hused]
      bv_omega
    · intro k hk
      have hk' : k < l.conn.sndBufUsed.toNat := hk
      rw [hused] at hk'
      simp at hk'
  · cases hc
    have hsame : (settle now .synRcvd ((l.withState .established).withState .synRcvd)
        .rst).conn = l.conn := by
      show ({ l.conn with state := .synRcvd } : Conn) = l.conn
      rw [← hst]
    rw [hsame]
    exact h

theorem estabAck_inv {env : Env} {now : Tick} {i : Slot} {f : Frame} {l l' : Local}
    {r : HRes} (h : SndInv i l.conn l.log) (hst : l.conn.state = .established)
    (hc : tcpEstabAckHandler env now i f (l.withState .established) = some (l', r)) :
    SndInv i (settle now .established l' r).conn (settle now .established l' r).log := by
  obtain ⟨hb, hcoup⟩ := h
  rw [hst] at hcoup
  have hs := tcpEstabAckHandler_state hc
  obtain ⟨m, hmlog, hmb, hmc, hmk, hres⟩ :=
    tcpEstabAckHandler_coupled (l := l.withState .established) hb hcoup hc
  obtain ⟨hsnd, hlog⟩ := settle_snd now .established l' r
  have hstate : (settle now .established l' r).conn.state = .established := by
    obtain h | h := settle_state now .established l' r
    · exact h
    · rw [h, hs]
      rfl
  refine ⟨by rw [hsnd]; exact hmk.bounded hmb, ?_⟩
  rw [hsnd, hstate, hlog]
  refine Snd.coupled_congr (fun p => ?_) (hmk.coupled hmc)
  rw [hres.firstSent env now i p, hmlog]

/-! ## Every act -/

/-- **Every act on slot `i` keeps the invariant**, if it opens only over an empty ring. -/
theorem SlotAct.sndInv {env : Env} {t : Tcp} {e : Event} {i : Slot} {l l' : Local}
    (hclean : opensClean env i t e) (hl : l.conn = t.conn i) (_ : l.log = t.log)
    (ha : SlotAct env t e i l l') (h : SndInv i l.conn l.log) :
    SndInv i l'.conn l'.log := by
  cases ha with
  | @recv f evt next hd l₁ r hrx hmatch hcls hrst htab hcall =>
      rw [← hl] at htab ⊢
      by_cases h₁ : hd = .synrcvdAck
      · subst h₁
        obtain ⟨hs, rfl⟩ := tcpFsaTable_synrcvdAck htab
        rw [hs]
        exact synrcvdAck_inv h hs (Option.some.inj hcall)
      · by_cases h₂ : hd = .estabAck
        · subst h₂
          obtain ⟨hs, rfl⟩ := tcpFsaTable_estabAck htab
          rw [hs]
          exact estabAck_inv h hs hcall
        · obtain ⟨hk, hlog₁⟩ := Handler.call_keeps hcall h₂ h₁
          obtain ⟨hsnd, hslog⟩ := settle_snd e.now l.conn.state l₁ r
          refine h.keeps ?_ (recv_sndPhase htab h₁ hcall) (fun p => ?_)
          · rw [hsnd]
            exact hk
          · rw [hslog, hlog₁]
            rfl
  | @opened f listener l₀ hrx hmatch hlisten hcls halloc =>
      have hk := allocSlot_snd halloc
      have hopens : t.opens env e = some i := by
        simp [Tcp.opens, hrx, hmatch, hlisten, hcls, halloc]
      have hb : (t.conn i).snd.Bounded := by
        rw [← hl]
        exact h.1
      have hused : l₀.conn.sndBufUsed = 0 := hk.used.trans (hclean hopens)
      exact openSlot_inv (hk.bounded hb) hused
  | touched => exact h.keeps (.of_eq rfl) (Or.inr rfl) (fun _ => rfl)
  | sent _ => exact tcpSend_inv h
  | closed _ => exact tcpClose_inv h
  | @consumed n _ =>
      unfold tcpRxConsume
      dsimp only
      split
      · exact h.keeps (.of_eq rfl) (Or.inr rfl) (fun _ => rfl)
      · exact h.keeps (.of_eq rfl) (Or.inr rfl) (fun _ => rfl)
  | flushed _ => exact h.keeps (.of_eq rfl) (Or.inr rfl) (fun _ => rfl)
  | tornDown _ => exact h.keeps (tcpRtxClear_keeps env l) (Or.inl rfl) (fun _ => rfl)
  | retransmit _ _ => exact tcpRetransmitCb_inv h
  | timewait _ _ => exact h.keeps (.of_eq rfl) (Or.inl rfl) (fun _ => rfl)
  | persist _ _ => exact tcpPersistCb_inv h
  | listening _ _ => exact h.keeps (.of_eq rfl) (Or.inl rfl) (fun _ => rfl)

theorem sndInv_init (cap : PoolCap) (i : Slot) : SndInv i ((tcpInit cap).conn i) (tcpInit cap).log := by
  have hb : ({} : Conn).snd.Bounded := ⟨rfl, by decide, by decide, by decide⟩
  exact ⟨hb, trivial⟩

/-- **The invariant holds in every state of every such run.** -/
theorem sndInv_run {env : Env} {cap : PoolCap} {i : Slot} {t : Tcp}
    (h : Run (step env) (opensClean env i) (tcpInit cap) t) : SndInv i (t.conn i) t.log :=
  slot_run h (sndInv_ownLog i) SlotAct.sndInv (sndInv_init cap i)

/-! ## The coupling on established connections -/

/-- Sequence numbers, ring and history of slot `i`'s connection agree. -/
structure SndBufCoupled (i : Slot) (c : Conn) (log : List Obs) : Prop where
  inFlight : c.sndNxt - c.sndUna = c.sndBufUsed
  bound : c.sndBufUsed.toNat ≤ tcpSndbufSize
  ring : ((c.sndBufHead : Int) - c.sndBufTail) % tcpSndbufSize
    = (c.sndBufUsed.toNat : Int) % tcpSndbufSize
  bytes : ∀ k, k < c.sndBufUsed.toNat → firstSent i (c.sndUna + BitVec.ofNat 32 k) log
    = some (.data (c.sndbuf ((c.sndBufTail + k) % tcpSndbufSize)))

/-- **Send ring and sequence numbers.**  In every state of every run that opens slot `i`
only over an empty ring, an ESTABLISHED connection in slot `i` is coupled. -/
theorem sndbuf_coupled {env : Env} {cap : PoolCap} {i : Slot} {t : Tcp}
    (h : Run (step env) (opensClean env i) (tcpInit cap) t)
    (hst : (t.conn i).state = .established) : SndBufCoupled i (t.conn i) t.log := by
  obtain ⟨hb, hc⟩ := sndInv_run h
  rw [hst] at hc
  obtain ⟨hfl, hring, _⟩ := hc
  have hhead := hb.head
  simp only [Conn.snd, tcpSndbufSize] at hhead
  refine ⟨hfl, hb.used, ?_, hring⟩
  simp only [tcpSndbufSize]
  omega

instance decOpensClean (env : Env) (i : Slot) (t : Tcp) (e : Event) :
    Decidable (opensClean env i t e) := inferInstanceAs (Decidable (_ → _))

/-! A peer at port 1000 and the server at port 80. -/

def demoEnv : Env := ⟨1000, 7, 2, 0, true, true⟩

def demoSyn : Frame :=
  { ipSrc := 9, ipDst := 7, sport := 1000, dport := rev16 80, seq := 100, flags := tcpSyn,
    window := 1000 }

/-- The ISN the server answers `demoSyn` with at counter value 1. -/
def demoIsn : W := tcpIsn demoEnv 1 (rev16 80) 1000 7 9

def demoAck (n : W) : Frame :=
  { demoSyn with seq := 101, ack := demoIsn + 1 + n, flags := tcpAckFlag }

def demoRst : Frame := { demoSyn with seq := 101, flags := tcpRst }

/-- Listen, and take one connection into slot 1. -/
def demoOpen : List Event :=
  [⟨1, .listen 80⟩, ⟨1, .rx demoSyn⟩, ⟨1, .rx (demoAck 0)⟩]

theorem sndbuf_coupled_demo : ∃ t : Tcp, Run (step demoEnv) (opensClean demoEnv 1)
    (tcpInit 16) t ∧ (t.conn 1).sndBufUsed = 1 ∧ SndBufCoupled 1 (t.conn 1) t.log := by
  obtain ⟨t, hrun, hst, hused⟩ := exists_run (step demoEnv)
    (opensClean demoEnv 1) (tcpInit 16)
    (Q := fun t => (t.conn 1).state = .established ∧ (t.conn 1).sndBufUsed = 1)
    (demoOpen ++ [⟨1, .send 1 [65, 66]⟩, ⟨1, .rx (demoAck 1)⟩])
    (by decide +kernel) (by decide +kernel)
  exact ⟨t, hrun, hused, sndbuf_coupled hrun hst⟩

/-- The connection is reset with one byte in flight, and the peer connects again: the new
connection has nothing in flight and a ring that says one byte is pending. -/
theorem sndbuf_stale_after_reset : ∃ t : Tcp, Run (step demoEnv) anyEvent (tcpInit 16) t ∧
    (t.conn 1).state = .established ∧ ¬ SndBufCoupled 1 (t.conn 1) t.log := by
  obtain ⟨t, hrun, hst, hne⟩ := exists_run (step demoEnv) anyEvent
    (tcpInit 16)
    (Q := fun t => (t.conn 1).state = .established ∧
      (t.conn 1).sndNxt - (t.conn 1).sndUna ≠ (t.conn 1).sndBufUsed)
    (demoOpen ++ [⟨1, .send 1 [65]⟩, ⟨1, .rx demoRst⟩, ⟨1, .rx demoSyn⟩,
      ⟨1, .rx (demoAck 0)⟩])
    (by decide +kernel) (by decide +kernel)
  exact ⟨t, hrun, hst, fun h => hne h.inFlight⟩

end WsPi5

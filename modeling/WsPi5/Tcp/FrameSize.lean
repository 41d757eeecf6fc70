/-
# `WsPi5.Tcp.FrameSize` — how long the frames of a connection get

`tcp_send`, `tcp_sndbuf_build_frame` and `tcp_sndbuf_build_frame_at` write into transmit
buffers of 1514 bytes.  The payload they put behind a header of 54 bytes, or 66 with
timestamps, is bounded by `PEER_MSS` alone, and `PEER_MSS` is whatever 16-bit value the peer
put into its SYN.

**Proved here** (`frames_fit_iff`), for every SYN and every state in which it opens a slot:
all frames these three functions ever build for that connection fit, in every continuation,
*exactly when* the segment size taken from the SYN, plus 12 if it carried timestamps, is at
most 1460.

The direction from left to right constructs the offending run: the peer completes the
handshake, opens its window, and the application sends one full segment.
-/
import WsPi5.Tcp.SendBuf

namespace WsPi5

open Lib

/-! ## Lengths -/

/-- The timestamps option takes 12 bytes, if it was negotiated. -/
def tsOverhead (enabled : Bool) : Nat := if enabled then 12 else 0

theorem tsOpts_length (c : Conn) (now : Tick) : (c.tsOpts now).length = tsOverhead c.tsEnabled := by
  unfold Conn.tsOpts tsOverhead
  split
  · simp [tsOption, beBytes]
  · rfl

theorem synOpts_length (c : Conn) : c.synOpts.length ≤ 12 := by
  unfold Conn.synOpts
  split <;> simp

theorem tcpBuildFrame_len (env : Env) (now : Tick) (c : Conn) (seq : W) (flags : BitVec 8)
    (p : List Byte) (h : flags &&& tcpSyn = 0) :
    (tcpBuildFrame env now c seq flags p).len = 54 + tsOverhead c.tsEnabled + p.length := by
  have hts := tsOpts_length c now
  simp only [Frame.len, tcpBuildFrame, h]
  simp [hts]

theorem buildFrameAt_len {env : Env} {now : Tick} {c : Conn} {off : W} {g : Frame}
    (h : tcpSndbufBuildFrameAt env now c off = some g) :
    g.len ≤ 54 + tsOverhead c.tsEnabled + c.peerMss.toNat := by
  unfold tcpSndbufBuildFrameAt at h
  split at h
  · cases h
  · cases h
    have hmss : c.mss.toNat = c.peerMss.toNat := by
      have := c.peerMss.isLt
      simp only [Conn.mss, BitVec.toNat_setWidth]
      omega
    rw [tcpBuildFrame_len _ _ _ _ _ _ rfl]
    simp only [Conn.ringRead, List.length_map, List.length_range]
    split
    · rename_i hlt
      have : (c.inFlight - off).toNat < c.mss.toNat := hlt
      omega
    · omega

theorem synAckFrame_len (env : Env) (now : Tick) (f : Frame) (lport : BitVec 16) (isn : W)
    (c : Conn) : (synAckFrame env now f lport isn c).len ≤ 78 := by
  have hsyn := synOpts_length (synConn now f lport isn c)
  have hts := tsOpts_length (synConn now f lport isn c) now
  have htsb : tsOverhead (synConn now f lport isn c).tsEnabled ≤ 12 := by
    unfold tsOverhead
    split <;> omega
  simp only [synAckFrame, Frame.len, tcpBuildFrame, List.length_append, List.length_nil]
  split
  · omega
  · simp only [List.length_nil]
    omega

/-! ## The frames of the present connection -/

/-- The frames that the three builders made for the connection now in slot `i`. -/
def connFrames (i : Slot) : List Obs → List Frame
  | [] => []
  | .opened j _ _ :: log => if j = i then [] else connFrames i log
  | .accepted j g :: log | .resent j g :: log =>
      if j = i then g :: connFrames i log else connFrames i log
  | .finSent _ _ :: log | .probed _ _ :: log | .consumed _ _ :: log => connFrames i log

def FramesFit (i : Slot) (log : List Obs) : Prop := ∀ g ∈ connFrames i log, g.len ≤ ethFrameMax

instance decFramesFit (i : Slot) (log : List Obs) : Decidable (FramesFit i log) :=
  inferInstanceAs (Decidable (∀ g ∈ connFrames i log, _))

theorem framesFit_cons {i : Slot} {g : Frame} {log : List Obs} (hg : g.len ≤ ethFrameMax)
    (h : FramesFit i log) : ∀ x ∈ g :: connFrames i log, x.len ≤ ethFrameMax := by
  intro x hx
  obtain rfl | hx := List.mem_cons.mp hx
  · exact hg
  · exact h x hx

/-- The invariant while the connection lives: its parameters are those of its SYN. -/
structure SizeInv (i : Slot) (m : BitVec 16) (ts : Bool) (c : Conn) (log : List Obs) :
    Prop where
  mss : c.peerMss = m
  ts : c.tsEnabled = ts
  saved : c.rtxbuf.len ≤ ethFrameMax
  frames : FramesFit i log

theorem sizeInv_ownLog (i : Slot) (m : BitVec 16) (ts : Bool) : OwnLog i (SizeInv i m ts) := by
  intro c o log ho
  have hsame : connFrames i (o :: log) = connFrames i log := by
    cases o <;> simp_all [connFrames, Obs.slot]
  constructor
  · exact fun h => ⟨h.mss, h.ts, h.saved, by simpa only [FramesFit, hsame] using h.frames⟩
  · exact fun h => ⟨h.mss, h.ts, h.saved, by simpa only [FramesFit, hsame] using h.frames⟩

theorem SizeInv.same {i : Slot} {m : BitVec 16} {ts : Bool} {c c' : Conn}
    {log log' : List Obs} (h : SizeInv i m ts c log)
    (hcfg : c'.cfg = { c.cfg with state := c'.state })
    (hlog : connFrames i log' = connFrames i log) : SizeInv i m ts c' log' where
  mss := (congrArg Cfg.peerMss hcfg).trans h.mss
  ts := (congrArg Cfg.tsEnabled hcfg).trans h.ts
  saved := by
    have hbuf : c'.rtxbuf = c.rtxbuf := congrArg Cfg.rtxbuf hcfg
    rw [hbuf]
    exact h.saved
  frames := by simpa only [FramesFit, hlog] using h.frames

theorem SizeInv.send {i : Slot} {m : BitVec 16} {ts : Bool} {c c' : Conn} {g : Frame}
    {log log' : List Obs} (h : SizeInv i m ts c log)
    (hcfg : c'.cfg = { c.cfg with state := c'.state })
    (hlog : connFrames i log' = g :: connFrames i log) (hg : g.len ≤ ethFrameMax) :
    SizeInv i m ts c' log' where
  mss := (congrArg Cfg.peerMss hcfg).trans h.mss
  ts := (congrArg Cfg.tsEnabled hcfg).trans h.ts
  saved := by
    have hbuf : c'.rtxbuf = c.rtxbuf := congrArg Cfg.rtxbuf hcfg
    rw [hbuf]
    exact h.saved
  frames := by
    intro x hx
    rw [hlog] at hx
    exact framesFit_cons hg h.frames x hx

/-! ## Every act -/

/-- The condition on the SYN. -/
def SegmentFits (m : BitVec 16) (ts : Bool) : Prop := m.toNat + tsOverhead ts ≤ tcpOurMss

theorem SizeInv.fits {i : Slot} {m : BitVec 16} {ts : Bool} {c : Conn} {log : List Obs}
    (h : SizeInv i m ts c log) (hfit : SegmentFits m ts) {n : Nat}
    (hn : n ≤ 54 + tsOverhead c.tsEnabled + c.peerMss.toNat) : n ≤ ethFrameMax := by
  rw [h.ts, h.mss] at hn
  unfold SegmentFits tcpOurMss at hfit
  unfold ethFrameMax
  omega

theorem settle_cfg (now : Tick) (old : TcpState) (l : Local) (r : HRes) :
    (settle now old l r).conn.cfg
      = { l.conn.cfg with state := (settle now old l r).conn.state } := by
  cases r <;> rfl

theorem tcpEstabAckHandler_size {env : Env} {now : Tick} {i : Slot} {f : Frame}
    {m : BitVec 16} {ts : Bool} {l l' : Local} {r : HRes} (hfit : SegmentFits m ts)
    (h : SizeInv i m ts l.conn l.log)
    (hc : tcpEstabAckHandler env now i f l = some (l', r)) :
    SizeInv i m ts l'.conn l'.log := by
  have hcfg := tcpEstabAckHandler_cfg hc
  have hcfg' : l'.conn.cfg = { l.conn.cfg with state := l'.conn.state } := by
    have hst : l'.conn.state = l.conn.state := congrArg Cfg.state hcfg
    rw [hcfg, hst]
    rfl
  unfold tcpEstabAckHandler at hc
  dsimp only at hc
  split at hc
  · cases hc
    exact h.same hcfg' (by simp)
  · obtain hsame | ⟨c, off, g, hlog, hg, _, hcc⟩ := eakData_resends env now i f hc
    · exact h.same hcfg' (by simp [hsame])
    · refine h.send hcfg' (g := g) (by simp [hlog, connFrames]) ?_
      have hlen := buildFrameAt_len hg
      rw [eakAck_cfg, eakWindow_cfg] at hcc
      have hts : c.tsEnabled = l.conn.tsEnabled := congrArg Cfg.tsEnabled hcc
      have hm : c.peerMss = l.conn.peerMss := congrArg Cfg.peerMss hcc
      rw [hts, hm] at hlen
      exact h.fits hfit hlen

theorem tcpRetransmitCb_size {env : Env} {now : Tick} {i : Slot} {m : BitVec 16} {ts : Bool}
    {l : Local} (hfit : SegmentFits m ts) (h : SizeInv i m ts l.conn l.log) :
    SizeInv i m ts (tcpRetransmitCb env now i l).conn (tcpRetransmitCb env now i l).log := by
  unfold tcpRetransmitCb
  split
  · exact h
  · split
    · exact h.same rfl rfl
    · dsimp only
      split
      · split
        · exact h.same rfl rfl
        · rename_i g hg
          refine h.send (g := g) ?_ ?_ ?_
          · rw [tcpRtxArm_cfg, tcpRtxArm_state]
            rfl
          · rw [tcpRtxArm_log]
            simp [connFrames]
          · unfold rtxFrame at hg
            split at hg
            · rename_i g' hg'
              cases hg
              rw [tcpSndbufBuildFrame_eq_at] at hg'
              exact h.fits hfit (buildFrameAt_len hg')
            · split at hg
              · cases hg
              · cases hg
                exact h.saved
      · exact h.same rfl rfl

theorem tcpSend_size {env : Env} {now : Tick} {i : Slot} {m : BitVec 16} {ts : Bool}
    {p : List Byte} {l : Local} (hfit : SegmentFits m ts) (h : SizeInv i m ts l.conn l.log) :
    SizeInv i m ts (tcpSend env now i p l).1.conn (tcpSend env now i p l).1.log := by
  unfold tcpSend
  split
  · rename_i hacc
    obtain ⟨_, _, hlen, _, _⟩ := tcpSendAccepts_spec hacc
    refine h.send (g := tcpSendFrame env now l.conn p) ?_ ?_ ?_
    · simp only [tcpSendAccept, tcpRtxArm_cfg, tcpRtxArm_state]
      rfl
    · simp [connFrames]
    · apply h.fits hfit
      have hmss : l.conn.mss.toNat ≤ l.conn.peerMss.toNat := by
        simp only [Conn.mss, BitVec.toNat_setWidth]
        exact Nat.mod_le _ _
      rw [tcpSendFrame, tcpBuildFrame_len _ _ _ _ _ _ rfl]
      omega
  · exact h

theorem tcpClose_size {env : Env} {now : Tick} {i : Slot} {m : BitVec 16} {ts : Bool}
    {l : Local} (hfit : SegmentFits m ts) (h : SizeInv i m ts l.conn l.log) :
    SizeInv i m ts (tcpClose env now i l).1.conn (tcpClose env now i l).1.log := by
  unfold tcpClose
  dsimp only
  split
  · exact h
  · refine ⟨?_, ?_, ?_, ?_⟩
    · exact (congrArg Cfg.peerMss (tcpRtxSave_cfg ..)).trans h.mss
    · exact (congrArg Cfg.tsEnabled (tcpRtxSave_cfg ..)).trans h.ts
    · have hbuf : ∀ (g : Frame) (l₀ : Local), (tcpRtxSave env now i g l₀).conn.rtxbuf = g :=
        fun g l₀ => congrArg Cfg.rtxbuf (tcpRtxSave_cfg env now i g l₀)
      rw [hbuf]
      apply h.fits hfit
      rw [tcpBuildFrame_len _ _ _ _ _ _ rfl]
      simp only [List.length_nil]
      omega
    · rw [tcpRtxSave_log]
      exact h.frames

/-- **Every act but opening keeps the bound.** -/
theorem SlotAct.sizeInv {env : Env} {t : Tcp} {e : Event} {i : Slot} {m : BitVec 16}
    {ts : Bool} {l l' : Local} (hfit : SegmentFits m ts) (hno : t.opens env e ≠ some i)
    (ha : SlotAct env t e i l l') (h : SizeInv i m ts l.conn l.log) :
    SizeInv i m ts l'.conn l'.log := by
  cases ha with
  | @recv f evt next hd l₁ r hrx hmatch hcls hrst htab hcall =>
      have hstart : SizeInv i m ts (l.withState next).conn (l.withState next).log :=
        h.same rfl rfl
      have hl₁ : SizeInv i m ts l₁.conn l₁.log := by
        by_cases h₂ : hd = .estabAck
        · subst h₂
          exact tcpEstabAckHandler_size hfit hstart hcall
        · have hlog : l₁.log = l.log := by
            by_cases h₁ : hd = .synrcvdAck
            · subst h₁
              simp only [Handler.call, tcpSynrcvdAckHandler] at hcall
              split at hcall <;> cases hcall <;> rfl
            · exact (Handler.call_keeps hcall h₂ h₁).2
          exact hstart.same (Handler.call_cfg hcall) (by rw [hlog]; rfl)
      exact hl₁.same (settle_cfg e.now (t.conn i).state l₁ r)
        (by rw [(settle_snd e.now (t.conn i).state l₁ r).2])
  | opened hrx hmatch hlisten hcls halloc =>
      exact absurd (by simp [Tcp.opens, hrx, hmatch, hlisten, hcls, halloc]) hno
  | touched => exact h.same rfl rfl
  | sent _ => exact tcpSend_size hfit h
  | closed _ => exact tcpClose_size hfit h
  | @consumed n _ =>
      unfold tcpRxConsume
      dsimp only
      split
      · exact h.same rfl rfl
      · exact h.same rfl rfl
  | flushed _ => exact h.same rfl rfl
  | tornDown _ => exact h.same rfl rfl
  | retransmit _ _ => exact tcpRetransmitCb_size hfit h
  | timewait _ _ => exact h.same rfl rfl
  | persist _ _ =>
      unfold tcpPersistCb
      split
      · rw [tcpPersistArm_conn, tcpPersistArm_log]
        exact h.same rfl rfl
      · exact h
  | listening _ _ =>
      exact ⟨h.mss, h.ts, h.saved, h.frames⟩

theorem openSlot_size (env : Env) (now : Tick) (f : Frame) (lport : BitVec 16) (i : Slot)
    (l : Local) : SizeInv i (synMss f) (tcpParseTsopt f.opts).isSome
      (openSlot env now f lport i l).conn (openSlot env now f lport i l).log := by
  have hcfg : (openSlot env now f lport i l).conn.cfg
      = { (synConn now f lport 0 l.conn).cfg with
          rtxbuf := synAckFrame env now f lport
            (tcpIsn env now lport f.sport f.ipDst f.ipSrc) l.conn } := by
    simp only [openSlot, tcpRtxSave, tcpRtxArm_cfg]
    rfl
  refine ⟨congrArg Cfg.peerMss hcfg, congrArg Cfg.tsEnabled hcfg, ?_, ?_⟩
  · have hbuf := congrArg Cfg.rtxbuf hcfg
    simp only [Conn.cfg] at hbuf
    have hlen := synAckFrame_len env now f lport
      (tcpIsn env now lport f.sport f.ipDst f.ipSrc) l.conn
    rw [hbuf]
    unfold ethFrameMax
    omega
  · simp [FramesFit, connFrames]

/-! ## The run that fills a frame

The peer acknowledges our SYN with a window of 65535 and repeats the segment; the first copy
completes the handshake, the second opens the window.  Then one full segment is sent. -/

/-- The peer's ACK, with its largest window. -/
def peerAck (f : Frame) (ack : W) : Frame :=
  { ipSrc := f.ipSrc, sport := f.sport, dport := f.dport, ack := ack, flags := tcpAckFlag,
    window := 65535 }

theorem peerAck_evt (f : Frame) (ack : W) : tcpClassifyEvent (peerAck f ack) = some .ack := by
  have hflags : (peerAck f ack).flags = tcpAckFlag := rfl
  simp only [tcpClassifyEvent, Frame.has, hflags]
  decide

/-- The connection as the peer's ACK finds and leaves it. -/
structure OpenFor (f : Frame) (i : Slot) (t : Tcp) (s : TcpState) : Prop where
  state : (t.conn i).state = s
  mss : (t.conn i).peerMss = synMss f
  ts : (t.conn i).tsEnabled = (tcpParseTsopt f.opts).isSome
  wscale : (t.conn i).sndWscale ≤ 14
  cwnd : (t.conn i).cwnd = (synMss f).setWidth 32
  mine : (t.conn i).matches f.dport f.sport f.ipSrc = true
  other : ∀ j, j ≠ i → (t.conn j).matches f.dport f.sport f.ipSrc = false

theorem OpenFor.exactMatch {f : Frame} {i : Slot} {t : Tcp} {s : TcpState}
    (h : OpenFor f i t s) (ack : W) : t.exactMatch (peerAck f ack) = some i :=
  exactMatch_of_unique h.mine h.other

theorem opens_openFor {env : Env} {t t' : Tcp} {now : Tick} {f : Frame} {i : Slot}
    (hopen : t.opens env ⟨now, .rx f⟩ = some i) (h : step env t ⟨now, .rx f⟩ = some t') :
    OpenFor f i t' .synRcvd := by
  obtain ⟨l₀, _, hconn, _, hother⟩ := opens_step hopen h
  have hcfg : (t'.conn i).cfg = { (synConn now f f.dport 0 l₀.conn).cfg with
      rtxbuf := synAckFrame env now f f.dport
        (tcpIsn env now f.dport f.sport f.ipDst f.ipSrc) l₀.conn } := by
    rw [hconn]
    simp only [openSlot, tcpRtxSave, tcpRtxArm_cfg]
    rfl
  have hsnd : (t'.conn i).snd.cwnd = (synMss f).setWidth 32 := by
    rw [hconn]
    simp only [openSlot, tcpRtxSave, tcpRtxArm_snd]
    rfl
  refine ⟨congrArg Cfg.state hcfg, congrArg Cfg.peerMss hcfg, congrArg Cfg.tsEnabled hcfg,
    ?_, hsnd, ?_, hother⟩
  · have hws : (t'.conn i).sndWscale = (tcpParseWscale f.opts).getD 0 :=
      congrArg Cfg.sndWscale hcfg
    rw [hws]
    unfold tcpParseWscale
    split
    · exact Nat.min_le_right _ _
    · exact Nat.zero_le _
  · have hst : (t'.conn i).state = .synRcvd := congrArg Cfg.state hcfg
    have hlp : (t'.conn i).lport = f.dport := congrArg Cfg.lport hcfg
    have hrp : (t'.conn i).rport = f.sport := congrArg Cfg.rport hcfg
    have hip : (t'.conn i).rip = f.ipSrc := congrArg Cfg.rip hcfg
    simp [Conn.matches, hst, hlp, hrp, hip]

theorem OpenFor.after {f : Frame} {i : Slot} {t : Tcp} {s : TcpState} {l : Local}
    (h : OpenFor f i t s) (hst : l.conn.state = .established)
    (hcfg : l.conn.cfg = { (t.conn i).cfg with state := l.conn.state })
    (hcwnd : l.conn.cwnd = (t.conn i).cwnd) : OpenFor f i (t.put i l) .established := by
  have hmine := h.mine
  simp only [Conn.matches, Bool.and_eq_true, decide_eq_true_eq] at hmine
  have hlp : l.conn.lport = (t.conn i).lport := congrArg Cfg.lport hcfg
  have hrp : l.conn.rport = (t.conn i).rport := congrArg Cfg.rport hcfg
  have hip : l.conn.rip = (t.conn i).rip := congrArg Cfg.rip hcfg
  have hws : l.conn.sndWscale = (t.conn i).sndWscale := congrArg Cfg.sndWscale hcfg
  refine ⟨by simp [hst], ?_, ?_, ?_, ?_, ?_, ?_⟩
  · rw [Tcp.put_conn_self]
    exact (congrArg Cfg.peerMss hcfg).trans h.mss
  · rw [Tcp.put_conn_self]
    exact (congrArg Cfg.tsEnabled hcfg).trans h.ts
  · rw [Tcp.put_conn_self, hws]
    exact h.wscale
  · rw [Tcp.put_conn_self, hcwnd]
    exact h.cwnd
  · simp [Conn.matches, hst, hlp, hrp, hip, hmine.1.1.2, hmine.1.2, hmine.2]
  · intro j hj
    rw [Tcp.put_conn_of_ne _ _ _ hj]
    exact h.other j hj

theorem handshake_step (env : Env) {t : Tcp} {f : Frame} {i : Slot} (now : Tick)
    (h : OpenFor f i t .synRcvd) :
    ∃ t', step env t ⟨now, .rx (peerAck f (t.conn i).sndNxt)⟩ = some t' ∧
      OpenFor f i t' .established ∧ (t'.conn i).sndUna = (t'.conn i).sndNxt ∧
      (t'.conn i).sndNxt = (t.conn i).sndNxt ∧ t'.log = t.log := by
  have hcall : Handler.call env now i (peerAck f (t.conn i).sndNxt)
      ((t.at i).withState .established) .synrcvdAck
      = some (tcpRtxClear env { (t.at i).withState .established with
          conn := { ((t.at i).withState .established).conn with
            sndUna := (t.conn i).sndNxt } }, .quiet) := by
    exact congrArg some (if_pos rfl)
  refine ⟨_, step_quiet (h.exactMatch _) (peerAck_evt f _) (by decide)
    (by rw [h.state]; rfl) hcall, ?_, ?_, ?_, rfl⟩
  · exact h.after rfl rfl rfl
  · rw [Tcp.put_conn_self]
    rfl
  · rw [Tcp.put_conn_self]
    rfl

theorem peerAck_window (f : Frame) (ack : W) {c : Conn} (h : c.sndWscale ≤ 14) :
    65535 ≤ (scaledWindow (peerAck f ack) c).toNat := by
  have hlow : 1 ≤ 2 ^ c.sndWscale := Nat.one_le_two_pow
  have hhigh : 2 ^ c.sndWscale ≤ 2 ^ 14 := Nat.pow_le_pow_right (by decide) h
  have hmod : c.sndWscale % 32 = c.sndWscale := Nat.mod_eq_of_lt (by omega)
  have hwin : (peerAck f ack).window = 65535 := rfl
  simp only [scaledWindow, hwin, hmod, BitVec.toNat_shiftLeft, Nat.shiftLeft_eq]
  have hval : ((65535 : BitVec 16).setWidth 32).toNat = 65535 := rfl
  have hmost : 65535 * 2 ^ c.sndWscale ≤ 65535 * 2 ^ 14 := Nat.mul_le_mul_left _ hhigh
  have hleast : 65535 * 1 ≤ 65535 * 2 ^ c.sndWscale := Nat.mul_le_mul_left _ hlow
  rw [hval, Nat.mod_eq_of_lt (by omega)]
  omega

theorem window_step (env : Env) {t : Tcp} {f : Frame} {i : Slot} (now : Tick)
    (h : OpenFor f i t .established) (hall : (t.conn i).sndUna = (t.conn i).sndNxt) :
    ∃ t', step env t ⟨now, .rx (peerAck f (t.conn i).sndNxt)⟩ = some t' ∧
      OpenFor f i t' .established ∧ (t'.conn i).sndUna = (t'.conn i).sndNxt ∧
      65535 ≤ (t'.conn i).sndWnd.toNat ∧ t'.log = t.log := by
  have hwin := peerAck_window f (t.conn i).sndNxt h.wscale
  have hne : scaledWindow (peerAck f (t.conn i).sndNxt) (t.conn i) ≠ 0 := by
    intro heq
    rw [heq] at hwin
    exact absurd hwin (by decide)
  have hcall : Handler.call env now i (peerAck f (t.conn i).sndNxt)
      ((t.at i).withState .established) .estabAck
      = some ({ (t.at i).withState .established with
          conn := { ((t.at i).withState .established).conn with
            sndWnd := scaledWindow (peerAck f (t.conn i).sndNxt) (t.conn i)
            persistShift := 0 } }, .quiet) := by
    have hw : eakWindow env now i (peerAck f (t.conn i).sndNxt)
        ((t.at i).withState .established)
        = { (t.at i).withState .established with
          conn := { ((t.at i).withState .established).conn with
            sndWnd := scaledWindow (peerAck f (t.conn i).sndNxt) (t.conn i)
            persistShift := 0 } } := by
      unfold eakWindow
      exact if_neg hne
    have hadv : ∀ c : Conn, c.sndUna = (t.conn i).sndNxt →
        ackAdvances (peerAck f (t.conn i).sndNxt) c = false := by
      intro c hc
      simp [ackAdvances, peerAck, hc]
    have hts : ∀ c : Conn, segTs (peerAck f (t.conn i).sndNxt) c = none := by
      intro c
      unfold segTs
      split
      · rfl
      · rfl
    have hpaws : ∀ c : Conn, pawsFails (peerAck f (t.conn i).sndNxt) c = false := by
      intro c
      simp only [pawsFails, hts]
    have hcommit : ∀ c : Conn, commitTs (peerAck f (t.conn i).sndNxt) c = c := by
      intro c
      simp only [commitTs, hts]
    have hpay : (peerAck f (t.conn i).sndNxt).payload = [] := rfl
    simp only [Handler.call, tcpEstabAckHandler, hw]
    unfold eakAck
    rw [hadv _ (by simpa [Local.withState] using hall)]
    simp [hpaws, eakData, eakPureAck, hcommit, hpay, Local.withState, hall]
  refine ⟨_, step_quiet (h.exactMatch _) (peerAck_evt f _) (by decide)
    (by rw [h.state]; rfl) hcall, ?_, ?_, ?_, rfl⟩
  · exact h.after rfl (by simp only [Conn.cfg, Local.stamp, Local.withState, Tcp.at_conn]) rfl
  · rw [Tcp.put_conn_self]
    exact hall
  · rw [Tcp.put_conn_self]
    exact hwin

theorem synMss_pos (f : Frame) : 0 < (synMss f).toNat := by
  unfold synMss
  split
  · decide
  · rename_i h
    have hne : (tcpParseMss f.opts).toNat ≠ 0 := fun heq => h (BitVec.eq_of_toNat_eq heq)
    omega

/-- A full segment is accepted, and its frame is as long as header and segment are. -/
theorem full_send_step (env : Env) {t : Tcp} {f : Frame} {i : Slot} (now : Tick)
    (h : OpenFor f i t .established) (hall : (t.conn i).sndUna = (t.conn i).sndNxt)
    (hwnd : 65535 ≤ (t.conn i).sndWnd.toNat) :
    ∃ t' g, step env t ⟨now, .send i (List.replicate (synMss f).toNat 0)⟩ = some t' ∧
      t'.log = .accepted i g :: t.log ∧
      g.len = 54 + tsOverhead (tcpParseTsopt f.opts).isSome + (synMss f).toNat := by
  have hlt := (synMss f).isLt
  have hpos := synMss_pos f
  have hmss : (t.conn i).mss.toNat = (synMss f).toNat := by
    simp only [Conn.mss, h.mss, BitVec.toNat_setWidth]
    omega
  have hcw : (t.conn i).cwnd.toNat = (synMss f).toNat := by
    rw [h.cwnd, BitVec.toNat_setWidth]
    omega
  have hfl : (t.conn i).inFlight = 0 := by
    simp [Conn.inFlight, hall]
  have hwin : (t.conn i).window.toNat = (synMss f).toNat := by
    unfold Conn.window
    split
    · rename_i hlt'
      have : (t.conn i).sndWnd.toNat < (t.conn i).cwnd.toNat := hlt'
      omega
    · exact hcw
  have hacc : tcpSendAccepts (t.conn i) (List.replicate (synMss f).toNat (0 : Byte)).length
      = true := by
    have hroom : ¬ (t.conn i).window ≤ 0 := by
      intro hle
      have : (t.conn i).window.toNat ≤ 0 := hle
      omega
    simp only [tcpSendAccepts, hfl, Bool.and_eq_true, decide_eq_true_eq, Bool.not_eq_true',
      decide_eq_false_iff_not, List.length_replicate, h.state]
    refine ⟨⟨⟨⟨trivial, by omega⟩, by omega⟩, hroom⟩, ?_⟩
    have hz : (t.conn i).window - 0 = (t.conn i).window := by simp
    rw [hz]
    omega
  refine ⟨_, tcpSendFrame env now (t.conn i) (List.replicate (synMss f).toNat 0), rfl, ?_, ?_⟩
  · simp only [Tcp.put_log]
    unfold tcpSend
    rw [Tcp.at_conn, if_pos hacc]
    simp
  · rw [tcpSendFrame, tcpBuildFrame_len _ _ _ _ _ _ rfl, h.ts, List.length_replicate]

/-! ## The result -/

/-- **Frame sizes.**  A SYN `f` has just opened slot `i`.  In every continuation that does
not open the slot again all frames of the connection fit the transmit buffers if and only
if the segment size of the SYN, plus 12 with timestamps, is at most 1460. -/
theorem frames_fit_iff {env : Env} {t₀ t₁ : Tcp} {now : Tick} {f : Frame} {i : Slot}
    (hopen : t₀.opens env ⟨now, .rx f⟩ = some i)
    (hstep : step env t₀ ⟨now, .rx f⟩ = some t₁) :
    (∀ t, Run (step env) (fun t e => t.opens env e ≠ some i) t₁ t → FramesFit i t.log) ↔
      (synMss f).toNat + (if (tcpParseTsopt f.opts).isSome then 12 else 0) ≤ 1460 := by
  constructor
  · intro hall
    have hopenFor := opens_openFor hopen hstep
    obtain ⟨t₂, h₂, ho₂, ha₂, _, hl₂⟩ := handshake_step env now hopenFor
    obtain ⟨t₃, h₃, ho₃, ha₃, hw₃, hl₃⟩ := window_step env now ho₂ ha₂
    obtain ⟨t₄, g, h₄, hl₄, hlen⟩ := full_send_step env now ho₃ ha₃ hw₃
    -- none of the three steps opens a slot: the ACK finds its connection
    have hno : ∀ {t s a}, OpenFor f i t s →
        t.opens env ⟨now, .rx (peerAck f a)⟩ ≠ some i := by
      intro t s a ho
      simp [Tcp.opens, ho.exactMatch a]
    have hno₃ : t₃.opens env ⟨now, .send i (List.replicate (synMss f).toNat 0)⟩ ≠ some i := by
      simp [Tcp.opens]
    let ok : Tcp → Event → Prop := fun t e => t.opens env e ≠ some i
    have hrun₂ : Run (step env) ok t₁ t₂ := .single (hno hopenFor) h₂
    have hrun₃ : Run (step env) ok t₁ t₃ := hrun₂.trans (.single (hno ho₂) h₃)
    have hrun : Run (step env) ok t₁ t₄ := hrun₃.trans (Run.single hno₃ h₄)
    have hfit := hall t₄ hrun g (by rw [hl₄]; simp [connFrames])
    rw [hlen] at hfit
    unfold ethFrameMax tsOverhead at hfit
    omega
  · intro hfit t hrun
    obtain ⟨l₀, _, hconn, hlog, _⟩ := opens_step hopen hstep
    have hseg : SegmentFits (synMss f) (tcpParseTsopt f.opts).isSome := hfit
    have hstart : SizeInv i (synMss f) (tcpParseTsopt f.opts).isSome (t₁.conn i) t₁.log := by
      rw [hconn, hlog]
      exact openSlot_size env now f f.dport i l₀
    exact (slot_run hrun (sizeInv_ownLog i _ _)
      (fun hok _ _ ha h => ha.sizeInv hseg hok h) hstart).frames

/-- A SYN without options: segments of 536 bytes, and every frame fits. -/
theorem frames_fit_demo : ∃ t₀ t₁ : Tcp, t₀.opens demoEnv ⟨1, .rx demoSyn⟩ = some 1 ∧
    step demoEnv t₀ ⟨1, .rx demoSyn⟩ = some t₁ ∧
    ∀ t, Run (step demoEnv) (fun t e => t.opens demoEnv e ≠ some 1) t₁ t →
      FramesFit 1 t.log := by
  have hopen : (tcpListen 80 (tcpInit 16)).opens demoEnv ⟨1, .rx demoSyn⟩ = some 1 := by
    decide +kernel
  have hfit : (synMss demoSyn).toNat + (if (tcpParseTsopt demoSyn.opts).isSome then 12 else 0)
      ≤ 1460 := by decide +kernel
  exact ⟨_, _, hopen, rfl, (frames_fit_iff hopen rfl).mpr hfit⟩

/-- A SYN with a segment size of 1460 and timestamps. -/
def bigSyn : Frame :=
  { demoSyn with opts := [2, 4, 5, 180, 1, 1, 8, 10, 0, 0, 0, 1, 0, 0, 0, 0] }

/-- After that SYN, `tcp_send` builds a frame of 1526 bytes. -/
theorem frame_exceeds_buffer : ∃ t : Tcp, Run (step demoEnv) anyEvent (tcpInit 16) t ∧
    ¬ FramesFit 1 t.log := by
  refine exists_run (step demoEnv) anyEvent (tcpInit 16)
    [⟨1, .listen 80⟩, ⟨1, .rx bigSyn⟩, ⟨1, .rx (peerAck bigSyn (demoIsn + 1))⟩,
      ⟨1, .rx (peerAck bigSyn (demoIsn + 1))⟩, ⟨1, .send 1 (List.replicate 1460 0)⟩]
    (by decide +kernel) ?_
  exact ⟨_, rfl, by decide +kernel⟩

end WsPi5

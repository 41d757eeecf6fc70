/-
# `WsPi5.Tcp.States` — what a segment can change in the record, and who writes `TCONN_STATE`

The ports, addresses and negotiated options (`Cfg`) are written when the connection is opened
and not again; the handlers change only the state among them (`Handler.call_cfg`).

The dispatcher writes the table's next state before it calls the handler; some handlers
write over it (`Handler.altState`), and on `-1` the dispatcher puts the old state back.
Everything else that the handlers call leaves the state alone.  So what a segment can do to
the state is read off the table and `altState` (`Handler.call_state`, `settle_state`).
-/
import WsPi5.Tcp.Acts

namespace WsPi5

open Lib

/-! ## What is fixed when the connection is opened -/

/-- The state, and the fields that only the SYN handler (and, for `rtxbuf`, `tcp_close`)
writes. -/
structure Cfg where
  state : TcpState
  lport : BitVec 16
  rport : BitVec 16
  rip : BitVec 32
  rmac : BitVec 48
  peerMss : BitVec 16
  tsEnabled : Bool
  sndWscale : Nat
  rcvWscale : Byte
  sackEnabled : Bool
  rtxbuf : Frame

def Conn.cfg (c : Conn) : Cfg where
  state := c.state
  lport := c.lport
  rport := c.rport
  rip := c.rip
  rmac := c.rmac
  peerMss := c.peerMss
  tsEnabled := c.tsEnabled
  sndWscale := c.sndWscale
  rcvWscale := c.rcvWscale
  sackEnabled := c.sackEnabled
  rtxbuf := c.rtxbuf

section
variable (env : Env) (now : Tick) (i : Slot) (f : Frame)

@[simp] theorem tcpRtxArm_cfg (l : Local) : (tcpRtxArm env now i l).conn.cfg = l.conn.cfg := by
  unfold tcpRtxArm
  split <;> rfl

theorem tcpRtxSave_cfg (l : Local) :
    (tcpRtxSave env now i f l).conn.cfg = { l.conn.cfg with rtxbuf := f } := by
  rw [tcpRtxSave, tcpRtxArm_cfg]
  rfl

@[simp] theorem tcpRtxClear_cfg (l : Local) : (tcpRtxClear env l).conn.cfg = l.conn.cfg := rfl

@[simp] theorem tcpPersistArm_conn (l : Local) : (tcpPersistArm env now i l).conn = l.conn := by
  unfold tcpPersistArm
  split <;> rfl

@[simp] theorem startTimewait_cfg (l : Local) :
    (startTimewait env now i l).conn.cfg = l.conn.cfg := by
  unfold startTimewait
  split <;> rfl

@[simp] theorem commitTs_cfg (c : Conn) : (commitTs f c).cfg = c.cfg := by
  unfold commitTs
  split
  · split <;> rfl
  · rfl

theorem oooMerge_cfg : ∀ (n : Nat) (c : Conn), (oooMerge n c).cfg = c.cfg
  | 0, _ => rfl
  | n + 1, c => by
      unfold oooMerge
      split
      · rfl
      · exact oooMerge_cfg n _

@[simp] theorem acceptData_cfg (c : Conn) : (acceptData f c).cfg = c.cfg := oooMerge_cfg _ _

@[simp] theorem eakWindow_cfg (l : Local) :
    (eakWindow env now i f l).conn.cfg = l.conn.cfg := by
  unfold eakWindow
  dsimp only
  split
  · split
    · rw [tcpPersistArm_conn]
      rfl
    · rfl
  · rfl

theorem eakRtt_cfg (c : Conn) : (eakRtt env now c).cfg = c.cfg := by
  unfold eakRtt tcpRttUpdate
  split
  · dsimp only
    split <;> rfl
  · rfl

theorem eakCwnd_cfg (c : Conn) : (eakCwnd f c).cfg = c.cfg := by
  unfold eakCwnd
  split <;> rfl

@[simp] theorem eakAck_cfg (l : Local) : (eakAck env now f l).conn.cfg = l.conn.cfg := by
  have hcfg : (eakCwnd f (eakRtt env now (eakAdvance f l.conn))).cfg = l.conn.cfg := by
    rw [eakCwnd_cfg, eakRtt_cfg]
    rfl
  unfold eakAck
  split
  · dsimp only
    split
    · exact hcfg
    · exact hcfg
  · rfl

theorem tcpFastRetransmit_cfg {l l' : Local} (h : tcpFastRetransmit env now i f l = some l') :
    l'.conn.cfg = l.conn.cfg := by
  unfold tcpFastRetransmit at h
  dsimp only at h
  split at h
  · obtain ⟨off, _, hoff⟩ := Option.map_eq_some_iff.mp h
    split at hoff
    · subst hoff
      rfl
    · subst hoff
      rw [tcpRtxArm_cfg]
      rfl
  · cases h
    rfl

theorem eakPureAck_cfg {l l' : Local} (h : eakPureAck env now i f l = some l') :
    l'.conn.cfg = l.conn.cfg := by
  have hts := commitTs_cfg f l.conn
  unfold eakPureAck at h
  dsimp only at h
  split at h
  · split at h
    · cases h
      exact hts
    · split at h
      · cases h
        exact hts
      · exact (tcpFastRetransmit_cfg env now i f h).trans hts
  · cases h
    exact hts

theorem eakData_cfg {l l' : Local} {r : HRes} (h : eakData env now i f l = some (l', r)) :
    l'.conn.cfg = l.conn.cfg := by
  unfold eakData at h
  dsimp only at h
  split at h
  · obtain ⟨m, hm, hmr⟩ := Option.map_eq_some_iff.mp h
    cases hmr
    exact eakPureAck_cfg env now i f hm
  · split at h
    · split at h
      · cases h
        simp
      · obtain ⟨m, hm, hmr⟩ := Option.map_eq_some_iff.mp h
        cases hmr
        exact (eakPureAck_cfg env now i f hm).trans (commitTs_cfg f l.conn)
    · split at h
      · cases h
        rfl
      · cases h
        rfl

end

/-- The ACK handler changes nothing of the kind, not even the state. -/
theorem tcpEstabAckHandler_cfg {env : Env} {now : Tick} {i : Slot} {f : Frame}
    {l l' : Local} {r : HRes} (h : tcpEstabAckHandler env now i f l = some (l', r)) :
    l'.conn.cfg = l.conn.cfg := by
  unfold tcpEstabAckHandler at h
  dsimp only at h
  split at h
  · cases h
    rw [eakAck_cfg, eakWindow_cfg]
  · rw [eakData_cfg env now i f h, eakAck_cfg, eakWindow_cfg]

theorem Handler.call_cfg {env : Env} {now : Tick} {i : Slot} {f : Frame} {h : Handler}
    {l l' : Local} {r : HRes} (hc : h.call env now i f l = some (l', r)) :
    l'.conn.cfg = { l.conn.cfg with state := l'.conn.state } := by
  have same : ∀ {l₁ : Local}, l₁.conn.cfg = l.conn.cfg →
      l₁.conn.cfg = { l.conn.cfg with state := l₁.conn.state } := by
    intro l₁ heq
    have hst : l₁.conn.state = l.conn.state := congrArg Cfg.state heq
    rw [heq, hst]
    rfl
  have closing : ∀ (stay : TcpState) (acked : Local → Local),
      (acked l).conn.cfg = l.conn.cfg →
      some (WsPi5.closingAck f stay acked l) = some (l', r) →
      l'.conn.cfg = { l.conn.cfg with state := l'.conn.state } := by
    intro stay acked hacked heq
    unfold WsPi5.closingAck at heq
    split at heq
    · cases heq
      rfl
    · split at heq
      · cases heq
        exact same hacked
      · cases heq
        rfl
  cases h with
  | connClose | drop =>
      cases hc
      rfl
  | synrcvdAck =>
      simp only [Handler.call, tcpSynrcvdAckHandler] at hc
      split at hc <;> cases hc <;> rfl
  | estabAck => exact same (tcpEstabAckHandler_cfg hc)
  | estabFin =>
      cases hc
      dsimp only
      split
      · rfl
      · split <;> rfl
  | lastackAck => exact closing _ _ (tcpRtxClear_cfg env l) hc
  | finwait1Ack => exact closing _ _ (tcpRtxClear_cfg env l) hc
  | finwait1Fin =>
      simp only [Handler.call, tcpFinwait1FinHandler] at hc
      split at hc <;> cases hc <;> rfl
  | finwait2Fin =>
      cases hc
      exact same (by rw [startTimewait_cfg]; rfl)
  | timewaitFin =>
      cases hc
      exact same (by rw [startTimewait_cfg])
  | closingAck => exact closing _ _ (startTimewait_cfg env now i l) hc

section
variable (env : Env) (now : Tick) (i : Slot)

@[simp] theorem tcpRtxArm_state (l : Local) :
    (tcpRtxArm env now i l).conn.state = l.conn.state :=
  congrArg Cfg.state (tcpRtxArm_cfg env now i l)

@[simp] theorem startTimewait_state (l : Local) :
    (startTimewait env now i l).conn.state = l.conn.state :=
  congrArg Cfg.state (startTimewait_cfg env now i l)

theorem tcpSendAccept_state (p : List Byte) (l : Local) :
    (tcpSendAccept env now i p l).conn.state = l.conn.state := by
  rw [tcpSendAccept, tcpRtxArm_state]

end

theorem tcpEstabAckHandler_state {env : Env} {now : Tick} {i : Slot} {f : Frame}
    {l l' : Local} {r : HRes} (h : tcpEstabAckHandler env now i f l = some (l', r)) :
    l'.conn.state = l.conn.state :=
  congrArg Cfg.state (tcpEstabAckHandler_cfg h)

/-! ## The handlers -/

/-- The state after one of the three closing handlers: the one the dispatcher wrote, or the
one it came from. -/
theorem closingAck_state (f : Frame) (stay : TcpState) {acked : Local → Local} {l : Local}
    (h : (acked l).conn.state = l.conn.state) :
    (closingAck f stay acked l).1.conn.state = l.conn.state ∨
      (closingAck f stay acked l).1.conn.state = stay := by
  unfold closingAck
  split
  · exact Or.inr rfl
  · split
    · exact Or.inl h
    · exact Or.inr rfl

/-- The state a handler may write over the one the dispatcher wrote. -/
def Handler.altState : Handler → Option TcpState
  | .synrcvdAck => some .synRcvd
  | .estabFin => some .established
  | .lastackAck => some .lastAck
  | .finwait1Ack => some .finWait1
  | .finwait1Fin => some .timeWait
  | .closingAck => some .closing
  | _ => none

theorem Handler.call_state {env : Env} {now : Tick} {i : Slot} {f : Frame} {h : Handler}
    {l l' : Local} {r : HRes} (hc : h.call env now i f l = some (l', r)) :
    l'.conn.state = l.conn.state ∨ h.altState = some l'.conn.state := by
  have closing : ∀ (stay : TcpState) (acked : Local → Local),
      (acked l).conn.state = l.conn.state → h.altState = some stay →
      some (WsPi5.closingAck f stay acked l) = some (l', r) →
      l'.conn.state = l.conn.state ∨ h.altState = some l'.conn.state := by
    intro stay acked hacked hstay heq
    have hl' : (WsPi5.closingAck f stay acked l).1 = l' :=
      congrArg Prod.fst (Option.some.inj heq)
    rw [← hl', hstay]
    obtain h | h := closingAck_state f stay hacked
    · exact Or.inl h
    · exact Or.inr (by rw [h])
  cases h with
  | connClose | drop =>
      cases hc
      exact Or.inl rfl
  | synrcvdAck =>
      simp only [Handler.call, tcpSynrcvdAckHandler] at hc
      split at hc
      · cases hc
        exact Or.inl rfl
      · cases hc
        exact Or.inr rfl
  | estabAck =>
      exact Or.inl (tcpEstabAckHandler_state hc)
  | estabFin =>
      cases hc
      dsimp only
      split
      · exact Or.inl rfl
      · split
        · exact Or.inl rfl
        · exact Or.inr rfl
  | lastackAck => exact closing _ _ rfl rfl hc
  | finwait1Ack => exact closing _ _ rfl rfl hc
  | finwait1Fin =>
      simp only [Handler.call, tcpFinwait1FinHandler] at hc
      split at hc
      · cases hc
        exact Or.inr rfl
      · cases hc
        exact Or.inl rfl
  | finwait2Fin =>
      cases hc
      exact Or.inl (by simp)
  | timewaitFin =>
      cases hc
      exact Or.inl (by simp)
  | closingAck => exact closing _ _ (startTimewait_state env now i l) rfl hc

theorem settle_state (now : Tick) (old : TcpState) (l : Local) (r : HRes) :
    (settle now old l r).conn.state = old ∨
      (settle now old l r).conn.state = l.conn.state := by
  cases r with
  | rst => exact Or.inl rfl
  | quiet | reply _ => exact Or.inr rfl

/-! ## Rows of the table -/

theorem tcpFsaTable_estabAck {s next : TcpState} {evt : TcpEvt}
    (h : tcpFsaTable s evt = some (next, .estabAck)) : s = .established ∧ next = .established := by
  cases s <;> cases evt <;> simp_all [tcpFsaTable]

theorem tcpFsaTable_synrcvdAck {s next : TcpState} {evt : TcpEvt}
    (h : tcpFsaTable s evt = some (next, .synrcvdAck)) : s = .synRcvd ∧ next = .established := by
  cases s <;> cases evt <;> simp_all [tcpFsaTable]

end WsPi5

/-
# `WsPi5.Tcp.PoolUse` — which timers the module arms

The module shares its pool with others.  Whatever it does, it arms its own callbacks only, and
a 2MSL timer only while a segment for that connection is handled.  Here this is said once, for
every operation and then for a step (`step_arms`), as a fact about the entries that can be new:
`Arms A p p'`.  What may be cancelled is not restricted here.
-/
import WsPi5.Tcp.Acts

namespace WsPi5

open Lib

/-- `A` allows every callback but, perhaps, 2MSL timers. -/
def AllButTimewait (A : Callback → Prop) : Prop :=
  ∀ cb, (∀ j, cb ≠ .tcpTimewaitCb j) → A cb

section
variable {A : Callback → Prop} {env : Env} {now : Tick} {j : Slot} {p q : Pool} {l l' : Local}
  {f : Frame} {t t' : Tcp}

/-! ## The operations -/

theorem Arms.rtxArm (hA : AllButTimewait A) (h : Arms A p l.pool) (env : Env) (now : Tick) (j : Slot) :
    Arms A p (tcpRtxArm env now j l).pool := by
  unfold tcpRtxArm
  split
  · exact h.set _ (hA _ (by simp))
  · exact h

theorem Arms.cancelNamed (h : Arms A p q) (env : Env) (k : Option Nat) :
    Arms A p (match k with
      | some k => if env.hasPool then timerCancel q k else q
      | none => q) := by
  split
  · split
    · exact h.cancel _
    · exact h
  · exact h

theorem Arms.rtxClear (h : Arms A p l.pool) (env : Env) :
    Arms A p (tcpRtxClear env l).pool :=
  h.cancelNamed env l.conn.timerSlot

theorem Arms.persistArm (hA : AllButTimewait A) (h : Arms A p l.pool) (env : Env) (now : Tick) (j : Slot) :
    Arms A p (tcpPersistArm env now j l).pool := by
  unfold tcpPersistArm
  split
  · exact h.set _ (hA _ (by simp))
  · exact h

theorem Arms.timewait (h : Arms A p q) (htw : A (.tcpTimewaitCb j)) (env : Env) (now : Tick) :
    Arms A p (armTimewait env now j q).1 :=
  h.set _ htw

theorem Arms.startTimewait (h : Arms A p l.pool) (htw : A (.tcpTimewaitCb j)) (env : Env)
    (now : Tick) : Arms A p (startTimewait env now j l).pool := by
  unfold WsPi5.startTimewait
  split
  · exact h.timewait htw env now
  · exact h

theorem Arms.send (hA : AllButTimewait A) (h : Arms A p l.pool) (env : Env) (now : Tick) (j : Slot)
    (payload : List Byte) : Arms A p (tcpSend env now j payload l).1.pool := by
  unfold tcpSend
  split
  · unfold tcpSendAccept
    apply Arms.rtxArm hA
    exact h
  · exact h

theorem Arms.close (hA : AllButTimewait A) (h : Arms A p l.pool) (env : Env) (now : Tick) (j : Slot) :
    Arms A p (tcpClose env now j l).1.pool := by
  unfold tcpClose
  dsimp only
  split
  · exact h
  · unfold tcpRtxSave
    apply Arms.rtxArm hA
    exact h

theorem Arms.consume (h : Arms A p l.pool) (j : Slot) (n : Nat) :
    Arms A p (tcpRxConsume j n l).pool := by
  unfold tcpRxConsume
  dsimp only
  split <;> exact h

/-! ## The handlers -/

theorem Arms.estabAck (hA : AllButTimewait A) (h : Arms A p l.pool) {r : HRes}
    (hc : tcpEstabAckHandler env now j f l = some (l', r)) : Arms A p l'.pool := by
  have hwin : Arms A p (eakWindow env now j f l).pool := by
    unfold eakWindow
    dsimp only
    split
    · split
      · apply Arms.persistArm hA
        exact h
      · exact h
    · exact h
  have hack : Arms A p (eakAck env now f (eakWindow env now j f l)).pool := by
    unfold eakAck
    split
    · dsimp only
      split
      · apply Arms.rtxClear
        exact hwin
      · exact hwin
    · exact hwin
  -- a retransmission arms a timer, everything else leaves the pool alone
  have hfast : ∀ {m m' : Local}, Arms A p m.pool →
      tcpFastRetransmit env now j f m = some m' → Arms A p m'.pool := by
    intro m m' hm hf
    unfold tcpFastRetransmit at hf
    dsimp only at hf
    split at hf
    · obtain ⟨off, _, rfl⟩ := Option.map_eq_some_iff.mp hf
      split
      · exact hm
      · apply Arms.rtxArm hA
        exact hm
    · cases hf
      exact hm
  have hpure : ∀ {m m' : Local}, Arms A p m.pool →
      eakPureAck env now j f m = some m' → Arms A p m'.pool := by
    intro m m' hm hp
    unfold eakPureAck at hp
    dsimp only at hp
    split at hp
    · split at hp
      · cases hp
        exact hm
      split at hp
      · cases hp
        exact hm
      · refine hfast ?_ hp
        exact hm
    · cases hp
      exact hm
  unfold tcpEstabAckHandler at hc
  dsimp only at hc
  split at hc
  · cases hc
    exact hack
  · unfold eakData at hc
    dsimp only at hc
    split at hc
    · obtain ⟨m, hm, heq⟩ := Option.map_eq_some_iff.mp hc
      cases heq
      exact hpure hack hm
    split at hc
    · split at hc
      · cases hc
        exact hack
      · obtain ⟨m, hm, heq⟩ := Option.map_eq_some_iff.mp hc
        cases heq
        refine hpure ?_ hm
        exact hack
    split at hc
    · cases hc
      exact hack
    · cases hc
      exact hack

theorem Arms.closingAck (h : Arms A p l.pool) {stay : TcpState} {acked : Local → Local}
    (ha : Arms A p (acked l).pool) : Arms A p (closingAck f stay acked l).1.pool := by
  unfold WsPi5.closingAck
  split
  · exact h
  split
  · exact ha
  · exact h

theorem Arms.call_plain (hA : AllButTimewait A) (h : Arms A p l.pool) {hd : Handler} {r : HRes}
    (hplain : hd = .synrcvdAck ∨ hd = .estabAck ∨ hd = .estabFin ∨ hd = .lastackAck ∨
      hd = .finwait1Ack) (hc : hd.call env now j f l = some (l', r)) : Arms A p l'.pool := by
  rcases hplain with rfl | rfl | rfl | rfl | rfl
  · have hl : (tcpSynrcvdAckHandler env f l).1 = l' := congrArg Prod.fst (Option.some.inj hc)
    rw [← hl]
    unfold tcpSynrcvdAckHandler
    split
    · apply Arms.rtxClear
      exact h
    · exact h
  · exact Arms.estabAck hA h hc
  · cases hc
    exact h
  · have hl : (tcpLastackAckHandler env f l).1 = l' := congrArg Prod.fst (Option.some.inj hc)
    exact hl ▸ Arms.closingAck h (h.rtxClear env)
  · have hl : (tcpFinwait1AckHandler env f l).1 = l' := congrArg Prod.fst (Option.some.inj hc)
    exact hl ▸ Arms.closingAck h (h.rtxClear env)

theorem Arms.call (hA : AllButTimewait A) (h : Arms A p l.pool) (htw : A (.tcpTimewaitCb j))
    {hd : Handler} {r : HRes} (hc : hd.call env now j f l = some (l', r)) :
    Arms A p l'.pool := by
  cases hd with
  | synrcvdAck | estabAck | estabFin | lastackAck | finwait1Ack =>
      exact Arms.call_plain hA h (by simp) hc
  | connClose =>
      cases hc
      exact h.rtxClear env
  | drop =>
      cases hc
      exact h
  | closingAck =>
      have hl : (tcpClosingAckHandler env now j f l).1 = l' :=
        congrArg Prod.fst (Option.some.inj hc)
      exact hl ▸ Arms.closingAck h (h.startTimewait htw env now)
  | finwait1Fin =>
      have hl : (tcpFinwait1FinHandler env now j f l).1 = l' :=
        congrArg Prod.fst (Option.some.inj hc)
      rw [← hl]
      unfold tcpFinwait1FinHandler
      dsimp only
      split
      · dsimp only
        split
        · exact h.timewait htw env now
        · exact h
      · exact h
  | finwait2Fin =>
      cases hc
      refine Arms.startTimewait ?_ htw env now
      exact h
  | timewaitFin =>
      cases hc
      refine Arms.startTimewait ?_ htw env now
      exact h.cancelNamed env l.conn.timerSlot

/-! ## A step -/

theorem Arms.noConn (h : Arms A p t.pool) (env : Env) (now : Tick) (f : Frame) :
    Arms A p (t.noConn env now f).1.pool := by
  rw [(noConn_conn env now f t).2.1]
  exact h

theorem Arms.dispatch (hA : AllButTimewait A) (h : Arms A p t.pool) (htw : A (.tcpTimewaitCb j)) {evt : TcpEvt}
    {r : Option Frame} (hc : t.dispatch env now j evt f = some (t', r)) :
    Arms A p t'.pool := by
  unfold Tcp.dispatch at hc
  split at hc
  · have ht : (t.noConn env now f).1 = t' := congrArg Prod.fst (Option.some.inj hc)
    exact ht ▸ h.noConn env now f
  · rename_i next hd _
    obtain ⟨⟨l₁, res⟩, hcall, hres⟩ := Option.map_eq_some_iff.mp hc
    have hl : Arms A p l₁.pool := by
      refine Arms.call hA ?_ htw hcall
      exact h
    cases res with
    | reply g =>
        cases hres
        exact hl
    | quiet =>
        cases hres
        exact hl
    | rst =>
        have ht : _ = t' := congrArg Prod.fst hres
        rw [← ht]
        apply Arms.noConn
        exact hl

theorem Arms.handleConn (hA : AllButTimewait A) (h : Arms A p t.pool) (htw : A (.tcpTimewaitCb j)) {r : Option Frame}
    (hc : t.handleConn env now j f = some (t', r)) : Arms A p t'.pool := by
  unfold Tcp.handleConn at hc
  split at hc
  · have ht : (t.noConn env now f).1 = t' := congrArg Prod.fst (Option.some.inj hc)
    exact ht ▸ h.noConn env now f
  · split at hc
    · exact h.dispatch hA htw hc
    · cases hc
      exact h
    · cases hc
      exact h
  · exact h.dispatch hA htw hc

theorem Arms.alloc (h : Arms A p t.pool) {l : Local}
    (ha : t.allocSlot env = some (j, l)) : Arms A p l.pool := by
  unfold Tcp.allocSlot at ha
  split at ha
  · cases ha
    exact h
  · split at ha
    · cases ha
      refine Arms.rtxClear ?_ env
      exact h
    · cases ha

theorem Arms.handleListen (hA : AllButTimewait A) (h : Arms A p t.pool) (env : Env) (now : Tick) (j : Slot)
    (f : Frame) : Arms A p (t.handleListen env now j f).1.pool := by
  unfold Tcp.handleListen
  split
  · exact h
  · unfold tcpListenSynHandler
    cases halloc : t.allocSlot env with
    | none => exact h.noConn env now f
    | some a =>
        obtain ⟨k, l⟩ := a
        have hl := h.alloc halloc
        show Arms A p (openSlot env now f (t.conn j).lport k l).pool
        unfold openSlot tcpRtxSave
        apply Arms.rtxArm hA
        exact hl
  · exact h.noConn env now f

theorem Arms.tearDown (h : Arms A p t.pool) (env : Env) (j : Slot) :
    Arms A p (t.tearDown env j).pool := by
  show Arms A p (tcpRtxClear env (t.at j)).pool
  apply Arms.rtxClear
  exact h

theorem Arms.reap (env : Env) (now : Tick) : ∀ (js : List Slot) {t : Tcp},
    Arms A p t.pool → Arms A p (js.foldl (reapOne env now) t).pool
  | [], _, h => h
  | j :: js, t, h => by
      refine Arms.reap env now js ?_
      unfold reapOne
      split
      · exact h
      split
      · exact h.tearDown env j
      · exact h

theorem Arms.startReaper (hA : AllButTimewait A) (h : Arms A p t.pool) (env : Env) (now : Tick) :
    Arms A p (tcpStartReaper env now t).pool := by
  unfold tcpStartReaper
  split
  · exact h.set _ (hA _ (by simp))
  · exact h

theorem Arms.visit (hA : AllButTimewait A) (h : Arms A p t.pool) (env : Env) (now : Tick) (k : Nat) :
    Arms A p (timerVisit env now k t).pool := by
  unfold timerVisit
  split
  · exact h
  · rename_i entry _
    have hfree : Arms A p (t.freeEntry k).pool := h.free k
    obtain ⟨x, cb⟩ := entry
    cases cb with
    | tcpRetransmitCb j =>
        show Arms A p (tcpRetransmitCb env now j ((t.freeEntry k).at j)).pool
        unfold tcpRetransmitCb
        split
        · exact hfree
        split
        · exact hfree
        dsimp only
        split
        · split
          · exact hfree
          · apply Arms.rtxArm hA
            exact hfree
        · exact hfree
    | tcpTimewaitCb j => exact hfree
    | tcpPersistCb j =>
        show Arms A p (tcpPersistCb env now j ((t.freeEntry k).at j)).pool
        unfold tcpPersistCb
        split
        · apply Arms.persistArm hA
          exact hfree
        · exact hfree
    | tcpIdleReaperCb =>
        exact Arms.startReaper hA (Arms.reap env now slots hfree) env now
    | other id => exact hfree

/-- **A step arms only what `A` allows**, if `A` allows the 2MSL timer of the connection that a
frame is for. -/
theorem step_arms {e : Event} (hA : AllButTimewait A)
    (htw : ∀ f j, e.call = .rx f → t.exactMatch f = some j → A (.tcpTimewaitCb j))
    (hst : step env t e = some t') : Arms A t.pool t'.pool := by
  have h : Arms A t.pool t.pool := .refl A t.pool
  obtain ⟨now, call⟩ := e
  cases call with
  | rx f =>
      obtain ⟨⟨u, r⟩, hr, rfl⟩ := Option.map_eq_some_iff.mp hst
      unfold tcpHandle at hr
      split at hr
      · rename_i j hmatch
        exact h.handleConn hA (htw f j rfl hmatch) hr
      · split at hr
        · have hu := congrArg Prod.fst (Option.some.inj hr)
          exact hu ▸ h.handleListen hA env now _ f
        · have hu := congrArg Prod.fst (Option.some.inj hr)
          exact hu ▸ h.noConn env now f
  | icmpErr code lp rp rip =>
      cases hst
      unfold tcpIcmpErr
      split
      · exact h
      split
      · exact h.tearDown env _
      · exact h
  | visit k =>
      cases hst
      exact h.visit hA env now k
  | otherSet x id =>
      cases hst
      exact h.set x (hA _ (by simp))
  | otherCancel k =>
      cases hst
      exact h.cancel k
  | send j payload =>
      cases hst
      apply Arms.send hA
      exact h
  | close j =>
      cases hst
      apply Arms.close hA
      exact h
  | consume j n =>
      cases hst
      apply Arms.consume
      exact h
  | flush j =>
      cases hst
      exact h
  | listen port =>
      cases hst
      unfold tcpListen
      split <;> exact h
  | startReaper =>
      cases hst
      exact h.startReaper hA env now

end

/-! ## A segment for a connection -/

/-- **A segment for connection `i`** leaves its record and the pool alone, or one handler works
on them. -/
theorem rx_matched {env : Env} {now : Tick} {t t' : Tcp} {i : Slot} {f : Frame}
    (hmatch : t.exactMatch f = some i) (hst : step env t ⟨now, .rx f⟩ = some t') :
    (t'.conn = t.conn ∧ t'.pool = t.pool) ∨
    ∃ evt next h l r, tcpClassifyEvent f = some evt ∧
      tcpFsaTable (t.conn i).state evt = some (next, h) ∧
      h.call env now i f ((t.at i).withState next) = some (l, r) ∧
      t'.conn i = (settle now (t.conn i).state l r).conn ∧ t'.pool = l.pool := by
  have noConn : ∀ u : Tcp, (u.noConn env now f).1.conn = u.conn ∧
      (u.noConn env now f).1.pool = u.pool :=
    fun u => ⟨(noConn_conn env now f u).1, (noConn_conn env now f u).2.1⟩
  have dispatch : ∀ {evt r}, tcpClassifyEvent f = some evt →
      t.dispatch env now i evt f = some (t', r) → (t'.conn = t.conn ∧ t'.pool = t.pool) ∨
        ∃ evt next h l r, tcpClassifyEvent f = some evt ∧
          tcpFsaTable (t.conn i).state evt = some (next, h) ∧
          h.call env now i f ((t.at i).withState next) = some (l, r) ∧
          t'.conn i = (settle now (t.conn i).state l r).conn ∧ t'.pool = l.pool := by
    intro evt r hcls hc
    unfold Tcp.dispatch at hc
    split at hc
    · have ht : (t.noConn env now f).1 = t' := congrArg Prod.fst (Option.some.inj hc)
      exact .inl (ht ▸ noConn t)
    · rename_i next h htab
      obtain ⟨⟨l, res⟩, hcall, hres⟩ := Option.map_eq_some_iff.mp hc
      refine .inr ⟨evt, next, h, l, res, hcls, htab, hcall, ?_⟩
      cases res with
      | reply g =>
          cases hres
          exact ⟨by simp [Tcp.touch, settle], rfl⟩
      | quiet =>
          cases hres
          exact ⟨by simp [Tcp.touch, settle], rfl⟩
      | rst =>
          have ht : ((t.put i (l.withState (t.conn i).state)).noConn env now f).1 = t' :=
            congrArg Prod.fst hres
          rw [← ht, (noConn _).1, (noConn _).2]
          exact ⟨by simp [settle], rfl⟩
  obtain ⟨⟨u, r⟩, hr, rfl⟩ := Option.map_eq_some_iff.mp hst
  simp only [tcpHandle, hmatch] at hr
  unfold Tcp.handleConn at hr
  split at hr
  · have ht : (t.noConn env now f).1 = u := congrArg Prod.fst (Option.some.inj hr)
    exact .inl (ht ▸ noConn t)
  · rename_i hcls
    split at hr
    · exact dispatch hcls hr
    · cases hr
      exact .inl ⟨rfl, rfl⟩
    · cases hr
      exact .inl ⟨rfl, rfl⟩
  · rename_i hcls
    exact dispatch hcls hr

end WsPi5

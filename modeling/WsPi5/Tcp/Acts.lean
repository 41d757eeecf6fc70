/-
# `WsPi5.Tcp.Acts` — what one step can do to one connection

**The inversion lemma of the machine** (`step_slot`).  Whatever the call, a step either
leaves slot `i` alone (its record is unchanged and no new observation is about it) or does
exactly one of the things of `SlotAct` to it.  `SlotAct` carries the guards under which the
code does it: which frame matched, which table entry applied, which pool entry was due.

**The rule that invariants use** (`slot_invariant`).  A property of a slot's record and its
part of the log that every act keeps is kept by every step, whatever happens to the other
127 slots.
-/
import WsPi5.Tcp.Step

namespace WsPi5

open Lib

/-- The effect of the dispatcher after a handler: restore the state on `-1`, else note the
activity. -/
def settle (now : Tick) (old : TcpState) (l : Local) : HRes → Local
  | .rst => l.withState old
  | _ => l.stamp now

/-- The record of a connection, as opposed to a free or listening one. -/
def TcpState.live (s : TcpState) : Prop := s ≠ .closed ∧ s ≠ .listen

/-- `tcp_rtx_clear` and CLOSED, on the local view. -/
def tornDown (env : Env) (l : Local) : Local :=
  (tcpRtxClear env l).withState .closed

theorem tornDown_conn_congr {env : Env} {l l' : Local} (h : l.conn = l'.conn) :
    (tornDown env l).conn = (tornDown env l').conn := by
  simp only [tornDown, tcpRtxClear, Local.withState, h]

/-- The acts of a step `e` taken in state `t` on slot `i`, from its local view to the next. -/
inductive SlotAct (env : Env) (t : Tcp) (e : Event) (i : Slot) (l : Local) : Local → Prop where
  | recv {f : Frame} {evt : TcpEvt} {next : TcpState} {h : Handler} {l₁ : Local} {r : HRes}
      (hrx : e.call = .rx f) (hmatch : t.exactMatch f = some i)
      (hcls : tcpClassifyEvent f = some evt)
      (hrst : evt = .rst → rstCheck (t.conn i) f = .accept)
      (htab : tcpFsaTable (t.conn i).state evt = some (next, h))
      (hcall : h.call env e.now i f (l.withState next) = some (l₁, r)) :
      SlotAct env t e i l (settle e.now (t.conn i).state l₁ r)
  | opened {f : Frame} {listener : Slot} {l₀ : Local}
      (hrx : e.call = .rx f) (hmatch : t.exactMatch f = none)
      (hlisten : t.listenMatch f = some listener)
      (hcls : tcpClassifyEvent f = some .syn) (halloc : t.allocSlot env = some (i, l₀)) :
      SlotAct env t e i l (openSlot env e.now f (t.conn listener).lport i l₀)
  | touched : SlotAct env t e i l (l.stamp e.now)
  | sent {p : List Byte} (hcall : e.call = .send i p) :
      SlotAct env t e i l (tcpSend env e.now i p l).1
  | closed (hcall : e.call = .close i) : SlotAct env t e i l (tcpClose env e.now i l).1
  | consumed {n : Nat} (hcall : e.call = .consume i n) :
      SlotAct env t e i l (tcpRxConsume i n l)
  | flushed (hcall : e.call = .flush i) : SlotAct env t e i l (tcpRxFlush i l)
  | tornDown (hlive : (t.conn i).state.live)
      (hwhy : (∃ code lport rport rip, e.call = .icmpErr code lport rport rip) ∨
        idleLimit (t.conn i).state ≠ none) : SlotAct env t e i l (tornDown env l)
  | retransmit {k : Nat} {x : Tick} (hcall : e.call = .visit k)
      (hdue : timerDue t.pool e.now k = some ⟨x, .tcpRetransmitCb i⟩) :
      SlotAct env t e i l (tcpRetransmitCb env e.now i l)
  | timewait {k : Nat} {x : Tick} (hcall : e.call = .visit k)
      (hdue : timerDue t.pool e.now k = some ⟨x, .tcpTimewaitCb i⟩) :
      SlotAct env t e i l (tcpTimewaitCb l)
  | persist {k : Nat} {x : Tick} (hcall : e.call = .visit k)
      (hdue : timerDue t.pool e.now k = some ⟨x, .tcpPersistCb i⟩) :
      SlotAct env t e i l (tcpPersistCb env e.now i l)
  | listening {port : BitVec 16} (hcall : e.call = .listen port)
      (hclosed : (t.conn i).state = .closed) :
      SlotAct env t e i l { l with
        conn := { l.conn with state := .listen, lport := rev16 port } }

theorem matches_live {c : Conn} {lport rport : BitVec 16} {rip : BitVec 32}
    (h : c.matches lport rport rip = true) : c.state.live := by
  simp only [Conn.matches, Bool.and_eq_true, decide_eq_true_eq] at h
  exact ⟨h.1.1.1.1, h.1.1.1.2⟩

theorem exactMatch_live {t : Tcp} {f : Frame} {j : Slot} (h : t.exactMatch f = some j) :
    (t.conn j).state.live := by
  have := List.find?_some h
  exact matches_live this

/-- New observations, none of them about slot `i`. -/
def logGrowsBeside (i : Slot) (log log' : List Obs) : Prop :=
  ∃ os : List Obs, log' = os ++ log ∧ ∀ o ∈ os, o.slot ≠ i

theorem logGrowsBeside.refl (i : Slot) (log : List Obs) : logGrowsBeside i log log :=
  ⟨[], rfl, by simp⟩

/-- Slot `i` is left alone, or exactly one act is done to it. -/
def SlotOutcome (env : Env) (t : Tcp) (e : Event) (t' : Tcp) (i : Slot) : Prop :=
  (t'.conn i = t.conn i ∧ logGrowsBeside i t.log t'.log) ∨
  ∃ l l' : Local, l.conn = t.conn i ∧ l.log = t.log ∧ SlotAct env t e i l l' ∧
    t'.conn i = l'.conn ∧ logGrowsBeside i l'.log t'.log

/-! ## What the operations add to the log -/

@[simp] theorem tcpRtxArm_log (env : Env) (now : Tick) (i : Slot) (l : Local) :
    (tcpRtxArm env now i l).log = l.log := by
  unfold tcpRtxArm
  split <;> rfl

@[simp] theorem tcpRtxClear_log (env : Env) (l : Local) : (tcpRtxClear env l).log = l.log := rfl

@[simp] theorem tcpRtxSave_log (env : Env) (now : Tick) (i : Slot) (f : Frame) (l : Local) :
    (tcpRtxSave env now i f l).log = l.log := by
  simp [tcpRtxSave]

@[simp] theorem tcpPersistArm_log (env : Env) (now : Tick) (i : Slot) (l : Local) :
    (tcpPersistArm env now i l).log = l.log := by
  unfold tcpPersistArm
  split <;> rfl

@[simp] theorem startTimewait_log (env : Env) (now : Tick) (i : Slot) (l : Local) :
    (startTimewait env now i l).log = l.log := by
  unfold startTimewait
  split <;> rfl

@[simp] theorem eakWindow_log (env : Env) (now : Tick) (i : Slot) (f : Frame) (l : Local) :
    (eakWindow env now i f l).log = l.log := by
  unfold eakWindow
  dsimp only
  split
  · split <;> simp
  · rfl

@[simp] theorem eakAck_log (env : Env) (now : Tick) (f : Frame) (l : Local) :
    (eakAck env now f l).log = l.log := by
  unfold eakAck
  split
  · dsimp only
    split <;> rfl
  · rfl

@[simp] theorem tcpSendAccept_log (env : Env) (now : Tick) (i : Slot) (p : List Byte)
    (l : Local) : (tcpSendAccept env now i p l).log
      = .accepted i (tcpSendFrame env now l.conn p) :: l.log := by
  simp [tcpSendAccept]

@[simp] theorem openSlot_log (env : Env) (now : Tick) (f : Frame) (lport : BitVec 16)
    (j : Slot) (l : Local) : (openSlot env now f lport j l).log
      = .opened j f (synAckFrame env now f lport
          (tcpIsn env now lport f.sport f.ipDst f.ipSrc) l.conn) :: l.log := by
  simp [openSlot]

/-- New observations, all of them about slot `i`. -/
def logGrowsAt (i : Slot) (log log' : List Obs) : Prop :=
  ∃ os : List Obs, log' = os ++ log ∧ ∀ o ∈ os, o.slot = i

theorem logGrowsAt.of_eq {i : Slot} {log log' : List Obs} (h : log' = log) :
    logGrowsAt i log log' :=
  ⟨[], h, by simp⟩

theorem logGrowsAt.of_cons {i : Slot} {log log' : List Obs} {o : Obs}
    (h : log' = o :: log) (ho : o.slot = i) : logGrowsAt i log log' :=
  ⟨[o], h, by simpa using ho⟩

theorem tcpFastRetransmit_log {env : Env} {now : Tick} {i : Slot} {f : Frame} {l l' : Local}
    (h : tcpFastRetransmit env now i f l = some l') : logGrowsAt i l.log l'.log := by
  unfold tcpFastRetransmit at h
  dsimp only at h
  split at h
  · obtain ⟨off, _, hoff⟩ := Option.map_eq_some_iff.mp h
    split at hoff
    · subst hoff
      exact .of_eq rfl
    · rename_i g _
      subst hoff
      exact .of_cons (tcpRtxArm_log ..) rfl
  · cases h
    exact .of_eq rfl

theorem eakPureAck_log {env : Env} {now : Tick} {i : Slot} {f : Frame} {l l' : Local}
    (h : eakPureAck env now i f l = some l') : logGrowsAt i l.log l'.log := by
  unfold eakPureAck at h
  dsimp only at h
  split at h
  · split at h
    · cases h
      exact .of_eq rfl
    · split at h
      · cases h
        exact .of_eq rfl
      · have hgrow := tcpFastRetransmit_log h
        exact hgrow
  · cases h
    exact .of_eq rfl

theorem eakData_log {env : Env} {now : Tick} {i : Slot} {f : Frame} {l l' : Local} {r : HRes}
    (h : eakData env now i f l = some (l', r)) : logGrowsAt i l.log l'.log := by
  unfold eakData at h
  dsimp only at h
  split at h
  · obtain ⟨m, hm, hmr⟩ := Option.map_eq_some_iff.mp h
    cases hmr
    exact eakPureAck_log hm
  · split at h
    · split at h
      · cases h
        exact .of_eq rfl
      · obtain ⟨m, hm, hmr⟩ := Option.map_eq_some_iff.mp h
        cases hmr
        have hgrow := eakPureAck_log hm
        exact hgrow
    · split at h
      · cases h
        exact .of_eq rfl
      · cases h
        exact .of_eq rfl

theorem tcpEstabAckHandler_log {env : Env} {now : Tick} {i : Slot} {f : Frame} {l l' : Local}
    {r : HRes} (h : tcpEstabAckHandler env now i f l = some (l', r)) : logGrowsAt i l.log l'.log := by
  unfold tcpEstabAckHandler at h
  dsimp only at h
  split at h
  · cases h
    exact .of_eq (by simp)
  · have := eakData_log h
    simpa using this

theorem Handler.call_log {env : Env} {now : Tick} {i : Slot} {f : Frame} {h : Handler}
    {l l' : Local} {r : HRes} (hc : h.call env now i f l = some (l', r)) :
    logGrowsAt i l.log l'.log := by
  have closing : ∀ (stay : TcpState) (acked : Local → Local), (acked l).log = l.log →
      some (WsPi5.closingAck f stay acked l) = some (l', r) → logGrowsAt i l.log l'.log := by
    intro stay acked hacked heq
    unfold WsPi5.closingAck at heq
    split at heq
    · cases heq
      exact .of_eq rfl
    · split at heq
      · cases heq
        exact .of_eq hacked
      · cases heq
        exact .of_eq rfl
  cases h with
  | connClose =>
      cases hc
      exact .of_eq rfl
  | drop =>
      cases hc
      exact .of_eq rfl
  | synrcvdAck =>
      simp only [Handler.call, tcpSynrcvdAckHandler] at hc
      split at hc
      · cases hc
        exact .of_eq rfl
      · cases hc
        exact .of_eq rfl
  | estabAck => exact tcpEstabAckHandler_log hc
  | estabFin =>
      cases hc
      exact .of_eq rfl
  | lastackAck => exact closing _ _ (by simp) hc
  | finwait1Ack => exact closing _ _ (by simp) hc
  | finwait1Fin =>
      simp only [Handler.call, tcpFinwait1FinHandler] at hc
      split at hc
      · cases hc
        exact .of_eq rfl
      · cases hc
        exact .of_eq rfl
  | finwait2Fin =>
      cases hc
      exact .of_eq (by simp)
  | timewaitFin =>
      cases hc
      exact .of_eq (by simp)
  | closingAck => exact closing _ _ (by simp) hc

/-- The allocated slot and what it holds: the CLOSED record as it is, or an evicted one. -/
theorem allocSlot_some {env : Env} {t : Tcp} {j : Slot} {l : Local}
    (h : t.allocSlot env = some (j, l)) :
    (l = t.at j ∧ (t.conn j).state = .closed) ∨
    (l = tornDown env (t.at j) ∧ (t.conn j).state = .synRcvd) := by
  unfold Tcp.allocSlot at h
  split at h
  · rename_i j' hfirst
    cases h
    have hst := List.find?_some hfirst
    exact Or.inl ⟨rfl, by simpa using hst⟩
  · split at h
    · rename_i j' hfirst
      cases h
      have hst := List.find?_some hfirst
      exact Or.inr ⟨rfl, by simpa using hst⟩
    · cases h

theorem allocSlot_log {env : Env} {t : Tcp} {j : Slot} {l : Local}
    (h : t.allocSlot env = some (j, l)) : l.log = t.log := by
  obtain ⟨rfl, _⟩ | ⟨rfl, _⟩ := allocSlot_some h <;> rfl

theorem SlotAct.log {env : Env} {t : Tcp} {e : Event} {i : Slot} {l l' : Local}
    (h : SlotAct env t e i l l') (hl : l.log = t.log) : logGrowsAt i t.log l'.log := by
  rw [← hl]
  cases h with
  | @recv f evt next hd l₁ r _ _ _ _ _ hcall =>
      have hgrow := Handler.call_log hcall
      cases r <;> exact hgrow
  | @opened f listener l₀ _ _ _ _ halloc =>
      have hlog := openSlot_log env e.now f (t.conn listener).lport i l₀
      rw [allocSlot_log halloc, ← hl] at hlog
      exact .of_cons hlog rfl
  | touched => exact .of_eq rfl
  | @sent p _ =>
      unfold tcpSend
      split
      · exact .of_cons (tcpSendAccept_log ..) rfl
      · exact .of_eq rfl
  | closed _ =>
      unfold tcpClose
      dsimp only
      split
      · exact .of_eq rfl
      · exact .of_cons (tcpRtxSave_log ..) rfl
  | @consumed n _ =>
      unfold tcpRxConsume
      dsimp only
      split
      · exact .of_cons rfl rfl
      · exact .of_cons rfl rfl
  | flushed _ => exact .of_cons rfl rfl
  | tornDown _ => exact .of_eq rfl
  | retransmit _ _ =>
      unfold tcpRetransmitCb
      split
      · exact .of_eq rfl
      · split
        · exact .of_eq rfl
        · dsimp only
          split
          · split
            · exact .of_eq rfl
            · exact .of_cons (tcpRtxArm_log ..) rfl
          · exact .of_eq rfl
  | timewait _ _ => exact .of_eq rfl
  | persist _ _ =>
      unfold tcpPersistCb
      split
      · exact .of_cons (tcpPersistArm_log ..) rfl
      · exact .of_eq rfl
  | listening _ _ => exact .of_eq rfl

/-! ## The inversion lemma -/

section
variable {env : Env} {t t' : Tcp} {e : Event} {i j : Slot}

theorem SlotOutcome.unchanged (hc : t'.conn i = t.conn i) (hlog : t'.log = t.log) :
    SlotOutcome env t e t' i :=
  Or.inl ⟨hc, by rw [hlog]; exact .refl i t.log⟩

theorem SlotAct.outcome {l l' : Local} (hl : l.conn = t.conn j) (hlog : l.log = t.log)
    (hact : SlotAct env t e j l l') (hself : t'.conn j = l'.conn)
    (hother : ∀ k, k ≠ j → t'.conn k = t.conn k) (hlog' : t'.log = l'.log) (i : Slot) :
    SlotOutcome env t e t' i := by
  by_cases hij : i = j
  · subst hij
    exact Or.inr ⟨l, l', hl, hlog, hact, hself, by rw [hlog']; exact .refl i l'.log⟩
  · obtain ⟨os, hos, hslot⟩ := hact.log hlog
    refine Or.inl ⟨hother i hij, os, by rw [hlog', hos], ?_⟩
    intro o ho heq
    exact hij (heq.symm.trans (hslot o ho))

/-- The common case: an operation on the local view, written back. -/
theorem SlotAct.outcome_put {l' : Local} (hact : SlotAct env t e j (t.at j) l') (i : Slot) :
    SlotOutcome env t e (t.put j l') i :=
  hact.outcome rfl rfl (by simp) (fun k hk => by simp [hk]) rfl i

theorem tcpRstAllow_conn (env : Env) (now : Tick) (t : Tcp) :
    (tcpRstAllow env now t).1.conn = t.conn ∧ (tcpRstAllow env now t).1.pool = t.pool ∧
      (tcpRstAllow env now t).1.log = t.log := by
  unfold tcpRstAllow
  dsimp only
  split <;> split <;> exact ⟨rfl, rfl, rfl⟩

theorem noConn_conn (env : Env) (now : Tick) (f : Frame) (t : Tcp) :
    (t.noConn env now f).1.conn = t.conn ∧ (t.noConn env now f).1.pool = t.pool ∧
      (t.noConn env now f).1.log = t.log := by
  have hallow := tcpRstAllow_conn env now t
  unfold Tcp.noConn
  split
  · exact ⟨rfl, rfl, rfl⟩
  · split
    · rename_i t₁ heq
      rw [heq] at hallow
      exact hallow
    · rename_i t₁ heq
      rw [heq] at hallow
      exact hallow

theorem noConn_outcome (f : Frame) (i : Slot) :
    SlotOutcome env t e (t.noConn env e.now f).1 i := by
  obtain ⟨hc, _, hlog⟩ := noConn_conn env e.now f t
  exact .unchanged (by rw [hc]) hlog

theorem dispatch_outcome {f : Frame} {evt : TcpEvt} {r : Option Frame}
    (hrx : e.call = .rx f) (hmatch : t.exactMatch f = some j)
    (hcls : tcpClassifyEvent f = some evt)
    (hrst : evt = .rst → rstCheck (t.conn j) f = .accept)
    (h : t.dispatch env e.now j evt f = some (t', r)) (i : Slot) :
    SlotOutcome env t e t' i := by
  unfold Tcp.dispatch at h
  split at h
  · have ht : _ = t' := congrArg Prod.fst (Option.some.inj h)
    rw [← ht]
    exact noConn_outcome f i
  · rename_i next hd htab
    obtain ⟨⟨l₁, res⟩, hcall, hres⟩ := Option.map_eq_some_iff.mp h
    have hact := SlotAct.recv (l := t.at j) hrx hmatch hcls hrst htab hcall
    cases res with
    | reply g =>
        cases hres
        refine hact.outcome rfl rfl ?_ ?_ rfl i
        · simp [Tcp.touch, settle]
        · intro k hk
          simp [Tcp.touch, hk]
    | quiet =>
        cases hres
        refine hact.outcome rfl rfl ?_ ?_ rfl i
        · simp [Tcp.touch, settle]
        · intro k hk
          simp [Tcp.touch, hk]
    | rst =>
        obtain ⟨hc, _, hlog⟩ := noConn_conn env e.now f
          (t.put j (l₁.withState (t.conn j).state))
        have ht : _ = t' := congrArg Prod.fst hres
        rw [← ht]
        refine hact.outcome rfl rfl ?_ ?_ (by rw [hlog]; rfl) i
        · simp [hc, settle]
        · intro k hk
          simp [hc, hk]

theorem handleConn_outcome {f : Frame} {r : Option Frame} (hrx : e.call = .rx f)
    (hmatch : t.exactMatch f = some j) (h : t.handleConn env e.now j f = some (t', r))
    (i : Slot) : SlotOutcome env t e t' i := by
  unfold Tcp.handleConn at h
  split at h
  · have ht : _ = t' := congrArg Prod.fst (Option.some.inj h)
    rw [← ht]
    exact noConn_outcome f i
  · rename_i hcls
    split at h
    · rename_i hacc
      exact dispatch_outcome hrx hmatch hcls (fun _ => hacc) h i
    · cases h
      exact .unchanged rfl rfl
    · cases h
      exact .unchanged rfl rfl
  · rename_i evt hne hcls
    exact dispatch_outcome hrx hmatch hcls (fun heq => absurd heq hne) h i

theorem handleListen_outcome {f : Frame} (hrx : e.call = .rx f)
    (hmatch : t.exactMatch f = none) (hlisten : t.listenMatch f = some j) (i : Slot) :
    SlotOutcome env t e (t.handleListen env e.now j f).1 i := by
  have hjlisten : (t.conn j).state = .listen := by
    have := List.find?_some hlisten
    simp only [Bool.and_eq_true, decide_eq_true_eq] at this
    exact this.1
  unfold Tcp.handleListen
  split
  · exact .unchanged rfl rfl
  · rename_i hcls
    unfold tcpListenSynHandler
    cases halloc : t.allocSlot env with
    | none => exact noConn_outcome f i
    | some a =>
        obtain ⟨k, l⟩ := a
        have hkj : k ≠ j := by
          intro heq
          subst heq
          obtain ⟨_, hst⟩ | ⟨_, hst⟩ := allocSlot_some halloc <;> simp [hjlisten] at hst
        have hact := SlotAct.opened (l := t.at k) hrx hmatch hlisten hcls halloc
        by_cases hij : i = j
        · -- the listener: only its activity stamp changes
          subst hij
          obtain ⟨os, hos, hslot⟩ := hact.log rfl
          refine Or.inr ⟨t.at i, _, rfl, rfl, .touched, ?_, os, ?_, ?_⟩
          · simp [Tcp.touch, Local.stamp, hkj.symm]
          · exact hos
          · intro o ho heq
            exact hkj ((hslot o ho).symm.trans heq)
        · by_cases hik : i = k
          · subst hik
            refine Or.inr ⟨t.at i, _, rfl, rfl, hact, ?_, ?_⟩
            · simp [Tcp.touch, hij]
            · exact .refl i _
          · obtain ⟨os, hos, hslot⟩ := hact.log rfl
            refine Or.inl ⟨?_, os, hos, ?_⟩
            · simp [Tcp.touch, hij, hik]
            · intro o ho heq
              exact hik (heq.symm.trans (hslot o ho))
  · exact noConn_outcome f i

theorem idleLimit_live {s : TcpState} (h : idleLimit s ≠ none) : s.live := by
  constructor <;> rintro rfl <;> exact h rfl

theorem reap_conn (env : Env) (now : Tick) (t₀ : Tcp) : ∀ (js : List Slot) (t : Tcp),
    t.log = t₀.log ∧
      (∀ i, t.conn i = t₀.conn i ∨
        idleLimit (t₀.conn i).state ≠ none ∧ t.conn i = (tornDown env (t₀.at i)).conn) →
    (js.foldl (reapOne env now) t).log = t₀.log ∧
      ∀ i, (js.foldl (reapOne env now) t).conn i = t₀.conn i ∨
        idleLimit (t₀.conn i).state ≠ none ∧
          (js.foldl (reapOne env now) t).conn i = (tornDown env (t₀.at i)).conn
  | [], _, h => h
  | j :: js, t, h => by
      apply reap_conn env now t₀ js
      unfold reapOne
      split
      · exact h
      · rename_i limit hlim
        split
        · refine ⟨h.1, fun i => ?_⟩
          by_cases hij : i = j
          · subst hij
            obtain heq | ⟨_, heq⟩ := h.2 i
            · right
              rw [heq] at hlim
              refine ⟨by simp [hlim], ?_⟩
              rw [Tcp.tearDown, Tcp.put_conn_self]
              exact tornDown_conn_congr heq
            · -- already torn down, so CLOSED, which has no idle limit
              rw [heq] at hlim
              simp [tornDown, idleLimit] at hlim
          · rw [Tcp.tearDown, Tcp.put_conn_of_ne _ _ _ hij]
            exact h.2 i
        · exact h

theorem tcpStartReaper_conn (env : Env) (now : Tick) (t : Tcp) :
    (tcpStartReaper env now t).conn = t.conn ∧ (tcpStartReaper env now t).log = t.log := by
  unfold tcpStartReaper
  split <;> exact ⟨rfl, rfl⟩

theorem tcpIdleReaperCb_outcome (t₀ : Tcp) (hc : t₀.conn = t.conn) (hlog : t₀.log = t.log)
    (i : Slot) : SlotOutcome env t e (tcpIdleReaperCb env e.now t₀) i := by
  obtain ⟨hsc, hsl⟩ := tcpStartReaper_conn env e.now (slots.foldl (reapOne env e.now) t₀)
  obtain ⟨hrl, hrc⟩ := reap_conn env e.now t₀ slots t₀ ⟨rfl, fun _ => Or.inl rfl⟩
  have hlog' : (tcpIdleReaperCb env e.now t₀).log = t.log := by
    rw [tcpIdleReaperCb, hsl, hrl, hlog]
  have hconn : (tcpIdleReaperCb env e.now t₀).conn i
      = (slots.foldl (reapOne env e.now) t₀).conn i := by
    rw [tcpIdleReaperCb, hsc]
  obtain heq | ⟨hlim, heq⟩ := hrc i
  · exact .unchanged (by rw [hconn, heq, hc]) hlog'
  · rw [hc] at hlim
    refine Or.inr ⟨t₀.at i, _, by simp [hc], by simp [hlog],
      .tornDown (idleLimit_live hlim) (.inr hlim), ?_, ?_⟩
    · rw [hconn, heq]
    · rw [hlog']
      exact ⟨[], by simp [WsPi5.tornDown, hlog], by simp⟩

theorem timerVisit_outcome {k : Nat} (hcall : e.call = .visit k) (i : Slot) :
    SlotOutcome env t e (timerVisit env e.now k t) i := by
  unfold timerVisit
  split
  · exact .unchanged rfl rfl
  · rename_i entry hdue
    obtain ⟨x, cb⟩ := entry
    cases cb with
    | tcpRetransmitCb j =>
        exact (SlotAct.retransmit (l := (t.freeEntry k).at j) hcall hdue).outcome rfl rfl
          (Tcp.put_conn_self ..) (fun m hm => Tcp.put_conn_of_ne _ _ _ hm) rfl i
    | tcpTimewaitCb j =>
        exact (SlotAct.timewait (l := (t.freeEntry k).at j) hcall hdue).outcome rfl rfl
          (Tcp.put_conn_self ..) (fun m hm => Tcp.put_conn_of_ne _ _ _ hm) rfl i
    | tcpPersistCb j =>
        exact (SlotAct.persist (l := (t.freeEntry k).at j) hcall hdue).outcome rfl rfl
          (Tcp.put_conn_self ..) (fun m hm => Tcp.put_conn_of_ne _ _ _ hm) rfl i
    | tcpIdleReaperCb =>
        exact tcpIdleReaperCb_outcome (t := t) (t.freeEntry k) rfl rfl i
    | other id => exact .unchanged rfl rfl

/-- **What a step can do to slot `i`**: nothing, or one act. -/
theorem step_slot (h : step env t e = some t') (i : Slot) : SlotOutcome env t e t' i := by
  unfold step at h
  split at h
  · rename_i f hcall
    obtain ⟨⟨u, r⟩, hr, rfl⟩ := Option.map_eq_some_iff.mp h
    unfold tcpHandle at hr
    split at hr
    · rename_i j hmatch
      exact handleConn_outcome hcall hmatch hr i
    · rename_i hmatch
      split at hr
      · rename_i j hlisten
        rw [← Option.some.inj hr]
        exact handleListen_outcome hcall hmatch hlisten i
      · rw [← Option.some.inj hr]
        exact noConn_outcome f i
  · rename_i j p hcall
    cases h
    exact (SlotAct.sent hcall).outcome_put i
  · rename_i j hcall
    cases h
    exact (SlotAct.closed hcall).outcome_put i
  · rename_i j n hcall
    cases h
    exact (SlotAct.consumed hcall).outcome_put i
  · rename_i j hcall
    cases h
    exact (SlotAct.flushed hcall).outcome_put i
  · rename_i code lport rport rip hcall
    cases h
    unfold tcpIcmpErr
    split
    · exact .unchanged rfl rfl
    · rename_i j hmatch
      have hm := List.find?_some hmatch
      split
      · exact (SlotAct.tornDown (matches_live hm) (.inl ⟨_, _, _, _, hcall⟩)).outcome_put i
      · exact .unchanged rfl rfl
  · rename_i k hcall
    cases h
    exact timerVisit_outcome hcall i
  · rename_i port hcall
    cases h
    unfold tcpListen
    split
    · rename_i j hfirst
      have hst : (t.conn j).state = .closed := by simpa using List.find?_some hfirst
      exact (SlotAct.listening hcall hst).outcome_put i
    · exact .unchanged rfl rfl
  · cases h
    obtain ⟨hc, hlog⟩ := tcpStartReaper_conn env e.now t
    exact .unchanged (by rw [hc]) hlog
  · cases h
    exact .unchanged rfl rfl
  · cases h
    exact .unchanged rfl rfl

end

/-! ## The invariant rule -/

/-- A property of a slot's record that reads only the slot's own observations. -/
def OwnLog (i : Slot) (P : Conn → List Obs → Prop) : Prop :=
  ∀ c o log, o.slot ≠ i → (P c (o :: log) ↔ P c log)

theorem OwnLog.append {i : Slot} {P : Conn → List Obs → Prop} (hP : OwnLog i P) {c : Conn}
    {log : List Obs} : ∀ {os : List Obs}, (∀ o ∈ os, o.slot ≠ i) →
    (P c (os ++ log) ↔ P c log)
  | [], _ => Iff.rfl
  | o :: os, h => by
      have ho : o.slot ≠ i := h o (by simp)
      have hos : ∀ o' ∈ os, o'.slot ≠ i := fun o' h' => h o' (by simp [h'])
      exact (hP c o (os ++ log) ho).trans (hP.append hos)

/-- **A property that every act on slot `i` keeps is kept by every step.** -/
theorem slot_invariant {env : Env} {i : Slot} {P : Conn → List Obs → Prop}
    {ok : Tcp → Event → Prop} (hown : OwnLog i P)
    (hact : ∀ {t e l l'}, ok t e → l.conn = t.conn i → l.log = t.log →
      SlotAct env t e i l l' → P l.conn l.log → P l'.conn l'.log)
    {t t' : Tcp} {e : Event} (hP : P (t.conn i) t.log) (hok : ok t e)
    (h : step env t e = some t') : P (t'.conn i) t'.log := by
  obtain ⟨hc, os, hos, hslot⟩ | ⟨l, l', hl, hlog, ha, hc, os, hos, hslot⟩ := step_slot h i
  · rw [hc, hos]
    exact (hown.append hslot).mpr hP
  · rw [hc, hos]
    refine (hown.append hslot).mpr (hact hok hl hlog ha ?_)
    rw [hl, hlog]
    exact hP

/-- **The run form**: such a property, true at the start of a run, is true at its end. -/
theorem slot_run {env : Env} {i : Slot} {P : Conn → List Obs → Prop}
    {ok : Tcp → Event → Prop} {t₀ t : Tcp} (h : Run (step env) ok t₀ t) (hown : OwnLog i P)
    (hact : ∀ {t e l l'}, ok t e → l.conn = t.conn i → l.log = t.log →
      SlotAct env t e i l l' → P l.conn l.log → P l'.conn l'.log)
    (h₀ : P (t₀.conn i) t₀.log) : P (t.conn i) t.log :=
  h.invariant (P := fun t => P (t.conn i) t.log) h₀
    (fun hP hok hst => slot_invariant hown hact hP hok hst)

/-! ## Opening a connection, seen from outside -/

/-- The slot that the call puts a new connection into, if it does. -/
def Tcp.opens (env : Env) (t : Tcp) (e : Event) : Option Slot :=
  match e.call with
  | .rx f =>
      if t.exactMatch f = none ∧ (t.listenMatch f).isSome ∧ tcpClassifyEvent f = some .syn then
        (t.allocSlot env).map Prod.fst
      else none
  | _ => none

theorem exactMatch_of_unique {t : Tcp} {f : Frame} {i : Slot}
    (hi : (t.conn i).matches f.dport f.sport f.ipSrc = true)
    (hother : ∀ j, j ≠ i → (t.conn j).matches f.dport f.sport f.ipSrc = false) :
    t.exactMatch f = some i := by
  cases h : t.exactMatch f with
  | none =>
      have := List.find?_eq_none.mp h i (List.mem_finRange i)
      exact absurd hi this
  | some j =>
      have hj : (t.conn j).matches f.dport f.sport f.ipSrc = true :=
        List.find?_some (p := fun i => (t.conn i).matches f.dport f.sport f.ipSrc) h
      by_cases hji : j = i
      · rw [hji]
      · rw [hother j hji] at hj
        cases hj

theorem exactMatch_eq_none {t : Tcp} {f : Frame} (h : t.exactMatch f = none) (j : Slot) :
    (t.conn j).matches f.dport f.sport f.ipSrc = false := by
  have := List.find?_eq_none.mp h j (List.mem_finRange j)
  simpa using this

/-- **What an opening SYN leaves behind**: the new record in slot `i`, and no other
connection with its tuple. -/
theorem opens_step {env : Env} {t t' : Tcp} {now : Tick} {f : Frame} {i : Slot}
    (hopen : t.opens env ⟨now, .rx f⟩ = some i) (h : step env t ⟨now, .rx f⟩ = some t') :
    ∃ l₀ : Local, t.allocSlot env = some (i, l₀) ∧
      t'.conn i = (openSlot env now f f.dport i l₀).conn ∧
      t'.log = (openSlot env now f f.dport i l₀).log ∧
      ∀ j, j ≠ i → (t'.conn j).matches f.dport f.sport f.ipSrc = false := by
  simp only [Tcp.opens] at hopen
  split at hopen
  · rename_i hguard
    obtain ⟨hnone, hsome, hsyn⟩ := hguard
    obtain ⟨⟨k, l₀⟩, halloc, rfl⟩ := Option.map_eq_some_iff.mp hopen
    obtain ⟨listener, hlisten⟩ := Option.isSome_iff_exists.mp hsome
    have hL := List.find?_some hlisten
    simp only [Bool.and_eq_true, decide_eq_true_eq] at hL
    have hkL : k ≠ listener := by
      intro heq
      subst heq
      obtain ⟨_, hst⟩ | ⟨_, hst⟩ := allocSlot_some halloc <;> simp [hL.1] at hst
    simp only [step, tcpHandle, hnone, hlisten, Tcp.handleListen, hsyn, tcpListenSynHandler,
      halloc, hL.2, Option.map_some, Option.some.injEq] at h
    subst h
    refine ⟨l₀, halloc, ?_, rfl, ?_⟩
    · simp [Tcp.touch, hkL]
    · intro j hj
      by_cases hjL : j = listener
      · subst hjL
        simp [Tcp.touch, Local.stamp, Conn.matches, hj, hL.1]
      · simpa [Tcp.touch, hjL, hj] using exactMatch_eq_none hnone j
  · cases hopen

theorem step_quiet {env : Env} {t : Tcp} {now : Tick} {f : Frame} {i : Slot} {evt : TcpEvt}
    {next : TcpState} {h : Handler} {l' : Local} (hmatch : t.exactMatch f = some i)
    (hcls : tcpClassifyEvent f = some evt) (hne : evt ≠ .rst)
    (htab : tcpFsaTable (t.conn i).state evt = some (next, h))
    (hcall : h.call env now i f ((t.at i).withState next) = some (l', .quiet)) :
    step env t ⟨now, .rx f⟩ = some (t.put i (l'.stamp now)) := by
  have hdisp : t.dispatch env now i evt f = some (t.put i (l'.stamp now), none) := by
    have hput : (t.put i l').touch now i = t.put i (l'.stamp now) := by
      simp [Tcp.touch, Tcp.put, Local.stamp, Tcp.at]
    simp only [Tcp.dispatch, htab, hcall, Option.map_some, hput]
  have hconn : t.handleConn env now i f = t.dispatch env now i evt f := by
    unfold Tcp.handleConn
    rw [hcls]
    cases evt <;> first | rfl | exact absurd rfl hne
  simp only [step, tcpHandle, hmatch, hconn, hdisp, Option.map_some]

end WsPi5

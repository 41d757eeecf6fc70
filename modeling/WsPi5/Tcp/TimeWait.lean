/-
# `WsPi5.Tcp.TimeWait` — whom the 2MSL timer closes

`tcp_timewait_cb` stores CLOSED into the record of its slot and looks at nothing.  That is right
as long as the record is still the one in TIME_WAIT for which the timer was armed, so whoever
takes the connection out of TIME_WAIT earlier (an accepted RST, an ICMP error) has to cancel the
timer, and can do so only through TIMER_SLOT.

**Proved here** (`timewait_closes_its_own`), for every run: if the two paths that lose the index
are not taken, a 2MSL timer fires only on a connection in TIME_WAIT, and between its arming and
its firing no SYN has put another connection into the slot.  The two paths:

    FIN_WAIT_1: FIN that acknowledges our FIN     the index of the 2MSL timer is not stored
    a retransmit timer fires in TIME_WAIT         it stores its own index over the 2MSL
                                                  timer's, or gives up and goes to CLOSED

The second is there because nothing cancels the retransmit timer on the way from FIN_WAIT_1 or
CLOSING to TIME_WAIT.

**The invariant** (`TwNamed`): every 2MSL entry of the slot is the one that TIMER_SLOT names, and
the connection is in TIME_WAIT.
-/
import WsPi5.Tcp.Listener

namespace WsPi5

open Lib

/-- What the theorem asks of a step, for slot `i`. -/
def keepsTimewait (env : Env) (i : Slot) (t : Tcp) (e : Event) : Prop :=
  match e.call with
  | .rx f => t.exactMatch f = some i → (t.conn i).state = .finWait1 →
      tcpClassifyEvent f = some .fin → ¬ (f.has tcpAckFlag = true ∧ f.ack = (t.conn i).sndNxt)
  | .visit k =>
      (timerDue t.pool e.now k).map TimerEntry.callback = some (.tcpRetransmitCb i) →
      (t.conn i).state = .timeWait → (t.conn i).rtxcount < tcpMaxRetries ∧
        (env.hasSendFn = true → rtxFrame env e.now (rtxBackoff env (t.conn i)) = none)
  | _ => True

instance decKeepsTimewait (env : Env) (i : Slot) (t : Tcp) :
    ∀ e, Decidable (keepsTimewait env i t e)
  | ⟨_, .rx _⟩ => inferInstanceAs (Decidable (_ → _ → _ → ¬ _))
  | ⟨_, .visit _⟩ => inferInstanceAs (Decidable (_ → _ → _ ∧ _))
  | ⟨_, .send _ _⟩ | ⟨_, .close _⟩ | ⟨_, .consume _ _⟩ | ⟨_, .flush _⟩ | ⟨_, .icmpErr _ _ _ _⟩
  | ⟨_, .listen _⟩ | ⟨_, .startReaper⟩ | ⟨_, .otherSet _ _⟩ | ⟨_, .otherCancel _⟩ => isTrue trivial

/-- Every 2MSL entry of slot `i` is named by the record, which is in TIME_WAIT. -/
def TwNamed (env : Env) (i : Slot) (c : Conn) (p : Pool) : Prop :=
  ∀ k x, p.slot k = some ⟨x, .tcpTimewaitCb i⟩ →
    k < p.cap ∧ env.hasPool = true ∧ c.state = .timeWait ∧ c.timerSlot = some k

section
variable {env : Env} {now : Tick} {i : Slot} {c c' : Conn} {p p' : Pool} {t t' : Tcp}

/-! ## Ways to keep it -/

theorem TwNamed.of_none (h : noTimewait i p) : TwNamed env i c p :=
  fun k x hk => absurd hk (h k x)

theorem TwNamed.outside (h : TwNamed env i c p) (hs : c.state ≠ .timeWait) : noTimewait i p :=
  fun k x hk => hs (h k x hk).2.2.1

theorem TwNamed.keep (h : TwNamed env i c p) (ha : Arms (· ≠ .tcpTimewaitCb i) p p')
    (hc : c.state = .timeWait → c'.state = .timeWait ∧ c'.timerSlot = c.timerSlot) :
    TwNamed env i c' p' := by
  intro k x hk
  obtain ⟨hcap, hpool, hstate, hslot⟩ := h k x (ha.old (by simp) hk)
  obtain ⟨hstate', hslot'⟩ := hc hstate
  exact ⟨ha.cap ▸ hcap, hpool, hstate', hslot'.trans hslot⟩

theorem TwNamed.cancelled (h : TwNamed env i c p) :
    noTimewait i (match c.timerSlot with
      | some k => if env.hasPool then timerCancel p k else p
      | none => p) := by
  intro k x hk
  have hold : p.slot k = some ⟨x, .tcpTimewaitCb i⟩ :=
    (Arms.cancelNamed (.refl (· ≠ .tcpTimewaitCb i) p) env c.timerSlot).old (by simp) hk
  obtain ⟨hcap, hpool, _, hslot⟩ := h k x hold
  rw [hslot] at hk
  simp only [hpool, if_true, timerCancel_self hcap] at hk
  cases hk

theorem startTimewait_named (now : Tick) {l : Local} (h : noTimewait i l.pool)
    (hs : l.conn.state = .timeWait) :
    TwNamed env i (startTimewait env now i l).conn (startTimewait env now i l).pool := by
  unfold startTimewait
  split
  · rename_i hpool
    dsimp only [armTimewait]
    obtain ⟨j, hj, _, heq⟩ | ⟨_, heq⟩ :=
      timerSet_cases l.pool (now + env.freq * 60) (.tcpTimewaitCb i)
    · rw [heq]
      intro k x hk
      by_cases hkj : k = j
      · subst hkj
        exact ⟨hj, hpool, hs, rfl⟩
      · exact absurd (by simpa [hkj] using hk) (h k x)
    · rw [heq]
      exact .of_none h
  · exact .of_none h

/-! ## A segment for the connection -/

theorem tcpFsaTable_timewait {s next : TcpState} {evt : TcpEvt} {h : Handler}
    (htab : tcpFsaTable s evt = some (next, h)) :
    (h = .connClose ∧ next = .closed) ∨
    (h = .finwait1Fin ∧ s = .finWait1 ∧ evt = .fin) ∨
    (h = .finwait2Fin ∧ s = .finWait2 ∧ next = .timeWait) ∨
    (h = .timewaitFin ∧ s = .timeWait ∧ next = .timeWait) ∨
    (h = .closingAck ∧ s = .closing ∧ next = .timeWait) ∨
    (h = .drop ∧ s = next) ∨
    (s ≠ .timeWait ∧ (h = .synrcvdAck ∨ h = .estabAck ∨ h = .estabFin ∨ h = .lastackAck ∨
      h = .finwait1Ack)) := by
  cases s <;> cases evt <;> simp only [tcpFsaTable, Option.some.injEq, Prod.mk.injEq,
    reduceCtorEq] at htab <;> obtain ⟨rfl, rfl⟩ := htab <;> simp

theorem settle_tmr (now : Tick) (old : TcpState) (l : Local) (r : HRes) :
    (settle now old l r).conn.timerSlot = l.conn.timerSlot := by
  cases r <;> rfl

/-- **A segment** keeps the invariant, unless it is the FIN of the first path. -/
theorem recv_named {f : Frame} {evt : TcpEvt} {next : TcpState} {h : Handler} {l l' : Local}
    {r : HRes} (hinv : TwNamed env i l.conn l.pool)
    (htab : tcpFsaTable l.conn.state evt = some (next, h))
    (hok : l.conn.state = .finWait1 → evt = .fin →
      ¬ (f.has tcpAckFlag = true ∧ f.ack = l.conn.sndNxt))
    (hcall : h.call env now i f (l.withState next) = some (l', r)) :
    TwNamed env i (settle now l.conn.state l' r).conn l'.pool := by
  obtain ⟨rfl, rfl⟩ | ⟨rfl, hs, rfl⟩ | ⟨rfl, hs, rfl⟩ | ⟨rfl, hs, rfl⟩ | ⟨rfl, hs, rfl⟩ |
    ⟨rfl, hs⟩ | ⟨hs, hother⟩ := tcpFsaTable_timewait htab
  · -- RST: what the record names is cancelled
    cases hcall
    exact .of_none hinv.cancelled
  · -- FIN_WAIT_1: the FIN does not acknowledge ours, so nothing is armed
    have hnone := hinv.outside (by rw [hs]; decide)
    have hl : (tcpFinwait1FinHandler env now i f (l.withState next)).1 = l' :=
      congrArg Prod.fst (Option.some.inj hcall)
    refine .of_none ?_
    rw [← hl]
    unfold tcpFinwait1FinHandler
    dsimp only
    split
    · rename_i hack
      exact absurd hack (hok hs rfl)
    · exact hnone
  · have hnone := hinv.outside (by rw [hs]; decide)
    cases hcall
    refine TwNamed.keep (startTimewait_named now ?_ ?_) (.refl _ _) fun h => ⟨h, ?_⟩
    · exact hnone
    · rfl
    · exact settle_tmr ..
  · -- a second FIN: the old timer is cancelled, a new one armed
    cases hcall
    refine TwNamed.keep (startTimewait_named now ?_ ?_) (.refl _ _) fun h => ⟨h, ?_⟩
    · exact hinv.cancelled
    · rfl
    · exact settle_tmr ..
  · have hnone := hinv.outside (by rw [hs]; decide)
    have hl : tcpClosingAckHandler env now i f (l.withState .timeWait) = (l', r) :=
      Option.some.inj hcall
    unfold tcpClosingAckHandler closingAck at hl
    split at hl
    · cases hl
      exact .of_none hnone
    · split at hl
      · cases hl
        refine TwNamed.keep (startTimewait_named now ?_ ?_) (.refl _ _) fun h => ⟨h, ?_⟩
        · exact hnone
        · rfl
        · exact settle_tmr ..
      · cases hl
        exact .of_none hnone
  · cases hcall
    refine hinv.keep (.refl _ _) fun h => ⟨?_, settle_tmr ..⟩
    show next = _
    rw [← hs, h]
  · -- the other handlers arm no 2MSL timer
    have harms : Arms (· ≠ .tcpTimewaitCb i) l.pool l'.pool := by
      refine Arms.call_plain (allButTimewait_ne i) ?_ hother hcall
      exact .refl _ _
    exact .of_none ((hinv.outside hs).arms harms)

/-! ## The other steps -/

theorem icmpErr_named (h : TwNamed env i (t.conn i) t.pool) (code : Nat) (lport rport : BitVec 16)
    (rip : BitVec 32) : TwNamed env i ((tcpIcmpErr env code lport rport rip t).conn i)
      (tcpIcmpErr env code lport rport rip t).pool := by
  unfold tcpIcmpErr
  split
  · exact h
  · rename_i j _
    split
    · by_cases hij : i = j
      · subst hij
        exact .of_none h.cancelled
      · refine h.keep ((Arms.refl _ t.pool).tearDown env j) fun hs => ?_
        rw [Tcp.tearDown, Tcp.put_conn_of_ne _ _ _ hij]
        exact ⟨hs, rfl⟩
    · exact h

theorem timewait_fired {k : Nat} {x : Tick} (h : TwNamed env i (t.conn i) t.pool)
    (hdue : timerDue t.pool now k = some ⟨x, .tcpTimewaitCb i⟩) :
    noTimewait i (timerVisit env now k t).pool := by
  have hk := h k x (timerDue_some hdue).2
  unfold timerVisit
  rw [hdue]
  show noTimewait i (t.freeEntry k).pool
  intro k' x' hk'
  by_cases hkk : k' = k
  · subst hkk
    simp [Tcp.freeEntry] at hk'
  · have hold : t.pool.slot k' = some ⟨x', .tcpTimewaitCb i⟩ := by
      simpa [Tcp.freeEntry, hkk] using hk'
    have hslot := (h k' x' hold).2.2.2
    rw [hk.2.2.2] at hslot
    exact hkk (Option.some.inj hslot).symm

/-- A retransmit timer that fires in TIME_WAIT with nothing to send and tries left. -/
theorem retransmit_quiet {l : Local} (hs : l.conn.state = .timeWait)
    (htries : l.conn.rtxcount < tcpMaxRetries)
    (hnone : env.hasSendFn = true → rtxFrame env now (rtxBackoff env l.conn) = none) :
    (tcpRetransmitCb env now i l).conn.state = .timeWait ∧
      (tcpRetransmitCb env now i l).conn.timerSlot = l.conn.timerSlot := by
  unfold tcpRetransmitCb
  rw [if_neg (by simp [hs]), if_neg (by omega)]
  dsimp only
  split
  · rename_i hsend
    rw [hnone hsend]
    exact ⟨hs, rfl⟩
  · exact ⟨hs, rfl⟩

/-- **A step** that takes neither of the two paths keeps the invariant. -/
theorem step_named {e : Event} (h : TwNamed env i (t.conn i) t.pool)
    (hok : keepsTimewait env i t e) (hst : step env t e = some t') :
    TwNamed env i (t'.conn i) t'.pool := by
  obtain ⟨now, call⟩ := e
  by_cases hrx : ∃ f, call = .rx f ∧ t.exactMatch f = some i
  · obtain ⟨f, rfl, hmatch⟩ := hrx
    obtain ⟨hc, hp⟩ | ⟨evt, next, hd, l, r, hcls, htab, hcall, hc, hp⟩ := rx_matched hmatch hst
    · rw [hc, hp]
      exact h
    · rw [hc, hp]
      refine recv_named (l := t.at i) h htab (fun hs hevt => ?_) hcall
      exact hok hmatch hs (hevt ▸ hcls)
  · have harms : Arms (· ≠ .tcpTimewaitCb i) t.pool t'.pool := by
      refine step_arms (allButTimewait_ne i) (fun f j hf hmatch => ?_) hst
      have hji : j ≠ i := by
        rintro rfl
        exact hrx ⟨f, hf, hmatch⟩
      simpa using hji
    obtain ⟨hc, _⟩ | ⟨l, l', hl, _, hact, hc, _⟩ := step_slot hst i
    · rw [hc]
      exact h.keep harms fun hs => ⟨hs, rfl⟩
    have hkeep : ((t.conn i).state = .timeWait →
        l'.conn.state = .timeWait ∧ l'.conn.timerSlot = (t.conn i).timerSlot) →
        TwNamed env i (t'.conn i) t'.pool := fun hsame => by
      rw [hc]
      exact h.keep harms hsame
    cases hact with
    | recv hcall hmatch _ _ _ _ => exact absurd ⟨_, hcall, hmatch⟩ hrx
    | opened _ _ _ _ halloc =>
        refine hkeep fun hs => ?_
        obtain ⟨_, h₁⟩ | ⟨_, h₁⟩ := allocSlot_some halloc <;> rw [h₁] at hs <;> cases hs
    | touched =>
        refine hkeep fun hs => ?_
        rw [← hl] at hs ⊢
        exact ⟨hs, rfl⟩
    | @sent p _ =>
        refine hkeep fun hs => ?_
        rw [← hl] at hs ⊢
        unfold tcpSend
        rw [if_neg (by simp [tcpSendAccepts, hs])]
        exact ⟨hs, rfl⟩
    | closed _ =>
        refine hkeep fun hs => ?_
        rw [← hl] at hs ⊢
        unfold tcpClose
        rw [hs]
        exact ⟨hs, rfl⟩
    | consumed _ =>
        refine hkeep fun hs => ?_
        rw [← hl] at hs ⊢
        unfold tcpRxConsume
        dsimp only
        split <;> exact ⟨hs, rfl⟩
    | flushed _ =>
        refine hkeep fun hs => ?_
        rw [← hl] at hs ⊢
        exact ⟨hs, rfl⟩
    | tornDown _ hwhy =>
        obtain ⟨code, lport, rport, rip, hcall⟩ | hlim := hwhy
        · subst hcall
          cases hst
          exact icmpErr_named h code lport rport rip
        · refine hkeep fun hs => ?_
          rw [hs] at hlim
          exact absurd rfl hlim
    | @retransmit k x hcall hdue =>
        subst hcall
        refine hkeep fun hs => ?_
        obtain ⟨htries, hnone⟩ := hok (by simp [hdue]) hs
        rw [← hl] at hs htries hnone ⊢
        exact retransmit_quiet hs htries hnone
    | @timewait k x hcall hdue =>
        subst hcall
        cases hst
        exact .of_none (timewait_fired h hdue)
    | persist _ _ =>
        refine hkeep fun hs => ?_
        rw [← hl] at hs ⊢
        unfold tcpPersistCb
        rw [if_neg (by simp [hs])]
        exact ⟨hs, rfl⟩
    | listening _ hclosed =>
        refine hkeep fun hs => ?_
        rw [hs] at hclosed
        cases hclosed

theorem opens_ne_of_timewait {e : Event} (hs : (t.conn i).state = .timeWait) :
    t.opens env e ≠ some i := by
  intro hopen
  unfold Tcp.opens at hopen
  split at hopen
  · split at hopen
    · obtain ⟨⟨j, l₀⟩, halloc, rfl⟩ := Option.map_eq_some_iff.mp hopen
      obtain ⟨_, h₁⟩ | ⟨_, h₁⟩ := allocSlot_some halloc <;> rw [h₁] at hs <;> cases hs
    · cases hopen
  · cases hopen

end

/-! ## Every run -/

theorem twNamed_reachable {env : Env} {cap : PoolCap} {i : Slot} {t : Tcp}
    (h : Run (step env) (keepsTimewait env i) (tcpInit cap) t) :
    TwNamed env i (t.conn i) t.pool :=
  h.invariant (P := fun t => TwNamed env i (t.conn i) t.pool)
    (.of_none fun k x => by simp [tcpInit, timerPoolInit])
    (fun hinv hok hst => step_named hinv hok hst)

/-- **A 2MSL timer closes its own connection.**  From a state `t₁` on, the entry at index `k`
has been this 2MSL timer of slot `i`, up to a state `t` where it fires.  Then the connection in
the slot is in TIME_WAIT, and it is the one that was there in `t₁`: no step in between has opened
the slot. -/
theorem timewait_closes_its_own {env : Env} {cap : PoolCap} {i : Slot} {t₁ t : Tcp} {k : Nat}
    {now x : Tick} (h₁ : Run (step env) (keepsTimewait env i) (tcpInit cap) t₁)
    (h : Run (step env) (fun u e => keepsTimewait env i u e ∧
      u.pool.slot k = some ⟨x, .tcpTimewaitCb i⟩) t₁ t)
    (hdue : timerDue t.pool now k = some ⟨x, .tcpTimewaitCb i⟩) :
    (t.conn i).state = .timeWait ∧
      Run (step env) (fun u e => u.opens env e ≠ some i) t₁ t := by
  have hinv : ∀ {u}, Run (step env) (fun u e => keepsTimewait env i u e ∧
      u.pool.slot k = some ⟨x, .tcpTimewaitCb i⟩) t₁ u → TwNamed env i (u.conn i) u.pool :=
    fun hu => twNamed_reachable (h₁.trans (hu.mono And.left))
  refine ⟨(hinv h k x (timerDue_some hdue).2).2.2.1, ?_⟩
  clear hdue
  induction h with
  | refl => exact .refl
  | tail hu hok hst ih =>
      exact .tail ih (opens_ne_of_timewait (hinv hu k x hok.2).2.2.1) hst

/-- The peer's FIN, which acknowledges ours. -/
def demoLast : Frame := { demoAck 1 with flags := tcpFinAck }

/-- Our FIN is acknowledged, the peer's FIN arrives, twice, and a minute later the timer fires. -/
theorem timewait_closes_its_own_demo : ∃ t₁ t : Tcp,
    Run (step demoEnv) (keepsTimewait demoEnv 1) (tcpInit 16) t₁ ∧ t₁.log ≠ [] ∧
    timerDue t.pool 60001 0 = some ⟨60001, .tcpTimewaitCb 1⟩ ∧ (t.conn 1).state = .timeWait ∧
      Run (step demoEnv) (fun u e => u.opens demoEnv e ≠ some 1) t₁ t := by
  obtain ⟨t₁, hrun, hlog, hok, t, hfeed, hdue⟩ := exists_run (step demoEnv)
    (keepsTimewait demoEnv 1) (tcpInit 16)
    (Q := fun t₁ => t₁.log ≠ [] ∧ feedOk (step demoEnv) (fun u e => keepsTimewait demoEnv 1 u e ∧
        u.pool.slot 0 = some ⟨60001, .tcpTimewaitCb 1⟩) t₁
        [⟨1, .rx demoLast⟩, ⟨2, .rx (demoAck 1)⟩] ∧
      ∃ t ∈ feed (step demoEnv) t₁ [⟨1, .rx demoLast⟩, ⟨2, .rx (demoAck 1)⟩],
        timerDue t.pool 60001 0 = some ⟨60001, .tcpTimewaitCb 1⟩)
    (demoOpen ++ [⟨1, .close 1⟩, ⟨1, .rx (demoAck 1)⟩, ⟨1, .rx demoLast⟩])
    (by decide +kernel) (by decide +kernel)
  obtain ⟨hstate, hsame⟩ := timewait_closes_its_own hrun (run_ofList _ hok hfeed) hdue
  exact ⟨t₁, t, hrun, hlog, hdue, hstate, hsame⟩

/-- Both FINs cross in one segment, the peer resets the connection and opens another: the 2MSL
timer of the first is still armed, and closes the second in ESTABLISHED. -/
theorem timewait_closes_another : ∃ t t' : Tcp, Run (step demoEnv) anyEvent (tcpInit 16) t ∧
    (t.conn 1).state = .established ∧
    timerDue t.pool 60001 1 = some ⟨60001, .tcpTimewaitCb 1⟩ ∧
    step demoEnv t ⟨60001, .visit 1⟩ = some t' ∧ (t'.conn 1).state = .closed := by
  obtain ⟨t, hrun, hst, hdue, t', ht', hclosed⟩ := exists_run (step demoEnv) anyEvent (tcpInit 16)
    (Q := fun t => (t.conn 1).state = .established ∧
      timerDue t.pool 60001 1 = some ⟨60001, .tcpTimewaitCb 1⟩ ∧
      ∃ t' ∈ step demoEnv t ⟨60001, .visit 1⟩, (t'.conn 1).state = .closed)
    (demoOpen ++ [⟨1, .close 1⟩, ⟨1, .rx demoLast⟩, ⟨1, .rx { demoRst with seq := 102 }⟩,
      ⟨1, .rx demoSyn⟩, ⟨1, .rx (demoAck 0)⟩])
    (by decide +kernel) (by decide +kernel)
  exact ⟨t, t', hrun, hst, hdue, ht', hclosed⟩

end WsPi5

/-
# `WsPi5.Tcp.Handles` — the index in `TCONN_TIMER_SLOT` and the calls that use it

The pool hands a slot out again as soon as its timer has fired, so an index that is kept too long is
somebody else's.

**Proved here** (`HandlesOk.step`), for every call into the module with the pool and the send
context set: every connection keeps what its index names (`Names`).  The cancelled entries
(`Tcp.cancels` lists the calls) are therefore the caller's (`HandlesOk.safe`).
-/
import WsPi5.Tcp.StoredIndex

namespace WsPi5

open Lib

/-! ## The whole table -/

/-- What a piece of code with these calls of `timer_cancel` does, from one state to the next: the
calls account for the pool, they are safe, and the indices stay good. -/
structure HandleStep (t : Tcp) (cs : List TcpCancel) (t' : Tcp) : Prop where
  calls : PoolCalls t.pool cs t'.pool
  safe : ∀ x ∈ cs, x.Safe keptBy
  ok : HandlesOk t'

section
variable {env : Env} {now : Tick} {t t' t'' : Tcp} {j : Slot} {cs cs' : List TcpCancel}

theorem HandleStep.refl (h : HandlesOk t) : HandleStep t [] t := ⟨.refl, by simp, h⟩

theorem HandleStep.trans (h : HandleStep t cs t') (h' : HandleStep t' cs' t'') :
    HandleStep t (cs ++ cs') t'' where
  calls := h.calls.trans h'.calls
  safe := by
    intro x hx
    rcases List.mem_append.mp hx with hx | hx
    · exact h.safe x hx
    · exact h'.safe x hx
  ok := h'.ok

/-- **What one connection does keeps the index of every connection.** -/
theorem HandlesOk.put (h : HandlesOk t) {l : Local} (hcalls : PoolCalls t.pool cs l.pool)
    (hown : ∀ x ∈ cs, x.owner = j) (hsafe : ∀ x ∈ cs, x.Safe keptBy)
    (hj : l.conn.state.live → Named j l.conn l.pool) : HandleStep t cs (t.put j l) where
  calls := hcalls
  safe := hsafe
  ok := by
    intro i
    by_cases hij : i = j
    · subst hij
      rw [Tcp.put_conn_self]
      exact hj
    · rw [Tcp.put_conn_of_ne _ _ _ hij]
      intro hlive
      refine (h i hlive).frame keptBy hcalls hsafe fun x hx cb hi hj => hij ?_
      rw [hown x hx] at hj
      exact keptBy_unique hi hj

theorem HandlesOk.put_quiet (h : HandlesOk t) {l : Local}
    (hcalls : @PoolCalls _ Slot t.pool [] l.pool)
    (hj : l.conn.state.live → Named j l.conn l.pool) : HandleStep t [] (t.put j l) :=
  h.put hcalls (by simp) (by simp) hj

theorem HandlesOk.same (h : HandlesOk t) (hc : t'.conn = t.conn) (hp : t'.pool = t.pool) :
    HandleStep t [] t' where
  calls := by
    rw [hp]
    exact .refl
  safe := by simp
  ok := by
    intro i
    rw [hc, hp]
    exact h i

theorem HandlesOk.noConn (h : HandlesOk t) (env : Env) (now : Tick) (f : Frame) :
    HandleStep t [] (t.noConn env now f).1 :=
  h.same (noConn_conn env now f t).1 (noConn_conn env now f t).2.1

theorem HandlesOk.touch (h : HandlesOk t) (now : Tick) (j : Slot) :
    HandleStep t [] (t.touch now j) :=
  h.put_quiet .refl fun hlive => (h j hlive).congr ⟨rfl, rfl, rfl, rfl⟩

theorem HandlesOk.tearDown (h : HandlesOk t) (env : Env) (hlive : (t.conn j).state.live) :
    HandleStep t (clearCalls env j (t.at j)) (t.tearDown env j) :=
  h.put (tcpRtxClear_calls env j (t.at j)) (clearCalls_owner env j (t.at j))
    (clearCalls_safe (h j hlive)) fun hclosed => absurd rfl hclosed.1

theorem HandleStep.quiet (h : HandleStep t cs t') (h' : HandleStep t' [] t'') :
    HandleStep t cs t'' := by
  have := h.trans h'
  rwa [List.append_nil] at this

/-! ### Segments -/

theorem dispatch_handles (hpool : env.hasPool = true) (h : HandlesOk t) {f : Frame}
    {evt : TcpEvt} {r : Option Frame} (hc : t.dispatch env now j evt f = some (t', r)) :
    HandleStep t (t.dispatchCancels env now j evt f) t' := by
  unfold Tcp.dispatch at hc
  unfold Tcp.dispatchCancels
  rcases htab : tcpFsaTable (t.conn j).state evt with _ | ⟨next, hd⟩
  · simp only [htab] at hc
    have ht : (t.noConn env now f).1 = t' := congrArg Prod.fst (Option.some.inj hc)
    exact ht ▸ h.noConn env now f
  · simp only [htab] at hc
    obtain ⟨⟨l₁, res⟩, hcall, hres⟩ := Option.map_eq_some_iff.mp hc
    have hlive := (tcpFsaTable_row htab).1
    have hnamed : Named j ((t.at j).withState next).conn ((t.at j).withState next).pool :=
      (h j hlive).congr ⟨rfl, rfl, rfl, rfl⟩
    have hl₁ := Handler.call_named hpool hnamed hcall
    have hput : ∀ l : Local, l.pool = l₁.pool → Kept l₁.conn l.conn →
        HandleStep t (hd.cancels env now j f ((t.at j).withState next)) (t.put j l) := by
      intro l hp hk
      refine h.put ?_ (hd.cancels_owner env now j f _) (hd.cancels_safe hnamed) fun _ => ?_
      · rw [hp]
        exact Handler.call_calls hcall
      · rw [hp]
        exact hl₁.congr hk
    cases res with
    | reply g =>
        cases hres
        exact (hput l₁ rfl (.refl _)).quiet (HandlesOk.touch (hput l₁ rfl (.refl _)).ok now j)
    | quiet =>
        cases hres
        exact (hput l₁ rfl (.refl _)).quiet (HandlesOk.touch (hput l₁ rfl (.refl _)).ok now j)
    | rst =>
        have hback := hput (l₁.withState (t.conn j).state) rfl ⟨rfl, rfl, rfl, rfl⟩
        have ht : ((t.put j (l₁.withState (t.conn j).state)).noConn env now f).1 = t' :=
          congrArg Prod.fst hres
        exact ht ▸ hback.quiet (hback.ok.noConn env now f)

theorem handleConn_handles (hpool : env.hasPool = true) (h : HandlesOk t) {f : Frame}
    {r : Option Frame} (hc : t.handleConn env now j f = some (t', r)) :
    HandleStep t (t.handleConnCancels env now j f) t' := by
  unfold Tcp.handleConn at hc
  unfold Tcp.handleConnCancels
  cases hcls : tcpClassifyEvent f with
  | none =>
      simp only [hcls] at hc
      have ht : (t.noConn env now f).1 = t' := congrArg Prod.fst (Option.some.inj hc)
      exact ht ▸ h.noConn env now f
  | some evt =>
      cases evt with
      | rst =>
          simp only [hcls] at hc
          cases hchk : rstCheck (t.conn j) f with
          | accept =>
              simp only [hchk] at hc
              exact dispatch_handles hpool h hc
          | challenge | discard =>
              simp only [hchk] at hc
              cases hc
              exact .refl h
      | syn | synack | fin | ack =>
          simp only [hcls] at hc
          exact dispatch_handles hpool h hc

/-- The slot for a new connection: nothing is cancelled, or the evicted connection's timer. -/
theorem allocSlot_handles (h : HandlesOk t) {l : Local} (ha : t.allocSlot env = some (j, l)) :
    PoolCalls t.pool (t.allocCancels env) l.pool ∧
      (∀ x ∈ t.allocCancels env, x.owner = j) ∧ ∀ x ∈ t.allocCancels env, x.Safe keptBy := by
  unfold Tcp.allocSlot at ha
  unfold Tcp.allocCancels
  cases hclosed : t.firstIn .closed with
  | some k =>
      simp only [hclosed] at ha
      cases ha
      exact ⟨.refl, by simp, by simp⟩
  | none =>
      simp only [hclosed] at ha
      cases hsyn : t.firstIn .synRcvd with
      | none =>
          simp only [hsyn] at ha
          cases ha
      | some k =>
          simp only [hsyn] at ha
          cases ha
          have hst : (t.conn j).state = .synRcvd := by simpa using List.find?_some hsyn
          have hlive : (t.conn j).state.live := by simp [TcpState.live, hst]
          exact ⟨tcpRtxClear_calls env j (t.at j), clearCalls_owner env j (t.at j),
            clearCalls_safe (h j hlive)⟩

theorem openSlot_named (hpool : env.hasPool = true) (f : Frame) (lport : BitVec 16) (l : Local) :
    Named j (openSlot env now f lport j l).conn (openSlot env now f lport j l).pool := by
  unfold openSlot tcpRtxSave
  refine tcpRtxArm_named hpool (.inl ?_)
  show tcpIsn env now lport f.sport f.ipDst f.ipSrc + 1
    - tcpIsn env now lport f.sport f.ipDst f.ipSrc ≠ 0
  bv_omega

theorem handleListen_handles (now : Tick) (j : Slot) (hpool : env.hasPool = true)
    (h : HandlesOk t) (f : Frame) :
    HandleStep t (match tcpClassifyEvent f with
      | some .syn => t.allocCancels env
      | _ => []) (t.handleListen env now j f).1 := by
  unfold Tcp.handleListen
  cases hcls : tcpClassifyEvent f with
  | none => exact h.noConn env now f
  | some evt =>
      cases evt with
      | rst => exact .refl h
      | synack | fin | ack => exact h.noConn env now f
      | syn =>
          dsimp only
          unfold tcpListenSynHandler
          cases halloc : t.allocSlot env with
          | none =>
              have hnone : t.allocCancels env = [] := by
                unfold Tcp.allocSlot at halloc
                unfold Tcp.allocCancels
                cases hclosed : t.firstIn .closed with
                | some k =>
                    simp only [hclosed] at halloc
                    cases halloc
                | none =>
                    cases hsyn : t.firstIn .synRcvd with
                    | some k =>
                        simp only [hclosed, hsyn] at halloc
                        cases halloc
                    | none => rfl
              rw [hnone]
              exact h.noConn env now f
          | some a =>
              obtain ⟨k, l⟩ := a
              obtain ⟨hcalls, hown, hsafe⟩ := allocSlot_handles h halloc
              have hopen : HandleStep t (t.allocCancels env)
                  (t.put k (openSlot env now f (t.conn j).lport k l)) := by
                refine h.put ?_ hown hsafe fun _ => openSlot_named hpool f _ l
                unfold openSlot tcpRtxSave
                exact tcpRtxArm_calls hcalls
              exact hopen.quiet (hopen.ok.touch now j)

/-! ### The reaper -/

/-- **By induction on the scan**: each connection is torn down in a state whose indices are good. -/
theorem reap_handles (env : Env) (now : Tick) : ∀ (js : List Slot) {t : Tcp}, HandlesOk t →
    HandleStep t (reapCancels env now js t) (js.foldl (reapOne env now) t)
  | [], _, h => .refl h
  | j :: js, t, h => by
      obtain ⟨calls, hcalls, hone⟩ : ∃ calls, reapCancels env now (j :: js) t
            = calls ++ reapCancels env now js (reapOne env now t j) ∧
          HandleStep t calls (reapOne env now t j) := by
        refine ⟨_, rfl, ?_⟩
        unfold reapOne
        cases hlim : idleLimit (t.conn j).state with
        | none => exact .refl h
        | some limit =>
            dsimp only
            split
            · exact h.tearDown env (idleLimit_live (by simp [hlim]))
            · exact .refl h
      rw [hcalls]
      exact hone.trans (reap_handles env now js hone.ok)

theorem tcpStartReaper_handles (h : HandlesOk t) (env : Env) (now : Tick) :
    HandleStep t [] (tcpStartReaper env now t) := by
  unfold tcpStartReaper
  split
  · have hcalls : @PoolCalls _ Slot t.pool []
        (timerSet t.pool (now + env.freq * tcpReaperInterval) .tcpIdleReaperCb).1 :=
      PoolCalls.refl.set _ _
    exact ⟨hcalls, by simp, fun i hlive => (h i hlive).frame keptBy hcalls (by simp) (by simp)⟩
  · exact .refl h

/-! ### One call into the module -/

/-- The pool that the callback finds: a due entry has been freed. -/
def Tcp.fired (now : Tick) (t : Tcp) : Call → Tcp
  | .visit k => if (timerDue t.pool now k).isSome then t.freeEntry k else t
  | _ => t

theorem freeEntry_handles {k : Nat} {e : TimerEntry Callback} (h : HandlesOk t)
    (hk : t.pool.slot k = some e) (hkept : ∀ i, ¬ keptBy i e.callback) :
    HandlesOk (t.freeEntry k) :=
  fun i hlive => (h i hlive).freed hk (hkept i)

/-- A callback of one connection, from the state in which its entry has been freed. -/
theorem callback_handles {k : Nat} {e : TimerEntry Callback} {l : Local} (h : HandlesOk t)
    (hk : t.pool.slot k = some e) (howner : ∀ i, keptBy i e.callback → i = j)
    (hcalls : @PoolCalls _ Slot (t.freeEntry k).pool [] l.pool)
    (hj : l.conn.state.live → Named j l.conn l.pool) :
    HandleStep (t.freeEntry k) [] ((t.freeEntry k).put j l) where
  calls := hcalls
  safe := by simp
  ok := by
    intro i
    by_cases hij : i = j
    · subst hij
      rw [Tcp.put_conn_self]
      exact hj
    · rw [Tcp.put_conn_of_ne _ _ _ hij]
      intro hlive
      refine ((h i hlive).freed hk fun hkept => hij (howner i hkept)).frame keptBy hcalls ?_ ?_
      · simp
      · simp

theorem timerVisit_handles (now : Tick) (hpool : env.hasPool = true)
    (hsend : env.hasSendFn = true) (h : HandlesOk t) (k : Nat) :
    HandleStep (t.fired now (.visit k)) (t.cancels env now (.visit k)) (timerVisit env now k t) := by
  unfold timerVisit
  cases hdue : timerDue t.pool now k with
  | none =>
      simp only [Tcp.fired, Tcp.cancels, hdue, Option.isSome_none, Bool.false_eq_true, if_false]
      exact .refl h
  | some e =>
      obtain ⟨_, hslot⟩ := timerDue_some hdue
      simp only [Tcp.fired, Tcp.cancels, hdue, Option.isSome_some, if_true]
      obtain ⟨x, cb⟩ := e
      cases cb with
      | tcpRetransmitCb j =>
          have hcalls := tcpRetransmitCb_calls env now j ((t.freeEntry k).at j)
          refine callback_handles h hslot ?_ hcalls
            (tcpRetransmitCb_named hpool hsend (h j) hslot)
          intro i hkept
          exact keptBy_unique hkept (.inl rfl)
      | tcpTimewaitCb j =>
          refine callback_handles (l := tcpTimewaitCb ((t.freeEntry k).at j)) h hslot ?_ .refl
            fun hlive => absurd rfl hlive.1
          intro i hkept
          exact keptBy_unique hkept (.inr rfl)
      | tcpPersistCb j =>
          have hfree : HandlesOk (t.freeEntry k) :=
            freeEntry_handles h hslot fun i hkept => by rcases hkept with hk | hk <;> cases hk
          show HandleStep (t.freeEntry k) []
            ((t.freeEntry k).put j (tcpPersistCb env now j ((t.freeEntry k).at j)))
          refine hfree.put_quiet ?_ ?_
          · unfold tcpPersistCb
            split
            · apply tcpPersistArm_calls
              exact .refl
            · exact .refl
          · intro hlive
            unfold tcpPersistCb at hlive ⊢
            split at hlive
            · rename_i hprobe
              rw [if_pos hprobe]
              rw [tcpPersistArm_conn] at hlive ⊢
              refine (hfree j hlive).keep ?_ rfl (Kept.resendable ⟨rfl, rfl, rfl, rfl⟩)
              apply tcpPersistArm_calls
              exact .refl
            · rename_i hprobe
              rw [if_neg hprobe]
              exact hfree j hlive
      | tcpIdleReaperCb =>
          have hfree : HandlesOk (t.freeEntry k) :=
            freeEntry_handles h hslot fun i hkept => by rcases hkept with hk | hk <;> cases hk
          have hreap := reap_handles env now slots hfree
          exact hreap.quiet (tcpStartReaper_handles hreap.ok env now)
      | other id =>
          exact .refl (freeEntry_handles h hslot fun i hkept => by rcases hkept with hk | hk <;> cases hk)

/-- **One call into the module**, other than those that stand for the other users of the pool. -/
theorem HandlesOk.step {e : Event} (hpool : env.hasPool = true) (hsend : env.hasSendFn = true)
    (h : HandlesOk t) (hown : ∀ k, e.call ≠ .otherCancel k) (hst : step env t e = some t') :
    HandleStep (t.fired e.now e.call) (t.cancels env e.now e.call) t' := by
  obtain ⟨now, call⟩ := e
  cases call with
  | rx f =>
      obtain ⟨⟨u, r⟩, hr, rfl⟩ := Option.map_eq_some_iff.mp hst
      unfold tcpHandle at hr
      simp only [Tcp.fired, Tcp.cancels]
      cases hmatch : t.exactMatch f with
      | some i =>
          simp only [hmatch] at hr
          exact handleConn_handles hpool h hr
      | none =>
          simp only [hmatch] at hr
          cases hlisten : t.listenMatch f with
          | none =>
              simp only [hlisten] at hr
              have hu : (t.noConn env now f).1 = u := congrArg Prod.fst (Option.some.inj hr)
              exact hu ▸ h.noConn env now f
          | some i =>
              simp only [hlisten] at hr
              have hu : (t.handleListen env now i f).1 = u :=
                congrArg Prod.fst (Option.some.inj hr)
              have hstep := handleListen_handles now i hpool h f
              rw [hu] at hstep
              cases hcls : tcpClassifyEvent f with
              | none => simpa only [hcls] using hstep
              | some evt => cases evt <;> simpa only [hcls] using hstep
  | send i q =>
      cases hst
      exact h.put_quiet (tcpSend_calls env now i q (t.at i)) (tcpSend_named hpool q (h i))
  | close i =>
      cases hst
      exact h.put_quiet (tcpClose_calls env now i (t.at i)) (tcpClose_named hpool (h i))
  | consume i n =>
      cases hst
      have hsame : (tcpRxConsume i n (t.at i)).pool = t.pool ∧
          (tcpRxConsume i n (t.at i)).conn.state = (t.conn i).state ∧
          Kept (t.conn i) (tcpRxConsume i n (t.at i)).conn := by
        unfold tcpRxConsume
        dsimp only
        split <;> exact ⟨rfl, rfl, rfl, rfl, rfl, rfl⟩
      refine h.put_quiet (by rw [hsame.1]; exact .refl) fun hlive => ?_
      rw [hsame.1]
      exact (h i (hsame.2.1 ▸ hlive)).congr hsame.2.2
  | flush i =>
      cases hst
      exact h.put_quiet .refl fun hlive => (h i hlive).congr ⟨rfl, rfl, rfl, rfl⟩
  | icmpErr code lp rp rip =>
      cases hst
      show HandleStep t (t.cancels env now (.icmpErr code lp rp rip))
        (tcpIcmpErr env code lp rp rip t)
      cases hfind : slots.find? fun i => (t.conn i).matches lp rp rip with
      | none =>
          simp only [tcpIcmpErr, Tcp.cancels, hfind]
          exact .refl h
      | some i =>
          have hlive : (t.conn i).state.live := matches_live (List.find?_some
            (p := fun i => (t.conn i).matches lp rp rip) hfind)
          simp only [tcpIcmpErr, Tcp.cancels, hfind]
          split
          · exact h.tearDown env hlive
          · exact .refl h
  | visit k =>
      cases hst
      exact timerVisit_handles now hpool hsend h k
  | listen port =>
      cases hst
      show HandleStep t [] (tcpListen port t)
      unfold tcpListen
      split
      · exact h.put_quiet .refl fun hlive => absurd rfl hlive.2
      · exact .refl h
  | startReaper =>
      cases hst
      exact tcpStartReaper_handles h env now
  | otherSet x id =>
      cases hst
      have hcalls : @PoolCalls _ Slot t.pool [] (timerSet t.pool x (.other id)).1 :=
        PoolCalls.refl.set _ _
      exact ⟨hcalls, by simp [Tcp.cancels],
        fun i hlive => (h i hlive).frame keptBy hcalls (by simp) (by simp)⟩
  | otherCancel k => exact absurd rfl (hown k)

theorem handles_init (cap : PoolCap) : HandlesOk (tcpInit cap) := fun _ hlive => absurd rfl hlive.1

end

end WsPi5

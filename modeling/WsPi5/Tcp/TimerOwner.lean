/-
# `WsPi5.Tcp.TimerOwner` — which connection owns which entry of the timer pool

A connection should have a retransmit entry in the pool exactly while something it sent waits
for an ACK, at most one, under the index in its `TIMER_SLOT`; and at most one persist entry.

**Proved here** (`timer_ownership`): this holds of every connection in every state reached by
orderly steps.  What a step must not do (`timerOrderly`), each with the reason:

    tcp_send or tcp_close with data in flight      tcp_rtx_arm forgets the entry it replaces
    the third duplicate ACK                        tcp_fast_retransmit arms a second entry
    an accepted FIN with data in flight            CLOSE_WAIT keeps the entry
    FIN_WAIT_1: FIN that acknowledges our FIN      TIME_WAIT keeps the entry
    CLOSING: ACK of our FIN                        the 2MSL timer overwrites TIMER_SLOT
    arming while the pool is full                  timer_set returns -1
    a zero window while a persist entry is pending tcp_persist_arm does not look
    another user cancels a connection's entry

The pool and the send context are set (`hasPool`, `hasSendFn`), as the boot code does before
the first frame.

**Shape of the proof.**  A step changes one connection and the entries of that connection only, so
that the invariants of all connections (`TimersOk`) go through one after the other
(`TimersOk.put`).
-/
import WsPi5.Tcp.SegmentTimers

namespace WsPi5

open Lib

/-! ## The whole table -/

/-- All connections, and nothing beyond the end of the pool. -/
structure TimersOk (conn : Slot → Conn) (p : Pool) : Prop where
  own : ∀ i, TInv i (conn i) p
  beyond : ∀ k, p.cap ≤ k → p.slot k = none

section
variable {env : Env} {now : Tick} {t t' : Tcp} {j : Slot}

theorem TimersOk.frame {conn : Slot → Conn} {p p' : Pool} (h : TimersOk conn p)
    (hf : PoolFrame none p p') : TimersOk conn p' where
  own := fun i => (h.own i).frame hf (by simp)
  beyond := fun k hk => (hf.beyond k (hf.cap ▸ hk)).trans (h.beyond k (hf.cap ▸ hk))

/-- **One connection's step keeps all of them.** -/
theorem TimersOk.put (h : TimersOk t.conn t.pool) {l : Local} (hown : OwnStep j t.pool l) :
    TimersOk (t.put j l).conn (t.put j l).pool := by
  obtain ⟨hj, hfr⟩ := hown
  refine ⟨fun i => ?_, fun k hk => ?_⟩
  · by_cases hij : i = j
    · subst hij
      simpa using hj
    · rw [Tcp.put_conn_of_ne _ _ _ hij, Tcp.put_pool]
      exact (h.own i).frame hfr (by simpa using hij)
  · exact (hfr.beyond k (hfr.cap ▸ hk)).trans (h.beyond k (hfr.cap ▸ hk))

theorem TimersOk.put_same (h : TimersOk t.conn t.pool) {l : Local}
    (htmr : l.conn.tmr = (t.conn j).tmr) (hp : l.pool = t.pool) :
    TimersOk (t.put j l).conn (t.put j l).pool :=
  h.put ⟨by rw [hp]; exact (h.own j).congr htmr, by rw [hp]; exact .refl _ _⟩

theorem TimersOk.touch (h : TimersOk t.conn t.pool) (now : Tick) (j : Slot) :
    TimersOk (t.touch now j).conn (t.touch now j).pool :=
  h.put_same rfl rfl

theorem TimersOk.noConn (h : TimersOk t.conn t.pool) (env : Env) (now : Tick) (f : Frame) :
    TimersOk (t.noConn env now f).1.conn (t.noConn env now f).1.pool := by
  obtain ⟨hc, hp, _⟩ := noConn_conn env now f t
  rw [hc, hp]
  exact h

theorem TimersOk.tearDown (h : TimersOk t.conn t.pool) (hpool : env.hasPool = true)
    (hlive : (t.conn j).state.live) :
    TimersOk (t.tearDown env j).conn (t.tearDown env j).pool :=
  h.put (tornDown_own (l := t.at j) hpool (h.own j) hlive)

/-! ### `tcp_handle` -/

theorem dispatch_timers (hpool : env.hasPool = true) (h : TimersOk t.conn t.pool) {f : Frame}
    {evt : TcpEvt} {r : Option Frame} (hok : segmentOrderly j (t.conn j) t.pool f)
    (hcls : tcpClassifyEvent f = some evt)
    (hc : t.dispatch env now j evt f = some (t', r)) : TimersOk t'.conn t'.pool := by
  unfold Tcp.dispatch at hc
  split at hc
  · have ht : (t.noConn env now f).1 = t' := congrArg Prod.fst (Option.some.inj hc)
    rw [← ht]
    exact h.noConn env now f
  · rename_i next hd htab
    obtain ⟨⟨l₁, res⟩, hcall, hres⟩ := Option.map_eq_some_iff.mp hc
    have hown := recv_own (l := t.at j) hpool now (h.own j) h.beyond hok hcls htab hcall
    have hput := h.put hown
    cases res with
    | reply g =>
        cases hres
        have heq : (t.put j l₁).touch now j = t.put j (l₁.stamp now) := by
          simp [Tcp.touch, Tcp.put, Local.stamp, Tcp.at]
        rw [heq]
        exact hput
    | quiet =>
        cases hres
        have heq : (t.put j l₁).touch now j = t.put j (l₁.stamp now) := by
          simp [Tcp.touch, Tcp.put, Local.stamp, Tcp.at]
        rw [heq]
        exact hput
    | rst =>
        have ht : _ = t' := congrArg Prod.fst hres
        rw [← ht]
        exact TimersOk.noConn hput env now f

theorem handleConn_timers (hpool : env.hasPool = true) (h : TimersOk t.conn t.pool) {f : Frame}
    {r : Option Frame} (hok : segmentOrderly j (t.conn j) t.pool f)
    (hc : t.handleConn env now j f = some (t', r)) : TimersOk t'.conn t'.pool := by
  unfold Tcp.handleConn at hc
  split at hc
  · have ht : (t.noConn env now f).1 = t' := congrArg Prod.fst (Option.some.inj hc)
    rw [← ht]
    exact h.noConn env now f
  · rename_i hcls
    split at hc
    · exact dispatch_timers hpool h hok hcls hc
    · cases hc
      exact h
    · cases hc
      exact h
  · rename_i evt _ hcls
    exact dispatch_timers hpool h hok hcls hc

/-- The slot for a new connection is idle: it was CLOSED, or the half-open connection in it
has just been evicted.  The entry of an evicted connection is free then. -/
theorem allocSlot_idle (hpool : env.hasPool = true) (h : TimersOk t.conn t.pool) {l : Local}
    (hfree : (t.firstIn .closed).isSome → t.pool.hasFree)
    (halloc : t.allocSlot env = some (j, l)) :
    Idle j l.pool ∧ PoolFrame (some j) t.pool l.pool ∧ l.pool.hasFree := by
  unfold Tcp.allocSlot at halloc
  split at halloc
  · rename_i k hk
    cases halloc
    have hst : (t.conn j).state = .closed := by simpa using List.find?_some hk
    exact ⟨(h.own j).idle (by simp [Conn.awaitsAck, hst]) (by simp [hst]), .refl _ _,
      hfree (by simp [hk])⟩
  · split at halloc
    · rename_i k hk
      cases halloc
      have hst : (t.conn j).state = .synRcvd := by simpa using List.find?_some hk
      have hlive : (t.conn j).state.live := by simp [TcpState.live, hst]
      have haw : (t.conn j).awaitsAck := by simp [Conn.awaitsAck, hst]
      obtain ⟨hidle, hfr⟩ := tcpRtxClear_idle (l := t.at j) hpool (h.own j) hlive rfl rfl
      refine ⟨hidle, hfr, ?_⟩
      obtain ⟨m, hm⟩ := Option.ne_none_iff_exists'.mp ((h.own j).armed haw)
      have hcap := ((h.own j).names hlive m hm).1
      intro hnone
      refine firstFree_none hnone m ?_ ?_
      · rw [Local.withState_pool, hfr.cap]
        exact hcap
      · have hcancel : (tcpRtxClear env (t.at j)).pool = timerCancel t.pool m := by
          simp [tcpRtxClear, hm, hpool]
        rw [Local.withState_pool, hcancel]
        exact timerCancel_self hcap
    · cases halloc

theorem openSlot_own (hpool : env.hasPool = true) {p : Pool} {l : Local} {f : Frame}
    {lport : BitVec 16} (hidle : Idle j l.pool) (hfr : PoolFrame (some j) p l.pool)
    (hfree : l.pool.hasFree) : OwnStep j p (openSlot env now f lport j l) := by
  unfold openSlot
  dsimp only
  refine tcpRtxSave_own hpool _ hidle hfr hfree (by simp [Conn.awaitsAck, synConn]) ⟨?_, ?_⟩
  · intro _
    rfl
  · simp [synConn]

theorem handleListen_timers (hpool : env.hasPool = true) (h : TimersOk t.conn t.pool)
    {f : Frame} (hfree : tcpClassifyEvent f = some .syn → (t.firstIn .closed).isSome →
      t.pool.hasFree) :
    TimersOk (t.handleListen env now j f).1.conn (t.handleListen env now j f).1.pool := by
  unfold Tcp.handleListen
  split
  · exact h
  · rename_i hcls
    unfold tcpListenSynHandler
    cases halloc : t.allocSlot env with
    | none => exact h.noConn env now f
    | some a =>
        obtain ⟨k, l⟩ := a
        obtain ⟨hidle, hfr, hhas⟩ := allocSlot_idle hpool h (hfree hcls) halloc
        exact (h.put (openSlot_own hpool hidle hfr hhas)).touch now j
  · exact h.noConn env now f

/-! ### The application and the timers -/

theorem tcpSend_own (hpool : env.hasPool = true) (h : TimersOk t.conn t.pool) {p : List Byte}
    (hok : tcpSendAccepts (t.conn j) p.length = true →
      (t.conn j).inFlight = 0 ∧ t.pool.hasFree) :
    OwnStep j t.pool (tcpSend env now j p (t.at j)).1 := by
  unfold tcpSend
  split
  · rename_i hacc
    obtain ⟨hfl, hfree⟩ := hok hacc
    obtain ⟨hst, hne, hle, _, _⟩ := tcpSendAccepts_spec (c := t.conn j) hacc
    have hsame : (t.conn j).sndUna = (t.conn j).sndNxt := by
      unfold Conn.inFlight at hfl
      bv_omega
    have hno : ¬ (t.conn j).awaitsAck := by
      rw [awaitsAck_established hst]
      exact fun hne => hne hsame
    have hidle := (h.own j).idle hno (by simp [hst])
    have hmss := mss_lt (t.conn j)
    refine tcpRtxArm_own (l := { t.at j with conn := _, log := _ }) hpool hidle (.refl _ _)
      hfree ?_ (.of_established hst)
    refine Or.inl ⟨hst, ?_⟩
    show (t.conn j).sndUna ≠ (t.conn j).sndNxt + BitVec.ofNat 32 p.length
    rw [hsame]
    intro heq
    have hz : BitVec.ofNat 32 p.length = 0 := by bv_omega
    have hlen : p.length % 2 ^ 32 = 0 := congrArg BitVec.toNat hz
    omega
  · exact ⟨h.own j, .refl _ _⟩

theorem tcpClose_own (hpool : env.hasPool = true) (h : TimersOk t.conn t.pool)
    (hok : (t.conn j).state = .established ∨ (t.conn j).state = .closeWait →
      (t.conn j).inFlight = 0 ∧ t.pool.hasFree) :
    OwnStep j t.pool (tcpClose env now j (t.at j)).1 := by
  have hsend : ∀ (s : TcpState) (f : Frame) (log : List Obs),
      (t.conn j).state = .established ∨ (t.conn j).state = .closeWait →
      s = .finWait1 ∨ s = .lastAck →
      OwnStep j t.pool (tcpRtxSave env now j f { t.at j with
        conn := { t.conn j with sndNxt := (t.conn j).sndNxt + 1, state := s }
        log := log }) := by
    intro s f log hst hs
    obtain ⟨hfl, hfree⟩ := hok hst
    have hsame : (t.conn j).sndUna = (t.conn j).sndNxt := by
      unfold Conn.inFlight at hfl
      bv_omega
    have hno : ¬ (t.conn j).awaitsAck := by
      unfold Conn.awaitsAck
      obtain hst | hst := hst <;> simp [hst, hsame]
    have htw : (t.conn j).state ≠ .timeWait := by
      obtain hst | hst := hst <;> simp [hst]
    refine tcpRtxSave_own hpool f ((h.own j).idle hno htw) (.refl _ _) hfree ?_ ⟨?_, ?_⟩
    · unfold Conn.awaitsAck
      obtain rfl | rfl := hs <;> simp
    · intro _
      show (t.conn j).sndNxt + 1 = (t.conn j).sndUna + 1
      rw [hsame]
    · obtain rfl | rfl := hs <;> simp
  unfold tcpClose
  dsimp only [Tcp.at_conn]
  cases hst : (t.conn j).state with
  | established => exact hsend _ _ _ (Or.inl hst) (Or.inl rfl)
  | closeWait => exact hsend _ _ _ (Or.inr hst) (Or.inr rfl)
  | closed | listen | synRcvd | lastAck | finWait1 | finWait2 | timeWait | closing =>
      exact ⟨h.own j, .refl _ _⟩

/-- A pool entry that was due has been freed: the connections see nothing of it but, if it
was one of theirs, that it is gone. -/
theorem freeEntry_frame {k : Nat} {e : TimerEntry Callback}
    (hdue : timerDue t.pool now k = some e) :
    PoolFrame e.callback.owner t.pool (t.freeEntry k).pool := by
  obtain ⟨hk, hslot⟩ := timerDue_some hdue
  refine .update hk ?_ (ownedBy_none _)
  intro y hy
  rw [hslot] at hy
  cases hy
  rfl

theorem freeEntry_hasFree {k : Nat} (hk : k < t.pool.cap) : (t.freeEntry k).pool.hasFree := by
  intro hnone
  exact firstFree_none hnone k hk (by simp [Tcp.freeEntry])

theorem rtxFrame_ne_none {c : Conn} (h : c.inFlight ≠ 0) : rtxFrame env now c ≠ none := by
  unfold rtxFrame tcpSndbufBuildFrame
  rw [if_neg h]
  simp

/-- `tcp_retransmit_cb`, its entry freed: give up, or arm again. -/
theorem tcpRetransmitCb_own (hpool : env.hasPool = true) (hsend : env.hasSendFn = true)
    (h : TimersOk t.conn t.pool) {k : Nat} {x : Tick}
    (hdue : timerDue t.pool now k = some ⟨x, .tcpRetransmitCb j⟩) :
    OwnStep j t.pool (tcpRetransmitCb env now j ((t.freeEntry k).at j)) := by
  obtain ⟨hk, hslot⟩ := timerDue_some hdue
  obtain ⟨haw, hnamed⟩ := (h.own j).rtx k x hslot
  have hidle : Idle j (t.freeEntry k).pool := (h.own j).free_named hnamed
  have hfr : PoolFrame (some j) t.pool (t.freeEntry k).pool := freeEntry_frame hdue
  have hflight : (t.conn j).inFlight ≠ 0 := by
    unfold Conn.inFlight
    obtain ⟨_, hne⟩ | hs := haw
    · bv_omega
    · rw [(h.own j).flight.one hs]
      bv_omega
  unfold tcpRetransmitCb
  split
  · rename_i hdead
    have hdead' : (t.conn j).state = .closed ∨ (t.conn j).state = .listen := hdead
    unfold Conn.awaitsAck at haw
    obtain hd | hd := hdead' <;> simp [hd] at haw
  · split
    · exact ⟨.of_idle hidle (by simp [Conn.awaitsAck]) (fun hl => absurd rfl hl.1)
        ⟨by simp, by simp⟩, hfr⟩
    · have hframe : rtxFrame env now (rtxBackoff env ((t.freeEntry k).at j).conn) ≠ none :=
        rtxFrame_ne_none hflight
      dsimp only
      split
      · rename_i hnone
        exact absurd hnone hframe
      · exact tcpRtxArm_own (l := { (t.freeEntry k).at j with conn := _, log := _ }) hpool
          hidle hfr (freeEntry_hasFree hk) haw ⟨(h.own j).flight.one, (h.own j).flight.none⟩

theorem tcpTimewaitCb_own (h : TimersOk t.conn t.pool) {k : Nat} {x : Tick}
    (hdue : timerDue t.pool now k = some ⟨x, .tcpTimewaitCb j⟩) :
    OwnStep j t.pool (tcpTimewaitCb ((t.freeEntry k).at j)) := by
  obtain ⟨_, hslot⟩ := timerDue_some hdue
  obtain ⟨_, hnamed⟩ := (h.own j).timewait k x hslot
  exact ⟨.of_idle ((h.own j).free_named hnamed) (by simp [Conn.awaitsAck, tcpTimewaitCb])
    (fun hl => absurd rfl hl.1) ⟨by simp [tcpTimewaitCb], by simp [tcpTimewaitCb]⟩,
    freeEntry_frame hdue⟩

/-- `tcp_persist_cb`, its entry freed: the one persist entry is gone, and may come back. -/
theorem tcpPersistCb_own (h : TimersOk t.conn t.pool) {k : Nat} {x : Tick}
    (hdue : timerDue t.pool now k = some ⟨x, .tcpPersistCb j⟩) :
    OwnStep j t.pool (tcpPersistCb env now j ((t.freeEntry k).at j)) := by
  obtain ⟨_, hslot⟩ := timerDue_some hdue
  have hfr : PoolFrame (some j) t.pool (t.freeEntry k).pool := freeEntry_frame hdue
  have hother : ∀ m (e : TimerEntry Callback), e.callback ≠ .tcpPersistCb j →
      ((t.freeEntry k).pool.slot m = some e ↔ t.pool.slot m = some e) := by
    intro m e he
    by_cases hm : m = k
    · subst hm
      simp only [Tcp.freeEntry, Function.update_self, hslot, reduceCtorEq, Option.some.injEq,
        false_iff]
      rintro rfl
      exact he rfl
    · simp [Tcp.freeEntry, Function.update_of_ne hm]
  have hgone : ∀ m y, (t.freeEntry k).pool.slot m ≠ some ⟨y, .tcpPersistCb j⟩ := by
    intro m y hm
    by_cases hmk : m = k
    · subst hmk
      simp [Tcp.freeEntry] at hm
    · simp only [Tcp.freeEntry, Function.update_of_ne hmk] at hm
      exact hmk ((h.own j).persist m k y x hm hslot)
  have hinv : TInv j (t.conn j) (t.freeEntry k).pool := by
    refine ⟨?_, ?_, fun m _ y _ hm => absurd hm (hgone m y), ?_, (h.own j).armed,
      (h.own j).flight⟩
    · intro m y hm
      exact (h.own j).rtx m y ((hother m _ (by simp)).mp hm)
    · intro m y hm
      exact (h.own j).timewait m y ((hother m _ (by simp)).mp hm)
    · intro hlive m hm
      obtain ⟨hcap, ⟨haw, y, hy⟩ | ⟨hs, y, hy⟩⟩ := (h.own j).names hlive m hm
      · exact ⟨hcap, Or.inl ⟨haw, y, (hother m _ (by simp)).mpr hy⟩⟩
      · exact ⟨hcap, Or.inr ⟨hs, y, (hother m _ (by simp)).mpr hy⟩⟩
  unfold tcpPersistCb
  split
  · exact tcpPersistArm_own (hinv.congr rfl) hfr hgone
  · exact ⟨hinv, hfr⟩

theorem reap_timers (hpool : env.hasPool = true) : ∀ (js : List Slot) {t : Tcp},
    TimersOk t.conn t.pool → TimersOk (js.foldl (reapOne env now) t).conn
      (js.foldl (reapOne env now) t).pool
  | [], _, h => h
  | j :: js, t, h => by
      refine reap_timers hpool js ?_
      unfold reapOne
      split
      · exact h
      · rename_i limit hlim
        split
        · refine h.tearDown hpool ⟨?_, ?_⟩
          · intro hs
            simp [hs, idleLimit] at hlim
          · intro hs
            simp [hs, idleLimit] at hlim
        · exact h

theorem tcpStartReaper_timers (h : TimersOk t.conn t.pool) :
    TimersOk (tcpStartReaper env now t).conn (tcpStartReaper env now t).pool := by
  unfold tcpStartReaper
  split
  · exact h.frame (timerSet_frame _ _ rfl)
  · exact h

theorem timerVisit_timers (hpool : env.hasPool = true) (hsend : env.hasSendFn = true)
    (h : TimersOk t.conn t.pool) (k : Nat) :
    TimersOk (timerVisit env now k t).conn (timerVisit env now k t).pool := by
  unfold timerVisit
  split
  · exact h
  · rename_i e hdue
    have hfr := freeEntry_frame hdue
    obtain ⟨x, cb⟩ := e
    cases cb with
    | tcpRetransmitCb j => exact h.put (tcpRetransmitCb_own hpool hsend h hdue)
    | tcpTimewaitCb j => exact h.put (tcpTimewaitCb_own h hdue)
    | tcpPersistCb j => exact h.put (tcpPersistCb_own h hdue)
    | tcpIdleReaperCb =>
        have hfree : TimersOk (t.freeEntry k).conn (t.freeEntry k).pool := h.frame hfr
        exact tcpStartReaper_timers (reap_timers hpool slots hfree)
    | other id =>
        have hfree : TimersOk (t.freeEntry k).conn (t.freeEntry k).pool := h.frame hfr
        exact hfree

end

/-! ## Orderly steps -/

/-- What a step must not do, for the timers to stay in order. -/
def timerOrderly (t : Tcp) (e : Event) : Prop :=
  match e.call with
  | .rx f =>
      match t.exactMatch f with
      | some i => segmentOrderly i (t.conn i) t.pool f
      | none => tcpClassifyEvent f = some .syn → (t.listenMatch f).isSome →
          (t.firstIn .closed).isSome → t.pool.hasFree
  | .send i p => tcpSendAccepts (t.conn i) p.length = true →
      (t.conn i).inFlight = 0 ∧ t.pool.hasFree
  | .close i => (t.conn i).state = .established ∨ (t.conn i).state = .closeWait →
      (t.conn i).inFlight = 0 ∧ t.pool.hasFree
  | .otherCancel k => (t.pool.slot k).bind (fun e => e.callback.owner) = none
  | _ => True

section
variable {env : Env} {t t' : Tcp} {e : Event}

/-- **Every orderly step keeps the timers in order.** -/
theorem step_timers (hpool : env.hasPool = true) (hsend : env.hasSendFn = true)
    (h : TimersOk t.conn t.pool) (hok : timerOrderly t e) (hst : step env t e = some t') :
    TimersOk t'.conn t'.pool := by
  unfold timerOrderly at hok
  unfold step at hst
  cases hcall : e.call with
  | rx f =>
      simp only [hcall] at hok hst
      obtain ⟨⟨u, r⟩, hu, rfl⟩ := Option.map_eq_some_iff.mp hst
      unfold tcpHandle at hu
      cases hmatch : t.exactMatch f with
      | some i =>
          simp only [hmatch] at hok hu
          exact handleConn_timers hpool h hok hu
      | none =>
          simp only [hmatch] at hok hu
          split at hu
          · rename_i i hlisten
            have hu' : (t.handleListen env e.now i f).1 = u :=
              congrArg Prod.fst (Option.some.inj hu)
            rw [← hu']
            exact handleListen_timers hpool h (fun hcls => hok hcls (by simp [hlisten]))
          · have hu' : (t.noConn env e.now f).1 = u := congrArg Prod.fst (Option.some.inj hu)
            rw [← hu']
            exact h.noConn env e.now f
  | send i p =>
      simp only [hcall] at hok hst
      cases hst
      exact h.put (tcpSend_own hpool h hok)
  | close i =>
      simp only [hcall] at hok hst
      cases hst
      exact h.put (tcpClose_own hpool h hok)
  | consume i n =>
      simp only [hcall] at hst
      cases hst
      refine h.put_same ?_ ?_
      · unfold tcpRxConsume
        dsimp only
        split <;> rfl
      · unfold tcpRxConsume
        dsimp only
        split <;> rfl
  | flush i =>
      simp only [hcall] at hst
      cases hst
      exact h.put_same rfl rfl
  | icmpErr code lp rp rip =>
      simp only [hcall] at hst
      cases hst
      unfold tcpIcmpErr
      split
      · exact h
      · rename_i i hfind
        have hm := List.find?_some hfind
        simp only [Conn.matches, Bool.and_eq_true, decide_eq_true_eq] at hm
        split
        · exact h.tearDown hpool ⟨hm.1.1.1.1, hm.1.1.1.2⟩
        · exact h
  | visit k =>
      simp only [hcall] at hst
      cases hst
      exact timerVisit_timers hpool hsend h k
  | listen port =>
      simp only [hcall] at hst
      cases hst
      unfold tcpListen
      split
      · rename_i i hfirst
        have hs : (t.conn i).state = .closed := by simpa using List.find?_some hfirst
        have hidle := (h.own i).idle (by simp [Conn.awaitsAck, hs]) (by simp [hs])
        exact h.put ⟨.of_idle hidle (by simp [Conn.awaitsAck]) (fun hl => absurd rfl hl.2)
          ⟨by simp, by simp⟩, .refl _ _⟩
      · exact h
  | startReaper =>
      simp only [hcall] at hst
      cases hst
      exact tcpStartReaper_timers h
  | otherSet x id =>
      simp only [hcall] at hst
      cases hst
      exact h.frame (timerSet_frame _ _ rfl)
  | otherCancel k =>
      simp only [hcall] at hok hst
      cases hst
      show TimersOk t.conn (timerCancel t.pool k)
      unfold timerCancel
      split
      · rename_i hk
        refine h.frame (.update hk ?_ (ownedBy_none _))
        intro y hy
        simpa [hy] using hok
      · exact h

theorem timers_init (cap : PoolCap) : TimersOk (tcpInit cap).conn (tcpInit cap).pool where
  own := by
    intro i
    have hidle : Idle i (tcpInit cap).pool :=
      ⟨by simp [tcpInit, timerPoolInit], by simp [tcpInit, timerPoolInit],
        by simp [tcpInit, timerPoolInit]⟩
    exact .of_idle hidle (by simp [Conn.awaitsAck, tcpInit]) (fun hl => absurd rfl hl.1)
      ⟨by simp [tcpInit], by simp [tcpInit]⟩
  beyond := fun _ _ => rfl

end

/-! ## The result -/

/-- **Timer ownership.**  With the pool and the send context set, in every state reached by
orderly steps, every connection has a retransmit entry exactly while it waits for an ACK, at
most one, under the index in its `TIMER_SLOT`, and at most one persist entry. -/
theorem timer_ownership {env : Env} {cap : PoolCap} {t : Tcp} (hpool : env.hasPool = true)
    (hsend : env.hasSendFn = true) (hrun : Run (step env) timerOrderly (tcpInit cap) t)
    (i : Slot) : TimerOwned i (t.conn i) t.pool := by
  have hinv := hrun.invariant (P := fun t => TimersOk t.conn t.pool) (timers_init cap)
    (fun h hok hst => step_timers hpool hsend h hok hst)
  exact (hinv.own i).owned

instance decHasFree (p : Pool) : Decidable p.hasFree := inferInstanceAs (Decidable (_ ≠ none))

instance decSegmentOrderly (i : Slot) (c : Conn) (p : Pool) (f : Frame) :
    Decidable (segmentOrderly i c p f) := by
  unfold segmentOrderly thirdDupAck noPersist finAccepted
  split <;> infer_instance

instance decTimerOrderly (t : Tcp) : ∀ e, Decidable (timerOrderly t e)
  | ⟨_, .rx f⟩ => by
      unfold timerOrderly
      dsimp only
      cases t.exactMatch f <;> dsimp only <;> infer_instance
  | ⟨_, .send _ _⟩ | ⟨_, .close _⟩ => inferInstanceAs (Decidable (_ → _ ∧ _))
  | ⟨_, .otherCancel _⟩ => inferInstanceAs (Decidable (_ = _))
  | ⟨_, .consume _ _⟩ | ⟨_, .flush _⟩ | ⟨_, .icmpErr _ _ _ _⟩ | ⟨_, .visit _⟩ | ⟨_, .listen _⟩
  | ⟨_, .startReaper⟩ | ⟨_, .otherSet _ _⟩ => isTrue trivial

/-- One byte in flight after a timeout: one entry, and the record names it. -/
theorem timer_ownership_demo : ∃ t : Tcp,
    Run (step demoEnv) timerOrderly (tcpInit 16) t ∧
    (t.conn 1).sndNxt ≠ (t.conn 1).sndUna ∧ TimerOwned 1 (t.conn 1) t.pool := by
  obtain ⟨t, hrun, hne⟩ := exists_run (step demoEnv) timerOrderly
    (tcpInit 16) (Q := fun t => (t.conn 1).sndNxt ≠ (t.conn 1).sndUna)
    (demoOpen ++ [⟨1, .send 1 [65]⟩, ⟨1, .rx (demoAck 1)⟩, ⟨1, .send 1 [66]⟩, ⟨5000, .visit 0⟩])
    (by decide +kernel) (by decide +kernel)
  exact ⟨t, hrun, hne, timer_ownership rfl rfl hrun 1⟩

/-- Two segments in flight: the second `tcp_send` arms a second entry. -/
theorem two_sends_two_entries : ∃ t : Tcp, Run (step demoEnv) anyEvent (tcpInit 16) t ∧
    ¬ TimerOwned 1 (t.conn 1) t.pool := by
  obtain ⟨t, hrun, h₀, h₁⟩ := exists_run (step demoEnv) anyEvent
    (tcpInit 16)
    (Q := fun t => t.pool.slot 0 = some ⟨1001, .tcpRetransmitCb 1⟩ ∧
      t.pool.slot 1 = some ⟨1001, .tcpRetransmitCb 1⟩)
    (demoOpen ++ [⟨1, .send 1 [65]⟩, ⟨1, .send 1 [66]⟩]) (by decide +kernel) (by decide +kernel)
  refine ⟨t, hrun, fun h => ?_⟩
  exact absurd (h.unique 0 1 _ _ h₀ h₁) (by decide)

end WsPi5

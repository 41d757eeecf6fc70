/-
# `WsPi5.Tcp.SegmentTimers` — what a segment does to the entries of its connection

A segment is orderly (`segmentOrderly`) if it is none of these, each of which arms a second entry or
leaves one behind.

    the third duplicate ACK, in ESTABLISHED            tcp_fast_retransmit arms a second entry
    a zero window while a persist entry is pending     tcp_persist_arm does not look
    an accepted FIN with data in flight                CLOSE_WAIT keeps the entry
    FIN_WAIT_1: FIN that acknowledges our FIN          TIME_WAIT keeps the entry
    CLOSING: ACK of our FIN                            the 2MSL timer overwrites TIMER_SLOT

**Proved here** (`recv_own`): an orderly segment keeps the invariant of its connection, by whichever
handler the table has for it.
-/
import WsPi5.Tcp.PoolOwner

namespace WsPi5

open Lib

/-! ## Segments -/

/-- No entry of the pool is the connection's persist entry. -/
def noPersist (i : Slot) (p : Pool) : Prop :=
  ∀ k, k < p.cap → (p.slot k).map TimerEntry.callback ≠ some (.tcpPersistCb i)

/-- The segment that makes the ACK handler call `tcp_fast_retransmit`. -/
def thirdDupAck (f : Frame) (c : Conn) : Prop :=
  f.ack = c.sndUna ∧ c.sndNxt ≠ c.sndUna ∧ c.dupAckCnt + 1 = tcpDupackThresh ∧
    pawsFails f c = false ∧
    (f.payload = [] ∨ (f.seq = c.rcvNxt ∧ tcpRxbufSize < c.rxlen + f.payload.length))

/-- The test of the FIN handler. -/
def finAccepted (f : Frame) (c : Conn) : Prop :=
  f.payload = [] ∨ (f.seq = c.rcvNxt ∧ c.rxlen + f.payload.length ≤ tcpRxbufSize)

/-- What a segment for connection `i` must not be, in each state. -/
def segmentOrderly (i : Slot) (c : Conn) (p : Pool) (f : Frame) : Prop :=
  match c.state, tcpClassifyEvent f with
  | .established, some .ack =>
      ¬ thirdDupAck f c ∧ (scaledWindow f c = 0 ∧ c.persistShift = 0 → noPersist i p)
  | .established, some .fin => finAccepted f c → c.sndUna = c.sndNxt
  | .finWait1, some .fin => ¬ (f.has tcpAckFlag ∧ f.ack = c.sndNxt)
  | .closing, some .ack => f.ack ≠ c.sndNxt
  | _, _ => True

def Handler.row (s : TcpState) (evt : TcpEvt) (next : TcpState) : Handler → Prop
  | .connClose => next = .closed
  | .drop => next = s
  | .synrcvdAck => s = .synRcvd ∧ next = .established
  | .estabAck => s = .established ∧ evt = .ack ∧ next = .established
  | .estabFin => s = .established ∧ evt = .fin ∧ next = .closeWait
  | .lastackAck => s = .lastAck ∧ next = .closed
  | .finwait1Ack => s = .finWait1 ∧ next = .finWait2
  | .finwait1Fin => s = .finWait1 ∧ evt = .fin ∧ next = .closing
  | .finwait2Fin => s = .finWait2 ∧ next = .timeWait
  | .timewaitFin => s = .timeWait ∧ next = .timeWait
  | .closingAck => s = .closing ∧ evt = .ack ∧ next = .timeWait

theorem tcpFsaTable_row {s next : TcpState} {evt : TcpEvt} {h : Handler}
    (htab : tcpFsaTable s evt = some (next, h)) : s.live ∧ h.row s evt next := by
  cases s <;> cases evt <;> simp only [tcpFsaTable, Option.some.injEq, Prod.mk.injEq,
    reduceCtorEq] at htab <;> obtain ⟨rfl, rfl⟩ := htab <;>
    simp [TcpState.live, Handler.row]

section
variable {env : Env} {now : Tick} {i : Slot} {f : Frame} {c c' : Conn} {p : Pool}

/-- The entries stay what they are if the connection goes on waiting, or goes on not to. -/
theorem TInv.reaim (h : TInv i c p) (hlive : c.state.live)
    (hslot : c'.timerSlot = c.timerSlot) (haw : c'.awaitsAck ↔ c.awaitsAck)
    (htw : c'.state = .timeWait ↔ c.state = .timeWait) (hfl : FlightShape c') :
    TInv i c' p where
  rtx := by simpa only [hslot, haw] using h.rtx
  timewait := by simpa only [hslot, htw] using h.timewait
  persist := h.persist
  names := by
    intro _ k hk
    have := h.names hlive k (hslot ▸ hk)
    simpa only [SlotNames, haw, htw] using this
  armed := by simpa only [hslot, haw] using h.armed
  flight := hfl

theorem FlightShape.of_established (h : c.state = .established) : FlightShape c :=
  ⟨by simp [h], by simp [h]⟩

theorem awaitsAck_established (h : c.state = .established) :
    c.awaitsAck ↔ c.sndUna ≠ c.sndNxt := by
  simp [Conn.awaitsAck, h]

/-! ### The ACK handler -/

theorem commitTs_tmr (f : Frame) (c : Conn) : (commitTs f c).tmr = c.tmr := by
  unfold commitTs
  split
  · split <;> rfl
  · rfl

theorem oooMerge_tmr : ∀ (n : Nat) (c : Conn), (oooMerge n c).tmr = c.tmr
  | 0, _ => rfl
  | n + 1, c => by
      unfold oooMerge
      split
      · rfl
      · exact oooMerge_tmr n _

theorem commitTs_dupAckCnt (f : Frame) (c : Conn) :
    (commitTs f c).dupAckCnt = c.dupAckCnt := by
  unfold commitTs
  split
  · split <;> rfl
  · rfl

theorem eakPureAck_tmr {l l' : Local} (hc : eakPureAck env now i f l = some l')
    (hno : ¬ (f.ack = l.conn.sndUna ∧ l.conn.sndNxt ≠ l.conn.sndUna ∧
      l.conn.dupAckCnt + 1 = tcpDupackThresh)) :
    l'.conn.tmr = l.conn.tmr ∧ l'.pool = l.pool := by
  have hts := commitTs_tmr f l.conn
  have hu : (commitTs f l.conn).sndUna = l.conn.sndUna := congrArg Tmr.sndUna hts
  have hn : (commitTs f l.conn).sndNxt = l.conn.sndNxt := congrArg Tmr.sndNxt hts
  rw [← hu, ← hn, ← commitTs_dupAckCnt f l.conn] at hno
  unfold eakPureAck at hc
  dsimp only at hc
  split at hc
  · rename_i hdup
    split at hc
    · cases hc
      exact ⟨hts, rfl⟩
    · split at hc
      · cases hc
        exact ⟨hts, rfl⟩
      · exact absurd ⟨hdup.1, hdup.2, by omega⟩ hno
  · cases hc
    exact ⟨hts, rfl⟩

theorem eakData_tmr {l l' : Local} {r : HRes} (hc : eakData env now i f l = some (l', r))
    (hpaws : pawsFails f l.conn = false) (hno : ¬ thirdDupAck f l.conn) :
    l'.conn.tmr = l.conn.tmr ∧ l'.pool = l.pool := by
  have hts := commitTs_tmr f l.conn
  unfold eakData at hc
  dsimp only at hc
  split at hc
  · rename_i hempty
    obtain ⟨m, hm, hmr⟩ := Option.map_eq_some_iff.mp hc
    cases hmr
    exact eakPureAck_tmr hm (fun hdup => hno ⟨hdup.1, hdup.2.1, hdup.2.2, hpaws, Or.inl hempty⟩)
  · split at hc
    · rename_i hseq
      split at hc
      · cases hc
        exact ⟨(oooMerge_tmr _ _).trans hts, rfl⟩
      · rename_i hfull
        obtain ⟨m, hm, hmr⟩ := Option.map_eq_some_iff.mp hc
        cases hmr
        have hrx : (commitTs f l.conn).rxlen = l.conn.rxlen := by
          unfold commitTs
          split
          · split <;> rfl
          · rfl
        have hu : (commitTs f l.conn).sndUna = l.conn.sndUna := congrArg Tmr.sndUna hts
        have hn : (commitTs f l.conn).sndNxt = l.conn.sndNxt := congrArg Tmr.sndNxt hts
        obtain ⟨h₁, h₂⟩ := eakPureAck_tmr hm (by
          rw [commitTs_dupAckCnt, hu, hn]
          intro hdup
          refine hno ⟨hdup.1, hdup.2.1, hdup.2.2, hpaws, Or.inr ⟨hseq, ?_⟩⟩
          rw [hrx] at hfull
          omega)
        exact ⟨h₁.trans hts, h₂⟩
    · split at hc
      · cases hc
        exact ⟨rfl, rfl⟩
      · cases hc
        exact ⟨rfl, rfl⟩

theorem eakWindow_own (env : Env) (now : Tick) {l : Local} (h : TInv i l.conn l.pool)
    (hzero : scaledWindow f l.conn = 0 ∧ l.conn.persistShift = 0 →
      ∀ j y, l.pool.slot j ≠ some ⟨y, .tcpPersistCb i⟩) :
    OwnStep i l.pool (eakWindow env now i f l) := by
  unfold eakWindow
  dsimp only
  split
  · rename_i hw
    split
    · rename_i hshift
      exact tcpPersistArm_own (h.congr rfl) (.refl _ _) (hzero ⟨hw, hshift⟩)
    · exact ⟨h.congr rfl, .refl _ _⟩
  · exact ⟨h.congr rfl, .refl _ _⟩

theorem eakTail_tmr (env : Env) (now : Tick) (f : Frame) (c : Conn) :
    (eakCwnd f (eakRtt env now c)).tmr = c.tmr := by
  have hrtt : (eakRtt env now c).tmr = c.tmr := by
    unfold eakRtt tcpRttUpdate
    split
    · dsimp only
      split <;> rfl
    · rfl
  rw [← hrtt]
  unfold eakCwnd
  split <;> rfl

/-- The ACK processing: an ACK of everything drops the entry, a partial one keeps it. -/
theorem eakAck_own (hpool : env.hasPool = true) (now : Tick) (f : Frame) {l : Local} (h : TInv i l.conn l.pool)
    (hst : l.conn.state = .established) : OwnStep i l.pool (eakAck env now f l) := by
  have hlive : l.conn.state.live := by simp [TcpState.live, hst]
  unfold eakAck
  split
  · rename_i hadv
    have htail := eakTail_tmr env now f (eakAdvance f l.conn)
    have hs : (eakCwnd f (eakRtt env now (eakAdvance f l.conn))).state = .established :=
      (congrArg Tmr.state htail).trans hst
    have hu : (eakCwnd f (eakRtt env now (eakAdvance f l.conn))).sndUna = f.ack :=
      congrArg Tmr.sndUna htail
    have hn : (eakCwnd f (eakRtt env now (eakAdvance f l.conn))).sndNxt = l.conn.sndNxt :=
      congrArg Tmr.sndNxt htail
    have ht : (eakCwnd f (eakRtt env now (eakAdvance f l.conn))).timerSlot
        = l.conn.timerSlot := congrArg Tmr.timerSlot htail
    dsimp only
    split
    · rename_i hall
      obtain ⟨hidle, hfr⟩ := tcpRtxClear_idle hpool h hlive
        (l := { l with conn := eakCwnd f (eakRtt env now (eakAdvance f l.conn)) }) ht rfl
      refine ⟨.of_idle hidle (fun haw => ?_) (fun _ => rfl) (.of_established hs), hfr⟩
      exact (awaitsAck_established hs).mp haw (hu.trans hall)
    · rename_i hpart
      refine ⟨h.reaim hlive ht ?_ (by rw [hs, hst]) (.of_established hs), .refl _ _⟩
      rw [awaitsAck_established hs, awaitsAck_established hst, hu]
      simp only [ackAdvances, Bool.and_eq_true, decide_eq_true_eq] at hadv
      constructor
      · intro _ heq
        bv_omega
      · exact fun _ => hpart
  · exact ⟨h, .refl _ _⟩

theorem thirdDupAck_after {l : Local} (hno : ¬ thirdDupAck f l.conn) :
    ¬ thirdDupAck f (eakAck env now f (eakWindow env now i f l)).conn := by
  have hsame : ∀ c c' : Conn, c'.sndUna = c.sndUna → c'.sndNxt = c.sndNxt →
      c'.dupAckCnt = c.dupAckCnt → c'.tsEnabled = c.tsEnabled → c'.tsRecent = c.tsRecent →
      c'.rcvNxt = c.rcvNxt → c'.rxlen = c.rxlen → thirdDupAck f c' → thirdDupAck f c := by
    intro c c' h₁ h₂ h₃ h₄ h₅ h₆ h₇ h
    simpa only [thirdDupAck, pawsFails, segTs, h₁, h₂, h₃, h₄, h₅, h₆, h₇] using h
  unfold eakAck
  split
  · -- an ACK that advances resets the count
    have hzero : ∀ c : Conn, (eakCwnd f c).dupAckCnt = 0 := by
      intro c
      unfold eakCwnd
      split <;> rfl
    intro hthird
    obtain ⟨_, _, hcount, _⟩ := hthird
    dsimp only at hcount
    split at hcount
    · have := hzero (eakRtt env now (eakAdvance f (eakWindow env now i f l).conn))
      simp only [tcpRtxClear, this, tcpDupackThresh] at hcount
      omega
    · have := hzero (eakRtt env now (eakAdvance f (eakWindow env now i f l).conn))
      simp only [this, tcpDupackThresh] at hcount
      omega
  · refine fun hthird => hno (hsame _ _ ?_ ?_ ?_ ?_ ?_ ?_ ?_ hthird) <;>
    · unfold eakWindow
      dsimp only
      split
      · split
        · rw [tcpPersistArm_conn]
        · rfl
      · rfl

/-- **The ACK handler.** -/
theorem tcpEstabAckHandler_own (hpool : env.hasPool = true) {l l' : Local} {r : HRes}
    (h : TInv i l.conn l.pool) (hst : l.conn.state = .established)
    (hno : ¬ thirdDupAck f l.conn)
    (hzero : scaledWindow f l.conn = 0 ∧ l.conn.persistShift = 0 →
      ∀ j y, l.pool.slot j ≠ some ⟨y, .tcpPersistCb i⟩)
    (hc : tcpEstabAckHandler env now i f l = some (l', r)) : OwnStep i l.pool l' := by
  obtain ⟨hw, hwfr⟩ := eakWindow_own env now h hzero
  have hwst : (eakWindow env now i f l).conn.state = .established :=
    (congrArg Cfg.state (eakWindow_cfg env now i f l)).trans hst
  obtain ⟨ha, hafr⟩ := eakAck_own hpool now f hw hwst
  have hfr := hwfr.trans hafr
  unfold tcpEstabAckHandler at hc
  dsimp only at hc
  split at hc
  · cases hc
    exact ⟨ha, hfr⟩
  · rename_i hpaws
    obtain ⟨htmr, hpl⟩ := eakData_tmr hc (by simpa using hpaws) (thirdDupAck_after hno)
    rw [OwnStep, hpl]
    exact ⟨ha.congr htmr, hfr⟩

/-! ### The other handlers -/

theorem OwnStep.settle {l : Local} {old : TcpState} {r : HRes} (h : OwnStep i p l)
    (hst : l.conn.state = old ∨ r ≠ .rst) : OwnStep i p (settle now old l r) := by
  cases r with
  | rst =>
      obtain hst | hne := hst
      · refine ⟨h.1.congr ?_, h.2⟩
        simp [WsPi5.settle, Conn.tmr, Local.withState, hst]
      · exact absurd rfl hne
  | quiet | reply _ => exact ⟨h.1.congr rfl, h.2⟩

/-- The three closing handlers: going back changes nothing, going on is `acked`. -/
theorem closingAck_own {stay next : TcpState} {acked : Local → Local} {l l' : Local} {r : HRes}
    (h : TInv i l.conn l.pool) (hst : l.conn.state = stay)
    (hacked : f.ack = l.conn.sndNxt → OwnStep i l.pool (acked (l.withState next)))
    (hc : closingAck f stay acked (l.withState next) = (l', r)) :
    OwnStep i l.pool (settle now stay l' r) := by
  have hback : OwnStep i l.pool ((l.withState next).withState stay) := by
    refine ⟨h.congr ?_, .refl _ _⟩
    simp [Conn.tmr, Local.withState, hst]
  unfold closingAck at hc
  split at hc
  · cases hc
    exact hback.settle (Or.inl rfl)
  · split at hc
    · rename_i hack
      cases hc
      exact (hacked hack).settle (Or.inr (by simp))
    · cases hc
      exact hback.settle (Or.inl rfl)

theorem tcpRtxClear_own (hpool : env.hasPool = true) {l m : Local} (h : TInv i l.conn l.pool)
    (hlive : l.conn.state.live) (hslot : m.conn.timerSlot = l.conn.timerSlot)
    (hp : m.pool = l.pool) (hno : ¬ m.conn.awaitsAck) (hfl : FlightShape m.conn) :
    OwnStep i l.pool (tcpRtxClear env m) := by
  obtain ⟨hidle, hfr⟩ := tcpRtxClear_idle hpool h hlive hslot hp
  exact ⟨.of_idle hidle hno (fun _ => rfl) ⟨hfl.one, hfl.none⟩, hfr⟩

theorem estabFin_own {l l' : Local} {r : HRes} (h : TInv i l.conn l.pool)
    (hst : l.conn.state = .established) (hok : finAccepted f l.conn → l.conn.sndUna = l.conn.sndNxt)
    (hc : tcpEstabFinHandler now f (l.withState .closeWait) = (l', r)) :
    OwnStep i l.pool l' := by
  have hlive : l.conn.state.live := by simp [TcpState.live, hst]
  -- an accepted FIN finds nothing in flight, so there is no entry
  have hdone : l.conn.sndUna = l.conn.sndNxt → ∀ c' : Conn,
      c'.tmr = { l.conn.tmr with state := .closeWait } → TInv i c' l.pool := by
    intro heq c' hc'
    have hs : c'.state = .closeWait := congrArg Tmr.state hc'
    have hu : c'.sndUna = l.conn.sndUna := congrArg Tmr.sndUna hc'
    have hn : c'.sndNxt = l.conn.sndNxt := congrArg Tmr.sndNxt hc'
    have ht : c'.timerSlot = l.conn.timerSlot := congrArg Tmr.timerSlot hc'
    have hno : ¬ l.conn.awaitsAck := by
      rw [awaitsAck_established hst]
      exact fun hne => hne heq
    refine .of_idle (h.idle hno (by simp [hst])) (by simp [Conn.awaitsAck, hs]) ?_ ⟨?_, ?_⟩
    · intro _
      rw [ht]
      exact h.timerSlot_none hlive hno (by simp [hst])
    · simp [hs]
    · intro _
      rw [hu, hn, heq]
  simp only [tcpEstabFinHandler] at hc
  have hl' : l' = _ := (congrArg Prod.fst hc).symm
  rw [hl']
  refine ⟨?_, .refl _ _⟩
  dsimp only
  split
  · rename_i hempty
    exact hdone (hok (Or.inl hempty)) _ rfl
  · split
    · rename_i hin
      exact hdone (hok (Or.inr hin)) _ rfl
    · refine h.congr ?_
      simp [Conn.tmr, Local.withState, hst]

theorem synrcvdAck_own (hpool : env.hasPool = true) (now : Tick) {l l' : Local} {r : HRes}
    (h : TInv i l.conn l.pool) (hlive : l.conn.state.live)
    (hc : tcpSynrcvdAckHandler env f (l.withState .established) = (l', r)) :
    OwnStep i l.pool (settle now l.conn.state l' r) := by
  unfold tcpSynrcvdAckHandler at hc
  split at hc
  · cases hc
    obtain ⟨h₁, h₂⟩ := tcpRtxClear_own hpool h hlive
      (m := { l.withState .established with
        conn := { (l.withState .established).conn with sndUna := l.conn.sndNxt } })
      rfl rfl (by simp [Conn.awaitsAck, Local.withState]) (.of_established rfl)
    exact ⟨h₁.congr rfl, h₂⟩
  · cases hc
    exact ⟨h.congr rfl, .refl _ _⟩

theorem estabAck_own (hpool : env.hasPool = true) (now : Tick) {l l' : Local} {r : HRes}
    (h : TInv i l.conn l.pool) (hbeyond : ∀ k, l.pool.cap ≤ k → l.pool.slot k = none)
    (hst : l.conn.state = .established) (hthird : ¬ thirdDupAck f l.conn)
    (hzero : scaledWindow f l.conn = 0 ∧ l.conn.persistShift = 0 → noPersist i l.pool)
    (hc : tcpEstabAckHandler env now i f (l.withState .established) = some (l', r)) :
    OwnStep i l.pool (settle now l.conn.state l' r) := by
  have hsame : (l.withState .established).conn = l.conn := by
    show ({ l.conn with state := .established } : Conn) = l.conn
    rw [← hst]
  have hl : l.withState .established = l := by
    show (⟨(l.withState .established).conn, l.pool, l.log⟩ : Local) = l
    rw [hsame]
  rw [hl] at hc
  have hnone : scaledWindow f l.conn = 0 ∧ l.conn.persistShift = 0 →
      ∀ j y, l.pool.slot j ≠ some ⟨y, .tcpPersistCb i⟩ := by
    intro hz j y hj
    by_cases hcap : j < l.pool.cap
    · exact hzero hz j hcap (by simp [hj])
    · simp [hbeyond j (by omega)] at hj
  exact (tcpEstabAckHandler_own hpool h hst hthird hnone hc).settle
    (Or.inl (tcpEstabAckHandler_state hc))

/-- The FIN that does not acknowledge ours: CLOSING, and the entry stays. -/
theorem finwait1Fin_own (now : Tick) {l l' : Local} {r : HRes} (h : TInv i l.conn l.pool)
    (hlive : l.conn.state.live) (hst : l.conn.state = .finWait1)
    (hno : ¬ (f.has tcpAckFlag ∧ f.ack = l.conn.sndNxt))
    (hc : tcpFinwait1FinHandler env now i f (l.withState .closing) = (l', r)) :
    OwnStep i l.pool (settle now l.conn.state l' r) := by
  unfold tcpFinwait1FinHandler at hc
  dsimp only at hc
  split at hc
  · rename_i hack
    exact absurd hack hno
  · cases hc
    refine ⟨h.reaim hlive rfl ?_ ?_ ⟨?_, ?_⟩, .refl _ _⟩
    · simp [Conn.awaitsAck, Local.withState, Local.stamp, settle, hst]
    · simp [Local.withState, Local.stamp, settle, hst]
    · intro _
      exact h.flight.one (by simp [hst])
    · simp [Local.withState, Local.stamp, settle]

/-- **Segments.**  An orderly segment keeps the invariant of its connection and touches only
that connection's entries. -/
theorem recv_own (hpool : env.hasPool = true) (now : Tick) {evt : TcpEvt} {next : TcpState} {hd : Handler}
    {l l' : Local} {r : HRes} (h : TInv i l.conn l.pool)
    (hbeyond : ∀ k, l.pool.cap ≤ k → l.pool.slot k = none)
    (hok : segmentOrderly i l.conn l.pool f) (hcls : tcpClassifyEvent f = some evt)
    (htab : tcpFsaTable l.conn.state evt = some (next, hd))
    (hc : hd.call env now i f (l.withState next) = some (l', r)) :
    OwnStep i l.pool (settle now l.conn.state l' r) := by
  obtain ⟨hlive, hrow⟩ := tcpFsaTable_row htab
  unfold segmentOrderly at hok
  rw [hcls] at hok
  cases hd with
  | connClose =>
      cases hrow
      cases hc
      exact OwnStep.settle (tornDown_own hpool h hlive) (Or.inr (by simp))
  | drop =>
      cases hrow
      cases hc
      exact ⟨h.congr rfl, .refl _ _⟩
  | synrcvdAck =>
      obtain ⟨-, rfl⟩ := hrow
      exact synrcvdAck_own hpool now h hlive (Option.some.inj hc)
  | estabAck =>
      obtain ⟨hs, rfl, rfl⟩ := hrow
      rw [hs] at hok
      obtain ⟨hthird, hzero⟩ := hok
      exact estabAck_own hpool now h hbeyond hs hthird hzero hc
  | estabFin =>
      obtain ⟨hs, rfl, rfl⟩ := hrow
      rw [hs] at hok
      have hc' := Option.some.inj hc
      refine (estabFin_own h hs hok hc').settle (Or.inr ?_)
      have hr : (tcpEstabFinHandler now f (l.withState .closeWait)).2 = r :=
        congrArg Prod.snd hc'
      rw [← hr]
      simp [tcpEstabFinHandler]
  | lastackAck =>
      obtain ⟨hs, rfl⟩ := hrow
      rw [hs]
      refine closingAck_own h hs (fun _ => ?_) (Option.some.inj hc)
      exact tcpRtxClear_own hpool h hlive rfl rfl (by simp [Conn.awaitsAck])
        ⟨by simp, by simp⟩
  | finwait1Ack =>
      obtain ⟨hs, rfl⟩ := hrow
      rw [hs]
      refine closingAck_own h hs (fun _ => ?_) (Option.some.inj hc)
      exact tcpRtxClear_own hpool h hlive rfl rfl (by simp [Conn.awaitsAck])
        ⟨by simp, by simp⟩
  | finwait1Fin =>
      obtain ⟨hs, rfl, rfl⟩ := hrow
      rw [hs] at hok
      exact finwait1Fin_own now h hlive hs hok (Option.some.inj hc)
  | finwait2Fin =>
      obtain ⟨hs, rfl⟩ := hrow
      cases hc
      have hidle := h.idle (by simp [Conn.awaitsAck, hs]) (by simp [hs])
      obtain ⟨h₁, h₂⟩ := startTimewait_own hpool now
        (l := { l.withState .timeWait with
          conn := { (l.withState .timeWait).conn with
            rcvNxt := (l.withState .timeWait).conn.rcvNxt + 1 } }) hidle (.refl _ _) rfl
      exact ⟨h₁.congr rfl, h₂⟩
  | timewaitFin =>
      obtain ⟨hs, rfl⟩ := hrow
      cases hc
      obtain ⟨hidle, hfr⟩ := tcpRtxClear_idle (l := l) hpool h hlive rfl rfl
      obtain ⟨h₁, h₂⟩ := startTimewait_own hpool now
        (l := { l.withState .timeWait with pool := (tcpRtxClear env l).pool }) hidle hfr rfl
      exact ⟨h₁.congr rfl, h₂⟩
  | closingAck =>
      obtain ⟨hs, rfl, rfl⟩ := hrow
      rw [hs] at hok
      rw [hs]
      exact closingAck_own h hs (fun hack => absurd hack hok) (Option.some.inj hc)

end

end WsPi5

/-
# `WsPi5.Tcp.StoredIndex` — what the index in `TCONN_TIMER_SLOT` names

A connection keeps the index of one pool entry and later cancels by that index, in
`tcp_rtx_clear` and in the FIN handler of TIME_WAIT.

**Proved here**, for each handler, each call of the application and each callback: a connection that
is neither CLOSED nor LISTEN stores no index afterwards, or that of an entry in the pool which is its
own retransmit or 2MSL timer, if it did before (`Names`).

While the stored index is that of a retransmit timer there is something to send again, so the
callback of that timer always arms anew and overwrites the index; it never returns with the index of
a slot that has just been freed.  Several entries of one connection may be in the pool at the same
time (`tcp_rtx_arm` forgets the old index): that is harmless here.
-/
import WsPi5.Tcp.TimerOwner
import WsPi5.Tcp.FrameSize
import WsPi5.TimerCalls

namespace WsPi5

open Lib

/-! ## The calls of `timer_cancel` -/

/-- A call of `timer_cancel` by a connection. -/
abbrev TcpCancel := CancelCall Slot Callback

section
variable (env : Env) (now : Tick)

/-- The call in `tcp_rtx_clear`. -/
def clearCalls (i : Slot) (l : Local) : List TcpCancel :=
  match l.conn.timerSlot with
  | some k => if env.hasPool then [⟨i, k, l.pool⟩] else []
  | none => []

def Handler.cancels (i : Slot) (f : Frame) (l : Local) : Handler → List TcpCancel
  | .connClose | .timewaitFin => clearCalls env i l
  | .synrcvdAck | .lastackAck | .finwait1Ack =>
      if f.ack = l.conn.sndNxt then clearCalls env i l else []
  | .estabAck =>
      let l' := eakWindow env now i f l
      if ackAdvances f l'.conn ∧ f.ack = l'.conn.sndNxt then clearCalls env i l' else []
  | .drop | .estabFin | .finwait1Fin | .finwait2Fin | .closingAck => []

def Tcp.dispatchCancels (i : Slot) (evt : TcpEvt) (f : Frame) (t : Tcp) : List TcpCancel :=
  match tcpFsaTable (t.conn i).state evt with
  | none => []
  | some (next, h) => h.cancels env now i f ((t.at i).withState next)

def Tcp.handleConnCancels (i : Slot) (f : Frame) (t : Tcp) : List TcpCancel :=
  match tcpClassifyEvent f with
  | none => []
  | some .rst =>
      match rstCheck (t.conn i) f with
      | .accept => t.dispatchCancels env now i .rst f
      | .challenge | .discard => []
  | some evt => t.dispatchCancels env now i evt f

/-- A SYN for a full table evicts a half-open connection. -/
def Tcp.allocCancels (t : Tcp) : List TcpCancel :=
  match t.firstIn .closed with
  | some _ => []
  | none =>
      match t.firstIn .synRcvd with
      | some j => clearCalls env j (t.at j)
      | none => []

/-- The calls of the reaper, connection by connection. -/
def reapCancels : List Slot → Tcp → List TcpCancel
  | [], _ => []
  | j :: js, t =>
      (match idleLimit (t.conn j).state with
        | none => []
        | some limit =>
            if limit ≤ (now - (t.conn j).lastActive) / env.freq then clearCalls env j (t.at j)
            else [])
        ++ reapCancels js (reapOne env now t j)

/-- The calls of `timer_cancel` that a call into the module makes. -/
def Tcp.cancels (t : Tcp) : Call → List TcpCancel
  | .rx f =>
      match t.exactMatch f with
      | some i => t.handleConnCancels env now i f
      | none =>
          match t.listenMatch f, tcpClassifyEvent f with
          | some _, some .syn => t.allocCancels env
          | _, _ => []
  | .icmpErr code lport rport rip =>
      match slots.find? fun i => (t.conn i).matches lport rport rip with
      | none => []
      | some i =>
          if code = 2 ∨ code = 3 ∨ (t.conn i).state = .synRcvd then clearCalls env i (t.at i)
          else []
  | .visit k =>
      match timerDue t.pool now k with
      | some ⟨_, .tcpIdleReaperCb⟩ => reapCancels env now slots (t.freeEntry k)
      | _ => []
  | .send _ _ | .close _ | .consume _ _ | .flush _ | .listen _ | .startReaper | .otherSet _ _
  | .otherCancel _ => []

end

/-! ## What the index names -/

def keptBy (i : Slot) (cb : Callback) : Prop := cb = .tcpRetransmitCb i ∨ cb = .tcpTimewaitCb i

/-- `tcp_retransmit_cb` would find something to send. -/
def Conn.resendable (c : Conn) : Prop := c.inFlight ≠ 0 ∨ c.rtxlen ≠ 0

/-- Entry `k` is a timer of connection `i`, and if it is the retransmit timer, it will have
something to do. -/
structure Names (i : Slot) (c : Conn) (p : Pool) (k : Nat) : Prop where
  cap : k < p.cap
  entry : ∃ e, p.slot k = some e ∧
    (e.callback = .tcpRetransmitCb i ∧ c.resendable ∨ e.callback = .tcpTimewaitCb i)

/-- The stored index, if there is one, is good. -/
def Named (i : Slot) (c : Conn) (p : Pool) : Prop := ∀ k, c.timerSlot = some k → Names i c p k

/-- **The invariant.** -/
def HandlesOk (t : Tcp) : Prop := ∀ i, (t.conn i).state.live → Named i (t.conn i) t.pool

section
variable {env : Env} {now : Tick} {i j : Slot} {c c' : Conn} {p p' : Pool} {l l' : Local}
  {cs : List TcpCancel}

theorem keptBy_unique {cb : Callback} (hi : keptBy i cb) (hj : keptBy j cb) : i = j := by
  rcases hi with rfl | rfl
  · rcases hj with hj | hj <;> cases hj
    rfl
  · rcases hj with hj | hj <;> cases hj
    rfl

theorem Names.kept (h : Names i c p k) : ∃ e, p.slot k = some e ∧ keptBy i e.callback := by
  obtain ⟨e, he, ⟨hcb, _⟩ | hcb⟩ := h.entry
  · exact ⟨e, he, .inl hcb⟩
  · exact ⟨e, he, .inr hcb⟩

theorem Named.of_none (h : c.timerSlot = none) : Named i c p := by
  intro k hk
  rw [h] at hk
  cases hk

theorem Named.keep (h : Named i c p) (hp : @PoolCalls _ Slot p [] p')
    (hslot : c'.timerSlot = c.timerSlot) (hre : c.resendable → c'.resendable) :
    Named i c' p' := by
  intro k hk
  obtain ⟨hcap, e, he, hcb⟩ := h k (hslot ▸ hk)
  refine ⟨hp.cap ▸ hcap, e, hp.keeps_all hcap he, ?_⟩
  rcases hcb with ⟨hcb, hc⟩ | hcb
  · exact .inl ⟨hcb, hre hc⟩
  · exact .inr hcb

/-- **The frame rule**: safe calls of anybody else. -/
theorem Named.frame {ω : Type} (h : Named i c p) (names : ω → Callback → Prop)
    {cs : List (CancelCall ω Callback)} (hp : PoolCalls p cs p')
    (hsafe : ∀ x ∈ cs, x.Safe names) (hother : ∀ x ∈ cs, ∀ cb, keptBy i cb → ¬ names x.owner cb) :
    Named i c p' := by
  intro k hk
  obtain ⟨hcap, e, he, hcb⟩ := h k hk
  have hkept : keptBy i e.callback := by
    rcases hcb with ⟨hcb, _⟩ | hcb
    · exact .inl hcb
    · exact .inr hcb
  exact ⟨hp.cap ▸ hcap, e, hp.keeps hsafe hcap he fun x hx => hother x hx _ hkept, hcb⟩

/-! ## Clearing and arming -/

theorem clearCalls_owner (env : Env) (i : Slot) (l : Local) :
    ∀ x ∈ clearCalls env i l, x.owner = i := by
  intro x hx
  unfold clearCalls at hx
  split at hx
  · split at hx
    · rw [List.mem_singleton.mp hx]
    · cases hx
  · cases hx

theorem clearCalls_safe (h : Named i l.conn l.pool) :
    ∀ x ∈ clearCalls env i l, x.Safe keptBy := by
  intro x hx e hhit
  unfold clearCalls at hx
  split at hx
  · rename_i k hk
    split at hx
    · cases List.mem_singleton.mp hx
      obtain ⟨e', he', hkept⟩ := (h k hk).kept
      rw [CancelCall.hits_of_cap (h k hk).cap] at hhit
      rw [he'] at hhit
      cases hhit
      exact hkept
    · cases hx
  · cases hx

theorem clear_calls (env : Env) (i : Slot) (l : Local) :
    PoolCalls l.pool (clearCalls env i l) (match l.conn.timerSlot with
      | some k => if env.hasPool then timerCancel l.pool k else l.pool
      | none => l.pool) := by
  unfold clearCalls
  cases l.conn.timerSlot with
  | none => exact .refl
  | some k =>
      dsimp only
      split
      · exact PoolCalls.refl.cancel i k
      · exact .refl

theorem tcpRtxClear_calls (env : Env) (i : Slot) (l : Local) :
    PoolCalls l.pool (clearCalls env i l) (tcpRtxClear env l).pool := clear_calls env i l

theorem tcpRtxClear_named (env : Env) (i : Slot) (l : Local) :
    Named i (tcpRtxClear env l).conn (tcpRtxClear env l).pool := .of_none rfl

theorem tcpRtxArm_calls (h : PoolCalls p cs l.pool) :
    PoolCalls p cs (tcpRtxArm env now i l).pool := by
  unfold tcpRtxArm
  split
  · exact h.set _ _
  · exact h

theorem timerSet_names (p : Pool) (x : Tick) (cb : Callback) {k : Nat}
    (hk : (timerSet p x cb).2 = some k) :
    k < (timerSet p x cb).1.cap ∧ (timerSet p x cb).1.slot k = some ⟨x, cb⟩ := by
  obtain ⟨m, hm, _, heq⟩ | ⟨_, heq⟩ := timerSet_cases p x cb
  · rw [heq] at hk ⊢
    cases hk
    exact ⟨hm, by simp⟩
  · rw [heq] at hk
    cases hk

theorem tcpRtxArm_named (hpool : env.hasPool = true) (hre : l.conn.resendable) :
    Named i (tcpRtxArm env now i l).conn (tcpRtxArm env now i l).pool := by
  unfold tcpRtxArm
  rw [if_pos hpool]
  intro k hk
  obtain ⟨hcap, hslot⟩ := timerSet_names _ _ _ hk
  exact ⟨hcap, _, hslot, .inl ⟨rfl, hre⟩⟩

theorem startTimewait_calls (h : PoolCalls p cs l.pool) :
    PoolCalls p cs (startTimewait env now i l).pool := by
  unfold startTimewait armTimewait
  split
  · exact h.set _ _
  · exact h

theorem startTimewait_names (hpool : env.hasPool = true) :
    Named i (startTimewait env now i l).conn (startTimewait env now i l).pool := by
  unfold startTimewait armTimewait
  rw [if_pos hpool]
  intro k hk
  obtain ⟨hcap, hslot⟩ := timerSet_names _ _ _ hk
  exact ⟨hcap, _, hslot, .inr rfl⟩

theorem tcpPersistArm_calls (h : PoolCalls p cs l.pool) :
    PoolCalls p cs (tcpPersistArm env now i l).pool := by
  unfold tcpPersistArm
  split
  · exact h.set _ _
  · exact h

end

/-! ## The ACK handler -/

section
variable {env : Env} {now : Tick} {i : Slot} {f : Frame} {l l' : Local} {r : HRes}

/-- The fields that `Named` reads. -/
structure Kept (c c' : Conn) : Prop where
  timerSlot : c'.timerSlot = c.timerSlot
  una : c'.sndUna = c.sndUna
  nxt : c'.sndNxt = c.sndNxt
  rtxlen : c'.rtxlen = c.rtxlen

theorem Kept.refl (c : Conn) : Kept c c := ⟨rfl, rfl, rfl, rfl⟩

theorem Kept.trans {c c' c'' : Conn} (h : Kept c c') (h' : Kept c' c'') : Kept c c'' :=
  ⟨h'.timerSlot.trans h.timerSlot, h'.una.trans h.una, h'.nxt.trans h.nxt,
    h'.rtxlen.trans h.rtxlen⟩

theorem Kept.resendable {c c' : Conn} (h : Kept c c') (hc : c.resendable) : c'.resendable := by
  unfold Conn.resendable Conn.inFlight at hc ⊢
  rw [h.una, h.nxt, h.rtxlen]
  exact hc

theorem Named.congr {c c' : Conn} {p : Pool} (h : Named i c p) (hc : Kept c c') : Named i c' p :=
  h.keep .refl hc.timerSlot hc.resendable

theorem commitTs_kept (f : Frame) (c : Conn) : Kept c (commitTs f c) := by
  unfold commitTs
  split
  · split <;> exact ⟨rfl, rfl, rfl, rfl⟩
  · exact .refl c

theorem oooMerge_kept : ∀ (n : Nat) (c : Conn), Kept c (oooMerge n c)
  | 0, c => .refl c
  | n + 1, c => by
      unfold oooMerge
      split
      · exact .refl c
      · refine Kept.trans ?_ (oooMerge_kept n _)
        exact ⟨rfl, rfl, rfl, rfl⟩

theorem eakTail_kept (env : Env) (now : Tick) (f : Frame) (c : Conn) :
    Kept c (eakCwnd f (eakRtt env now c)) := by
  have hrtt : Kept c (eakRtt env now c) := by
    unfold eakRtt tcpRttUpdate
    split
    · dsimp only
      split <;> exact ⟨rfl, rfl, rfl, rfl⟩
    · exact .refl c
  refine hrtt.trans ?_
  unfold eakCwnd
  split <;> exact ⟨rfl, rfl, rfl, rfl⟩

theorem eakWindow_kept (env : Env) (now : Tick) (i : Slot) (f : Frame) (l : Local) :
    Kept l.conn (eakWindow env now i f l).conn := by
  unfold eakWindow
  dsimp only
  split
  · split
    · rw [tcpPersistArm_conn]
      exact ⟨rfl, rfl, rfl, rfl⟩
    · exact ⟨rfl, rfl, rfl, rfl⟩
  · exact ⟨rfl, rfl, rfl, rfl⟩

theorem eakWindow_calls (env : Env) (now : Tick) (i : Slot) (f : Frame) (l : Local) :
    @PoolCalls _ Slot l.pool [] (eakWindow env now i f l).pool := by
  unfold eakWindow
  dsimp only
  split
  · split
    · apply tcpPersistArm_calls
      exact .refl
    · exact .refl
  · exact .refl

/-- What the ACK handler cancels. -/
def eakAckCalls (env : Env) (i : Slot) (f : Frame) (l : Local) : List TcpCancel :=
  if ackAdvances f l.conn ∧ f.ack = l.conn.sndNxt then clearCalls env i l else []

theorem eakAck_calls (env : Env) (now : Tick) (i : Slot) (f : Frame) (l : Local) :
    PoolCalls l.pool (eakAckCalls env i f l) (eakAck env now f l).pool := by
  have htail := eakTail_kept env now f (eakAdvance f l.conn)
  have hslot : (eakCwnd f (eakRtt env now (eakAdvance f l.conn))).timerSlot = l.conn.timerSlot :=
    htail.timerSlot
  have hnxt : (eakCwnd f (eakRtt env now (eakAdvance f l.conn))).sndNxt = l.conn.sndNxt :=
    htail.nxt
  unfold eakAckCalls
  split
  · rename_i hall
    simp only [eakAck, hall.1, hall.2, hnxt, if_true, tcpRtxClear, hslot]
    exact clear_calls env i l
  · rename_i hno
    have hsame : (eakAck env now f l).pool = l.pool := by
      unfold eakAck
      split
      · rename_i hadv
        dsimp only
        rw [hnxt, if_neg fun h => hno ⟨hadv, h⟩]
      · rfl
    rw [hsame]
    exact .refl

/-- An ACK of everything forgets the index; after an ACK of less there is still data in flight. -/
theorem eakAck_named (env : Env) (now : Tick) (f : Frame) (h : Named i l.conn l.pool) :
    Named i (eakAck env now f l).conn (eakAck env now f l).pool := by
  have htail := eakTail_kept env now f (eakAdvance f l.conn)
  unfold eakAck
  split
  · dsimp only
    split
    · exact .of_none rfl
    · rename_i hpart
      refine h.keep .refl htail.timerSlot fun _ => htail.resendable (.inl ?_)
      rw [htail.nxt] at hpart
      unfold Conn.inFlight
      show l.conn.sndNxt - f.ack ≠ 0
      intro hzero
      refine hpart ?_
      show f.ack = l.conn.sndNxt
      bv_omega
  · exact h

theorem tcpFastRetransmit_calls (hc : tcpFastRetransmit env now i f l = some l') :
    @PoolCalls _ Slot l.pool [] l'.pool := by
  unfold tcpFastRetransmit at hc
  dsimp only at hc
  split at hc
  · obtain ⟨off, _, rfl⟩ := Option.map_eq_some_iff.mp hc
    split
    · exact .refl
    · apply tcpRtxArm_calls
      exact .refl
  · cases hc
    exact .refl

theorem tcpFastRetransmit_named (hpool : env.hasPool = true) (h : Named i l.conn l.pool)
    (hre : l.conn.resendable) (hc : tcpFastRetransmit env now i f l = some l') :
    Named i l'.conn l'.pool := by
  unfold tcpFastRetransmit at hc
  dsimp only at hc
  split at hc
  · obtain ⟨off, _, rfl⟩ := Option.map_eq_some_iff.mp hc
    split
    · exact h.congr ⟨rfl, rfl, rfl, rfl⟩
    · exact tcpRtxArm_named hpool hre
  · cases hc
    exact h.congr ⟨rfl, rfl, rfl, rfl⟩

theorem eakPureAck_calls (hc : eakPureAck env now i f l = some l') :
    @PoolCalls _ Slot l.pool [] l'.pool := by
  unfold eakPureAck at hc
  dsimp only at hc
  split at hc
  · split at hc
    · cases hc
      exact .refl
    · split at hc
      · cases hc
        exact .refl
      · have hfast := tcpFastRetransmit_calls hc
        exact hfast
  · cases hc
    exact .refl

theorem eakPureAck_named (hpool : env.hasPool = true) (h : Named i l.conn l.pool)
    (hc : eakPureAck env now i f l = some l') : Named i l'.conn l'.pool := by
  have hts := h.congr (commitTs_kept f l.conn)
  unfold eakPureAck at hc
  dsimp only at hc
  split at hc
  · rename_i hdup
    split at hc
    · cases hc
      exact hts.congr ⟨rfl, rfl, rfl, rfl⟩
    · split at hc
      · cases hc
        exact hts.congr ⟨rfl, rfl, rfl, rfl⟩
      · refine tcpFastRetransmit_named hpool ?_ (.inl ?_) hc
        · exact hts.congr ⟨rfl, rfl, rfl, rfl⟩
        · show (commitTs f l.conn).sndNxt - (commitTs f l.conn).sndUna ≠ 0
          intro hzero
          refine hdup.2 ?_
          bv_omega
  · cases hc
    exact hts

theorem eakData_calls (hc : eakData env now i f l = some (l', r)) :
    @PoolCalls _ Slot l.pool [] l'.pool := by
  unfold eakData at hc
  dsimp only at hc
  split at hc
  · obtain ⟨m, hm, heq⟩ := Option.map_eq_some_iff.mp hc
    cases heq
    exact eakPureAck_calls hm
  · split at hc
    · split at hc
      · cases hc
        exact .refl
      · obtain ⟨m, hm, heq⟩ := Option.map_eq_some_iff.mp hc
        cases heq
        have hpure := eakPureAck_calls hm
        exact hpure
    · split at hc
      · cases hc
        exact .refl
      · cases hc
        exact .refl

theorem eakData_named (hpool : env.hasPool = true) (h : Named i l.conn l.pool)
    (hc : eakData env now i f l = some (l', r)) : Named i l'.conn l'.pool := by
  have hts := h.congr (commitTs_kept f l.conn)
  unfold eakData at hc
  dsimp only at hc
  split at hc
  · obtain ⟨m, hm, heq⟩ := Option.map_eq_some_iff.mp hc
    cases heq
    exact eakPureAck_named hpool h hm
  · split at hc
    · split at hc
      · cases hc
        refine hts.congr (Kept.trans ?_ (oooMerge_kept _ _))
        exact ⟨rfl, rfl, rfl, rfl⟩
      · obtain ⟨m, hm, heq⟩ := Option.map_eq_some_iff.mp hc
        cases heq
        refine eakPureAck_named hpool ?_ hm
        exact hts
    · split at hc
      · cases hc
        exact h.congr ⟨rfl, rfl, rfl, rfl⟩
      · cases hc
        exact h

end

/-! ## The handlers -/

section
variable {env : Env} {now : Tick} {i : Slot} {f : Frame} {l l' : Local} {r : HRes}

theorem Handler.cancels_owner (env : Env) (now : Tick) (i : Slot) (f : Frame) (l : Local)
    (h : Handler) : ∀ x ∈ h.cancels env now i f l, x.owner = i := by
  intro x hx
  cases h with
  | connClose | timewaitFin => exact clearCalls_owner env i l x hx
  | synrcvdAck | lastackAck | finwait1Ack =>
      simp only [Handler.cancels] at hx
      split at hx
      · exact clearCalls_owner env i l x hx
      · cases hx
  | estabAck =>
      simp only [Handler.cancels] at hx
      split at hx
      · exact clearCalls_owner env i _ x hx
      · cases hx
  | drop | estabFin | finwait1Fin | finwait2Fin | closingAck => cases hx

theorem Handler.cancels_safe (h : Named i l.conn l.pool) (hd : Handler) :
    ∀ x ∈ hd.cancels env now i f l, x.Safe keptBy := by
  intro x hx
  cases hd with
  | connClose | timewaitFin => exact clearCalls_safe h x hx
  | synrcvdAck | lastackAck | finwait1Ack =>
      simp only [Handler.cancels] at hx
      split at hx
      · exact clearCalls_safe h x hx
      · cases hx
  | estabAck =>
      simp only [Handler.cancels] at hx
      split at hx
      · have hwin := eakWindow_kept env now i f l
        exact clearCalls_safe (h.keep (eakWindow_calls env now i f l) hwin.timerSlot
          hwin.resendable) x hx
      · cases hx
  | drop | estabFin | finwait1Fin | finwait2Fin | closingAck => cases hx

/-- The three closing handlers: a call only on the ACK of everything. -/
theorem closingAck_calls {stay : TcpState} {acked : Local → Local} {cs : List TcpCancel}
    (h : PoolCalls l.pool cs (acked l).pool)
    (hc : some (closingAck f stay acked l) = some (l', r)) :
    PoolCalls l.pool (if f.ack = l.conn.sndNxt then cs else []) l'.pool := by
  unfold closingAck at hc
  split at hc
  · rename_i hbeyond
    cases hc
    rw [if_neg (by bv_omega)]
    exact .refl
  · split at hc
    · rename_i hack
      cases hc
      rw [if_pos hack]
      exact h
    · rename_i hack
      cases hc
      rw [if_neg hack]
      exact .refl

theorem closingAck_named {stay : TcpState} {acked : Local → Local} (h : Named i l.conn l.pool)
    (ha : Named i (acked l).conn (acked l).pool)
    (hc : some (closingAck f stay acked l) = some (l', r)) : Named i l'.conn l'.pool := by
  unfold closingAck at hc
  split at hc
  · cases hc
    exact h.congr ⟨rfl, rfl, rfl, rfl⟩
  · split at hc
    · cases hc
      exact ha
    · cases hc
      exact h.congr ⟨rfl, rfl, rfl, rfl⟩

/-- **The calls of a handler.** -/
theorem Handler.call_calls {hd : Handler} (hc : hd.call env now i f l = some (l', r)) :
    PoolCalls l.pool (hd.cancels env now i f l) l'.pool := by
  cases hd with
  | connClose =>
      cases hc
      exact tcpRtxClear_calls env i l
  | drop | estabFin =>
      cases hc
      exact .refl
  | synrcvdAck =>
      simp only [Handler.call, tcpSynrcvdAckHandler] at hc
      simp only [Handler.cancels]
      split at hc
      · rename_i hack
        cases hc
        rw [if_pos hack]
        exact tcpRtxClear_calls env i l
      · rename_i hack
        cases hc
        rw [if_neg hack]
        exact .refl
  | estabAck =>
      simp only [Handler.call, tcpEstabAckHandler] at hc
      have hack := (eakWindow_calls env now i f l).trans
        (eakAck_calls env now i f (eakWindow env now i f l))
      split at hc
      · cases hc
        exact hack
      · have hall := hack.trans (eakData_calls hc)
        rwa [List.append_nil] at hall
  | lastackAck | finwait1Ack =>
      exact closingAck_calls (tcpRtxClear_calls env i l) hc
  | closingAck =>
      have hcalls := closingAck_calls (startTimewait_calls .refl) hc
      rwa [ite_self] at hcalls
  | finwait1Fin =>
      simp only [Handler.call, tcpFinwait1FinHandler] at hc
      split at hc
      · cases hc
        dsimp only
        split
        · exact PoolCalls.refl.set _ _
        · exact .refl
      · cases hc
        exact .refl
  | finwait2Fin =>
      cases hc
      exact startTimewait_calls .refl
  | timewaitFin =>
      cases hc
      exact startTimewait_calls (clear_calls env i l)

/-- **After a handler** the index is good. -/
theorem Handler.call_named {hd : Handler} (hpool : env.hasPool = true)
    (h : Named i l.conn l.pool) (hc : hd.call env now i f l = some (l', r)) :
    Named i l'.conn l'.pool := by
  cases hd with
  | connClose =>
      cases hc
      exact tcpRtxClear_named env i l
  | drop =>
      cases hc
      exact h
  | synrcvdAck =>
      simp only [Handler.call, tcpSynrcvdAckHandler] at hc
      split at hc
      · cases hc
        exact .of_none rfl
      · cases hc
        exact h.congr ⟨rfl, rfl, rfl, rfl⟩
  | estabAck =>
      simp only [Handler.call, tcpEstabAckHandler] at hc
      have hwin := eakWindow_kept env now i f l
      have hack := eakAck_named env now f (h.keep (eakWindow_calls env now i f l)
        hwin.timerSlot hwin.resendable)
      split at hc
      · cases hc
        exact hack
      · exact eakData_named hpool hack hc
  | estabFin =>
      cases hc
      refine h.congr ?_
      dsimp only
      split
      · exact ⟨rfl, rfl, rfl, rfl⟩
      · split <;> exact ⟨rfl, rfl, rfl, rfl⟩
  | lastackAck | finwait1Ack =>
      exact closingAck_named h (tcpRtxClear_named env i l) hc
  | closingAck =>
      exact closingAck_named h (startTimewait_names hpool) hc
  | finwait1Fin =>
      simp only [Handler.call, tcpFinwait1FinHandler] at hc
      split at hc
      · cases hc
        refine h.keep ?_ rfl (Kept.resendable ⟨rfl, rfl, rfl, rfl⟩)
        exact PoolCalls.refl.set _ _
      · cases hc
        exact h.congr ⟨rfl, rfl, rfl, rfl⟩
  | finwait2Fin | timewaitFin =>
      cases hc
      exact startTimewait_names hpool

end

/-! ## The application's calls -/

section
variable {env : Env} {now : Tick} {i : Slot} {l : Local} {p : Pool}

/-- What `tcp_send` accepts fits into the window, so `SND_NXT` does not come round to `SND_UNA`. -/
theorem tcpSendAccepts_inFlight {c : Conn} {n : Nat} (h : tcpSendAccepts c n = true) :
    c.sndNxt + BitVec.ofNat 32 n - c.sndUna ≠ 0 := by
  simp only [tcpSendAccepts, Bool.and_eq_true, decide_eq_true_eq, Bool.not_eq_true',
    decide_eq_false_iff_not] at h
  obtain ⟨⟨⟨⟨_, hpos⟩, _⟩, hroom⟩, hfit⟩ := h
  have hflight : c.sndNxt + BitVec.ofNat 32 n - c.sndUna = c.inFlight + BitVec.ofNat 32 n := by
    unfold Conn.inFlight
    bv_omega
  rw [hflight]
  generalize c.inFlight = a at hroom hfit ⊢
  generalize c.window = w at hroom hfit
  intro hzero
  have hsum := congrArg BitVec.toNat hzero
  rw [BitVec.toNat_add, BitVec.toNat_ofNat] at hsum
  bv_omega

theorem tcpSend_calls (env : Env) (now : Tick) (i : Slot) (q : List Byte) (l : Local) :
    @PoolCalls _ Slot l.pool [] (tcpSend env now i q l).1.pool := by
  unfold tcpSend
  split
  · unfold tcpSendAccept
    apply tcpRtxArm_calls
    exact .refl
  · exact .refl

theorem tcpSend_named (hpool : env.hasPool = true) (q : List Byte)
    (h : l.conn.state.live → Named i l.conn l.pool) :
    (tcpSend env now i q l).1.conn.state.live →
      Named i (tcpSend env now i q l).1.conn (tcpSend env now i q l).1.pool := by
  unfold tcpSend
  split
  · rename_i hacc
    intro _
    exact tcpRtxArm_named hpool (.inl (tcpSendAccepts_inFlight hacc))
  · exact h

theorem tcpClose_calls (env : Env) (now : Tick) (i : Slot) (l : Local) :
    @PoolCalls _ Slot l.pool [] (tcpClose env now i l).1.pool := by
  unfold tcpClose
  dsimp only
  split
  · exact .refl
  · unfold tcpRtxSave
    apply tcpRtxArm_calls
    exact .refl

theorem tcpRtxSave_named (hpool : env.hasPool = true) {f : Frame} (hlen : f.len < 65536) :
    Named i (tcpRtxSave env now i f l).conn (tcpRtxSave env now i f l).pool := by
  refine tcpRtxArm_named hpool (.inr ?_)
  show f.len % 65536 ≠ 0
  unfold Frame.len at hlen ⊢
  omega

theorem tcpClose_named (hpool : env.hasPool = true)
    (h : l.conn.state.live → Named i l.conn l.pool) :
    (tcpClose env now i l).1.conn.state.live →
      Named i (tcpClose env now i l).1.conn (tcpClose env now i l).1.pool := by
  unfold tcpClose
  dsimp only
  split
  · exact h
  · intro _
    refine tcpRtxSave_named hpool ?_
    have hopts := tsOpts_length l.conn now
    have hsyn : (tcpFinAck &&& tcpSyn != 0) = false := by decide
    simp only [Frame.len, tcpBuildFrame, List.length_append, hopts, hsyn, Bool.false_eq_true,
      if_false]
    cases l.conn.tsEnabled <;> decide

/-! ## The callbacks -/

theorem Named.freed {t : Tcp} {c : Conn} {k : Nat} {e : TimerEntry Callback}
    (h : Named i c t.pool) (hk : t.pool.slot k = some e) (hkept : ¬ keptBy i e.callback) :
    Named i c (t.freeEntry k).pool := by
  intro m hm
  obtain ⟨e', he', hkept'⟩ := (h m hm).kept
  have hmk : m ≠ k := by
    rintro rfl
    rw [hk] at he'
    cases he'
    exact hkept hkept'
  obtain ⟨hcap, x, hx, hcb⟩ := h m hm
  exact ⟨hcap, x, by simpa [Tcp.freeEntry, hmk] using hx, hcb⟩

theorem rtxFrame_isSome_iff (env : Env) (now : Tick) (c : Conn) :
    rtxFrame env now (rtxBackoff env c) ≠ none ↔ c.resendable := by
  have hflight : (rtxBackoff env c).inFlight = c.inFlight := rfl
  have hlen : (rtxBackoff env c).rtxlen = c.rtxlen := rfl
  unfold rtxFrame tcpSndbufBuildFrame Conn.resendable
  rw [hflight, hlen]
  split
  · rename_i hsome
    split at hsome
    · cases hsome
    · rename_i hne
      exact iff_of_true (by simp) (.inl hne)
  · rename_i hnone
    split at hnone
    · rename_i hzero
      simp [hzero]
    · cases hnone

theorem tcpRetransmitCb_calls (env : Env) (now : Tick) (i : Slot) (l : Local) :
    @PoolCalls _ Slot l.pool [] (tcpRetransmitCb env now i l).pool := by
  unfold tcpRetransmitCb
  split
  · exact .refl
  · split
    · exact .refl
    · dsimp only
      split
      · split
        · exact .refl
        · apply tcpRtxArm_calls
          exact .refl
      · exact .refl

/-- **The retransmit callback**, its entry freed.  If the index named that entry there is
something to send, and the index is overwritten. -/
theorem tcpRetransmitCb_named {t : Tcp} {k : Nat} {x : Tick} (hpool : env.hasPool = true)
    (hsend : env.hasSendFn = true) (h : (t.conn i).state.live → Named i (t.conn i) t.pool)
    (hk : t.pool.slot k = some ⟨x, .tcpRetransmitCb i⟩) :
    (tcpRetransmitCb env now i ((t.freeEntry k).at i)).conn.state.live →
      Named i (tcpRetransmitCb env now i ((t.freeEntry k).at i)).conn
        (tcpRetransmitCb env now i ((t.freeEntry k).at i)).pool := by
  unfold tcpRetransmitCb
  split
  · rename_i hdead
    rintro ⟨hclosed, hlisten⟩
    rcases hdead with hdead | hdead
    · exact absurd hdead hclosed
    · exact absurd hdead hlisten
  · split
    · intro _
      exact .of_none rfl
    · rename_i hlive _
      dsimp only
      have hnamed := h ⟨fun hs => hlive (.inl hs), fun hs => hlive (.inr hs)⟩
      split
      · rename_i hnone
        intro _ m hm
        -- nothing to send: the index is not that of a retransmit timer
        obtain ⟨hcap, e, he, ⟨_, hre⟩ | hcb⟩ := hnamed m hm
        · exact absurd hnone ((rtxFrame_isSome_iff env now (t.conn i)).mpr hre)
        · have hmk : m ≠ k := by
            rintro rfl
            rw [hk] at he
            cases he
            cases hcb
          exact ⟨hcap, e, by simpa [Tcp.freeEntry, hmk] using he, .inr hcb⟩
      · rename_i f hsome
        intro _
        refine tcpRtxArm_named hpool ?_
        have hre := (rtxFrame_isSome_iff env now (t.conn i)).mp (by
          rw [show rtxFrame env now (rtxBackoff env (t.conn i)) = some f from hsome]
          simp)
        exact Kept.resendable (c := t.conn i) ⟨rfl, rfl, rfl, rfl⟩ hre

end

end WsPi5

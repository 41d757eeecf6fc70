/-
# `WsPi5.Tcp.SeqShift` — does it matter where in sequence space a connection lies?

Sequence numbers have no origin.  Add `k` to everything that counts what we send (`SND_UNA`,
`SND_NXT`, `SACK_RECOVER`, the acknowledgement and the SACK edges of a segment) and `k'` to
everything that counts what the peer sends (`RCV_NXT`, the stored out-of-order segments, the
sequence number of a segment): a handler should do the same, with its reply and its record shifted.

**Proved here** (`shift_invariant_iff`), for every handler, connection, segment and pair of shifts:
this holds exactly when the comparisons of sequence numbers that the handler makes as plain unsigned
numbers come out the same before and after the shift (`Handler.seesNoShift`).  They are

    SND_UNA < SEG.ACK ≤ SND_NXT     tcp_estab_ack_handler, the ACK
    SACK_RECOVER ≤ SEG.ACK          tcp_estab_ack_handler, the end of fast recovery
    RCV_NXT < SEG.SEQ               tcp_estab_ack_handler, out-of-order data
    SND_NXT < SEG.ACK               the three closing handlers

and one that is not a comparison: `SACK_RECOVER = 0` means that there is no recovery, and the
recovery point is `SND_NXT`, which may be 0.

Everything else is done on differences, or tests for equality.  That the comparisons must come out
the same is shown from the outside: each shows in a field of the record or in the reply.
-/
import WsPi5.Tcp.HandlerShift

namespace WsPi5

open Lib

/-! ## The ACK handler as a whole -/

section
variable {env : Env} {now : Tick} {i : Slot} {f : Frame} {l : Local} {c : Conn} {k k' : W}

theorem eakWindow_eq (env : Env) (now : Tick) (i : Slot) (f : Frame) (l : Local) : ∃ w s p,
    eakWindow env now i f l
      = { l with conn := { l.conn with sndWnd := w, persistShift := s }, pool := p } := by
  unfold eakWindow tcpPersistArm
  dsimp only
  split
  · split
    · split
      · exact ⟨_, _, _, rfl⟩
      · exact ⟨_, _, _, rfl⟩
    · exact ⟨_, _, _, rfl⟩
  · exact ⟨_, _, _, rfl⟩

theorem eakAck_advanced (h : ackAdvances f l.conn = true) :
    (eakAck env now f l).conn.sndUna = f.ack ∧ (eakAck env now f l).conn.dupAckCnt = 0 ∧
    (eakAck env now f l).conn.sackRecover
      = (if leavesRecovery l.conn.sackRecover f.ack then 0 else l.conn.sackRecover) ∧
    (eakAck env now f l).conn.cwnd
      = (if leavesRecovery l.conn.sackRecover f.ack then l.conn.ssthresh
          else grownCwnd l.conn) := by
  obtain ⟨hr, ht, hg⟩ := @eakRtt_congestion env now (eakAdvance f l.conn)
  have huna : (eakRtt env now (eakAdvance f l.conn)).sndUna = f.ack := by
    unfold eakRtt tcpRttUpdate
    split
    · dsimp only
      split <;> rfl
    · rfl
  have hall : ∀ c', c' = eakCwnd f (eakRtt env now (eakAdvance f l.conn)) →
      c'.sndUna = f.ack ∧ c'.dupAckCnt = 0 ∧
      c'.sackRecover
        = (if leavesRecovery l.conn.sackRecover f.ack then 0 else l.conn.sackRecover) ∧
      c'.cwnd
        = (if leavesRecovery l.conn.sackRecover f.ack then l.conn.ssthresh
            else grownCwnd l.conn) := by
    rintro c' rfl
    have hr' : (eakRtt env now (eakAdvance f l.conn)).sackRecover = l.conn.sackRecover := hr
    rw [eakCwnd_eq, hr']
    split
    · exact ⟨huna, rfl, rfl, ht⟩
    · exact ⟨huna, rfl, rfl, hg⟩
  have hconn := hall _ rfl
  rw [eakAck_of_advances h]
  dsimp only
  split
  · exact hconn
  · exact hconn

/-- Without a third duplicate ACK the handler returns, and what comes after the ACK leaves
`SND_UNA` and `SACK_RECOVER`. -/
theorem tcpEstabAckHandler_plain {l₁ : Local}
    (hl₁ : l₁ = eakAck env now f (eakWindow env now i f l)) (h : ¬ thirdDuplicate f l₁.conn) :
    ∃ l' r, tcpEstabAckHandler env now i f l = some (l', r) ∧
      l'.conn.sndUna = l₁.conn.sndUna ∧ l'.conn.sackRecover = l₁.conn.sackRecover ∧
      (l₁.conn.dupAckCnt = 0 → l'.conn.cwnd = l₁.conn.cwnd) := by
  unfold tcpEstabAckHandler
  dsimp only
  rw [← hl₁]
  split
  · exact ⟨l₁, _, rfl, rfl, rfl, fun _ => rfl⟩
  · exact eakData_plain h

theorem not_thirdDuplicate_of_zero (h : c.dupAckCnt = 0) : ¬ thirdDuplicate f c := by
  intro hthird
  have hcount := hthird.2.2
  rw [h] at hcount
  exact absurd hcount (by decide)

theorem not_invariant_of_advance {l₁ : Local}
    (hl₁ : l₁ = eakAck env now f (eakWindow env now i f l)) {l₂ : Local}
    (hl₂ : l₂ = eakAck env now (f.shiftIn k k') ((eakWindow env now i f l).shift k k'))
    (h₁ : ¬ thirdDuplicate f l₁.conn) (h₂ : ¬ thirdDuplicate (f.shiftIn k k') l₂.conn)
    (hne : l₂.conn.sndUna ≠ l₁.conn.sndUna + k) :
    tcpEstabAckHandler env now i (f.shiftIn k k') (l.shift k k')
      ≠ (tcpEstabAckHandler env now i f l).map
          (fun out => (out.1.shift k k', out.2.shift k k')) := by
  rw [← eakWindow_shift] at hl₂
  obtain ⟨m₁, r₁, heq₁, huna₁, _⟩ := tcpEstabAckHandler_plain hl₁ h₁
  obtain ⟨m₂, r₂, heq₂, huna₂, _⟩ := tcpEstabAckHandler_plain hl₂ h₂
  rw [heq₁, heq₂]
  intro heq
  have hconn := congrArg Prod.fst (Option.some.inj heq)
  have huna : m₂.conn.sndUna = m₁.conn.sndUna + k :=
    congrArg (fun l : Local => l.conn.sndUna) hconn
  rw [huna₁, huna₂] at huna
  exact hne huna

theorem sameAdvance_of_invariant
    (h : tcpEstabAckHandler env now i (f.shiftIn k k') (l.shift k k')
      = (tcpEstabAckHandler env now i f l).map
          (fun out => (out.1.shift k k', out.2.shift k k'))) :
    sameAdvance k f l.conn := by
  obtain ⟨w, s, p, hw⟩ := eakWindow_eq env now i f l
  have hadv : ackAdvances f (eakWindow env now i f l).conn = true ↔
      l.conn.sndUna < f.ack ∧ f.ack ≤ l.conn.sndNxt := by
    rw [hw]
    exact ackAdvances_iff
  have hadv' : ackAdvances (f.shiftIn k k') ((eakWindow env now i f l).shift k k').conn = true ↔
      l.conn.sndUna + k < f.ack + k ∧ f.ack + k ≤ l.conn.sndNxt + k := by
    rw [hw]
    exact ackAdvances_iff
  have huna : (eakWindow env now i f l).conn.sndUna = l.conn.sndUna := by rw [hw]
  have hstay : ((eakWindow env now i f l).shift k k').conn.sndUna = l.conn.sndUna + k :=
    congrArg (· + k) huna
  by_contra hno
  rcases Bool.eq_false_or_eq_true (ackAdvances f (eakWindow env now i f l).conn) with h₁ | h₁ <;>
    rcases Bool.eq_false_or_eq_true
      (ackAdvances (f.shiftIn k k') ((eakWindow env now i f l).shift k k').conn) with h₂ | h₂
  · exact hno (iff_of_true (hadv'.mp h₂) (hadv.mp h₁))
  · -- only the original run advances
    have hlt := (hadv.mp h₁).1
    have hne : f.ack ≠ l.conn.sndUna := fun heq => BitVec.lt_irrefl _ (heq ▸ hlt)
    obtain ⟨hack, hcount, _⟩ := @eakAck_advanced env now f (eakWindow env now i f l) h₁
    refine not_invariant_of_advance rfl rfl (not_thirdDuplicate_of_zero hcount) ?_ ?_ h
    · rw [eakAck_of_not h₂]
      intro hthird
      have heq : f.ack + k = l.conn.sndUna + k := hthird.1.trans hstay
      exact hne (add_shift_inj.mp heq)
    · rw [eakAck_of_not h₂, hack, hstay]
      intro heq
      exact hne (add_shift_inj.mp heq).symm
  · have hlt := (hadv'.mp h₂).1
    have hne : f.ack ≠ l.conn.sndUna := fun heq => BitVec.lt_irrefl _ (heq ▸ hlt)
    obtain ⟨hack, hcount, _⟩ := @eakAck_advanced env now (f.shiftIn k k')
      ((eakWindow env now i f l).shift k k') h₂
    refine not_invariant_of_advance rfl rfl ?_ (not_thirdDuplicate_of_zero hcount) ?_ h
    · rw [eakAck_of_not h₁]
      intro hthird
      exact hne (hthird.1.trans huna)
    · rw [eakAck_of_not h₁, hack, huna]
      intro heq
      exact hne (add_shift_inj.mp heq)
  · exact hno (iff_of_false (fun h => by simp [hadv'.mpr h] at h₂)
      fun h => by simp [hadv.mpr h] at h₁)

/-- The end of fast recovery must come out the same, after an ACK that advances: `SACK_RECOVER` shows
it, or the window if the shifted recovery point is 0. -/
theorem sameRecovery_of_invariant
    (h : tcpEstabAckHandler env now i (f.shiftIn k k') (l.shift k k')
      = (tcpEstabAckHandler env now i f l).map
          (fun out => (out.1.shift k k', out.2.shift k k')))
    (hup : l.conn.sndUna < f.ack ∧ f.ack ≤ l.conn.sndNxt) : sameRecovery k f l.conn := by
  obtain ⟨w, s, p, hw⟩ := eakWindow_eq env now i f l
  have h₁ : ackAdvances f (eakWindow env now i f l).conn = true := by
    rw [hw]
    exact ackAdvances_iff.mpr hup
  have h₂ : ackAdvances (f.shiftIn k k') ((eakWindow env now i f l).shift k k').conn = true := by
    rw [hw]
    exact ackAdvances_iff.mpr ((sameAdvance_of_invariant h).mpr hup)
  obtain ⟨_, hcount₁, hrec₁, hcwnd₁⟩ := @eakAck_advanced env now f (eakWindow env now i f l) h₁
  obtain ⟨_, hcount₂, hrec₂, hcwnd₂⟩ := @eakAck_advanced env now (f.shiftIn k k')
    ((eakWindow env now i f l).shift k k') h₂
  obtain ⟨m₁, r₁, heq₁, _, hr₁, hc₁⟩ :=
    tcpEstabAckHandler_plain rfl (not_thirdDuplicate_of_zero hcount₁)
  obtain ⟨m₂, r₂, heq₂, _, hr₂, hc₂⟩ :=
    tcpEstabAckHandler_plain (by rw [eakWindow_shift]) (not_thirdDuplicate_of_zero hcount₂)
  rw [heq₁, heq₂] at h
  have hconn : m₂ = m₁.shift k k' := congrArg Prod.fst (Option.some.inj h)
  have hrec : m₂.conn.sackRecover = shiftRecover k m₁.conn.sackRecover := by
    rw [hconn]
    rfl
  have hcwnd : m₂.conn.cwnd = m₁.conn.cwnd := by
    rw [hconn]
    rfl
  rw [hr₁, hr₂, hrec₁, hrec₂, hw] at hrec
  rw [hc₁ hcount₁, hc₂ hcount₂, hcwnd₁, hcwnd₂, hw] at hcwnd
  change (if leavesRecovery (shiftRecover k l.conn.sackRecover) (f.ack + k) then 0
      else shiftRecover k l.conn.sackRecover)
    = shiftRecover k (if leavesRecovery l.conn.sackRecover f.ack then 0
      else l.conn.sackRecover) at hrec
  change (if leavesRecovery (shiftRecover k l.conn.sackRecover) (f.ack + k) then l.conn.ssthresh
      else grownCwnd l.conn)
    = (if leavesRecovery l.conn.sackRecover f.ack then l.conn.ssthresh
      else grownCwnd l.conn) at hcwnd
  by_cases hl : leavesRecovery l.conn.sackRecover f.ack <;>
    by_cases hl' : leavesRecovery (shiftRecover k l.conn.sackRecover) (f.ack + k)
  · exact .inl (iff_of_true hl' hl)
  · rw [if_neg hl', if_pos hl] at hrec hcwnd
    have hzero : shiftRecover k l.conn.sackRecover = l.conn.sackRecover + k := if_neg hl.1
    exact .inr ⟨hzero.symm.trans (hrec.trans (if_pos rfl)), hcwnd.symm⟩
  · rw [if_pos hl', if_neg hl] at hrec
    exact absurd hrec.symm hl'.1
  · exact .inl (iff_of_false hl' hl)

theorem eakAck_window_rx :
    (eakAck env now f (eakWindow env now i f l)).conn.rx = l.conn.rx := by
  obtain ⟨w, s, p, hw⟩ := eakWindow_eq env now i f l
  rw [eakAck_rx, hw]
  rfl

theorem dataTests_after {l₁ : Local} (hl₁ : l₁ = eakAck env now f (eakWindow env now i f l)) :
    l₁.conn.rcvNxt = l.conn.rcvNxt ∧ oooFits f l₁.conn = oooFits f l.conn ∧
      (pureAck f l₁.conn ↔ pureAck f l.conn) := by
  have hrx : l₁.conn.rx = l.conn.rx := by
    rw [hl₁]
    exact eakAck_window_rx
  have hnxt : l₁.conn.rcvNxt = l.conn.rcvNxt := congrArg Rx.rcvNxt hrx
  have hlen : l₁.conn.rxlen = l.conn.rxlen := congrArg Rx.rxlen hrx
  have hooo : l₁.conn.oooSlots = l.conn.oooSlots := congrArg Rx.oooSlots hrx
  refine ⟨hnxt, ?_, ?_⟩
  · unfold oooFits
    rw [hnxt, hlen, hooo]
  · unfold pureAck
    rw [hnxt, hlen]

/-- A third duplicate ACK does not advance, and an ACK that advances is not one. -/
theorem thirdDuplicate_after {l₁ : Local}
    (hl₁ : l₁ = eakAck env now f (eakWindow env now i f l)) :
    (thirdDuplicate f l₁.conn → sameRecoveryPoint env k f l₁.conn) ↔
      (thirdDuplicate f l.conn → sameRecoveryPoint env k f l.conn) := by
  obtain ⟨w, s, p, hw⟩ := eakWindow_eq env now i f l
  cases hadv : ackAdvances f (eakWindow env now i f l).conn with
  | true =>
      obtain ⟨_, hcount, _⟩ := @eakAck_advanced env now f (eakWindow env now i f l) hadv
      have hlt : l.conn.sndUna < f.ack := by
        rw [hw] at hadv
        exact (ackAdvances_iff.mp hadv).1
      refine iff_of_true (fun h => ?_) fun h => ?_
      · rw [hl₁] at h
        exact absurd h (not_thirdDuplicate_of_zero hcount)
      · exact absurd hlt (h.1 ▸ BitVec.lt_irrefl _)
  | false =>
      have hoff : fastRtxOffset { l.conn with sndWnd := w, persistShift := s } f
          = fastRtxOffset l.conn f := fastRtxOffset_congr rfl rfl rfl
      rw [hl₁, eakAck_of_not hadv, hw]
      unfold sameRecoveryPoint
      dsimp only
      rw [hoff]
      rfl

theorem estabAck_shift_iff :
    tcpEstabAckHandler env now i (f.shiftIn k k') (l.shift k k')
      = (tcpEstabAckHandler env now i f l).map (fun out => (out.1.shift k k', out.2.shift k k')) ↔
      estabSeesNoShift env k k' f l.conn := by
  obtain ⟨l₁, hl₁⟩ : ∃ l₁, l₁ = eakAck env now f (eakWindow env now i f l) := ⟨_, rfl⟩
  obtain ⟨hnxt, hooo, hpure⟩ := dataTests_after hl₁
  have hpaws : pawsFails f l₁.conn = pawsFails f l.conn := by
    rw [hl₁]
    exact eakAck_paws env now i f l
  -- with the ACK out of the way, the data part decides
  have hdata : eakAck env now (f.shiftIn k k') (eakWindow env now i (f.shiftIn k k')
        (l.shift k k')) = l₁.shift k k' →
      (tcpEstabAckHandler env now i (f.shiftIn k k') (l.shift k k')
        = (tcpEstabAckHandler env now i f l).map
            (fun out => (out.1.shift k k', out.2.shift k k')) ↔
        (pawsFails f l.conn = false →
          (f.payload ≠ [] → f.seq ≠ l.conn.rcvNxt → oooFits f l.conn = true →
            sameOrder k' l.conn.rcvNxt f.seq) ∧
          (pureAck f l.conn → thirdDuplicate f l.conn → sameRecoveryPoint env k f l.conn))) := by
    intro hshift
    have hpaws' : pawsFails (f.shiftIn k k') (l₁.shift k k').conn = pawsFails f l₁.conn :=
      pawsFails_shift
    unfold tcpEstabAckHandler
    dsimp only
    rw [hshift, ← hl₁, hpaws', hpaws]
    cases pawsFails f l.conn with
    | true =>
        rw [if_pos rfl, if_pos rfl]
        exact iff_of_true rfl (by simp)
    | false =>
        rw [if_neg (by simp), if_neg (by simp), eakData_shift_iff, hnxt, hooo, hpure,
          thirdDuplicate_after hl₁]
        simp
  have hack : sameAdvance k f l.conn →
      (l.conn.sndUna < f.ack ∧ f.ack ≤ l.conn.sndNxt → sameRecovery k f l.conn) →
      eakAck env now (f.shiftIn k k') (eakWindow env now i (f.shiftIn k k') (l.shift k k'))
        = l₁.shift k k' := by
    intro hadv hrec
    obtain ⟨w, s, p, hw⟩ := eakWindow_eq env now i f l
    rw [eakWindow_shift, hl₁]
    refine eakAck_shift ?_ ?_
    · rw [hw]
      exact hadv
    · rw [hw]
      exact hrec
  constructor
  · intro h
    have hadv := sameAdvance_of_invariant h
    have hrec := sameRecovery_of_invariant h
    exact ⟨hadv, hrec, (hdata (hack hadv hrec)).mp h⟩
  · rintro ⟨hadv, hrec, hrest⟩
    exact (hdata (hack hadv hrec)).mpr hrest

end

/-! ## Every handler -/

/-- **A handler is shift invariant exactly when its plain comparisons are.** -/
theorem shift_invariant_iff (env : Env) (now : Tick) (i : Slot) (f : Frame) (l : Local)
    (k k' : W) (h : Handler) :
    ShiftInvariant env now i f l k k' h ↔ h.seesNoShift env k k' f l.conn := by
  have hsome : ∀ (out out' : Local × HRes), (some out = (some out').map
      fun out => (out.1.shift k k', out.2.shift k k')) ↔
        out = (out'.1.shift k k', out'.2.shift k k') := by
    intro out out'
    simp
  unfold ShiftInvariant
  cases h with
  | connClose | drop => exact iff_of_true rfl trivial
  | synrcvdAck =>
      refine iff_of_true ((hsome _ _).mpr ?_) trivial
      unfold tcpSynrcvdAckHandler
      show (if f.ack + k = l.conn.sndNxt + k then _ else _) = _
      simp only [add_shift_inj]
      split <;> rfl
  | estabAck => exact estabAck_shift_iff
  | estabFin => exact iff_of_true ((hsome _ _).mpr estabFin_shift) trivial
  | lastackAck => exact (hsome _ _).trans (closingAck_shift_iff rfl)
  | finwait1Ack => exact (hsome _ _).trans (closingAck_shift_iff rfl)
  | closingAck => exact (hsome _ _).trans (closingAck_shift_iff startTimewait_shift)
  | finwait1Fin => exact iff_of_true ((hsome _ _).mpr finwait1Fin_shift) trivial
  | finwait2Fin => exact iff_of_true ((hsome _ _).mpr finwait2Fin_shift) trivial
  | timewaitFin => exact iff_of_true ((hsome _ _).mpr timewaitFin_shift) trivial

/-- Ten bytes in flight from 10 on, and an ACK of half of them. -/
def halfAcked : Local := ⟨{ state := .established, sndUna := 10, sndNxt := 20 },
  timerPoolInit Callback 16, []⟩

def halfAck : Frame := { flags := tcpAckFlag, ack := 15, window := 1 }

/-- With the ten bytes across the end of sequence space, the ACK is ignored. -/
theorem ack_ignored_across_wrap :
    ¬ ShiftInvariant demoEnv 0 0 halfAck halfAcked 0xFFFFFFF4 0 .estabAck := by
  intro h
  have hadv : sameAdvance 0xFFFFFFF4 halfAck halfAcked.conn :=
    @sameAdvance_of_invariant demoEnv 0 0 halfAck halfAcked 0xFFFFFFF4 0 h
  unfold sameAdvance at hadv
  exact absurd hadv (by decide)

end WsPi5

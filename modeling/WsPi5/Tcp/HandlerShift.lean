/-
# `WsPi5.Tcp.HandlerShift` — where a shift shows

The comparisons of sequence numbers that the handlers make as plain unsigned numbers, and what each
part of a handler does with a shifted connection.

    the closing handlers      SND_NXT < SEG.ACK               `closingAck_shift_iff`
    the FIN handlers          none                            `estabFin_shift`, ...
    an ACK that advances      SND_UNA < SEG.ACK ≤ SND_NXT,
                              SACK_RECOVER ≤ SEG.ACK          `eakAck_shift`
    a duplicate ACK           the recovery point is not 0     `eakPureAck_shift_iff`
    data                      RCV_NXT < SEG.SEQ               `eakData_shift_iff`
-/
import WsPi5.Tcp.Shift

namespace WsPi5

open Lib

/-! ## Where a shift shows -/

/-- The handler does the same, with its record and its reply shifted. -/
def ShiftInvariant (env : Env) (now : Tick) (i : Slot) (f : Frame) (l : Local) (k k' : W)
    (h : Handler) : Prop :=
  h.call env now i (f.shiftIn k k') (l.shift k k')
    = (h.call env now i f l).map fun out => (out.1.shift k k', out.2.shift k k')

/-- The comparison of two numbers comes out the same. -/
def sameOrder (k a b : W) : Prop := a + k < b + k ↔ a < b

/-- `SND_UNA < SEG.ACK ≤ SND_NXT` comes out the same. -/
def sameAdvance (k : W) (f : Frame) (c : Conn) : Prop :=
  (c.sndUna + k < f.ack + k ∧ f.ack + k ≤ c.sndNxt + k) ↔ (c.sndUna < f.ack ∧ f.ack ≤ c.sndNxt)

/-- "Exit fast recovery". -/
def leavesRecovery (r ack : W) : Prop := r ≠ 0 ∧ r ≤ ack

instance (r ack : W) : Decidable (leavesRecovery r ack) := inferInstanceAs (Decidable (_ ∧ _))

/-- The end of fast recovery comes out the same; or the recovery point is shifted to 0, which means
none, and growing the window gives what leaving recovery would have. -/
def sameRecovery (k : W) (f : Frame) (c : Conn) : Prop :=
  (leavesRecovery (shiftRecover k c.sackRecover) (f.ack + k) ↔ leavesRecovery c.sackRecover f.ack) ∨
    (c.sackRecover + k = 0 ∧ c.ssthresh = grownCwnd c)

/-- The third duplicate ACK, for a segment that passed PAWS. -/
def thirdDuplicate (f : Frame) (c : Conn) : Prop :=
  f.ack = c.sndUna ∧ c.sndNxt ≠ c.sndUna ∧ c.dupAckCnt + 1 = tcpDupackThresh

/-- The segment is handled as a pure ACK: no data, or data there is no room for. -/
def pureAck (f : Frame) (c : Conn) : Prop :=
  f.payload = [] ∨ (f.seq = c.rcvNxt ∧ tcpRxbufSize < c.rxlen + f.payload.length)

/-- Fast retransmit returns, and its recovery point is not 0 (unless nothing is shifted). -/
def sameRecoveryPoint (env : Env) (k : W) (f : Frame) (c : Conn) : Prop :=
  env.hasSendFn = true ∧ fastRtxOffset c f = none ∨ c.sndNxt ≠ 0 ∨ k = 0

/-- What `tcp_estab_ack_handler` compares. -/
def estabSeesNoShift (env : Env) (k k' : W) (f : Frame) (c : Conn) : Prop :=
  sameAdvance k f c ∧
  (c.sndUna < f.ack ∧ f.ack ≤ c.sndNxt → sameRecovery k f c) ∧
  (pawsFails f c = false →
    (f.payload ≠ [] → f.seq ≠ c.rcvNxt → oooFits f c = true → sameOrder k' c.rcvNxt f.seq) ∧
    (pureAck f c → thirdDuplicate f c → sameRecoveryPoint env k f c))

/-- **The condition**, for each handler. -/
def Handler.seesNoShift (env : Env) (k k' : W) (f : Frame) (c : Conn) : Handler → Prop
  | .estabAck => estabSeesNoShift env k k' f c
  | .lastackAck | .finwait1Ack | .closingAck => sameOrder k c.sndNxt f.ack
  | .connClose | .drop | .synrcvdAck | .estabFin | .finwait1Fin | .finwait2Fin | .timewaitFin =>
      True

section
variable {env : Env} {now : Tick} {i : Slot} {f : Frame} {l : Local} {c : Conn} {k k' : W}

/-! ### The closing handlers -/

theorem shift_eq_rst {r : HRes} : r.shift k k' = .rst ↔ r = .rst := by
  cases r <;> simp [HRes.shift]

theorem closingAck_rst {stay : TcpState} {acked : Local → Local} :
    (closingAck f stay acked l).2 = .rst ↔ l.conn.sndNxt < f.ack := by
  unfold closingAck
  split
  · rename_i hlt
    exact iff_of_true rfl hlt
  · rename_i hno
    split <;> exact iff_of_false (by simp) hno

theorem closingAck_shift_iff {stay : TcpState} {acked : Local → Local}
    (hacked : acked (l.shift k k') = (acked l).shift k k') :
    closingAck (f.shiftIn k k') stay acked (l.shift k k')
      = ((closingAck f stay acked l).1.shift k k', (closingAck f stay acked l).2.shift k k') ↔
      sameOrder k l.conn.sndNxt f.ack := by
  constructor
  · intro h
    have hres := congrArg Prod.snd h
    calc l.conn.sndNxt + k < f.ack + k
        ↔ (closingAck (f.shiftIn k k') stay acked (l.shift k k')).2 = .rst :=
          (closingAck_rst (l := l.shift k k') (f := f.shiftIn k k')).symm
      _ ↔ (closingAck f stay acked l).2.shift k k' = .rst := by rw [hres]
      _ ↔ l.conn.sndNxt < f.ack := shift_eq_rst.trans closingAck_rst
  · intro h
    have hclosing : closingAck (f.shiftIn k k') stay acked (l.shift k k')
        = if l.conn.sndNxt + k < f.ack + k then ((l.withState stay).shift k k', .rst)
          else if f.ack = l.conn.sndNxt then ((acked l).shift k k', .quiet)
          else ((l.withState stay).shift k k', .quiet) := by
      unfold closingAck
      show (if l.conn.sndNxt + k < f.ack + k then _
        else if f.ack + k = l.conn.sndNxt + k then _ else _) = _
      simp only [add_shift_inj, hacked]
      rfl
    rw [hclosing, if_congr h rfl rfl]
    unfold closingAck
    split
    · rfl
    · split <;> rfl

/-! ### The FIN handlers -/

/-- The record after a FIN in ESTABLISHED. -/
def Conn.afterFin (c : Conn) (f : Frame) : Conn :=
  if f.payload = [] then { c with rcvNxt := c.rcvNxt + 1 }
  else if f.seq = c.rcvNxt ∧ c.rxlen + f.payload.length ≤ tcpRxbufSize then
    { c with
      rxbuf := memWrite c.rxbuf c.rxlen f.payload
      rxlen := c.rxlen + f.payload.length
      rcvNxt := c.rcvNxt + BitVec.ofNat 32 f.payload.length + 1 }
  else { c with state := .established }

theorem afterFin_shift :
    (c.shift k k').afterFin (f.shiftIn k k') = (c.afterFin f).shift k k' := by
  unfold Conn.afterFin
  show (if f.payload = [] then _ else if f.seq + k' = c.rcvNxt + k' ∧ _ then _ else _) = _
  simp only [add_shift_inj]
  split
  · simp only [Conn.shift, shift_add]
  · show (if f.seq = c.rcvNxt ∧ c.rxlen + f.payload.length ≤ tcpRxbufSize then _ else _) = _
    split
    · simp only [Conn.shift, Frame.shiftIn, shift_add]
    · rfl

theorem estabFin_shift : tcpEstabFinHandler now (f.shiftIn k k') (l.shift k k')
    = ((tcpEstabFinHandler now f l).1.shift k k', (tcpEstabFinHandler now f l).2.shift k k') := by
  show (({ l.shift k k' with conn := (l.conn.shift k k').afterFin (f.shiftIn k k') } : Local),
    HRes.reply (((l.conn.shift k k').afterFin (f.shiftIn k k')).ackReply now (f.shiftIn k k'))) = _
  rw [afterFin_shift]
  rfl

theorem finNext_shift : ({ l.conn.shift k k' with rcvNxt := l.conn.rcvNxt + k' + 1 } : Conn)
    = ({ l.conn with rcvNxt := l.conn.rcvNxt + 1 } : Conn).shift k k' := by
  simp only [Conn.shift, shift_add]

theorem finwait1Fin_shift : tcpFinwait1FinHandler env now i (f.shiftIn k k') (l.shift k k')
    = ((tcpFinwait1FinHandler env now i f l).1.shift k k',
        (tcpFinwait1FinHandler env now i f l).2.shift k k') := by
  have hnext := @finNext_shift l k k'
  unfold tcpFinwait1FinHandler
  show (if f.has tcpAckFlag = true ∧ f.ack + k = l.conn.sndNxt + k then _ else _) = _
  simp only [add_shift_inj]
  show (if f.has tcpAckFlag = true ∧ f.ack = l.conn.sndNxt then
      (({ l.shift k k' with
          conn := { { l.conn.shift k k' with rcvNxt := l.conn.rcvNxt + k' + 1 } with
            state := .timeWait }
          pool := _ } : Local), HRes.reply (Conn.ackReply
            { { l.conn.shift k k' with rcvNxt := l.conn.rcvNxt + k' + 1 } with
              state := .timeWait } now (f.shiftIn k k')))
    else ({ l.shift k k' with
        conn := { l.conn.shift k k' with rcvNxt := l.conn.rcvNxt + k' + 1 } },
      HRes.reply (Conn.ackReply { l.conn.shift k k' with rcvNxt := l.conn.rcvNxt + k' + 1 } now
        (f.shiftIn k k')))) = _
  rw [hnext]
  split <;> rfl

theorem finwait2Fin_shift : tcpFinwait2FinHandler env now i (f.shiftIn k k') (l.shift k k')
    = ((tcpFinwait2FinHandler env now i f l).1.shift k k',
        (tcpFinwait2FinHandler env now i f l).2.shift k k') := by
  unfold tcpFinwait2FinHandler
  dsimp only
  rw [← startTimewait_shift]
  show (startTimewait env now i
      { l.shift k k' with conn := { l.conn.shift k k' with rcvNxt := l.conn.rcvNxt + k' + 1 } },
    HRes.reply (Conn.ackReply { l.conn.shift k k' with rcvNxt := l.conn.rcvNxt + k' + 1 } now
      (f.shiftIn k k'))) = _
  rw [finNext_shift]
  rfl

theorem timewaitFin_shift : tcpTimewaitFinHandler env now i (f.shiftIn k k') (l.shift k k')
    = ((tcpTimewaitFinHandler env now i f l).1.shift k k',
        (tcpTimewaitFinHandler env now i f l).2.shift k k') := by
  unfold tcpTimewaitFinHandler
  dsimp only
  rw [← startTimewait_shift]
  rfl

/-! ### The ACK -/

theorem eakCwnd_eq : eakCwnd f c =
    if leavesRecovery c.sackRecover f.ack then
      { c with cwnd := c.ssthresh, sackRecover := 0, dupAckCnt := 0 }
    else { c with cwnd := grownCwnd c, dupAckCnt := 0 } := rfl

theorem eakCwnd_shift (h : sameRecovery k f c) :
    eakCwnd (f.shiftIn k k') (c.shift k k') = (eakCwnd f c).shift k k' := by
  have hzero : shiftRecover k 0 = 0 := if_pos rfl
  rw [eakCwnd_eq, eakCwnd_eq]
  show (if leavesRecovery (shiftRecover k c.sackRecover) (f.ack + k) then _ else _) = _
  rcases h with hiff | ⟨hnone, hwin⟩
  · rw [if_congr hiff rfl rfl]
    split
    · simp only [Conn.shift, hzero]
    · rfl
  · -- the shifted recovery point is 0: the shifted run is not in recovery
    have hshift : shiftRecover k c.sackRecover = 0 := by
      unfold shiftRecover
      split
      · rfl
      · exact hnone
    have hno : ¬ leavesRecovery (shiftRecover k c.sackRecover) (f.ack + k) := fun h => h.1 hshift
    rw [if_neg hno]
    split
    · have hgrown : grownCwnd (c.shift k k') = c.ssthresh := hwin.symm
      rw [hgrown]
      simp only [Conn.shift, hzero, hshift]
    · rfl

theorem eakRtt_congestion : (eakRtt env now c).sackRecover = c.sackRecover ∧
    (eakRtt env now c).ssthresh = c.ssthresh ∧ grownCwnd (eakRtt env now c) = grownCwnd c := by
  unfold eakRtt
  split
  · unfold tcpRttUpdate
    dsimp only
    split <;> exact ⟨rfl, rfl, rfl⟩
  · exact ⟨rfl, rfl, rfl⟩

theorem sameRecovery_rtt :
    sameRecovery k f (eakRtt env now (eakAdvance f c)) ↔ sameRecovery k f c := by
  obtain ⟨h₁, h₂, h₃⟩ := @eakRtt_congestion env now (eakAdvance f c)
  unfold sameRecovery
  rw [h₁, h₂, h₃]
  rfl

theorem ackAdvances_iff : ackAdvances f c = true ↔ c.sndUna < f.ack ∧ f.ack ≤ c.sndNxt := by
  simp [ackAdvances]

theorem eakAck_of_advances (h : ackAdvances f l.conn = true) : eakAck env now f l =
    (let l' := { l with conn := eakCwnd f (eakRtt env now (eakAdvance f l.conn)) }
     if f.ack = l'.conn.sndNxt then tcpRtxClear env l' else l') := if_pos h

theorem eakAck_of_not (h : ackAdvances f l.conn = false) : eakAck env now f l = l :=
  if_neg (by simp [h])

theorem eakAck_shift (hadv : sameAdvance k f l.conn)
    (hrec : l.conn.sndUna < f.ack ∧ f.ack ≤ l.conn.sndNxt → sameRecovery k f l.conn) :
    eakAck env now (f.shiftIn k k') (l.shift k k') = (eakAck env now f l).shift k k' := by
  have hsame : ackAdvances (f.shiftIn k k') (l.shift k k').conn = ackAdvances f l.conn := by
    apply Bool.eq_iff_iff.mpr
    exact (ackAdvances_iff (c := (l.shift k k').conn)).trans (hadv.trans ackAdvances_iff.symm)
  cases hup : ackAdvances f l.conn with
  | false => rw [eakAck_of_not hup, eakAck_of_not (hsame.trans hup)]
  | true =>
      have hcwnd : eakCwnd (f.shiftIn k k')
          (eakRtt env now (eakAdvance (f.shiftIn k k') (l.shift k k').conn))
          = (eakCwnd f (eakRtt env now (eakAdvance f l.conn))).shift k k' := by
        rw [← eakCwnd_shift (sameRecovery_rtt.mpr (hrec (ackAdvances_iff.mp hup))), ← eakRtt_shift,
          ← eakAdvance_shift]
        rfl
      rw [eakAck_of_advances hup, eakAck_of_advances (hsame.trans hup)]
      dsimp only
      rw [hcwnd]
      show (if f.ack + k = (eakCwnd f (eakRtt env now (eakAdvance f l.conn))).sndNxt + k then _
        else _) = _
      rw [if_congr add_shift_inj rfl rfl]
      split <;> rfl

/-! ### Duplicate ACKs -/

theorem commitTs_eq (f : Frame) (c : Conn) : ∃ v, commitTs f c = { c with tsRecent := v } := by
  unfold commitTs
  cases segTs f c with
  | none => exact ⟨c.tsRecent, rfl⟩
  | some v =>
      dsimp only
      split
      · exact ⟨c.tsRecent, rfl⟩
      · exact ⟨v, rfl⟩

theorem shiftRecover_eq_iff {r : W} : shiftRecover k r = r + k ↔ r ≠ 0 ∨ k = 0 := by
  unfold shiftRecover
  split
  · rename_i hzero
    subst hzero
    constructor
    · intro h
      exact .inr (by simpa using h.symm)
    · rintro (h | rfl)
      · exact absurd rfl h
      · rfl
  · rename_i hne
    exact iff_of_true rfl (.inl hne)

theorem fastRtxOffset_congr {c' : Conn} (huna : c'.sndUna = c.sndUna)
    (hnxt : c'.sndNxt = c.sndNxt) (hsack : c'.sackEnabled = c.sackEnabled) :
    fastRtxOffset c' f = fastRtxOffset c f := by
  have hflight : c'.inFlight = c.inFlight := by rw [Conn.inFlight, Conn.inFlight, huna, hnxt]
  have hhole : ∀ blocks n off, sackHoleFrom c' blocks n off = sackHoleFrom c blocks n off := by
    intro blocks n off
    simpa using sackHoleFrom_shift (k := 0) (by simpa using huna) hflight blocks n off
  unfold fastRtxOffset tcpSackFindHole
  rw [hsack, hhole]

theorem tcpFastRetransmit_none :
    tcpFastRetransmit env now i f l = none ↔
      env.hasSendFn = true ∧ fastRtxOffset l.conn f = none := by
  have hoff : fastRtxOffset l.conn.recovering f = fastRtxOffset l.conn f :=
    fastRtxOffset_congr rfl rfl rfl
  rw [tcpFastRetransmit_eq, hoff]
  split
  · rename_i hsend
    simp [hsend]
  · rename_i hsend
    simp [hsend]

theorem tcpFastRetransmit_recover {l' : Local}
    (h : tcpFastRetransmit env now i f l = some l') : l'.conn.sackRecover = l.conn.sndNxt := by
  rw [tcpFastRetransmit_eq] at h
  split at h
  · obtain ⟨off, _, rfl⟩ := Option.map_eq_some_iff.mp h
    split
    · rfl
    · unfold tcpRtxArm
      split <;> rfl
  · cases h
    rfl

theorem tcpFastRetransmit_shift_iff :
    tcpFastRetransmit env now i (f.shiftIn k k') (l.shift k k')
      = (tcpFastRetransmit env now i f l).map (Local.shift k k') ↔
      sameRecoveryPoint env k f l.conn := by
  rw [tcpFastRetransmit_shift]
  unfold sameRecoveryPoint
  rw [← @tcpFastRetransmit_none env now i f l]
  cases hfast : tcpFastRetransmit env now i f l with
  | none => simp
  | some l' =>
      have hrec : (l'.shift k k').conn.sackRecover = shiftRecover k l.conn.sndNxt :=
        congrArg (shiftRecover k) (tcpFastRetransmit_recover hfast)
      simp only [Option.map_some, Option.some.injEq, reduceCtorEq, false_or]
      rw [← shiftRecover_eq_iff, ← hrec]
      constructor
      · intro h
        exact (congrArg (fun l : Local => l.conn.sackRecover) h).symm
      · intro h
        rw [← h]
        rfl

theorem eakPureAck_shift_iff :
    eakPureAck env now i (f.shiftIn k k') (l.shift k k')
      = (eakPureAck env now i f l).map (Local.shift k k') ↔
      (thirdDuplicate f l.conn → sameRecoveryPoint env k f l.conn) := by
  obtain ⟨v, hv⟩ := commitTs_eq f l.conn
  have hts : commitTs (f.shiftIn k k') (l.shift k k').conn = (commitTs f l.conn).shift k k' :=
    commitTs_shift
  unfold eakPureAck
  dsimp only
  rw [hts, hv]
  show (if f.ack + k = l.conn.sndUna + k ∧ l.conn.sndNxt + k ≠ l.conn.sndUna + k then _ else _)
    = Option.map _ (if f.ack = l.conn.sndUna ∧ l.conn.sndNxt ≠ l.conn.sndUna then _ else _) ↔ _
  simp only [add_shift_inj, ne_eq]
  split
  · rename_i hdup
    show (if l.conn.dupAckCnt + 1 < tcpDupackThresh then _
        else if tcpDupackThresh < l.conn.dupAckCnt + 1 then _ else _)
      = Option.map _ (if l.conn.dupAckCnt + 1 < tcpDupackThresh then _
        else if tcpDupackThresh < l.conn.dupAckCnt + 1 then _ else _) ↔ _
    split
    · rename_i hfew
      refine iff_of_true rfl fun h => ?_
      have := h.2.2
      omega
    · split
      · rename_i hmany
        refine iff_of_true rfl fun h => ?_
        have := h.2.2
        omega
      · have hthird : thirdDuplicate f l.conn := ⟨hdup.1, hdup.2, by omega⟩
        have hoff : fastRtxOffset { l.conn with
              tsRecent := v, dupAckCnt := (l.conn.dupAckCnt + 1) % 256 } f
            = fastRtxOffset l.conn f := fastRtxOffset_congr rfl rfl rfl
        have hfast := @tcpFastRetransmit_shift_iff env now i f
          { l with conn := { l.conn with
              tsRecent := v, dupAckCnt := (l.conn.dupAckCnt + 1) % 256 } } k k'
        unfold sameRecoveryPoint at hfast ⊢
        rw [hoff] at hfast
        exact hfast.trans ⟨fun h _ => h, fun h => h hthird⟩
  · rename_i hno
    exact iff_of_true rfl fun h => absurd ⟨h.1, h.2.1⟩ hno

/-! ### Data -/

theorem map_pair_inj {x y : Option Local} (g : Local → Local) :
    x.map (·, HRes.quiet) = (y.map (·, HRes.quiet)).map
        (fun out => (g out.1, out.2.shift k k')) ↔ x = y.map g := by
  cases x <;> cases y <;> simp [HRes.shift]

theorem eakData_shift_iff :
    eakData env now i (f.shiftIn k k') (l.shift k k')
      = (eakData env now i f l).map (fun out => (out.1.shift k k', out.2.shift k k')) ↔
    (f.payload ≠ [] → f.seq ≠ l.conn.rcvNxt → oooFits f l.conn = true →
        sameOrder k' l.conn.rcvNxt f.seq) ∧
      (pureAck f l.conn → thirdDuplicate f l.conn → sameRecoveryPoint env k f l.conn) := by
  unfold eakData
  dsimp only
  show (if f.payload = [] then _ else if f.seq + k' = l.conn.rcvNxt + k' then _ else _)
    = Option.map _ _ ↔ _
  simp only [add_shift_inj]
  by_cases hnil : f.payload = []
  · rw [if_pos hnil, if_pos hnil, map_pair_inj, eakPureAck_shift_iff]
    exact ⟨fun h => ⟨fun hne => absurd hnil hne, fun _ => h⟩, fun h => h.2 (.inl hnil)⟩
  rw [if_neg hnil, if_neg hnil]
  by_cases hseq : f.seq = l.conn.rcvNxt
  · rw [if_pos hseq, if_pos hseq]
    obtain ⟨v, hv⟩ := commitTs_eq f l.conn
    have hts : commitTs (f.shiftIn k k') (l.shift k k').conn = (commitTs f l.conn).shift k k' :=
      commitTs_shift
    rw [hts]
    have hroom : ((commitTs f l.conn).shift k k').rxlen + (f.shiftIn k k').payload.length
        ≤ tcpRxbufSize ↔ (commitTs f l.conn).rxlen + f.payload.length ≤ tcpRxbufSize := Iff.rfl
    rw [if_congr hroom rfl rfl]
    have hrx : (commitTs f l.conn).rxlen = l.conn.rxlen := by rw [hv]
    split
    · rename_i hfits
      rw [acceptData_shift]
      refine iff_of_true rfl ⟨fun _ hne => absurd hseq hne, ?_⟩
      rintro (h | h)
      · exact absurd h hnil
      · omega
    · rename_i hfull
      have hpure := @eakPureAck_shift_iff env now i f { l with conn := commitTs f l.conn } k k'
      have hthird : thirdDuplicate f (commitTs f l.conn) ↔ thirdDuplicate f l.conn := by
        rw [hv]
        rfl
      have hpoint : sameRecoveryPoint env k f (commitTs f l.conn)
          ↔ sameRecoveryPoint env k f l.conn := by
        have hoff : fastRtxOffset { l.conn with tsRecent := v } f = fastRtxOffset l.conn f :=
          fastRtxOffset_congr rfl rfl rfl
        rw [hv]
        unfold sameRecoveryPoint
        rw [hoff]
      rw [map_pair_inj]
      refine hpure.trans ?_
      rw [hthird, hpoint]
      exact ⟨fun h => ⟨fun _ hne => absurd hseq hne, fun _ => h⟩,
        fun h => h.2 (.inr ⟨hseq, by omega⟩)⟩
  · have hnopure : ¬ pureAck f l.conn := by
      rintro (h | h)
      · exact hnil h
      · exact hseq h.1
    have hfits : oooFits (f.shiftIn k k') (l.shift k k').conn = oooFits f l.conn := oooFits_shift
    have hstore : storeOoo (f.shiftIn k k') (l.shift k k').conn = (storeOoo f l.conn).shift k k' :=
      storeOoo_shift
    have hmore : ∀ r r' : HRes, some (({ l with conn := storeOoo f l.conn } : Local).shift k k', r)
        ≠ some (l.shift k k', r') := by
      intro r r' heq
      have hlen := congrArg (fun l : Local => l.conn.oooSlots.length)
        (congrArg Prod.fst (Option.some.inj heq))
      simp [Local.shift, Conn.shift, storeOoo] at hlen
    rw [if_neg hseq, if_neg hseq, hfits, hstore]
    refine Iff.trans ?_ ⟨fun h => ⟨fun _ _ => h, fun h => absurd h hnopure⟩,
      fun h => h.1 hnil hseq⟩
    cases oooFits f l.conn with
    | false =>
        rw [if_neg (by simp), if_neg (by simp)]
        exact iff_of_true rfl (by simp)
    | true =>
        simp only [and_true, forall_const]
        unfold sameOrder
        by_cases h₁ : (l.shift k k').conn.rcvNxt < (f.shiftIn k k').seq <;>
          by_cases h₂ : l.conn.rcvNxt < f.seq
        · rw [if_pos h₁, if_pos h₂]
          exact iff_of_true rfl (iff_of_true h₁ h₂)
        · -- only the shifted run stores the segment
          rw [if_pos h₁, if_neg h₂]
          exact iff_of_false (hmore _ _) fun h => h₂ (h.mp h₁)
        · rw [if_neg h₁, if_pos h₂]
          exact iff_of_false (hmore _ _).symm fun h => h₁ (h.mpr h₂)
        · rw [if_neg h₁, if_neg h₂]
          exact iff_of_true rfl (iff_of_false h₁ h₂)

theorem eakPureAck_plain (h : ¬ thirdDuplicate f l.conn) : ∃ l',
    eakPureAck env now i f l = some l' ∧ l'.conn.sndUna = l.conn.sndUna ∧
      l'.conn.sackRecover = l.conn.sackRecover ∧
      (l.conn.dupAckCnt = 0 → l'.conn.cwnd = l.conn.cwnd) := by
  obtain ⟨v, hv⟩ := commitTs_eq f l.conn
  unfold eakPureAck
  dsimp only
  rw [hv]
  split
  · rename_i hdup
    split
    · exact ⟨_, rfl, rfl, rfl, fun _ => rfl⟩
    · split
      · rename_i hmany
        refine ⟨_, rfl, rfl, rfl, fun hzero => ?_⟩
        dsimp only at hmany
        rw [hzero] at hmany
        exact absurd hmany (by decide)
      · rename_i hfew hmany
        exact absurd ⟨hdup.1, hdup.2, Nat.le_antisymm (Nat.not_lt.mp hmany) (Nat.not_lt.mp hfew)⟩ h
  · exact ⟨_, rfl, rfl, rfl, fun _ => rfl⟩

theorem oooMerge_eq (n : Nat) : ∀ c : Conn, ∃ r m o,
    oooMerge n c = { c with rcvNxt := r, rxlen := m, oooSlots := o } := by
  induction n with
  | zero => exact fun c => ⟨c.rcvNxt, c.rxlen, c.oooSlots, rfl⟩
  | succ n ih =>
      intro c
      rw [oooMerge]
      split
      · exact ⟨c.rcvNxt, c.rxlen, c.oooSlots, rfl⟩
      · obtain ⟨r, m, o, heq⟩ := ih { c with
          rcvNxt := _, rxlen := _, oooSlots := _ }
        exact ⟨r, m, o, heq⟩

/-- Without a third duplicate ACK the data part returns and leaves `SND_UNA` and `SACK_RECOVER`. -/
theorem eakData_plain (h : ¬ thirdDuplicate f l.conn) : ∃ l' r,
    eakData env now i f l = some (l', r) ∧ l'.conn.sndUna = l.conn.sndUna ∧
      l'.conn.sackRecover = l.conn.sackRecover ∧
      (l.conn.dupAckCnt = 0 → l'.conn.cwnd = l.conn.cwnd) := by
  obtain ⟨v, hv⟩ := commitTs_eq f l.conn
  unfold eakData
  dsimp only
  split
  · obtain ⟨l', heq, hl⟩ := @eakPureAck_plain env now i f l h
    exact ⟨l', .quiet, by rw [heq]; rfl, hl⟩
  · split
    · split
      · obtain ⟨r, m, o, heq⟩ := oooMerge_eq (commitTs f l.conn).oooSlots.length
          { commitTs f l.conn with
            rxbuf := memWrite (commitTs f l.conn).rxbuf (commitTs f l.conn).rxlen f.payload
            rxlen := (commitTs f l.conn).rxlen + f.payload.length
            rcvNxt := (commitTs f l.conn).rcvNxt + BitVec.ofNat 32 f.payload.length }
        have haccept : acceptData f (commitTs f l.conn) = _ := heq
        refine ⟨_, _, rfl, ?_, ?_, fun _ => ?_⟩
        all_goals
          dsimp only
          rw [haccept, hv]
      · have hthird : ¬ thirdDuplicate f (commitTs f l.conn) := by
          rw [hv]
          exact h
        obtain ⟨l', heq, hl⟩ :=
          @eakPureAck_plain env now i f { l with conn := commitTs f l.conn } hthird
        refine ⟨l', .quiet, by rw [heq]; rfl, ?_⟩
        rw [hv] at hl
        exact hl
    · split
      · exact ⟨_, _, rfl, rfl, rfl, fun _ => rfl⟩
      · exact ⟨_, _, rfl, rfl, rfl, fun _ => rfl⟩

end

end WsPi5

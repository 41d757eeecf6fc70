/-
# `WsPi5.Tcp.Retransmit` — a frame sent again carries what was sent first

`carried f p` is what frame `f` puts at sequence position `p`: itself as the SYN or the FIN,
or a payload byte.  `Faithful i f log` says that wherever `f` covers a position, it carries
there what `firstSent` finds in the log: the saved SYN-ACK at our SYN's position, the FIN at
our FIN's, and elsewhere the byte that `tcp_send` accepted.

**Proved here** (`resent_faithful`): in every run that opens slot `i` only over an empty ring
(`opensClean`, as in `WsPi5.Tcp.SendBuf`) and in which the retransmission timer of slot `i`
fires only on data (`rtxOnData`), every frame that `tcp_retransmit_cb` or
`tcp_fast_retransmit` ever sent for slot `i` was faithful when it was sent.

**Why `rtxOnData`.**  `tcp_retransmit_cb` builds from the ring whenever `SND_NXT - SND_UNA`
is not zero, and in SYN_RCVD and after a FIN that count includes the position of our SYN or
FIN.  If the segment it builds reaches that position — always in SYN_RCVD, and after a FIN
unless one MSS is less than what is in flight — it carries a stale ring byte there, and the
saved control frame is never sent.  Fast retransmit runs only in ESTABLISHED and needs no
such condition.
-/
import WsPi5.Tcp.SendBuf

namespace WsPi5

open Lib

/-! ## What a frame carries -/

/-- What `f` puts at position `p`. -/
def carried (f : Frame) (p : W) : Option Sent :=
  let k := (p - f.seq).toNat
  let first := if f.has tcpSyn then 1 else 0
  if k < first then some (.syn f)
  else if k - first < f.payload.length then f.payload[k - first]?.map .data
  else if f.has tcpFin ∧ k - first = f.payload.length then some (.fin f)
  else none

/-- Wherever `f` covers a position, it carries what was first sent there. -/
def Faithful (i : Slot) (f : Frame) (log : List Obs) : Prop :=
  ∀ p s, carried f p = some s → firstSent i p log = some s

/-- Every frame sent again for slot `i` was faithful at the time. -/
def AllFaithful (i : Slot) : List Obs → Prop
  | [] => True
  | .resent j f :: log => (j = i → Faithful i f log) ∧ AllFaithful i log
  | _ :: log => AllFaithful i log

theorem allFaithful_cons {i : Slot} {o : Obs} {log : List Obs}
    (ho : ∀ f, o ≠ .resent i f) : AllFaithful i (o :: log) ↔ AllFaithful i log := by
  cases o with
  | resent j f =>
      have hj : j ≠ i := fun h => ho f (by rw [h])
      simp [AllFaithful, hj]
  | _ => exact Iff.rfl

theorem allFaithful_ownLog (i : Slot) :
    OwnLog i (fun c log => SndInv i c log ∧ AllFaithful i log) := by
  intro c o log ho
  have hne : ∀ f, o ≠ .resent i f := fun f h => ho (by rw [h]; rfl)
  exact and_congr (sndInv_ownLog i c o log ho) (allFaithful_cons hne)

/-! ## Frames from the ring -/

theorem ringFrame_faithful {env : Env} {now : Tick} {i : Slot} {c : Conn} {log : List Obs}
    {off : W} {n : Nat} (hring : c.snd.Holds i log) (hused : c.snd.used.toNat ≤ tcpSndbufSize)
    (hn : off.toNat + n ≤ c.sndBufUsed.toNat) :
    Faithful i (tcpBuildFrame env now c (c.sndUna + off) tcpPshAck
      (c.ringRead off.toNat n)) log := by
  intro p s hs
  have hlen : (c.ringRead off.toNat n).length = n := by simp [Conn.ringRead]
  -- PSH+ACK is neither SYN nor FIN, so only the payload carries anything
  have hcar : carried (tcpBuildFrame env now c (c.sndUna + off) tcpPshAck
      (c.ringRead off.toNat n)) p
      = if (p - (c.sndUna + off)).toNat < n then
          (c.ringRead off.toNat n)[(p - (c.sndUna + off)).toNat]?.map .data
        else none := by
    simp [carried, tcpBuildFrame, Frame.has, tcpPshAck, tcpSyn, tcpFin, hlen]
  rw [hcar] at hs
  split at hs
  · rename_i hk
    have hsize : tcpSndbufSize = 262144 := rfl
    have hused' : c.sndBufUsed.toNat ≤ tcpSndbufSize := hused
    have hpos : c.sndUna + BitVec.ofNat 32 (off.toNat + (p - (c.sndUna + off)).toNat) = p := by
      bv_omega
    have hget : (c.ringRead off.toNat n)[(p - (c.sndUna + off)).toNat]?
        = some (c.sndbuf ((c.sndBufTail + off.toNat + (p - (c.sndUna + off)).toNat)
            % tcpSndbufSize)) := by
      rw [List.getElem?_eq_getElem (by rw [hlen]; exact hk)]
      simp [Conn.ringRead]
    rw [hget] at hs
    have hheld := hring (off.toNat + (p - (c.sndUna + off)).toNat)
      (by simp only [Conn.snd]; omega)
    simp only [Conn.snd, hpos, ← Nat.add_assoc] at hheld
    rw [hheld]
    exact hs
  · cases hs

/-- While everything in flight is in the ring, any frame built at an offset is faithful. -/
theorem buildFrameAt_faithful {env : Env} {now : Tick} {i : Slot} {c : Conn} {log : List Obs}
    {off : W} {g : Frame} (hb : c.snd.Bounded) (hc : c.snd.Coupled i log .data)
    (h : tcpSndbufBuildFrameAt env now c off = some g) : Faithful i g log := by
  obtain ⟨hfl, hring, _⟩ := hc
  have hfl' : c.inFlight = c.sndBufUsed := hfl
  unfold tcpSndbufBuildFrameAt at h
  split at h
  · cases h
  · rename_i hoff
    cases h
    apply ringFrame_faithful hring hb.used
    rw [hfl'] at hoff ⊢
    have hlt : off < c.sndBufUsed := BitVec.not_le.mp hoff
    split
    · bv_omega
    · rename_i hmss
      have hge : c.mss ≤ c.sndBufUsed - off := BitVec.not_lt.mp hmss
      bv_omega

/-- Behind a FIN the frame from `SND_UNA` is still faithful, if one MSS does not reach it. -/
theorem buildFrame_faithful_fin {env : Env} {now : Tick} {i : Slot} {c : Conn}
    {log : List Obs} {g : Frame} (hb : c.snd.Bounded) (hc : c.snd.Coupled i log .fin)
    (hmss : c.mss < c.inFlight) (h : tcpSndbufBuildFrame env now c = some g) :
    Faithful i g log := by
  obtain ⟨hfl, hring⟩ := hc
  have hfl' : c.inFlight = c.sndBufUsed + 1 := hfl
  have hused : c.sndBufUsed.toNat ≤ tcpSndbufSize := hb.used
  have hsize : tcpSndbufSize = 262144 := rfl
  unfold tcpSndbufBuildFrame at h
  split at h
  · cases h
  · cases h
    have hzero : c.sndUna = c.sndUna + 0 := by bv_omega
    rw [hzero]
    apply ringFrame_faithful hring hb.used
    have hnot : ¬ c.inFlight < c.mss := by bv_omega
    rw [if_neg hnot]
    rw [hfl'] at hmss
    bv_omega

/-! ## The condition on timeouts -/

/-- The connection whose retransmission timer the call fires, if it does. -/
def Tcp.rtxFires (t : Tcp) (e : Event) : Option Slot :=
  match e.call with
  | .visit k =>
      match timerDue t.pool e.now k with
      | some ⟨_, .tcpRetransmitCb j⟩ => some j
      | _ => none
  | _ => none

/-- The retransmission timer of slot `i` fires on a dead slot, on a connection that gives
up, or where what it sends lies before our FIN and after our SYN. -/
def rtxOnData (i : Slot) (t : Tcp) (e : Event) : Prop :=
  t.rtxFires e = some i →
    (t.conn i).state.sndPhase = .idle ∨ (t.conn i).state.sndPhase = .data ∨
    tcpMaxRetries ≤ (t.conn i).rtxcount ∨ (t.conn i).mss < (t.conn i).inFlight

theorem rtxBackoff_frame {env : Env} {now : Tick} (c : Conn) :
    rtxFrame env now (rtxBackoff env c) = rtxFrame env now c := rfl

theorem rtxFrame_faithful {env : Env} {now : Tick} {i : Slot} {c : Conn} {log : List Obs}
    {g : Frame} (h : SndInv i c log)
    (hlive : ¬ (c.state = .closed ∨ c.state = .listen))
    (hdata : c.state.sndPhase = .data ∨ c.mss < c.inFlight)
    (hg : rtxFrame env now c = some g) : Faithful i g log := by
  obtain ⟨hb, hc⟩ := h
  have hfrom : tcpSndbufBuildFrame env now c = none → c.inFlight = 0 := by
    intro hnone
    unfold tcpSndbufBuildFrame at hnone
    split at hnone
    · assumption
    · cases hnone
  unfold rtxFrame at hg
  cases hph : c.state.sndPhase with
  | idle =>
      cases hst : c.state <;> simp_all [TcpState.sndPhase]
  | syn =>
      -- one MSS below the one position in flight: an empty segment
      rw [hph] at hc hdata
      have hone : c.inFlight = 1 := hc.1
      obtain hcon | hmss := hdata
      · cases hcon
      · have hzero : c.mss = 0 := by rw [hone] at hmss; bv_omega
        have hsome : tcpSndbufBuildFrame env now c
            = some (tcpBuildFrame env now c c.sndUna tcpPshAck []) := by
          simp [tcpSndbufBuildFrame, hone, hzero, Conn.ringRead]
        rw [hsome] at hg
        cases hg
        intro p s hs
        simp [carried, tcpBuildFrame, Frame.has, tcpPshAck, tcpSyn, tcpFin] at hs
  | data =>
      rw [hph] at hc
      cases hf : tcpSndbufBuildFrame env now c with
      | some g' =>
          rw [hf] at hg
          cases hg
          rw [tcpSndbufBuildFrame_eq_at] at hf
          exact buildFrameAt_faithful hb hc hf
      | none =>
          have hrtx : c.rtxlen = 0 := hc.2.2
          rw [hf] at hg
          simp [hrtx] at hg
  | fin =>
      rw [hph] at hc hdata
      obtain hcon | hmss := hdata
      · cases hcon
      · cases hf : tcpSndbufBuildFrame env now c with
        | some g' =>
            rw [hf] at hg
            cases hg
            exact buildFrame_faithful_fin hb hc hmss hf
        | none =>
            have hz := hfrom hf
            rw [hz] at hmss
            exact absurd hmss (by bv_omega)

/-! ## Every act -/

theorem tcpRetransmitCb_faithful {env : Env} {now : Tick} {i : Slot} {l : Local}
    (h : SndInv i l.conn l.log) (hall : AllFaithful i l.log)
    (hok : l.conn.state.sndPhase = .idle ∨ l.conn.state.sndPhase = .data ∨
      tcpMaxRetries ≤ l.conn.rtxcount ∨ l.conn.mss < l.conn.inFlight) :
    AllFaithful i (tcpRetransmitCb env now i l).log := by
  unfold tcpRetransmitCb
  split
  · exact hall
  · rename_i hlive
    split
    · exact hall
    · rename_i hcount
      dsimp only
      split
      · split
        · exact hall
        · rename_i g hg
          rw [tcpRtxArm_log]
          refine ⟨fun _ => ?_, hall⟩
          rw [rtxBackoff_frame] at hg
          refine rtxFrame_faithful h hlive ?_ hg
          obtain hidle | hdata | hmany | hmss := hok
          · cases hst : l.conn.state <;> simp_all [TcpState.sndPhase]
          · exact Or.inl hdata
          · exact absurd hmany hcount
          · exact Or.inr hmss
      · exact hall

/-- The ACK handler: its one retransmission is built from a coupled record. -/
theorem estabAck_faithful {env : Env} {now : Tick} {i : Slot} {f : Frame} {l l' : Local}
    {r : HRes} (h : SndInv i l.conn l.log) (hst : l.conn.state = .established)
    (hall : AllFaithful i l.log)
    (hc : tcpEstabAckHandler env now i f (l.withState .established) = some (l', r)) :
    AllFaithful i l'.log := by
  obtain ⟨hb, hcoup⟩ := h
  rw [hst] at hcoup
  obtain ⟨m, hmlog, hmb, hmc, _, hres⟩ :=
    tcpEstabAckHandler_coupled (l := l.withState .established) hb hcoup hc
  rw [Local.withState_log] at hmlog hmc
  obtain hsame | ⟨c, off, g, hlog, hg, hk, _⟩ := hres
  · rw [hsame, hmlog]
    exact hall
  · rw [hlog, hmlog]
    exact ⟨fun _ => buildFrameAt_faithful (hk.bounded hmb) (hk.coupled hmc) hg, hall⟩

/-- **Every act keeps the record of faithful retransmissions.** -/
theorem SlotAct.allFaithful {env : Env} {t : Tcp} {e : Event} {i : Slot} {l l' : Local}
    (hdata : rtxOnData i t e) (hl : l.conn = t.conn i) (hlog : l.log = t.log)
    (ha : SlotAct env t e i l l') (h : SndInv i l.conn l.log) (hall : AllFaithful i l.log) :
    AllFaithful i l'.log := by
  cases ha with
  | @recv f evt next hd l₁ r hrx hmatch hcls hrst htab hcall =>
      rw [(settle_snd e.now (t.conn i).state l₁ r).2]
      by_cases h₂ : hd = .estabAck
      · subst h₂
        rw [← hl] at htab
        obtain ⟨hs, rfl⟩ := tcpFsaTable_estabAck htab
        exact estabAck_faithful h hs hall hcall
      · have hsame : l₁.log = l.log := by
          by_cases h₁ : hd = .synrcvdAck
          · subst h₁
            simp only [Handler.call, tcpSynrcvdAckHandler] at hcall
            split at hcall <;> cases hcall <;> rfl
          · exact (Handler.call_keeps hcall h₂ h₁).2
        rw [hsame]
        exact hall
  | opened _ _ _ _ halloc =>
      rw [openSlot_log, allocSlot_log halloc, ← hlog]
      exact hall
  | touched => exact hall
  | @sent p _ =>
      unfold tcpSend
      split
      · rw [tcpSendAccept_log]
        exact hall
      · exact hall
  | closed _ =>
      unfold tcpClose
      dsimp only
      split
      · exact hall
      · rw [tcpRtxSave_log]
        exact hall
  | @consumed n _ =>
      unfold tcpRxConsume
      dsimp only
      split
      · exact hall
      · exact hall
  | flushed _ => exact hall
  | tornDown _ => exact hall
  | retransmit hcall hdue =>
      have hfires : t.rtxFires e = some i := by simp [Tcp.rtxFires, hcall, hdue]
      have hok := hdata hfires
      rw [← hl] at hok
      exact tcpRetransmitCb_faithful h hall hok
  | timewait _ _ => exact hall
  | persist _ _ =>
      unfold tcpPersistCb
      split
      · rw [tcpPersistArm_log]
        exact hall
      · exact hall
  | listening _ _ => exact hall

/-- **Retransmission fidelity.**  In every run that opens slot `i` only over an empty ring
and in which its retransmission timer fires only on data, every frame ever sent again for
slot `i` carried, at each position it covers, what was first sent there. -/
theorem resent_faithful {env : Env} {cap : PoolCap} {i : Slot} {t : Tcp}
    (h : Run (step env) (fun t e => opensClean env i t e ∧ rtxOnData i t e) (tcpInit cap) t) :
    AllFaithful i t.log := by
  have hinv : SndInv i (t.conn i) t.log ∧ AllFaithful i t.log := by
    refine slot_run h (allFaithful_ownLog i) ?_ ⟨sndInv_init cap i, trivial⟩
    intro t e l l' hok hl hlog ha hP
    exact ⟨ha.sndInv hok.1 hl hlog hP.1, ha.allFaithful hok.2 hl hlog hP.1 hP.2⟩
  exact hinv.2

instance decRtxOnData (i : Slot) (t : Tcp) (e : Event) : Decidable (rtxOnData i t e) :=
  inferInstanceAs (Decidable (_ → _))

/-- A run with a data segment sent again: the timer in pool slot 0 fires at tick 5000. -/
theorem resent_faithful_demo : ∃ t : Tcp, Run (step demoEnv)
    (fun t e => opensClean demoEnv 1 t e ∧ rtxOnData 1 t e) (tcpInit 16) t ∧
    (t.log.head?.map fun o => o matches .resent ..) = some true ∧ AllFaithful 1 t.log := by
  obtain ⟨t, hrun, hhead⟩ := exists_run (step demoEnv)
    (fun t e => opensClean demoEnv 1 t e ∧ rtxOnData 1 t e) (tcpInit 16)
    (Q := fun t => (t.log.head?.map fun o => o matches .resent ..) = some true)
    (demoOpen ++ [⟨1, .send 1 [65, 66]⟩, ⟨5000, .visit 0⟩])
    (by decide +kernel) (by decide +kernel)
  exact ⟨t, hrun, hhead, resent_faithful hrun⟩

/-- The peer never answers the SYN-ACK.  The timeout sends PSH+ACK with one stale ring byte
at the position of our SYN, where the saved SYN-ACK was first sent. -/
theorem synAck_not_resent : ∃ t : Tcp, Run (step demoEnv) anyEvent (tcpInit 16) t ∧
    ¬ AllFaithful 1 t.log := by
  obtain ⟨t, hrun, g, rest, hlog, hcar, hfirst⟩ := exists_run (step demoEnv)
    anyEvent (tcpInit 16)
    (Q := fun t => ∃ g rest, t.log = .resent 1 g :: rest ∧
      carried g g.seq = some (.data 0) ∧ firstSent 1 g.seq rest ≠ some (.data 0))
    [⟨1, .listen 80⟩, ⟨1, .rx demoSyn⟩, ⟨5000, .visit 0⟩] (by decide +kernel)
    ⟨_, rfl, _, _, rfl, by decide +kernel, by decide +kernel⟩
  refine ⟨t, hrun, fun hall => hfirst ?_⟩
  rw [hlog] at hall
  exact hall.1 rfl _ _ hcar

end WsPi5

/-
# `WsPi5.Tcp.Congestion` — the congestion state, and what it protects

Congestion window, threshold and segment size stay in bounds in every state of every run
(`Flow.CongOk`, kept act by act in `WsPi5.Tcp.Flow`).  What rests on it is the circular send
buffer: `tcp_send` looks at windows only, never at the ring, and it is the cap of 256 KB on the
congestion window that keeps it from writing over a byte that is still unacknowledged.

The ring is read here from `SND_BUF_HEAD`, not from `SND_BUF_TAIL`:

    n unacknowledged data bytes  =  the n cells before HEAD, in order

so nothing is assumed about the ring that a slot's last user left behind (`WsPi5.Tcp.SendBuf`
needs that for `TAIL` and `USED`).  By the phase of the connection:

    phase   in flight
    syn     1
    data    n
    fin     n + 1, our FIN behind the data
-/
import WsPi5.Tcp.Flow
import WsPi5.Tcp.FrameSize

namespace WsPi5

open Lib

/-! ## The unacknowledged bytes in the ring -/

/-- The `n` cells before `HEAD` hold what was first sent from `SND_UNA` on. -/
structure Flow.Unacked (i : Slot) (s : Flow) (log : List Obs) (n : Nat) : Prop where
  room : n ≤ tcpSndbufSize
  bytes : ∀ k, k < n → firstSent i (s.una + BitVec.ofNat 32 k) log
    = some (.data (s.buf ((s.head + (tcpSndbufSize - n) + k) % tcpSndbufSize)))

def Flow.Flight (i : Slot) (s : Flow) (log : List Obs) : SndPhase → Prop
  | .idle => True
  | .syn => s.nxt - s.una = 1
  | .data => s.Unacked i log (s.nxt - s.una).toNat
  | .fin => ∃ n, (s.nxt - s.una).toNat = n + 1 ∧ s.Unacked i log n

/-- The invariant of a slot: nothing while it is free, else congestion state and flight. -/
def FlowInv (i : Slot) (c : Conn) (log : List Obs) : Prop :=
  c.state.sndPhase = .idle ∨ c.flow.CongOk ∧ c.flow.Flight i log c.state.sndPhase

section
variable {i : Slot} {s s' : Flow} {log log' : List Obs} {n : Nat}

theorem Flow.Unacked.congr (h : s.Unacked i log n) (huna : s'.una = s.una)
    (hhead : s'.head = s.head) (hbuf : s'.buf = s.buf)
    (hlog : ∀ p, firstSent i p log' = firstSent i p log) : s'.Unacked i log' n := by
  refine ⟨h.room, fun k hk => ?_⟩
  rw [huna, hhead, hbuf, hlog]
  exact h.bytes k hk

theorem Flow.Flight.congr {ph : SndPhase} (h : s.Flight i log ph) (huna : s'.una = s.una)
    (hnxt : s'.nxt = s.nxt) (hhead : s'.head = s.head) (hbuf : s'.buf = s.buf)
    (hlog : ∀ p, firstSent i p log' = firstSent i p log) : s'.Flight i log' ph := by
  cases ph with
  | idle => trivial
  | syn =>
      show s'.nxt - s'.una = 1
      rw [hnxt, huna]
      exact h
  | data =>
      show s'.Unacked i log' (s'.nxt - s'.una).toNat
      rw [hnxt, huna]
      exact Flow.Unacked.congr h huna hhead hbuf hlog
  | fin =>
      obtain ⟨n, hn, hb⟩ := h
      exact ⟨n, by rw [hnxt, huna]; exact hn, hb.congr huna hhead hbuf hlog⟩

theorem Flow.Unacked.acked {a : Nat} (h : s.Unacked i log n) (ha : a ≤ n)
    (huna : s'.una = s.una + BitVec.ofNat 32 a) (hhead : s'.head = s.head)
    (hbuf : s'.buf = s.buf) (hlog : ∀ p, firstSent i p log' = firstSent i p log) :
    s'.Unacked i log' (n - a) := by
  have hroom := h.room
  refine ⟨by omega, fun k hk => ?_⟩
  have hpos : s.una + BitVec.ofNat 32 a + BitVec.ofNat 32 k
      = s.una + BitVec.ofNat 32 (a + k) := by
    rw [BitVec.add_assoc, ← BitVec.ofNat_add]
  have hcell : s.head + (tcpSndbufSize - (n - a)) + k
      = s.head + (tcpSndbufSize - n) + (a + k) := by omega
  rw [huna, hhead, hbuf, hlog, hpos, hcell]
  exact h.bytes (a + k) (by omega)

theorem firstSent_quiet : ∀ {os : List Obs}, (∀ o ∈ os, o.isData = false) → ∀ (p : W),
    firstSent i p (os ++ log) = firstSent i p log
  | [], _, _ => rfl
  | o :: os, h, p => by
      have ho : o.isData = false := h o (by simp)
      have ih : firstSent i p (os ++ log) = firstSent i p log :=
        firstSent_quiet (fun o' ho' => h o' (by simp [ho'])) p
      cases o with
      | opened | accepted | finSent | resent => cases ho
      | probed | consumed => exact ih

end

/-! ## Sending and closing -/

section
variable {env : Env} {now : Tick} {i : Slot} {l l' : Local}

/-- **The send step.**  The payload fits behind the unacknowledged bytes: the window that
`tcp_send` checked is at most the ring size. -/
theorem tcpSendAccept_flight {p : List Byte} (hc : l.conn.flow.CongOk)
    (hfl : l.conn.flow.Flight i l.log .data)
    (hacc : tcpSendAccepts l.conn p.length = true) :
    (tcpSendAccept env now i p l).conn.flow.Flight i (tcpSendAccept env now i p l).log
      .data := by
  obtain ⟨_, _, _, _, hcw⟩ := tcpSendAccepts_spec hacc
  obtain ⟨hroom, hbytes⟩ := hfl
  have hcap : l.conn.cwnd.toNat ≤ tcpSndbufSize := hc.cwnd.2
  have hsize : tcpSndbufSize = 262144 := rfl
  have hn : (l.conn.flow.nxt - l.conn.flow.una).toNat = l.conn.inFlight.toNat := rfl
  rw [hn] at hroom hbytes
  have hfit : l.conn.inFlight.toNat + p.length ≤ tcpSndbufSize := by omega
  have hnew : (l.conn.sndNxt + BitVec.ofNat 32 p.length - l.conn.sndUna).toNat
      = l.conn.inFlight.toNat + p.length := by
    rw [Conn.inFlight] at hfit ⊢
    bv_omega
  rw [tcpSendAccept_flow, tcpSendAccept_log]
  show Flow.Unacked i _ _ (l.conn.sndNxt + BitVec.ofNat 32 p.length - l.conn.sndUna).toNat
  rw [hnew]
  refine ⟨hfit, fun k hk => ?_⟩
  have hseq : (tcpSendFrame env now l.conn p).seq = l.conn.sndNxt := rfl
  have hpay : (tcpSendFrame env now l.conn p).payload = p := rfl
  have hnxt : l.conn.sndNxt = l.conn.sndUna + BitVec.ofNat 32 l.conn.inFlight.toNat := by
    rw [Conn.inFlight]
    bv_omega
  -- the oldest unacknowledged byte is this many cells behind the start of the ring
  have hhead : l.conn.sndBufHead % tcpSndbufSize
      = (l.conn.sndBufHead + (tcpSndbufSize - l.conn.inFlight.toNat) + l.conn.inFlight.toNat)
        % tcpSndbufSize := by
    rw [Nat.add_assoc, Nat.sub_add_cancel hroom, Nat.add_mod_right]
  have hcell : ((l.conn.sndBufHead + p.length) % tcpSndbufSize
        + (tcpSndbufSize - (l.conn.inFlight.toNat + p.length)) + k) % tcpSndbufSize
      = (l.conn.sndBufHead + (tcpSndbufSize - l.conn.inFlight.toNat) + k) % tcpSndbufSize := by
    rw [Nat.add_assoc, Nat.mod_add_mod]
    congr 1
    omega
  show firstSent i (l.conn.sndUna + BitVec.ofNat 32 k) _ = some (.data (ringWrite tcpSndbufSize
    l.conn.sndbuf l.conn.sndBufHead p (((l.conn.sndBufHead + p.length) % tcpSndbufSize
        + (tcpSndbufSize - (l.conn.inFlight.toNat + p.length)) + k) % tcpSndbufSize)))
  rw [hcell, firstSent, hseq, hpay]
  by_cases hold : k < l.conn.inFlight.toNat
  · -- an older byte: not in the new payload, and its cell is not hit
    have hfar : ¬ (l.conn.sndUna + BitVec.ofNat 32 k - l.conn.sndNxt).toNat < p.length := by
      rw [hnxt]
      bv_omega
    rw [if_neg (fun hcon => hfar hcon.2), ringWrite_keep p hhead hold hfit]
    exact hbytes k hold
  · -- a byte of the new payload
    obtain ⟨m, rfl⟩ : ∃ m, k = l.conn.inFlight.toNat + m :=
      ⟨k - l.conn.inFlight.toNat, by omega⟩
    have hm : m < p.length := by omega
    have hoff : (l.conn.sndUna + BitVec.ofNat 32 (l.conn.inFlight.toNat + m)
        - l.conn.sndNxt).toNat = m := by
      rw [hnxt]
      bv_omega
    rw [if_pos ⟨rfl, by rw [hoff]; exact hm⟩, hoff, ringWrite_new p hhead hm hfit,
      List.getElem?_eq_getElem hm]
    rfl

/-- **The close step.**  Our FIN takes the position behind the data, and no cell. -/
theorem close_flight {g : Frame} (hfl : l.conn.flow.Flight i l.log .data)
    (hseq : g.seq = l.conn.sndNxt)
    (hflow : ∃ tick, l'.conn.flow = { l.conn.flow with
      nxt := l.conn.sndNxt + 1, sendTick := tick })
    (hlog : l'.log = .finSent i g :: l.log) : l'.conn.flow.Flight i l'.log .fin := by
  obtain ⟨tick, hflow⟩ := hflow
  have hsize : tcpSndbufSize = 262144 := rfl
  have hroom := hfl.room
  have hroom' : (l.conn.sndNxt - l.conn.sndUna).toNat ≤ tcpSndbufSize := hroom
  rw [hflow, hlog]
  refine ⟨(l.conn.sndNxt - l.conn.sndUna).toNat, ?_, hroom, fun k hk => ?_⟩
  · show (l.conn.sndNxt + 1 - l.conn.sndUna).toNat = _
    bv_omega
  · -- the FIN's position is none of the data's
    have hne : ¬ (l.conn.sndUna + BitVec.ofNat 32 k = l.conn.sndNxt) := by bv_omega
    show firstSent i (l.conn.sndUna + BitVec.ofNat 32 k) _ = _
    rw [firstSent, hseq, if_neg (fun hcon => hne hcon.2)]
    exact hfl.bytes k hk

end

/-! ## Every act keeps the invariant -/

theorem flowInv_ownLog (i : Slot) : OwnLog i (FlowInv i) := by
  intro c o log ho
  have hsame : ∀ p, firstSent i p (o :: log) = firstSent i p log := fun p => firstSent_other ho
  constructor
  · rintro (h | ⟨hc, hfl⟩)
    · exact .inl h
    · exact .inr ⟨hc, hfl.congr rfl rfl rfl rfl fun p => (hsame p).symm⟩
  · rintro (h | ⟨hc, hfl⟩)
    · exact .inl h
    · exact .inr ⟨hc, hfl.congr rfl rfl rfl rfl hsame⟩

section
variable {env : Env} {t : Tcp} {e : Event} {i : Slot} {l l' : Local}

theorem openSlot_flowInv (env : Env) (now : Tick) (f : Frame) (lport : BitVec 16) (i : Slot)
    (l : Local) :
    FlowInv i (openSlot env now f lport i l).conn (openSlot env now f lport i l).log := by
  have hpos := synMss_pos f
  have hlt := (synMss f).isLt
  have hcw : ((synMss f).setWidth 32 : W).toNat = (synMss f).toNat := by
    rw [BitVec.toNat_setWidth]
    omega
  have hst : (openSlot env now f lport i l).conn.state = .synRcvd := by
    rw [openSlot, tcpRtxSave, tcpRtxArm_state]
    rfl
  rw [FlowInv, hst, openSlot_flow]
  refine .inr ⟨⟨hpos, ⟨Nat.le_of_eq hcw.symm, ?_⟩, ?_⟩, ?_⟩
  · show ((synMss f).setWidth 32 : W).toNat ≤ tcpSndbufSize
    rw [hcw, tcpSndbufSize]
    omega
  · show (synMss f).toNat ≤ cwndCap.toNat ∧ cwndCap.toNat ≤ tcpSndbufSize
    rw [cwndCap_toNat, tcpSndbufSize]
    omega
  · show tcpIsn env now lport f.sport f.ipDst f.ipSrc + 1
      - tcpIsn env now lport f.sport f.ipDst f.ipSrc = 1
    bv_omega

theorem CongMove.flight {ph : SndPhase} (h : CongMove env i l l')
    (hfl : l.conn.flow.Flight i l.log ph) : l'.conn.flow.Flight i l'.log ph := by
  obtain ⟨cwnd, ss, tick, hflow, _, hlog, _⟩ := h
  have hsame : ∀ p, firstSent i p l'.log = firstSent i p l.log := by
    intro p
    obtain ⟨hl, _⟩ | ⟨g, hl⟩ := hlog
    · rw [hl]
    · rw [hl]
      rfl
  rw [hflow]
  exact hfl.congr rfl rfl rfl rfl hsame

theorem AckFlow.flight {f : Frame} (h : AckFlow env i f l l')
    (hfl : l.conn.flow.Flight i l.log .data) : l'.conn.flow.Flight i l'.log .data := by
  have hsame : ∀ p, firstSent i p l'.log = firstSent i p l.log := by
    intro p
    obtain ⟨hl, _⟩ | ⟨g, hl⟩ := h.tick
    · rw [hl]
    · rw [hl]
      rfl
  obtain huna | ⟨hadv, huna⟩ := h.una
  · exact hfl.congr huna h.nxt h.head h.buf hsame
  · simp only [ackAdvances, Bool.and_eq_true, decide_eq_true_eq] at hadv
    obtain ⟨hlo, hhi⟩ := hadv
    have hleft : (l'.conn.sndNxt - l'.conn.sndUna).toNat
        = (l.conn.sndNxt - l.conn.sndUna).toNat - (f.ack - l.conn.sndUna).toNat := by
      rw [h.nxt, huna]
      bv_omega
    have hacked : (f.ack - l.conn.sndUna).toNat ≤ (l.conn.sndNxt - l.conn.sndUna).toNat := by
      bv_omega
    have hpos : l'.conn.flow.una
        = l.conn.flow.una + BitVec.ofNat 32 (f.ack - l.conn.sndUna).toNat := by
      show l'.conn.sndUna = l.conn.sndUna + _
      rw [huna]
      bv_omega
    show Flow.Unacked i _ _ (l'.conn.sndNxt - l'.conn.sndUna).toNat
    rw [hleft]
    exact Flow.Unacked.acked hfl hacked hpos h.head h.buf hsame

theorem FlowAct.flowInv (h : FlowAct env t e i l l') (hinv : FlowInv i l.conn l.log) :
    FlowInv i l'.conn l'.log := by
  cases h with
  | kept hflow hlog hphase _ =>
      obtain hidle | hsame := hphase
      · exact .inl hidle
      · obtain hidle | ⟨hc, hfl⟩ := hinv
        · exact .inl (hsame.trans hidle)
        · obtain ⟨os, hos, hquiet⟩ := hlog
          refine .inr ⟨by rw [hflow]; exact hc, ?_⟩
          rw [hsame, hflow, hos]
          exact hfl.congr rfl rfl rfl rfl (firstSent_quiet hquiet)
  | opened _ _ _ _ => exact openSlot_flowInv ..
  | joined _ _ _ hst hst' hflow _ =>
      rw [FlowInv, hst] at hinv
      obtain hidle | ⟨hc, _⟩ := hinv
      · cases hidle
      · rw [FlowInv, hst', hflow]
        refine .inr ⟨hc.congr rfl rfl rfl, ?_⟩
        -- nothing is in flight any more
        have hzero : (l.conn.sndNxt - l.conn.sndNxt).toNat = 0 := by bv_omega
        show Flow.Unacked i _ _ (l.conn.sndNxt - l.conn.sndNxt).toNat
        rw [hzero]
        exact ⟨Nat.zero_le _, fun k hk => absurd hk (Nat.not_lt_zero k)⟩
  | acked _ _ _ hst hst' hack =>
      rw [FlowInv, hst] at hinv
      obtain hidle | ⟨hc, hfl⟩ := hinv
      · cases hidle
      · rw [FlowInv, hst']
        exact .inr ⟨hack.cong hc, hack.flight hfl⟩
  | sent _ hacc =>
      have hst := (tcpSendAccepts_spec hacc).1
      rw [FlowInv, hst] at hinv
      obtain hidle | ⟨hc, hfl⟩ := hinv
      · cases hidle
      · have hfl' := @tcpSendAccept_flight env e.now _ _ _ hc hfl hacc
        rw [FlowInv, tcpSendAccept_state, hst]
        refine .inr ⟨?_, hfl'⟩
        rw [tcpSendAccept_flow]
        exact hc.congr rfl rfl rfl
  | closed hst hst' hseq hflow hlog =>
      rw [FlowInv, hst] at hinv
      obtain hidle | ⟨hc, hfl⟩ := hinv
      · cases hidle
      · rw [FlowInv, hst']
        refine .inr ⟨?_, close_flight hfl hseq ⟨_, hflow⟩ hlog⟩
        rw [hflow]
        exact hc.congr rfl rfl rfl
  | timeout hst hmove =>
      rw [FlowInv, hst]
      obtain hidle | ⟨hc, hfl⟩ := hinv
      · exact .inl hidle
      · have hfl' := hmove.flight hfl
        obtain ⟨_, _, _, _, hcong, _⟩ := hmove
        exact .inr ⟨hcong hc, hfl'⟩

end

/-! ## Every run -/

theorem flow_run {env : Env} {i : Slot} {P : Conn → List Obs → Prop} {ok : Tcp → Event → Prop}
    {t₀ t : Tcp} (h : Run (step env) ok t₀ t) (hown : OwnLog i P)
    (hact : ∀ {t e l l'}, ok t e → l.conn = t.conn i →
      FlowAct env t e i l l' → P l.conn l.log → P l'.conn l'.log)
    (h₀ : P (t₀.conn i) t₀.log) : P (t.conn i) t.log :=
  slot_run h hown (fun hok hl hlog ha => hact hok hl (ha.flow hl hlog)) h₀

theorem flowInv_run {env : Env} {cap : PoolCap} {i : Slot} {t : Tcp}
    (h : Run (step env) anyEvent (tcpInit cap) t) : FlowInv i (t.conn i) t.log :=
  flow_run h (flowInv_ownLog i) (fun _ _ ha => ha.flowInv) (.inl rfl)

/-- How many bytes of data are unacknowledged: the flight without our SYN or FIN. -/
def Conn.unackedData (c : Conn) : Nat :=
  match c.state.sndPhase with
  | .idle | .syn => 0
  | .data => c.inFlight.toNat
  | .fin => c.inFlight.toNat - 1

/-- The congestion state of a connection and what it guarantees. -/
structure Congestion (i : Slot) (c : Conn) (log : List Obs) : Prop where
  mss : 1 ≤ c.peerMss.toNat
  cwnd : 1 ≤ c.cwnd.toNat ∧ c.cwnd.toNat ≤ 0x40000
  ssthresh : 1 ≤ c.ssthresh.toNat ∧ c.ssthresh.toNat ≤ 0x40000
  /-- `MSS*MSS/CWND`: the divisor is not 0, the product does not wrap, nor does the sum. -/
  division : c.cwnd ≠ 0 ∧ (c.mss * c.mss).toNat = c.mss.toNat * c.mss.toNat ∧
    (c.cwnd + c.mss * c.mss / c.cwnd).toNat
      = c.cwnd.toNat + c.mss.toNat * c.mss.toNat / c.cwnd.toNat
  /-- What `tcp_send` accepts is in `SND_WND`, and keeps the flight below 256 KB. -/
  accepts : ∀ n, tcpSendAccepts c n = true →
    n ≤ c.sndWnd.toNat ∧ c.inFlight.toNat + n ≤ tcpSndbufSize
  /-- The unacknowledged bytes fit the ring, and each is in the cell it was first written to. -/
  room : c.unackedData ≤ tcpSndbufSize
  ring : ∀ k, k < c.unackedData → firstSent i (c.sndUna + BitVec.ofNat 32 k) log
    = some (.data (c.sndbuf ((c.sndBufHead + (tcpSndbufSize - c.unackedData) + k)
        % tcpSndbufSize)))

theorem Flow.CongOk.division {c : Conn} (h : c.flow.CongOk) :
    c.cwnd ≠ 0 ∧ (c.mss * c.mss).toNat = c.mss.toNat * c.mss.toNat ∧
    (c.cwnd + c.mss * c.mss / c.cwnd).toNat
      = c.cwnd.toNat + c.mss.toNat * c.mss.toNat / c.cwnd.toNat := by
  obtain ⟨hne, hmul, hq⟩ := h.growth
  obtain ⟨_, ⟨_, hhi⟩, _⟩ := h.toNat
  have hmss := mss_lt c
  refine ⟨hne, hmul, ?_⟩
  rw [BitVec.toNat_add, Nat.mod_eq_of_lt (by omega), BitVec.toNat_udiv, hmul]

theorem FlowInv.unacked {i : Slot} {c : Conn} {log : List Obs}
    (h : c.flow.Flight i log c.state.sndPhase) : c.flow.Unacked i log c.unackedData := by
  have none : c.unackedData = 0 → c.flow.Unacked i log c.unackedData := by
    intro hzero
    rw [hzero]
    exact ⟨Nat.zero_le _, fun k hk => absurd hk (Nat.not_lt_zero k)⟩
  cases hph : c.state.sndPhase with
  | idle | syn => exact none (by simp only [Conn.unackedData, hph])
  | data =>
      rw [hph] at h
      simp only [Conn.unackedData, hph]
      exact h
  | fin =>
      rw [hph] at h
      obtain ⟨n, hn, hb⟩ := h
      have hn' : c.inFlight.toNat = n + 1 := hn
      simp only [Conn.unackedData, hph, hn', Nat.add_sub_cancel]
      exact hb

/-- **The congestion state**, in every state of every run, for every slot that holds a
connection: whatever SYNs, ACKs, duplicate ACKs and timeouts there were. -/
theorem congestion_invariant {env : Env} {cap : PoolCap} {i : Slot} {t : Tcp}
    (h : Run (step env) anyEvent (tcpInit cap) t) (hlive : (t.conn i).state.live) :
    Congestion i (t.conn i) t.log := by
  have hbusy : (t.conn i).state.sndPhase ≠ .idle := by
    intro hidle
    cases hst : (t.conn i).state with
    | closed => exact hlive.1 hst
    | listen => exact hlive.2 hst
    | _ =>
        rw [hst] at hidle
        cases hidle
  obtain hidle | ⟨hc, hfl⟩ := flowInv_run (i := i) h
  · exact absurd hidle hbusy
  · obtain ⟨hroom, hring⟩ := FlowInv.unacked hfl
    obtain ⟨hmss, ⟨hlo, hhi⟩, hss, hss'⟩ := hc.toNat
    refine ⟨hc.mss, ⟨by omega, hhi⟩, ⟨by omega, hss'⟩, hc.division, ?_, hroom, hring⟩
    intro n hacc
    obtain ⟨_, _, _, hwnd, hcw⟩ := tcpSendAccepts_spec hacc
    rw [tcpSndbufSize]
    exact ⟨by omega, by omega⟩

/-- Two segments are sent, and the first is acknowledged. -/
theorem congestion_invariant_demo : ∃ t : Tcp, Run (step demoEnv) anyEvent (tcpInit 16) t ∧
    (t.conn 1).unackedData = 1 ∧ Congestion 1 (t.conn 1) t.log := by
  obtain ⟨t, hrun, hst, hone⟩ := exists_run (step demoEnv) anyEvent (tcpInit 16)
    (Q := fun t => (t.conn 1).state = .established ∧ (t.conn 1).unackedData = 1)
    (demoOpen ++ [⟨1, .send 1 [65]⟩, ⟨1, .send 1 [66]⟩, ⟨2, .rx (demoAck 1)⟩])
    (by decide +kernel) (by decide +kernel)
  exact ⟨t, hrun, hone, congestion_invariant hrun (by rw [hst]; exact ⟨by decide, by decide⟩)⟩

end WsPi5

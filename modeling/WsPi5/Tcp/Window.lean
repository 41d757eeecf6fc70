/-
# `WsPi5.Tcp.Window` — how much may be sent after an ACK

`tcp_send_ready` says `available = min(SND_WND, CWND) - in_flight`.  That is the usable window if
`SND_WND` is what the peer offered; but `tcp_send` also takes the payload off `SND_WND`, so that
every byte sent since the last ACK counts twice, once in the flight and once in the window.
And the ACK that completes the handshake does not store its window: there `SND_WND` is still
the window of the SYN.

    offered    W   the window of the last ACK, scaled
    stored     V   what `SND_WND` was after that ACK
    sent       S   what was sent since
    the law        ready = min(MSS, min(W, CWND) - flight), and `tcp_send` accepts up to that
    the code       ready = min(MSS, min(V - S, CWND) - flight)

`usable_window_iff` says when the two agree, at every state of every run after the ACK.
-/
import WsPi5.Tcp.Refused
import WsPi5.Tcp.Congestion

namespace WsPi5

open Lib

/-- The usable window for an offered window: capped at the segment size, 0 if the flight is
not below it; and `tcp_send` accepts exactly the lengths from 1 up to it. -/
structure UsableWindow (offered : Nat) (c : Conn) : Prop where
  ready : (tcpSendReady c).toNat
    = min c.mss.toNat (min offered c.cwnd.toNat - c.inFlight.toNat)
  send : ∀ len, tcpSendAccepts c len = true ↔ 1 ≤ len ∧ len ≤ (tcpSendReady c).toNat

/-- The stored window less what was sent does the work of the offered one: it is the same; or
the congestion window is the smaller of both; or both are used up; or both have room for a
full segment. -/
def WindowServes (offered left cwnd flight mss : Nat) : Prop :=
  left = offered ∨ (cwnd ≤ left ∧ cwnd ≤ offered) ∨
  (min left cwnd ≤ flight ∧ min offered cwnd ≤ flight) ∨
  (flight + mss ≤ min left cwnd ∧ flight + mss ≤ min offered cwnd)

/-! ## What `tcp_send_ready` computes -/

section
variable {c : Conn}

theorem window_toNat (c : Conn) : c.window.toNat = min c.sndWnd.toNat c.cwnd.toNat := by
  unfold Conn.window
  split
  · rename_i h
    have hlt : c.sndWnd.toNat < c.cwnd.toNat := h
    omega
  · rename_i h
    have hge : c.cwnd.toNat ≤ c.sndWnd.toNat := BitVec.not_lt.mp h
    omega

theorem tcpSendReady_toNat (hst : c.state = .established) : (tcpSendReady c).toNat
    = min c.mss.toNat (min c.sndWnd.toNat c.cwnd.toNat - c.inFlight.toNat) := by
  rw [← window_toNat]
  unfold tcpSendReady
  rw [if_pos hst]
  split
  · rename_i h
    have hle : c.window.toNat ≤ c.inFlight.toNat := h
    rw [Nat.sub_eq_zero_of_le hle, Nat.min_zero]
    rfl
  · rename_i h
    have hlt : c.inFlight.toNat < c.window.toNat := BitVec.not_le.mp h
    have hsub : (c.window - c.inFlight).toNat = c.window.toNat - c.inFlight.toNat := by bv_omega
    split
    · rename_i hroom
      have hlt' : (c.window - c.inFlight).toNat < c.mss.toNat := hroom
      omega
    · rename_i hroom
      have hge : c.mss.toNat ≤ (c.window - c.inFlight).toNat := BitVec.not_lt.mp hroom
      omega

/-- `tcp_send` and `tcp_send_ready` agree with each other, whatever the window is. -/
theorem tcpSendAccepts_iff (hst : c.state = .established) (len : Nat) :
    tcpSendAccepts c len = true ↔ 1 ≤ len ∧ len ≤ (tcpSendReady c).toNat := by
  have hwin := window_toNat c
  rw [tcpSendReady_toNat hst, ← hwin]
  constructor
  · intro h
    obtain ⟨_, hne, hmss, hwnd, hcw⟩ := tcpSendAccepts_spec h
    omega
  · rintro ⟨hpos, hlen⟩
    have hroom : ¬ c.window ≤ c.inFlight := by
      intro h
      have hle : c.window.toNat ≤ c.inFlight.toNat := h
      omega
    have hsub : (c.window - c.inFlight).toNat = c.window.toNat - c.inFlight.toNat := by
      have hlt : c.inFlight.toNat < c.window.toNat := BitVec.not_le.mp hroom
      bv_omega
    simp only [tcpSendAccepts, hst, Bool.and_eq_true, decide_eq_true_eq, Bool.not_eq_true',
      decide_eq_false_iff_not]
    exact ⟨⟨⟨⟨trivial, by omega⟩, by omega⟩, hroom⟩, by omega⟩

/-- **At one state**: the law holds for an offered window exactly when what is left of the
stored one serves. -/
theorem usableWindow_iff {offered : Nat} (hst : c.state = .established) (hmss : 1 ≤ c.mss.toNat) :
    UsableWindow offered c ↔ WindowServes offered c.sndWnd.toNat c.cwnd.toNat
      c.inFlight.toNat c.mss.toNat := by
  have hready := tcpSendReady_toNat hst
  constructor
  · intro h
    have heq := h.ready
    rw [hready] at heq
    unfold WindowServes
    omega
  · intro h
    refine ⟨?_, tcpSendAccepts_iff hst⟩
    rw [hready]
    unfold WindowServes at h
    omega

end

/-! ## After the ACK -/

section
variable {env : Env} {t t₀ t₁ : Tcp} {now : Tick} {f : Frame} {i : Slot}

theorem step_recv {evt : TcpEvt} {next : TcpState} {h : Handler}
    (hmatch : t₀.exactMatch f = some i) (hcls : tcpClassifyEvent f = some evt)
    (hne : evt ≠ .rst) (htab : tcpFsaTable (t₀.conn i).state evt = some (next, h))
    (hst : step env t₀ ⟨now, .rx f⟩ = some t₁) :
    ∃ l r, h.call env now i f ((t₀.at i).withState next) = some (l, r) ∧
      t₁.at i = settle now (t₀.conn i).state l r := by
  obtain ⟨⟨u, g⟩, hu, rfl⟩ := Option.map_eq_some_iff.mp hst
  simp only [tcpHandle, hmatch, handleConn_eq_dispatch hcls (fun heq => absurd heq hne),
    Tcp.dispatch, htab] at hu
  obtain ⟨⟨l, r⟩, hcall, hres⟩ := Option.map_eq_some_iff.mp hu
  refine ⟨l, r, hcall, ?_⟩
  cases r with
  | reply _ | quiet =>
      cases hres
      simp [Tcp.touch, settle]
  | rst =>
      obtain ⟨hc, hp, hl⟩ := noConn_conn env now f (t₀.put i (l.withState (t₀.conn i).state))
      have hu' : (Tcp.noConn env now f (t₀.put i (l.withState (t₀.conn i).state))).1 = u :=
        congrArg Prod.fst hres
      rw [hu'] at hc hp hl
      rw [Tcp.at, hc, hp, hl, Tcp.put_conn_self, Tcp.put_pool, Tcp.put_log]
      rfl

theorem step_estabAck (hmatch : t₀.exactMatch f = some i)
    (hcls : tcpClassifyEvent f = some .ack) (hest : (t₀.conn i).state = .established)
    (hst : step env t₀ ⟨now, .rx f⟩ = some t₁) :
    (t₁.conn i).flow.wnd = scaledWindow f (t₀.conn i) := by
  obtain ⟨l, r, hcall, hat⟩ := step_recv hmatch hcls (by decide) (by rw [hest]; rfl) hst
  have hflow : (t₁.conn i).flow = l.conn.flow := by
    rw [← Tcp.at_conn, hat]
    exact (settle_flow now _ l r).1
  rw [hflow]
  exact (tcpEstabAckHandler_flow hcall).wnd

/-- The window `SND_WND` holds after an ACK made or kept the connection ESTABLISHED: the ACK's
own, or, when it completes the handshake, the one of the SYN. -/
def storedWindow (f : Frame) (c : Conn) : W :=
  if c.state = .established then scaledWindow f c else c.sndWnd

theorem ack_stores (hmatch : t₀.exactMatch f = some i) (hcls : tcpClassifyEvent f = some .ack)
    (hst : step env t₀ ⟨now, .rx f⟩ = some t₁) (hest : (t₁.conn i).state = .established) :
    (t₁.conn i).sndWnd = storedWindow f (t₀.conn i) := by
  unfold storedWindow
  split
  · rename_i hold
    exact step_estabAck hmatch hcls hold hst
  · rename_i hold
    cases htab : tcpFsaTable (t₀.conn i).state .ack with
    | none =>
        -- the segment was refused, and the state is what it was
        have hcall : tcpHandle env now f t₀ = some (t₀.noConn env now f) :=
          (Refused.noHandler hmatch hcls (by simp) htab).noConn
        have hu : (t₀.noConn env now f).1 = t₁ := by
          simp only [step, hcall, Option.map_some] at hst
          exact Option.some.inj hst
        rw [← hu, (noConn_conn env now f t₀).1] at hest
        exact absurd hest hold
    | some entry =>
        obtain ⟨next, h⟩ := entry
        obtain ⟨l, r, hcall, hat⟩ := step_recv hmatch hcls (by decide) htab hst
        have hconn : t₁.conn i = (settle now (t₀.conn i).state l r).conn := by
          rw [← Tcp.at_conn, hat]
        rw [hconn] at hest ⊢
        by_cases hsyn : h = .synrcvdAck
        · subst hsyn
          simp only [Handler.call, tcpSynrcvdAckHandler, Option.some.injEq] at hcall
          split at hcall
          · cases hcall
            rfl
          · cases hcall
            exact absurd hest hold
        · exact absurd (recv_established htab hsyn hcall hest) hold

/-! ## The sends after it -/

/-- No ACK is accepted on slot `i`, and no connection is put into it. -/
def noAck (env : Env) (i : Slot) (t : Tcp) (e : Event) : Prop :=
  t.opens env e ≠ some i ∧
    ∀ f, e.call = .rx f → t.exactMatch f = some i → tcpClassifyEvent f ≠ some .ack

/-- Since the record was `c₁` nothing was acknowledged, and what was sent came off the window. -/
def SinceAck (c₁ c : Conn) : Prop :=
  c.state = .established → c.sndUna = c₁.sndUna ∧
    c.sndWnd.toNat + (c.sndNxt - c₁.sndNxt).toNat = c₁.sndWnd.toNat

theorem FlowAct.sinceAck {e : Event} {c₁ : Conn} {l l' : Local} (hok : noAck env i t e)
    (h : FlowAct env t e i l l') (hs : SinceAck c₁ l.conn) : SinceAck c₁ l'.conn := by
  -- an act that leaves sequence numbers and window alone
  have same : ∀ {m : Local}, m.conn.flow.una = l.conn.flow.una →
      m.conn.flow.nxt = l.conn.flow.nxt → m.conn.flow.wnd = l.conn.flow.wnd →
      (m.conn.state = .established → l.conn.state = .established) → SinceAck c₁ m.conn := by
    intro m huna hnxt hwnd hest hm
    obtain ⟨h₁, h₂⟩ := hs (hest hm)
    have huna' : m.conn.sndUna = l.conn.sndUna := huna
    have hnxt' : m.conn.sndNxt = l.conn.sndNxt := hnxt
    have hwnd' : m.conn.sndWnd = l.conn.sndWnd := hwnd
    rw [huna', hnxt', hwnd']
    exact ⟨h₁, h₂⟩
  cases h with
  | kept hflow _ _ hest => exact same (by rw [hflow]) (by rw [hflow]) (by rw [hflow]) hest
  | opened _ hopens _ _ => exact absurd hopens hok.1
  | joined hrx hmatch hcls _ _ _ _ => exact absurd hcls (hok.2 _ hrx hmatch)
  | acked hrx hmatch hcls _ _ _ => exact absurd hcls (hok.2 _ hrx hmatch)
  | @sent p _ hacc =>
      intro _
      obtain ⟨hest, _, _, hwnd, _⟩ := tcpSendAccepts_spec hacc
      obtain ⟨huna, hsum⟩ := hs hest
      have hflow := tcpSendAccept_flow env e.now i p l
      have huna' : (tcpSendAccept env e.now i p l).conn.sndUna = l.conn.sndUna :=
        congrArg Flow.una hflow
      have hnxt' : (tcpSendAccept env e.now i p l).conn.sndNxt
          = l.conn.sndNxt + BitVec.ofNat 32 p.length := congrArg Flow.nxt hflow
      have hwnd' : (tcpSendAccept env e.now i p l).conn.sndWnd
          = l.conn.sndWnd - BitVec.ofNat 32 p.length := congrArg Flow.wnd hflow
      rw [huna', hnxt', hwnd']
      refine ⟨huna, ?_⟩
      have hlen : p.length ≤ l.conn.sndWnd.toNat := by omega
      bv_omega
  | closed _ hst' _ _ _ =>
      intro hest
      rw [hest] at hst'
      cases hst'
  | timeout hst hmove =>
      obtain ⟨_, _, _, hflow, _, _⟩ := hmove
      exact same (by rw [hflow]) (by rw [hflow]) (by rw [hflow]) (fun hm => by rw [← hst, hm])

theorem sinceAck_run (hrun : Run (step env) (noAck env i) t₁ t) :
    SinceAck (t₁.conn i) (t.conn i) := by
  have hstart : SinceAck (t₁.conn i) (t₁.conn i) := by
    intro _
    rw [BitVec.sub_self]
    exact ⟨rfl, rfl⟩
  exact flow_run (P := fun c _ => SinceAck (t₁.conn i) c) hrun (fun _ _ _ _ => Iff.rfl)
    (fun hok _ ha hs => ha.sinceAck hok hs) hstart

/-- **The usable window.**  `f` is the last ACK that slot `i` accepted, in a reachable state; it
offers `W`.  After any sends, and whatever else happens without another ACK, the law
`ready = min(MSS, min(W, CWND) - flight)` holds exactly when what the sends have left of the
stored window serves as well as `W`. -/
theorem usable_window_iff {cap : PoolCap} (hreach : Run (step env) anyEvent (tcpInit cap) t₀)
    (hmatch : t₀.exactMatch f = some i) (hcls : tcpClassifyEvent f = some .ack)
    (hack : step env t₀ ⟨now, .rx f⟩ = some t₁) (hest₁ : (t₁.conn i).state = .established)
    (hrun : Run (step env) (noAck env i) t₁ t) (hest : (t.conn i).state = .established) :
    UsableWindow (scaledWindow f (t₀.conn i)).toNat (t.conn i) ↔
      WindowServes (scaledWindow f (t₀.conn i)).toNat
        ((storedWindow f (t₀.conn i)).toNat - ((t.conn i).sndNxt - (t₁.conn i).sndNxt).toNat)
        (t.conn i).cwnd.toNat (t.conn i).inFlight.toNat (t.conn i).mss.toNat := by
  have hreach' : Run (step env) anyEvent (tcpInit cap) t :=
    (hreach.trans (.single trivial hack)).trans (hrun.mono fun _ => trivial)
  have hmss : 1 ≤ (t.conn i).mss.toNat := by
    rw [mss_toNat]
    exact (congestion_invariant hreach' (by rw [hest]; exact ⟨by simp, by simp⟩)).mss
  obtain ⟨_, hleft⟩ := sinceAck_run hrun hest
  rw [ack_stores hmatch hcls hack hest₁] at hleft
  rw [usableWindow_iff hest hmss]
  have hwnd : (t.conn i).sndWnd.toNat = (storedWindow f (t₀.conn i)).toNat
      - ((t.conn i).sndNxt - (t₁.conn i).sndNxt).toNat := by omega
  rw [hwnd]

end

/-- The peer offers 10 bytes. -/
def demoSmallAck : Frame := { demoAck 0 with window := 10 }

/-- A window of 1000 bytes, of which 300 are sent: the congestion window of 536 bytes is the
smaller of both, and the law holds. -/
theorem usable_window_demo : ∃ t₀ t₁ t : Tcp,
    Run (step demoEnv) anyEvent (tcpInit 16) t₀ ∧
    step demoEnv t₀ ⟨1, .rx (demoAck 0)⟩ = some t₁ ∧ Run (step demoEnv) (noAck demoEnv 1) t₁ t ∧
    ((t.conn 1).sndNxt - (t₁.conn 1).sndNxt).toNat = 300 ∧
    UsableWindow (scaledWindow (demoAck 0) (t₀.conn 1)).toNat (t.conn 1) := by
  obtain ⟨t₀, hreach, hmatch, t₁, hack, hest₁, t, hsend, hest, hlen, hserves⟩ :=
    exists_run (step demoEnv) anyEvent (tcpInit 16)
    (Q := fun t₀ => t₀.exactMatch (demoAck 0) = some 1 ∧
      ∃ t₁, step demoEnv t₀ ⟨1, .rx (demoAck 0)⟩ = some t₁ ∧ (t₁.conn 1).state = .established ∧
      ∃ t, step demoEnv t₁ ⟨1, .send 1 (List.replicate 300 0)⟩ = some t ∧
        (t.conn 1).state = .established ∧
        ((t.conn 1).sndNxt - (t₁.conn 1).sndNxt).toNat = 300 ∧
        WindowServes (scaledWindow (demoAck 0) (t₀.conn 1)).toNat
          ((storedWindow (demoAck 0) (t₀.conn 1)).toNat
            - ((t.conn 1).sndNxt - (t₁.conn 1).sndNxt).toNat)
          (t.conn 1).cwnd.toNat (t.conn 1).inFlight.toNat (t.conn 1).mss.toNat)
    demoOpen (by decide +kernel)
    ⟨_, rfl, by decide +kernel, _, rfl, by decide +kernel, _, rfl, by decide +kernel,
      by decide +kernel, by unfold WindowServes; decide +kernel⟩
  have hrun : Run (step demoEnv) (noAck demoEnv 1) t₁ t :=
    .single ⟨by simp [Tcp.opens], fun f hrx => by cases hrx⟩ hsend
  exact ⟨t₀, t₁, t, hreach, hack, hrun, hlen,
    (usable_window_iff hreach hmatch (by decide +kernel) hack hest₁ hrun hest).mpr hserves⟩

/-- The peer offers 10 bytes and 4 are sent: 6 are left, and `tcp_send_ready` says 2. -/
theorem usable_window_counted_twice : ∃ t₀ t₁ t : Tcp,
    Run (step demoEnv) anyEvent (tcpInit 16) t₀ ∧ t₀.exactMatch demoSmallAck = some 1 ∧
    tcpClassifyEvent demoSmallAck = some .ack ∧
    step demoEnv t₀ ⟨1, .rx demoSmallAck⟩ = some t₁ ∧ (t₁.conn 1).state = .established ∧
    step demoEnv t₁ ⟨1, .send 1 [65, 66, 67, 68]⟩ = some t ∧
    (t.conn 1).state = .established ∧ (t.conn 1).inFlight = 4 ∧
    (scaledWindow demoSmallAck (t₀.conn 1)).toNat = 10 ∧ (tcpSendReady (t.conn 1)).toNat = 2 ∧
    ¬ UsableWindow (scaledWindow demoSmallAck (t₀.conn 1)).toNat (t.conn 1) := by
  obtain ⟨t₀, hreach, hmatch, t₁, hack, hest₁, t, hsend, hest, hfl, hoff, hready, hlaw⟩ :=
    exists_run (step demoEnv) anyEvent (tcpInit 16)
    (Q := fun t₀ => t₀.exactMatch demoSmallAck = some 1 ∧
      ∃ t₁, step demoEnv t₀ ⟨1, .rx demoSmallAck⟩ = some t₁ ∧ (t₁.conn 1).state = .established ∧
      ∃ t, step demoEnv t₁ ⟨1, .send 1 [65, 66, 67, 68]⟩ = some t ∧
        (t.conn 1).state = .established ∧ (t.conn 1).inFlight = 4 ∧
        (scaledWindow demoSmallAck (t₀.conn 1)).toNat = 10 ∧
        (tcpSendReady (t.conn 1)).toNat = 2 ∧
        min (t.conn 1).mss.toNat (min (scaledWindow demoSmallAck (t₀.conn 1)).toNat
          (t.conn 1).cwnd.toNat - (t.conn 1).inFlight.toNat) = 6)
    demoOpen (by decide +kernel)
    ⟨_, rfl, by decide +kernel, _, rfl, by decide +kernel, _, rfl, by decide +kernel,
      by decide +kernel, by decide +kernel, by decide +kernel, by decide +kernel⟩
  refine ⟨t₀, t₁, t, hreach, hmatch, by decide +kernel, hack, hest₁, hsend, hest, hfl, hoff,
    hready, fun h => ?_⟩
  have := h.ready
  omega

end WsPi5

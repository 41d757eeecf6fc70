/-
# `WsPi5.Http.Output` — the output FSA sends the response, exactly

`http_poll` sets up a response, a header and a body in memory, and posts E_RESP_READY.  From
there on `h_send` is called whenever some event says that there may be room: it hands over one
piece, at most what may be sent, never across the border between header and body.

**Proved here** (`output_exact`).  From the visit that set the response up until the way enters
O_DRAINING, while the connection stays ESTABLISHED and nobody writes header or body,

    sent since the setup  =  the first RESP_PTR bytes of header ++ body

in every state, whatever comes from the network, the clock and the other ways; and on entry to
O_DRAINING RESP_PTR has reached the end.

**The invariant** (`Exact`).  E_ALL_QUEUED is queued only when nothing remains, and as long as
the connection is ESTABLISHED no E_TCP_CLOSED is queued, so that nobody lets go of the record.
That the way was idle when the response was set up, and that E_RESP_READY found room in the
ring, is `WaysOk`.
-/
import WsPi5.Http.WayStates
import WsPi5.Http.Crossing

namespace WsPi5

open Lib

/-! ## What is claimed -/

/-- The bytes of a response: the header, and the body unless the request was a HEAD. -/
def Resp.whole (r : Resp) (head : Bool) (mem : Nat → Byte) : List Byte :=
  slice mem r.hdrSrc r.hdrLen ++ if head then [] else slice mem r.bodyPtr r.bodyLen

def Resp.sameBytes (r : Resp) (mem mem' : Nat → Byte) : Prop :=
  slice mem' r.hdrSrc r.hdrLen = slice mem r.hdrSrc r.hdrLen ∧
    slice mem' r.bodyPtr r.bodyLen = slice mem r.bodyPtr r.bodyLen

/-- A step before O_DRAINING that leaves the connection ESTABLISHED and does not write to header
or body. -/
def undisturbed (env : HttpEnv) (i : Slot) (s : Server) (inp : Input) : Prop :=
  s.fsa.ostate i ≠ .draining ∧ (s.tcp.conn i).state = .established ∧
    match serverStep env s inp with
    | some s' => (s'.tcp.conn i).state = .established ∧
        (s.http i).resp.sameBytes s.mem s'.mem
    | none => True

/-! ## Pieces -/

section
variable {r : Resp} {head : Bool} {mem : Nat → Byte}

theorem Resp.whole_congr {mem' : Nat → Byte} (h : r.sameBytes mem mem') :
    r.whole head mem' = r.whole head mem := by
  unfold whole
  rw [h.1, h.2]

theorem Resp.Ok.piece_slice (h : r.Ok) (hlen : r.respLen = (r.whole head mem).length)
    (ready : Nat) : slice mem (r.piece ready).1 (r.piece ready).2
      = ((r.whole head mem).drop r.respPtr).take (r.piece ready).2 := by
  have hle := h.piece_le ready
  unfold Resp.piece at hle ⊢
  dsimp only at hle ⊢
  by_cases hhdr : r.respPtr < r.hdrLen
  · rw [if_pos hhdr] at hle ⊢
    dsimp only at hle ⊢
    generalize hn : min (min ready r.remaining) (r.hdrLen - r.respPtr) = n at hle ⊢
    have hfit : n ≤ r.hdrLen - r.respPtr := hn ▸ Nat.min_le_right _ _
    unfold Resp.whole
    rw [List.drop_append_of_le_length (by simp; omega), slice_drop _ _ (Nat.le_of_lt hhdr),
      List.take_append_of_le_length (by simpa using hfit), slice_take _ _ hfit]
  · rw [if_neg hhdr] at hle ⊢
    dsimp only at hle ⊢
    generalize min ready r.remaining = n at hle ⊢
    unfold Resp.whole at hlen ⊢
    simp only [List.length_append, slice_length] at hlen
    rw [List.drop_append, List.drop_eq_nil_of_le (by simp; omega), List.nil_append, slice_length]
    cases head with
    | true =>
        simp only [if_true, List.length_nil] at hlen
        obtain rfl : n = 0 := by omega
        simp
    | false =>
        simp only [Bool.false_eq_true, if_false, slice_length] at hlen ⊢
        rw [slice_drop _ _ (by omega), slice_take _ _ (by omega)]

end

/-! ## The invariant -/

/-- The response `whole` is being sent on way `i`, and `base` was sent before it. -/
structure Exact (i : Slot) (base whole : List Byte) (head : Bool) (s : Server) : Prop where
  sending : (s.http i).req.state = .sending
  bytes : (s.http i).resp.whole head s.mem = whole
  len : (s.http i).resp.respLen = whole.length
  ok : (s.http i).resp.Ok
  sent : sentBytes i s.tcp.log = base ++ whole.take (s.http i).resp.respPtr
  held : (i, OEvt.tcpClosed) ∉ s.fsa.hi
  queued : (i, OEvt.allQueued) ∈ s.fsa.lo → (s.http i).resp.respPtr = whole.length
  drained : s.fsa.ostate i = .draining → (s.http i).resp.respPtr = whole.length

section
variable {i : Slot} {base whole : List Byte} {head : Bool} {s s' : Server}

theorem Exact.keep (h : Exact i base whole head s) (hhttp : s'.http i = s.http i)
    (hmem : (s.http i).resp.sameBytes s.mem s'.mem)
    (hsent : sentBytes i s'.tcp.log = sentBytes i s.tcp.log)
    (hheld : (i, OEvt.tcpClosed) ∉ s'.fsa.hi)
    (hqueued : (i, OEvt.allQueued) ∈ s'.fsa.lo → (s.http i).resp.respPtr = whole.length)
    (hdrained : s'.fsa.ostate i = .draining → (s.http i).resp.respPtr = whole.length) :
    Exact i base whole head s' where
  sending := by rw [hhttp]; exact h.sending
  bytes := by rw [hhttp, Resp.whole_congr hmem]; exact h.bytes
  len := by rw [hhttp]; exact h.len
  ok := by rw [hhttp]; exact h.ok
  sent := by rw [hhttp, hsent]; exact h.sent
  held := hheld
  queued := by rw [hhttp]; exact hqueued
  drained := by rw [hhttp]; exact hdrained

theorem Resp.sameBytes_refl (r : Resp) (mem : Nat → Byte) : r.sameBytes mem mem := ⟨rfl, rfl⟩

theorem Exact.beside (h : Exact i base whole head s) (hb : Beside i s s')
    (hmem : (s.http i).resp.sameBytes s.mem s'.mem) : Exact i base whole head s' := by
  refine h.keep hb.http hmem (onlyAgain.of_beside hb.tcpLog).sentBytes ?_ ?_ ?_
  · rw [hb.hi]
    exact h.held
  · rw [hb.lo]
    exact h.queued
  · rw [hb.ostate]
    exact h.drained

theorem Exact.of_phase (h : Exact i base whole head s) (p : Phase) :
    Exact i base whole head { s with phase := p } :=
  ⟨h.sending, h.bytes, h.len, h.ok, h.sent, h.held, h.queued, h.drained⟩

theorem Exact.post (h : Exact i base whole head s) {e : OEvt} (hclosed : e ≠ .tcpClosed)
    (hall : e = .allQueued → (s.http i).resp.respPtr = whole.length) :
    Exact i base whole head (s.post i e) := by
  refine h.keep rfl (Resp.sameBytes_refl _ _) rfl ?_ ?_ ?_
  · intro hmem
    rcases Fsa.mem_post_hi hmem with hold | ⟨_, hnew, _⟩
    · exact h.held hold
    · exact hclosed hnew.symm
  · intro hmem
    rcases Fsa.mem_post_lo hmem with hold | ⟨_, hnew, _⟩
    · exact h.queued hold
    · exact hall hnew.symm
  · simpa using h.drained

theorem Exact.net {env : HttpEnv} {e : Event} {t : Tcp} {p : Phase} (h : Exact i base whole head s)
    (hnet : e.call.net = true) (hlen : ∀ f, e.call = .rx f → f.payload.length ≤ maxPayload)
    (ht : step env.tcp s.tcp e = some t) (hest : (t.conn i).state = .established) :
    Exact i base whole head { s.withTcp t with phase := p } := by
  rcases net_step ht hnet hlen i with hk | ho
  · exact h.keep rfl (Resp.sameBytes_refl _ _) hk.log.sentBytes h.held h.queued h.drained
  · rw [ho.after] at hest
    cases hest

theorem Exact.visit (h : Exact i base whole head s) (hest : (s.tcp.conn i).state = .established)
    (env : HttpEnv) (start now : Tick) (out : HandlerOut) :
    Exact i base whole head (visitSlot env i s start now out) := by
  obtain ⟨hnf, hnh, hnt, hnm⟩ := noteVisit_fields s i start now
  have hpoll : pollSlot env (s.visit i start now) (s.http i).req = .stay (s.http i).req := by
    obtain hstay | ⟨hno, _⟩ := pollSlot_sending env (s.visit i start now) h.sending
    · exact hstay
    · exact absurd hest hno
  unfold visitSlot
  rw [hpoll]
  refine h.keep ?_ ?_ ?_ ?_ ?_ ?_
  · simp [hnh]
  · simp only [Server.setReq_mem, hnm]
    exact Resp.sameBytes_refl _ _
  · simp only [Server.setReq_tcp, hnt]
  · simp only [Server.setReq_fsa, hnf]
    exact h.held
  · simp only [Server.setReq_fsa, hnf]
    exact h.queued
  · simp only [Server.setReq_fsa, hnf]
    exact h.drained

theorem Exact.event (h : Exact i base whole head s) (hest : (s.tcp.conn i).state = .established) :
    Exact i base whole head (httpFsaPollTcpEvents i s) := by
  obtain heq | ⟨_, e, he, heq⟩ | ⟨_, hno, _⟩ := pollEvent_cases i s
  · rw [heq]
    exact h
  · rw [heq]
    refine h.post ?_ ?_ <;> rcases he with rfl | rfl <;> simp
  · exact absurd hest hno

theorem Exact.hSent (h : Exact i base whole head s) {l : Local} {ptr n : Nat}
    (hlog : sentBytes i l.log = sentBytes i s.tcp.log ++ slice s.mem ptr n)
    (hle : (s.http i).resp.respPtr + n ≤ (s.http i).resp.respLen)
    (hslice : slice s.mem ptr n = (whole.drop (s.http i).resp.respPtr).take n) :
    Exact i base whole head (hSent i s l ptr n) := by
  have hlen := h.len
  have hword := h.ok.word
  have hnext : ((s.http i).resp.advance n).respPtr = (s.http i).resp.respPtr + n :=
    Nat.mod_eq_of_lt (by omega)
  unfold WsPi5.hSent
  refine Exact.post ⟨?_, ?_, ?_, ?_, ?_, ?_, ?_, ?_⟩ ?_ ?_
  · simpa using h.sending
  · simp only [Server.observe_http, Server.observe_mem, Server.setHttp_self, Server.setHttp_mem]
    exact h.bytes
  · simp only [Server.observe_http, Server.setHttp_self]
    exact h.len
  · simp only [Server.observe_http, Server.setHttp_self]
    exact ⟨by rw [hnext]; exact hle, h.ok.len, h.ok.word⟩
  · simp only [Server.observe_tcp, Server.setHttp_tcp, Server.observe_http, Server.setHttp_self,
      Tcp.put_log, hnext]
    rw [hlog, h.sent, hslice, List.take_add, List.append_assoc]
  · exact h.held
  · intro hmem
    simp only [Server.observe_http, Server.setHttp_self, hnext]
    have := h.queued hmem
    omega
  · intro hst
    simp only [Server.observe_http, Server.setHttp_self, hnext]
    have := h.drained hst
    omega
  · split <;> simp
  · intro hall
    simp only [Server.observe_http, Server.setHttp_self, hnext]
    split at hall
    · cases hall
    next hnot =>
      rw [hnext] at hnot
      have : ¬ (s.http i).resp.respPtr + n < (s.http i).resp.respLen := hnot
      omega

theorem Exact.hSend (h : Exact i base whole head s) (hest : (s.tcp.conn i).state = .established)
    (env : HttpEnv) (now : Tick) : Exact i base whole head (hSend env now i s) := by
  have hrem := h.ok.remaining
  have hptr := h.ok.ptr
  have hend : (s.http i).resp.remaining = 0 → (s.http i).resp.respPtr = whole.length := by
    intro h0
    have := h.len
    omega
  unfold WsPi5.hSend
  dsimp only
  rw [if_pos hest]
  split
  next h0 => exact h.post (by simp) fun _ => hend h0
  split
  · exact h
  split
  · exact h
  next l f hsend =>
    obtain ⟨_, _, hlog⟩ := tcpSend_log _ _ _ hsend
    have hlen : (s.http i).resp.respLen = ((s.http i).resp.whole head s.mem).length := by
      rw [h.bytes]
      exact h.len
    have hslice := h.ok.piece_slice hlen (tcpSendReady (s.tcp.conn i)).toNat
    rw [h.bytes] at hslice
    refine h.hSent ?_ (h.ok.piece_le _) hslice
    rw [hlog]
    simp only [sentBytes, if_true]
    rfl

theorem Exact.fsa_own {env : HttpEnv} {now : Tick} {e : OEvt} {q : Fsa}
    (h : Exact i base whole head s) (hq : s.fsa.Ok) (hno : s.fsa.ostate i ≠ .draining)
    (hest : (s.tcp.conn i).state = .established) (hstep : httpFsaStep env now s = some s')
    (hnext : s.fsa.next = some (i, e, q)) : Exact i base whole head s' := by
  obtain ⟨host, hdeq⟩ := Fsa.next_some hnext
  -- the event taken, and what is left of the queues
  have hm : Exact i base whole head { s with fsa := q } := by
    refine h.keep rfl (Resp.sameBytes_refl _ _) rfl ?_ ?_ (by simpa [host] using h.drained)
    · exact fun hmem => h.held ((Fsa.next_hi hnext).1 hmem)
    · intro hmem
      refine h.queued ?_
      rcases hdeq with ⟨_, hlo⟩ | ⟨_, _, hlo⟩
      · rw [← hlo]
        exact hmem
      · rw [hlo]
        exact List.mem_cons_of_mem _ hmem
  have hclosed : e ≠ .tcpClosed := by
    rintro rfl
    exact h.held (hq.next_absent rfl hnext).1
  have hall : e = .allQueued → (s.http i).resp.respPtr = whole.length := by
    rintro rfl
    refine h.queued ?_
    rcases hdeq with ⟨hhi, _⟩ | ⟨_, _, hlo⟩
    · have := hq.upper (i, .allQueued) (by rw [hhi]; exact List.mem_cons_self)
      cases this
    · rw [hlo]
      exact List.mem_cons_self
  obtain ⟨_, rfl⟩ | ⟨o, hd, htab, rfl⟩ := httpFsaStep_taken hstep hnext
  · exact hm
  -- the way's new state, O_DRAINING only on E_ALL_QUEUED
  have hset : ∀ {m : Server}, Exact i base whole head m →
      (o = .draining → (m.http i).resp.respPtr = whole.length) →
      Exact i base whole head { m with fsa := m.fsa.setState i o } := by
    intro m hm' ho
    exact hm'.keep rfl (Resp.sameBytes_refl _ _) rfl hm'.held hm'.queued (by simpa using ho)
  cases hst : s.fsa.ostate i with
  | draining => exact absurd hst hno
  | idle =>
      rw [hst] at htab
      cases e <;> cases htab
      exact hset (hm.post (by simp) (by simp)) (by simp)
  | setup =>
      rw [hst] at htab
      cases e <;> cases htab
      · exact hset (hm.hSend hest env now) (by simp)
      · exact absurd rfl hclosed
  | tx =>
      rw [hst] at htab
      cases e <;> cases htab
      · exact hset (hm.hSend hest env now) (by simp)
      · exact hset (hm.hSend hest env now) (by simp)
      · exact hset hm fun _ => hall rfl
      · exact absurd rfl hclosed

theorem Exact.step {env : HttpEnv} {inp : Input} (h : Exact i base whole head s) (hq : s.fsa.Ok)
    (hok : undisturbed env i s inp) (hst : serverStep env s inp = some s') :
    Exact i base whole head s' := by
  obtain ⟨hno, hest, hafter⟩ := hok
  rw [hst] at hafter
  obtain ⟨hest', hmem⟩ := hafter
  cases serverStep_act hst with
  | net _ _ hnet hlen _ ht => exact h.net hnet hlen ht hest'
  | idle _ => exact h.of_phase _
  | date _ => exact h.keep rfl hmem rfl h.held h.queued h.drained
  | @visit j start now out _ =>
      refine Exact.of_phase ?_ _
      by_cases hij : i = j
      · exact hij ▸ h.visit hest env start now out
      · exact h.beside (.visitSlot hij env s start now out) hmem
  | @event j _ =>
      refine Exact.of_phase ?_ _
      by_cases hij : i = j
      · exact hij ▸ h.event hest
      · exact h.beside (.pollEvent hij s) hmem
  | fsa _ hstep =>
      obtain ⟨j, e, q, hnext, _⟩ := httpFsaStep_cases hstep
      by_cases hij : i = j
      · exact h.fsa_own hq hno hest hstep (hij ▸ hnext)
      · exact h.beside (.fsaStep hij hstep hnext) hmem
  | drained _ _ => exact h.of_phase _

/-! ## The visit that sets the response up -/

theorem setupPage_whole (env : HttpEnv) (s : Server) (out : HandlerOut) (f : Flags) (page : Page) :
    (setupPage env i s out f page).2.respLen
      = ((setupPage env i s out f page).2.whole f.head (setupPage env i s out f page).1).length := by
  cases page <;> cases hhead : f.head <;>
    simp [setupPage, setupResp, Resp.whole, hhead, Nat.add_comm]

theorem WaysOk.ready_queued (h : WaysOk s) (hph : s.phase = .slots i.val)
    (hest : (s.tcp.conn i).state = .established) :
    (i, OEvt.respReady) ∈ (s.fsa.post i .respReady).hi := by
  refine Fsa.mem_post_self h.queues.ok i rfl fun _ => ?_
  refine hi_room h.queues.ok (fun e => (h.silent.queued e).1) ?_ ((h.ways i).unqueued hph) ?_
  · rintro rfl
    rw [h.silent.listening.state] at hest
    cases hest
  · intro j e e' he he'
    have h₁ := (h.ways j).upper e he
    have h₂ := (h.ways j).upper e' he'
    rw [hph] at h₁ h₂
    exact h₁.2.trans h₂.2.symm

theorem answered_exact {env : HttpEnv} {start now : Tick} {out : HandlerOut} {r : Req} {page : Page}
    (h : WaysOk s) (hph : s.phase = .slots i.val)
    (hpoll : pollSlot env (s.visit i start now) (s.http i).req = .answer r page)
    (hst : serverStep env s (.slot start now out) = some s') :
    s'.fsa.ostate i = .idle ∧ (i, OEvt.respReady) ∈ s'.fsa.hi ∧
      Exact i (sentBytes i s'.tcp.log) ((s'.http i).resp.whole r.flags.head s'.mem)
        r.flags.head s' := by
  obtain ⟨hest, hnot⟩ := pollSlot_answer hpoll
  have hidle : s.fsa.ostate i = .idle := by
    by_contra ho
    exact hnot ((h.ways i).sending_before hph ho)
  have hi : i.val < tcpMaxConns := i.isLt
  have hready := h.ready_queued hph hest
  have hnone := (h.ways i).unqueued hph
  have hlow : ∀ e, (i, e) ∉ s.fsa.lo := fun e => (h.ways i).lower _ e hph
  obtain ⟨hnf, _, _, hnm⟩ := noteVisit_fields s i start now
  have hs' : s' = { answerSlot env i (s.noteVisit i start now) out r page with
      phase := .slotsFrom (i.val + 1) } := by
    simp only [serverStep, hph, hi, dif_pos, Fin.eta, visitSlot, hpoll, Option.some.injEq] at hst
    rw [← hst]
    rfl
  have hfsa : s'.fsa = s.fsa.post i .respReady := by
    rw [hs']
    simp [answerSlot, hnf]
  have hhttp : s'.http i = ⟨{ r with state := .sending },
      (setupPage env i (s.noteVisit i start now) out r.flags page).2⟩ := by
    rw [hs']
    simp [answerSlot]
  have hmem : s'.mem = (setupPage env i (s.noteVisit i start now) out r.flags page).1 := by
    rw [hs']
    rfl
  have hptr : (setupPage env i (s.noteVisit i start now) out r.flags page).2.respPtr = 0 := by
    cases page <;> rfl
  have host : s'.fsa.ostate i = .idle := by
    rw [hfsa]
    simpa using hidle
  refine ⟨host, by rw [hfsa]; exact hready, ?_⟩
  refine ⟨by rw [hhttp], rfl, ?_, ?_, ?_, ?_, ?_, ?_⟩
  · rw [hhttp, hmem]
    exact setupPage_whole env _ out r.flags page
  · rw [hhttp]
    exact setupPage_ok env i _ out r.flags page
  · rw [hhttp]
    simp [hptr]
  · rw [hfsa]
    intro hin
    rcases Fsa.mem_post_hi hin with hold | ⟨_, hnew, _⟩
    · exact hnone _ hold
    · cases hnew
  · rw [hfsa]
    intro hin
    rcases Fsa.mem_post_lo hin with hold | ⟨_, hnew, _⟩
    · exact absurd hold (hlow _)
    · cases hnew
  · rw [host]
    simp

end

/-- **The output FSA is exact.**  `s₁` is the state after the visit that answered on way `i`: the
output is idle and E_RESP_READY is queued.  In every state `s₂` up to the entry to O_DRAINING,
while the connection stays ESTABLISHED and header and body are not rewritten, what `tcp_send`
accepted since is the first RESP_PTR bytes of the response; in O_DRAINING it is all of it.  A
`tcp_send` that fails changes nothing. -/
theorem output_exact {env : HttpEnv} {cap : PoolCap} {t₀ start now : Tick} {mem : Nat → Byte}
    {out : HandlerOut} {i : Slot} {r : Req} {page : Page} {s₀ s₁ s₂ : Server}
    (hreach : Run (serverStep env) anyEvent (serverInit env cap t₀ mem) s₀)
    (hph : s₀.phase = .slots i.val)
    (hpoll : pollSlot env (s₀.visit i start now) (s₀.http i).req = .answer r page)
    (hst : serverStep env s₀ (.slot start now out) = some s₁)
    (hrun : Run (serverStep env) (undisturbed env i) s₁ s₂) :
    (s₁.fsa.ostate i = .idle ∧ (i, OEvt.respReady) ∈ s₁.fsa.hi) ∧
    sentBytes i s₂.tcp.log = sentBytes i s₁.tcp.log
      ++ ((s₁.http i).resp.whole r.flags.head s₁.mem).take (s₂.http i).resp.respPtr ∧
    (s₂.fsa.ostate i = .draining → sentBytes i s₂.tcp.log = sentBytes i s₁.tcp.log
      ++ (s₁.http i).resp.whole r.flags.head s₁.mem) ∧
    ∀ (tick : Tick) (payload : List Byte),
      (tcpSend env.tcp tick i payload (s₂.tcp.at i)).2 = none →
        (tcpSend env.tcp tick i payload (s₂.tcp.at i)).1 = s₂.tcp.at i ∧
        ((s₂.http i).resp.remaining ≠ 0 → (s₂.tcp.conn i).state = .established →
          payload = slice s₂.mem ((s₂.http i).resp.piece (tcpSendReady (s₂.tcp.conn i)).toNat).1
            ((s₂.http i).resp.piece (tcpSendReady (s₂.tcp.conn i)).toNat).2 →
          hSend env tick i s₂ = s₂) := by
  have hok := waysOk_reachable hreach
  obtain ⟨hidle, hready, hexact⟩ := answered_exact hok hph hpoll hst
  have hinv : WaysOk s₂ ∧ Exact i (sentBytes i s₁.tcp.log)
      ((s₁.http i).resp.whole r.flags.head s₁.mem) r.flags.head s₂ := by
    refine hrun.invariant (P := fun s => WaysOk s ∧ Exact i (sentBytes i s₁.tcp.log)
      ((s₁.http i).resp.whole r.flags.head s₁.mem) r.flags.head s) ⟨waysOk_step hok hst, hexact⟩ ?_
    intro t u e ht hcond hstep
    exact ⟨waysOk_step ht.1 hstep, ht.2.step ht.1.queues.ok hcond hstep⟩
  have hsent := hinv.2.sent
  refine ⟨⟨hidle, hready⟩, hsent, fun hdrain => ?_, fun tick payload hfail => ⟨?_, ?_⟩⟩
  · rw [hsent, hinv.2.drained hdrain, List.take_length]
  · unfold tcpSend at hfail ⊢
    split at hfail
    · cases hfail
    next hno => rw [if_neg hno]
  · rintro hrem hest rfl
    unfold hSend
    dsimp only
    rw [if_pos hest, if_neg hrem]
    split
    · rfl
    split
    · rfl
    next hsend =>
      rw [hsend] at hfail
      cases hfail

instance decUndisturbed (env : HttpEnv) (i : Slot) (s : Server) (inp : Input) :
    Decidable (undisturbed env i s inp) :=
  have : Decidable (match serverStep env s inp with
      | some s' => (s'.tcp.conn i).state = .established ∧
          (s.http i).resp.sameBytes s.mem s'.mem
      | none => True) :=
    match serverStep env s inp with
    | some _ => inferInstanceAs (Decidable (_ ∧ _ ∧ _))
    | none => isTrue trivial
  inferInstanceAs (Decidable (_ ∧ _ ∧ _))

theorem passesOver_undisturbed {env : HttpEnv} {i : Slot} {s : Server}
    (ho : s.fsa.ostate i ≠ .draining) (hest : (s.tcp.conn i).state = .established) :
    passesOver env (undisturbed env i) i s := by
  intro p p' inp _ _ hstep
  refine ⟨ho, hest, ?_⟩
  rw [hstep]
  exact ⟨hest, Resp.sameBytes_refl _ _⟩

/-- A peer with a window for the whole page asks for it. -/
def demoAsk : List Input :=
  [.frame 1 demoSyn, .frame 1 (demoAck 0), .frame 1 { demoAck 0 with payload := demoGet }]

/-- The request is answered with header and body. -/
def Verdict.answersFull : Verdict → Bool
  | .answer r _ => !r.flags.head
  | _ => false

/-- What is checked of the state `s` after the request: the pass up to O_DRAINING. -/
def demoPass (s : Server) : Prop :=
  let v := visitSlot demoHttp 1 s 1 1 {}
  let w := httpFsaPollTcpEvents 1 v
  QuietBut 1 1 s ∧ s.phase = .recv ∧
    (pollSlot demoHttp (s.visit 1 1 1) (s.http 1).req).answersFull = true ∧
    sentBytes 1 v.tcp.log = [] ∧ (v.http 1).resp.whole false v.mem = slice v.mem 1000 20 ++ slice v.mem 2000 30 ∧
    v.fsa.ostate 1 ≠ .draining ∧ (v.tcp.conn 1).state = .established ∧
    undisturbed demoHttp 1 { v with phase := .events 1 } .event ∧
    w.fsa.ostate 1 ≠ .draining ∧ (w.tcp.conn 1).state = .established ∧
    feedOk (serverStep demoHttp) (undisturbed demoHttp 1) { w with phase := .drain }
      ([1, 1, 1, 1].map .drain) ∧
    ∃ s₂ ∈ feed (serverStep demoHttp) { w with phase := .drain } ([1, 1, 1, 1].map .drain),
      s₂.fsa.ostate 1 = .draining

instance decDemoPass (s : Server) : Decidable (demoPass s) :=
  inferInstanceAs (Decidable (_ ∧ _ ∧ _ ∧ _ ∧ _ ∧ _ ∧ _ ∧ _ ∧ _ ∧ _ ∧ _ ∧ _))

theorem output_exact_demo : ∃ s₁ s₂ : Server,
    Run (serverStep demoHttp) (undisturbed demoHttp 1) s₁ s₂ ∧ s₂.fsa.ostate 1 = .draining ∧
      sentBytes 1 s₂.tcp.log = slice s₁.mem 1000 20 ++ slice s₁.mem 2000 30 := by
  obtain ⟨s, hrun, hquiet, hph, hans, hnone, hwhole, ho, hest, hevt, ho', hest', hfeed, s₂, hs₂, hdrain⟩ :=
    exists_run (serverStep demoHttp) anyEvent demoServer (Q := demoPass) demoAsk
      (by decide +kernel) (by decide +kernel)
  have hv : ∀ j, j ≠ 1 → Quiet (visitSlot demoHttp 1 s 1 1 {}) j := fun j hj =>
    (hquiet.ways j hj).visited hj demoHttp 1 1 {}
  have hw : ∀ j, j ≠ 1 → Quiet (httpFsaPollTcpEvents 1 (visitSlot demoHttp 1 s 1 1 {})) j :=
    fun j hj => (hv j hj).beside (.pollEvent hj _)
  have hreach := hrun.trans (pass_toVisit (allowsQuiet_any 1).passesOver hquiet hph)
  have hsend := ((pass_toEvent (passesOver_undisturbed ho hest) hv).tail hevt event_step).trans
    ((pass_toDrain (passesOver_undisturbed ho' hest') hw).trans (run_ofList _ hfeed hs₂))
  refine ⟨_, s₂, hsend, hdrain, ?_⟩
  cases hpoll : pollSlot demoHttp (s.visit 1 1 1) (s.http 1).req with
  | stay _ | close _ =>
      rw [hpoll] at hans
      cases hans
  | answer r page =>
      rw [hpoll] at hans
      have hhead : r.flags.head = false := by simpa [Verdict.answersFull] using hans
      have hex := (output_exact hreach rfl hpoll (visit_step 1 1 {}) hsend).2.2.1 hdrain
      rw [hhead] at hex
      rw [hex]
      show sentBytes 1 (visitSlot demoHttp 1 s 1 1 {}).tcp.log ++
        ((visitSlot demoHttp 1 s 1 1 {}).http 1).resp.whole false (visitSlot demoHttp 1 s 1 1 {}).mem
          = _
      rw [hnone, hwhole]
      rfl

end WsPi5

/-
# `WsPi5.Http.Quiet` — what a poll passes over

A way without a connection, with an idle record and an idle output, is quiet: `http_poll` and
`http_fsa_poll_tcp_events` leave the server as it was there, and `timer_check` does so at an
entry that is not due.  A pass of `net_loop` over a server with one busy way is therefore what
it does at that way (`pollAt`), with steps that change nothing but the phase in between
(`pollAt_run`).

This is used to follow concrete runs: of the 273 steps of a pass with sixteen timers, all but
a few are passed over.
-/
import WsPi5.Http.Ways

namespace WsPi5

open Lib

/-! ## Quiet ways -/

/-- There is nothing to do at way `j`. -/
structure Quiet (s : Server) (j : Slot) : Prop where
  tcp : (s.tcp.conn j).state = .closed ∨ (s.tcp.conn j).state = .listen
  http : (s.http j).req.state = .idle
  output : s.fsa.ostate j = .idle

/-- All ways but `i` are quiet and no timer is due. -/
structure QuietBut (i : Slot) (now : Tick) (s : Server) : Prop where
  ways : ∀ j, j ≠ i → Quiet s j
  timers : ∀ k, k < s.tcp.pool.cap → timerDue s.tcp.pool now k = none

instance decQuiet (s : Server) (j : Slot) : Decidable (Quiet s j) :=
  decidable_of_iff (((s.tcp.conn j).state = .closed ∨ (s.tcp.conn j).state = .listen) ∧
    (s.http j).req.state = .idle ∧ s.fsa.ostate j = .idle)
    ⟨fun h => ⟨h.1, h.2.1, h.2.2⟩, fun h => ⟨h.tcp, h.http, h.output⟩⟩

instance decQuietBut (i : Slot) (now : Tick) (s : Server) : Decidable (QuietBut i now s) :=
  decidable_of_iff ((∀ j, j ≠ i → Quiet s j) ∧
    ∀ k, k < s.tcp.pool.cap → timerDue s.tcp.pool now k = none)
    ⟨fun h => ⟨h.1, h.2⟩, fun h => ⟨h.ways, h.timers⟩⟩

section
variable {s s' : Server} {i j : Slot}

theorem Quiet.beside (h : Quiet s j) (hb : Beside j s s') : Quiet s' j :=
  ⟨by rw [hb.conn]; exact h.tcp, by rw [hb.http]; exact h.http, by rw [hb.ostate]; exact h.output⟩

theorem Quiet.of_phase (h : Quiet s j) (p : Phase) : Quiet { s with phase := p } j :=
  ⟨h.tcp, h.http, h.output⟩

theorem setReq_same (s : Server) (j : Slot) : s.setReq j (s.http j).req = s := by
  unfold Server.setReq Server.setHttp
  rw [Function.update_eq_self]

theorem Quiet.visit (h : Quiet s j) (env : HttpEnv) (start now : Tick) (out : HandlerOut) :
    visitSlot env j s start now out = s := by
  have hnote : s.noteVisit j start now = s := by
    unfold Server.noteVisit
    rw [if_pos h.tcp]
  have hpoll : pollSlot env (s.visit j start now) (s.http j).req = .stay (s.http j).req := by
    have hreq : { (s.http j).req with state := .idle } = (s.http j).req := by
      rw [← h.http]
    have hv : (s.visit j start now).tcp = (s.tcp.conn j).state := rfl
    unfold pollSlot skipOrReset
    rw [hv]
    rcases h.tcp with hst | hst <;> rw [hst] <;> simp [hreq]
  unfold visitSlot
  rw [hpoll, hnote]
  exact setReq_same s j

theorem Quiet.event (h : Quiet s j) : httpFsaPollTcpEvents j s = s := by
  unfold httpFsaPollTcpEvents
  dsimp only
  rw [h.output]

end

theorem newlyEstablished_same (t : Tcp) : newlyEstablished t t = [] := by
  simp [newlyEstablished]

/-! ## Passing over -/

section
variable {env : HttpEnv} {ok : Server → Input → Prop} {s : Server} {i : Slot} {start now : Tick}
  {out : HandlerOut}

/-- The condition allows the steps from `s` that change nothing but the phase: no frame, and no
visit of slot `i`. -/
def passesOver (env : HttpEnv) (ok : Server → Input → Prop) (i : Slot) (s : Server) : Prop :=
  ∀ p p' inp, (∀ now f, inp ≠ .frame now f) → p ≠ .slots i.val →
    serverStep env { s with phase := p } inp = some { s with phase := p' } →
    ok { s with phase := p } inp

def allowsQuiet (ok : Server → Input → Prop) (i : Slot) : Prop :=
  ∀ s inp, (∀ now f, inp ≠ .frame now f) → s.phase ≠ .slots i.val → ok s inp

theorem allowsQuiet.passesOver (h : allowsQuiet ok i) : passesOver env ok i s :=
  fun _ _ _ hframe hp _ => h _ _ hframe hp

theorem pass_timers (hok : passesOver env ok i s)
    (h : ∀ k, k < s.tcp.pool.cap → timerDue s.tcp.pool now k = none) :
    ∀ k, k ≤ s.tcp.pool.cap → Run (serverStep env) ok { s with phase := .timers 0 }
      { s with phase := .timers k }
  | 0, _ => .refl
  | k + 1, hk => by
      have hdue := h k (by omega)
      have hcall : step env.tcp s.tcp ⟨now, .visit k⟩ = some s.tcp := by
        simp [step, timerVisit, hdue]
      have hstep : serverStep env { s with phase := .timers k } (.timer now)
          = some { s with phase := .timers (k + 1) } := by
        show (if k < s.tcp.pool.cap then _ else _) = _
        rw [if_pos (by omega)]
        simp [Server.callTcp, hcall, Server.withTcp, newlyEstablished_same]
      exact .tail (pass_timers hok h k (by omega)) (hok _ _ _ (by simp) (by simp) hstep) hstep

theorem pass_slots (hok : passesOver env ok i s) {a : Nat} : ∀ d, a + d ≤ tcpMaxConns →
    (∀ j : Slot, a ≤ j.val → j.val < a + d → j ≠ i ∧ Quiet s j) →
    Run (serverStep env) ok { s with phase := .slotsFrom a } { s with phase := .slotsFrom (a + d) }
  | 0, _, _ => .refl
  | d + 1, hd, h => by
      have hlt : a + d < tcpMaxConns := by omega
      obtain ⟨hne, hq⟩ := h ⟨a + d, hlt⟩ (by simp) (by simp)
      have hstep : serverStep env { s with phase := .slotsFrom (a + d) } (.slot 0 0 {})
          = some { s with phase := .slotsFrom (a + d + 1) } := by
        have hv := (hq.of_phase (.slots (a + d))).visit env 0 0 {}
        simp only [Phase.slotsFrom, hlt, if_true, serverStep, dif_pos, hv]
      refine .tail (pass_slots hok d (by omega) fun j h₁ h₂ => h j h₁ (by omega))
        (hok _ _ _ (by simp) ?_ hstep) hstep
      intro heq
      simp only [Phase.slotsFrom, hlt, if_true, Phase.slots.injEq] at heq
      exact hne (Fin.ext heq)

theorem pass_events (hok : passesOver env ok i s) {a : Nat} : ∀ d, a + d ≤ tcpMaxConns →
    (∀ j : Slot, a ≤ j.val → j.val < a + d → Quiet s j) →
    Run (serverStep env) ok { s with phase := .eventsFrom a }
      { s with phase := .eventsFrom (a + d) }
  | 0, _, _ => .refl
  | d + 1, hd, h => by
      have hlt : a + d < tcpMaxConns := by omega
      have hstep : serverStep env { s with phase := .eventsFrom (a + d) } .event
          = some { s with phase := .eventsFrom (a + d + 1) } := by
        have hv := ((h ⟨a + d, hlt⟩ (by simp) (by simp)).of_phase (.events (a + d))).event
        simp only [Phase.eventsFrom, hlt, if_true, serverStep, dif_pos, hv]
      refine .tail (pass_events hok d (by omega) fun j h₁ h₂ => h j h₁ (by omega))
        (hok _ _ _ (by simp) ?_ hstep) hstep
      simp [Phase.eventsFrom, hlt]

/-! Up to the visit of slot `i`, from there to its event, and from there to the pump. -/

theorem pass_toDate (hok : passesOver env ok i s) (hquiet : QuietBut i now s)
    (hph : s.phase = .recv) : Run (serverStep env) ok s
      { s with phase := .timers s.tcp.pool.cap } := by
  have hs : s = { s with phase := .recv } := by rw [← hph]
  have h₁ : serverStep env { s with phase := .recv } .idle
      = some { s with phase := .timers 0 } := rfl
  refine Run.trans ?_ (pass_timers hok hquiet.timers s.tcp.pool.cap (Nat.le_refl _))
  have hidle := Run.single (hok _ _ _ (by simp) (by simp) h₁) h₁
  rwa [← hs] at hidle

theorem date_step (env : HttpEnv) (s : Server) (time : Option UnixTime) :
    serverStep env { s with phase := .timers s.tcp.pool.cap } (.date time)
      = some { s with mem := httpUpdateDate env s.mem time, phase := .slotsFrom 0 } := by
  show (if s.tcp.pool.cap < s.tcp.pool.cap then _ else _) = _
  rw [if_neg (by omega)]
  rfl

theorem pass_toVisit (hok : passesOver env ok i s) (hquiet : QuietBut i now s)
    (hph : s.phase = .recv) : Run (serverStep env) ok s { s with phase := .slots i.val } := by
  have hi : i.val < tcpMaxConns := i.isLt
  have h₂ := date_step env s none
  have hslots := pass_slots hok i.val (a := 0) (by omega) fun j _ hj =>
    have hne : j ≠ i := fun heq => by rw [heq] at hj; omega
    ⟨hne, hquiet.ways j hne⟩
  rw [show Phase.slotsFrom (0 + i.val) = .slots i.val by simp [Phase.slotsFrom]] at hslots
  exact ((pass_toDate hok hquiet hph).tail (hok _ _ _ (by simp) (by simp) h₂) h₂).trans hslots

theorem pass_toEvent (hok : passesOver env ok i s) (hquiet : ∀ j, j ≠ i → Quiet s j) :
    Run (serverStep env) ok { s with phase := .slotsFrom (i.val + 1) }
      { s with phase := .events i.val } := by
  have hi : i.val < tcpMaxConns := i.isLt
  have h₁ := pass_slots hok (tcpMaxConns - (i.val + 1)) (a := i.val + 1) (by omega)
    fun j hj _ =>
      have hne : j ≠ i := fun heq => by rw [heq] at hj; omega
      ⟨hne, hquiet j hne⟩
  have h₂ := pass_events hok i.val (a := 0) (by omega) fun j _ hj =>
    hquiet j fun heq => by rw [heq] at hj; omega
  rw [show Phase.slotsFrom (i.val + 1 + (tcpMaxConns - (i.val + 1))) = .eventsFrom 0 by
    rw [show i.val + 1 + (tcpMaxConns - (i.val + 1)) = tcpMaxConns by omega]; rfl] at h₁
  rw [show Phase.eventsFrom (0 + i.val) = .events i.val by simp [Phase.eventsFrom]] at h₂
  exact h₁.trans h₂

theorem pass_toDrain (hok : passesOver env ok i s) (hquiet : ∀ j, j ≠ i → Quiet s j) :
    Run (serverStep env) ok { s with phase := .eventsFrom (i.val + 1) }
      { s with phase := .drain } := by
  have hi : i.val < tcpMaxConns := i.isLt
  have h := pass_events hok (tcpMaxConns - (i.val + 1)) (a := i.val + 1) (by omega)
    fun j hj _ => hquiet j fun heq => by rw [heq] at hj; omega
  rw [show Phase.eventsFrom (i.val + 1 + (tcpMaxConns - (i.val + 1))) = .drain by
    rw [show i.val + 1 + (tcpMaxConns - (i.val + 1)) = tcpMaxConns by omega]; rfl] at h
  exact h

end

/-! ## A pass with one busy way -/

section
variable (env : HttpEnv) (i : Slot) (s : Server) (p : Phase)

theorem visitSlot_phase (start now : Tick) (out : HandlerOut) :
    visitSlot env i { s with phase := p } start now out
      = { visitSlot env i s start now out with phase := p } := by
  have hnote : ({ s with phase := p } : Server).noteVisit i start now
      = { s.noteVisit i start now with phase := p } := by
    unfold Server.noteVisit
    dsimp only
    split <;> rfl
  unfold visitSlot
  rw [hnote]
  dsimp only
  have hvisit : ({ s with phase := p } : Server).visit i start now = s.visit i start now := rfl
  rw [hvisit]
  cases pollSlot env (s.visit i start now) (s.http i).req with
  | stay r => rfl
  | close r => rfl
  | answer r page => cases page <;> rfl

theorem pollEvent_phase : httpFsaPollTcpEvents i { s with phase := p }
    = { httpFsaPollTcpEvents i s with phase := p } := by
  unfold httpFsaPollTcpEvents
  dsimp only
  split
  · rfl
  split
  · split
    · split <;> rfl
    · split <;> rfl
  · rfl

end

/-- What a pass of `net_loop` without frames does at way `i`: its visit, its event, and as many
steps of the output FSA as there are clock values. -/
def pollAt (env : HttpEnv) (i : Slot) (start now : Tick) (out : HandlerOut) (drains : List Tick)
    (s : Server) : Option Server :=
  feed (serverStep env) { httpFsaPollTcpEvents i (visitSlot env i s start now out) with
    phase := .drain } (drains.map .drain)

section
variable {env : HttpEnv} {ok : Server → Input → Prop} {i : Slot}

theorem drain_phase {s s' : Server} {now : Tick} (h : serverStep env s (.drain now) = some s') :
    s.phase = .drain := by
  cases serverStep_act h with
  | net _ _ _ _ _ _ =>
      unfold serverStep at h
      split at h <;> simp_all
  | fsa hph _ => exact hph
  | drained hph _ => exact hph

theorem drains_run (hok : ∀ s now, s.phase ≠ .slots i.val → ok s (.drain now)) :
    ∀ (drains : List Tick) {s s' : Server},
    feed (serverStep env) s (drains.map .drain) = some s' → Run (serverStep env) ok s s'
  | [], s, s', h => by
      cases h
      exact .refl
  | now :: drains, s, s', h => by
      obtain ⟨u, hu, hrest⟩ := Option.bind_eq_some_iff.mp h
      refine (Run.single (hok _ _ ?_) hu).trans (drains_run hok drains hrest)
      rw [drain_phase hu]
      simp

theorem Quiet.visited {s : Server} {j : Slot} (h : Quiet s j) (hji : j ≠ i) (env : HttpEnv)
    (start now : Tick) (out : HandlerOut) : Quiet (visitSlot env i s start now out) j :=
  h.beside (.visitSlot hji env s start now out)

theorem visit_step {s : Server} (start now : Tick) (out : HandlerOut) :
    serverStep env { s with phase := .slots i.val } (.slot start now out)
      = some { visitSlot env i s start now out with phase := .slotsFrom (i.val + 1) } := by
  have hi : i.val < tcpMaxConns := i.isLt
  simp only [serverStep, hi, dif_pos, visitSlot_phase, Fin.eta]
  rfl

theorem event_step {s : Server} : serverStep env { s with phase := .events i.val } .event
    = some { httpFsaPollTcpEvents i s with phase := .eventsFrom (i.val + 1) } := by
  have hi : i.val < tcpMaxConns := i.isLt
  simp only [serverStep, hi, dif_pos, pollEvent_phase, Fin.eta]
  rfl

/-- **A pass over a server with one busy way**, from its visit on, is what it does at that way. -/
theorem pollAt_fromVisit {s s' : Server} {start now : Tick} {out : HandlerOut} {drains : List Tick}
    (hpass : ∀ s, passesOver env ok i s) (hquiet : ∀ j, j ≠ i → Quiet s j)
    (hvisit : ok { s with phase := .slots i.val } (.slot start now out))
    (hevent : ∀ s, s.phase ≠ .slots i.val → ok s .event)
    (hdrain : ∀ s now, s.phase ≠ .slots i.val → ok s (.drain now))
    (h : pollAt env i start now out drains s = some s') :
    Run (serverStep env) ok { s with phase := .slots i.val } s' := by
  have hv : ∀ j, j ≠ i → Quiet (visitSlot env i s start now out) j := fun j hj =>
    (hquiet j hj).visited hj env start now out
  have hw : ∀ j, j ≠ i → Quiet (httpFsaPollTcpEvents i (visitSlot env i s start now out)) j :=
    fun j hj => (hv j hj).beside (.pollEvent hj _)
  refine Run.trans ?_ (drains_run hdrain drains h)
  refine Run.trans ?_ (pass_toDrain (hpass _) hw)
  refine .tail ?_ (hevent _ (by simp)) event_step
  refine Run.trans ?_ (pass_toEvent (hpass _) hv)
  exact .single hvisit (visit_step start now out)

theorem pollAt_run {s s' : Server} {start now : Tick} {out : HandlerOut} {drains : List Tick}
    (hok : allowsQuiet ok i) (hquiet : QuietBut i now s) (hph : s.phase = .recv)
    (hvisit : ok { s with phase := .slots i.val } (.slot start now out))
    (h : pollAt env i start now out drains s = some s') : Run (serverStep env) ok s s' :=
  (pass_toVisit hok.passesOver hquiet hph).trans
    (pollAt_fromVisit (fun _ => hok.passesOver) hquiet.ways hvisit
      (fun _ hp => hok _ _ (by simp) hp) (fun _ _ hp => hok _ _ (by simp) hp) h)

/-! ## Runs in legs -/

/-- A part of a run: inputs one by one, or a pass with one busy way. -/
inductive Leg where
  | inputs (inps : List Input)
  | pass (start now : Tick) (out : HandlerOut) (drains : List Tick)

def Leg.run (env : HttpEnv) (i : Slot) (s : Server) : Leg → Option Server
  | .inputs inps => feed (serverStep env) s inps
  | .pass start now out drains => pollAt env i start now out drains s

/-- The leg starts where it can, and the condition holds at its steps. -/
def Leg.meets (env : HttpEnv) (i : Slot) (ok : Server → Input → Prop) (s : Server) : Leg → Prop
  | .inputs inps => feedOk (serverStep env) ok s inps
  | .pass start now out _ => QuietBut i now s ∧ s.phase = .recv ∧
      ok { s with phase := .slots i.val } (.slot start now out)

instance decLegOk (env : HttpEnv) (i : Slot) [∀ s inp, Decidable (ok s inp)] (s : Server) :
    ∀ l : Leg, Decidable (l.meets env i ok s)
  | .inputs _ => inferInstanceAs (Decidable (feedOk _ _ _ _))
  | .pass _ _ _ _ => inferInstanceAs (Decidable (_ ∧ _ ∧ _))

theorem Leg.run_of_meets {s t : Server} (hq : allowsQuiet ok i) :
    ∀ {l : Leg}, l.meets env i ok s → l.run env i s = some t → Run (serverStep env) ok s t
  | .inputs inps, hok, h => run_ofList inps hok h
  | .pass _ _ _ _, hok, h => pollAt_run hq hok.1 hok.2.1 hok.2.2 h

def legs (env : HttpEnv) (i : Slot) : Server → List Leg → Option Server :=
  feed (Leg.run env i)

theorem exists_legs (env : HttpEnv) (ok : Server → Input → Prop) (i : Slot)
    (hq : allowsQuiet ok i) {s : Server} {Q : Server → Prop} (ls : List Leg)
    (hok : feedOk (Leg.run env i) (fun s l => l.meets env i ok s) s ls)
    (hQ : ∃ t ∈ legs env i s ls, Q t) : ∃ t, Run (serverStep env) ok s t ∧ Q t := by
  obtain ⟨t, hrun, hQt⟩ := exists_run (Leg.run env i) (fun s l => l.meets env i ok s) s ls hok hQ
  refine ⟨t, ?_, hQt⟩
  clear hQt hok
  induction hrun with
  | refl => exact .refl
  | tail _ hl hst ih => exact ih.trans (Leg.run_of_meets hq hl hst)

end

theorem allowsQuiet_any (i : Slot) : allowsQuiet anyEvent i := fun _ _ _ _ => trivial

/-! A server with one page at `/`, and peers with a window of ten bytes.  Every byte of the
memory is the low byte of its address. -/

def demoBlob (hdr hdrLen body bodyLen : Nat)
    (h : hdrLen + bodyLen + httpDynChunkSize < 2 ^ 32 := by decide) : Blob :=
  ⟨hdr, hdrLen, body, bodyLen, h⟩

def demoHttp : HttpEnv where
  tcp := demoEnv
  routes := [⟨ascii "/", hmGet ||| hmHead, false, demoBlob 1000 20 2000 30⟩]
  notFound := demoBlob 3000 20 3020 5
  badRequest := demoBlob 3100 20 3120 5
  methodGhp := demoBlob 3200 20 3220 5
  methodGh := demoBlob 3300 20 3320 5
  methodP := demoBlob 3400 20 3420 5
  lengthRequired := demoBlob 3500 20 3520 5
  tooLarge := demoBlob 3600 20 3620 5
  dynChunkBufs := 10000
  dateFields := []

def demoServer : Server := serverInit demoHttp 16 1 fun k => UInt8.ofNat k

/-- A segment of the peer at port `sport`, at offset `off` of its stream. -/
def demoFrom (sport : BitVec 16) (off : Nat) (text : List Byte) : Frame :=
  { demoSyn with
    sport := sport, window := 10, seq := 101 + BitVec.ofNat 32 off,
    ack := tcpIsn demoEnv 1 (rev16 80) sport 7 9 + 1, flags := tcpAckFlag, payload := text }

def demoJoin (sport : BitVec 16) : List Input :=
  [.frame 1 { demoSyn with sport := sport, window := 10 }, .frame 1 (demoFrom sport 0 [])]

def demoGet : List Byte := ascii "GET / HTTP/1.1\r\nHost: a\r\n\r\n"

end WsPi5

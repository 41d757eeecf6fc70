/-
# `WsPi5.Tcp.Table` — who is in the connection table

Two facts about the table as a whole, over every run of the module.

* Ports and remote address of a connection are written when it is opened (`SlotAct.ident`), and
  a SYN opens one only where no connection matches it, so no two live entries answer to the same
  segment (`Distinct`).
* A listening socket stays one (`WsPi5.Tcp.Listener`).

The start is `tcp_init` followed by any calls of `tcp_listen`.
-/
import WsPi5.Tcp.Listener

namespace WsPi5

open Lib

def Conn.ident (c : Conn) : BitVec 16 × BitVec 16 × BitVec 32 := (c.lport, c.rport, c.rip)

/-- No two connections answer to the same ports and address. -/
def Distinct (t : Tcp) : Prop :=
  ∀ i j, (t.conn i).state.live → (t.conn j).state.live →
    (t.conn i).ident = (t.conn j).ident → i = j

/-- `tcp_init`, then `tcp_listen` for each port. -/
def listenTable (cap : PoolCap) (ports : List (BitVec 16)) : Tcp :=
  ports.foldl (fun t port => tcpListen port t) (tcpInit cap)

/-! ## What an act does to the identity -/

section
variable {env : Env} {t t' : Tcp} {e : Event} {i j : Slot} {l l' : Local}

theorem ident_of_cfg {c c' : Conn} {s : TcpState} (h : c'.cfg = { c.cfg with state := s }) :
    c'.ident = c.ident := by
  have h₁ : c'.lport = c.lport := congrArg Cfg.lport h
  have h₂ : c'.rport = c.rport := congrArg Cfg.rport h
  have h₃ : c'.rip = c.rip := congrArg Cfg.rip h
  rw [Conn.ident, Conn.ident, h₁, h₂, h₃]

theorem tcpRtxArm_ident (env : Env) (now : Tick) (i : Slot) (l : Local) :
    (tcpRtxArm env now i l).conn.ident = l.conn.ident :=
  ident_of_cfg (tcpRtxArm_cfg env now i l)

theorem tcpClose_ident (env : Env) (now : Tick) (i : Slot) (l : Local) :
    (tcpClose env now i l).1.conn.ident = l.conn.ident ∧
      ((tcpClose env now i l).1.conn.state.live → l.conn.state.live) := by
  unfold tcpClose
  dsimp only
  cases hst : l.conn.state with
  | established | closeWait => exact ⟨tcpRtxArm_ident .., fun _ => ⟨by simp, by simp⟩⟩
  | _ =>
      dsimp only
      exact ⟨rfl, fun h => hst ▸ h⟩

/-- A live connection was live before, under the same ports and address; or it was opened by
this SYN. -/
theorem SlotAct.ident (h : SlotAct env t e i l l') (hl : l.conn = t.conn i) :
    (l'.conn.state.live → (t.conn i).state.live ∧ l'.conn.ident = (t.conn i).ident) ∨
    ∃ f l₀, t.exactMatch f = none ∧ t.allocSlot env = some (i, l₀) ∧
      l'.conn.ident = (f.dport, f.sport, f.ipSrc) := by
  cases h with
  | @recv f evt next hd l₁ r _ hmatch _ _ _ hcall =>
      refine .inl fun _ => ⟨exactMatch_live hmatch, ?_⟩
      have h₁ : l₁.conn.ident = (l.withState next).conn.ident :=
        ident_of_cfg (Handler.call_cfg hcall)
      have h₂ : (settle e.now (t.conn i).state l₁ r).conn.ident = l₁.conn.ident := by
        cases r <;> rfl
      rw [h₂, h₁, ← hl]
      rfl
  | @opened f listener l₀ _ hmatch hlisten _ halloc =>
      have hport : (t.conn listener).lport = f.dport := by
        have := List.find?_some hlisten
        simp only [Bool.and_eq_true, decide_eq_true_eq] at this
        exact this.2
      refine .inr ⟨f, l₀, hmatch, halloc, (tcpRtxArm_ident ..).trans ?_⟩
      rw [← hport]
      rfl
  | touched => exact .inl fun h => ⟨hl ▸ h, by rw [← hl]; rfl⟩
  | @sent p _ =>
      refine .inl fun h => ?_
      unfold tcpSend at h ⊢
      split at h
      · rw [if_pos ‹_›]
        refine ⟨?_, (tcpRtxArm_ident ..).trans (by rw [← hl]; rfl)⟩
        rw [← hl]
        rwa [show (tcpSendAccept env e.now i p l, _).1.conn.state = l.conn.state from
          tcpRtxArm_state ..] at h
      · rw [if_neg ‹_›]
        exact ⟨hl ▸ h, by rw [← hl]⟩
  | closed _ =>
      obtain ⟨h₁, h₂⟩ := tcpClose_ident env e.now i l
      exact .inl fun h => ⟨hl ▸ h₂ h, by rw [h₁, hl]⟩
  | consumed _ =>
      refine .inl fun h => ?_
      unfold tcpRxConsume at h ⊢
      dsimp only at h ⊢
      split at h
      · rw [if_pos ‹_›]
        exact ⟨hl ▸ h, by rw [← hl]; rfl⟩
      · rw [if_neg ‹_›]
        exact ⟨hl ▸ h, by rw [← hl]; rfl⟩
  | flushed _ => exact .inl fun h => ⟨hl ▸ h, by rw [← hl]; rfl⟩
  | tornDown _ => exact .inl fun h => absurd rfl h.1
  | retransmit _ _ =>
      refine .inl ?_
      unfold tcpRetransmitCb
      split
      · exact fun h => ⟨hl ▸ h, by rw [← hl]⟩
      split
      · exact fun h => absurd rfl h.1
      dsimp only
      split
      · split
        · exact fun h => ⟨hl ▸ h, by rw [← hl]; rfl⟩
        · refine fun h => ⟨?_, (tcpRtxArm_ident ..).trans (by rw [← hl]; rfl)⟩
          rw [tcpRtxArm_state] at h
          exact hl ▸ h
      · exact fun h => ⟨hl ▸ h, by rw [← hl]; rfl⟩
  | timewait _ _ => exact .inl fun h => absurd rfl h.1
  | persist _ _ =>
      refine .inl ?_
      unfold tcpPersistCb
      split
      · rw [tcpPersistArm_conn]
        exact fun h => ⟨hl ▸ h, by rw [← hl]; rfl⟩
      · exact fun h => ⟨hl ▸ h, by rw [← hl]⟩
  | listening _ _ => exact .inl fun h => absurd rfl h.2

/-! ## A step -/

theorem exactMatch_none {f : Frame} (h : t.exactMatch f = none) (hlive : (t.conn i).state.live) :
    (t.conn i).ident ≠ (f.dport, f.sport, f.ipSrc) := by
  intro hid
  have hno := List.find?_eq_none.mp h i (List.mem_finRange i)
  simp only [Conn.ident, Prod.mk.injEq] at hid
  refine hno ?_
  simp [Conn.matches, hlive.1, hlive.2, hid.1, hid.2.1, hid.2.2]

theorem step_ident (hst : step env t e = some t') (i : Slot) :
    ((t'.conn i).state.live → (t.conn i).state.live ∧ (t'.conn i).ident = (t.conn i).ident) ∨
    ∃ f l₀, t.exactMatch f = none ∧ t.allocSlot env = some (i, l₀) ∧
      (t'.conn i).ident = (f.dport, f.sport, f.ipSrc) := by
  obtain ⟨hc, _⟩ | ⟨l, l', hl, _, hact, hc, _⟩ := step_slot hst i
  · exact .inl fun h => ⟨hc ▸ h, by rw [hc]⟩
  · rw [hc]
    exact hact.ident hl

theorem Distinct.step (h : Distinct t) (hst : step env t e = some t') : Distinct t' := by
  intro i j hi hj hid
  obtain hi' | ⟨f, l₀, hmatch, halloc, hnew⟩ := step_ident hst i
  · obtain ⟨hlive, hsame⟩ := hi' hi
    obtain hj' | ⟨f, l₀, hmatch, _, hnew⟩ := step_ident hst j
    · obtain ⟨hlive', hsame'⟩ := hj' hj
      exact h i j hlive hlive' (by rw [← hsame, ← hsame', hid])
    · exact absurd (by rw [← hsame, hid, hnew]) (exactMatch_none hmatch hlive)
  · obtain hj' | ⟨f', l₀', _, halloc', _⟩ := step_ident hst j
    · obtain ⟨hlive', hsame'⟩ := hj' hj
      exact absurd (by rw [← hsame', ← hid, hnew]) (exactMatch_none hmatch hlive')
    · rw [halloc] at halloc'
      exact congrArg Prod.fst (Option.some.inj halloc')

end

/-! ## Every run -/

theorem listenTable_start (cap : PoolCap) (ports : List (BitVec 16)) :
    (∀ i, ¬ ((listenTable cap ports).conn i).state.live) ∧
      ∀ i, noTimewait i (listenTable cap ports).pool := by
  have hfold : ∀ (ports : List (BitVec 16)) (t : Tcp), (∀ i, ¬ (t.conn i).state.live) →
      (∀ i, noTimewait i t.pool) →
      (∀ i, ¬ ((ports.foldl (fun t port => tcpListen port t) t).conn i).state.live) ∧
        ∀ i, noTimewait i (ports.foldl (fun t port => tcpListen port t) t).pool := by
    intro ports
    induction ports with
    | nil => exact fun _ h h' => ⟨h, h'⟩
    | cons port ports ih =>
        intro t h h'
        refine ih (tcpListen port t) (fun i => ?_) fun i => ?_
        · unfold tcpListen
          split
          · rename_i j _
            by_cases hij : i = j
            · subst hij
              simp [TcpState.live]
            · rw [Tcp.put_conn_of_ne _ _ _ hij]
              exact h i
          · exact h i
        · unfold tcpListen
          split <;> exact h' i
  exact hfold ports (tcpInit cap) (fun i hlive => hlive.1 rfl) fun i k x => by
    simp [tcpInit, timerPoolInit]

/-- **Connections are unique and listeners persist**, in every state that any sequence of calls
reaches from a table of listening sockets. -/
theorem unique_and_listening {env : Env} {cap : PoolCap} {ports : List (BitVec 16)} {t : Tcp}
    (h : Run (step env) anyEvent (listenTable cap ports) t) :
    Distinct t ∧ ∀ i, ((listenTable cap ports).conn i).state = .listen →
      (t.conn i).state = .listen ∧
        (t.conn i).lport = ((listenTable cap ports).conn i).lport := by
  obtain ⟨hnone, htimers⟩ := listenTable_start cap ports
  refine ⟨?_, fun i hi => ?_⟩
  · exact h.invariant (fun i _ hlive => absurd hlive (hnone i)) fun ht _ hst => ht.step hst
  · have hinv : Listening i t ∧ (t.conn i).lport = ((listenTable cap ports).conn i).lport := by
      refine h.invariant (P := fun t => Listening i t ∧
        (t.conn i).lport = ((listenTable cap ports).conn i).lport) ⟨⟨hi, htimers i⟩, rfl⟩ ?_
      intro t u e ht _ hst
      obtain ⟨hu, hport⟩ := ht.1.step hst
      exact ⟨hu, hport.trans ht.2⟩
    exact ⟨hinv.1.state, hinv.2⟩

/-- Two listening sockets, a connection, its reset, and a second one from another port. -/
theorem unique_and_listening_demo : ∃ t : Tcp,
    Run (step demoEnv) anyEvent (listenTable 16 [80, 8080]) t ∧
      (t.conn 2).state = .synRcvd ∧ Distinct t ∧
      (t.conn 1).state = .listen ∧ (t.conn 1).lport = rev16 8080 := by
  obtain ⟨t, hrun, hst⟩ := exists_run (step demoEnv) anyEvent (listenTable 16 [80, 8080])
    (Q := fun t => (t.conn 2).state = .synRcvd)
    [⟨1, .rx demoSyn⟩, ⟨1, .rx demoRst⟩, ⟨1, .rx { demoSyn with sport := 2000 }⟩]
    (by decide +kernel) (by decide +kernel)
  obtain ⟨hdist, hlisten⟩ := unique_and_listening hrun
  exact ⟨t, hrun, hst, hdist, (hlisten 1 (by decide +kernel)).1,
    (hlisten 1 (by decide +kernel)).2.trans (by decide +kernel)⟩

end WsPi5

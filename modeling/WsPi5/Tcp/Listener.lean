/-
# `WsPi5.Tcp.Listener` — the socket of `tcp_listen` stays in LISTEN

A slot in LISTEN is no connection: no frame matches it, it is neither reaped nor reset, and
`tcp_retransmit_cb` passes over it.  The one thing that writes a state without looking is
`tcp_timewait_cb`, so what has to be kept is that no 2MSL timer is armed for the slot
(`noTimewait`).  Such a timer is armed only while a segment for a connection is handled.
-/
import WsPi5.Tcp.NetCalls
import WsPi5.Tcp.PoolUse

namespace WsPi5

open Lib

/-- No 2MSL timer is armed for slot `i`. -/
def noTimewait (i : Slot) (p : Pool) : Prop :=
  ∀ k x, p.slot k ≠ some ⟨x, .tcpTimewaitCb i⟩

/-- Slot `i` listens. -/
structure Listening (i : Slot) (t : Tcp) : Prop where
  state : (t.conn i).state = .listen
  timers : noTimewait i t.pool

section
variable {env : Env} {i : Slot} {p p' : Pool} {t t' : Tcp}

theorem allButTimewait_ne (i : Slot) : AllButTimewait (· ≠ .tcpTimewaitCb i) :=
  fun _ hcb => hcb i

theorem noTimewait.arms (h : noTimewait i p) (ha : Arms (· ≠ .tcpTimewaitCb i) p p') :
    noTimewait i p' :=
  fun k x hk => h k x (ha.old (by simp) hk)

theorem Listening.timers_step {e : Event} (h : Listening i t) (hst : step env t e = some t') :
    noTimewait i t'.pool := by
  refine h.timers.arms (step_arms (allButTimewait_ne i) ?_ hst)
  intro f j _ hmatch
  have hji : j ≠ i := by
    rintro rfl
    exact (exactMatch_live hmatch).2 h.state
  simpa using hji

/-- **A listening socket stays one, on its port**, whatever call comes next. -/
theorem Listening.step {e : Event} (h : Listening i t) (hst : step env t e = some t') :
    Listening i t' ∧ (t'.conn i).lport = (t.conn i).lport := by
  have hkept : (t'.conn i).state = .listen ∧ (t'.conn i).lport = (t.conn i).lport := by
    obtain ⟨hc, _⟩ | ⟨l, l', hl, _, hact, hc, _⟩ := step_slot hst i
    · rw [hc]
      exact ⟨h.state, rfl⟩
    have hlisten : l.conn.state = .listen := by rw [hl]; exact h.state
    rw [hc, ← hl]
    cases hact with
    | recv _ hmatch _ _ _ _ => exact absurd h.state (exactMatch_live hmatch).2
    | opened _ _ _ _ halloc =>
        have hst' := h.state
        obtain ⟨_, h₁⟩ | ⟨_, h₁⟩ := allocSlot_some halloc <;> rw [h₁] at hst' <;> cases hst'
    | touched => exact ⟨hlisten, rfl⟩
    | tornDown hlive => exact absurd h.state hlive.2
    | retransmit _ _ =>
        unfold tcpRetransmitCb
        rw [if_pos (.inr hlisten)]
        exact ⟨hlisten, rfl⟩
    | timewait _ hdue => exact absurd (timerDue_some hdue).2 (h.timers _ _)
    | persist _ _ =>
        unfold tcpPersistCb
        rw [if_neg (by simp [hlisten])]
        exact ⟨hlisten, rfl⟩
    | @sent p _ =>
        unfold tcpSend
        rw [if_neg (by simp [tcpSendAccepts, hlisten])]
        exact ⟨hlisten, rfl⟩
    | closed _ =>
        unfold tcpClose
        rw [hlisten]
        exact ⟨hlisten, rfl⟩
    | consumed _ =>
        unfold tcpRxConsume
        dsimp only
        split <;> exact ⟨hlisten, rfl⟩
    | flushed _ => exact ⟨hlisten, rfl⟩
    | listening _ hclosed =>
        rw [h.state] at hclosed
        cases hclosed
  exact ⟨⟨hkept.1, h.timers_step hst⟩, hkept.2⟩

end

end WsPi5

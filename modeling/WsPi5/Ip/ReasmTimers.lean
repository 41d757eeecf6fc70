/-
# `WsPi5.Ip.ReasmTimers` — the timers of the reassembly slots

A slot's timer frees the slot it was armed for, and its callback has nothing but the slot to go
by.  So whoever frees a slot before that has to cancel the timer.  Completion does, and a timer
that fires is no longer in the pool; the third way out, a completed datagram that does not fit
into the frame buffer (`.Lri_free_drop`), frees the slot and leaves the timer armed.  If the slot
is then taken for another datagram, the old timer frees that one
(`timeout_frees_another`).

**Proved here** (`reasm_timers_coupled`), for every run in which no fragment completes a datagram
of more than 1480 bytes: each armed timer of reassembly belongs to a slot in use that stores its
index, no slot has two, and from its arming to its firing the slot is not taken for another
datagram.  The other users of the pool may arm whatever they like and cancel any index, their own
or not.
-/
import WsPi5.Ip.Fragments

namespace WsPi5

open Lib

/-! ## The machine -/

/-- What happens to the slots and the pool.  A callback is a slot's timeout or, on the right, one
of another user. -/
inductive RTimerEvent (κ : Type) where
  | frag (now : Tick) (f : IpFrag)
  /-- `timer_check` comes to entry `k`. -/
  | visit (now : Tick) (k : Nat)
  | otherSet (expiry : Tick) (cb : κ)
  | otherCancel (k : Nat)

section
variable {κ : Type}

def Reasm.freeEntry (k : Nat) (r : Reasm κ) : Reasm κ :=
  { r with pool := { r.pool with slot := Function.update r.pool.slot k none } }

def Reasm.visit (now : Tick) (k : Nat) (r : Reasm (RIndex ⊕ κ)) : Reasm (RIndex ⊕ κ) :=
  match timerDue r.pool now k with
  | none => r
  | some ⟨_, .inl j⟩ => (ipReasmTimeoutCb j (r.freeEntry k)).1
  | some ⟨_, .inr _⟩ => r.freeEntry k

/-- The environment of the reassembly, with its callbacks on the left. -/
def reasmEnv (κ : Type) (freq : Tick) (hasPool : Bool) : ReasmEnv (RIndex ⊕ κ) :=
  ⟨freq, hasPool, .inl⟩

variable (env : ReasmEnv (RIndex ⊕ κ))

def Reasm.step (r : Reasm (RIndex ⊕ κ)) : RTimerEvent κ → Option (Reasm (RIndex ⊕ κ))
  | .frag now f => some (ipReasmInput env now f r).1
  | .visit now k => some (r.visit now k)
  | .otherSet x cb => some { r with pool := (timerSet r.pool x (.inr cb)).1 }
  | .otherCancel k => some { r with pool := timerCancel r.pool k }

/-- What the theorem asks of a step: a fragment does not complete a datagram that is too large. -/
def completesFitting (r : Reasm (RIndex ⊕ κ)) : RTimerEvent κ → Prop
  | .frag now f => ∀ a ∈ r.accepting env now f, ((a.2.slot a.1).store f).complete = true →
      ((a.2.slot a.1).store f).oversize = false
  | _ => True

/-- The slot that a step takes for a new datagram. -/
def Reasm.takes (r : Reasm (RIndex ⊕ κ)) : RTimerEvent κ → Option RIndex
  | .frag now f =>
      match r.accepting env now f with
      | some (k, _) => if r.find f.key = none then some k else none
      | none => none
  | _ => none

instance decCompletesFitting (r : Reasm (RIndex ⊕ κ)) : ∀ e, Decidable (completesFitting env r e)
  | .frag now f => inferInstanceAs (Decidable (∀ a ∈ r.accepting env now f, _ → _))
  | .visit _ _ | .otherSet _ _ | .otherCancel _ => isTrue trivial

end

/-! ## The property -/

section
variable {κ : Type} (env : ReasmEnv (RIndex ⊕ κ))

/-- **The property**: a timer of slot `j` in the pool is the one the slot names, and the slot is in
use. -/
structure Coupled (r : Reasm (RIndex ⊕ κ)) : Prop where
  entry : ∀ k x j, r.pool.slot k = some ⟨x, .inl j⟩ →
    (r.slot j).active = true ∧ (r.slot j).timerSlot.toNat = k
  unique : ∀ k k' x x' j, r.pool.slot k = some ⟨x, .inl j⟩ → r.pool.slot k' = some ⟨x', .inl j⟩ →
    k = k'

/-- What the steps need: the index is one of the pool's, hence not `0xFF`. -/
structure CoupledInv (r : Reasm (RIndex ⊕ κ)) : Prop where
  cap : r.pool.cap = tpoolDefaultCap
  entry : ∀ k x j, r.pool.slot k = some ⟨x, .inl j⟩ → k < tpoolDefaultCap ∧ env.hasPool = true ∧
    (r.slot j).active = true ∧ (r.slot j).timerSlot.toNat = k

end

section
variable {κ : Type} {env : ReasmEnv (RIndex ⊕ κ)} {r r' : Reasm (RIndex ⊕ κ)} {now : Tick}
  {f : IpFrag} {k : RIndex}

theorem CoupledInv.coupled (h : CoupledInv env r) : Coupled r where
  entry := fun k x j hk => (h.entry k x j hk).2.2
  unique := by
    intro k k' x x' j hk hk'
    rw [← (h.entry k x j hk).2.2.2, ← (h.entry k' x' j hk').2.2.2]

theorem CoupledInv.free (h : CoupledInv env r) {j : RIndex} (hj : (r.slot j).active = false)
    (m : Nat) (x : Tick) : r.pool.slot m ≠ some ⟨x, .inl j⟩ := by
  intro hm
  rw [(h.entry m x j hm).2.2.1] at hj
  cases hj

/-- Nothing new for reassembly in the pool, and the slots with a timer stay what they are. -/
theorem CoupledInv.keep (h : CoupledInv env r)
    (hp : Arms (fun cb => ∀ j, cb ≠ Sum.inl j) r.pool r'.pool)
    (hs : ∀ m x j, r'.pool.slot m = some ⟨x, .inl j⟩ → (r.slot j).active = true →
      (r'.slot j).active = true ∧ (r'.slot j).timerSlot = (r.slot j).timerSlot) :
    CoupledInv env r' where
  cap := hp.cap.trans h.cap
  entry := by
    intro m x j hm
    have hold : r.pool.slot m = some ⟨x, .inl j⟩ := hp.old (fun hno => hno j rfl) hm
    obtain ⟨hlt, hpool, hact, hslot⟩ := h.entry m x j hold
    obtain ⟨hact', hslot'⟩ := hs m x j hm hact
    exact ⟨hlt, hpool, hact', by rw [hslot', hslot]⟩

/-! ## The steps -/

theorem CoupledInv.arm (h : CoupledInv env r) (hpool : env.hasPool = true) (x : Tick)
    (hnone : ∀ m y, r.pool.slot m ≠ some ⟨y, .inl k⟩) {s : ReasmSlot} (hact : s.active = true) :
    CoupledInv env { r.put k { s with timerSlot := timerByte (timerSet r.pool x (.inl k)).2 } with
      pool := (timerSet r.pool x (.inl k)).1 } := by
  have hother : ∀ m y j, r.pool.slot m = some ⟨y, .inl j⟩ → m < tpoolDefaultCap ∧
      env.hasPool = true ∧ ∀ s', ((r.put k s').slot j).active = true ∧
        ((r.put k s').slot j).timerSlot.toNat = m := by
    intro m y j hm
    have hjk : j ≠ k := by
      rintro rfl
      exact hnone m y hm
    obtain ⟨hlt, _, hact', hslot⟩ := h.entry m y j hm
    refine ⟨hlt, hpool, fun s' => ?_⟩
    rw [put_slot_of_ne r s' hjk]
    exact ⟨hact', hslot⟩
  obtain ⟨i, hi, _, heq⟩ | ⟨_, heq⟩ := timerSet_cases r.pool x (.inl k)
  · rw [heq]
    refine ⟨h.cap, fun m y j hm => ?_⟩
    rw [h.cap] at hi
    by_cases hmi : m = i
    · subst hmi
      obtain ⟨_, rfl⟩ : x = y ∧ k = j := by simpa using hm
      refine ⟨hi, hpool, ?_⟩
      show ((r.put k _).slot k).active = true ∧ ((r.put k _).slot k).timerSlot.toNat = m
      rw [put_slot_self]
      refine ⟨hact, ?_⟩
      have hsmall : m < 16 := hi
      simp [timerByte]
      omega
    · obtain ⟨h₁, h₂, h₃⟩ := hother m y j (by simpa [hmi] using hm)
      exact ⟨h₁, h₂, h₃ _⟩
  · rw [heq]
    refine ⟨h.cap, fun m y j hm => ?_⟩
    obtain ⟨h₁, h₂, h₃⟩ := hother m y j hm
    exact ⟨h₁, h₂, h₃ _⟩

theorem CoupledInv.put (h : CoupledInv env r) {s : ReasmSlot}
    (hs : (∀ m y, r.pool.slot m ≠ some ⟨y, .inl k⟩) ∨
      (s.active = (r.slot k).active ∧ s.timerSlot = (r.slot k).timerSlot)) :
    CoupledInv env (r.put k s) := by
  refine h.keep (.refl _ _) fun m x j hm hact => ?_
  by_cases hjk : j = k
  · subst hjk
    rw [put_slot_self]
    rcases hs with hnone | ⟨hact', hslot⟩
    · exact absurd hm (hnone m x)
    · exact ⟨hact'.trans hact, hslot⟩
  · rw [put_slot_of_ne r s hjk]
    exact ⟨hact, rfl⟩

theorem CoupledInv.allocate (henv : env.timeoutCb = Sum.inl) (h : CoupledInv env r)
    (hk : (r.slot k).active = false) : CoupledInv env (r.allocate env now f k) := by
  unfold Reasm.allocate
  rw [henv]
  split
  · rename_i hpool
    exact h.arm hpool _ (fun m y => h.free hk m y) rfl
  · exact h.put (.inl fun m y => h.free hk m y)

theorem CoupledInv.cancelled (h : CoupledInv env r) {s : ReasmSlot}
    (hs : s.timerSlot = (r.slot k).timerSlot) :
    CoupledInv env (r.cancelTimer env s) ∧
      ∀ m y, (r.cancelTimer env s).pool.slot m ≠ some ⟨y, .inl k⟩ := by
  have hnot : ∀ m y, r.pool.slot m = some ⟨y, .inl k⟩ → s.timerSlot ≠ 0xFF := by
    intro m y hm hff
    obtain ⟨hlt, _, _, hslot⟩ := h.entry m y k hm
    rw [← hs, hff] at hslot
    have hm' : m = 255 := hslot.symm
    have hcap : (tpoolDefaultCap : Nat) = 16 := rfl
    omega
  unfold Reasm.cancelTimer
  split
  · refine ⟨h.keep (Arms.cancel (.refl _ _) _) fun _ _ _ _ hact => ⟨hact, rfl⟩, ?_⟩
    intro m y hm
    have hold : r.pool.slot m = some ⟨y, .inl k⟩ :=
      (Arms.cancel (.refl (fun cb => ∀ j, cb ≠ Sum.inl j) r.pool) _).old (fun hno => hno k rfl) hm
    obtain ⟨hlt, _, _, hslot⟩ := h.entry m y k hold
    have hself := timerCancel_self (p := r.pool) (k := m) (h.cap ▸ hlt)
    rw [← hs] at hslot
    dsimp only at hm
    rw [hslot, hself] at hm
    cases hm
  · rename_i hno
    refine ⟨h, fun m y hm => hno ⟨hnot m y hm, ?_⟩⟩
    exact (h.entry m y k hm).2.1

/-- **A fragment** that completes nothing too large. -/
theorem CoupledInv.input (henv : env.timeoutCb = Sum.inl) (h : CoupledInv env r)
    (hfit : ∀ a ∈ r.accepting env now f, ((a.2.slot a.1).store f).complete = true →
      ((a.2.slot a.1).store f).oversize = false) : CoupledInv env (ipReasmInput env now f r).1 := by
  rcases ipReasmInput_cases env now f r with ⟨_, heq⟩ | ⟨k, r', ha, heq⟩
  · rw [heq]
    exact h
  · rw [heq]
    have h' : CoupledInv env r' := by
      obtain ⟨_, hslot, _⟩ := accepting_some ha
      rcases slotFor_some hslot with ⟨_, rfl⟩ | ⟨_, hfree, rfl⟩
      · exact h
      · exact h.allocate henv (firstFree_inactive hfree)
    have hfit' := hfit (k, r') ha
    unfold Reasm.deliver
    dsimp only at hfit' ⊢
    split
    · rename_i hc
      rw [if_neg (by simp [hfit' hc])]
      obtain ⟨h'', hnone⟩ := h'.cancelled (k := k) (s := (r'.slot k).store f) rfl
      exact h''.put (.inl hnone)
    · exact h'.put (.inr ⟨rfl, rfl⟩)

theorem CoupledInv.visit (h : CoupledInv env r) (now : Tick) (m : Nat) :
    CoupledInv env (r.visit now m) := by
  have hfreed : CoupledInv env (r.freeEntry m) :=
    h.keep (Arms.free (.refl _ _) m) fun _ _ _ _ hact => ⟨hact, rfl⟩
  unfold Reasm.visit
  split
  · exact h
  · rename_i x j hdue
    have hat := h.entry m x j (timerDue_some hdue).2
    refine hfreed.put (.inl fun m' y hm' => ?_)
    by_cases hmm : m' = m
    · subst hmm
      simp [Reasm.freeEntry] at hm'
    · have hold : r.pool.slot m' = some ⟨y, .inl j⟩ := by
        simpa [Reasm.freeEntry, hmm] using hm'
      exact hmm (h.coupled.unique m' m y x j hold (timerDue_some hdue).2)
  · exact hfreed

/-- **Every step** that completes nothing too large. -/
theorem CoupledInv.step {e : RTimerEvent κ} (henv : env.timeoutCb = Sum.inl) (h : CoupledInv env r)
    (hok : completesFitting env r e) (hst : r.step env e = some r') : CoupledInv env r' := by
  cases e with
  | frag now f =>
      cases hst
      exact h.input henv hok
  | visit now m =>
      cases hst
      exact h.visit now m
  | otherSet x cb =>
      cases hst
      exact h.keep (Arms.set (.refl _ _) x (by simp)) fun _ _ _ _ hact => ⟨hact, rfl⟩
  | otherCancel m =>
      cases hst
      exact h.keep (Arms.cancel (.refl _ _) m) fun _ _ _ _ hact => ⟨hact, rfl⟩

theorem takes_ne {e : RTimerEvent κ} (hk : (r.slot k).active = true) : r.takes env e ≠ some k := by
  intro htakes
  cases e with
  | frag now f =>
      simp only [Reasm.takes] at htakes
      cases ha : r.accepting env now f with
      | none => simp [ha] at htakes
      | some a =>
          obtain ⟨j, r'⟩ := a
          simp only [ha, Option.ite_none_right_eq_some, Option.some.injEq] at htakes
          obtain ⟨hfind, rfl⟩ := htakes
          obtain ⟨_, hslot, _⟩ := accepting_some ha
          rcases slotFor_some hslot with ⟨hsome, _⟩ | ⟨_, hfree, _⟩
          · rw [hfind] at hsome
            cases hsome
          · rw [firstFree_inactive hfree] at hk
            cases hk
  | visit _ _ | otherSet _ _ | otherCancel _ => cases htakes

end

/-! ## Every run -/

section
variable {κ : Type} {freq : Tick} {hasPool : Bool}

theorem coupled_reachable {r : Reasm (RIndex ⊕ κ)}
    (h : Run (Reasm.step (reasmEnv κ freq hasPool)) (completesFitting (reasmEnv κ freq hasPool))
      (ipReasmInit (timerPoolInit _ tpoolDefaultCap)) r) :
    CoupledInv (reasmEnv κ freq hasPool) r := by
  refine h.invariant ?_ fun hr hok hst => hr.step rfl hok hst
  exact ⟨rfl, fun k x j hk => by simp [ipReasmInit, timerPoolInit] at hk⟩

/-- **Slots and timers are coupled.**  In every state `r₁` that is reached without completing a
datagram that is too large.  And a timer frees what it was armed for: from `r₁` on to a state `r`
in which the entry is still there, no step has taken the slot for another datagram. -/
theorem reasm_timers_coupled {r₁ : Reasm (RIndex ⊕ κ)}
    (h₁ : Run (Reasm.step (reasmEnv κ freq hasPool)) (completesFitting (reasmEnv κ freq hasPool))
      (ipReasmInit (timerPoolInit _ tpoolDefaultCap)) r₁) :
    Coupled r₁ ∧ ∀ k x j r, Run (Reasm.step (reasmEnv κ freq hasPool)) (fun u e =>
        completesFitting (reasmEnv κ freq hasPool) u e ∧ u.pool.slot k = some ⟨x, .inl j⟩) r₁ r →
      r.pool.slot k = some ⟨x, .inl j⟩ → (r.slot j).active = true ∧
        Run (Reasm.step (reasmEnv κ freq hasPool))
          (fun u e => u.takes (reasmEnv κ freq hasPool) e ≠ some j) r₁ r := by
  refine ⟨(coupled_reachable h₁).coupled, fun k x j r h hk => ?_⟩
  have hinv : ∀ {u}, Run (Reasm.step (reasmEnv κ freq hasPool)) (fun u e =>
      completesFitting (reasmEnv κ freq hasPool) u e ∧ u.pool.slot k = some ⟨x, .inl j⟩) r₁ u →
      CoupledInv (reasmEnv κ freq hasPool) u :=
    fun hu => coupled_reachable (h₁.trans (hu.mono And.left))
  refine ⟨((hinv h).entry k x j hk).2.2.1, ?_⟩
  clear hk
  induction h with
  | refl => exact .refl
  | tail hu hok hst ih =>
      exact .tail ih (takes_ne ((hinv hu).entry k x j hok.2).2.2.1) hst

end

/-- Two fragments of one datagram and the first of another. -/
theorem reasm_timers_coupled_demo : ∃ r : Reasm (RIndex ⊕ Nat),
    Run (Reasm.step (reasmEnv Nat 1000 true)) (completesFitting (reasmEnv Nat 1000 true))
      (ipReasmInit (timerPoolInit _ tpoolDefaultCap)) r ∧
    r.pool.slot 1 = some ⟨30001, .inl 1⟩ ∧ Coupled r := by
  obtain ⟨r, hrun, hslot⟩ := exists_run (Reasm.step (reasmEnv Nat 1000 true))
    (completesFitting (reasmEnv Nat 1000 true)) (ipReasmInit (timerPoolInit _ tpoolDefaultCap))
    (Q := fun r => r.pool.slot 1 = some ⟨30001, .inl 1⟩)
    [.frag 1 (demoFrag true 0 (List.replicate 8 1)), .otherSet 5 7,
      .frag 1 (demoFrag false 1 [2]), .otherSet 6 7,
      .frag 1 { demoFrag true 0 (List.replicate 8 1) with key := ⟨9, 7, 2, 17⟩ }, .visit 8 1,
      .frag 1 { demoFrag true 0 (List.replicate 8 1) with key := ⟨9, 7, 3, 17⟩ }]
    (by decide +kernel) (by decide +kernel)
  exact ⟨r, hrun, hslot, (reasm_timers_coupled hrun).1⟩

/-- A datagram of 1481 bytes is complete and dropped; its slot is taken for another datagram, which
the timer of the first then frees. -/
theorem timeout_frees_another : ∃ r : Reasm (RIndex ⊕ Nat),
    Run (Reasm.step (reasmEnv Nat 1000 true)) anyEvent
      (ipReasmInit (timerPoolInit _ tpoolDefaultCap)) r ∧ ¬ Coupled r ∧
    (r.slot 0).active = true ∧ ((r.visit 30001 0).slot 0).active = false ∧
      (r.slot 0).timerSlot = 1 := by
  obtain ⟨r, hrun, hold, hnew, hactive, hfreed, hslot⟩ := exists_run
    (Reasm.step (reasmEnv Nat 1000 true)) anyEvent (ipReasmInit (timerPoolInit _ tpoolDefaultCap))
    (Q := fun r => r.pool.slot 0 = some ⟨30001, .inl 0⟩ ∧ r.pool.slot 1 = some ⟨30002, .inl 0⟩ ∧
      (r.slot 0).active = true ∧ ((r.visit 30001 0).slot 0).active = false ∧
      (r.slot 0).timerSlot = 1)
    [.frag 1 (demoFrag true 0 (List.replicate 1480 1)), .frag 1 (demoFrag false 185 [2]),
      .frag 2 { demoFrag true 0 (List.replicate 8 1) with key := ⟨9, 7, 2, 17⟩ }]
    (by decide +kernel) (by decide +kernel)
  refine ⟨r, hrun, fun hc => ?_, hactive, hfreed, hslot⟩
  have := hc.unique 0 1 _ _ 0 hold hnew
  omega

end WsPi5

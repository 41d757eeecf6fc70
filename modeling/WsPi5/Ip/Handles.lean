/-
# `WsPi5.Ip.Handles` — the index in `REASM_TIMER_SLOT` and the call that uses it

A slot in use keeps the index of its timeout as one byte, `0xFF` for none, and cancels by it when
the datagram is complete.  The pool of `main.S` has sixteen entries, so the byte holds the index.

**Proved here** (`ReasmHandlesOk.input`, `ReasmHandlesOk.timeout`): a slot in use names its own
timeout, which is in the pool.  A timeout frees the slot it was armed for, whichever datagram is
in it by then; so a slot never outlives the entry it names.  (The converse fails: a timeout may
outlive its slot.)
-/
import WsPi5.Ip.Fragments
import WsPi5.TimerCalls

namespace WsPi5

open Lib

variable {κ ω : Type}

/-- "Cancel timer", when the fragment completes a datagram that fits. -/
def Reasm.cancels (env : ReasmEnv κ) (now : Tick) (f : IpFrag) (r : Reasm κ) :
    List (CancelCall RIndex κ) :=
  match r.accepting env now f with
  | some (k, r') =>
      let s := (r'.slot k).store f
      if s.complete = true ∧ s.oversize = false ∧ s.timerSlot ≠ 0xFF ∧ env.hasPool = true then
        [⟨k, s.timerSlot.toNat, r'.pool⟩]
      else []
  | none => []

/-- The timer whose index slot `j` keeps. -/
def ReasmEnv.kept (env : ReasmEnv κ) (j : RIndex) (cb : κ) : Prop := cb = env.timeoutCb j

/-- Slot `j` names its own timeout, if it is in use and names any. -/
def ReasmNames (env : ReasmEnv κ) (j : RIndex) (s : ReasmSlot) (p : TimerPool κ) : Prop :=
  s.active = true → s.timerSlot ≠ 0xFF → s.timerSlot.toNat < p.cap ∧
    ∃ e, p.slot s.timerSlot.toNat = some e ∧ env.kept j e.callback

/-- **The invariant.** -/
structure ReasmHandlesOk (env : ReasmEnv κ) (r : Reasm κ) : Prop where
  cap : r.pool.cap ≤ 255
  names : ∀ j, ReasmNames env j (r.slot j) r.pool

section
variable {env : ReasmEnv κ} {now : Tick} {f : IpFrag} {r r' : Reasm κ} {j k : RIndex}
  {p p' : TimerPool κ} {s : ReasmSlot}

theorem ReasmNames.of_free (h : s.active = false) : ReasmNames env j s p := by
  intro hact
  rw [h] at hact
  cases hact

theorem ReasmNames.keep (h : ReasmNames env j s p) (hcap : p'.cap = p.cap)
    (hp : ∀ m e, m < p.cap → p.slot m = some e → env.kept j e.callback → p'.slot m = some e) :
    ReasmNames env j s p' := by
  intro hact hbyte
  obtain ⟨hlt, e, he, hkept⟩ := h hact hbyte
  exact ⟨hcap ▸ hlt, e, hp _ e hlt he hkept, hkept⟩

/-- **The frame rule**: what others do to the pool. -/
theorem ReasmHandlesOk.frame (h : ReasmHandlesOk env r) (names : ω → κ → Prop)
    {cs : List (CancelCall ω κ)} (hp : PoolCalls r.pool cs p') (hsafe : ∀ x ∈ cs, x.Safe names)
    (hother : ∀ x ∈ cs, ∀ j cb, env.kept j cb → ¬ names x.owner cb) :
    ReasmHandlesOk env { r with pool := p' } where
  cap := by
    rw [show p'.cap = r.pool.cap from hp.cap]
    exact h.cap
  names := by
    intro j
    refine (h.names j).keep hp.cap fun m e hm he hkept => ?_
    exact hp.keeps hsafe hm he fun x hx => hother x hx j e.callback hkept

theorem ReasmHandlesOk.put (h : ReasmHandlesOk env r) (hs : ReasmNames env k s r.pool) :
    ReasmHandlesOk env (r.put k s) where
  cap := h.cap
  names := by
    intro j
    by_cases hjk : j = k
    · subst hjk
      rw [put_slot_self]
      exact hs
    · rw [put_slot_of_ne r s hjk]
      exact h.names j

theorem timerByte_toNat {m : Nat} (h : m < 255) : (timerByte (some m)).toNat = m := by
  simp only [timerByte, BitVec.toNat_ofNat]
  omega

/-- Taking a slot: its timer is armed, or the pool is full and it has none. -/
theorem ReasmHandlesOk.allocate (h : ReasmHandlesOk env r) (now : Tick) (f : IpFrag)
    (k : RIndex) :
    @PoolCalls _ RIndex r.pool [] (r.allocate env now f k).pool ∧
      ReasmHandlesOk env (r.allocate env now f k) := by
  unfold Reasm.allocate
  split
  · dsimp only
    have hcalls : @PoolCalls _ RIndex r.pool [] (timerSet r.pool
        (now + env.freq * reasmTimeoutSecs) (env.timeoutCb k)).1 := PoolCalls.refl.set _ _
    refine ⟨hcalls, ?_⟩
    have hframe := h.frame env.kept hcalls (by simp) (by simp)
    refine hframe.put ?_
    intro _ hbyte
    obtain ⟨m, hm, _, heq⟩ | ⟨_, heq⟩ := timerSet_cases r.pool
      (now + env.freq * reasmTimeoutSecs) (env.timeoutCb k)
    · have hsmall := timerByte_toNat (Nat.lt_of_lt_of_le hm h.cap)
      rw [heq]
      dsimp only
      rw [hsmall]
      refine ⟨hm, ⟨now + env.freq * reasmTimeoutSecs, env.timeoutCb k⟩, ?_, rfl⟩
      simp
    · rw [heq] at hbyte
      exact absurd rfl hbyte
  · refine ⟨.refl, h.put fun _ hbyte => absurd rfl hbyte⟩

theorem slotFor_handles (h : ReasmHandlesOk env r) (hs : r.slotFor env now f = some (k, r')) :
    @PoolCalls _ RIndex r.pool [] r'.pool ∧ ReasmHandlesOk env r' ∧ (r'.slot k).active = true := by
  rcases slotFor_some hs with ⟨hfind, rfl⟩ | ⟨_, _, rfl⟩
  · exact ⟨.refl, h, (find_some hfind).1⟩
  · obtain ⟨hcalls, hok⟩ := h.allocate now f k
    refine ⟨hcalls, hok, ?_⟩
    unfold Reasm.allocate
    split
    · show ((r.put k _).slot k).active = true
      rw [put_slot_self]
      rfl
    · rw [put_slot_self]
      rfl

/-- **A fragment.** -/
theorem ReasmHandlesOk.input (hinj : Function.Injective env.timeoutCb)
    (h : ReasmHandlesOk env r) (now : Tick) (f : IpFrag) :
    PoolCalls r.pool (r.cancels env now f) (ipReasmInput env now f r).1.pool ∧
      (∀ x ∈ r.cancels env now f, x.Safe env.kept) ∧
      ReasmHandlesOk env (ipReasmInput env now f r).1 := by
  rcases ipReasmInput_cases env now f r with ⟨hnone, heq⟩ | ⟨k, r', ha, heq⟩
  · rw [heq, Reasm.cancels, hnone]
    exact ⟨.refl, by simp, h⟩
  · obtain ⟨_, hslot, _⟩ := accepting_some ha
    obtain ⟨hcalls, h', hactive⟩ := slotFor_handles h hslot
    rw [heq, Reasm.cancels, ha]
    dsimp only
    unfold Reasm.deliver
    dsimp only
    cases hcomplete : ((r'.slot k).store f).complete with
    | false =>
        simp only [Bool.false_eq_true, false_and, if_false]
        exact ⟨hcalls, by simp, h'.put (h'.names k)⟩
    | true =>
        cases hsize : ((r'.slot k).store f).oversize with
        | true =>
            simp only [Bool.true_eq_false, false_and, and_false, if_true, if_false]
            exact ⟨hcalls, by simp, h'.put (.of_free rfl)⟩
        | false =>
            simp only [true_and, if_true, Bool.false_eq_true, if_false, Reasm.cancelTimer]
            split
            · rename_i hcancel
              -- the entry is the slot's own, and the slot is freed with it
              obtain ⟨hlt, e, he, hkept⟩ := h'.names k hactive hcancel.1
              have hone : PoolCalls r'.pool [⟨k, (r'.slot k).timerSlot.toNat, r'.pool⟩]
                  (timerCancel r'.pool (r'.slot k).timerSlot.toNat) :=
                PoolCalls.refl.cancel k _
              have hsafe : ∀ x ∈ [(⟨k, (r'.slot k).timerSlot.toNat, r'.pool⟩ :
                  CancelCall RIndex κ)], x.Safe env.kept := by
                intro x hx e' hhit
                cases List.mem_singleton.mp hx
                rw [CancelCall.hits_of_cap hlt, he] at hhit
                cases hhit
                exact hkept
              refine ⟨hcalls.trans hone, hsafe, ?_⟩
              refine ⟨?_, fun j => ?_⟩
              · show (timerCancel _ _).cap ≤ 255
                rw [timerCancel_cap]
                exact h'.cap
              · by_cases hjk : j = k
                · subst hjk
                  show ReasmNames env j ((Reasm.put _ j _).slot j) _
                  rw [put_slot_self]
                  exact .of_free rfl
                · show ReasmNames env j ((Reasm.put _ k _).slot j) _
                  rw [put_slot_of_ne _ _ hjk]
                  refine (h'.names j).keep (timerCancel_cap _ _) fun m e' hm he' hkept' => ?_
                  refine hone.keeps hsafe hm he' fun x hx hown => ?_
                  cases List.mem_singleton.mp hx
                  exact hjk (hinj (hkept'.symm.trans hown))
            · exact ⟨hcalls, by simp, h'.put (.of_free rfl)⟩

/-- **A timeout**, its entry freed: the slot goes with it. -/
theorem ReasmHandlesOk.timeout (hinj : Function.Injective env.timeoutCb)
    (h : ReasmHandlesOk env r) {m : Nat} {e : TimerEntry κ} (hm : r.pool.slot m = some e)
    (he : env.kept k e.callback) :
    ReasmHandlesOk env (ipReasmTimeoutCb k { r with
      pool := { r.pool with slot := Function.update r.pool.slot m none } }).1 where
  cap := h.cap
  names := by
    intro j
    by_cases hjk : j = k
    · subst hjk
      show ReasmNames env j ((Reasm.put _ j _).slot j) _
      rw [put_slot_self]
      exact .of_free rfl
    · show ReasmNames env j ((Reasm.put _ k _).slot j) _
      rw [put_slot_of_ne _ _ hjk]
      refine (h.names j).keep rfl fun m' e' _ he' hkept' => ?_
      have hne : m' ≠ m := by
        rintro rfl
        rw [hm] at he'
        cases he'
        exact hjk (hinj (hkept'.symm.trans he))
      show Function.update r.pool.slot m none m' = some e'
      rw [Function.update_of_ne hne]
      exact he'

theorem ReasmHandlesOk.freed (h : ReasmHandlesOk env r) {m : Nat} {e : TimerEntry κ}
    (hm : r.pool.slot m = some e) (he : ∀ j, ¬ env.kept j e.callback) :
    ReasmHandlesOk env { r with
      pool := { r.pool with slot := Function.update r.pool.slot m none } } where
  cap := h.cap
  names := by
    intro j
    refine (h.names j).keep rfl fun m' e' _ he' hkept' => ?_
    have hne : m' ≠ m := by
      rintro rfl
      rw [hm] at he'
      cases he'
      exact he j hkept'
    show Function.update r.pool.slot m none m' = some e'
    rw [Function.update_of_ne hne]
    exact he'

end

end WsPi5

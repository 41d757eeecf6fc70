/-
# `WsPi5.Mdns.Probe` — the probing and announcing of `lib/mdns.S`

Once there is an address the responder probes three times, announces twice and is then live; one
timer drives it.  `mdns_start` runs at boot; without an address it leaves the arming to `mdns_kick`,
which DHCP calls when a lease is committed and which starts over when the address has changed.

`_mdns_try_arm` cancels the timer of a cycle that is still going on.  It looks at the entry first
and cancels only if its callback is `mdns_timer_cb`: the slot may have been handed out again
since.  So its call is safe whatever the index is (`mdnsTryArm_safe`).

What the frames contain is not modelled here.
-/
import WsPi5.TimerCalls

namespace WsPi5

/-- `MDNS_STATE_*`. -/
inductive MdnsState where
  | idle | probe1 | probe2 | probe3 | announce1 | announce2 | live
  deriving DecidableEq, Repr

/-- What a firing of the timer puts on the wire. -/
inductive MdnsFrame where
  | probe | announce
  deriving DecidableEq, Repr

/-- `mdns_send_ctx`, less what the sending needs. -/
structure Mdns where
  hasPool : Bool := false
  hasSendFn : Bool := false
  timerFreq : Tick := 0
  state : MdnsState := .idle
  /-- `none` for `-1` (a zeroed context holds index 0). -/
  timerSlot : Option Nat := some 0
  announcedIp : BitVec 32 := 0
  priorAnnouncedIp : BitVec 32 := 0
  deriving Repr

/-- The clock rate, `net_hostname_len` and `mdns_timer_cb` with its context. -/
structure MdnsEnv (κ : Type) where
  freq : Tick
  hostnameLen : Nat
  timerCb : κ

section
variable {κ : Type} [DecidableEq κ] (env : MdnsEnv κ) (now : Tick) (ourIp : BitVec 32)

/-- The index to cancel: one of the sixteen, whose entry is ours. -/
def mdnsOwnSlot (m : Mdns) (p : TimerPool κ) : Option Nat :=
  m.timerSlot.filter fun k => k < tpoolDefaultCap &&
    (p.slot k).any fun e => e.callback = env.timerCb

/-- The preconditions of `_mdns_try_arm`. -/
def mdnsMayArm (m : Mdns) : Bool := m.hasPool && env.hostnameLen ≠ 0 && ourIp ≠ 0

def mdnsTryArm (m : Mdns) (p : TimerPool κ) : Mdns × TimerPool κ :=
  if mdnsMayArm env ourIp m then
    let p := match mdnsOwnSlot env m p with
      | some k => timerCancel p k
      | none => p
    let armed := timerSet p now env.timerCb
    ({ m with
        timerFreq := env.freq
        announcedIp := ourIp
        state := .probe1
        timerSlot := armed.2 }, armed.1)
  else (m, p)

def mdnsKick (m : Mdns) (p : TimerPool κ) : Mdns × TimerPool κ :=
  if m.state = .idle then mdnsTryArm env now ourIp m p
  else if m.announcedIp = ourIp then (m, p)
  else mdnsTryArm env now ourIp { m with priorAnnouncedIp := m.announcedIp } p

def mdnsStart (hasPool hasSendFn : Bool) (m : Mdns) (p : TimerPool κ) : Mdns × TimerPool κ :=
  mdnsTryArm env now ourIp { m with
    hasPool := hasPool
    hasSendFn := hasSendFn
    state := .idle
    timerSlot := none
    announcedIp := 0 } p

/-- The frame of a state, and the state after it. -/
def MdnsState.advance : MdnsState → Option (MdnsFrame × MdnsState)
  | .idle | .live => none
  | .probe1 => some (.probe, .probe2)
  | .probe2 => some (.probe, .probe3)
  | .probe3 => some (.probe, .announce1)
  | .announce1 => some (.announce, .announce2)
  | .announce2 => some (.announce, .live)

/-- `mdns_timer_cb`, and the frame it sends (an empty hostname or no `send_fn`: none). -/
def mdnsTimerCb (m : Mdns) (p : TimerPool κ) : Mdns × TimerPool κ × Option MdnsFrame :=
  match m.state.advance with
  | none => (m, p, none)
  | some (frame, next) =>
      let sent := if env.hostnameLen ≠ 0 ∧ m.hasSendFn then some frame else none
      if next = .live then ({ m with state := next, priorAnnouncedIp := 0 }, p, sent)
      else if m.hasPool then
        let delay := if next = .announce2 then m.timerFreq else m.timerFreq >>> 2
        let armed := timerSet p (now + delay) env.timerCb
        ({ m with state := next, timerSlot := armed.2 }, armed.1, sent)
      else ({ m with state := next }, p, sent)

/-! ## The calls -/

/-- The call of `timer_cancel`. -/
def mdnsTryArmCalls (m : Mdns) (p : TimerPool κ) : List (CancelCall Unit κ) :=
  if mdnsMayArm env ourIp m then
    match mdnsOwnSlot env m p with
    | some k => [⟨(), k, p⟩]
    | none => []
  else []

def mdnsKickCalls (m : Mdns) (p : TimerPool κ) : List (CancelCall Unit κ) :=
  if m.state = .idle then mdnsTryArmCalls env ourIp m p
  else if m.announcedIp = ourIp then []
  else mdnsTryArmCalls env ourIp { m with priorAnnouncedIp := m.announcedIp } p

/-- `mdns_start` forgets the index before it tries to arm. -/
def mdnsStartCalls (hasPool hasSendFn : Bool) (m : Mdns) (p : TimerPool κ) :
    List (CancelCall Unit κ) :=
  mdnsTryArmCalls env ourIp { m with
    hasPool := hasPool
    hasSendFn := hasSendFn
    state := .idle
    timerSlot := none
    announcedIp := 0 } p

end

section
variable {κ : Type} [DecidableEq κ]

def MdnsEnv.kept (env : MdnsEnv κ) (_ : Unit) (cb : κ) : Prop := cb = env.timerCb

theorem mdnsTryArm_calls (env : MdnsEnv κ) (now : Tick) (ourIp : BitVec 32) (m : Mdns)
    (p : TimerPool κ) :
    PoolCalls p (mdnsTryArmCalls env ourIp m p) (mdnsTryArm env now ourIp m p).2 := by
  unfold mdnsTryArm mdnsTryArmCalls
  split
  · cases mdnsOwnSlot env m p with
    | some k => exact (PoolCalls.refl.cancel () k).set _ _
    | none => exact PoolCalls.refl.set _ _
  · exact .refl

/-- **The guard makes the call safe.** -/
theorem mdnsTryArm_safe (env : MdnsEnv κ) (ourIp : BitVec 32) (m : Mdns) (p : TimerPool κ) :
    ∀ x ∈ mdnsTryArmCalls env ourIp m p, x.Safe env.kept := by
  intro x hx e hhit
  unfold mdnsTryArmCalls at hx
  split at hx
  · cases hown : mdnsOwnSlot env m p with
    | none =>
        rw [hown] at hx
        cases hx
    | some k =>
        rw [hown] at hx
        cases List.mem_singleton.mp hx
        obtain ⟨_, hguard⟩ := Option.filter_eq_some_iff.mp hown
        simp only [Bool.and_eq_true, decide_eq_true_eq, Option.any_eq_true_iff_get] at hguard
        obtain ⟨_, hsome, hcb⟩ := hguard
        unfold CancelCall.hits at hhit
        split at hhit
        · have hget : p.slot k = some e := hhit
          simp only [hget, Option.get_some] at hcb
          exact hcb
        · cases hhit
  · cases hx

theorem mdnsKick_calls (env : MdnsEnv κ) (now : Tick) (ourIp : BitVec 32) (m : Mdns)
    (p : TimerPool κ) :
    PoolCalls p (mdnsKickCalls env ourIp m p) (mdnsKick env now ourIp m p).2 := by
  unfold mdnsKick mdnsKickCalls
  split
  · exact mdnsTryArm_calls env now ourIp m p
  · split
    · exact .refl
    · exact mdnsTryArm_calls env now ourIp _ p

theorem mdnsKick_safe (env : MdnsEnv κ) (ourIp : BitVec 32) (m : Mdns) (p : TimerPool κ) :
    ∀ x ∈ mdnsKickCalls env ourIp m p, x.Safe env.kept := by
  unfold mdnsKickCalls
  split
  · exact mdnsTryArm_safe env ourIp m p
  · split
    · simp
    · exact mdnsTryArm_safe env ourIp _ p

omit [DecidableEq κ] in
theorem mdnsTimerCb_calls (env : MdnsEnv κ) (now : Tick) (m : Mdns) (p : TimerPool κ) :
    @PoolCalls _ Unit p [] (mdnsTimerCb env now m p).2.1 := by
  unfold mdnsTimerCb
  split
  · exact .refl
  · dsimp only
    split
    · exact .refl
    · split
      · exact PoolCalls.refl.set _ _
      · exact .refl

/-! ## The timer -/

section
variable {env : MdnsEnv κ} {A : κ → Prop}

theorem mdnsTryArm_arms (hA : A env.timerCb) (now : Tick) (ourIp : BitVec 32) (m : Mdns)
    (p : TimerPool κ) : Arms A p (mdnsTryArm env now ourIp m p).2 := by
  unfold mdnsTryArm
  split
  · cases mdnsOwnSlot env m p with
    | some k => exact ((Arms.refl A p).cancel k).set _ hA
    | none => exact (Arms.refl A p).set _ hA
  · exact .refl A p

theorem mdnsKick_arms (hA : A env.timerCb) (now : Tick) (ourIp : BitVec 32) (m : Mdns)
    (p : TimerPool κ) : Arms A p (mdnsKick env now ourIp m p).2 := by
  unfold mdnsKick
  split
  · exact mdnsTryArm_arms hA now ourIp m p
  · split
    · exact .refl A p
    · exact mdnsTryArm_arms hA now ourIp _ p

omit [DecidableEq κ] in
theorem mdnsTimerCb_arms (hA : A env.timerCb) (now : Tick) (m : Mdns) (p : TimerPool κ) :
    Arms A p (mdnsTimerCb env now m p).2.1 := by
  unfold mdnsTimerCb
  split
  · exact .refl A p
  · dsimp only
    split
    · exact .refl A p
    · split
      · exact (Arms.refl A p).set _ hA
      · exact .refl A p

end

end

end WsPi5

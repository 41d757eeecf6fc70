/-
# `WsPi5.TimerAgenda` — the timer pool is a bounded set of pending timers

`timer_check` calls back in the middle of its walk over the slots, and the callback may call
`timer_set` and `timer_cancel` on the same pool.  Here a callback is a program: from the memory it
shares with the rest of the system it makes calls, one after the other, each as it likes after
what the ones before returned (`Prog`).  What `callback(context)` does is a parameter of the model.

The pool does not look at its callbacks.  So each can carry a number, by which this file tells the
timers apart; `log` is what an observer would write down, the most recent first.

    timer_set                        armed, or refused
    timer_cancel                     cancelled, with the timer it hits
    timer_check                      begun; for each timer: fired, and what its callback calls; closed

**Proved here** (`timer_pool_refines`).  In every run from `timer_pool_init`, the log is a trace of
the bounded set `Lib.Agenda`, and the pool holds what that set holds.  The walk is carried by one
invariant: what was due when it began and is still there has an index at or after the cursor.
-/
import WsPi5.Lib.Agenda
import WsPi5.Lib.Run
import WsPi5.TimerPool

namespace WsPi5

open Lib Lib.Agenda

/-! ## Code that uses the pool -/

/-- Code that calls the pool and ends with the memory as it leaves it. -/
inductive Prog (κ μ : Type) where
  | done (mem : μ)
  | set (expiry : Tick) (callback : κ) (next : Option Nat → Prog κ μ)
  | cancel (k : Nat) (next : Prog κ μ)

/-- A pool whose callbacks are numbered, the memory of its users, and the log. -/
structure TimerSys (κ μ : Type) where
  pool : TimerPool (κ × Nat)
  next : Nat
  mem : μ
  log : List (Agenda.Event Tick κ)

variable {κ μ : Type}

def timerAt (k : Nat) (e : TimerEntry (κ × Nat)) : Entry Tick κ :=
  ⟨e.callback.2, k, e.expiry, e.callback.1⟩

/-- `timer_set`, with the number of the timer and the log. -/
def TimerSys.set (s : TimerSys κ μ) (expiry : Tick) (callback : κ) : TimerSys κ μ × Option Nat :=
  match timerSet s.pool expiry (callback, s.next) with
  | (p, some k) =>
      ({ s with
        pool := p
        next := s.next + 1
        log := .armed ⟨s.next, k, expiry, callback⟩ :: s.log }, some k)
  | (p, none) => ({ s with pool := p, log := .refused :: s.log }, none)

/-- The timer that `timer_cancel` hits. -/
def TimerSys.hit (s : TimerSys κ μ) (k : Nat) : Option (Entry Tick κ) :=
  if k < s.pool.cap then (s.pool.slot k).map (timerAt k) else none

/-- `timer_cancel`, with the log. -/
def TimerSys.cancel (s : TimerSys κ μ) (k : Nat) : TimerSys κ μ :=
  { s with pool := timerCancel s.pool k, log := .cancelled k (s.hit k) :: s.log }

def Prog.run : Prog κ μ → TimerSys κ μ → TimerSys κ μ
  | .done mem, s => { s with mem := mem }
  | .set x cb next, s => (next (s.set x cb).2).run (s.set x cb).1
  | .cancel k next, s => next.run (s.cancel k)

/-- `str xzr, [x22, #SLOT_CALLBACK]`: the slot is free before its callback is called. -/
def TimerSys.fire (s : TimerSys κ μ) (now : Tick) (k : Nat) (e : TimerEntry (κ × Nat)) :
    TimerSys κ μ :=
  { s with
    pool := { s.pool with slot := Function.update s.pool.slot k none }
    log := .fired (timerAt k e) now :: s.log }

section
variable (body : κ → μ → Prog κ μ)

/-- `.Ltc_loop`: `left` slots to go, the next one `k`, and the count so far. -/
def timerCheckLoop (now : Tick) : Nat → Nat → Nat → TimerSys κ μ → TimerSys κ μ × Nat
  | 0, _, fired, s => (s, fired)
  | left + 1, k, fired, s =>
      match timerDue s.pool now k with
      | none => timerCheckLoop now left (k + 1) fired s
      | some e =>
          timerCheckLoop now left (k + 1) (fired + 1)
            ((body e.callback.1 s.mem).run (s.fire now k e))

/-- `timer_check`, with the log. -/
def timerCheck (now : Tick) (s : TimerSys κ μ) : TimerSys κ μ :=
  let walk := timerCheckLoop body now s.pool.cap 0 0 { s with log := .begun now :: s.log }
  { walk.1 with log := .closed walk.2 :: walk.1.log }

/-- The program outside the pool runs, or calls `timer_check`. -/
inductive TimerOp (κ μ : Type) where
  | run (code : μ → Prog κ μ)
  | check (now : Tick)

def timerStep (s : TimerSys κ μ) : TimerOp κ μ → Option (TimerSys κ μ)
  | .run code => some ((code s.mem).run s)
  | .check now => some (timerCheck body now s)

end

/-- After `timer_pool_init`. -/
def TimerSys.init (cap : PoolCap) (mem : μ) : TimerSys κ μ :=
  ⟨timerPoolInit (κ × Nat) cap, 0, mem, []⟩

/-! ## The pool holds what the set holds -/

def slotOf (t : Entry Tick κ) : TimerEntry (κ × Nat) := ⟨t.deadline, (t.payload, t.id)⟩

/-- The slots below `cap` that are taken are the pending timers. -/
structure PoolHolds (s : TimerSys κ μ) (a : State Tick κ) : Prop where
  cap : s.pool.cap = a.cap
  next : s.next = a.next
  slot : ∀ k < a.cap, ∀ e, s.pool.slot k = some e ↔ timerAt k e ∈ a.pending

section
variable {s : TimerSys κ μ} {a b : State Tick κ} {k : Nat}

theorem slotOf_timerAt (k : Nat) (e : TimerEntry (κ × Nat)) : slotOf (timerAt k e) = e := rfl

theorem PoolHolds.slot_of_mem (h : PoolHolds s a) {t : Entry Tick κ} (ht : t ∈ a.pending) :
    s.pool.slot t.index = some (slotOf t) :=
  (h.slot t.index (a.inside t ht) (slotOf t)).mpr ht

theorem PoolHolds.free_iff (h : PoolHolds s a) (hk : k < a.cap) :
    s.pool.slot k = none ↔ ∀ t ∈ a.pending, t.index ≠ k := by
  constructor
  · rintro hnone t ht rfl
    rw [h.slot_of_mem ht] at hnone
    cases hnone
  · intro hfree
    cases hslot : s.pool.slot k with
    | none => rfl
    | some e => exact absurd rfl (hfree _ ((h.slot k hk e).mp hslot))

/-- **`timer_set` fails exactly if `cap` timers are pending.** -/
theorem PoolHolds.full_iff (h : PoolHolds s a) :
    (∀ k, k < s.pool.cap → s.pool.slot k ≠ none) ↔ a.pending.length = a.cap := by
  rw [a.full_iff, h.cap]
  constructor
  · intro hall k hk
    obtain ⟨e, he⟩ := Option.ne_none_iff_exists'.mp (hall k hk)
    exact ⟨timerAt k e, (h.slot k hk e).mp he, rfl⟩
  · rintro hall k hk hnone
    obtain ⟨t, ht, rfl⟩ := hall k hk
    exact (h.free_iff hk).mp hnone t ht rfl

theorem PoolHolds.drop (h : PoolHolds s a) (k n : Nat) {s' : TimerSys κ μ}
    (hnext : s'.next = s.next)
    (hpool : s'.pool = { s.pool with slot := Function.update s.pool.slot k none }) :
    PoolHolds s' (a.drop k n) where
  cap := by rw [hpool]; exact h.cap
  next := hnext.trans h.next
  slot := by
    intro j hj e
    rw [hpool]
    show Function.update s.pool.slot k none j = some e ↔ timerAt j e ∈ besides k a.pending
    rw [mem_besides]
    by_cases hjk : j = k
    · subst hjk
      simp [timerAt]
    · rw [Function.update_of_ne hjk, h.slot j hj e]
      exact ⟨fun hmem => ⟨hmem, hjk⟩, fun hmem => hmem.1⟩

theorem PoolHolds.arm (h : PoolHolds s a) (hk : k < a.cap) (hfree : ∀ t ∈ a.pending, t.index ≠ k)
    (x : Tick) (cb : κ) {s' : TimerSys κ μ} (hnext : s'.next = s.next + 1)
    (hpool : s'.pool =
      { s.pool with slot := Function.update s.pool.slot k (some ⟨x, (cb, s.next)⟩) }) :
    PoolHolds s' (a.arm k x cb hk hfree) where
  cap := by rw [hpool]; exact h.cap
  next := by rw [hnext, h.next]; rfl
  slot := by
    intro j hj e
    rw [hpool]
    show Function.update s.pool.slot k _ j = some e ↔ timerAt j e ∈ _ :: a.pending
    rw [List.mem_cons]
    by_cases hjk : j = k
    · subst hjk
      rw [Function.update_self, ← h.next]
      constructor
      · intro he
        cases he
        exact .inl rfl
      · rintro (he | hmem)
        · rw [← slotOf_timerAt j e, he]
          rfl
        · exact absurd rfl (hfree _ hmem)
    · rw [Function.update_of_ne hjk, h.slot j hj e]
      refine ⟨.inr, fun hor => hor.resolve_left ?_⟩
      intro he
      exact hjk (congrArg Entry.index he)

end

/-! ## Each call is a step -/

/-- What a program leaves of a pass that goes on: the same, with less that is due. -/
structure PassOn (a b : State Tick κ) : Prop where
  off : a.pass = none → b.pass = none
  on : ∀ p, a.pass = some p →
    ∃ q, b.pass = some q ∧ q.now = p.now ∧ q.fired = p.fired ∧ ∀ t ∈ q.due, t ∈ p.due

/-- From `a` to `b` by the log, with the pool in step. -/
structure Follows (cap : PoolCap) (s : TimerSys κ μ) (b : State Tick κ) : Prop where
  trace : Trace (State.empty Tick κ cap) s.log b
  holds : PoolHolds s b

section
variable {cap : PoolCap} {k : Nat} {s : TimerSys κ μ} {a b c : State Tick κ}

theorem PassOn.refl (a : State Tick κ) : PassOn a a :=
  ⟨id, fun p hp => ⟨p, hp, rfl, rfl, fun _ ht => ht⟩⟩

theorem PassOn.trans (h : PassOn a b) (h' : PassOn b c) : PassOn a c := by
  refine ⟨fun hoff => h'.off (h.off hoff), fun p hp => ?_⟩
  obtain ⟨q, hq, hnow, hfired, hdue⟩ := h.on p hp
  obtain ⟨r, hr, hnow', hfired', hdue'⟩ := h'.on q hq
  exact ⟨r, hr, hnow'.trans hnow, hfired'.trans hfired, fun t ht => hdue t (hdue' t ht)⟩

theorem PassOn.arm (a : State Tick κ) (k : Nat) (x : Tick) (cb : κ) (hk : k < a.cap)
    (hfree : ∀ t ∈ a.pending, t.index ≠ k) : PassOn a (a.arm k x cb hk hfree) :=
  ⟨id, (PassOn.refl a).on⟩

theorem PassOn.drop (a : State Tick κ) (k : Nat) : PassOn a (a.drop k 0) := by
  refine ⟨fun hoff => congrArg (Option.map _) hoff, fun p hp => ?_⟩
  exact ⟨_, congrArg (Option.map _) hp, rfl, rfl, fun t ht => (mem_besides.mp ht).1⟩

theorem Follows.set (h : Follows cap s a) (x : Tick) (cb : κ) :
    ∃ b, Follows cap (s.set x cb).1 b ∧ PassOn a b := by
  obtain ⟨k, hk, hslot, heq⟩ | ⟨hfull, heq⟩ := timerSet_cases s.pool x (cb, s.next)
  · rw [h.holds.cap] at hk
    have hfree := (h.holds.free_iff hk).mp hslot
    rw [TimerSys.set, heq]
    refine ⟨a.arm k x cb hk hfree, ⟨?_, h.holds.arm hk hfree x cb rfl rfl⟩, PassOn.arm a k x cb hk hfree⟩
    have hstep := Step.arm a k x cb hk hfree
    rw [← h.holds.next] at hstep
    exact .cons h.trace hstep
  · rw [TimerSys.set, heq]
    refine ⟨a, ⟨.cons h.trace (.refuse a (h.holds.full_iff.mp hfull)), ?_⟩, PassOn.refl a⟩
    exact ⟨h.holds.cap, h.holds.next, h.holds.slot⟩

theorem PoolHolds.hit_some (h : PoolHolds s a) {t : Entry Tick κ} (ht : s.hit k = some t) :
    t ∈ a.pending ∧ t.index = k := by
  unfold TimerSys.hit at ht
  split at ht
  · obtain ⟨e, he, rfl⟩ := Option.map_eq_some_iff.mp ht
    exact ⟨(h.slot k (h.cap ▸ ‹_›) e).mp he, rfl⟩
  · cases ht

theorem PoolHolds.hit_none (h : PoolHolds s a) (ht : s.hit k = none) :
    (∀ t ∈ a.pending, t.index ≠ k) ∧ ∀ j < a.cap, (timerCancel s.pool k).slot j = s.pool.slot j := by
  unfold TimerSys.hit at ht
  unfold timerCancel
  split at ht
  · have hslot : s.pool.slot k = none := Option.map_eq_none_iff.mp ht
    refine ⟨(h.free_iff (h.cap ▸ ‹_›)).mp hslot, fun j _ => ?_⟩
    rw [if_pos ‹_›]
    show Function.update s.pool.slot k none j = _
    rw [← hslot, Function.update_eq_self]
  · rw [if_neg ‹_›]
    refine ⟨?_, fun j _ => rfl⟩
    rintro t ht rfl
    exact absurd (h.cap ▸ a.inside t ht) ‹_›

theorem Follows.cancel (h : Follows cap s a) (k : Nat) :
    ∃ b, Follows cap (s.cancel k) b ∧ PassOn a b := by
  cases hhit : s.hit k with
  | some t =>
      obtain ⟨ht, rfl⟩ := h.holds.hit_some hhit
      refine ⟨a.drop t.index 0, ⟨?_, h.holds.drop t.index 0 rfl ?_⟩, PassOn.drop a t.index⟩
      · rw [TimerSys.cancel, hhit]
        exact .cons h.trace (.cancel a t ht)
      · show timerCancel s.pool t.index = _
        rw [timerCancel, if_pos (h.holds.cap ▸ a.inside t ht)]
  | none =>
      obtain ⟨hmiss, hsame⟩ := h.holds.hit_none hhit
      refine ⟨a, ⟨?_, ?_⟩, PassOn.refl a⟩
      · rw [TimerSys.cancel, hhit]
        exact .cons h.trace (.miss a k hmiss)
      · refine ⟨(timerCancel_cap s.pool k).trans h.holds.cap, h.holds.next, fun j hj e => ?_⟩
        show (timerCancel s.pool k).slot j = some e ↔ _
        rw [hsame j hj]
        exact h.holds.slot j hj e

/-- **A program follows the set**, call by call. -/
theorem Follows.prog (code : Prog κ μ) (h : Follows cap s a) :
    ∃ b, Follows cap (code.run s) b ∧ PassOn a b := by
  induction code generalizing s a with
  | done mem => exact ⟨a, ⟨h.trace, ⟨h.holds.cap, h.holds.next, h.holds.slot⟩⟩, PassOn.refl a⟩
  | set x cb next ih =>
      obtain ⟨b, hb, hab⟩ := h.set x cb
      obtain ⟨c, hc, hbc⟩ := ih (s.set x cb).2 hb
      exact ⟨c, hc, hab.trans hbc⟩
  | cancel k next ih =>
      obtain ⟨b, hb, hab⟩ := h.cancel k
      obtain ⟨c, hc, hbc⟩ := ih hb
      exact ⟨c, hc, hab.trans hbc⟩

end

/-! ## The walk of `timer_check` -/

section
variable {cap : PoolCap} {k left fired : Nat} {now : Tick} {s : TimerSys κ μ} {a b : State Tick κ}

/-- The pass at slot `k`: what it has still to fire lies at or after the cursor. -/
structure Walking (now : Tick) (k fired : Nat) (a : State Tick κ) : Prop where
  pass : ∃ p, a.pass = some p ∧ p.now = now ∧ p.fired = fired ∧ ∀ t ∈ p.due, k ≤ t.index

theorem Walking.on (h : Walking now k fired a) (hab : PassOn a b) : Walking now k fired b := by
  obtain ⟨p, hp, rfl, rfl, hdue⟩ := h.pass
  obtain ⟨q, hq, hnow, hfired, hsub⟩ := hab.on p hp
  exact ⟨q, hq, hnow, hfired, fun t ht => hdue t (hsub t ht)⟩

theorem Walking.skip (h : Walking now k fired a) (hs : PoolHolds s a) (hk : k < a.cap)
    (hnot : timerDue s.pool now k = none) : Walking now (k + 1) fired a := by
  obtain ⟨p, hp, rfl, rfl, hdue⟩ := h.pass
  refine ⟨p, hp, rfl, rfl, fun t ht => Nat.lt_of_le_of_ne (hdue t ht) ?_⟩
  rintro rfl
  obtain ⟨hmem, hle⟩ := a.late p hp t ht
  have hslot := hs.slot_of_mem hmem
  have hfound : timerDue s.pool p.now t.index = some (slotOf t) := by
    rw [timerDue, if_pos (hs.cap ▸ hk), hslot]
    exact if_pos hle
  rw [hfound] at hnot
  cases hnot

theorem Walking.fire (h : Walking now k fired a) (hs : Follows cap s a)
    {e : TimerEntry (κ × Nat)} (he : timerDue s.pool now k = some e) :
    Follows cap (s.fire now k e) (a.drop k 1) ∧ Walking now (k + 1) (fired + 1) (a.drop k 1) := by
  obtain ⟨p, hp, rfl, rfl, hdue⟩ := h.pass
  obtain ⟨hk, hslot⟩ := timerDue_some he
  have hmem : timerAt k e ∈ a.pending := (hs.holds.slot k (hs.holds.cap ▸ hk) e).mp hslot
  have hle : e.expiry ≤ p.now := by
    unfold timerDue at he
    rw [if_pos hk, hslot] at he
    by_contra hlt
    simp [hlt] at he
  refine ⟨⟨.cons hs.trace (.fire a p (timerAt k e) hp hmem hle), hs.holds.drop k 1 rfl rfl⟩, ?_⟩
  refine ⟨_, congrArg (Option.map _) hp, rfl, rfl, fun t ht => ?_⟩
  obtain ⟨hin, hne⟩ := mem_besides.mp ht
  exact Nat.lt_of_le_of_ne (hdue t hin) (Ne.symm hne)

/-- **The walk**: it visits every slot once, and in the end nothing is due any more. -/
theorem timerCheckLoop_follows (body : κ → μ → Prog κ μ) (hs : Follows cap s a)
    (h : Walking now k fired a) (hcap : k + left = a.cap) :
    ∃ b p, Follows cap (timerCheckLoop body now left k fired s).1 b ∧ b.pass = some p ∧
      p.fired = (timerCheckLoop body now left k fired s).2 ∧ p.due = [] := by
  induction left generalizing k fired s a with
  | zero =>
      obtain ⟨p, hp, _, hfired, hdue⟩ := h.pass
      refine ⟨a, p, hs, hp, hfired, List.eq_nil_iff_forall_not_mem.mpr fun t ht => ?_⟩
      have := a.inside t (a.late p hp t ht).1
      have := hdue t ht
      omega
  | succ left ih =>
      rw [timerCheckLoop]
      cases he : timerDue s.pool now k with
      | none => exact ih hs (h.skip hs.holds (by omega) he) (by omega)
      | some e =>
          obtain ⟨hfire, hwalk⟩ := h.fire hs he
          obtain ⟨b, hb, hon⟩ := hfire.prog (body e.callback.1 s.mem)
          have hsame : b.cap = a.cap := hb.trace.cap.trans hs.trace.cap.symm
          exact ih hb (hwalk.on hon) (by omega)

theorem Follows.check (body : κ → μ → Prog κ μ) (now : Tick) (hs : Follows cap s a)
    (hoff : a.pass = none) : ∃ b, Follows cap (timerCheck body now s) b ∧ b.pass = none := by
  have hbegin : Follows cap { s with log := .begun now :: s.log } (a.begin now) :=
    ⟨.cons hs.trace (.begin a now hoff), ⟨hs.holds.cap, hs.holds.next, hs.holds.slot⟩⟩
  have hwalk : Walking now 0 0 (a.begin now) :=
    ⟨⟨_, rfl, rfl, rfl, fun t _ => Nat.zero_le t.index⟩⟩
  obtain ⟨b, p, hb, hp, hfired, hdue⟩ := timerCheckLoop_follows body hbegin hwalk
    ((Nat.zero_add _).trans hs.holds.cap)
  refine ⟨b.close, ⟨?_, ⟨hb.holds.cap, hb.holds.next, hb.holds.slot⟩⟩, rfl⟩
  have hclose := Step.close b p hp hdue
  rw [hfired] at hclose
  exact .cons hb.trace hclose

end

/-! ## Whole runs -/

theorem Follows.init (cap : PoolCap) (mem : μ) :
    Follows cap (TimerSys.init (κ := κ) cap mem) (State.empty Tick κ cap) :=
  ⟨.nil, ⟨rfl, rfl, fun k _ e => by simp [TimerSys.init, timerPoolInit, State.empty]⟩⟩

/-- `timer_set` returns no index exactly if `cap` timers are pending. -/
theorem PoolHolds.set_none {s : TimerSys κ μ} {a : State Tick κ} (h : PoolHolds s a) (x : Tick)
    (cb : κ) : (s.set x cb).2 = none ↔ a.pending.length = a.cap := by
  rw [← h.full_iff]
  obtain ⟨k, hk, hslot, heq⟩ | ⟨hfull, heq⟩ := timerSet_cases s.pool x (cb, s.next)
  · rw [TimerSys.set, heq]
    constructor
    · intro hno
      cases hno
    · intro hall
      exact absurd hslot (hall k hk)
  · rw [TimerSys.set, heq]
    exact iff_of_true rfl hfull

/-- **The pool is a bounded set of pending timers**: in every run from `timer_pool_init`, with
callbacks that set and cancel timers of the pool. -/
theorem timer_pool_refines (body : κ → μ → Prog κ μ) (cap : PoolCap) (mem : μ) {s : TimerSys κ μ}
    (h : Run (timerStep body) anyEvent (TimerSys.init cap mem) s) :
    ∃ a : State Tick κ, Trace (State.empty Tick κ cap) s.log a ∧ PoolHolds s a ∧ a.pass = none ∧
      (∀ x cb, (s.set x cb).2 = none ↔ a.pending.length = cap) ∧ Lawful s.log := by
  have hinv : ∃ a, Follows cap s a ∧ a.pass = none := by
    refine h.invariant (P := fun s => ∃ a, Follows cap s a ∧ a.pass = none)
      ⟨_, Follows.init cap mem, rfl⟩ ?_
    rintro t u (code | now) ⟨a, ha, hoff⟩ _ hstep
    · cases hstep
      obtain ⟨b, hb, hon⟩ := ha.prog (code t.mem)
      exact ⟨b, hb, hon.off hoff⟩
    · cases hstep
      exact ha.check body now hoff
  obtain ⟨a, ha, hoff⟩ := hinv
  refine ⟨a, ha.trace, ha.holds, hoff, fun x cb => ?_, ha.trace.lawful⟩
  rw [show cap = a.cap from ha.trace.cap.symm]
  exact ha.holds.set_none x cb

/-- A callback that re-arms itself ten ticks on and then cancels timer 1, and one that does
nothing. -/
def demoBody : Bool → Unit → Prog Bool Unit
  | true, _ => .set 20 true fun _ => .cancel 1 (.done ())
  | false, _ => .done ()

/-- Three timers for a pool of two, and a check when both are due. -/
def demoOps : List (TimerOp Bool Unit) :=
  [.run fun _ => .set 10 true fun _ => .set 10 false fun _ => .set 10 false fun _ => .done (),
    .check 10]

theorem timer_pool_refines_demo :
    ∃ s, Run (timerStep demoBody) anyEvent (TimerSys.init 2 ()) s ∧
      s.log = [.closed 1, .cancelled 1 (some ⟨1, 1, 10, false⟩), .armed ⟨2, 0, 20, true⟩,
        .fired ⟨0, 0, 10, true⟩ 10, .begun 10, .refused, .armed ⟨1, 1, 10, false⟩,
        .armed ⟨0, 0, 10, true⟩] ∧
      ∃ a : State Tick Bool, Trace (State.empty Tick Bool 2) s.log a ∧ PoolHolds s a ∧
        a.pass = none ∧ (∀ x cb, (s.set x cb).2 = none ↔ a.pending.length = 2) ∧ Lawful s.log := by
  obtain ⟨s, hrun, hlog⟩ := exists_run (timerStep demoBody) anyEvent (TimerSys.init 2 ())
    (Q := fun s => s.log = [.closed 1, .cancelled 1 (some ⟨1, 1, 10, false⟩),
      .armed ⟨2, 0, 20, true⟩, .fired ⟨0, 0, 10, true⟩ 10, .begun 10, .refused,
      .armed ⟨1, 1, 10, false⟩, .armed ⟨0, 0, 10, true⟩])
    demoOps (feedOk_any demoOps _) ⟨_, rfl, rfl⟩
  exact ⟨s, hrun, hlog, timer_pool_refines demoBody 2 () hrun⟩

end WsPi5

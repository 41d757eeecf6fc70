/-
# `WsPi5.TimerCalls` — what a piece of code does to a timer pool, call by call

`PoolCalls p cs p'` says that the pool went from `p` to `p'` by calls of `timer_set` and of
`timer_cancel`, the latter being those of the list `cs`, in this order.  A call of
`timer_cancel` is recorded with its caller, the index it was given and the pool it found.

**Proved here.**  `timer_set` takes free slots only, so an entry leaves the pool only through
one of the recorded calls (`PoolCalls.lost`).  If these calls are safe, each hits an entry of its
caller or none, then the entries of everybody else stay (`PoolCalls.keeps`).

Who the users of a pool are, and which callbacks are whose, are parameters.
-/
import WsPi5.TimerPool

namespace WsPi5

variable {κ ω ω' : Type}

/-- A call of `timer_cancel`: the caller, the index, and the pool it finds. -/
structure CancelCall (ω κ : Type) where
  owner : ω
  index : Nat
  pool : TimerPool κ

def CancelCall.hits (c : CancelCall ω κ) : Option (TimerEntry κ) :=
  if c.index < c.pool.cap then c.pool.slot c.index else none

/-- The entry, if there is one, is the caller's. -/
def CancelCall.Safe (names : ω → κ → Prop) (c : CancelCall ω κ) : Prop :=
  ∀ e, c.hits = some e → names c.owner e.callback

/-- A call, with its caller as one of a larger set. -/
def CancelCall.mapOwner (g : ω → ω') (c : CancelCall ω κ) : CancelCall ω' κ :=
  ⟨g c.owner, c.index, c.pool⟩

/-- From `p` to `p'` by arming, and by the calls `cs` of `timer_cancel`. -/
inductive PoolCalls (p : TimerPool κ) : List (CancelCall ω κ) → TimerPool κ → Prop where
  | refl : PoolCalls p [] p
  | set {cs : List (CancelCall ω κ)} {q : TimerPool κ} (h : PoolCalls p cs q) (x : Tick) (cb : κ) :
      PoolCalls p cs (timerSet q x cb).1
  | cancel {cs : List (CancelCall ω κ)} {q : TimerPool κ} (h : PoolCalls p cs q) (o : ω) (k : Nat) :
      PoolCalls p (cs ++ [⟨o, k, q⟩]) (timerCancel q k)

/-! ## One call -/

theorem timerSet_keeps {p : TimerPool κ} {k : Nat} {e : TimerEntry κ} (h : p.slot k = some e)
    (x : Tick) (cb : κ) : (timerSet p x cb).1.slot k = some e := by
  obtain ⟨i, _, hfree, heq⟩ | ⟨_, heq⟩ := timerSet_cases p x cb
  · rw [heq]
    have hki : k ≠ i := by
      rintro rfl
      rw [hfree] at h
      cases h
    simpa [hki] using h
  · rw [heq]
    exact h

theorem timerCancel_keeps {p : TimerPool κ} {k i : Nat} {e : TimerEntry κ} (h : p.slot k = some e)
    (hki : k ≠ i) : (timerCancel p i).slot k = some e := by
  unfold timerCancel
  split
  · simpa [hki] using h
  · exact h

theorem CancelCall.hits_of_cap {c : CancelCall ω κ} (h : c.index < c.pool.cap) :
    c.hits = c.pool.slot c.index := if_pos h

theorem CancelCall.Safe.mapOwner {names : ω → κ → Prop} {names' : ω' → κ → Prop} {g : ω → ω'}
    {c : CancelCall ω κ} (h : c.Safe names) (hg : ∀ o cb, names o cb → names' (g o) cb) :
    (c.mapOwner g).Safe names' := by
  intro e hhit
  exact hg c.owner e.callback (h e hhit)

/-! ## Many calls -/

section
variable {p q r : TimerPool κ} {cs cs' : List (CancelCall ω κ)}

theorem PoolCalls.trans (h : PoolCalls p cs q) (h' : PoolCalls q cs' r) :
    PoolCalls p (cs ++ cs') r := by
  induction h' with
  | refl =>
      rw [List.append_nil]
      exact h
  | set _ x cb ih => exact ih.set x cb
  | cancel _ o k ih =>
      rw [← List.append_assoc]
      exact ih.cancel o k

theorem PoolCalls.mapOwner (h : PoolCalls p cs q) (g : ω → ω') :
    PoolCalls p (cs.map (CancelCall.mapOwner g)) q := by
  induction h with
  | refl => exact .refl
  | set _ x cb ih => exact ih.set x cb
  | cancel _ o k ih =>
      rw [List.map_append]
      exact ih.cancel (g o) k

theorem PoolCalls.cap (h : PoolCalls p cs q) : q.cap = p.cap := by
  induction h with
  | refl => rfl
  | set _ x cb ih => rw [timerSet_cap, ih]
  | cancel _ o k ih => rw [timerCancel_cap, ih]

/-- **An entry leaves the pool only through a call that hits it.** -/
theorem PoolCalls.lost (h : PoolCalls p cs q) {k : Nat} {e : TimerEntry κ} (hcap : k < p.cap)
    (hk : p.slot k = some e) : q.slot k = some e ∨ ∃ c ∈ cs, c.index = k ∧ c.hits = some e := by
  induction h with
  | refl => exact .inl hk
  | set _ x cb ih =>
      rcases ih with ih | ih
      · exact .inl (timerSet_keeps ih x cb)
      · exact .inr ih
  | @cancel cs q h o i ih =>
      rcases ih with ih | ⟨c, hc, hhit⟩
      · by_cases hki : k = i
        · subst hki
          refine .inr ⟨⟨o, k, q⟩, by simp, rfl, ?_⟩
          rw [CancelCall.hits_of_cap (h.cap ▸ hcap)]
          exact ih
        · exact .inl (timerCancel_keeps ih hki)
      · exact .inr ⟨c, List.mem_append_left _ hc, hhit⟩

/-- **The frame rule**: safe calls leave the entries of others. -/
theorem PoolCalls.keeps {names : ω → κ → Prop} (h : PoolCalls p cs q)
    (hsafe : ∀ c ∈ cs, c.Safe names) {k : Nat} {e : TimerEntry κ} (hcap : k < p.cap)
    (hk : p.slot k = some e) (hother : ∀ c ∈ cs, ¬ names c.owner e.callback) :
    q.slot k = some e := by
  rcases h.lost hcap hk with hq | ⟨c, hc, _, hhit⟩
  · exact hq
  · exact absurd (hsafe c hc e hhit) (hother c hc)

theorem PoolCalls.keeps_all (h : @PoolCalls κ ω p [] q) {k : Nat}
    {e : TimerEntry κ} (hcap : k < p.cap) (hk : p.slot k = some e) : q.slot k = some e := by
  rcases h.lost hcap hk with hq | ⟨c, hc, _⟩
  · exact hq
  · cases hc

end

end WsPi5

/-
# `WsPi5.TimerPool` — the timer pool of `lib/timer_pool.S`

A pool has a fixed number of slots.  A slot is free (its callback word is zero) or holds an
expiry tick and a callback with its context.  `timer_set` takes the first free slot and
returns its index, or `-1` if there is none; `timer_cancel` frees a slot by index.  Which
callbacks there are is a parameter: the pool is shared by TCP, IP reassembly and DHCP.

`timer_check` visits the slots in order and frees each expired one *before* it calls the
callback, so that the callback may arm again.  One such visit is `timerDue`; what the
callback does is the owner's business and is added in `WsPi5.Tcp.Step`.
-/
import Mathlib.Logic.Function.Basic
import Mathlib.Data.List.Basic
import Mathlib.Algebra.GroupWithZero.Nat

namespace WsPi5

/-- A counter value (`CNTPCT_EL0`, u64). -/
abbrev Tick := BitVec 64

/-- An active slot: expiry and callback (the callback carries its context). -/
structure TimerEntry (κ : Type) where
  expiry : Tick
  callback : κ
  deriving DecidableEq, Repr

/-- A number of slots.  `timer_set` and `timer_check` compare it as a signed word. -/
abbrev PoolCap := Fin (2 ^ 31)

instance (priority := high) poolCap_neZero : NeZero (2 ^ 31) := ⟨by decide⟩

/-- `TPOOL_CAP` and the slot array; `none` is a slot whose callback word is 0. -/
structure TimerPool (κ : Type) where
  cap : Nat
  cap_lt : cap < 2 ^ 31
  slot : Nat → Option (TimerEntry κ)

variable {κ : Type}

/-- `TPOOL_DEFAULT_CAP`, with which `main.S` sets the pool up. -/
def tpoolDefaultCap : PoolCap := 16

/-- `timer_pool_init`: `cap` free slots. -/
def timerPoolInit (κ : Type) (cap : PoolCap) : TimerPool κ :=
  ⟨cap, cap.isLt, fun _ => none⟩

/-- The scan of `timer_set`: the first free slot, by index. -/
def TimerPool.firstFree (p : TimerPool κ) : Option Nat :=
  (List.range p.cap).find? fun k => (p.slot k).isNone

/-- `timer_set`: arm in the first free slot; the index, or `none` for `-1`. -/
def timerSet (p : TimerPool κ) (expiry : Tick) (callback : κ) : TimerPool κ × Option Nat :=
  match p.firstFree with
  | some k => ({ p with slot := Function.update p.slot k (some ⟨expiry, callback⟩) }, some k)
  | none => (p, none)

/-- `timer_cancel`: free slot `k`, if there is a slot `k`. -/
def timerCancel (p : TimerPool κ) (k : Nat) : TimerPool κ :=
  if k < p.cap then { p with slot := Function.update p.slot k none } else p

/-- The test of one visit of `timer_check`: the entry of slot `k`, if it is to be fired. -/
def timerDue (p : TimerPool κ) (now : Tick) (k : Nat) : Option (TimerEntry κ) :=
  if k < p.cap then
    match p.slot k with
    | some e => if e.expiry ≤ now then some e else none
    | none => none
  else none

/-! ## What one operation does to the pool -/

theorem firstFree_some {p : TimerPool κ} {k : Nat} (h : p.firstFree = some k) :
    k < p.cap ∧ p.slot k = none := by
  have hmem : k ∈ List.range p.cap := List.mem_of_find?_eq_some h
  have hnone : (p.slot k).isNone = true := List.find?_some (p := fun k => (p.slot k).isNone) h
  exact ⟨List.mem_range.mp hmem, Option.isNone_iff_eq_none.mp hnone⟩

theorem firstFree_none {p : TimerPool κ} (h : p.firstFree = none) :
    ∀ k, k < p.cap → p.slot k ≠ none := by
  intro k hk hfree
  have := List.find?_eq_none.mp h k (List.mem_range.mpr hk)
  simp [hfree] at this

/-- **What `timer_set` does**: it fills a free slot and returns it, or the pool is full and
nothing changes. -/
theorem timerSet_cases (p : TimerPool κ) (x : Tick) (cb : κ) :
    (∃ k, k < p.cap ∧ p.slot k = none ∧ timerSet p x cb
        = ({ p with slot := Function.update p.slot k (some ⟨x, cb⟩) }, some k)) ∨
    ((∀ k, k < p.cap → p.slot k ≠ none) ∧ timerSet p x cb = (p, none)) := by
  cases hf : p.firstFree with
  | some k =>
      obtain ⟨hk, hnone⟩ := firstFree_some hf
      exact Or.inl ⟨k, hk, hnone, by simp [timerSet, hf]⟩
  | none => exact Or.inr ⟨firstFree_none hf, by simp [timerSet, hf]⟩

@[simp] theorem timerSet_cap (p : TimerPool κ) (x : Tick) (cb : κ) :
    (timerSet p x cb).1.cap = p.cap := by
  unfold timerSet
  split <;> rfl

@[simp] theorem timerCancel_cap (p : TimerPool κ) (k : Nat) :
    (timerCancel p k).cap = p.cap := by
  unfold timerCancel
  split <;> rfl

theorem timerCancel_self {p : TimerPool κ} {k : Nat} (hk : k < p.cap) :
    (timerCancel p k).slot k = none := by
  simp [timerCancel, hk]

theorem timerDue_some {p : TimerPool κ} {now : Tick} {k : Nat} {e : TimerEntry κ}
    (h : timerDue p now k = some e) : k < p.cap ∧ p.slot k = some e := by
  unfold timerDue at h
  split at h
  · rename_i hk
    split at h
    · rename_i e' he
      split at h
      · cases h
        exact ⟨hk, he⟩
      · cases h
    · cases h
  · cases h

theorem timerDue_le {p : TimerPool κ} {now : Tick} {k : Nat} {e : TimerEntry κ}
    (h : timerDue p now k = some e) : e.expiry ≤ now := by
  obtain ⟨hk, he⟩ := timerDue_some h
  simp only [timerDue, hk, if_true, he] at h
  split at h
  · cases h
    assumption
  · cases h

/-! ## The free slots -/

/-- The free slots, in the order in which `timer_set` takes them. -/
def TimerPool.free (p : TimerPool κ) : List Nat :=
  (List.range p.cap).filter fun k => (p.slot k).isNone

theorem mem_free {p : TimerPool κ} {k : Nat} : k ∈ p.free ↔ k < p.cap ∧ p.slot k = none := by
  rw [TimerPool.free, List.mem_filter, List.mem_range, Option.isNone_iff_eq_none]

theorem free_sorted (p : TimerPool κ) : p.free.Pairwise (· < ·) := List.pairwise_lt_range.filter _

/-- **`timer_set` takes the first free slot** and leaves the others. -/
theorem timerSet_free {p : TimerPool κ} {k : Nat} {ks : List Nat} (h : p.free = k :: ks) (x : Tick)
    (cb : κ) :
    timerSet p x cb = ({ p with slot := Function.update p.slot k (some ⟨x, cb⟩) }, some k) ∧
      (timerSet p x cb).1.free = ks := by
  have hfirst : p.firstFree = some k := by
    rw [TimerPool.firstFree, ← List.head?_filter]
    exact congrArg List.head? h
  have hset : timerSet p x cb
      = ({ p with slot := Function.update p.slot k (some ⟨x, cb⟩) }, some k) := by
    rw [timerSet, hfirst]
  refine ⟨hset, ?_⟩
  have hrest : (timerSet p x cb).1.free = p.free.filter fun j => j ≠ k := by
    rw [hset, TimerPool.free, TimerPool.free, List.filter_filter]
    refine List.filter_congr fun j _ => ?_
    by_cases hjk : j = k
    · subst hjk
      simp
    · simp [hjk]
  have hsorted := free_sorted p
  rw [h, List.pairwise_cons] at hsorted
  have hne : ∀ j ∈ ks, decide (j ≠ k) = true := fun j hj =>
    decide_eq_true (Nat.ne_of_gt (hsorted.1 j hj))
  rw [hrest, h, List.filter_cons_of_neg (by simp), List.filter_eq_self.mpr hne]

/-! ## What a user of the pool may leave behind -/

/-- From `p` to `p'` entries were freed, and filled with callbacks of `A` only. -/
structure Arms (A : κ → Prop) (p p' : TimerPool κ) : Prop where
  cap : p'.cap = p.cap
  slot : ∀ k e, p'.slot k = some e → p.slot k = some e ∨ A e.callback

section
variable {A : κ → Prop} {p p' : TimerPool κ}

theorem Arms.refl (A : κ → Prop) (p : TimerPool κ) : Arms A p p := ⟨rfl, fun _ _ => .inl⟩

theorem Arms.trans {r : TimerPool κ} (h : Arms A p p') (h' : Arms A p' r) : Arms A p r := by
  refine ⟨h'.cap.trans h.cap, ?_⟩
  intro k e he
  rcases h'.slot k e he with hold | hnew
  · exact h.slot k e hold
  · exact .inr hnew

theorem Arms.update (h : Arms A p p') {k : Nat} {e : Option (TimerEntry κ)}
    (he : ∀ x, e = some x → A x.callback) :
    Arms A p { p' with slot := Function.update p'.slot k e } where
  cap := h.cap
  slot := by
    intro k' x hx
    by_cases hk : k' = k
    · subst hk
      exact .inr (he x (by simpa using hx))
    · exact h.slot k' x (by simpa [hk] using hx)

theorem Arms.free (h : Arms A p p') (k : Nat) :
    Arms A p { p' with slot := Function.update p'.slot k none } :=
  h.update (by simp)

theorem Arms.set (h : Arms A p p') (x : Tick) {cb : κ} (hcb : A cb) :
    Arms A p (timerSet p' x cb).1 := by
  obtain ⟨k, _, _, heq⟩ | ⟨_, heq⟩ := timerSet_cases p' x cb
  · rw [heq]
    refine h.update fun y hy => ?_
    cases hy
    exact hcb
  · rw [heq]
    exact h

theorem Arms.cancel (h : Arms A p p') (k : Nat) : Arms A p (timerCancel p' k) := by
  unfold timerCancel
  split
  · exact h.free k
  · exact h

theorem Arms.old (h : Arms A p p') {k : Nat} {e : TimerEntry κ} (he : ¬ A e.callback)
    (hk : p'.slot k = some e) : p.slot k = some e :=
  (h.slot k e hk).resolve_right he

end

end WsPi5

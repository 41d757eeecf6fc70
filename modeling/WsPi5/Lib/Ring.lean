/-
# `Lib.Ring` — a ring of a fixed size, written at its head, and a queue in one

A ring of size `N` is a function from offsets to cells of which only the offsets below `N`
are used.  `ringWrite N buf h xs` stores `xs` one cell after the other from offset `h` on,
each offset taken modulo `N`, as a copy loop with a masked index does.

**Proved here**, for `0 < N`:

    a cell of the block just written holds its byte, if the block fits   (`ringWrite_get`)
    a cell at most `N` behind the end of the block, and not in it, is kept (`ringWrite_keep`)

Both are stated for cells named as `(t + k) % N`, the way a reader of the ring names them.

**The queue** is a ring whose size is a power of two, with two indices, `head` and `tail`, each moved
by one and masked; head = tail means empty, so one slot of the ring stays unused.

    push x    stores at the tail, refused if the tail would meet the head
    pop       takes from the head, nothing if head = tail

A ring of `2 ^ k` slots holds the list `xs` (`Holds`), oldest first, if `xs` is what a walk from the
head finds and the tail stands behind it.  A ring holds one list only, and it can be computed
(`contents`).
-/
import Mathlib.Logic.Function.Basic
import Mathlib.Algebra.GroupWithZero.Nat

namespace Lib

section
variable {α : Type}

theorem eq_of_mod_eq {N a b : Nat} (h : a % N = b % N) (hab : a ≤ b) (hlt : b < a + N) :
    a = b := by
  have hmod : (b - a) % N = 0 := Nat.sub_mod_eq_zero_of_mod_eq h.symm
  have hzero : b - a = 0 := by
    rw [Nat.mod_eq_of_lt (by omega)] at hmod
    exact hmod
  omega

/-- Store `xs` in the ring of size `N`, from offset `h` on. -/
def ringWrite (N : Nat) : (Nat → α) → Nat → List α → Nat → α
  | buf, _, [] => buf
  | buf, h, x :: xs => ringWrite N (Function.update buf (h % N) x) (h + 1) xs

theorem ringWrite_of_ne {N : Nat} : ∀ (xs : List α) {buf : Nat → α} {h j : Nat},
    (∀ k, k < xs.length → (h + k) % N ≠ j) → ringWrite N buf h xs j = buf j
  | [], _, _, _, _ => rfl
  | x :: xs, buf, h, j, hne => by
      have hhead : h % N ≠ j := hne 0 (by simp)
      have htail : ∀ k, k < xs.length → (h + 1 + k) % N ≠ j := by
        intro k hk
        have := hne (k + 1) (by simpa using hk)
        rwa [Nat.add_assoc, Nat.add_comm 1 k]
      rw [ringWrite, ringWrite_of_ne xs htail, Function.update_of_ne hhead.symm]

theorem ringWrite_get {N : Nat} : ∀ (xs : List α) {buf : Nat → α} {h k : Nat}
    (hk : k < xs.length), xs.length ≤ N →
    ringWrite N buf h xs ((h + k) % N) = xs[k]
  | x :: xs, buf, h, 0, _, hN => by
      have hkeep : ∀ k, k < xs.length → (h + 1 + k) % N ≠ (h + 0) % N := by
        intro k hk heq
        have hlen : xs.length + 1 ≤ N := hN
        have := eq_of_mod_eq heq.symm (by omega) (by omega)
        omega
      rw [ringWrite, ringWrite_of_ne xs hkeep]
      simp
  | x :: xs, buf, h, k + 1, hk, hN => by
      have hk' : k < xs.length := by simpa using hk
      have hlen : xs.length ≤ N := Nat.le_of_succ_le hN
      have hrest : ringWrite N (Function.update buf (h % N) x) (h + 1) xs ((h + 1 + k) % N)
          = xs[k] := ringWrite_get xs hk' hlen
      rw [ringWrite, show h + (k + 1) = h + 1 + k by omega, hrest]
      rfl

theorem ringWrite_keep {N t used k : Nat} (xs : List α) {buf : Nat → α} {h : Nat}
    (hh : h % N = (t + used) % N) (hk : k < used) (hfit : used + xs.length ≤ N) :
    ringWrite N buf h xs ((t + k) % N) = buf ((t + k) % N) := by
  apply ringWrite_of_ne
  intro m hm heq
  have hshift : (h + m) % N = (t + used + m) % N := by
    rw [Nat.add_mod, hh, ← Nat.add_mod]
  have := eq_of_mod_eq (heq.symm.trans hshift) (by omega) (by omega)
  omega

theorem ringWrite_new {N t used k : Nat} (xs : List α) {buf : Nat → α} {h : Nat}
    (hh : h % N = (t + used) % N) (hk : k < xs.length) (hfit : used + xs.length ≤ N) :
    ringWrite N buf h xs ((t + (used + k)) % N) = xs[k] := by
  have hname : (t + (used + k)) % N = (h + k) % N := by
    rw [← Nat.add_assoc, Nat.add_mod, ← hh, ← Nat.add_mod]
  rw [hname, ringWrite_get xs hk (by omega)]

end

/-! ## A queue -/

/-- Slots, and the two indices. -/
structure RingQueue (α : Type) where
  slots : Nat → α
  head : Nat
  tail : Nat
  mask : Nat

namespace RingQueue

variable {α : Type} {q q' : RingQueue α} {k : Nat} {x : α} {xs : List α}

/-- Store at the tail, unless it would meet the head. -/
def push (q : RingQueue α) (x : α) : Option (RingQueue α) :=
  let next := (q.tail + 1) &&& q.mask
  if next = q.head then none
  else some { q with slots := Function.update q.slots q.tail x, tail := next }

def pop (q : RingQueue α) : Option (α × RingQueue α) :=
  if q.head = q.tail then none
  else some (q.slots q.head, { q with head := (q.head + 1) &&& q.mask })

/-- What a walk from the head to the tail finds. -/
def contents (q : RingQueue α) : List α :=
  (List.range ((q.tail + (q.mask + 1) - q.head) % (q.mask + 1))).map fun j =>
    q.slots ((q.head + j) % (q.mask + 1))

/-- The ring of `2 ^ k` slots holds `xs`, oldest first. -/
structure Holds (q : RingQueue α) (k : Nat) (xs : List α) : Prop where
  mask : q.mask + 1 = 2 ^ k
  head : q.head < 2 ^ k
  tail : q.tail = (q.head + xs.length) % 2 ^ k
  room : xs.length < 2 ^ k
  cell : ∀ j (h : j < xs.length), q.slots ((q.head + j) % 2 ^ k) = xs[j]

theorem Holds.masked (h : q.Holds k xs) (n : Nat) : n &&& q.mask = n % 2 ^ k := by
  have hmask : q.mask = 2 ^ k - 1 := by
    rw [← h.mask]
    rfl
  rw [hmask, Nat.and_two_pow_sub_one_eq_mod]

theorem Holds.distance (h : q.Holds k xs) : (q.tail + 2 ^ k - q.head) % 2 ^ k = xs.length := by
  have hhead := h.head
  have hroom := h.room
  have htail := h.tail
  by_cases hwrap : q.head + xs.length < 2 ^ k
  · rw [Nat.mod_eq_of_lt hwrap] at htail
    rw [show q.tail + 2 ^ k - q.head = xs.length + 2 ^ k by omega, Nat.add_mod_right,
      Nat.mod_eq_of_lt hroom]
  · rw [Nat.mod_eq_sub_mod (by omega), Nat.mod_eq_of_lt (by omega)] at htail
    rw [show q.tail + 2 ^ k - q.head = xs.length by omega, Nat.mod_eq_of_lt hroom]

theorem Holds.contents (h : q.Holds k xs) : q.contents = xs := by
  unfold RingQueue.contents
  rw [h.mask, h.distance]
  refine List.ext_getElem (by simp) fun j h₁ h₂ => ?_
  rw [List.getElem_map, List.getElem_range]
  exact h.cell j h₂

theorem Holds.empty_iff (h : q.Holds k xs) : q.head = q.tail ↔ xs = [] := by
  have htail := h.tail
  constructor
  · intro heq
    have hmod : q.head % 2 ^ k = (q.head + xs.length) % 2 ^ k := by
      rw [Nat.mod_eq_of_lt h.head, ← htail]
      exact heq
    have hlen := eq_of_mod_eq hmod (Nat.le_add_right _ _) (Nat.add_lt_add_left h.room _)
    exact List.length_eq_zero_iff.mp (by omega)
  · rintro rfl
    rw [htail, List.length_nil, Nat.add_zero, Nat.mod_eq_of_lt h.head]

theorem Holds.front (h : q.Holds k (x :: xs)) : q.slots q.head = x := by
  have hcell := h.cell 0 (by simp)
  rwa [Nat.add_zero, Nat.mod_eq_of_lt h.head] at hcell

/-- **Push** finds room while two slots are free. -/
theorem Holds.push (h : q.Holds k xs) (x : α) (hroom : xs.length + 1 < 2 ^ k) :
    ∃ q', q.push x = some q' ∧ q'.Holds k (xs ++ [x]) := by
  have htail := h.tail
  have hnext : (q.tail + 1) % 2 ^ k = (q.head + (xs.length + 1)) % 2 ^ k := by
    rw [htail, Nat.mod_add_mod, Nat.add_assoc]
  have hfree : (q.tail + 1) % 2 ^ k ≠ q.head := by
    intro heq
    rw [hnext] at heq
    have hmod : q.head % 2 ^ k = (q.head + (xs.length + 1)) % 2 ^ k := by
      rw [heq, Nat.mod_eq_of_lt h.head]
    have := eq_of_mod_eq hmod (Nat.le_add_right _ _) (Nat.add_lt_add_left hroom _)
    omega
  refine ⟨{ q with slots := Function.update q.slots q.tail x, tail := (q.tail + 1) % 2 ^ k },
    ?_, h.mask, h.head, ?_, ?_, ?_⟩
  · unfold RingQueue.push
    dsimp only
    rw [h.masked, if_neg hfree]
  · rw [List.length_append, List.length_singleton]
    exact hnext
  · rw [List.length_append, List.length_singleton]
    exact hroom
  · intro j hj
    rw [List.length_append, List.length_singleton] at hj
    by_cases hlast : j = xs.length
    · subst hlast
      rw [List.getElem_append_right (Nat.le_refl _)]
      dsimp only
      rw [← htail, Function.update_self]
      simp
    · have hold : j < xs.length := by omega
      have hother : (q.head + j) % 2 ^ k ≠ q.tail := by
        rw [htail]
        intro heq
        have := eq_of_mod_eq heq (by omega) (by omega)
        omega
      rw [List.getElem_append_left hold]
      dsimp only
      rw [Function.update_of_ne hother]
      exact h.cell j hold

/-- **Push** is refused if one slot is free. -/
theorem Holds.push_full (h : q.Holds k xs) (x : α) (hfull : xs.length + 1 = 2 ^ k) :
    q.push x = none := by
  have hnext : (q.tail + 1) % 2 ^ k = q.head := by
    rw [h.tail, Nat.mod_add_mod, Nat.add_assoc, hfull, Nat.add_mod_right, Nat.mod_eq_of_lt h.head]
  unfold RingQueue.push
  dsimp only
  rw [h.masked, if_pos hnext]

/-- **Pop** takes the oldest entry. -/
theorem Holds.pop (h : q.Holds k (x :: xs)) :
    ∃ q', q.pop = some (x, q') ∧ q'.Holds k xs := by
  have hne : q.head ≠ q.tail := fun heq => by
    cases h.empty_iff.mp heq
  have hroom : xs.length + 1 < 2 ^ k := h.room
  refine ⟨{ q with head := (q.head + 1) % 2 ^ k }, ?_, h.mask,
    Nat.mod_lt _ (Nat.two_pow_pos k), ?_, by omega, ?_⟩
  · unfold RingQueue.pop
    rw [if_neg hne, h.front, h.masked]
  · show q.tail = ((q.head + 1) % 2 ^ k + xs.length) % 2 ^ k
    rw [h.tail, List.length_cons, Nat.mod_add_mod, Nat.add_assoc, Nat.add_comm 1]
  · intro j hj
    show q.slots (((q.head + 1) % 2 ^ k + j) % 2 ^ k) = xs[j]
    rw [Nat.mod_add_mod, Nat.add_assoc, Nat.add_comm 1]
    exact h.cell (j + 1) (by simpa using hj)

theorem Holds.pop_nil (h : q.Holds k ([] : List α)) : q.pop = none := by
  unfold RingQueue.pop
  rw [if_pos (h.empty_iff.mpr rfl)]

end RingQueue

end Lib

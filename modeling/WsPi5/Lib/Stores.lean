/-
# `Lib.Stores` — reading what a list of stores has left

A frame is built by stores of fields at known offsets.  `lastAt ws a n` looks through the stores,
the last one first, for the one that decides the `n` cells from offset `a` on.

    none                  a store reaches into the block from outside
    some none             no store touches it
    some (some xs)        it stands inside the block of a store, and is `xs` there

Offsets and lengths are literals as a rule, so that `lastAt` is computed (`slice_stored rfl`,
`slice_unstored rfl`).
-/
import WsPi5.Lib.Mem

namespace Lib

variable {α : Type}

def lastAt : List (Nat × List α) → Nat → Nat → Option (Option (List α))
  | [], _, _ => some none
  | w :: ws, a, n =>
      match lastAt ws a n with
      | some none =>
          if a + n ≤ w.1 ∨ w.1 + w.2.length ≤ a then some none
          else if w.1 ≤ a ∧ a + n ≤ w.1 + w.2.length then some (some ((w.2.drop (a - w.1)).take n))
          else none
      | found => found

theorem slice_memWrite_within (buf : Nat → α) {off a n : Nat} {xs : List α} (hlo : off ≤ a)
    (hhi : a + n ≤ off + xs.length) :
    slice (memWrite buf off xs) a n = (xs.drop (a - off)).take n := by
  obtain ⟨d, rfl⟩ := Nat.exists_eq_add_of_le hlo
  have hself := slice_memWrite_self buf off xs
  have hdrop := congrArg (List.drop d) hself
  have htake := congrArg (List.take n) hdrop
  rw [slice_drop _ _ (by omega), slice_take _ _ (by omega)] at htake
  rw [Nat.add_sub_cancel_left]
  exact htake

theorem lastAt_sound {ws : List (Nat × List α)} {a n : Nat} {found : Option (List α)}
    (h : lastAt ws a n = some found) (buf : Nat → α) :
    slice (memWrites buf ws) a n = found.getD (slice buf a n) := by
  induction ws generalizing buf found with
  | nil =>
      cases h
      rfl
  | cons w ws ih =>
      rw [lastAt] at h
      rw [memWrites]
      split at h
      · rename_i hrest
        rw [ih hrest, Option.getD_none]
        split at h
        · rename_i houtside
          cases h
          exact slice_memWrite_outside houtside
        · split at h
          · rename_i hinside
            cases h
            exact slice_memWrite_within buf hinside.1 hinside.2
          · cases h
      · rename_i hfound
        cases found with
        | none => exact absurd h hfound
        | some xs => exact ih h _

/-- **What a store left.** -/
theorem slice_stored {ws : List (Nat × List α)} {a n : Nat} {xs : List α} {buf : Nat → α}
    (h : lastAt ws a n = some (some xs)) : slice (memWrites buf ws) a n = xs :=
  lastAt_sound h buf

/-- **What no store touched.** -/
theorem slice_unstored {ws : List (Nat × List α)} {a n : Nat} {buf : Nat → α}
    (h : lastAt ws a n = some none) : slice (memWrites buf ws) a n = slice buf a n :=
  lastAt_sound h buf

/-! ## Stores one behind the other -/

theorem memWrite_append (xs ys : List α) (buf : Nat → α) (off : Nat) :
    memWrite buf off (xs ++ ys) = memWrite (memWrite buf off xs) (off + xs.length) ys := by
  induction xs generalizing buf off with
  | nil => rfl
  | cons x xs ih =>
      rw [List.cons_append, memWrite, memWrite, ih, List.length_cons]
      congr 1
      omega

theorem memWrites_blocks (buf : Nat → α) (off : Nat) (xss : List (List α)) :
    memWrites buf (blocks off xss) = memWrite buf off xss.flatten := by
  induction xss generalizing buf off with
  | nil => rfl
  | cons xs xss ih => rw [blocks, memWrites, ih, List.flatten_cons, memWrite_append]

/-! ## Buffers that agree below an offset -/

/-- The first `n` cells are the same. -/
def AgreeTo (n : Nat) (buf buf' : Nat → α) : Prop := ∀ k < n, buf k = buf' k

variable {n : Nat} {buf buf' : Nat → α}

theorem AgreeTo.slice (h : AgreeTo n buf buf') {a m : Nat} (hle : a + m ≤ n) :
    slice buf a m = Lib.slice buf' a m :=
  slice_congr fun k hk => h (a + k) (by omega)

theorem AgreeTo.memWrite (h : AgreeTo n buf buf') (off : Nat) (xs : List α) :
    AgreeTo n (memWrite buf off xs) (Lib.memWrite buf' off xs) := by
  intro k hk
  by_cases hin : off ≤ k ∧ k < off + xs.length
  · obtain ⟨d, rfl⟩ := Nat.exists_eq_add_of_le hin.1
    have hd : d < xs.length := by omega
    rw [memWrite_get xs hd, memWrite_get xs hd]
  · rcases Nat.lt_or_ge k off with hlt | hge
    · rw [memWrite_of_lt xs hlt, memWrite_of_lt xs hlt]
      exact h k hk
    · rw [memWrite_of_ge xs (by omega), memWrite_of_ge xs (by omega)]
      exact h k hk

theorem AgreeTo.memWrites (h : AgreeTo n buf buf') (ws : List (Nat × List α)) :
    AgreeTo n (memWrites buf ws) (Lib.memWrites buf' ws) := by
  induction ws generalizing buf buf' with
  | nil => exact h
  | cons w ws ih => exact ih (h.memWrite w.1 w.2)

end Lib

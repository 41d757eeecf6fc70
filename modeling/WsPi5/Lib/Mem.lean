/-
# `Lib.Mem` — loops and numbers in a linear buffer

A buffer is a function from offsets to cells.  `memWrite buf off xs` is the forward copy
loop that stores `xs` from offset `off` on; `memMoveDown buf n k` is the forward loop that
copies the `k` cells from offset `n` on down to offset `0`, reading the buffer it writes.
`slice buf a n` is the `n` cells from offset `a` on, as a list.  `loadLe` and `storeLe` read and write
a number, low byte first.

**Proved here.**

    a store loop changes its own block and nothing else    (`memWrite_get`, `memWrite_of_lt`, `memWrite_of_ge`)
    what stores inside and outside a slice do to it         (`slice_memWrite_*`, `slice_memWrites_*`)
    stores one behind the other leave their blocks end to end (`slice_memWrites_blocks`)
    the downward move reads each cell before it writes it   (`memMoveDown_apply`)
    slices: length, members, concatenation, extensionality  (`slice_*`)
    a number that was stored is read back, cut to its bytes (`leNat_leBytes`, `loadLe_storeLe`)
-/
import Mathlib.Logic.Function.Basic
import Mathlib.Data.List.Basic
import Mathlib.Algebra.GroupWithZero.Nat

namespace Lib

variable {α : Type}

/-! ## Slices -/

/-- The `n` cells of the buffer from offset `a` on. -/
def slice (buf : Nat → α) (a n : Nat) : List α := (List.range n).map fun k => buf (a + k)

@[simp] theorem slice_length (buf : Nat → α) (a n : Nat) : (slice buf a n).length = n := by
  simp [slice]

@[simp] theorem slice_zero (buf : Nat → α) (a : Nat) : slice buf a 0 = [] := rfl

@[simp] theorem slice_getElem (buf : Nat → α) (a n k : Nat) (h : k < (slice buf a n).length) :
    (slice buf a n)[k] = buf (a + k) := by
  simp [slice]

theorem slice_getElem? (buf : Nat → α) {a n k : Nat} (h : k < n) :
    (slice buf a n)[k]? = some (buf (a + k)) := by
  rw [List.getElem?_eq_getElem (by simpa using h), slice_getElem]

theorem slice_congr {buf buf' : Nat → α} {a a' n : Nat}
    (h : ∀ k, k < n → buf (a + k) = buf' (a' + k)) : slice buf a n = slice buf' a' n := by
  apply List.ext_getElem
  · simp
  · intro k hk _
    simpa using h k (by simpa using hk)

theorem slice_add (buf : Nat → α) (a m n : Nat) :
    slice buf a (m + n) = slice buf a m ++ slice buf (a + m) n := by
  apply List.ext_getElem
  · simp
  · intro k hk _
    by_cases hkm : k < m
    · rw [List.getElem_append_left (by simpa using hkm)]
      simp
    · rw [List.getElem_append_right (by simpa using hkm)]
      simp only [slice_getElem, slice_length]
      congr 1
      omega

theorem slice_take (buf : Nat → α) (a : Nat) {m n : Nat} (h : m ≤ n) :
    (slice buf a n).take m = slice buf a m := by
  rw [show n = m + (n - m) by omega, slice_add, List.take_left' (by simp)]

theorem slice_drop (buf : Nat → α) (a : Nat) {m n : Nat} (h : m ≤ n) :
    (slice buf a n).drop m = slice buf (a + m) (n - m) := by
  rw [show n = m + (n - m) by omega, slice_add, List.drop_left' (by simp)]
  congr 1
  omega

theorem slice_part {buf buf' : Nat → α} {a a' n : Nat} (h : slice buf a n = slice buf' a' n)
    {off k : Nat} (hle : off + k ≤ n) : slice buf (a + off) k = slice buf' (a' + off) k := by
  have hdrop := congrArg (List.drop off) h
  rw [slice_drop _ _ (by omega), slice_drop _ _ (by omega)] at hdrop
  have htake := congrArg (List.take k) hdrop
  rwa [slice_take _ _ (by omega), slice_take _ _ (by omega)] at htake

theorem slice_append {buf : Nat → α} {a : Nat} {xs ys : List α}
    (h : slice buf a (xs ++ ys).length = xs ++ ys) :
    slice buf a xs.length = xs ∧ slice buf (a + xs.length) ys.length = ys := by
  rw [List.length_append, slice_add] at h
  exact List.append_inj h (slice_length buf a xs.length)

/-! ## The store loop -/

/-- Store `xs` from offset `off` on. -/
def memWrite : (Nat → α) → Nat → List α → Nat → α
  | buf, _, [] => buf
  | buf, off, x :: xs => memWrite (Function.update buf off x) (off + 1) xs

theorem memWrite_of_lt : ∀ (xs : List α) {buf : Nat → α} {off j : Nat}, j < off →
    memWrite buf off xs j = buf j
  | [], _, _, _, _ => rfl
  | x :: xs, buf, off, j, h => by
      rw [memWrite, memWrite_of_lt xs (by omega), Function.update_of_ne (by omega)]

theorem memWrite_of_ge : ∀ (xs : List α) {buf : Nat → α} {off j : Nat},
    off + xs.length ≤ j → memWrite buf off xs j = buf j
  | [], _, _, _, _ => rfl
  | x :: xs, buf, off, j, h => by
      have hlen : off + (xs.length + 1) ≤ j := h
      rw [memWrite, memWrite_of_ge xs (by omega), Function.update_of_ne (by omega)]

theorem memWrite_get : ∀ (xs : List α) {buf : Nat → α} {off k : Nat} (hk : k < xs.length),
    memWrite buf off xs (off + k) = xs[k]
  | x :: xs, buf, off, 0, _ => by
      rw [memWrite, memWrite_of_lt xs (by omega)]
      simp
  | x :: xs, buf, off, k + 1, hk => by
      have hk' : k < xs.length := by simpa using hk
      have hrest : memWrite (Function.update buf off x) (off + 1) xs (off + 1 + k) = xs[k] :=
        memWrite_get xs hk'
      rw [memWrite, show off + (k + 1) = off + 1 + k by omega, hrest]
      rfl

theorem slice_memWrite_self (buf : Nat → α) (off : Nat) (xs : List α) :
    slice (memWrite buf off xs) off xs.length = xs := by
  apply List.ext_getElem
  · simp
  · intro k hk hk'
    rw [slice_getElem, memWrite_get xs hk']

theorem slice_memWrite_outside {buf : Nat → α} {off a n : Nat} {xs : List α}
    (h : a + n ≤ off ∨ off + xs.length ≤ a) :
    slice (memWrite buf off xs) a n = slice buf a n := by
  apply slice_congr
  intro k hk
  rcases h with h | h
  · exact memWrite_of_lt xs (by omega)
  · exact memWrite_of_ge xs (by omega)

theorem slice_memWrite_inside (buf : Nat → α) (a m n : Nat) (xs : List α) :
    slice (memWrite buf (a + m) xs) a (m + xs.length + n)
      = slice buf a m ++ xs ++ slice buf (a + m + xs.length) n := by
  have hbefore : slice (memWrite buf (a + m) xs) a m = slice buf a m :=
    slice_memWrite_outside (.inl (Nat.le_refl _))
  have hafter : slice (memWrite buf (a + m) xs) (a + (m + xs.length)) n
      = slice buf (a + m + xs.length) n := by
    rw [← Nat.add_assoc]
    exact slice_memWrite_outside (.inr (Nat.le_refl _))
  rw [slice_add, slice_add, hbefore, hafter, slice_memWrite_self]

/-! ## Several stores -/

/-- A list of stores, first to last: each at its offset. -/
def memWrites : (Nat → α) → List (Nat × List α) → Nat → α
  | buf, [] => buf
  | buf, w :: ws => memWrites (memWrite buf w.1 w.2) ws

theorem slice_memWrites_outside {a n : Nat} {ws : List (Nat × List α)} {buf : Nat → α}
    (h : ∀ w ∈ ws, a + n ≤ w.1 ∨ w.1 + w.2.length ≤ a) :
    slice (memWrites buf ws) a n = slice buf a n := by
  induction ws generalizing buf with
  | nil => rfl
  | cons w ws ih =>
      rw [memWrites, ih fun v hv => h v (List.mem_cons_of_mem w hv)]
      exact slice_memWrite_outside (h w List.mem_cons_self)

theorem memWrites_of_outside {ws : List (Nat × List α)} {buf : Nat → α} {j : Nat}
    (h : ∀ w ∈ ws, j < w.1 ∨ w.1 + w.2.length ≤ j) : memWrites buf ws j = buf j := by
  induction ws generalizing buf with
  | nil => rfl
  | cons w ws ih =>
      rw [memWrites, ih fun v hv => h v (List.mem_cons_of_mem w hv)]
      rcases h w List.mem_cons_self with hlt | hge
      · exact memWrite_of_lt w.2 hlt
      · exact memWrite_of_ge w.2 hge

/-- What one of the stores has written is there if the later ones stand next to it. -/
theorem slice_memWrites_mem {a : Nat} {xs : List α} {before after : List (Nat × List α)}
    {buf : Nat → α} (h : ∀ w ∈ after, a + xs.length ≤ w.1 ∨ w.1 + w.2.length ≤ a) :
    slice (memWrites buf (before ++ (a, xs) :: after)) a xs.length = xs := by
  induction before generalizing buf with
  | nil =>
      rw [List.nil_append, memWrites, slice_memWrites_outside h]
      exact slice_memWrite_self buf a xs
  | cons w before ih => exact ih

theorem memWrites_append (ws vs : List (Nat × List α)) (buf : Nat → α) :
    memWrites buf (ws ++ vs) = memWrites (memWrites buf ws) vs := by
  induction ws generalizing buf with
  | nil => rfl
  | cons w ws ih => exact ih _

/-- Stores one behind the other, from offset `off` on. -/
def blocks : Nat → List (List α) → List (Nat × List α)
  | _, [] => []
  | off, xs :: xss => (off, xs) :: blocks (off + xs.length) xss

theorem blocks_bounds {off : Nat} {xss : List (List α)} {w : Nat × List α}
    (h : w ∈ blocks off xss) : off ≤ w.1 ∧ w.1 + w.2.length ≤ off + xss.flatten.length := by
  induction xss generalizing off with
  | nil => cases h
  | cons xs xss ih =>
      rw [List.flatten_cons, List.length_append]
      rcases List.mem_cons.mp h with rfl | h
      · exact ⟨Nat.le_refl _, by dsimp only; omega⟩
      · obtain ⟨hlo, hhi⟩ := ih h
        exact ⟨by omega, by omega⟩

theorem slice_memWrites_blocks (buf : Nat → α) (off : Nat) (xss : List (List α)) :
    slice (memWrites buf (blocks off xss)) off xss.flatten.length = xss.flatten := by
  induction xss generalizing buf off with
  | nil => rfl
  | cons xs xss ih =>
      rw [List.flatten_cons, List.length_append, slice_add, blocks, memWrites, ih]
      congr 1
      rw [slice_memWrites_outside fun w hw => .inl (blocks_bounds hw).1]
      exact slice_memWrite_self buf off xs

/-! ## The downward move -/

/-- Copy `k` cells from offset `src` on to offset `dst` on, first cell first. -/
def memMoveDown : (Nat → α) → Nat → Nat → Nat → Nat → α
  | buf, _, _, 0 => buf
  | buf, src, dst, k + 1 =>
      memMoveDown (Function.update buf dst (buf src)) (src + 1) (dst + 1) k

/-- The target lies below the source, so every cell is read before it is overwritten. -/
theorem memMoveDown_apply : ∀ (k : Nat) {buf : Nat → α} {src dst : Nat}, dst ≤ src →
    ∀ j, memMoveDown buf src dst k j
      = if dst ≤ j ∧ j < dst + k then buf (src + (j - dst)) else buf j
  | 0, buf, src, dst, _, j => by
      rw [memMoveDown, if_neg (by omega)]
  | k + 1, buf, src, dst, hle, j => by
      rw [memMoveDown, memMoveDown_apply k (by omega)]
      by_cases hj : j = dst
      · subst hj
        rw [if_neg (by omega), if_pos (by omega)]
        simp
      · by_cases hin : dst ≤ j ∧ j < dst + (k + 1)
        · rw [if_pos (by omega), if_pos hin, Function.update_of_ne (by omega)]
          congr 1
          omega
        · rw [if_neg (by omega), if_neg hin, Function.update_of_ne hj]

/-! ## Numbers, low byte first -/

/-- `v` in `k` bytes. -/
def leBytes : (k v : Nat) → List UInt8
  | 0, _ => []
  | k + 1, v => UInt8.ofNat v :: leBytes k (v / 256)

def leNat : List UInt8 → Nat
  | [] => 0
  | b :: bs => b.toNat + 256 * leNat bs

@[simp] theorem leBytes_length (k v : Nat) : (leBytes k v).length = k := by
  induction k generalizing v with
  | zero => rfl
  | succ k ih => rw [leBytes, List.length_cons, ih]

theorem leNat_leBytes (k v : Nat) : leNat (leBytes k v) = v % 256 ^ k := by
  induction k generalizing v with
  | zero => rw [Nat.pow_zero, Nat.mod_one]; rfl
  | succ k ih =>
      have hpow : 256 ^ (k + 1) = 256 * 256 ^ k := by rw [Nat.pow_succ, Nat.mul_comm]
      rw [leBytes, leNat, ih, UInt8.toNat_ofNat', hpow, Nat.mod_mul]

theorem leNat_lt (bs : List UInt8) : leNat bs < 256 ^ bs.length := by
  induction bs with
  | nil => decide
  | cons b bs ih =>
      have hb := b.toNat_lt
      rw [leNat, List.length_cons, Nat.pow_succ]
      omega

/-! ### Accesses -/

section
variable {buf : Nat → UInt8} {a k : Nat}

/-- Load `k` bytes from offset `a` on. -/
def loadLe (buf : Nat → UInt8) (a k : Nat) : Nat := leNat (slice buf a k)

/-- Store `v` in the `k` bytes from offset `a` on. -/
def storeLe (buf : Nat → UInt8) (a k v : Nat) : Nat → UInt8 := memWrite buf a (leBytes k v)

theorem loadLe_lt (buf : Nat → UInt8) (a k : Nat) : loadLe buf a k < 256 ^ k := by
  have h := leNat_lt (slice buf a k)
  rwa [slice_length] at h

theorem loadLe_congr {buf' : Nat → UInt8} {a' : Nat} (h : slice buf a k = slice buf' a' k) :
    loadLe buf a k = loadLe buf' a' k := congrArg leNat h

theorem loadLe_storeLe (buf : Nat → UInt8) (a k v : Nat) :
    loadLe (storeLe buf a k v) a k = v % 256 ^ k := by
  have h := slice_memWrite_self buf a (leBytes k v)
  rw [leBytes_length] at h
  rw [loadLe, storeLe, h, leNat_leBytes]

theorem slice_storeLe_outside {b j v : Nat} (h : a + k ≤ b ∨ b + j ≤ a) :
    slice (storeLe buf b j v) a k = slice buf a k := by
  apply slice_memWrite_outside
  rwa [leBytes_length]

theorem loadLe_storeLe_outside {b j v : Nat} (h : a + k ≤ b ∨ b + j ≤ a) :
    loadLe (storeLe buf b j v) a k = loadLe buf a k :=
  loadLe_congr (slice_storeLe_outside h)

end

end Lib

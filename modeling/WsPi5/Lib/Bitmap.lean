/-
# `WsPi5.Lib.Bitmap` — a bitmap in bytes

Unit `u` is bit `u % 8` of byte `u / 8`.  The loops test or set a range of units one by one; the
test whether the first `n` units are all set goes by whole bytes and masks the last one.

**Proved here**: what the loops do, as facts about units (`anySet_iff`, `testUnit_setRange`,
`allSet_iff`).
-/
import Mathlib.Logic.Function.Basic
import Mathlib.Data.List.Basic

namespace Lib

abbrev Bitmap := Nat → BitVec 8

/-- Unit `u` is set: its byte and `1 << (u % 8)` is not zero. -/
def testUnit (bm : Bitmap) (u : Nat) : Bool := bm (u / 8) &&& (1#8 <<< (u % 8)) != 0

def setUnit (bm : Bitmap) (u : Nat) : Bitmap :=
  Function.update bm (u / 8) (bm (u / 8) ||| (1#8 <<< (u % 8)))

/-- One of the `n` units from `a` on is set. -/
def anySet (bm : Bitmap) : Nat → Nat → Bool
  | _, 0 => false
  | a, n + 1 => testUnit bm a || anySet bm (a + 1) n

/-- Set the `n` units from `a` on. -/
def setRange (bm : Bitmap) : Nat → Nat → Bitmap
  | _, 0 => bm
  | a, n + 1 => setRange (setUnit bm a) (a + 1) n

/-- The first `n` units are set: whole bytes first, then the rest under a mask. -/
def allSet (bm : Bitmap) (n : Nat) : Bool :=
  (List.range (n / 8)).all (fun k => bm k = 0xFF) &&
    (n % 8 = 0 || bm (n / 8) &&& ((1#8 <<< (n % 8)) - 1#8) = (1#8 <<< (n % 8)) - 1#8)

/-! ## One byte -/

theorem one_shift_getLsbD : ∀ j < 8, ∀ k < 8, (1#8 <<< j).getLsbD k = decide (k = j) := by
  intro j hj k hk
  rw [← BitVec.twoPow_eq, BitVec.getLsbD_twoPow, decide_eq_true hj, Bool.true_and]
  exact decide_eq_decide.mpr eq_comm

theorem bit_getLsbD (b : BitVec 8) : ∀ k < 8, (b &&& (1#8 <<< k) != 0) = b.getLsbD k := by
  intro k hk
  have hone : 1#8 <<< k ≠ 0 := by
    intro hzero
    simpa [hzero] using one_shift_getLsbD k hk k hk
  rw [← BitVec.twoPow_eq] at hone ⊢
  rw [BitVec.and_twoPow]
  cases b.getLsbD k with
  | true => simpa using hone
  | false => simp

theorem bit_or (b : BitVec 8) : ∀ j < 8, ∀ k < 8,
    ((b ||| (1#8 <<< j)) &&& (1#8 <<< k) != 0) =
      ((b &&& (1#8 <<< k) != 0) || decide (k = j)) := by
  intro j hj k hk
  rw [bit_getLsbD _ k hk, bit_getLsbD _ k hk, BitVec.getLsbD_or, one_shift_getLsbD j hj k hk]

theorem low_mask_getLsbD : ∀ r < 8, ∀ k < 8, ((1#8 <<< r) - 1#8).getLsbD k = decide (k < r) := by
  decide

theorem byte_full (b : BitVec 8) :
    b = 0xFF ↔ ∀ k < 8, (b &&& (1#8 <<< k) != 0) = true := by
  have hones : ∀ k < 8, (0xFF : BitVec 8).getLsbD k = true := by decide
  constructor
  · rintro rfl k hk
    rw [bit_getLsbD _ k hk, hones k hk]
  · intro h
    refine BitVec.eq_of_getLsbD_eq fun k hk => ?_
    rw [hones k hk, ← bit_getLsbD b k hk, h k hk]

theorem byte_masked (b : BitVec 8) : ∀ r < 8,
    (b &&& ((1#8 <<< r) - 1#8) = (1#8 <<< r) - 1#8 ↔ ∀ k < r, (b &&& (1#8 <<< k) != 0) = true) := by
  intro r hr
  rw [BitVec.eq_of_getLsbD_eq_iff]
  constructor
  · intro h k hk
    have hbit := h k (by omega)
    rw [BitVec.getLsbD_and, low_mask_getLsbD r hr k (by omega), decide_eq_true hk,
      Bool.and_true] at hbit
    rw [bit_getLsbD b k (by omega), hbit]
  · intro h k hk
    rw [BitVec.getLsbD_and, low_mask_getLsbD r hr k hk]
    by_cases hlt : k < r
    · rw [← bit_getLsbD b k hk, h k hlt, Bool.true_and]
    · rw [decide_eq_false hlt, Bool.and_false]

/-! ## The loops -/

theorem testUnit_setUnit (bm : Bitmap) (u v : Nat) :
    testUnit (setUnit bm u) v = (testUnit bm v || decide (v = u)) := by
  unfold testUnit setUnit
  by_cases hbyte : v / 8 = u / 8
  · have hsame : decide (v % 8 = u % 8) = decide (v = u) := by
      congr 1
      exact propext ⟨fun h => by omega, fun h => by rw [h]⟩
    rw [hbyte, Function.update_self, bit_or _ _ (Nat.mod_lt _ (by omega)) _
      (Nat.mod_lt _ (by omega)), hsame]
  · have hne : ¬ v = u := fun h => hbyte (by rw [h])
    simp [Function.update_of_ne hbyte, hne]

theorem anySet_iff (bm : Bitmap) : ∀ (a n : Nat),
    anySet bm a n = true ↔ ∃ u, a ≤ u ∧ u < a + n ∧ testUnit bm u = true
  | a, 0 => by
      simp only [anySet, Bool.false_eq_true, false_iff]
      rintro ⟨u, h₁, h₂, _⟩
      omega
  | a, n + 1 => by
      simp only [anySet, Bool.or_eq_true, anySet_iff bm (a + 1) n]
      constructor
      · rintro (h | ⟨u, h₁, h₂, h₃⟩)
        · exact ⟨a, Nat.le_refl _, by omega, h⟩
        · exact ⟨u, by omega, by omega, h₃⟩
      · rintro ⟨u, h₁, h₂, h₃⟩
        rcases Nat.eq_or_lt_of_le h₁ with rfl | hlt
        · exact .inl h₃
        · exact .inr ⟨u, hlt, by omega, h₃⟩

theorem testUnit_setRange : ∀ (n : Nat) (bm : Bitmap) (a v : Nat),
    testUnit (setRange bm a n) v = (testUnit bm v || decide (a ≤ v ∧ v < a + n))
  | 0, bm, a, v => by
      have hnone : decide (a ≤ v ∧ v < a + 0) = false := decide_eq_false (by omega)
      rw [setRange, hnone, Bool.or_false]
  | n + 1, bm, a, v => by
      rw [setRange, testUnit_setRange n, testUnit_setUnit, Bool.or_assoc]
      congr 1
      rw [← Bool.decide_or]
      congr 1
      exact propext ⟨fun h => by omega, fun h => by omega⟩

theorem allSet_iff (bm : Bitmap) (n : Nat) :
    allSet bm n = true ↔ ∀ u < n, testUnit bm u = true := by
  have hfull : (List.range (n / 8)).all (fun k => bm k = 0xFF) = true ↔
      ∀ u < n / 8 * 8, testUnit bm u = true := by
    simp only [List.all_eq_true, List.mem_range, decide_eq_true_eq, byte_full]
    constructor
    · intro h u hu
      exact h (u / 8) (by omega) (u % 8) (Nat.mod_lt _ (by omega))
    · intro h k hk j hj
      have := h (8 * k + j) (by omega)
      unfold testUnit at this
      rwa [show (8 * k + j) / 8 = k by omega, show (8 * k + j) % 8 = j by omega] at this
  have hpart : (n % 8 = 0 || bm (n / 8) &&& ((1#8 <<< (n % 8)) - 1#8) = (1#8 <<< (n % 8)) - 1#8)
      = true ↔ ∀ j < n % 8, testUnit bm (8 * (n / 8) + j) = true := by
    have hmask := byte_masked (bm (n / 8)) (n % 8) (Nat.mod_lt n (by omega))
    rw [Bool.or_eq_true, decide_eq_true_eq, decide_eq_true_eq, hmask]
    have hunit : ∀ j < n % 8, testUnit bm (8 * (n / 8) + j)
        = (bm (n / 8) &&& (1#8 <<< j) != 0) := by
      intro j hj
      unfold testUnit
      rw [show (8 * (n / 8) + j) / 8 = n / 8 by omega, show (8 * (n / 8) + j) % 8 = j by omega]
    constructor
    · rintro (h | h) j hj
      · omega
      · rw [hunit j hj]
        exact h j hj
    · intro h
      refine .inr fun j hj => ?_
      rw [← hunit j hj]
      exact h j hj
  unfold allSet
  rw [Bool.and_eq_true, hfull, hpart]
  constructor
  · rintro ⟨h₁, h₂⟩ u hu
    by_cases hlow : u < n / 8 * 8
    · exact h₁ u hlow
    · have := h₂ (u - 8 * (n / 8)) (by omega)
      rwa [show 8 * (n / 8) + (u - 8 * (n / 8)) = u by omega] at this
  · intro h
    exact ⟨fun u hu => h u (by omega), fun j hj => h _ (by omega)⟩

end Lib

/-
# `Lib.ReadInPieces` — a text that is read in pieces from cells that change

A reader takes the cells of a text in order, some at a time; in between, a writer changes them.
What was read is the beginning of one text, if what the reader has not seen yet always goes with
what it has:

    nothing read yet      the cells hold a text                    (`ReadInPieces.start`)
    a piece is read       the next cells, as they are              (`ReadInPieces.read`)
    the cells change      not behind what was read                 (`ReadInPieces.write`)

The text may be a part of a larger whole that is read in the same way (`part`, `part_read`).
-/
import WsPi5.Lib.Mem

namespace Lib

variable {α : Type}

/-- `got` was read from the first of the `n` cells at `a`; with what the others hold now it is a
text with `P`. -/
structure ReadInPieces (P : List α → Prop) (buf : Nat → α) (a n : Nat) (got : List α) : Prop where
  fits : got.length ≤ n
  text : P (got ++ slice buf (a + got.length) (n - got.length))

/-- The `n` places from `off` on, as far as `xs` goes. -/
def part (off n : Nat) (xs : List α) : List α := (xs.drop off).take n

section
variable {P : List α → Prop} {buf buf' : Nat → α} {a n : Nat} {got : List α}

theorem ReadInPieces.start (h : P (slice buf a n)) : ReadInPieces P buf a n [] :=
  ⟨Nat.zero_le n, h⟩

theorem ReadInPieces.read (h : ReadInPieces P buf a n got) {m : Nat} (hm : got.length + m ≤ n) :
    ReadInPieces P buf a n (got ++ slice buf (a + got.length) m) := by
  have hlen : (got ++ slice buf (a + got.length) m).length = got.length + m := by simp
  refine ⟨by rw [hlen]; exact hm, ?_⟩
  have hsplit : n - got.length = m + (n - (got.length + m)) := by omega
  have htext := h.text
  rw [hsplit, slice_add] at htext
  rw [hlen, List.append_assoc, ← Nat.add_assoc]
  exact htext

theorem ReadInPieces.write (h : ReadInPieces P buf a n got)
    (hrest : slice buf' (a + got.length) (n - got.length)
      = slice buf (a + got.length) (n - got.length)) : ReadInPieces P buf' a n got :=
  ⟨h.fits, by rw [hrest]; exact h.text⟩

/-- **One text**: what was read is its beginning. -/
theorem ReadInPieces.one_text (h : ReadInPieces P buf a n got) : ∃ text, P text ∧ got <+: text :=
  ⟨_, h.text, List.prefix_append got _⟩

end

/-! ## Parts of a whole -/

section
variable {buf : Nat → α} {off n : Nat} {xs : List α}

theorem part_length (off n : Nat) (xs : List α) :
    (part off n xs).length = min n (xs.length - off) := by
  simp [part]

theorem part_zero (off : Nat) (xs : List α) : part off 0 xs = [] := List.take_zero

theorem part_nil_of_le (n : Nat) (h : xs.length ≤ off) : part off n xs = [] := by
  rw [part, List.drop_eq_nil_of_le h, List.take_nil]

theorem part_append (off n : Nat) (xs ys : List α) :
    part off n (xs ++ ys)
      = part off n xs ++ part (off - xs.length) (n - (xs.length - off)) ys := by
  rw [part, List.drop_append, List.take_append, List.length_drop]
  rfl

theorem part_slice (buf : Nat → α) (a k off n : Nat) :
    part off n (slice buf a k) = slice buf (a + off) (min n (k - off)) := by
  apply List.ext_getElem
  · simp [part_length]
  · intro j hj _
    simp only [part, List.getElem_take, List.getElem_drop, slice_getElem, Nat.add_assoc]

/-- **A piece of the whole** brings the next cells of the part, if any. -/
theorem part_read (buf : Nat → α) (lo off n k : Nat) (xs : List α) : ∃ m,
    (part off n xs).length + m ≤ n ∧ part off n (xs ++ slice buf (lo + xs.length) k)
      = part off n xs ++ slice buf (lo + off + (part off n xs).length) m := by
  refine ⟨min (n - (xs.length - off)) (k - (off - xs.length)), ?_, ?_⟩
  · rw [part_length]
    omega
  rw [part_append, part_slice, part_length]
  congr 1
  by_cases hbehind : n ≤ xs.length - off
  · -- the part is complete
    rw [Nat.sub_eq_zero_of_le hbehind, Nat.zero_min, slice_zero, slice_zero]
  · congr 1
    omega

end

end Lib

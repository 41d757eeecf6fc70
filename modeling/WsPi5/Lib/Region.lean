/-
# `Lib.Region` — loops over memory that is there only in part

Memory is a partial function from addresses to cells.  A loop that reads a cell that is not there
has no result; so a loop that has a result on `region base xs`, where only the cells of `xs` are
there, has read nothing else, and the result on any memory in which `xs` stands is the same.

    scanFor    forward to the first cell that stops it, or to the limit
    scanBack   backward over blanks
    scanMark   forward to a mark at the start or behind a blank
    trimAt     both ends of a range past the blanks
    loadRange  the cells of a range
    cellsAre   forward to the first cell that differs from a list

Each loop has as many turns as its range has cells, and each is on the list what its name in
`Lib.Fields` says (`scanFor_eq`, `scanBack_eq`, `scanMark_eq`, `trimAt_eq`, `loadRange_eq`, `cellsAre_eq`).
-/
import WsPi5.Lib.Fields

namespace Lib

variable {α : Type}

/-- The cells of a list from an address on, and no others. -/
def region (base : Nat) (xs : List α) (p : Nat) : Option α :=
  if base ≤ p then xs[p - base]? else none

/-- The list stands in memory from `p` on. -/
def Stands (mem : Nat → Option α) (p : Nat) (xs : List α) : Prop :=
  ∀ k (h : k < xs.length), mem (p + k) = some xs[k]

variable {mem : Nat → Option α} {p : Nat} {x : α} {xs ys : List α}

theorem stands_region (base : Nat) (xs : List α) : Stands (region base xs) base xs := by
  intro k hk
  rw [region, if_pos (Nat.le_add_right ..), Nat.add_sub_cancel_left, List.getElem?_eq_getElem hk]

theorem Stands.head (h : Stands mem p (x :: xs)) : mem p = some x := h 0 (Nat.succ_pos _)

theorem Stands.tail (h : Stands mem p (x :: xs)) : Stands mem (p + 1) xs := by
  intro k hk
  rw [Nat.add_assoc, Nat.add_comm 1 k]
  exact h (k + 1) (Nat.succ_lt_succ hk)

theorem Stands.left (h : Stands mem p (xs ++ ys)) : Stands mem p xs := by
  intro k hk
  rw [h k (by rw [List.length_append]; omega), List.getElem_append_left hk]

theorem Stands.right (h : Stands mem p (xs ++ ys)) : Stands mem (p + xs.length) ys := by
  intro k hk
  have hget := h (xs.length + k) (by rw [List.length_append]; omega)
  rw [← Nat.add_assoc] at hget
  rw [hget]
  simp

theorem Stands.drop (h : Stands mem p xs) {n : Nat} (hn : n ≤ xs.length) :
    Stands mem (p + n) (xs.drop n) := by
  rw [← List.take_append_drop n xs] at h
  have hright := h.right
  rwa [List.length_take_of_le hn] at hright

/-! ## Scanning forward -/

section
variable (mem : Nat → Option α) (stop blank mark : α → Bool)

/-- At most `n` turns from `p` on. -/
def scanForTurns (lim : Nat) : Nat → Nat → Option Nat
  | 0, p => if lim ≤ p then some p else none
  | n + 1, p =>
      if lim ≤ p then some p
      else (mem p).bind fun b => if stop b then some p else scanForTurns lim n (p + 1)

/-- The first address from `p` on whose cell stops the scan, or the limit. -/
def scanFor (p lim : Nat) : Option Nat := scanForTurns mem stop lim (lim - p) p

/-- At most `n` turns down from `e`. -/
def scanBackTurns (p : Nat) : Nat → Nat → Option Nat
  | 0, e => if e ≤ p then some e else none
  | n + 1, e =>
      if e ≤ p then some e
      else (mem (e - 1)).bind fun b => if blank b then scanBackTurns p n (e - 1) else some e

/-- The end of the range `[p, e)` without the blanks in front of it. -/
def scanBack (p e : Nat) : Option Nat := scanBackTurns mem blank p (e - p) e

/-- At most `n` turns from `q` on, in a range that starts at `p`. -/
def scanMarkTurns (p lim : Nat) : Nat → Nat → Option Nat
  | 0, q => if lim ≤ q then some lim else none
  | n + 1, q =>
      if lim ≤ q then some lim
      else (mem q).bind fun b =>
        if mark b then
          if q = p then some q
          else (mem (q - 1)).bind fun prev =>
            if blank prev then some q else scanMarkTurns p lim n (q + 1)
        else scanMarkTurns p lim n (q + 1)

/-- The first address from `q` on with a mark at the start `p` or behind a blank, or the limit. -/
def scanMark (p lim q : Nat) : Option Nat := scanMarkTurns mem blank mark p lim (lim - q) q

/-- The range `[p, e)` without the blanks at its ends, the trailing ones first. -/
def trimAt (p e : Nat) : Option (Nat × Nat) :=
  (scanBack mem blank p e).bind fun e' =>
    (scanFor mem (fun b => !blank b) p e').map fun p' => (p', e')

/-- `n` cells from `p` on. -/
def loadCells : Nat → Nat → Option (List α)
  | 0, _ => some []
  | n + 1, p => (mem p).bind fun b => (loadCells n (p + 1)).map (b :: ·)

/-- The cells of `[p, e)`. -/
def loadRange (p e : Nat) : Option (List α) := loadCells mem (e - p) p

/-- The cells from `p` on are these, compared up to the first that differs. -/
def cellsAre [DecidableEq α] : Nat → List α → Option Bool
  | _, [] => some true
  | p, x :: xs => (mem p).bind fun b => if b ≠ x then some false else cellsAre (p + 1) xs

end

theorem scanForTurns_eq {stop : α → Bool} (h : Stands mem p xs) :
    scanForTurns mem stop (p + xs.length) xs.length p
      = some (p + (xs.takeWhile fun b => !stop b).length) := by
  induction xs generalizing p with
  | nil => simp [scanForTurns]
  | cons x xs ih =>
      have hlim : p + (x :: xs).length = p + 1 + xs.length := by
        rw [List.length_cons]
        omega
      rw [List.length_cons, scanForTurns, if_neg (by omega), h.head]
      show (if stop x then some p else _) = _
      cases hx : stop x with
      | true => simp [hx]
      | false =>
          rw [if_neg Bool.false_ne_true, ← List.length_cons, hlim, ih h.tail]
          simp [hx]
          omega

theorem scanFor_eq {stop : α → Bool} (h : Stands mem p xs) :
    scanFor mem stop p (p + xs.length) = some (p + (xs.takeWhile fun b => !stop b).length) := by
  rw [scanFor, Nat.add_sub_cancel_left]
  exact scanForTurns_eq h

theorem scanBack_eq {blank : α → Bool} (h : Stands mem p xs) :
    scanBack mem blank p (p + xs.length) = some (p + (xs.rdropWhile blank).length) := by
  rw [scanBack, Nat.add_sub_cancel_left]
  induction xs using List.reverseRecOn with
  | nil => simp [scanBackTurns]
  | append_singleton xs x ih =>
      have hlast : mem (p + xs.length) = some x := h.right.head
      rw [List.length_append, List.length_singleton, scanBackTurns, if_neg (by omega)]
      show ((mem (p + xs.length)).bind _) = _
      rw [hlast]
      show (if blank x then scanBackTurns mem blank p xs.length (p + xs.length) else _) = _
      cases hx : blank x with
      | true => rw [if_pos rfl, ih h.left, List.rdropWhile_concat_pos _ _ _ hx]
      | false =>
          rw [if_neg Bool.false_ne_true, List.rdropWhile_concat_neg _ _ _ (by simp [hx])]
          simp

/-- The scan goes on behind `xs`; the place is fresh at the start and behind a blank. -/
theorem scanMarkTurns_eq {blank mark : α → Bool} : ∀ {ys xs : List α} {fresh : Bool},
    Stands mem p (xs ++ ys) → fresh = xs.getLast?.all blank →
    scanMarkTurns mem blank mark p (p + (xs ++ ys).length) ys.length (p + xs.length)
      = some (p + xs.length + (cutComment mark blank fresh ys).length) := by
  intro ys
  induction ys with
  | nil =>
      intro xs fresh _ _
      simp [scanMarkTurns, cutComment]
  | cons y ys ih =>
      intro xs fresh h hfresh
      have hcell : mem (p + xs.length) = some y := h.right.head
      -- past this cell
      have hnext : scanMarkTurns mem blank mark p (p + (xs ++ y :: ys).length) ys.length
          (p + xs.length + 1)
            = some (p + xs.length + (y :: cutComment mark blank (blank y) ys).length) := by
        have hstands : Stands mem p ((xs ++ [y]) ++ ys) := by
          rw [List.append_assoc]
          exact h
        have hrest := @ih (xs ++ [y]) (blank y) hstands (by simp)
        have hlen : (xs ++ [y]).length = xs.length + 1 := by simp
        rw [hlen, List.append_assoc, ← Nat.add_assoc] at hrest
        rw [List.singleton_append] at hrest
        rw [hrest, List.length_cons]
        congr 1
        omega
      have hlim : ¬ p + (xs ++ y :: ys).length ≤ p + xs.length := by
        rw [List.length_append, List.length_cons]
        omega
      rw [List.length_cons, scanMarkTurns, if_neg hlim, hcell, Option.bind_some]
      cases hmark : mark y with
      | false =>
          rw [if_neg Bool.false_ne_true, hnext, cutComment_cons _ hmark]
      | true =>
          rw [if_pos rfl]
          by_cases hnil : xs = []
          · subst hnil
            rw [if_pos (by simp), cutComment, hfresh, hmark]
            simp
          · obtain ⟨zs, z, hzs⟩ := (List.eq_nil_or_concat xs).resolve_left hnil
            rw [List.concat_eq_append] at hzs
            subst hzs
            have hprev : mem (p + (zs ++ [z]).length - 1) = some z := by
              have hstands : Stands mem p (zs ++ [z]) := h.left
              have hz := hstands.right.head
              rw [List.length_append, List.length_singleton]
              exact hz
            rw [if_neg (by simp), hprev, Option.bind_some]
            have hlast : fresh = blank z := by
              rw [hfresh]
              simp
            rw [cutComment, hlast, hmark, Bool.and_true]
            cases blank z with
            | true => simp
            | false => exact hnext

theorem scanMark_eq {blank mark : α → Bool} {fresh : Bool} (h : Stands mem p (xs ++ ys))
    (hfresh : fresh = xs.getLast?.all blank) :
    scanMark mem blank mark p (p + (xs ++ ys).length) (p + xs.length)
      = some (p + xs.length + (cutComment mark blank fresh ys).length) := by
  rw [scanMark, ← scanMarkTurns_eq h hfresh]
  congr 1
  rw [List.length_append]
  omega

/-- A scan from the second cell on: the first place is not fresh. -/
theorem scanMark_second {blank mark : α → Bool} (h : Stands mem p xs) :
    scanMark mem blank mark p (p + xs.length) (p + 1)
      = some (p + (cutComment mark blank false xs).length) := by
  cases xs with
  | nil => simp [scanMark, scanMarkTurns, cutComment]
  | cons x xs =>
      have hscan := @scanMark_eq _ mem p [x] xs blank mark (blank x) h (by simp)
      rw [List.singleton_append, List.length_singleton] at hscan
      rw [hscan, cutComment, Bool.false_and, if_neg Bool.false_ne_true, List.length_cons]
      congr 1
      omega

/-! ## Ranges -/

theorem Stands.ofPrefix (h : Stands mem p xs) (hp : ys <+: xs) : Stands mem p ys := by
  obtain ⟨zs, rfl⟩ := hp
  exact h.left

theorem trimAt_eq {blank : α → Bool} (h : Stands mem p xs) : ∃ p',
    trimAt mem blank p (p + xs.length) = some (p', p' + (trim blank xs).length) ∧
      Stands mem p' (trim blank xs) := by
  obtain ⟨bs, hbs⟩ := List.rdropWhile_prefix blank xs
  have hleft : Stands mem p (xs.rdropWhile blank) := by
    rw [← hbs] at h
    exact h.left
  refine ⟨p + ((xs.rdropWhile blank).takeWhile blank).length, ?_, ?_⟩
  · rw [trimAt, scanBack_eq h, Option.bind_some, scanFor_eq hleft]
    have hlen : ((xs.rdropWhile blank).takeWhile blank).length + (trim blank xs).length
        = (xs.rdropWhile blank).length := by
      rw [← List.length_append, trim, List.takeWhile_append_dropWhile]
    simp only [Bool.not_not, Option.map_some, Nat.add_assoc, hlen]
  · have hparts := List.takeWhile_append_dropWhile (p := blank) (l := xs.rdropWhile blank)
    rw [← hparts] at hleft
    exact hleft.right

theorem loadCells_eq (h : Stands mem p xs) : loadCells mem xs.length p = some xs := by
  induction xs generalizing p with
  | nil => rfl
  | cons x xs ih => rw [List.length_cons, loadCells, h.head, Option.bind_some, ih h.tail]; rfl

theorem loadCells_take {n : Nat} (h : Stands mem p xs) (hn : n ≤ xs.length) :
    loadCells mem n p = some (xs.take n) := by
  have hload := loadCells_eq (h.ofPrefix (List.take_prefix n xs))
  rwa [List.length_take_of_le hn] at hload

theorem cellsAre_eq [DecidableEq α] (h : Stands mem p xs) (hn : ys.length ≤ xs.length) :
    cellsAre mem p ys = some (decide (xs.take ys.length = ys)) := by
  induction ys generalizing p xs with
  | nil => rw [List.length_nil, List.take_zero]; rfl
  | cons y ys ih =>
      cases xs with
      | nil => cases hn
      | cons x xs =>
          rw [cellsAre, h.head, Option.bind_some]
          by_cases hx : x = y
          · subst hx
            rw [if_neg (fun hne => hne rfl), ih h.tail (Nat.le_of_succ_le_succ hn)]
            simp
          · rw [if_pos hx]
            simp [hx]

theorem loadRange_eq (h : Stands mem p xs) : loadRange mem p (p + xs.length) = some xs := by
  rw [loadRange, Nat.add_sub_cancel_left]
  exact loadCells_eq h

end Lib

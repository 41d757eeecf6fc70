/-
# `Lib.FifoPair` — two bounded queues, one before the other

What a pair of queues is for: each is a list, oldest entry first, with room for so many; an entry
is put at the end of one of the two, and taken from the front of one of them, or of the first that
has any.

    put s x      refused if there is no room, and then nothing changes
    take s       the oldest entry of `s`, refused if there is none
    takeFirst    the oldest entry of the high queue, if it has any, else of the low one

**Conservation** (`fifoRun_conserves`).  Along any sequence of calls, what a queue held and what was
put into it is, in this order, what was taken from it and what it holds.
-/
import Mathlib.Logic.Function.Basic

namespace Lib

variable {α : Type}

inductive Side where
  | hi
  | lo
  deriving DecidableEq

inductive FifoCall (α : Type) where
  | put (s : Side) (x : α)
  | take (s : Side)
  | takeFirst

inductive FifoAnswer (α : Type) where
  | stored
  | got (x : α)
  | refused
  deriving DecidableEq

/-- The queue that `takeFirst` takes from. -/
def firstSide (p : Side → List α) : Side := if p .hi = [] then .lo else .hi

def fifoTake (p : Side → List α) (s : Side) : FifoAnswer α × (Side → List α) :=
  match p s with
  | [] => (.refused, p)
  | x :: xs => (.got x, Function.update p s xs)

section
variable (room : Side → Nat)

def fifoStep (p : Side → List α) : FifoCall α → FifoAnswer α × (Side → List α)
  | .put s x =>
      if (p s).length < room s then (.stored, Function.update p s (p s ++ [x])) else (.refused, p)
  | .take s => fifoTake p s
  | .takeFirst => fifoTake p (firstSide p)

/-- The answers to the calls, first to last, and what the queues hold then. -/
def fifoRun : (Side → List α) → List (FifoCall α) → List (FifoAnswer α) × (Side → List α)
  | p, [] => ([], p)
  | p, c :: cs =>
      let next := fifoStep room p c
      let rest := fifoRun next.2 cs
      (next.1 :: rest.1, rest.2)

/-! ## What went in and what came out -/

/-- What a call puts into `s`. -/
def fifoIn (p : Side → List α) (s : Side) : FifoCall α → List α
  | .put s' x => if s' = s ∧ (p s').length < room s' then [x] else []
  | _ => []

/-- What a call takes from `s`. -/
def fifoOut (p : Side → List α) (s : Side) : FifoCall α → List α
  | .put _ _ => []
  | .take s' => if s' = s then (p s).take 1 else []
  | .takeFirst => if firstSide p = s then (p s).take 1 else []

def fifoStored (s : Side) : (Side → List α) → List (FifoCall α) → List α
  | _, [] => []
  | p, c :: cs => fifoIn room p s c ++ fifoStored s (fifoStep room p c).2 cs

def fifoTaken (s : Side) : (Side → List α) → List (FifoCall α) → List α
  | _, [] => []
  | p, c :: cs => fifoOut p s c ++ fifoTaken s (fifoStep room p c).2 cs

end

variable {room : Side → Nat}

theorem fifoTake_conserves (p : Side → List α) (s s' : Side) :
    p s = (if s' = s then (p s).take 1 else []) ++ (fifoTake p s').2 s := by
  by_cases hs : s' = s
  · subst hs
    rw [if_pos rfl, fifoTake]
    cases hp : p s' with
    | nil => simp [hp]
    | cons x xs => simp
  · rw [if_neg hs, fifoTake]
    cases hp : p s' with
    | nil => rfl
    | cons x xs => simp [Function.update_of_ne (Ne.symm hs)]

theorem fifoStep_conserves (p : Side → List α) (s : Side) (c : FifoCall α) :
    p s ++ fifoIn room p s c = fifoOut p s c ++ (fifoStep room p c).2 s := by
  cases c with
  | put s' x =>
      by_cases hroom : (p s').length < room s'
      · by_cases hs : s' = s
        · subst hs
          simp [fifoIn, fifoOut, fifoStep, hroom]
        · simp [fifoIn, fifoOut, fifoStep, hroom, hs, Function.update_of_ne (Ne.symm hs)]
      · simp [fifoIn, fifoOut, fifoStep, hroom]
  | take s' =>
      have hin : fifoIn room p s (.take s') = [] := rfl
      rw [hin, List.append_nil]
      exact fifoTake_conserves p s s'
  | takeFirst =>
      have hin : fifoIn room p s .takeFirst = [] := rfl
      rw [hin, List.append_nil]
      exact fifoTake_conserves p s (firstSide p)

theorem fifoRun_concat (p : Side → List α) (cs : List (FifoCall α)) (c : FifoCall α) :
    fifoRun room p (cs ++ [c]) = ((fifoRun room p cs).1 ++ [(fifoStep room (fifoRun room p cs).2 c).1],
      (fifoStep room (fifoRun room p cs).2 c).2) := by
  induction cs generalizing p with
  | nil => rfl
  | cons d cs ih => rw [List.cons_append, fifoRun, fifoRun, ih]; rfl

/-- **Nothing is lost, doubled or put out of order.** -/
theorem fifoRun_conserves (s : Side) (cs : List (FifoCall α)) (p : Side → List α) :
    p s ++ fifoStored room s p cs = fifoTaken room s p cs ++ (fifoRun room p cs).2 s := by
  induction cs generalizing p with
  | nil => exact List.append_nil _
  | cons c cs ih =>
      rw [fifoStored, fifoTaken, fifoRun, ← List.append_assoc, fifoStep_conserves,
        List.append_assoc, List.append_assoc, ih]

end Lib

/-
# `Lib.TokenBucket` — a rate limit that fills up at once

A bucket holds at most `burst` tokens.  A call that finds the last filling at least `period` ago
fills it up first; then it takes a token, and is refused if there is none.  Nothing fills the bucket
between calls, so that the moment of a filling is chosen by the caller.

**Proved here** (`takes_le`), for calls that do not go back in time: in an interval from `t0` to
`t1` at most

    burst * ((t1 - t0) / period + 2)

calls are allowed.  The fillings in the interval are `period` apart, so there are at most
`(t1 - t0) / period + 1`, and each is good for `burst` calls, as is what the bucket held before the
first of them.  The invariant that carries the induction is `takes_until`: what is allowed until `t1`
are the tokens that are left, and `burst` for each period since the last filling.
-/
import Mathlib.Data.List.Basic
import Mathlib.Algebra.Order.Monoid.Unbundled.Basic

namespace Lib

/-- The tokens that are left, and when the bucket was filled last. -/
structure TokenBucket where
  tokens : Nat
  filled : Nat
  deriving DecidableEq, Repr

/-- The calls that were allowed at times from `t0` to `t1`. -/
def allowedIn (t0 t1 : Nat) (log : List (Nat × Bool)) : Nat :=
  log.countP fun c => c.2 && decide (t0 ≤ c.1 ∧ c.1 ≤ t1)

section
variable (burst period : Nat)

def TokenBucket.fill (b : TokenBucket) (now : Nat) : TokenBucket :=
  if period ≤ now - b.filled then ⟨burst, now⟩ else b

def TokenBucket.take (b : TokenBucket) (now : Nat) : TokenBucket × Bool :=
  let b := b.fill burst period now
  if b.tokens = 0 then (b, false) else ({ b with tokens := b.tokens - 1 }, true)

def TokenBucket.takes : TokenBucket → List Nat → List (Nat × Bool)
  | _, [] => []
  | b, now :: times =>
      (now, (b.take burst period now).2) :: (b.take burst period now).1.takes times

end

variable {burst period t0 t1 now : Nat} {b : TokenBucket} {times : List Nat}

theorem allowedIn_cons (allowed : Bool) (log : List (Nat × Bool)) :
    allowedIn t0 t1 ((now, allowed) :: log)
      = allowedIn t0 t1 log + if allowed = true ∧ t0 ≤ now ∧ now ≤ t1 then 1 else 0 := by
  rw [allowedIn, List.countP_cons]
  simp only [Bool.and_eq_true, decide_eq_true_eq]
  rfl

/-- **A call is paid for by a token**: of the bucket, or of the one that was filled. -/
theorem TokenBucket.take_tokens (burst period : Nat) (b : TokenBucket) (now : Nat) :
    (b.take burst period now).1.tokens + (if (b.take burst period now).2 = true then 1 else 0)
      = (b.fill burst period now).tokens := by
  rw [TokenBucket.take]
  split
  next => simp
  next hpos =>
    rw [if_pos rfl]
    show (b.fill burst period now).tokens - 1 + 1 = _
    omega

theorem TokenBucket.take_filled (b : TokenBucket) (now : Nat) :
    (b.take burst period now).1.filled = (b.fill burst period now).filled := by
  rw [TokenBucket.take]
  split <;> rfl

theorem TokenBucket.take_after_period (hburst : 0 < burst) (h : period ≤ now - b.filled) :
    (b.take burst period now).2 = true := by
  have hfill : b.fill burst period now = ⟨burst, now⟩ := if_pos h
  rw [TokenBucket.take, hfill]
  dsimp only
  rw [if_neg (Nat.ne_of_gt hburst)]

theorem TokenBucket.later (h : (b.filled :: now :: times).Pairwise (· ≤ ·)) :
    ((b.take burst period now).1.filled :: times).Pairwise (· ≤ ·) := by
  obtain ⟨hfilled, htimes⟩ := List.pairwise_cons.mp h
  rw [b.take_filled, TokenBucket.fill]
  split
  · exact htimes
  · obtain ⟨-, hrest⟩ := List.pairwise_cons.mp htimes
    exact List.pairwise_cons.mpr ⟨fun t ht => hfilled t (List.mem_cons_of_mem _ ht), hrest⟩

theorem takes_behind (h : (now :: times).Pairwise (· ≤ ·)) (hnow : t1 < now) :
    allowedIn t0 t1 (b.takes burst period (now :: times)) = 0 := by
  induction times generalizing b now with
  | nil =>
      rw [TokenBucket.takes, allowedIn_cons, if_neg (fun hin => Nat.not_le_of_lt hnow hin.2.2)]
      rfl
  | cons next times ih =>
      obtain ⟨hle, hrest⟩ := List.pairwise_cons.mp h
      have hnext := Nat.lt_of_lt_of_le hnow (hle next (List.mem_cons_self ..))
      rw [TokenBucket.takes, allowedIn_cons, if_neg (fun hin => Nat.not_le_of_lt hnow hin.2.2)]
      exact ih hrest hnext

theorem takes_cons_le (burst period t0 t1 now : Nat) (b : TokenBucket) (times : List Nat) :
    allowedIn t0 t1 (b.takes burst period (now :: times)) + (b.take burst period now).1.tokens
      ≤ allowedIn t0 t1 ((b.take burst period now).1.takes burst period times)
        + (b.fill burst period now).tokens := by
  have htokens := b.take_tokens burst period now
  have hone : (if (b.take burst period now).2 = true ∧ t0 ≤ now ∧ now ≤ t1 then 1 else 0)
      ≤ if (b.take burst period now).2 = true then 1 else 0 := by
    split
    next hin => rw [if_pos hin.1]
    next => exact Nat.zero_le _
  rw [TokenBucket.takes, allowedIn_cons]
  omega

theorem fill_until (hperiod : 0 < period) (hnow : now ≤ t1) :
    (b.fill burst period now).tokens + burst * ((t1 - (b.fill burst period now).filled) / period)
      ≤ b.tokens + burst * ((t1 - b.filled) / period) := by
  rw [TokenBucket.fill]
  split
  next hold =>
    have hdiv : (t1 - now) / period + 1 ≤ (t1 - b.filled) / period := by
      rw [← Nat.add_div_right _ hperiod]
      exact Nat.div_le_div_right (by omega)
    calc burst + burst * ((t1 - now) / period)
        = burst * ((t1 - now) / period + 1) := by rw [Nat.mul_add, Nat.mul_one, Nat.add_comm]
      _ ≤ burst * ((t1 - b.filled) / period) := Nat.mul_le_mul_left burst hdiv
      _ ≤ b.tokens + burst * ((t1 - b.filled) / period) := Nat.le_add_left _ _
  next => exact Nat.le_refl _

/-- What is allowed until `t1`, by the tokens that are left and the time of the last filling. -/
theorem takes_until (hperiod : 0 < period) (h : (b.filled :: times).Pairwise (· ≤ ·)) :
    allowedIn t0 t1 (b.takes burst period times)
      ≤ b.tokens + burst * ((t1 - b.filled) / period) := by
  induction times generalizing b with
  | nil => exact Nat.zero_le _
  | cons now times ih =>
      by_cases hbehind : t1 < now
      · rw [takes_behind (List.pairwise_cons.mp h).2 hbehind]
        exact Nat.zero_le _
      have hrest := @ih (b.take burst period now).1 (TokenBucket.later h)
      have hcall := takes_cons_le burst period t0 t1 now b times
      have hfill := @fill_until burst period t1 now b hperiod (Nat.le_of_not_lt hbehind)
      rw [b.take_filled] at hrest
      omega

/-- **The bound**: in any interval, for calls that do not go back in time. -/
theorem takes_le (hperiod : 0 < period) (htokens : b.tokens ≤ burst)
    (h : (b.filled :: times).Pairwise (· ≤ ·)) :
    allowedIn t0 t1 (b.takes burst period times) ≤ burst * ((t1 - t0) / period + 2) := by
  induction times generalizing b with
  | nil => exact Nat.zero_le _
  | cons now times ih =>
      have hfull : (b.fill burst period now).tokens ≤ burst := by
        rw [TokenBucket.fill]
        split
        · exact Nat.le_refl burst
        · exact htokens
      by_cases hbefore : now < t0
      · -- not yet in the interval
        have hpaid := b.take_tokens burst period now
        rw [TokenBucket.takes, allowedIn_cons, if_neg (fun hin => Nat.not_le_of_lt hbefore hin.2.1)]
        exact ih (by omega) (TokenBucket.later h)
      by_cases hbehind : t1 < now
      · rw [takes_behind (List.pairwise_cons.mp h).2 hbehind]
        exact Nat.zero_le _
      -- the first call in the interval: the last filling is now, or less than a period ago
      have hrecent : (t1 - (b.fill burst period now).filled) / period
          ≤ (t1 - t0) / period + 1 := by
        rw [← Nat.add_div_right _ hperiod]
        refine Nat.div_le_div_right ?_
        rw [TokenBucket.fill]
        split
        next =>
          show t1 - now ≤ _
          omega
        next => omega
      have hrest := @takes_until burst period t0 t1 (b.take burst period now).1 times hperiod
        (TokenBucket.later h)
      have hcall := takes_cons_le burst period t0 t1 now b times
      have hbound := Nat.mul_le_mul_left burst hrecent
      rw [b.take_filled] at hrest
      rw [Nat.mul_add, Nat.mul_one] at hbound
      rw [Nat.mul_add, Nat.mul_two]
      omega

end Lib

/-
# `WsPi5.RateLimits` — the limits on RSTs and on ICMP errors

`tcp_rst_allow` of `lib/tcp.S` and `icmp_err_allow` of `lib/icmp.S` are the same token bucket, each
on two words of its own: ten tokens, all of them back at the first call that is a second
(`timer_freq` ticks) or more after the last time.

    limit             tokens              last tick               burst
    tcp_rst_allow     tcp_rst_tokens      tcp_rst_last_tick       TCP_RST_BURST
    icmp_err_allow    icmp_err_tokens     icmp_err_last_tick      ICMP_ERR_BURST

The elapsed time is a difference of counter values; it is the time since the last filling as long
as the counter does not go back.  Besides these functions only `tcp_init` and `icmp_init` write the
words, so that anything may happen between two calls (`CallLog.other`).

**Proved here** (`error_rates_limited`), for calls at ticks that do not decrease: how many are
allowed in an interval, and that a call a second after the last filling is.
-/
import WsPi5.Lib.TokenBucket
import WsPi5.Tcp.SendBuf

namespace WsPi5

open Lib

/-! ## `icmp_err_allow` -/

/-- `ICMP_ERR_BURST` (`include/net.inc`). -/
def icmpErrBurst : Nat := 10

/-- `icmp_err_tokens` and `icmp_err_last_tick`. -/
structure IcmpErrLimit where
  tokens : Nat
  lastTick : Tick
  deriving DecidableEq, Repr

def icmpInit : IcmpErrLimit := ⟨icmpErrBurst, 0⟩

def icmpErrAllow (freq now : Tick) (l : IcmpErrLimit) : IcmpErrLimit × Bool :=
  let l := if freq ≤ now - l.lastTick then ⟨icmpErrBurst, now⟩ else l
  if l.tokens = 0 then (l, false) else ({ l with tokens := l.tokens - 1 }, true)

/-! ## Calls -/

/-- The bucket in the words of TCP, and in those of ICMP. -/
def rstBucket (t : Tcp) : TokenBucket := ⟨t.rstTokens, t.rstLastTick.toNat⟩

def icmpErrBucket (l : IcmpErrLimit) : TokenBucket := ⟨l.tokens, l.lastTick.toNat⟩

/-- Calls from a state on, each with its tick and its result, and anything in between that leaves
the bucket as it is. -/
inductive CallLog {σ : Type} (allow : Tick → σ → σ × Bool) (bucket : σ → TokenBucket) :
    σ → List (Tick × Bool) → Prop where
  | nil (s : σ) : CallLog allow bucket s []
  | call {s : σ} {log : List (Tick × Bool)} (now : Tick)
      (h : CallLog allow bucket (allow now s).1 log) :
      CallLog allow bucket s ((now, (allow now s).2) :: log)
  | other {s s' : σ} {log : List (Tick × Bool)} (hsame : bucket s' = bucket s)
      (h : CallLog allow bucket s' log) : CallLog allow bucket s log

def InOrder (log : List (Tick × Bool)) : Prop := (log.map Prod.fst).Pairwise (· ≤ ·)

instance (log : List (Tick × Bool)) : Decidable (InOrder log) :=
  inferInstanceAs (Decidable (List.Pairwise _ _))

/-- How many calls were allowed at ticks from `t0` to `t1`. -/
def allowedBetween (t0 t1 : Tick) (log : List (Tick × Bool)) : Nat :=
  log.countP fun c => c.2 && decide (t0 ≤ c.1 ∧ c.1 ≤ t1)

/-- Calls at these ticks with nothing in between. -/
def callsAt {σ : Type} (allow : Tick → σ → σ × Bool) : σ → List Tick → List (Tick × Bool)
  | _, [] => []
  | s, now :: ticks => (now, (allow now s).2) :: callsAt allow (allow now s).1 ticks

theorem callsAt_log {σ : Type} (allow : Tick → σ → σ × Bool) (bucket : σ → TokenBucket) (s : σ)
    (ticks : List Tick) : CallLog allow bucket s (callsAt allow s ticks) := by
  induction ticks generalizing s with
  | nil => exact .nil s
  | cons now ticks ih => exact .call now (ih _)

/-! ## The two are token buckets -/

/-- A call that is not earlier than the last filling is a call of the bucket. -/
def IsBucket {σ : Type} (burst : Nat) (freq : Tick) (allow : Tick → σ → σ × Bool)
    (bucket : σ → TokenBucket) : Prop :=
  ∀ (now : Tick) (s : σ), (bucket s).filled ≤ now.toNat →
    bucket (allow now s).1 = ((bucket s).take burst freq.toNat now.toNat).1 ∧
    (allow now s).2 = ((bucket s).take burst freq.toNat now.toNat).2

theorem elapsed_iff {freq now last : Tick} (h : last.toNat ≤ now.toNat) :
    freq ≤ now - last ↔ freq.toNat ≤ now.toNat - last.toNat := by
  rw [BitVec.le_def, BitVec.toNat_sub_of_le (BitVec.le_def.mpr h)]

theorem icmpErrAllow_isBucket (freq : Tick) :
    IsBucket icmpErrBurst freq (icmpErrAllow freq) icmpErrBucket := by
  intro now l h
  have helapsed := @elapsed_iff freq now l.lastTick h
  rw [icmpErrAllow, TokenBucket.take, TokenBucket.fill]
  by_cases hfill : freq ≤ now - l.lastTick
  · have hfill' : freq.toNat ≤ now.toNat - (icmpErrBucket l).filled := helapsed.mp hfill
    rw [if_pos hfill, if_pos hfill']
    exact ⟨rfl, rfl⟩
  · have hfill' : ¬ freq.toNat ≤ now.toNat - (icmpErrBucket l).filled := fun h =>
      hfill (helapsed.mpr h)
    rw [if_neg hfill, if_neg hfill']
    by_cases hzero : l.tokens = 0
    · simp [icmpErrBucket, hzero]
    · simp [icmpErrBucket, hzero]

theorem tcpRstAllow_isBucket (env : Env) :
    IsBucket tcpRstBurst env.freq (tcpRstAllow env) rstBucket := by
  intro now t h
  have helapsed := @elapsed_iff env.freq now t.rstLastTick h
  rw [tcpRstAllow, TokenBucket.take, TokenBucket.fill]
  by_cases hfill : env.freq ≤ now - t.rstLastTick
  · have hfill' : env.freq.toNat ≤ now.toNat - (rstBucket t).filled := helapsed.mp hfill
    rw [if_pos hfill, if_pos hfill']
    exact ⟨rfl, rfl⟩
  · have hfill' : ¬ env.freq.toNat ≤ now.toNat - (rstBucket t).filled := fun h =>
      hfill (helapsed.mpr h)
    rw [if_neg hfill, if_neg hfill']
    by_cases hzero : t.rstTokens = 0
    · simp [rstBucket, hzero]
    · simp [rstBucket, hzero]

/-! ## The bound -/

section
variable {σ : Type} {burst : Nat} {freq t0 t1 : Tick} {allow : Tick → σ → σ × Bool}
  {bucket : σ → TokenBucket} {s : σ} {log : List (Tick × Bool)}

def timed (log : List (Tick × Bool)) : List (Nat × Bool) := log.map fun c => (c.1.toNat, c.2)

theorem allowedBetween_timed (t0 t1 : Tick) (log : List (Tick × Bool)) :
    allowedBetween t0 t1 log = allowedIn t0.toNat t1.toNat (timed log) := by
  rw [allowedBetween, allowedIn, timed, List.countP_map]
  rfl

/-- **A log is that of the bucket.** -/
theorem CallLog.takes (hb : IsBucket burst freq allow bucket) (h : CallLog allow bucket s log)
    (hfilled : ((bucket s).filled :: log.map fun c => c.1.toNat).Pairwise (· ≤ ·)) :
    timed log = (bucket s).takes burst freq.toNat (log.map fun c => c.1.toNat) := by
  induction h with
  | nil s => rfl
  | @call s log now h ih =>
      have hle := (List.pairwise_cons.mp hfilled).1 now.toNat (List.mem_cons_self ..)
      obtain ⟨hbucket, hresult⟩ := hb now s hle
      have hlater := @TokenBucket.later burst freq.toNat now.toNat (bucket s) _ hfilled
      rw [← hbucket] at hlater
      rw [List.map_cons, TokenBucket.takes, ← hbucket, ← ih hlater, ← hresult]
      rfl
  | other hsame h ih =>
      rw [← hsame]
      exact ih (hsame ▸ hfilled)

theorem CallLog.allowed_le (hb : IsBucket burst freq allow bucket) (h : CallLog allow bucket s log)
    (hfreq : 0 < freq) (hboot : bucket s = ⟨burst, 0⟩) (horder : InOrder log) :
    allowedBetween t0 t1 log ≤ burst * ((t1.toNat - t0.toNat) / freq.toNat + 2) := by
  have hsorted : ((bucket s).filled :: log.map fun c => c.1.toNat).Pairwise (· ≤ ·) := by
    rw [hboot]
    refine List.pairwise_cons.mpr ⟨fun _ _ => Nat.zero_le _, ?_⟩
    have hmap := List.Pairwise.map (fun t : Tick => t.toNat) (fun _ _ h => h) horder
    rwa [List.map_map] at hmap
  have htokens : (bucket s).tokens ≤ burst := by
    rw [hboot]
  rw [allowedBetween_timed, h.takes hb hsorted]
  exact takes_le hfreq htokens hsorted

end

theorem IsBucket.allows {σ : Type} {burst : Nat} {freq now : Tick} {allow : Tick → σ → σ × Bool}
    {bucket : σ → TokenBucket} {s : σ} (hb : IsBucket burst freq allow bucket)
    (hburst : 0 < burst) (h : (bucket s).filled + freq.toNat ≤ now.toNat) :
    (allow now s).2 = true := by
  rw [(hb now s (by omega)).2]
  exact TokenBucket.take_after_period hburst (by omega)

/-- **The limits on RSTs and on ICMP errors.** -/
theorem error_rates_limited (env : Env) (hfreq : 0 < env.freq) (t0 t1 : Tick) :
    (∀ cap log, CallLog (tcpRstAllow env) rstBucket (tcpInit cap) log → InOrder log →
      allowedBetween t0 t1 log
        ≤ tcpRstBurst * ((t1.toNat - t0.toNat) / env.freq.toNat + 2)) ∧
    (∀ log, CallLog (icmpErrAllow env.freq) icmpErrBucket icmpInit log → InOrder log →
      allowedBetween t0 t1 log
        ≤ icmpErrBurst * ((t1.toNat - t0.toNat) / env.freq.toNat + 2)) ∧
    (∀ (t : Tcp) (now : Tick), t.rstLastTick.toNat + env.freq.toNat ≤ now.toNat →
      (tcpRstAllow env now t).2 = true) ∧
    ∀ (l : IcmpErrLimit) (now : Tick), l.lastTick.toNat + env.freq.toNat ≤ now.toNat →
      (icmpErrAllow env.freq now l).2 = true := by
  have hrst := tcpRstAllow_isBucket env
  have hicmp := icmpErrAllow_isBucket env.freq
  refine ⟨fun cap log h => h.allowed_le hrst hfreq rfl, fun log h => h.allowed_le hicmp hfreq rfl,
    fun t now h => ?_, fun l now h => ?_⟩
  · exact hrst.allows (by decide) h
  · exact hicmp.allows (by decide) h

/-- Ten calls just before the first second is over, and eleven when it is. -/
def demoBurst : List Tick := List.replicate 10 999 ++ List.replicate 11 1000

/-- The bound is reached: at 1000 ticks a second, twenty are allowed from tick 999 to tick 1000. -/
theorem error_rates_limited_demo :
    allowedBetween 999 1000 (callsAt (tcpRstAllow demoEnv) (tcpInit 16) demoBurst) = 20 ∧
    allowedBetween 999 1000 (callsAt (icmpErrAllow demoEnv.freq) icmpInit demoBurst) = 20 ∧
    20 ≤ tcpRstBurst * (((1000 : Tick).toNat - (999 : Tick).toNat) / demoEnv.freq.toNat + 2) ∧
    20 ≤ icmpErrBurst * (((1000 : Tick).toNat - (999 : Tick).toNat) / demoEnv.freq.toNat + 2) ∧
    tcpRstBurst * (((1000 : Tick).toNat - (999 : Tick).toNat) / demoEnv.freq.toNat + 2) = 20 := by
  obtain ⟨hrst, hicmp, -, -⟩ := error_rates_limited demoEnv (by decide) 999 1000
  have hrsts := hrst 16 _ (callsAt_log _ _ _ demoBurst) (by decide)
  have herrors := hicmp _ (callsAt_log _ _ _ demoBurst) (by decide)
  have htwenty : allowedBetween 999 1000 (callsAt (tcpRstAllow demoEnv) (tcpInit 16) demoBurst)
      = 20 := by decide
  have htwenty' : allowedBetween 999 1000 (callsAt (icmpErrAllow demoEnv.freq) icmpInit demoBurst)
      = 20 := by decide
  exact ⟨htwenty, htwenty', htwenty ▸ hrsts, htwenty' ▸ herrors, rfl⟩

end WsPi5

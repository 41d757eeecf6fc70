/-
# `WsPi5.Ntp.Clock` — does the wall clock run backwards?

`ntp_handle` refuses a reply whose time is before `SYNC_SECS`, the time of the last sync.  What
`ntp_time` reports is another quantity: `SYNC_SECS` and the seconds that have passed since, or 0
when these are more than 1800.

    sync at tick 0         SYNC_SECS = 1000
    ntp_time(100 s)        1100
    a reply says 1050      not before 1000, so it is stored
    ntp_time(100 s)        1050

A reply is in the gap if its time is not before `SYNC_SECS` and before `SYNC_SECS` plus the seconds
since the sync (of which `ntp_time` reports 1800 at most).  The guard lets these through.

**Proved here** (`clock_never_backwards`).  In every run of replies and queries whose ticks do not
decrease, and in which no reply that is otherwise valid is in the gap, the times reported do not
decrease, and no reply makes the clock go back.  A reply before `SYNC_SECS` may come: the guard
refuses it.
-/
import WsPi5.Lib.Run
import WsPi5.Ntp.Client

namespace WsPi5

open Lib

/-- What an observer of the clock writes down. -/
inductive NtpObs where
  /-- `ntp_time` returned this. -/
  | told (secs : BitVec 64)
  /-- A reply was accepted: `ntp_time` at this tick, before and after. -/
  | stepped (before after : BitVec 64)
  deriving DecidableEq

/-- `ntp_state`, the last tick, and the observations, most recent first. -/
structure NtpClock where
  ntp : NtpState
  now : Tick
  log : List NtpObs

inductive NtpEvent where
  | reply (pkt : List Byte) (ticks : Tick)
  | query (ticks : Tick)

/-- One call.  The counter does not run backwards. -/
def ntpStep (auth : NtpAuth) (s : NtpClock) : NtpEvent → Option NtpClock
  | .reply pkt ticks =>
      if ticks < s.now then none
      else
        let handled := ntpHandle auth pkt ticks s.ntp
        some ⟨handled.1, ticks,
          if handled.2 then .stepped (ntpTime s.ntp ticks) (ntpTime handled.1 ticks) :: s.log
          else s.log⟩
  | .query ticks =>
      if ticks < s.now then none
      else some ⟨s.ntp, ticks, .told (ntpTime s.ntp ticks) :: s.log⟩

/-- After `ntp_init`. -/
def NtpClock.init (freq : Tick) : NtpClock := ⟨{ timerFreq := freq }, 0, []⟩

/-- A time, where `ntp_time` reported one. -/
def NtpObs.time : NtpObs → Option (BitVec 64)
  | .told secs => if secs = 0 then none else some secs
  | .stepped _ _ => none

def told (log : List NtpObs) : List (BitVec 64) := log.filterMap NtpObs.time

/-- No reported time is before an earlier one, and no reply sets the clock back. -/
structure NeverBack (log : List NtpObs) : Prop where
  told : (told log).Pairwise (· ≥ ·)
  stepped : ∀ before after, .stepped before after ∈ log → before ≤ after

/-- The tests of `ntp_handle` before its guard. -/
def ntpValid (auth : NtpAuth) (pkt : List Byte) : Bool :=
  ntpHeaderOk pkt && ntpAuthOk auth pkt && wordAt pkt 40 ≠ 0

/-- The whole seconds since the last sync, as a number. -/
def NtpState.since (s : NtpState) (ticks : Tick) : Nat :=
  (ticks.toNat - s.syncTicks.toNat) / s.timerFreq.toNat

/-- A valid reply is before `SYNC_SECS`, or not before `SYNC_SECS` and the seconds since. -/
def OutsideGap (auth : NtpAuth) (s : NtpClock) : NtpEvent → Prop
  | .reply pkt ticks =>
      s.ntp.synced = true → ntpValid auth pkt = true →
        (ntpUnixSecs pkt).toNat < s.ntp.syncSecs.toNat ∨
          s.ntp.syncSecs.toNat + min (s.ntp.since ticks) 1800 ≤ (ntpUnixSecs pkt).toNat
  | .query _ => True

/-! ## `ntp_time` at the tick of a sync, and later -/

section
variable {s : NtpState} {ticks ticks' : Tick}

theorem elapsed_sync (s : NtpState) (secs : BitVec 64) (ticks : Tick) :
    (s.sync secs ticks).elapsed ticks = 0 := by
  show (ticks - ticks) / s.timerFreq = 0
  rw [BitVec.sub_self]
  exact BitVec.zero_udiv

/-- **At the tick of a sync `ntp_time` is the server's time**, whatever it was before. -/
theorem ntpTime_sync (s : NtpState) (secs : BitVec 64) (ticks : Tick) :
    ntpTime (s.sync secs ticks) ticks = secs := by
  have hsynced : (s.sync secs ticks).synced = true := rfl
  have hfresh : ¬(1800 : BitVec 64) < 0 := by decide
  rw [ntpTime, if_pos hsynced, elapsed_sync, if_neg hfresh]
  exact BitVec.zero_add secs

theorem elapsed_toNat (h : s.syncTicks ≤ ticks) : (s.elapsed ticks).toNat = s.since ticks := by
  rw [NtpState.elapsed, BitVec.toNat_udiv, BitVec.toNat_sub_of_le h]
  rfl

theorem since_mono (s : NtpState) (h : ticks ≤ ticks') : s.since ticks ≤ s.since ticks' :=
  Nat.div_le_div_right (Nat.sub_le_sub_right h _)

/-- A time that is reported is the stored one and the seconds since, 1800 at most. -/
theorem ntpTime_toNat (hsecs : s.syncSecs.toNat < 2 ^ 32) (hticks : s.syncTicks ≤ ticks)
    (h : ntpTime s ticks ≠ 0) : s.synced = true ∧ s.since ticks ≤ 1800 ∧
      (ntpTime s ticks).toNat = s.syncSecs.toNat + s.since ticks := by
  unfold ntpTime at h ⊢
  split at h
  · rename_i hsynced
    split at h
    · exact absurd rfl h
    · rename_i hfresh
      have hle : (s.elapsed ticks).toNat ≤ 1800 := BitVec.not_lt.mp hfresh
      rw [elapsed_toNat hticks] at hle
      rw [if_pos hsynced, if_neg hfresh, BitVec.toNat_add, elapsed_toNat hticks]
      exact ⟨hsynced, hle, by omega⟩
  · exact absurd rfl h

end

/-! ## The invariant -/

/-- What has been reported is not ahead of the stored time and the seconds since, of which 1800
count. -/
structure ClockInv (s : NtpClock) : Prop where
  back : NeverBack s.log
  secs : s.ntp.syncSecs.toNat < 2 ^ 32
  unsynced : s.ntp.synced = false → told s.log = []
  ticks : s.ntp.synced = true → s.ntp.syncTicks ≤ s.now
  behind : s.ntp.synced = true → ∀ secs ∈ told s.log,
    secs.toNat ≤ s.ntp.syncSecs.toNat + min (s.ntp.since s.now) 1800

theorem told_stepped (before after : BitVec 64) (log : List NtpObs) :
    told (.stepped before after :: log) = told log := rfl

theorem told_told (secs : BitVec 64) (log : List NtpObs) :
    told (.told secs :: log) = if secs = 0 then told log else secs :: told log := by
  have htime : (NtpObs.told secs).time = if secs = 0 then none else some secs := rfl
  unfold told
  rw [List.filterMap_cons, htime]
  by_cases h : secs = 0
  · rw [if_pos h, if_pos h]
  · rw [if_neg h, if_neg h]

section
variable {auth : NtpAuth} {s : NtpClock} {pkt : List Byte} {ticks : Tick}

theorem ClockInv.later (h : ClockInv s) (hticks : s.now ≤ ticks) :
    ClockInv { s with now := ticks } where
  back := h.back
  secs := h.secs
  unsynced := h.unsynced
  ticks := fun hsynced => BitVec.le_trans (h.ticks hsynced) hticks
  behind := by
    intro hsynced secs hmem
    have hbefore := h.behind hsynced secs hmem
    have hmono := since_mono s.ntp hticks
    show secs.toNat ≤ s.ntp.syncSecs.toNat + min (s.ntp.since ticks) 1800
    omega

theorem ClockInv.query (h : ClockInv s) :
    ClockInv { s with log := .told (ntpTime s.ntp s.now) :: s.log } := by
  by_cases hzero : ntpTime s.ntp s.now = 0
  · have hsame : told (.told (ntpTime s.ntp s.now) :: s.log) = told s.log := by
      rw [told_told, if_pos hzero]
    refine ⟨⟨?_, ?_⟩, h.secs, ?_, h.ticks, ?_⟩
    · rw [hsame]
      exact h.back.told
    · intro before after hmem
      exact h.back.stepped before after (by simpa using hmem)
    · rw [hsame]
      exact h.unsynced
    · rw [hsame]
      exact h.behind
  · obtain ⟨hsynced, hfresh, hval⟩ : s.ntp.synced = true ∧ s.ntp.since s.now ≤ 1800 ∧
        (ntpTime s.ntp s.now).toNat = s.ntp.syncSecs.toNat + s.ntp.since s.now := by
      refine ntpTime_toNat h.secs (h.ticks ?_) hzero
      by_contra hno
      exact hzero (if_neg hno)
    have hcons : told (.told (ntpTime s.ntp s.now) :: s.log) = ntpTime s.ntp s.now :: told s.log := by
      rw [told_told, if_neg hzero]
    refine ⟨⟨?_, ?_⟩, h.secs, ?_, h.ticks, ?_⟩
    · rw [hcons]
      refine List.pairwise_cons.mpr ⟨fun secs hmem => ?_, h.back.told⟩
      have hle := h.behind hsynced secs hmem
      rw [Nat.min_eq_left hfresh, ← hval] at hle
      exact hle
    · intro before after hmem
      exact h.back.stepped before after (by simpa using hmem)
    · intro hno
      rw [hsynced] at hno
      cases hno
    · intro _
      rw [hcons]
      refine List.forall_mem_cons.mpr ⟨Nat.le_of_eq ?_, h.behind hsynced⟩
      rw [hval, Nat.min_eq_left hfresh]

theorem ClockInv.sync (h : ClockInv s) {secs before after : BitVec 64} (hsecs : secs.toNat < 2 ^ 32)
    (hle : ∀ t ∈ told s.log, t ≤ secs) (hstep : before ≤ after) :
    ClockInv ⟨s.ntp.sync secs s.now, s.now, .stepped before after :: s.log⟩ := by
  refine ⟨⟨?_, ?_⟩, hsecs, ?_, fun _ => BitVec.le_refl _, ?_⟩
  · rw [told_stepped]
    exact h.back.told
  · rintro before' after' (_ | ⟨_, hmem⟩)
    · exact hstep
    · exact h.back.stepped before' after' hmem
  · intro hno
    cases hno
  · intro _ t ht
    rw [told_stepped] at ht
    show t.toNat ≤ secs.toNat + _
    exact Nat.le_trans (hle t ht) (Nat.le_add_right _ _)

theorem ntpUnixSecs_lt (pkt : List Byte) : (ntpUnixSecs pkt).toNat < 2 ^ 32 := by
  rw [ntpUnixSecs, BitVec.toNat_setWidth]
  omega

theorem ntpAccepts_iff {ntp : NtpState} : ntpAccepts auth ntp pkt = true ↔
    ntpValid auth pkt = true ∧ (ntp.synced = true → ntp.syncSecs ≤ ntpUnixSecs pkt) := by
  have hguard : (!(ntp.synced && decide (ntpUnixSecs pkt < ntp.syncSecs))) = true ↔
      (ntp.synced = true → ntp.syncSecs ≤ ntpUnixSecs pkt) := by
    cases ntp.synced with
    | false => simp
    | true => simp [BitVec.not_lt]
  rw [ntpAccepts, Bool.and_eq_true, hguard]
  rfl

/-- **An accepted reply outside the gap** is not before anything that was reported, nor before
what is reported at its tick. -/
theorem ClockInv.ahead (h : ClockInv s) (hok : OutsideGap auth s (.reply pkt s.now))
    (hacc : ntpAccepts auth s.ntp pkt = true) :
    (∀ t ∈ told s.log, t ≤ ntpUnixSecs pkt) ∧ ntpTime s.ntp s.now ≤ ntpUnixSecs pkt := by
  obtain ⟨hvalid, hguard⟩ := ntpAccepts_iff.mp hacc
  cases hsynced : s.ntp.synced with
  | false =>
      refine ⟨fun t ht => ?_, ?_⟩
      · rw [h.unsynced hsynced] at ht
        cases ht
      · have hzero : ntpTime s.ntp s.now = 0 := if_neg (by rw [hsynced]; exact Bool.false_ne_true)
        rw [hzero]
        exact Nat.zero_le _
  | true =>
      -- the guard excludes the first half of the condition
      have hle : s.ntp.syncSecs.toNat ≤ (ntpUnixSecs pkt).toNat := hguard hsynced
      have hahead := (hok hsynced hvalid).resolve_left (Nat.not_lt.mpr hle)
      refine ⟨fun t ht => Nat.le_trans (h.behind hsynced t ht) hahead, ?_⟩
      by_cases hzero : ntpTime s.ntp s.now = 0
      · rw [hzero]
        exact Nat.zero_le _
      · obtain ⟨-, hfresh, hval⟩ := ntpTime_toNat h.secs (h.ticks hsynced) hzero
        rw [Nat.min_eq_left hfresh, ← hval] at hahead
        exact hahead

theorem ClockInv.step {s' : NtpClock} {e : NtpEvent} (h : ClockInv s) (hok : OutsideGap auth s e)
    (hstep : ntpStep auth s e = some s') : ClockInv s' := by
  cases e with
  | query ticks =>
      simp only [ntpStep] at hstep
      split at hstep
      · cases hstep
      · cases hstep
        exact (h.later (BitVec.not_lt.mp ‹_›)).query
  | reply pkt ticks =>
      simp only [ntpStep] at hstep
      split at hstep
      · cases hstep
      · cases hstep
        have hlater := h.later (BitVec.not_lt.mp ‹_›)
        by_cases hacc : ntpAccepts auth s.ntp pkt = true
        · obtain ⟨hold, hnow⟩ := hlater.ahead hok hacc
          have hhandle : ntpHandle auth pkt ticks s.ntp
              = (s.ntp.sync (ntpUnixSecs pkt) ticks, true) := if_pos hacc
          rw [hhandle]
          refine hlater.sync (ntpUnixSecs_lt pkt) hold ?_
          rw [ntpTime_sync]
          exact hnow
        · have hhandle : ntpHandle auth pkt ticks s.ntp = (s.ntp, false) := if_neg hacc
          rw [hhandle]
          exact hlater

end

theorem ClockInv.init (freq : Tick) : ClockInv (NtpClock.init freq) where
  back := ⟨List.Pairwise.nil, fun _ _ hmem => nomatch hmem⟩
  secs := Nat.two_pow_pos 32
  unsynced := fun _ => rfl
  ticks := fun hsynced => nomatch hsynced
  behind := fun hsynced => nomatch hsynced

/-- **The clock never runs backwards** while no reply is in the gap. -/
theorem clock_never_backwards (auth : NtpAuth) (freq : Tick) {s : NtpClock}
    (h : Run (ntpStep auth) (OutsideGap auth) (NtpClock.init freq) s) : NeverBack s.log :=
  (h.invariant (ClockInv.init freq) fun hinv hok hstep => hinv.step hok hstep).back

/-! ## A reply that sets the clock back -/

/-- A reply from a stratum 1 server, with a transmit timestamp. -/
def demoNtpReply (unix : W) : List Byte :=
  [0x24, 1] ++ List.replicate 38 0 ++ beBytes (unix + 0x83AA7E80) ++ List.replicate 4 0

/-- A sync at 1000, a query 100 seconds later, a reply, and a query at the same tick. -/
def demoClock (unix : W) : List NtpEvent :=
  [.reply (demoNtpReply 1000) 5, .query 105, .reply (demoNtpReply unix) 105, .query 105]

instance (auth : NtpAuth) (s : NtpClock) (e : NtpEvent) : Decidable (OutsideGap auth s e) :=
  match e with
  | .reply pkt ticks =>
      inferInstanceAs (Decidable (s.ntp.synced = true → ntpValid auth pkt = true →
        (ntpUnixSecs pkt).toNat < s.ntp.syncSecs.toNat ∨
          s.ntp.syncSecs.toNat + min (s.ntp.since ticks) 1800 ≤ (ntpUnixSecs pkt).toNat))
  | .query _ => isTrue trivial

/-- A reply that is ahead, and one before the last sync, which the guard refuses. -/
theorem clock_never_backwards_demo :
    ∃ s, Run (ntpStep {}) (OutsideGap {}) (NtpClock.init 1) s ∧
      s.log = [.told 1202, .told 1200, .stepped 1100 1200, .told 1100, .stepped 0 1000] ∧
      NeverBack s.log := by
  obtain ⟨s, hrun, hlog⟩ := exists_run (ntpStep {}) (OutsideGap {}) (NtpClock.init 1)
    (Q := fun s =>
      s.log = [.told 1202, .told 1200, .stepped 1100 1200, .told 1100, .stepped 0 1000])
    (demoClock 1200 ++ [.reply (demoNtpReply 900) 106, .query 107]) (by decide +kernel)
    (by decide +kernel)
  exact ⟨s, hrun, hlog, clock_never_backwards {} 1 hrun⟩

/-- **The clock goes from 1100 back to 1050.** -/
theorem reply_sets_clock_back :
    ∃ s, Run (ntpStep {}) anyEvent (NtpClock.init 1) s ∧
      s.log = [.told 1050, .stepped 1100 1050, .told 1100, .stepped 0 1000] ∧ ¬NeverBack s.log := by
  obtain ⟨s, hrun, hlog⟩ := exists_run (ntpStep {}) anyEvent (NtpClock.init 1)
    (Q := fun s => s.log = [.told 1050, .stepped 1100 1050, .told 1100, .stepped 0 1000])
    (demoClock 1050) (feedOk_any _ _) (by decide +kernel)
  refine ⟨s, hrun, hlog, fun hback => ?_⟩
  have hle : (1100 : BitVec 64) ≤ 1050 := hback.stepped _ _ (by rw [hlog]; simp)
  exact absurd hle (by decide)

end WsPi5

/-
# `WsPi5.Tcp.Rto` — the retransmission timeout, doubled and estimated

`RTO` is a 32-bit number of ticks with two writers: `tcp_retransmit_cb` doubles it, and
`tcp_rtt_update` computes it from the two averages of RFC 6298.  Both form their value in 32 bits
and compare it with a bound afterwards, so that a value that does not fit passes for a small one.

    writer              formed in 32 bits      compared with    wraps from
    tcp_retransmit_cb   RTO << 1               60 f (cap)       RTO = 2^31 on
    tcp_rtt_update      SRTT + (RTTVAR << 2)   f (floor)        SRTT + 4 RTTVAR = 2^32 on

At the 54 MHz of the board 60 seconds are 3.24e9 ticks.  The sixth timeout in a row stores them,
the seventh stores 2.19e9, and the eighth 75 million (`rto_wraps`).

The estimator has two more gaps.  The distance of `SRTT` and the sample is the negated difference
where its sign bit is set, so that a distance above 2^31 comes out as its complement; and `SRTT = 0`
means that there is no sample yet, so that a sample of zero is forgotten.

**Proved here.**  A timeout stores `min(2 RTO, 60 f)` exactly where the doubled value fits, and a
run of such timeouts never lowers `RTO` (`rto_backoff`).  A sequence of samples gives the averages
and the timeout of the RFC exactly where none of its samples meets one of the three gaps
(`rtt_estimator`).
-/
import Mathlib.Data.BitVec
import Mathlib.Data.List.Induction
import WsPi5.Tcp.Retransmit

namespace WsPi5

open Lib

/-! ## Timeouts -/

def Conn.retries (c : Conn) : Prop :=
  c.state ≠ .closed ∧ c.state ≠ .listen ∧ c.rtxcount < tcpMaxRetries

/-- `tcp_retransmit_cb` gets to `tcp_rtx_arm`, and there is a timer pool. -/
def rtxRearms (env : Env) (now : Tick) (c : Conn) : Prop :=
  env.hasSendFn = true ∧ env.hasPool = true ∧ (rtxFrame env now c).isSome = true

instance (env : Env) (now : Tick) (c : Conn) : Decidable (rtxRearms env now c) :=
  inferInstanceAs (Decidable (_ ∧ _ ∧ _))

/-- The doubled value fits 32 bits; and it is not the 0 that `tcp_rtx_arm` takes for unset. -/
def rtoDoubles (env : Env) (now : Tick) (c : Conn) : Prop :=
  c.rto.toNat < 2 ^ 31 ∧ (c.rto = 0 → env.freq = 0 ∨ ¬ rtxRearms env now c)

section
variable {env : Env} {now : Tick} {i : Slot} {l : Local}

theorem tcpRetransmitCb_rto (h : l.conn.retries) : (tcpRetransmitCb env now i l).conn.rto =
    if rtxRearms env now l.conn ∧ (rtxBackoff env l.conn).rto = 0 then env.freq.setWidth 32
    else (rtxBackoff env l.conn).rto := by
  obtain ⟨hclosed, hlisten, hleft⟩ := h
  unfold tcpRetransmitCb
  rw [if_neg (fun h => h.elim hclosed hlisten), if_neg (Nat.not_le_of_lt hleft)]
  dsimp only
  rw [rtxBackoff_frame]
  by_cases hfn : env.hasSendFn = true
  · rw [if_pos hfn]
    cases hf : rtxFrame env now l.conn with
    | none =>
        rw [if_neg (fun h => by simp [rtxRearms, hf] at h)]
    | some f =>
        by_cases hp : env.hasPool = true
        · have hre : rtxRearms env now l.conn := ⟨hfn, hp, by rw [hf]; rfl⟩
          simp only [tcpRtxArm, hp, if_true, hre, true_and]
        · rw [if_neg (fun h => hp h.1.2.1)]
          simp only [tcpRtxArm, hp, Bool.false_eq_true, if_false]
  · rw [if_neg hfn, if_neg (fun h => hfn h.1.1)]

theorem tcpRetransmitCb_rto_idle (h : ¬ l.conn.retries) :
    (tcpRetransmitCb env now i l).conn.rto = l.conn.rto := by
  unfold tcpRetransmitCb
  split
  · rfl
  · rename_i hlive
    split
    · rfl
    · rename_i hcount
      exact absurd ⟨fun hc => hlive (.inl hc), fun hl => hlive (.inr hl),
        Nat.not_le.mp hcount⟩ h

variable (hf : 60 * env.freq.toNat < 2 ^ 32)
include hf

theorem rtoMost_toNat : ((env.freq * 60).setWidth 32 : W).toNat = 60 * env.freq.toNat := by
  rw [BitVec.toNat_setWidth, BitVec.toNat_mul]
  show env.freq.toNat * 60 % 2 ^ 64 % 2 ^ 32 = _
  omega

theorem rtoFreq_toNat : (env.freq.setWidth 32 : W).toNat = env.freq.toNat := by
  rw [BitVec.toNat_setWidth]
  omega

theorem rtxBackoff_rto (c : Conn) :
    (rtxBackoff env c).rto.toNat = min (2 * c.rto.toNat % 2 ^ 32) (60 * env.freq.toNat) := by
  have hmost := rtoMost_toNat hf
  have hdouble : (c.rto <<< 1).toNat = 2 * c.rto.toNat % 2 ^ 32 := by
    rw [BitVec.toNat_shiftLeft, Nat.shiftLeft_eq, Nat.mul_comm]
  simp only [rtxBackoff]
  split
  · rename_i hlt
    rw [BitVec.lt_def, hmost] at hlt
    omega
  · rename_i hge
    rw [BitVec.lt_def, hmost] at hge
    omega

/-- **One timeout.** -/
theorem retransmit_rto_iff (h : l.conn.retries) (hcap : l.conn.rto.toNat ≤ 60 * env.freq.toNat) :
    (tcpRetransmitCb env now i l).conn.rto.toNat
      = min (2 * l.conn.rto.toNat) (60 * env.freq.toNat) ↔ rtoDoubles env now l.conn := by
  have hback := rtxBackoff_rto hf l.conn
  have hfreq := rtoFreq_toNat hf
  have hzero : l.conn.rto = 0 ↔ l.conn.rto.toNat = 0 := BitVec.toNat_inj.symm
  have hbzero : (rtxBackoff env l.conn).rto = 0 ↔ (rtxBackoff env l.conn).rto.toNat = 0 :=
    BitVec.toNat_inj.symm
  have hfzero : env.freq = 0 ↔ env.freq.toNat = 0 := BitVec.toNat_inj.symm
  rw [tcpRetransmitCb_rto h, rtoDoubles, hzero, hfzero]
  split
  · -- the doubled value is 0 and the timer is armed again: one second
    rename_i hre
    rw [hbzero] at hre
    rw [hfreq]
    constructor
    · intro hnew
      refine ⟨by omega, fun _ => .inl (by omega)⟩
    · rintro ⟨hlt, hz⟩
      have h0 : l.conn.rto.toNat = 0 := by omega
      have hf0 : env.freq.toNat = 0 := (hz h0).resolve_right (not_not_intro hre.1)
      omega
  · rename_i hnre
    rw [hbzero] at hnre
    rw [hback]
    constructor
    · intro hnew
      refine ⟨by omega, fun h0 => .inr fun hre => hnre ⟨hre, by omega⟩⟩
    · rintro ⟨hlt, _⟩
      omega

/-- A timeout whose doubled value fits does not lower `RTO`, and keeps it below the cap. -/
theorem retransmit_rto_mono (hfit : l.conn.rto.toNat < 2 ^ 31)
    (hcap : l.conn.rto.toNat ≤ 60 * env.freq.toNat) :
    l.conn.rto.toNat ≤ (tcpRetransmitCb env now i l).conn.rto.toNat ∧
      (tcpRetransmitCb env now i l).conn.rto.toNat ≤ 60 * env.freq.toNat := by
  by_cases h : l.conn.retries
  · have hback := rtxBackoff_rto hf l.conn
    have hfreq := rtoFreq_toNat hf
    rw [tcpRetransmitCb_rto h]
    split
    · rename_i hre
      have hb0 : (rtxBackoff env l.conn).rto.toNat = 0 := congrArg BitVec.toNat hre.2
      rw [hfreq]
      omega
    · rw [hback]
      omega
  · rw [tcpRetransmitCb_rto_idle h]
    exact ⟨Nat.le_refl _, hcap⟩

end

/-! ## Runs of timeouts -/

/-- Timeouts of the connection in slot `i`, whose doubled value fits, and events that leave its
record alone. -/
def consecutiveTimeouts (env : Env) (i : Slot) (t : Tcp) (e : Event) : Prop :=
  (t.rtxFires e = some i ∧ (t.conn i).rto.toNat < 2 ^ 31) ∨
    ∀ t', step env t e = some t' → t'.conn i = t.conn i

theorem rtxFires_step {env : Env} {i : Slot} {t t' : Tcp} {e : Event}
    (h : t.rtxFires e = some i) (hs : step env t e = some t') :
    ∃ l : Local, l.conn = t.conn i ∧ t'.conn i = (tcpRetransmitCb env e.now i l).conn := by
  obtain ⟨now, call⟩ := e
  cases call with
  | visit k =>
      simp only [Tcp.rtxFires] at h
      split at h
      · rename_i x j hdue
        cases h
        have ht : timerVisit env now k t = t' := Option.some.inj hs
        rw [timerVisit, hdue] at ht
        subst ht
        exact ⟨(t.freeEntry k).at i, rfl, by simp [runCallback]⟩
      · cases h
  | _ => cases h

/-- **The backoff law.**  A timeout that is not the last stores `min(2 RTO, 60 f)`, for an `RTO` of
at most `60 f`, exactly where the doubled value fits; and however many timeouts follow each other,
as long as the doubled value fits, `RTO` does not decrease and stays below the cap. -/
theorem rto_backoff {env : Env} (i : Slot) (hf : 60 * env.freq.toNat < 2 ^ 32) :
    (∀ (now : Tick) (l : Local), l.conn.retries → l.conn.rto.toNat ≤ 60 * env.freq.toNat →
      ((tcpRetransmitCb env now i l).conn.rto.toNat
        = min (2 * l.conn.rto.toNat) (60 * env.freq.toNat) ↔ rtoDoubles env now l.conn)) ∧
    ∀ t t' : Tcp, Run (step env) (consecutiveTimeouts env i) t t' →
      (t.conn i).rto.toNat ≤ 60 * env.freq.toNat →
      (t.conn i).rto.toNat ≤ (t'.conn i).rto.toNat ∧
        (t'.conn i).rto.toNat ≤ 60 * env.freq.toNat := by
  refine ⟨fun now l h hcap => retransmit_rto_iff hf h hcap, fun t t' hrun hcap => ?_⟩
  refine hrun.invariant (P := fun u => (t.conn i).rto.toNat ≤ (u.conn i).rto.toNat ∧
    (u.conn i).rto.toNat ≤ 60 * env.freq.toNat) ⟨Nat.le_refl _, hcap⟩ ?_
  rintro u v e ⟨hle, hmost⟩ hok hs
  obtain ⟨hfires, hfit⟩ | hsame := hok
  · obtain ⟨l, hl, hv⟩ := rtxFires_step hfires hs
    rw [← hl] at hfit hmost hle
    have hmono := @retransmit_rto_mono env e.now i l hf hfit hmost
    rw [hv]
    exact ⟨Nat.le_trans hle hmono.1, hmono.2⟩
  · rw [hsame v hs]
    exact ⟨hle, hmost⟩

/-- A timeout of slot 1 whose doubled value fits. -/
def demoTimesOut (t : Tcp) (e : Event) : Prop :=
  t.rtxFires e = some 1 ∧ (t.conn 1).rto.toNat < 2 ^ 31

instance decDemoTimesOut (t : Tcp) (e : Event) : Decidable (demoTimesOut t e) :=
  inferInstanceAs (Decidable (_ ∧ _))

def demoTimeouts : List Event := [⟨5000, .visit 0⟩, ⟨10000, .visit 0⟩, ⟨20000, .visit 0⟩]

/-- One byte is sent, and its timer fires three times. -/
theorem rto_backoff_demo : ∃ t t' : Tcp, Run (step demoEnv) anyEvent (tcpInit 16) t ∧
    Run (step demoEnv) (consecutiveTimeouts demoEnv 1) t t' ∧
    (t.conn 1).rto.toNat = 1000 ∧ (t'.conn 1).rto.toNat = 8000 ∧
    (t.conn 1).rto.toNat ≤ (t'.conn 1).rto.toNat ∧ (t'.conn 1).rto.toNat ≤ 60 * 1000 := by
  obtain ⟨t, hrun, hrto, hok, t', hfeed, hrto'⟩ := exists_run (step demoEnv) anyEvent
    (tcpInit 16)
    (Q := fun t => (t.conn 1).rto.toNat = 1000 ∧ feedOk (step demoEnv) demoTimesOut t demoTimeouts ∧
      ∃ t' ∈ feed (step demoEnv) t demoTimeouts, (t'.conn 1).rto.toNat = 8000)
    (demoOpen ++ [⟨1, .send 1 [65]⟩]) (by decide +kernel) (by decide +kernel)
  have hthree : Run (step demoEnv) (consecutiveTimeouts demoEnv 1) t t' :=
    (run_ofList _ hok hfeed).mono .inl
  exact ⟨t, t', hrun, hthree, hrto, hrto', (rto_backoff 1 (by decide)).2 t t' hthree
    (by rw [hrto]; decide)⟩

/-- The clock of the board, 54 MHz. -/
def boardEnv : Env := { demoEnv with freq := 54000000 }

def unansweredSend : List Event :=
  demoOpen ++ [⟨1, .send 1 [65]⟩, ⟨1 * 2 ^ 33, .visit 0⟩, ⟨2 * 2 ^ 33, .visit 0⟩,
    ⟨3 * 2 ^ 33, .visit 0⟩, ⟨4 * 2 ^ 33, .visit 0⟩, ⟨5 * 2 ^ 33, .visit 0⟩,
    ⟨6 * 2 ^ 33, .visit 0⟩]

/-- The seventh timeout follows an `RTO` of 60 seconds. -/
theorem rto_wraps : 60 * boardEnv.freq.toNat < 2 ^ 32 ∧ ∃ t t' : Tcp,
    Run (step boardEnv) anyEvent (tcpInit 16) t ∧
    step boardEnv t ⟨7 * 2 ^ 33, .visit 0⟩ = some t' ∧
    t.rtxFires ⟨7 * 2 ^ 33, .visit 0⟩ = some 1 ∧ (t.conn 1).retries ∧
    (t.conn 1).rto.toNat = 60 * boardEnv.freq.toNat ∧ (t'.conn 1).rto.toNat = 2185032704 ∧
    (t'.conn 1).rto.toNat < (t.conn 1).rto.toNat := by
  have heval : ((feed (step boardEnv) (tcpInit 16) unansweredSend).bind fun t =>
      (step boardEnv t ⟨7 * 2 ^ 33, .visit 0⟩).map fun t' => (t.rtxFires ⟨7 * 2 ^ 33, .visit 0⟩,
        (t.conn 1).state, (t.conn 1).rtxcount, (t.conn 1).rto.toNat, (t'.conn 1).rto.toNat))
      = some (some 1, .established, 6, 3240000000, 2185032704) := by decide +kernel
  obtain ⟨t, hfeed, heval⟩ := Option.bind_eq_some_iff.mp heval
  obtain ⟨t', hstep, heval⟩ := Option.map_eq_some_iff.mp heval
  simp only [Prod.mk.injEq] at heval
  obtain ⟨hfires, hst, hcount, hrto, hrto'⟩ := heval
  refine ⟨by decide, t, t', run_ofList _ (feedOk_any _ _) hfeed, hstep, hfires, ?_, hrto, hrto', ?_⟩
  · rw [Conn.retries, hst, hcount]
    decide
  · rw [hrto, hrto']
    decide

/-! ## The estimator of RFC 6298 -/

/-- The two averages, as whole numbers. -/
structure RttAverages where
  srtt : Nat
  rttvar : Nat
  deriving DecidableEq

def rttDistance (a b : Nat) : Nat := (a - b) + (b - a)

/-- The averages after a sample, from those before it if there are any. -/
def rttNext (r : Nat) : Option RttAverages → RttAverages
  | none => ⟨r, r / 2⟩
  | some a => ⟨a.srtt - a.srtt / 8 + r / 8,
      a.rttvar - a.rttvar / 4 + rttDistance a.srtt r / 4⟩

def rttAverages (samples : List W) : Option RttAverages :=
  samples.foldl (fun a r => some (rttNext r.toNat a)) none

/-- `SRTT + 4 * RTTVAR`. -/
def RttAverages.sum (a : RttAverages) : Nat := a.srtt + 4 * a.rttvar

/-- `max(f, SRTT + 4 * RTTVAR)`, saturated at 32 bits. -/
def RttAverages.rto (f : W) (a : RttAverages) : Nat := min (max f.toNat a.sum) (2 ^ 32 - 1)

/-- The record holds these averages, and their timeout. -/
def Conn.estimates (c : Conn) (f : W) (a : RttAverages) : Prop :=
  c.srtt.toNat = a.srtt ∧ c.rttvar.toNat = a.rttvar ∧ c.rto.toNat = a.rto f

/-- `tcp_rtt_update` for each sample. -/
def rttUpdates (env : Env) (samples : List W) (c : Conn) : Conn :=
  samples.foldl (fun c r => tcpRttUpdate env r c) c

/-- After each sample the record holds what the recurrences give. -/
def rttFollows (env : Env) (samples : List W) (c : Conn) : Prop :=
  ∀ pre r, pre ++ [r] <+: samples →
    (rttUpdates env (pre ++ [r]) c).estimates (env.freq.setWidth 32)
      (rttNext r.toNat (rttAverages pre))

/-- The timeout of these averages fits; or it wraps to the largest one. -/
def RttAverages.fits (f : W) (a : RttAverages) : Prop :=
  a.sum < 2 ^ 32 ∨ 2 ^ 32 - 1 ≤ max f.toNat (a.sum % 2 ^ 32)

def rttSampleFits (f : W) (r : Nat) (a : Option RttAverages) : Prop :=
  (∀ b, a = some b → (b.srtt = 0 → r = 0) ∧ rttDistance b.srtt r ≤ 2 ^ 31) ∧
    (rttNext r a).fits f

/-- What the record holds after the samples with these averages. -/
def Conn.averages (c : Conn) : Option RttAverages → Prop
  | none => c.srtt = 0
  | some a => c.srtt.toNat = a.srtt ∧ c.rttvar.toNat = a.rttvar ∧ (a.srtt = 0 → a.rttvar = 0)

theorem absDiff_toNat (a b : W) : (absDiff a b).toNat =
    if rttDistance a.toNat b.toNat ≤ 2 ^ 31 then rttDistance a.toNat b.toNat
    else 2 ^ 32 - rttDistance a.toNat b.toNat := by
  have ha := a.isLt
  have hb := b.isLt
  have hsub : (a - b).toNat = (2 ^ 32 - b.toNat + a.toNat) % 2 ^ 32 := BitVec.toNat_sub a b
  have hneg : (-(a - b)).toNat = (2 ^ 32 - (a - b).toNat) % 2 ^ 32 := BitVec.toNat_neg (a - b)
  rw [absDiff, BitVec.msb_eq_decide, rttDistance]
  by_cases hmsb : 2 ^ 31 ≤ (a - b).toNat
  · rw [if_pos (by simpa using hmsb), hneg]
    split <;> omega
  · rw [if_neg (by simpa using hmsb)]
    split <;> omega

theorem rttDistance_zero (r : Nat) : rttDistance 0 r = r := by
  simp [rttDistance]

section
variable {env : Env} {c : Conn} {r : W} {a : RttAverages}

theorem rttUpdate_rto : (tcpRttUpdate env r c).rto.toNat =
    max (env.freq.setWidth 32 : W).toNat
      (((tcpRttUpdate env r c).srtt.toNat + 4 * (tcpRttUpdate env r c).rttvar.toNat) % 2 ^ 32) := by
  generalize hs : (tcpRttUpdate env r c).srtt = s
  generalize hv : (tcpRttUpdate env r c).rttvar = v
  have hrto : (tcpRttUpdate env r c).rto
      = if env.freq.setWidth 32 ≤ s + v * 4 then s + v * 4 else env.freq.setWidth 32 := by
    rw [← hs, ← hv]
    rfl
  have hsum : (s + v * 4).toNat = (s.toNat + 4 * v.toNat) % 2 ^ 32 := by
    rw [BitVec.toNat_add, BitVec.toNat_mul]
    show (s.toNat + v.toNat * 4 % 2 ^ 32) % 2 ^ 32 = _
    omega
  rw [hrto, ← hsum]
  split
  · rename_i hle
    exact (Nat.max_eq_right hle).symm
  · rename_i hgt
    exact (Nat.max_eq_left (Nat.le_of_lt (Nat.not_le.mp hgt))).symm

theorem estimates_iff_fits {f : W} {m : Nat}
    (hm : m = max f.toNat (a.sum % 2 ^ 32)) : m = a.rto f ↔ a.fits f := by
  have hf := f.isLt
  rw [RttAverages.rto, RttAverages.fits]
  omega

theorem rttUpdate_first (h : c.srtt = 0) : (tcpRttUpdate env r c).srtt.toNat = r.toNat ∧
    (tcpRttUpdate env r c).rttvar.toNat = r.toNat / 2 := by
  unfold tcpRttUpdate
  rw [if_pos h]
  refine ⟨rfl, ?_⟩
  show (r >>> 1).toNat = _
  rw [BitVec.toNat_ushiftRight, Nat.shiftRight_eq_div_pow]

theorem rttUpdate_later (h : c.srtt ≠ 0) :
    (tcpRttUpdate env r c).srtt.toNat = c.srtt.toNat - c.srtt.toNat / 8 + r.toNat / 8 ∧
    (tcpRttUpdate env r c).rttvar.toNat =
      c.rttvar.toNat - c.rttvar.toNat / 4 + (absDiff c.srtt r).toNat / 4 := by
  have hs := c.srtt.isLt
  have hv := c.rttvar.isLt
  have hr := r.isLt
  have hd : (absDiff c.srtt r).toNat ≤ 2 ^ 31 := by
    rw [absDiff_toNat]
    split <;> omega
  unfold tcpRttUpdate
  rw [if_neg h]
  dsimp only
  simp only [BitVec.toNat_add, BitVec.toNat_sub, BitVec.toNat_ushiftRight,
    Nat.shiftRight_eq_div_pow]
  omega

/-- **One sample.** -/
theorem rttUpdate_estimates_iff {prev : Option RttAverages} (h : c.averages prev) :
    (tcpRttUpdate env r c).estimates (env.freq.setWidth 32) (rttNext r.toNat prev) ↔
      rttSampleFits (env.freq.setWidth 32) r.toNat prev := by
  have hrto := @rttUpdate_rto env c r
  -- what is left once the two averages are those of the recurrences
  have hfits : (tcpRttUpdate env r c).srtt.toNat = (rttNext r.toNat prev).srtt →
      (tcpRttUpdate env r c).rttvar.toNat = (rttNext r.toNat prev).rttvar →
      ((tcpRttUpdate env r c).rto.toNat = (rttNext r.toNat prev).rto (env.freq.setWidth 32) ↔
        (rttNext r.toNat prev).fits (env.freq.setWidth 32)) := by
    intro hs hv
    refine estimates_iff_fits ?_
    rw [hrto, hs, hv, RttAverages.sum]
  cases prev with
  | none =>
      obtain ⟨hs, hv⟩ := @rttUpdate_first env c r h
      rw [Conn.estimates, rttSampleFits, hfits hs hv]
      exact ⟨fun hest => ⟨fun _ hb => (nomatch hb), hest.2.2⟩, fun hfit => ⟨hs, hv, hfit.2⟩⟩
  | some b =>
      obtain ⟨hbs, hbv, hbz⟩ := h
      by_cases hz : c.srtt = 0
      · -- the marker: the sample is taken for a first one
        obtain ⟨hs, hv⟩ := @rttUpdate_first env c r hz
        have hb0 : b.srtt = 0 := by
          rw [← hbs, hz]
          rfl
        have hv0 := hbz hb0
        have hnext : rttNext r.toNat (some b) = ⟨r.toNat / 8, r.toNat / 4⟩ := by
          simp [rttNext, hb0, hv0, rttDistance_zero]
        rw [hnext] at hfits
        rw [Conn.estimates, rttSampleFits, hnext]
        constructor
        · rintro ⟨hest, hest', hest''⟩
          have hr0 : r.toNat = 0 := by
            have hest : (tcpRttUpdate env r c).srtt.toNat = r.toNat / 8 := hest
            omega
          refine ⟨fun b' hb' => ?_, (hfits hest hest').mp hest''⟩
          cases hb'
          exact ⟨fun _ => hr0, by rw [hb0, hr0]; decide⟩
        · rintro ⟨hgap, hfit⟩
          have hr0 := (hgap b rfl).1 hb0
          have hs' : (tcpRttUpdate env r c).srtt.toNat = r.toNat / 8 := by omega
          have hv' : (tcpRttUpdate env r c).rttvar.toNat = r.toNat / 4 := by omega
          exact ⟨hs', hv', (hfits hs' hv').mpr hfit⟩
      · obtain ⟨hs, hv⟩ := @rttUpdate_later env c r hz
        have hne : b.srtt ≠ 0 := fun h0 => hz (BitVec.eq_of_toNat_eq (hbs.trans h0))
        rw [absDiff_toNat, hbs, hbv] at hv
        rw [hbs] at hs
        rw [Conn.estimates, rttSampleFits]
        constructor
        · rintro ⟨hest, hest', hest''⟩
          refine ⟨fun b' hb' => ?_, (hfits hest hest').mp hest''⟩
          cases hb'
          refine ⟨fun h0 => absurd h0 hne, ?_⟩
          have hest' : (tcpRttUpdate env r c).rttvar.toNat =
              b.rttvar - b.rttvar / 4 + rttDistance b.srtt r.toNat / 4 := hest'
          rw [hest'] at hv
          by_contra hfar
          rw [if_neg hfar] at hv
          omega
        · rintro ⟨hgap, hfit⟩
          rw [if_pos (hgap b rfl).2] at hv
          exact ⟨hs, hv, (hfits hs hv).mpr hfit⟩

theorem rttUpdate_averages {prev : Option RttAverages}
    (hfit : rttSampleFits (env.freq.setWidth 32) r.toNat prev)
    (hzero : ∀ b, prev = some b → b.srtt = 0 → b.rttvar = 0)
    (hest : (tcpRttUpdate env r c).estimates (env.freq.setWidth 32) (rttNext r.toNat prev)) :
    (tcpRttUpdate env r c).averages (some (rttNext r.toNat prev)) := by
  refine ⟨hest.1, hest.2.1, ?_⟩
  cases prev with
  | none =>
      show r.toNat = 0 → r.toNat / 2 = 0
      omega
  | some b =>
      have hr0 := (hfit.1 b rfl).1
      have hv0 := hzero b rfl
      simp only [rttNext]
      intro hs
      have hb0 : b.srtt = 0 := by omega
      rw [hr0 hb0, hv0 hb0, hb0]
      rfl

end

/-! ## Sequences of samples -/

theorem forall_prefix_nil {P : List W → W → Prop} : ∀ pre r, pre ++ [r] <+: [] → P pre r := by
  intro pre r h
  simp at h

theorem forall_prefix_snoc {samples : List W} {x : W} {P : List W → W → Prop} :
    (∀ pre r, pre ++ [r] <+: samples ++ [x] → P pre r) ↔
      (∀ pre r, pre ++ [r] <+: samples → P pre r) ∧ P samples x := by
  constructor
  · exact fun h => ⟨fun pre r hp => h pre r (hp.trans (List.prefix_append ..)),
      h samples x (List.prefix_refl _)⟩
  · rintro ⟨h, hx⟩ pre r hp
    obtain heq | hp := List.prefix_concat_iff.mp hp
    · obtain ⟨rfl, hr⟩ := List.append_inj' heq rfl
      cases hr
      exact hx
    · exact h pre r hp

/-- **The estimator.**  From a record without a sample on, `SRTT`, `RTTVAR` and `RTO` are those of
the RFC after every sample exactly where every sample meets none of the gaps. -/
theorem rtt_estimator (env : Env) (samples : List W) {c : Conn} (hfresh : c.srtt = 0) :
    rttFollows env samples c ↔ ∀ pre r, pre ++ [r] <+: samples →
      rttSampleFits (env.freq.setWidth 32) r.toNat (rttAverages pre) := by
  suffices h : (rttFollows env samples c ↔ ∀ pre r, pre ++ [r] <+: samples →
      rttSampleFits (env.freq.setWidth 32) r.toNat (rttAverages pre)) ∧
      (rttFollows env samples c → (rttUpdates env samples c).averages (rttAverages samples)) from h.1
  induction samples using List.reverseRecOn with
  | nil =>
      exact ⟨⟨fun _ => forall_prefix_nil, fun _ => forall_prefix_nil⟩, fun _ => hfresh⟩
  | append_singleton samples x ih =>
      obtain ⟨ih, ihavg⟩ := ih
      have hupd : rttUpdates env (samples ++ [x]) c
          = tcpRttUpdate env x (rttUpdates env samples c) := List.foldl_append ..
      have havg : rttAverages (samples ++ [x]) = some (rttNext x.toNat (rttAverages samples)) :=
        List.foldl_append ..
      have hall := @forall_prefix_snoc samples x fun pre r => (rttUpdates env (pre ++ [r]) c).estimates
        (env.freq.setWidth 32) (rttNext r.toNat (rttAverages pre))
      rw [rttFollows, hall, forall_prefix_snoc, hupd, ← rttFollows, ih]
      have hstep : ∀ h : rttFollows env samples c, _ := fun h =>
        @rttUpdate_estimates_iff env _ x _ (ihavg h)
      refine ⟨and_congr_right fun h => hstep (ih.mpr h), fun h => ?_⟩
      rw [havg]
      have hprev := ihavg (ih.mpr h.1)
      refine rttUpdate_averages ((hstep (ih.mpr h.1)).mp h.2) (fun b hb => ?_) h.2
      rw [hb] at hprev
      exact hprev.2.2

/-- Samples of a second and of a second and a quarter, on the board. -/
theorem rtt_estimator_demo : rttFollows boardEnv [54000000, 67500000] {} := by
  have hone : ∀ pre r, pre ++ [r] <+: [54000000] →
      rttSampleFits (boardEnv.freq.setWidth 32) r.toNat (rttAverages pre) :=
    (@forall_prefix_snoc [] 54000000 _).mpr
      ⟨forall_prefix_nil, fun _ hb => (nomatch hb), .inl (by decide)⟩
  refine (rtt_estimator boardEnv _ rfl).mpr
    ((@forall_prefix_snoc [54000000] 67500000 _).mpr ⟨hone, fun b hb => ?_, .inl (by decide)⟩)
  cases hb
  decide

/-- A first sample of 2^31 ticks: `4 * RTTVAR` is 2^32, and `RTO` comes out as if it were 0. -/
theorem rtt_wraps : ¬ rttFollows boardEnv [2 ^ 31] {} ∧
    (rttUpdates boardEnv [2 ^ 31] {}).rto.toNat = 2 ^ 31 ∧
    (rttNext (2 ^ 31) none).rto (boardEnv.freq.setWidth 32) = 2 ^ 32 - 1 := by
  refine ⟨fun h => ?_, by decide, by decide⟩
  have hest := (h [] (2 ^ 31) (List.prefix_refl _)).2.2
  revert hest
  decide

end WsPi5

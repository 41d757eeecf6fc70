/-
# `WsPi5.Dhcp.LeaseTimers` — the order of T1, T2 and the lease expiry

`h_commit_lease_arm_timers` arms three timers, at half, seven eighths and all of the lease, and
`timer_check` goes through the pool by index, not by deadline.  When several have expired together
it is the index that decides which callback comes first.

The indices are in order too: the commit arms T1, T2 and the lease one right after the other, and
`timer_set` takes the first free entry each time.  So an entry before which the loop of
`timer_check` stands has every earlier timer of its lease behind it, and that one was due.

To speak of the timers *of a lease*, the callbacks carry the number of the commit (`NumberedCb`),
which the code does not look at.  `LeaseLife` keeps what the client received, and which timers of a
lease left the pool otherwise: those of the lease before, which the next commit cancels, and
whatever a stale index of another user of the pool hits.

**Proved here** (`lease_timers_in_order`), for a commit that finds three free entries to arm: the
deadlines, and that in every run from there on what was received of this lease are T1, T2 and the
expiry in this order, up to some point, less what was cancelled; and that a pass of `timer_check`
leaves out none that is due.

`mdns_kick`, which the commit calls before, may take an entry.  If only three were free, there is
none left for the lease (`kick_takes_entry`).
-/
import WsPi5.Dhcp.Handles
import WsPi5.Lib.Run

namespace WsPi5

open Lib

/-! ## The client, with numbered leases -/

/-- The callbacks in the pool, those of a lease with the number of its commit; `other` stands for
those of the remaining users. -/
inductive NumberedCb where
  | retrans
  | lease (number : Nat) (u : LeaseTimer)
  | mdns
  | other (id : Nat)
  deriving DecidableEq, Repr

/-- The client's environment while it has this number to give. -/
def numberedEnv (freq : Tick) (hostnameLen number : Nat) : DhcpEnv NumberedCb :=
  ⟨freq, .retrans, .lease number, ⟨freq, hostnameLen, .mdns⟩⟩

def NumberedCb.leaseTimer : NumberedCb → Option (Nat × LeaseTimer)
  | .lease number u => some (number, u)
  | .retrans | .mdns | .other _ => none

def leaseAt (p : TimerPool NumberedCb) (k : Nat) : Option (Nat × LeaseTimer) :=
  (p.slot k).bind fun e => e.callback.leaseTimer

/-- A call of another user of the pool. -/
inductive OtherCall where
  | set (expiry : Tick) (id : Nat)
  | cancel (k : Nat)
  deriving DecidableEq, Repr

def OtherCall.run (p : TimerPool NumberedCb) : OtherCall → TimerPool NumberedCb
  | .set expiry id => (timerSet p expiry (.other id)).1
  | .cancel k => timerCancel p k

/-- The client with what became of the timers of its leases. -/
structure LeaseLife where
  view : DhcpView NumberedCb
  /-- The events T1, T2 and LEASE that the client received, oldest first. -/
  received : List (Nat × LeaseTimer) := []
  /-- The timers that left the pool without having been called. -/
  cancelled : List (Nat × LeaseTimer) := []

/-- The timers that are no longer in their entries. -/
def gone (p p' : TimerPool NumberedCb) : List (Nat × LeaseTimer) :=
  (List.range p.cap).filterMap fun k => if p'.slot k = p.slot k then none else leaseAt p k

section
variable (s : LeaseLife)

def LeaseLife.numbers : List Nat :=
  (List.range s.view.pool.cap).filterMap (fun k => (leaseAt s.view.pool k).map Prod.fst)
    ++ s.received.map Prod.fst ++ s.cancelled.map Prod.fst

def LeaseLife.nextNumber : Nat := s.numbers.foldr max 0 + 1

def LeaseLife.after (v : DhcpView NumberedCb) : LeaseLife :=
  { s with view := v, cancelled := s.cancelled ++ gone s.view.pool v.pool }

/-- "Fire": entry `k` is freed, and its callback is about to be called. -/
def LeaseLife.fired (k : Nat) (e : TimerEntry NumberedCb) : LeaseLife :=
  { s with
    view := { s.view with
      pool := { s.view.pool with slot := Function.update s.view.pool.slot k none } }
    received := s.received ++ e.callback.leaseTimer.toList }

end

def othersRun (calls : List OtherCall) (v : DhcpView NumberedCb) : DhcpView NumberedCb :=
  { v with pool := calls.foldl OtherCall.run v.pool }

section
variable (freq : Tick) (hostnameLen : Nat)

/-- The callback, at tick `now`; one of another user makes these calls. -/
def NumberedCb.call (number : Nat) (now : Tick) (calls : List OtherCall)
    (v : DhcpView NumberedCb) : NumberedCb → Option (DhcpView NumberedCb)
  | .retrans => dhcpRetransCb (numberedEnv freq hostnameLen number) now v
  | .lease _ u => dhcpLeaseCb (numberedEnv freq hostnameLen number) now u v
  | .mdns =>
      let r := mdnsTimerCb (numberedEnv freq hostnameLen number).mdns now v.mdns v.pool
      some { v with mdns := r.1, pool := r.2.1 }
  | .other _ => some (othersRun calls v)

/-- One turn of `.Ltc_loop`, at entry `k`. -/
def LeaseLife.visit (currentTick now : Tick) (calls : List OtherCall) (k : Nat) (s : LeaseLife) :
    Option LeaseLife :=
  match timerDue s.view.pool currentTick k with
  | none => some s
  | some e =>
      let s := s.fired k e
      (e.callback.call freq hostnameLen s.nextNumber now calls s.view).map s.after

/-- `.Ltc_loop`, with `w21` entries left, at entry `k`; each callback finds a tick of its own. -/
def LeaseLife.checkLoop (currentTick : Tick) (now : Nat → Tick) (calls : Nat → List OtherCall) :
    (w21 k : Nat) → LeaseLife → Option LeaseLife
  | 0, _, s => some s
  | w21 + 1, k, s =>
      (s.visit freq hostnameLen currentTick (now k) (calls k) k).bind
        (LeaseLife.checkLoop currentTick now calls w21 (k + 1))

/-- What happens next. -/
inductive LeaseEvent where
  | start (now : Tick) (hasPool hasSendFn : Bool)
  | reply (now : Tick) (reply : DhcpReply) (parsed : DhcpParsed)
  | mdnsStart (now : Tick) (hasPool hasSendFn : Bool)
  | others (calls : List OtherCall)
  /-- `timer_check`. -/
  | check (currentTick : Tick) (now : Nat → Tick) (calls : Nat → List OtherCall)

/-- One step; `none` where the device halts. -/
def LeaseLife.step (s : LeaseLife) : LeaseEvent → Option LeaseLife
  | .start now hasPool hasSendFn =>
      (dhcpStart (numberedEnv freq hostnameLen s.nextNumber) now hasPool hasSendFn s.view).map
        s.after
  | .reply now reply parsed =>
      (dhcpDispatch (numberedEnv freq hostnameLen s.nextNumber) now reply parsed s.view).map s.after
  | .mdnsStart now hasPool hasSendFn =>
      let r := WsPi5.mdnsStart (numberedEnv freq hostnameLen s.nextNumber).mdns now s.view.net.ourIp
        hasPool hasSendFn s.view.mdns s.view.pool
      some (s.after { s.view with mdns := r.1, pool := r.2 })
  | .others calls => some (s.after (othersRun calls s.view))
  | .check currentTick now calls =>
      s.checkLoop freq hostnameLen currentTick now calls s.view.pool.cap 0

end

/-! ## The law -/

def LeaseLife.receivedOf (number : Nat) (s : LeaseLife) : List LeaseTimer :=
  s.received.filterMap fun x => if x.1 = number then some x.2 else none

/-- The timers of a lease that were not cancelled, in their order. -/
def LeaseLife.notCancelled (number : Nat) (s : LeaseLife) : List LeaseTimer :=
  leaseTimers.filter fun u => (number, u) ∉ s.cancelled

def leaseSpan (lease : Nat) : LeaseTimer → Nat
  | .t1 => lease / 2
  | .t2 => 7 * lease / 8
  | .lease => lease

/-- The pool in which a commit arms: `mdns_kick` and the calls of `timer_cancel` have been. -/
def armingPool {κ : Type} [DecidableEq κ] (env : DhcpEnv κ) (now : Tick) (v : DhcpView κ) :
    TimerPool κ :=
  (leaseTimers.foldl (fun v u => cancelLease u v) (kickMdns env now (commitAddresses v))).pool

/-! ## The deadlines -/

theorem leaseSecs_toNat (lease : BitVec 32) (u : LeaseTimer) :
    (leaseSecs lease u).toNat = leaseSpan lease.toNat u := by
  have hlt := lease.isLt
  cases u with
  | t1 =>
      rw [leaseSecs, leaseSpan, BitVec.toNat_setWidth, BitVec.toNat_ushiftRight,
        Nat.shiftRight_eq_div_pow]
      omega
  | t2 =>
      have hseven : (7 : BitVec 64).toNat = 7 := rfl
      rw [leaseSecs, leaseSpan, BitVec.toNat_ushiftRight, BitVec.toNat_mul, BitVec.toNat_setWidth,
        Nat.shiftRight_eq_div_pow, hseven]
      omega
  | lease =>
      rw [leaseSecs, leaseSpan, BitVec.toNat_setWidth]
      omega

theorem leaseSpan_le (lease : Nat) (u : LeaseTimer) : leaseSpan lease u ≤ lease := by
  cases u <;> simp only [leaseSpan] <;> omega

def LeaseTimer.rank : LeaseTimer → Nat
  | .t1 => 0
  | .t2 => 1
  | .lease => 2

theorem leaseSpan_mono (lease : Nat) {u u' : LeaseTimer} (h : u.rank ≤ u'.rank) :
    leaseSpan lease u ≤ leaseSpan lease u' := by
  cases u <;> cases u' <;> simp only [leaseSpan, LeaseTimer.rank] at h ⊢ <;> omega

theorem leaseDeadline_toNat {now freq : Tick} {lease : BitVec 32}
    (hfit : now.toNat + lease.toNat * freq.toNat < 2 ^ 64) (u : LeaseTimer) :
    (now + leaseSecs lease u * freq).toNat
      = now.toNat + leaseSpan lease.toNat u * freq.toNat := by
  have hle : leaseSpan lease.toNat u * freq.toNat ≤ lease.toNat * freq.toNat :=
    Nat.mul_le_mul_right _ (leaseSpan_le lease.toNat u)
  rw [BitVec.toNat_add, BitVec.toNat_mul, leaseSecs_toNat, Nat.mod_eq_of_lt (by omega),
    Nat.mod_eq_of_lt (by omega)]

/-! ## The commit -/

/-- Three timers armed: `pos` are their entries. -/
structure LeaseArmed {κ : Type} (env : DhcpEnv κ) (deadline : LeaseTimer → Tick)
    (pos : LeaseTimer → Nat) (p : TimerPool κ) (v' : DhcpView κ) : Prop where
  cap : v'.pool.cap = p.cap
  bound : ∀ u, pos u < p.cap
  order : ∀ u u', u.rank < u'.rank → pos u < pos u'
  entry : ∀ u, v'.pool.slot (pos u) = some ⟨deadline u, env.leaseCb u⟩
  others : ∀ k, (∀ u, k ≠ pos u) → v'.pool.slot k = p.slot k
  slot : ∀ u, v'.dhcp.slot u = some (pos u)
  deadline : ∀ u, v'.dhcp.deadline u = deadline u

section
variable {κ : Type}

theorem armLease_free (env : DhcpEnv κ) (now : Tick) (u : LeaseTimer) {v : DhcpView κ} {k : Nat}
    {ks : List Nat} (h : v.pool.free = k :: ks) :
    (armLease env now u v).pool = ⟨v.pool.cap, v.pool.cap_lt, Function.update v.pool.slot k
      (some ⟨now + leaseSecs v.dhcp.leaseTime u * v.dhcp.timerFreq, env.leaseCb u⟩)⟩ ∧
    (armLease env now u v).dhcp.slot = Function.update v.dhcp.slot u (some k) ∧
    (armLease env now u v).pool.free = ks := by
  obtain ⟨hset, hfree⟩ := timerSet_free h
    (now + leaseSecs v.dhcp.leaseTime u * v.dhcp.timerFreq) (env.leaseCb u)
  refine ⟨congrArg Prod.fst hset, ?_, hfree⟩
  exact congrArg (fun r => Function.update v.dhcp.slot u r.2) hset

/-- **Three free entries**: the first is for T1, the next for T2, the one after for the lease. -/
theorem armLeases_armed (env : DhcpEnv κ) (now : Tick) {v : DhcpView κ} {k₁ k₂ k₃ : Nat}
    {ks : List Nat} (h : v.pool.free = k₁ :: k₂ :: k₃ :: ks) :
    LeaseArmed env (fun u => now + leaseSecs v.dhcp.leaseTime u * v.dhcp.timerFreq)
      (fun | .t1 => k₁ | .t2 => k₂ | .lease => k₃) v.pool
      (leaseTimers.foldl (fun v u => armLease env now u v) v) := by
  have hbound : ∀ k ∈ v.pool.free, k < v.pool.cap := fun k hk => (mem_free.mp hk).1
  have hsorted := free_sorted v.pool
  rw [h] at hbound hsorted
  simp only [List.pairwise_cons, List.mem_cons] at hsorted
  have h₁₂ : k₁ < k₂ := hsorted.1 k₂ (.inl rfl)
  have h₂₃ : k₂ < k₃ := hsorted.2.1 k₃ (.inl rfl)
  obtain ⟨hpool₁, hslot₁, hfree₁⟩ := armLease_free env now .t1 h
  obtain ⟨hpool₂, hslot₂, hfree₂⟩ := armLease_free env now .t2 hfree₁
  obtain ⟨hpool₃, hslot₃, -⟩ := armLease_free env now .lease hfree₂
  rw [hpool₂, hpool₁] at hpool₃
  rw [hslot₂, hslot₁] at hslot₃
  rw [leaseTimers, List.foldl_cons, List.foldl_cons, List.foldl_cons, List.foldl_nil]
  constructor
  · rw [hpool₃]
  · rintro (_ | _ | _)
    · exact hbound k₁ (by simp)
    · exact hbound k₂ (by simp)
    · exact hbound k₃ (by simp)
  · rintro (_ | _ | _) (_ | _ | _) hrank <;> simp only [LeaseTimer.rank] at hrank ⊢ <;> omega
  · rw [hpool₃]
    rintro (_ | _ | _)
    · simp [Nat.ne_of_lt h₁₂, Nat.ne_of_lt (Nat.lt_trans h₁₂ h₂₃)]
    · simp [Nat.ne_of_lt h₂₃]
      rfl
    · simp
      rfl
  · intro k hk
    have hne := (⟨hk .t1, hk .t2, hk .lease⟩ : k ≠ k₁ ∧ k ≠ k₂ ∧ k ≠ k₃)
    rw [hpool₃]
    simp [hne]
  · rw [hslot₃]
    rintro (_ | _ | _)
    · simp
    · simp
    · simp
  · rintro (_ | _ | _)
    · rfl
    · rfl
    · rfl

theorem cancelLeases_dhcp : ∀ (us : List LeaseTimer) (v : DhcpView κ),
    (us.foldl (fun v u => cancelLease u v) v).dhcp = v.dhcp
  | [], _ => rfl
  | u :: us, v => by
      rw [List.foldl_cons, cancelLeases_dhcp us, cancelLease_dhcp]

variable [DecidableEq κ]

/-- What a commit arms in: what was there before, and the timer of the responder. -/
theorem armingPool_arms (env : DhcpEnv κ) (now : Tick) (v : DhcpView κ) :
    Arms (· = env.mdns.timerCb) v.pool (armingPool env now v) := by
  have hkick : Arms (· = env.mdns.timerCb) v.pool (kickMdns env now (commitAddresses v)).pool :=
    @mdnsKick_arms κ _ env.mdns (· = env.mdns.timerCb) rfl now _ _ _
  exact hkick.trans (cancelLeases_arms leaseTimers _)

theorem commit_armed (env : DhcpEnv κ) (now : Tick) {v : DhcpView κ}
    (hpool : v.dhcp.hasPool = true) (hfree : 3 ≤ (armingPool env now v).free.length) :
    ∃ pos, LeaseArmed env (fun u => now + leaseSecs v.parsed.leaseTime u * v.dhcp.timerFreq) pos
      (armingPool env now v) (hCommitLeaseArmTimers env now v) := by
  obtain ⟨k₁, k₂, k₃, ks, hks⟩ : ∃ k₁ k₂ k₃ ks,
      (armingPool env now v).free = k₁ :: k₂ :: k₃ :: ks := by
    match hks : (armingPool env now v).free with
    | k₁ :: k₂ :: k₃ :: ks => exact ⟨k₁, k₂, k₃, ks, rfl⟩
    | [] | [_] | [_, _] =>
        rw [hks] at hfree
        simp at hfree
  have hdhcp := cancelLeases_dhcp leaseTimers (kickMdns env now (commitAddresses v))
  have harmed := armLeases_armed env now hks
  rw [hdhcp] at harmed
  have hcommit : hCommitLeaseArmTimers env now v = leaseTimers.foldl
      (fun v u => armLease env now u v)
      (leaseTimers.foldl (fun v u => cancelLease u v) (kickMdns env now (commitAddresses v))) :=
    if_pos hpool
  rw [hcommit]
  exact ⟨_, harmed⟩

theorem dispatch_armed {env : DhcpEnv κ} {now : Tick} {parsed : DhcpParsed} {v v' : DhcpView κ}
    (hcommit : dhcpCommits .rxAckValid v) (hpool : v.dhcp.hasPool = true)
    (hfree : 3 ≤ (armingPool env now { v with parsed := parsed }).free.length)
    (h : dhcpDispatch env now .ack parsed v = some v') :
    ∃ pos, LeaseArmed env (fun u => now + leaseSecs parsed.leaseTime u * v.dhcp.timerFreq) pos
      (armingPool env now { v with parsed := parsed }) v' := by
  obtain ⟨pos, harmed⟩ := @commit_armed κ _ env now { v with parsed := parsed } hpool hfree
  refine ⟨pos, ?_⟩
  have hcell : (dhcpFsaTransTable v.dhcp.state .rxAckValid).2 = some .commitLeaseArmTimers :=
    hcommit
  rw [dhcpDispatch, dhcpFsaStep] at h
  simp only [DhcpReply.evt, hcell, DhcpHandler.call, Option.map_some, Option.some.injEq] at h
  subst h
  split
  · exact ⟨harmed.cap, harmed.bound, harmed.order, harmed.entry, harmed.others, harmed.slot,
      harmed.deadline⟩
  · exact harmed

end

/-! ## What code arms -/

def NumberedCb.notOf (number : Nat) (cb : NumberedCb) : Prop := ∀ u, cb ≠ .lease number u

section
variable {freq : Tick} {hostnameLen number other : Nat}

theorem numberedEnv_among (hne : other ≠ number) :
    (numberedEnv freq hostnameLen other).Among (NumberedCb.notOf number) where
  retrans := fun _ h => nomatch h
  lease := fun _ _ h => hne (NumberedCb.lease.inj h).1
  mdns := fun _ h => nomatch h

theorem othersRun_arms (number : Nat) (calls : List OtherCall) (v : DhcpView NumberedCb) :
    Arms (NumberedCb.notOf number) v.pool (othersRun calls v).pool := by
  have hall : ∀ p, Arms (NumberedCb.notOf number) p (calls.foldl OtherCall.run p) := by
    induction calls with
    | nil => exact fun p => .refl _ p
    | cons c calls ih =>
        intro p
        refine .trans ?_ (ih (c.run p))
        cases c with
        | set x id => exact (Arms.refl _ p).set x fun _ h => nomatch h
        | cancel k => exact (Arms.refl _ p).cancel k
  exact hall v.pool

theorem call_arms (hne : other ≠ number) {now : Tick} {calls : List OtherCall} {cb : NumberedCb}
    {v v' : DhcpView NumberedCb} (h : cb.call freq hostnameLen other now calls v = some v') :
    Arms (NumberedCb.notOf number) v.pool v'.pool := by
  have hamong := @numberedEnv_among freq hostnameLen number other hne
  cases cb with
  | retrans =>
      rw [NumberedCb.call, dhcpRetransCb] at h
      split at h
      · exact dhcpFsaStep_arms hamong h
      · have harms := dhcpFsaStep_arms hamong h
        exact harms
  | lease n u => exact dhcpFsaStep_arms hamong h
  | mdns =>
      cases h
      exact mdnsTimerCb_arms hamong.mdns now v.mdns v.pool
  | other id =>
      cases h
      exact othersRun_arms number calls v

end

/-! ## The timers of one lease -/

/-- A lease that was armed: its number, and the entry and the deadline of each timer. -/
structure ArmedLease where
  number : Nat
  pos : LeaseTimer → Nat
  deadline : LeaseTimer → Tick
  order : ∀ u u', u.rank < u'.rank → pos u < pos u'
  mono : ∀ u u', u.rank ≤ u'.rank → deadline u ≤ deadline u'

section
variable (l : ArmedLease) (s : LeaseLife)

def ArmedLease.Pending (u : LeaseTimer) : Prop :=
  s.view.pool.slot (l.pos u) = some ⟨l.deadline u, .lease l.number u⟩

/-- **The invariant.** -/
structure ArmedLease.Holds : Prop where
  bound : ∀ u, l.pos u < s.view.pool.cap
  only : ∀ k x u, k < s.view.pool.cap → s.view.pool.slot k = some ⟨x, .lease l.number u⟩ →
    k = l.pos u ∧ x = l.deadline u ∧ u ∉ s.receivedOf l.number ∧ (l.number, u) ∉ s.cancelled
  left : ∀ u, l.Pending s u ∨ u ∈ s.receivedOf l.number ∨ (l.number, u) ∈ s.cancelled
  ordered : s.receivedOf l.number <+: s.notCancelled l.number

/-- `timer_check` stands before entry `k`: no timer that is due is behind it. -/
def ArmedLease.Behind (currentTick : Tick) (k : Nat) : Prop :=
  ∀ u, l.pos u < k → l.deadline u ≤ currentTick → ¬ l.Pending s u

end

/-! ### Lists in order -/

theorem prefix_snoc {α : Type} {rank : α → Nat} {xs done : List α} {x : α}
    (hsorted : xs.Pairwise fun y z => rank y < rank z) (hdone : done <+: xs) (hx : x ∈ xs)
    (hnew : x ∉ done) (hbefore : ∀ y ∈ xs, rank y < rank x → y ∈ done) : done ++ [x] <+: xs := by
  obtain ⟨rest, rfl⟩ := hdone
  have hrest : x ∈ rest := (List.mem_append.mp hx).resolve_left hnew
  obtain ⟨-, hsorted', hcross⟩ := List.pairwise_append.mp hsorted
  cases rest with
  | nil => cases hrest
  | cons y rest =>
      rcases List.mem_cons.mp hrest with rfl | hlater
      · exact ⟨rest, by simp⟩
      · -- `y` comes before `x`, so it is done; but nothing is in the list twice
        have hlt := (List.pairwise_cons.mp hsorted').1 x hlater
        have hy := hbefore y (by simp) hlt
        exact absurd (hcross y hy y (by simp)) (Nat.lt_irrefl _)

theorem prefix_filter {α : Type} {xs done : List α} {f : α → Bool} (hdone : done <+: xs)
    (hf : ∀ x ∈ done, f x = true) : done <+: xs.filter f := by
  have hfiltered := hdone.filter f
  rwa [List.filter_eq_self.mpr hf] at hfiltered

/-! ### What left, and what was given -/

theorem leaseAt_eq {p : TimerPool NumberedCb} {k n : Nat} {u : LeaseTimer} :
    leaseAt p k = some (n, u) ↔ ∃ x, p.slot k = some ⟨x, .lease n u⟩ := by
  constructor
  · intro h
    obtain ⟨⟨x, cb⟩, he, hcb⟩ := Option.bind_eq_some_iff.mp h
    cases cb with
    | lease n' u' =>
        cases hcb
        exact ⟨x, he⟩
    | retrans | mdns | other => cases hcb
  · rintro ⟨x, he⟩
    rw [leaseAt, he]
    rfl

theorem mem_gone {p p' : TimerPool NumberedCb} {n : Nat} {u : LeaseTimer} :
    (n, u) ∈ gone p p' ↔
      ∃ k < p.cap, p'.slot k ≠ p.slot k ∧ ∃ x, p.slot k = some ⟨x, .lease n u⟩ := by
  rw [gone, List.mem_filterMap]
  constructor
  · rintro ⟨k, hk, h⟩
    split at h
    · cases h
    · rename_i hne
      exact ⟨k, List.mem_range.mp hk, hne, leaseAt_eq.mp h⟩
  · rintro ⟨k, hk, hne, hx⟩
    exact ⟨k, List.mem_range.mpr hk, by rw [if_neg hne]; exact leaseAt_eq.mpr hx⟩

theorem lt_nextNumber {s : LeaseLife} {n : Nat} (h : n ∈ s.numbers) : n < s.nextNumber := by
  have hle : ∀ ns : List Nat, n ∈ ns → n ≤ ns.foldr max 0 := fun ns hn => by
    induction ns with
    | nil => cases hn
    | cons m ns ih =>
        rcases List.mem_cons.mp hn with rfl | hn
        · exact Nat.le_max_left _ _
        · exact Nat.le_trans (ih hn) (Nat.le_max_right _ _)
  exact Nat.lt_succ_of_le (hle _ h)

theorem mem_receivedOf {s : LeaseLife} {n : Nat} {u : LeaseTimer} :
    u ∈ s.receivedOf n ↔ (n, u) ∈ s.received := by
  rw [LeaseLife.receivedOf, List.mem_filterMap]
  constructor
  · rintro ⟨⟨m, w⟩, hmem, h⟩
    split at h
    next heq =>
      cases h
      cases heq
      exact hmem
    next => cases h
  · exact fun h => ⟨(n, u), h, if_pos rfl⟩

theorem number_taken {s : LeaseLife} {n : Nat} {u : LeaseTimer}
    (h : (∃ k < s.view.pool.cap, ∃ x, s.view.pool.slot k = some ⟨x, .lease n u⟩) ∨
      (n, u) ∈ s.received ∨ (n, u) ∈ s.cancelled) : n < s.nextNumber := by
  refine lt_nextNumber ?_
  rw [LeaseLife.numbers, List.mem_append, List.mem_append, or_assoc]
  rcases h with ⟨k, hk, hx⟩ | h | h
  · refine .inl (List.mem_filterMap.mpr ⟨k, List.mem_range.mpr hk, ?_⟩)
    rw [leaseAt_eq.mpr hx]
    rfl
  · exact .inr (.inl (List.mem_map_of_mem h))
  · exact .inr (.inr (List.mem_map_of_mem h))

/-! ### Steps -/

section
variable {l : ArmedLease} {s : LeaseLife}

theorem ArmedLease.Holds.taken (h : l.Holds s) : l.number < s.nextNumber := by
  refine @number_taken s l.number .t1 ?_
  rcases h.left .t1 with hp | hr | hc
  · exact .inl ⟨l.pos .t1, h.bound .t1, l.deadline .t1, hp⟩
  · exact .inr (.inl (mem_receivedOf.mp hr))
  · exact .inr (.inr hc)

theorem ArmedLease.Holds.after (h : l.Holds s) {v : DhcpView NumberedCb}
    (ha : Arms (NumberedCb.notOf l.number) s.view.pool v.pool) : l.Holds (s.after v) := by
  have hold : ∀ k x u, v.pool.slot k = some ⟨x, .lease l.number u⟩ →
      s.view.pool.slot k = some ⟨x, .lease l.number u⟩ := fun k x u hk =>
    ha.old (fun hnot => hnot u rfl) hk
  -- what is gone was in its entry, so it was not received
  have hgone : ∀ u, (l.number, u) ∈ gone s.view.pool v.pool →
      v.pool.slot (l.pos u) ≠ s.view.pool.slot (l.pos u) ∧ u ∉ s.receivedOf l.number := by
    intro u hu
    obtain ⟨k, hk, hne, x, hx⟩ := mem_gone.mp hu
    obtain ⟨rfl, -, hnew, -⟩ := h.only k x u hk hx
    exact ⟨hne, hnew⟩
  refine ⟨fun u => ?_, fun k x u hk hx => ?_, fun u => ?_, ?_⟩
  · rw [LeaseLife.after, ha.cap]
    exact h.bound u
  · obtain ⟨hpos, hd, hnew, hnot⟩ := h.only k x u (ha.cap ▸ hk) (hold k x u hx)
    refine ⟨hpos, hd, hnew, fun hmem => ?_⟩
    rcases List.mem_append.mp hmem with hmem | hmem
    · exact hnot hmem
    · refine (hgone u hmem).1 ?_
      rw [← hpos]
      exact Eq.trans hx (hold k x u hx).symm
  · rcases h.left u with hp | hr | hc
    · by_cases hsame : v.pool.slot (l.pos u) = s.view.pool.slot (l.pos u)
      · exact .inl (hsame.trans hp)
      · have hmem : (l.number, u) ∈ gone s.view.pool v.pool :=
          mem_gone.mpr ⟨l.pos u, h.bound u, hsame, l.deadline u, hp⟩
        exact .inr (.inr (List.mem_append_right _ hmem))
    · exact .inr (.inl hr)
    · exact .inr (.inr (List.mem_append_left _ hc))
  · have hfront := @prefix_filter _ _ _
      (fun u => decide ((l.number, u) ∉ gone s.view.pool v.pool)) h.ordered fun u hu =>
        decide_eq_true fun hmem => (hgone u hmem).2 hu
    have hrest : (s.after v).notCancelled l.number = (s.notCancelled l.number).filter
        fun u => decide ((l.number, u) ∉ gone s.view.pool v.pool) := by
      rw [LeaseLife.notCancelled, LeaseLife.notCancelled, List.filter_filter]
      refine List.filter_congr fun u _ => ?_
      simp [LeaseLife.after, Bool.and_comm]
    rw [hrest]
    exact hfront

theorem ArmedLease.Behind.after {t : Tick} {k : Nat} (h : l.Behind s t k) {v : DhcpView NumberedCb}
    (ha : Arms (NumberedCb.notOf l.number) s.view.pool v.pool) : l.Behind (s.after v) t k :=
  fun u hpos hd hp => h u hpos hd (ha.old (fun hnot => hnot u rfl) hp)

theorem receivedOf_fired_lease (s : LeaseLife) (k n : Nat) (x : Tick) (u : LeaseTimer) :
    (s.fired k ⟨x, .lease n u⟩).receivedOf n = s.receivedOf n ++ [u] := by
  rw [LeaseLife.receivedOf, LeaseLife.fired, List.filterMap_append]
  simp [NumberedCb.leaseTimer, LeaseLife.receivedOf]

theorem receivedOf_fired_other {n : Nat} (s : LeaseLife) (k : Nat) {e : TimerEntry NumberedCb}
    (he : e.callback.notOf n) : (s.fired k e).receivedOf n = s.receivedOf n := by
  rw [LeaseLife.receivedOf, LeaseLife.fired, List.filterMap_append]
  have hnone : e.callback.leaseTimer.toList.filterMap
      (fun x => if x.1 = n then some x.2 else none) = [] := by
    cases hcb : e.callback with
    | lease m u =>
        have hne : m ≠ n := fun heq => he u (heq ▸ hcb)
        simp [NumberedCb.leaseTimer, hne]
    | retrans | mdns | other => rfl
  rw [hnone, List.append_nil, LeaseLife.receivedOf]

theorem ArmedLease.pos_ne (l : ArmedLease) {u u' : LeaseTimer} (h : u ≠ u') :
    l.pos u ≠ l.pos u' := by
  have hrank : u.rank < u'.rank ∨ u'.rank < u.rank := by
    cases u <;> cases u' <;> simp [LeaseTimer.rank] at h ⊢
  rcases hrank with hlt | hlt
  · exact Nat.ne_of_lt (l.order u u' hlt)
  · exact Nat.ne_of_gt (l.order u' u hlt)

theorem fired_slot_ne (s : LeaseLife) {k j : Nat} (e : TimerEntry NumberedCb) (h : j ≠ k) :
    (s.fired k e).view.pool.slot j = s.view.pool.slot j := Function.update_of_ne h ..

theorem fired_slot_self (s : LeaseLife) (k : Nat) (e : TimerEntry NumberedCb) :
    (s.fired k e).view.pool.slot k = none := Function.update_self ..

theorem ArmedLease.Holds.fired_other (h : l.Holds s) {k : Nat} {e : TimerEntry NumberedCb}
    (hk : s.view.pool.slot k = some e) (he : e.callback.notOf l.number) :
    l.Holds (s.fired k e) := by
  have hrec := receivedOf_fired_other s k he
  refine ⟨h.bound, fun j x u hj hx => ?_, fun u => ?_, ?_⟩
  · have hjk : j ≠ k := by
      rintro rfl
      rw [fired_slot_self] at hx
      cases hx
    rw [fired_slot_ne s e hjk] at hx
    rw [hrec]
    exact h.only j x u hj hx
  · rw [hrec]
    refine (h.left u).imp_left fun hp => ?_
    have hne : l.pos u ≠ k := by
      intro hpos
      rw [ArmedLease.Pending, hpos, hk] at hp
      cases hp
      exact he u rfl
    exact (fired_slot_ne s e hne).trans hp
  · rw [hrec]
    exact h.ordered

/-- **A timer of the lease fires**: those before it have been. -/
theorem ArmedLease.Holds.fired_lease (h : l.Holds s) {t x : Tick} {k : Nat} {u : LeaseTimer}
    (hcap : k < s.view.pool.cap) (hk : s.view.pool.slot k = some ⟨x, .lease l.number u⟩)
    (hdue : x ≤ t) (hbehind : l.Behind s t k) : l.Holds (s.fired k ⟨x, .lease l.number u⟩) := by
  obtain ⟨rfl, rfl, hnew, hnot⟩ := h.only k x u hcap hk
  have hrec := receivedOf_fired_lease s (l.pos u) l.number (l.deadline u) u
  refine ⟨h.bound, fun j x' u' hj hx => ?_, fun u' => ?_, ?_⟩
  · have hne : j ≠ l.pos u := by
      rintro rfl
      rw [fired_slot_self] at hx
      cases hx
    rw [fired_slot_ne s _ hne] at hx
    obtain ⟨hpos, hd, hnew', hnot'⟩ := h.only j x' u' hj hx
    refine ⟨hpos, hd, ?_, hnot'⟩
    rw [hrec]
    intro hmem
    rcases List.mem_append.mp hmem with hmem | hmem
    · exact hnew' hmem
    · exact hne (hpos.trans (congrArg l.pos (List.mem_singleton.mp hmem)))
  · rw [hrec]
    by_cases hu : u' = u
    · exact .inr (.inl (by simp [hu]))
    · rcases h.left u' with hp | hr | hc
      · exact .inl ((fired_slot_ne s _ (l.pos_ne hu)).trans hp)
      · exact .inr (.inl (List.mem_append_left _ hr))
      · exact .inr (.inr hc)
  · rw [hrec]
    have hsorted : (s.notCancelled l.number).Pairwise fun y z => y.rank < z.rank :=
      List.Pairwise.filter _ (by decide)
    have hmem : u ∈ s.notCancelled l.number :=
      List.mem_filter.mpr ⟨by cases u <;> decide, decide_eq_true hnot⟩
    refine prefix_snoc hsorted h.ordered hmem hnew fun y hy hlt => ?_
    have hover : ¬ l.Pending s y :=
      hbehind y (l.order y u hlt) (BitVec.le_trans (l.mono y u (Nat.le_of_lt hlt)) hdue)
    rcases h.left y with hp | hr | hc
    · exact absurd hp hover
    · exact hr
    · exact absurd hc (of_decide_eq_true (List.mem_filter.mp hy).2)

theorem ArmedLease.Behind.fired {t : Tick} {k : Nat} (h : l.Behind s t k)
    (e : TimerEntry NumberedCb) : l.Behind (s.fired k e) t (k + 1) := by
  intro u hpos hd hp
  rw [ArmedLease.Pending] at hp
  by_cases hk : l.pos u = k
  · rw [hk, fired_slot_self] at hp
    cases hp
  · rw [fired_slot_ne s e hk] at hp
    exact h u (by omega) hd hp

theorem ArmedLease.Behind.skip {t : Tick} {k : Nat} (h : l.Behind s t k) (hholds : l.Holds s)
    (hdue : timerDue s.view.pool t k = none) : l.Behind s t (k + 1) := by
  intro u hpos hd hp
  by_cases hk : l.pos u = k
  · have hcap := hholds.bound u
    rw [ArmedLease.Pending] at hp
    rw [← hk, timerDue, if_pos hcap, hp] at hdue
    simp [hd] at hdue
  · exact h u (by omega) hd hp

variable {freq : Tick} {hostnameLen : Nat} {s' : LeaseLife}

/-- **A turn of the loop.** -/
theorem ArmedLease.Holds.visit (h : l.Holds s) {t now : Tick} {calls : List OtherCall} {k : Nat}
    (hbehind : l.Behind s t k) (hst : s.visit freq hostnameLen t now calls k = some s') :
    l.Holds s' ∧ l.Behind s' t (k + 1) := by
  rw [LeaseLife.visit] at hst
  cases hdue : timerDue s.view.pool t k with
  | none =>
      rw [hdue] at hst
      cases hst
      exact ⟨h, hbehind.skip h hdue⟩
  | some e =>
      rw [hdue] at hst
      obtain ⟨v, hcall, rfl⟩ := Option.map_eq_some_iff.mp hst
      obtain ⟨hcap, hk⟩ := timerDue_some hdue
      have hfired : l.Holds (s.fired k e) := by
        by_cases he : e.callback.notOf l.number
        · exact h.fired_other hk he
        · obtain ⟨u, hu⟩ := not_forall_not.mp he
          obtain ⟨x, cb⟩ := e
          obtain rfl : cb = .lease l.number u := hu
          exact h.fired_lease hcap hk (timerDue_le hdue) hbehind
      have harms := call_arms (Nat.ne_of_gt hfired.taken) hcall
      exact ⟨hfired.after harms, (hbehind.fired e).after harms⟩

/-- **The loop**, by induction on the entries that are left. -/
theorem ArmedLease.Holds.checkLoop {t : Tick} {now : Nat → Tick} {calls : Nat → List OtherCall} :
    ∀ {w21 k : Nat} {s : LeaseLife}, l.Holds s → l.Behind s t k →
      s.checkLoop freq hostnameLen t now calls w21 k = some s' →
      l.Holds s' ∧ l.Behind s' t (k + w21)
  | 0, _, _, h, hbehind, hst => by
      cases hst
      exact ⟨h, hbehind⟩
  | w21 + 1, k, s, h, hbehind, hst => by
      obtain ⟨s₁, hvisit, hrest⟩ := Option.bind_eq_some_iff.mp hst
      obtain ⟨h₁, hbehind₁⟩ := h.visit hbehind hvisit
      have hloop := h₁.checkLoop hbehind₁ hrest
      rwa [Nat.add_assoc, Nat.add_comm 1] at hloop

theorem ArmedLease.Holds.check (h : l.Holds s) {t : Tick} {now : Nat → Tick}
    {calls : Nat → List OtherCall}
    (hst : s.step freq hostnameLen (.check t now calls) = some s') :
    l.Holds s' ∧ ∀ u, l.deadline u ≤ t → ¬ l.Pending s' u := by
  have hstart : l.Behind s t 0 := fun u hpos => absurd hpos (Nat.not_lt_zero _)
  obtain ⟨hholds, hbehind⟩ := h.checkLoop hstart hst
  rw [Nat.zero_add] at hbehind
  exact ⟨hholds, fun u hd => hbehind u (h.bound u) hd⟩

/-- **A step keeps the invariant.** -/
theorem ArmedLease.Holds.step (h : l.Holds s) {e : LeaseEvent}
    (hst : s.step freq hostnameLen e = some s') : l.Holds s' := by
  have hamong := @numberedEnv_among freq hostnameLen _ _ (Nat.ne_of_gt h.taken)
  cases e with
  | start now hasPool hasSendFn =>
      rw [LeaseLife.step] at hst
      obtain ⟨v, hv, rfl⟩ := Option.map_eq_some_iff.mp hst
      have harms := dhcpFsaStep_arms hamong hv
      exact h.after harms
  | reply now reply parsed =>
      obtain ⟨v, hv, rfl⟩ := Option.map_eq_some_iff.mp hst
      have harms := dhcpFsaStep_arms hamong hv
      exact h.after harms
  | mdnsStart now hasPool hasSendFn =>
      cases hst
      exact h.after (mdnsTryArm_arms hamong.mdns now _ _ _)
  | others calls =>
      cases hst
      exact h.after (othersRun_arms l.number calls s.view)
  | check t now calls => exact (h.check hst).1

end

/-! ## The theorem -/

section
variable {freq : Tick} {hostnameLen : Nat} {s₀ s₁ : LeaseLife} {now : Tick} {parsed : DhcpParsed}

/-- **The commit begins the lease.** -/
theorem commit_holds (hcommit : dhcpCommits .rxAckValid s₀.view)
    (hpool : s₀.view.dhcp.hasPool = true)
    (hfit : now.toNat + parsed.leaseTime.toNat * s₀.view.dhcp.timerFreq.toNat < 2 ^ 64)
    (hfree : 3 ≤ (armingPool (numberedEnv freq hostnameLen s₀.nextNumber) now
      { s₀.view with parsed := parsed }).free.length)
    (hst : s₀.step freq hostnameLen (.reply now .ack parsed) = some s₁) :
    ∃ l : ArmedLease, l.number = s₀.nextNumber ∧ l.Holds s₁ ∧
      ∀ u, l.Pending s₁ u ∧ s₁.view.dhcp.slot u = some (l.pos u) ∧
        s₁.view.dhcp.deadline u = l.deadline u ∧
        (l.deadline u).toNat = now.toNat
          + leaseSpan parsed.leaseTime.toNat u * s₀.view.dhcp.timerFreq.toNat := by
  obtain ⟨v, hv, rfl⟩ := Option.map_eq_some_iff.mp hst
  obtain ⟨pos, harmed⟩ := dispatch_armed hcommit hpool hfree hv
  have hdeadline := fun u => leaseDeadline_toNat hfit u
  let l : ArmedLease := {
    number := s₀.nextNumber
    pos := pos
    deadline := fun u => now + leaseSecs parsed.leaseTime u * s₀.view.dhcp.timerFreq
    order := harmed.order
    mono := fun u u' hrank => by
      rw [BitVec.le_def, hdeadline, hdeadline]
      exact Nat.add_le_add_left (Nat.mul_le_mul_right _ (leaseSpan_mono _ hrank)) _ }
  have hpending : ∀ u, l.Pending (s₀.after v) u := harmed.entry
  refine ⟨l, rfl, ?_, fun u => ⟨hpending u, harmed.slot u, harmed.deadline u, hdeadline u⟩⟩
  -- nobody has seen the number before
  have hfresh : ∀ u, ¬ ((∃ k < s₀.view.pool.cap, ∃ x,
      s₀.view.pool.slot k = some ⟨x, .lease s₀.nextNumber u⟩) ∨
      (s₀.nextNumber, u) ∈ s₀.received ∨ (s₀.nextNumber, u) ∈ s₀.cancelled) :=
    fun u h => Nat.lt_irrefl _ (number_taken h)
  have hnew : ∀ u, u ∉ (s₀.after v).receivedOf s₀.nextNumber := fun u hu =>
    hfresh u (.inr (.inl (mem_receivedOf.mp hu)))
  have hnot : ∀ u, (s₀.nextNumber, u) ∉ (s₀.after v).cancelled := fun u hu => by
    rcases List.mem_append.mp hu with hu | hu
    · exact hfresh u (.inr (.inr hu))
    · obtain ⟨k, hk, -, hx⟩ := mem_gone.mp hu
      exact hfresh u (.inl ⟨k, hk, hx⟩)
  have harms := armingPool_arms (numberedEnv freq hostnameLen s₀.nextNumber) now
    { s₀.view with parsed := parsed }
  have hcap : (s₀.after v).view.pool.cap = s₀.view.pool.cap := harmed.cap.trans harms.cap
  refine ⟨fun u => ?_, fun k x u hk hx => ?_, fun u => .inl (hpending u), ?_⟩
  · exact Nat.lt_of_lt_of_eq (harmed.bound u) harmed.cap.symm
  · by_cases hpos : ∃ w, k = pos w
    · obtain ⟨w, rfl⟩ := hpos
      have heq := hx.symm.trans (hpending w)
      cases heq
      exact ⟨rfl, rfl, hnew u, hnot u⟩
    · have hother := harmed.others k fun w hw => hpos ⟨w, hw⟩
      have hne : NumberedCb.lease s₀.nextNumber u ≠ .mdns := nofun
      have hold := harms.old hne (hother.symm.trans hx)
      exact absurd (.inl ⟨k, hcap ▸ hk, x, hold⟩) (hfresh u)
  · have hnil : (s₀.after v).receivedOf s₀.nextNumber = [] :=
      List.eq_nil_iff_forall_not_mem.mpr hnew
    exact hnil ▸ List.nil_prefix

/-- **T1 before T2 before the expiry.** -/
theorem lease_timers_in_order (hcommit : dhcpCommits .rxAckValid s₀.view)
    (hpool : s₀.view.dhcp.hasPool = true)
    (hfit : now.toNat + parsed.leaseTime.toNat * s₀.view.dhcp.timerFreq.toNat < 2 ^ 64)
    (hfree : 3 ≤ (armingPool (numberedEnv freq hostnameLen s₀.nextNumber) now
      { s₀.view with parsed := parsed }).free.length)
    (hst : s₀.step freq hostnameLen (.reply now .ack parsed) = some s₁) :
    (∀ u, ∃ k, ∃ x : Tick, s₁.view.dhcp.slot u = some k ∧ s₁.view.dhcp.deadline u = x ∧
      s₁.view.pool.slot k = some ⟨x, .lease s₀.nextNumber u⟩ ∧
      x.toNat = now.toNat + leaseSpan parsed.leaseTime.toNat u * s₀.view.dhcp.timerFreq.toNat) ∧
    ∀ s, Run (LeaseLife.step freq hostnameLen) anyEvent s₁ s →
      s.receivedOf s₀.nextNumber <+: s.notCancelled s₀.nextNumber ∧
      ∀ t clock calls s', s.step freq hostnameLen (.check t clock calls) = some s' →
        ∀ u, now.toNat + leaseSpan parsed.leaseTime.toNat u * s₀.view.dhcp.timerFreq.toNat
            ≤ t.toNat →
          u ∈ s'.receivedOf s₀.nextNumber ∨ (s₀.nextNumber, u) ∈ s'.cancelled := by
  obtain ⟨l, hnumber, hholds, harmed⟩ := commit_holds hcommit hpool hfit hfree hst
  rw [← hnumber]
  refine ⟨fun u => ?_, fun s hrun => ?_⟩
  · obtain ⟨hpending, hslot, hdeadline, hnat⟩ := harmed u
    exact ⟨l.pos u, l.deadline u, hslot, hdeadline, hpending, hnat⟩
  · have hall : l.Holds s := hrun.invariant hholds fun h _ hst => h.step hst
    refine ⟨hall.ordered, fun t clock calls s' hcheck u hdue => ?_⟩
    obtain ⟨hholds', hnone⟩ := hall.check hcheck
    rw [← (harmed u).2.2.2] at hdue
    exact (hholds'.left u).resolve_left (hnone u (BitVec.le_def.mpr hdue))

end

/-- A client that waits for its ACK at 1 Hz, with a responder that waits for an address, and a pool
of which others have taken the first `n` entries. -/
def demoRequesting (n : Nat) : LeaseLife where
  view :=
    { dhcp := { hasPool := true, timerFreq := 1, state := .requesting, slot := fun _ => none }
      parsed := {}
      net := ⟨0, 0, 0⟩
      mdns := { hasPool := true, timerFreq := 1, timerSlot := none }
      pool := { timerPoolInit NumberedCb 16 with
        slot := fun k => if k < n then some ⟨5000, .other k⟩ else none }
      sent := [] }

def demoAck100 : DhcpParsed := { yiaddr := 7, leaseTime := 100 }

/-- Four entries are free.  At tick 1000 all that was armed has expired. -/
theorem lease_timers_in_order_demo : ∃ s₁ s,
    (demoRequesting 12).step 1 4 (.reply 0 .ack demoAck100) = some s₁ ∧
    s₁.step 1 4 (.check 1000 (fun _ => 1000) fun _ => []) = some s ∧
    s.receivedOf (demoRequesting 12).nextNumber = [.t1, .t2, .lease] ∧
    s.receivedOf (demoRequesting 12).nextNumber <+: s.notCancelled (demoRequesting 12).nextNumber ∧
    (.lease ∈ s.receivedOf (demoRequesting 12).nextNumber ∨
      ((demoRequesting 12).nextNumber, .lease) ∈ s.cancelled) := by
  obtain ⟨s₁, h₁, s, h, hreceived⟩ :
      ∃ s₁ ∈ (demoRequesting 12).step 1 4 (.reply 0 .ack demoAck100),
        ∃ s ∈ s₁.step 1 4 (.check 1000 (fun _ => 1000) fun _ => []),
          s.receivedOf (demoRequesting 12).nextNumber = [.t1, .t2, .lease] := by
    decide
  obtain ⟨-, hrun⟩ := lease_timers_in_order (by decide) rfl (by decide) (by decide) h₁
  obtain ⟨hfront, -⟩ := hrun s (.single trivial h)
  obtain ⟨-, hdue⟩ := hrun s₁ .refl
  exact ⟨s₁, s, h₁, h, hreceived, hfront, hdue 1000 _ _ s h .lease (by decide)⟩

/-- **Three free entries are not enough** while the responder waits for the address: it takes one,
and the expiry of the lease is not armed. -/
theorem kick_takes_entry : ¬ ∀ (v v' : DhcpView NumberedCb) (now : Tick) (parsed : DhcpParsed),
    dhcpCommits .rxAckValid v → v.dhcp.hasPool = true →
    now.toNat + parsed.leaseTime.toNat * v.dhcp.timerFreq.toNat < 2 ^ 64 →
    3 ≤ v.pool.free.length → dhcpDispatch (numberedEnv 1 4 1) now .ack parsed v = some v' →
    ∀ u, ∃ k < v'.pool.cap, (v'.pool.slot k).map TimerEntry.callback = some (.lease 1 u) := by
  intro hclaim
  obtain ⟨v', hv', hnone⟩ : ∃ v' ∈ dhcpDispatch (numberedEnv 1 4 1) 0 .ack demoAck100
      (demoRequesting 13).view, ¬ ∃ k < v'.pool.cap,
        (v'.pool.slot k).map TimerEntry.callback = some (.lease 1 .lease) := by
    decide
  exact hnone (hclaim (demoRequesting 13).view v' 0 demoAck100 (by decide) rfl (by decide)
    (by decide) hv' .lease)

end WsPi5

/-
# `WsPi5.Dhcp.Handles` — the indices of T1, T2 and the lease, and the calls that use them

`h_commit_lease_arm_timers` cancels by the three indices it kept.  An index is that of the timer it
was stored for until that timer fires; after that it is stale and stays so until the next commit.
Which timers have fired is a history that the client does not keep: it is the parameter `fired`.

**Proved here.**  The indices of the timers that have not fired are good, and stay so
(`LeaseHandlesOk`): a commit arms all three anew, and nothing else touches them.  Hence the calls
of a commit are safe if none of the timers whose index is stored has fired (`dhcpCancels_safe`).
The call that `mdns_kick` makes before is safe by its own guard.
-/
import WsPi5.Dhcp.Fsa

namespace WsPi5

variable {κ ω : Type}

/-- Who cancels in a step of the client. -/
inductive DhcpOwner where
  | lease (u : LeaseTimer)
  | mdns
  deriving DecidableEq, Repr

def DhcpEnv.kept (env : DhcpEnv κ) : DhcpOwner → κ → Prop
  | .lease u, cb => cb = env.leaseCb u
  | .mdns, cb => env.mdns.kept () cb

/-! ## The calls of `timer_cancel` -/

section
variable [DecidableEq κ] (env : DhcpEnv κ) (now : Tick)

def cancelLeaseCalls (u : LeaseTimer) (v : DhcpView κ) : List (CancelCall DhcpOwner κ) :=
  match v.dhcp.slot u with
  | some k => [⟨.lease u, k, v.pool⟩]
  | none => []

def leaseCalls : List LeaseTimer → DhcpView κ → List (CancelCall DhcpOwner κ)
  | [], _ => []
  | u :: us, v => cancelLeaseCalls u v ++ leaseCalls us (cancelLease u v)

/-- The calls of `h_commit_lease_arm_timers`. -/
def commitCalls (v : DhcpView κ) : List (CancelCall DhcpOwner κ) :=
  let v := commitAddresses v
  (mdnsKickCalls env.mdns v.net.ourIp v.mdns v.pool).map (CancelCall.mapOwner fun _ => .mdns)
    ++ if v.dhcp.hasPool then leaseCalls leaseTimers (kickMdns env now v) else []

def dhcpCommits (evt : DhcpEvt) (v : DhcpView κ) : Prop :=
  (dhcpFsaTransTable v.dhcp.state evt).2 = some .commitLeaseArmTimers

instance decDhcpCommits (evt : DhcpEvt) (v : DhcpView κ) : Decidable (dhcpCommits evt v) :=
  inferInstanceAs (Decidable (_ = _))

/-- The calls of `dhcp_fsa_step`: only a commit cancels. -/
def dhcpCancels (evt : DhcpEvt) (v : DhcpView κ) : List (CancelCall DhcpOwner κ) :=
  if dhcpCommits evt v then commitCalls env now v else []

end

/-! ## What the indices name -/

/-- The stored index of `u`, if there is one, is that of its timer. -/
def LeaseGood (env : DhcpEnv κ) (u : LeaseTimer) (v : DhcpView κ) : Prop :=
  ∀ k, v.dhcp.slot u = some k → k < v.pool.cap ∧
    ∃ e, v.pool.slot k = some e ∧ e.callback = env.leaseCb u

/-- **The invariant**: so it is for the timers that have not fired. -/
def LeaseHandlesOk (env : DhcpEnv κ) (fired : LeaseTimer → Bool) (v : DhcpView κ) : Prop :=
  v.dhcp.hasPool = true → ∀ u, fired u = false → LeaseGood env u v

section
variable {env : DhcpEnv κ} {now : Tick} {u u' : LeaseTimer} {v v' : DhcpView κ}

/-- **The frame rule**: safe calls of anybody else. -/
theorem LeaseGood.frame (h : LeaseGood env u v) (hslot : v'.dhcp.slot u = v.dhcp.slot u)
    {cs : List (CancelCall ω κ)} (names : ω → κ → Prop) (hp : PoolCalls v.pool cs v'.pool)
    (hsafe : ∀ x ∈ cs, x.Safe names) (hother : ∀ x ∈ cs, ¬ names x.owner (env.leaseCb u)) :
    LeaseGood env u v' := by
  intro k hk
  obtain ⟨hcap, e, he, hcb⟩ := h k (hslot ▸ hk)
  refine ⟨hp.cap ▸ hcap, e, hp.keeps hsafe hcap he fun x hx => ?_, hcb⟩
  rw [hcb]
  exact hother x hx

/-- An entry fires.  If it is the timer of a stored index, that timer has now fired. -/
theorem LeaseHandlesOk.freed {fired fired' : LeaseTimer → Bool} {k : Nat} {e : TimerEntry κ}
    (h : LeaseHandlesOk env fired v) (hk : v.pool.slot k = some e)
    (hfired : ∀ u, fired' u = false → fired u = false ∧
      (v.dhcp.slot u = some k → e.callback ≠ env.leaseCb u)) :
    LeaseHandlesOk env fired'
      { v with pool := { v.pool with slot := Function.update v.pool.slot k none } } := by
  intro hpool u hu m hm
  obtain ⟨hold, hcb⟩ := hfired u hu
  obtain ⟨hcap, e', he', hcb'⟩ := h hpool u hold m hm
  have hmk : m ≠ k := by
    rintro rfl
    rw [hk] at he'
    cases he'
    exact hcb hm hcb'
  refine ⟨hcap, e', ?_, hcb'⟩
  show Function.update v.pool.slot k none m = some e'
  rw [Function.update_of_ne hmk]
  exact he'

/-! ## The calls of a commit -/

theorem cancelLease_calls (u : LeaseTimer) (v : DhcpView κ) :
    PoolCalls v.pool (cancelLeaseCalls u v) (cancelLease u v).pool := by
  unfold cancelLease cancelLeaseCalls
  cases v.dhcp.slot u with
  | some k => exact PoolCalls.refl.cancel _ k
  | none => exact .refl

@[simp] theorem cancelLease_dhcp (u : LeaseTimer) (v : DhcpView κ) :
    (cancelLease u v).dhcp = v.dhcp := by
  unfold cancelLease
  split <;> rfl

theorem cancelLeaseCalls_owner (u : LeaseTimer) (v : DhcpView κ) :
    ∀ x ∈ cancelLeaseCalls u v, x.owner = .lease u := by
  intro x hx
  unfold cancelLeaseCalls at hx
  split at hx
  · rw [List.mem_singleton.mp hx]
  · cases hx

theorem cancelLeaseCalls_safe (h : LeaseGood env u v) :
    ∀ x ∈ cancelLeaseCalls u v, x.Safe env.kept := by
  intro x hx e hhit
  unfold cancelLeaseCalls at hx
  split at hx
  · rename_i k hk
    cases List.mem_singleton.mp hx
    obtain ⟨hcap, e', he', hcb⟩ := h k hk
    rw [CancelCall.hits_of_cap hcap, he'] at hhit
    cases hhit
    exact hcb
  · cases hx

theorem leaseCalls_calls : ∀ (us : List LeaseTimer) (v : DhcpView κ),
    PoolCalls v.pool (leaseCalls us v) (us.foldl (fun v u => cancelLease u v) v).pool
  | [], _ => .refl
  | u :: us, v => (cancelLease_calls u v).trans (leaseCalls_calls us (cancelLease u v))

/-- By induction on the timers still to be cancelled: cancelling one leaves the others. -/
theorem leaseCalls_safe (hinj : Function.Injective env.leaseCb) :
    ∀ (us : List LeaseTimer) {v : DhcpView κ}, us.Nodup → (∀ u ∈ us, LeaseGood env u v) →
      ∀ x ∈ leaseCalls us v, x.Safe env.kept
  | [], _, _, _ => by
      intro x hx
      cases hx
  | u :: us, v, hnodup, hgood => by
      obtain ⟨hnot, hnodup⟩ := List.nodup_cons.mp hnodup
      have hu := hgood u (by simp)
      intro x hx
      rcases List.mem_append.mp hx with hx | hx
      · exact cancelLeaseCalls_safe hu x hx
      · refine leaseCalls_safe hinj us hnodup (fun u' hu' => ?_) x hx
        refine (hgood u' (by simp [hu'])).frame (by simp) env.kept (cancelLease_calls u v)
          (cancelLeaseCalls_safe hu) fun y hy hown => ?_
        rw [cancelLeaseCalls_owner u v y hy] at hown
        have heq : u' = u := hinj hown
        exact hnot (heq ▸ hu')

theorem armLease_calls (env : DhcpEnv κ) (now : Tick) (u : LeaseTimer) (v : DhcpView κ) :
    @PoolCalls _ DhcpOwner v.pool [] (armLease env now u v).pool := PoolCalls.refl.set _ _

theorem armLeases_calls (env : DhcpEnv κ) (now : Tick) : ∀ (us : List LeaseTimer)
    (v : DhcpView κ),
    @PoolCalls _ DhcpOwner v.pool [] (us.foldl (fun v u => armLease env now u v) v).pool
  | [], _ => .refl
  | u :: us, v => (armLease_calls env now u v).trans (armLeases_calls env now us _)

theorem armLease_good (u' : LeaseTimer) (h : u' ≠ u → LeaseGood env u' v) :
    LeaseGood env u' (armLease env now u v) := by
  by_cases huu : u' = u
  · subst huu
    intro k hk
    have hk' : (timerSet v.pool (now + leaseSecs v.dhcp.leaseTime u' * v.dhcp.timerFreq)
        (env.leaseCb u')).2 = some k := by
      simpa [armLease] using hk
    obtain ⟨m, hm, _, heq⟩ | ⟨_, heq⟩ := timerSet_cases v.pool
      (now + leaseSecs v.dhcp.leaseTime u' * v.dhcp.timerFreq) (env.leaseCb u')
    · simp only [armLease, heq]
      rw [heq] at hk'
      cases hk'
      exact ⟨hm, _, Function.update_self .., rfl⟩
    · rw [heq] at hk'
      cases hk'
  · refine (h huu).frame ?_ env.kept (armLease_calls env now u v) (by simp) (by simp)
    simp [armLease, huu]

/-- **By induction on the timers armed**: in the end the index of each of them is good. -/
theorem armLeases_good : ∀ (us : List LeaseTimer) {v : DhcpView κ},
    (u ∈ us ∨ LeaseGood env u v) →
      LeaseGood env u (us.foldl (fun v u => armLease env now u v) v)
  | [], _, h => h.resolve_left (by simp)
  | w :: us, v, h => by
      refine armLeases_good us ?_
      by_cases hu : u ∈ us
      · exact .inl hu
      · refine .inr (armLease_good u fun hne => ?_)
        exact h.resolve_left (by simp [hne, hu])

theorem armLeases_hasPool (env : DhcpEnv κ) (now : Tick) : ∀ (us : List LeaseTimer)
    (v : DhcpView κ),
    (us.foldl (fun v u => armLease env now u v) v).dhcp.hasPool = v.dhcp.hasPool
  | [], _ => rfl
  | u :: us, v => armLeases_hasPool env now us (armLease env now u v)

theorem cancelLeases_hasPool : ∀ (us : List LeaseTimer) (v : DhcpView κ),
    (us.foldl (fun v u => cancelLease u v) v).dhcp.hasPool = v.dhcp.hasPool
  | [], _ => rfl
  | u :: us, v => by
      rw [List.foldl_cons, cancelLeases_hasPool us, cancelLease_dhcp]

/-! ## The engine -/

/-- The pool and the indices after a handler that commits no lease: at most the retransmit timer
is armed. -/
structure QuietHandler (v v' : DhcpView κ) : Prop where
  hasPool : v'.dhcp.hasPool = v.dhcp.hasPool
  slot : v'.dhcp.slot = v.dhcp.slot
  calls : @PoolCalls _ DhcpOwner v.pool [] v'.pool

theorem dhcpSendArm_quiet {msg : DhcpMsg} (hhas : v'.dhcp.hasPool = v.dhcp.hasPool)
    (hslot : v'.dhcp.slot = v.dhcp.slot) (hpool : v'.pool = v.pool) :
    QuietHandler v (dhcpSendArm env now msg v') := by
  refine ⟨hhas, hslot, ?_⟩
  unfold dhcpSendArm
  rw [← hpool]
  dsimp only
  split
  · exact PoolCalls.refl.set _ _
  · exact .refl

theorem dhcpCommits_ack {evt : DhcpEvt} (h : dhcpCommits evt v) : evt = .rxAckValid := by
  unfold dhcpCommits at h
  cases hs : v.dhcp.state <;> cases evt <;> simp [hs, dhcpFsaTransTable] at h ⊢

theorem ifSendFn_quiet {act : DhcpView κ → DhcpView κ} (h : QuietHandler v (act v)) :
    QuietHandler v (ifSendFn act v) := by
  unfold ifSendFn
  split
  · exact h
  · exact ⟨rfl, rfl, .refl⟩

end

section
variable [DecidableEq κ] {env : DhcpEnv κ} {now : Tick} {u : LeaseTimer} {evt : DhcpEvt}
  {v v' : DhcpView κ} {fired : LeaseTimer → Bool}

theorem DhcpHandler.call_quiet {h : DhcpHandler} (hne : h ≠ .commitLeaseArmTimers)
    (hc : h.call env now v = some v') : QuietHandler v v' := by
  cases h with
  | commitLeaseArmTimers => exact absurd rfl hne
  | panicD => cases hc
  | sendDiscover | resendDiscover | recordOfferSendRequest | resendRequestSelecting
  | sendRequestRenew | resendRequestRenew | sendRequestRebind | resendRequestRebind =>
      cases hc
      exact ifSendFn_quiet (dhcpSendArm_quiet rfl rfl rfl)

theorem kickMdns_calls (env : DhcpEnv κ) (now : Tick) (v : DhcpView κ) :
    PoolCalls v.pool ((mdnsKickCalls env.mdns v.net.ourIp v.mdns v.pool).map
      (CancelCall.mapOwner fun _ => DhcpOwner.mdns)) (kickMdns env now v).pool :=
  (mdnsKick_calls env.mdns now v.net.ourIp v.mdns v.pool).mapOwner _

theorem kickMdns_safe (env : DhcpEnv κ) (v : DhcpView κ) :
    ∀ x ∈ (mdnsKickCalls env.mdns v.net.ourIp v.mdns v.pool).map
      (CancelCall.mapOwner fun _ => DhcpOwner.mdns), x.owner = .mdns ∧ x.Safe env.kept := by
  intro x hx
  obtain ⟨y, hy, rfl⟩ := List.mem_map.mp hx
  refine ⟨rfl, fun e hhit => ?_⟩
  exact mdnsKick_safe env.mdns v.net.ourIp v.mdns v.pool y hy e hhit

theorem commit_calls (env : DhcpEnv κ) (now : Tick) (v : DhcpView κ) :
    PoolCalls v.pool (commitCalls env now v) (hCommitLeaseArmTimers env now v).pool := by
  have hkick := kickMdns_calls env now (commitAddresses v)
  unfold commitCalls hCommitLeaseArmTimers
  dsimp only
  have hhas : (kickMdns env now (commitAddresses v)).dhcp.hasPool
      = (commitAddresses v).dhcp.hasPool := rfl
  rw [hhas]
  split
  · have hall := (hkick.trans (leaseCalls_calls leaseTimers _)).trans
      (armLeases_calls env now leaseTimers _)
    rwa [List.append_nil] at hall
  · rw [List.append_nil]
    exact hkick

theorem commit_good (env : DhcpEnv κ) (now : Tick) (u : LeaseTimer) (v : DhcpView κ)
    (hpool : v.dhcp.hasPool = true) : LeaseGood env u (hCommitLeaseArmTimers env now v) := by
  unfold hCommitLeaseArmTimers
  dsimp only
  rw [if_pos (show (kickMdns env now (commitAddresses v)).dhcp.hasPool = true from hpool)]
  refine armLeases_good leaseTimers (.inl ?_)
  cases u <;> simp [leaseTimers]

theorem commit_hasPool (env : DhcpEnv κ) (now : Tick) (v : DhcpView κ) :
    (hCommitLeaseArmTimers env now v).dhcp.hasPool = v.dhcp.hasPool := by
  unfold hCommitLeaseArmTimers
  dsimp only
  split
  · rw [armLeases_hasPool, cancelLeases_hasPool]
    rfl
  · rfl

/-- **What a step of the engine can do**: run no handler or a quiet one, or commit. -/
theorem dhcpFsaStep_cases (h : dhcpFsaStep env now evt v = some v') :
    ∃ w, v'.pool = w.pool ∧ v'.dhcp.slot = w.dhcp.slot ∧ v'.dhcp.hasPool = w.dhcp.hasPool ∧
      ((dhcpCommits evt v ∧ w = hCommitLeaseArmTimers env now v) ∨
        (¬ dhcpCommits evt v ∧ QuietHandler v w)) := by
  unfold dhcpFsaStep at h
  dsimp only at h
  obtain ⟨w, hw, rfl⟩ := Option.map_eq_some_iff.mp h
  refine ⟨w, ?_, ?_, ?_, ?_⟩
  · split <;> rfl
  · split <;> rfl
  · split <;> rfl
  · unfold dhcpCommits
    cases hcell : (dhcpFsaTransTable v.dhcp.state evt).2 with
    | none =>
        rw [hcell] at hw
        cases hw
        exact .inr ⟨by simp, rfl, rfl, .refl⟩
    | some hd =>
        rw [hcell] at hw
        by_cases hcommit : hd = .commitLeaseArmTimers
        · subst hcommit
          cases hw
          exact .inl ⟨rfl, rfl⟩
        · exact .inr ⟨by simpa using hcommit, DhcpHandler.call_quiet hcommit hw⟩

theorem dhcpFsaStep_calls (h : dhcpFsaStep env now evt v = some v') :
    PoolCalls v.pool (dhcpCancels env now evt v) v'.pool := by
  obtain ⟨w, hpool, _, _, ⟨hcommit, rfl⟩ | ⟨hcommit, hquiet⟩⟩ := dhcpFsaStep_cases h
  · rw [hpool, dhcpCancels, if_pos hcommit]
    exact commit_calls env now v
  · rw [hpool, dhcpCancels, if_neg hcommit]
    exact hquiet.calls

/-- **The calls are safe** unless a commit uses the index of a timer that has fired. -/
theorem dhcpCancels_safe (now : Tick) (hinj : Function.Injective env.leaseCb)
    (hmdns : ∀ u, env.leaseCb u ≠ env.mdns.timerCb) (h : LeaseHandlesOk env fired v)
    (hfresh : dhcpCommits evt v → v.dhcp.hasPool = true →
      ∀ u, fired u = true → v.dhcp.slot u = none) :
    ∀ x ∈ dhcpCancels env now evt v, x.Safe env.kept := by
  unfold dhcpCancels
  split
  · rename_i hcommit
    intro x hx
    unfold commitCalls at hx
    dsimp only at hx
    rcases List.mem_append.mp hx with hx | hx
    · exact (kickMdns_safe env (commitAddresses v) x hx).2
    · split at hx
      · rename_i hpool
        have hpool' : v.dhcp.hasPool = true := hpool
        refine leaseCalls_safe hinj leaseTimers (by decide) (fun u _ => ?_) x hx
        -- `mdns_kick` leaves the timers of the lease alone
        have hgood : LeaseGood env u v := by
          cases hfired : fired u with
          | false => exact h hpool' u hfired
          | true =>
              intro k hk
              rw [hfresh hcommit hpool' u hfired] at hk
              cases hk
        refine hgood.frame rfl env.kept (kickMdns_calls env now (commitAddresses v))
          (fun y hy => (kickMdns_safe env (commitAddresses v) y hy).2) fun y hy hown => ?_
        rw [(kickMdns_safe env (commitAddresses v) y hy).1] at hown
        exact hmdns u hown
      · cases hx
  · simp

/-- The history after a step: a commit arms all three. -/
def firedAfter (evt : DhcpEvt) (v : DhcpView κ) (fired : LeaseTimer → Bool) : LeaseTimer → Bool :=
  if dhcpCommits evt v ∧ v.dhcp.hasPool = true then fun _ => false else fired

/-- **A step of the engine keeps the indices.** -/
theorem LeaseHandlesOk.fsaStep (h : LeaseHandlesOk env fired v)
    (hst : dhcpFsaStep env now evt v = some v') :
    LeaseHandlesOk env (firedAfter evt v fired) v' := by
  obtain ⟨w, hpool, hslot, hhas, ⟨hcommit, rfl⟩ | ⟨hcommit, hquiet⟩⟩ := dhcpFsaStep_cases hst
  · intro hp u _
    rw [hhas, commit_hasPool] at hp
    have hgood := commit_good env now u v hp
    unfold LeaseGood at hgood ⊢
    rw [hpool, hslot]
    exact hgood
  · intro hp u hfired
    rw [hhas, hquiet.hasPool] at hp
    rw [firedAfter, if_neg fun hc => hcommit hc.1] at hfired
    have hcalls : @PoolCalls _ DhcpOwner v.pool [] v'.pool := by
      rw [hpool]
      exact hquiet.calls
    refine (h hp u hfired).frame ?_ env.kept hcalls (by simp) (by simp)
    rw [hslot, hquiet.slot]

theorem dhcpFsaStep_quiet (hne : evt ≠ .rxAckValid) (h : LeaseHandlesOk env fired v)
    (hst : dhcpFsaStep env now evt v = some v') :
    @PoolCalls _ DhcpOwner v.pool [] v'.pool ∧ LeaseHandlesOk env fired v' := by
  have hno : ¬ dhcpCommits evt v := fun hc => hne (dhcpCommits_ack hc)
  constructor
  · have hcalls := dhcpFsaStep_calls hst
    rwa [dhcpCancels, if_neg hno] at hcalls
  · have hok := h.fsaStep hst
    rwa [firedAfter, if_neg fun hc => hno hc.1] at hok

theorem dhcpRetransCb_quiet (h : LeaseHandlesOk env fired v)
    (hst : dhcpRetransCb env now v = some v') :
    @PoolCalls _ DhcpOwner v.pool [] v'.pool ∧ LeaseHandlesOk env fired v' := by
  unfold dhcpRetransCb at hst
  split at hst
  · exact dhcpFsaStep_quiet (by decide) h hst
  · have h' : LeaseHandlesOk env fired
        { v with dhcp := { v.dhcp with retries := v.dhcp.retries - 1 } } := h
    have hne : DhcpEvt.timerRetransRetry ≠ .rxAckValid := by decide
    have hquiet := dhcpFsaStep_quiet hne h' hst
    exact hquiet

theorem dhcpStart_handles {hasPool hasSendFn : Bool}
    (hst : dhcpStart env now hasPool hasSendFn v = some v') :
    @PoolCalls _ DhcpOwner v.pool [] v'.pool ∧ LeaseHandlesOk env fired v' := by
  obtain ⟨w, hpool, hslot, _, ⟨hcommit, _⟩ | ⟨_, hquiet⟩⟩ := dhcpFsaStep_cases hst
  · simp [dhcpCommits, dhcpFsaTransTable] at hcommit
  · constructor
    · rw [hpool]
      exact hquiet.calls
    · intro _ u _ k hk
      rw [hslot, hquiet.slot] at hk
      cases hk

end

/-! ## What the client arms -/

/-- The callbacks of the client, and the one of the responder, are among these. -/
structure DhcpEnv.Among (env : DhcpEnv κ) (A : κ → Prop) : Prop where
  retrans : A env.retransCb
  lease : ∀ u, A (env.leaseCb u)
  mdns : A env.mdns.timerCb

section
variable {env : DhcpEnv κ} {now : Tick} {A : κ → Prop}

theorem cancelLeases_arms : ∀ (us : List LeaseTimer) (v : DhcpView κ),
    Arms A v.pool (us.foldl (fun v u => cancelLease u v) v).pool
  | [], v => .refl A v.pool
  | u :: us, v => by
      refine .trans ?_ (cancelLeases_arms us (cancelLease u v))
      unfold cancelLease
      split
      · exact (Arms.refl A _).cancel _
      · exact .refl A _

theorem armLeases_arms (hlease : ∀ u, A (env.leaseCb u)) : ∀ (us : List LeaseTimer)
    (v : DhcpView κ), Arms A v.pool (us.foldl (fun v u => armLease env now u v) v).pool
  | [], v => .refl A v.pool
  | u :: us, v =>
      have harm : Arms A v.pool (armLease env now u v).pool := (Arms.refl A v.pool).set _ (hlease u)
      harm.trans (armLeases_arms hlease us _)

theorem dhcpSendArm_arms (hretrans : A env.retransCb) {msg : DhcpMsg} {v v' : DhcpView κ}
    (hpool : v'.pool = v.pool) : Arms A v.pool (dhcpSendArm env now msg v').pool := by
  unfold dhcpSendArm
  rw [← hpool]
  dsimp only
  split
  · exact (Arms.refl A _).set _ hretrans
  · exact .refl A _

theorem ifSendFn_arms {act : DhcpView κ → DhcpView κ} {v : DhcpView κ}
    (h : Arms A v.pool (act v).pool) : Arms A v.pool (ifSendFn act v).pool := by
  unfold ifSendFn
  split
  · exact h
  · exact .refl A _

variable [DecidableEq κ]

theorem commit_arms (hlease : ∀ u, A (env.leaseCb u)) (hmdns : A env.mdns.timerCb)
    (v : DhcpView κ) : Arms A v.pool (hCommitLeaseArmTimers env now v).pool := by
  have hkick : Arms A v.pool (kickMdns env now (commitAddresses v)).pool :=
    mdnsKick_arms hmdns now _ _ _
  unfold hCommitLeaseArmTimers
  dsimp only
  split
  · have hcancelled := hkick.trans (cancelLeases_arms leaseTimers _)
    exact hcancelled.trans (armLeases_arms hlease leaseTimers _)
  · exact hkick

/-- **A step of the engine** arms timers of the client and of the responder only. -/
theorem dhcpFsaStep_arms (hA : env.Among A) {evt : DhcpEvt} {v v' : DhcpView κ}
    (h : dhcpFsaStep env now evt v = some v') : Arms A v.pool v'.pool := by
  unfold dhcpFsaStep at h
  dsimp only at h
  obtain ⟨w, hw, rfl⟩ := Option.map_eq_some_iff.mp h
  have hpool : Arms A v.pool w.pool := by
    cases hcell : (dhcpFsaTransTable v.dhcp.state evt).2 with
    | none =>
        rw [hcell] at hw
        cases hw
        exact .refl A _
    | some hd =>
        rw [hcell] at hw
        cases hd with
        | panicD => cases hw
        | commitLeaseArmTimers =>
            cases hw
            exact commit_arms hA.lease hA.mdns v
        | sendDiscover | resendDiscover | recordOfferSendRequest | resendRequestSelecting
        | sendRequestRenew | resendRequestRenew | sendRequestRebind | resendRequestRebind =>
            cases hw
            exact ifSendFn_arms (dhcpSendArm_arms hA.retrans rfl)
  split <;> exact hpool

end

end WsPi5

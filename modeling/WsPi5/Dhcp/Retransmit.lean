/-
# `WsPi5.Dhcp.Retransmit` — how the DHCP client sends a message again

Each handler that sends arms a timer with `dhcp_retrans_cb` at 4 s, and drops the index that
`timer_set` returns.  The callback takes one from the budget and has the message of the current
state sent again; with no budget left it sends E_TIMER_RETRANS_GIVEUP.

`h_commit_lease_arm_timers` cancels the timers that it replaces.  The handlers that begin a new
message do not: they set the budget to three and arm one more timer.  So the message goes by its
own timer as long as no timer is pending when it begins.

    begins (DISCOVER, REQUEST, renew, rebind)   none pending before     one pending
    again (a firing)                            that one, gone now      one pending
    commit                                      at most one             the same
    anything else of the pool's users           at most one             at most one

`DhcpLife` is the client with a clock, how often the current message was sent, and when last.
The counter neither goes back nor comes near 2^64.
-/
import WsPi5.Dhcp.Handles
import WsPi5.Lib.Run

namespace WsPi5

open Lib

/-! ## The client among the users of its pool -/

/-- The callbacks in the pool; `other` stands for those of the remaining users. -/
inductive DhcpCb where
  | retrans
  | lease (u : LeaseTimer)
  | mdns
  | other (id : Nat)
  deriving DecidableEq, Repr

def DhcpCb.own : DhcpCb → Bool
  | .retrans | .lease _ => true
  | .mdns | .other _ => false

def dhcpCbEnv (freq : Tick) (hostnameLen : Nat) : DhcpEnv DhcpCb :=
  ⟨freq, .retrans, .lease, ⟨freq, hostnameLen, .mdns⟩⟩

structure DhcpLife where
  view : DhcpView DhcpCb
  clock : Tick := 0
  /-- How often the current message was sent. -/
  sends : Nat := 0
  /-- When it was sent last. -/
  last : Tick := 0

/-- What happens next. -/
inductive DhcpInput where
  | start (now : Tick) (hasPool hasSendFn : Bool)
  | reply (now : Tick) (reply : DhcpReply) (parsed : DhcpParsed)
  /-- `timer_check` at entry `k`. -/
  | timer (now : Tick) (k : Nat)
  /-- Another user of the pool arms or cancels, or the responder changes its state. -/
  | otherSet (expiry : Tick) (cb : DhcpCb)
  | otherCancel (k : Nat)
  | otherMdns (m : Mdns)

/-- Before `dhcp_start`: the context is zero, and nothing of the client is in the pool. -/
def dhcpBefore (net : NetCfg) (mdns : Mdns) (pool : TimerPool DhcpCb) : DhcpLife where
  view := ⟨{}, {}, net, mdns, pool, []⟩

section
variable (env : DhcpEnv DhcpCb) (s : DhcpLife)

/-- A step that sends counts it, as one more of the same message or as the first of a new one. -/
def DhcpLife.after (now : Tick) (again : Bool) (v : DhcpView DhcpCb) : DhcpLife :=
  if v.sent.length = s.view.sent.length then { s with view := v, clock := now }
  else ⟨v, now, if again then s.sends + 1 else 1, now⟩

/-- The pool without entry `k`. -/
def DhcpLife.freed (k : Nat) : DhcpView DhcpCb :=
  { s.view with pool :=
    { s.view.pool with slot := Function.update s.view.pool.slot k none } }

/-- One step; `none` where the device halts, or for a callback that is not another's. -/
def dhcpLifeStep : DhcpInput → Option DhcpLife
  | .start now hasPool hasSendFn =>
      (dhcpStart env now hasPool hasSendFn s.view).map (s.after now false)
  | .reply now reply parsed => (dhcpDispatch env now reply parsed s.view).map (s.after now false)
  | .timer now k =>
      match timerDue s.view.pool now k with
      | none => some { s with clock := now }
      | some e =>
          match e.callback with
          | .retrans => (dhcpRetransCb env now (s.freed k)).map (s.after now true)
          | .lease u => (dhcpLeaseCb env now u (s.freed k)).map (s.after now false)
          | .mdns | .other _ => some { s with view := s.freed k, clock := now }
  | .otherSet x cb =>
      if cb.own then none
      else some { s with view := { s.view with pool := (timerSet s.view.pool x cb).1 } }
  | .otherCancel k => some { s with view := { s.view with pool := timerCancel s.view.pool k } }
  | .otherMdns m => some { s with view := { s.view with mdns := m } }

/-! ## The law and the condition -/

/-- A timer with `dhcp_retrans_cb` is pending in entry `k`. -/
def retransAt (p : TimerPool DhcpCb) (k : Nat) : Prop :=
  k < p.cap ∧ (p.slot k).map TimerEntry.callback = some .retrans

instance decRetransAt (p : TimerPool DhcpCb) (k : Nat) : Decidable (retransAt p k) :=
  inferInstanceAs (Decidable (_ ∧ _))

def pendingRetrans (p : TimerPool DhcpCb) : Prop := ∃ k, retransAt p k

instance decPendingRetrans (p : TimerPool DhcpCb) : Decidable (pendingRetrans p) :=
  decidable_of_iff (∃ k, k < p.cap ∧ retransAt p k)
    ⟨fun ⟨k, _, h⟩ => ⟨k, h⟩, fun ⟨k, h⟩ => ⟨k, h.1, h⟩⟩

/-- `timer_check` calls `dhcp_retrans_cb` for entry `k`. -/
def firesRetrans (now : Tick) (k : Nat) : Prop :=
  (timerDue s.view.pool now k).map TimerEntry.callback = some .retrans

instance decFiresRetrans (now : Tick) (k : Nat) : Decidable (firesRetrans s now k) :=
  inferInstanceAs (Decidable (_ = _))

/-- **The retransmission discipline** in a state: at most one timer is pending; one that fires
with budget left does so 4 s after the message was sent last; one that finds the budget used up
(E_TIMER_RETRANS_GIVEUP) does so when the message was sent 1 + `DHCP_MAX_RETRIES` times, and is
unanswered (an ACK, the answer that begins no message, leads to BOUND). -/
structure RetransDiscipline : Prop where
  one : ∀ j k, retransAt s.view.pool j → retransAt s.view.pool k → j = k
  spaced : ∀ now k, firesRetrans s now k → s.view.dhcp.retries ≠ 0 →
    s.last.toNat + env.freq.toNat * 4 ≤ now.toNat
  giveup : ∀ now k, firesRetrans s now k → s.view.dhcp.retries = 0 →
    s.sends = 1 + dhcpMaxRetries ∧ s.view.dhcp.state ≠ .bound

def DhcpHandler.begins : DhcpHandler → Bool
  | .sendDiscover | .recordOfferSendRequest | .sendRequestRenew | .sendRequestRebind => true
  | .resendDiscover | .resendRequestSelecting | .commitLeaseArmTimers | .resendRequestRenew
  | .resendRequestRebind | .panicD => false

/-- The event of a step that is not a retransmission, with the state it comes in. -/
def DhcpInput.event : DhcpInput → Option (DhcpState × DhcpEvt)
  | .start _ _ _ => some (.init, .start)
  | .reply _ r _ => some (s.view.dhcp.state, r.evt)
  | .timer now k =>
      match (timerDue s.view.pool now k).map TimerEntry.callback with
      | some (.lease u) => some (s.view.dhcp.state, u.evt)
      | _ => none
  | .otherSet _ _ | .otherCancel _ | .otherMdns _ => none

/-- The condition on a handler: a new message begins, and a lease is committed with no budget
left, only when no retransmission timer is pending. -/
def mayCall (h : DhcpHandler) : Prop :=
  (h.begins = true ∨ h = .commitLeaseArmTimers ∧ s.view.dhcp.retries = 0) →
    ¬ pendingRetrans s.view.pool

instance decMayCall (h : DhcpHandler) : Decidable (mayCall s h) :=
  inferInstanceAs (Decidable (_ → _))

/-- The counter goes on, and has not come near its end. -/
def ticksOn : DhcpInput → Prop
  | .start now _ _ | .reply now _ _ | .timer now _ =>
      s.clock ≤ now ∧ now.toNat + env.freq.toNat * 4 < 2 ^ 64
  | .otherSet _ _ | .otherCancel _ | .otherMdns _ => True

instance decTicksOn : ∀ inp, Decidable (ticksOn env s inp)
  | .start _ _ _ | .reply _ _ _ | .timer _ _ => inferInstanceAs (Decidable (_ ∧ _))
  | .otherSet _ _ | .otherCancel _ | .otherMdns _ => isTrue trivial

/-- **The condition** on a step. -/
def oneMessage (inp : DhcpInput) : Prop :=
  ticksOn env s inp ∧ ∀ c ∈ inp.event s, ∀ h ∈ (dhcpFsaTransTable c.1 c.2).2, mayCall s h

instance decOneMessage (inp : DhcpInput) : Decidable (oneMessage env s inp) :=
  inferInstanceAs (Decidable (_ ∧ _))

end

/-! ## What the handlers do -/

/-- From `v` to `v'` nothing was sent, the budget stayed, and no retransmission timer was armed. -/
structure Aside (v v' : DhcpView DhcpCb) : Prop where
  pool : Arms (· ≠ .retrans) v.pool v'.pool
  sent : v'.sent = v.sent
  retries : v'.dhcp.retries = v.dhcp.retries
  freq : v'.dhcp.timerFreq = v.dhcp.timerFreq

/-- One message was sent, and its timer armed if there is a pool with room. -/
structure Transmits (now : Tick) (v v' : DhcpView DhcpCb) : Prop where
  pool : v'.pool = v.pool ∨
    v'.pool = (timerSet v.pool (now + v.dhcp.timerFreq * 4) .retrans).1
  sent : v'.sent.length = v.sent.length + 1
  freq : v'.dhcp.timerFreq = v.dhcp.timerFreq

section
variable {freq now : Tick} {hostnameLen : Nat} {v v' v'' : DhcpView DhcpCb} {hd : DhcpHandler}

theorem Aside.refl (v : DhcpView DhcpCb) : Aside v v := ⟨.refl _ _, rfl, rfl, rfl⟩

theorem Aside.trans (h : Aside v v') (h' : Aside v' v'') : Aside v v'' :=
  ⟨h.pool.trans h'.pool, h'.sent.trans h.sent, h'.retries.trans h.retries, h'.freq.trans h.freq⟩

theorem Aside.foldl {α : Type} {f : DhcpView DhcpCb → α → DhcpView DhcpCb}
    (hf : ∀ v a, Aside v (f v a)) : ∀ (as : List α) (v : DhcpView DhcpCb), Aside v (as.foldl f v)
  | [], v => .refl v
  | a :: as, v => (hf v a).trans (Aside.foldl hf as (f v a))

theorem kickMdns_aside (freq now : Tick) (hostnameLen : Nat) (v : DhcpView DhcpCb) :
    Aside v (kickMdns (dhcpCbEnv freq hostnameLen) now v) :=
  ⟨mdnsKick_arms nofun now _ _ _, rfl, rfl, rfl⟩

theorem cancelLease_aside (v : DhcpView DhcpCb) (u : LeaseTimer) : Aside v (cancelLease u v) := by
  unfold cancelLease
  split
  · exact ⟨(Arms.refl _ _).cancel _, rfl, rfl, rfl⟩
  · exact .refl v

theorem armLease_aside (v : DhcpView DhcpCb) (u : LeaseTimer) :
    Aside v (armLease (dhcpCbEnv freq hostnameLen) now u v) :=
  ⟨(Arms.refl _ _).set _ nofun, rfl, rfl, rfl⟩

/-- **A commit** leaves the message and its timer alone. -/
theorem commit_aside (v : DhcpView DhcpCb) :
    Aside v (hCommitLeaseArmTimers (dhcpCbEnv freq hostnameLen) now v) := by
  have hstamp : Aside v (commitAddresses v) := ⟨.refl _ _, rfl, rfl, rfl⟩
  have hkick := hstamp.trans (kickMdns_aside freq now hostnameLen _)
  unfold hCommitLeaseArmTimers
  dsimp only
  split
  · exact (hkick.trans (Aside.foldl cancelLease_aside leaseTimers _)).trans
      (Aside.foldl armLease_aside leaseTimers _)
  · exact hkick

theorem dhcpSendArm_sends (msg : DhcpMsg) (hsent : v'.sent = v.sent) (hpool : v'.pool = v.pool)
    (hfreq : v'.dhcp.timerFreq = v.dhcp.timerFreq) :
    Transmits now v (dhcpSendArm (dhcpCbEnv freq hostnameLen) now msg v') := by
  refine ⟨?_, by simp [dhcpSendArm, hsent], hfreq⟩
  unfold dhcpSendArm
  rw [hpool, hfreq]
  dsimp only
  split
  · exact .inr rfl
  · exact .inl rfl

theorem ifSendFn_cases (act : DhcpView DhcpCb → DhcpView DhcpCb) (v : DhcpView DhcpCb) :
    ifSendFn act v = v ∨ ifSendFn act v = act v := by
  unfold ifSendFn
  split
  · exact .inr rfl
  · exact .inl rfl

/-- The handlers of E_TIMER_RETRANS_RETRY. -/
def DhcpHandler.again : DhcpHandler → Bool
  | .resendDiscover | .resendRequestSelecting | .resendRequestRenew | .resendRequestRebind => true
  | .sendDiscover | .recordOfferSendRequest | .commitLeaseArmTimers | .sendRequestRenew
  | .sendRequestRebind | .panicD => false

/-- **A message is sent**, a new one with a budget of three, or nothing happens (no `send_fn`). -/
theorem sending_call (hb : hd.begins = true ∨ hd.again = true)
    (hc : hd.call (dhcpCbEnv freq hostnameLen) now v = some v') :
    v' = v ∨ (Transmits now v v' ∧
      v'.dhcp.retries = if hd.begins then dhcpMaxRetries else v.dhcp.retries) := by
  have sends : ∀ {act : DhcpView DhcpCb → DhcpView DhcpCb} {n : Nat},
      (Transmits now v (act v) ∧ (act v).dhcp.retries = n) →
        ifSendFn act v = v ∨ (Transmits now v (ifSendFn act v) ∧
          (ifSendFn act v).dhcp.retries = n) := by
    intro act n hact
    rcases ifSendFn_cases act v with h | h
    · exact .inl h
    · rw [h]
      exact .inr hact
  cases hd with
  | commitLeaseArmTimers | panicD => simp [DhcpHandler.begins, DhcpHandler.again] at hb
  | sendDiscover | recordOfferSendRequest | sendRequestRenew | sendRequestRebind
  | resendDiscover | resendRequestSelecting | resendRequestRenew | resendRequestRebind =>
      cases hc
      exact sends ⟨dhcpSendArm_sends _ rfl rfl rfl, rfl⟩

end

/-! ## One step of the engine -/

/-- The rows of the table: nothing, the halt, a new message, a commit, or the same again. -/
theorem dhcpTable_rows (st : DhcpState) (evt : DhcpEvt) :
    dhcpFsaTransTable st evt = (none, none) ∨ dhcpFsaTransTable st evt = (none, some .panicD) ∨
    ∃ st' hd, dhcpFsaTransTable st evt = (some st', some hd) ∧
      (hd.begins = true ∧ evt ≠ .timerRetransRetry ∧ evt ≠ .timerRetransGiveup ∧
          st' ≠ .bound ∧ st' ≠ .init ∧ (st = .init → evt = .start) ∨
        hd = .commitLeaseArmTimers ∧ evt = .rxAckValid ∧ st' = .bound ∧ st ≠ .init ∨
        hd.again = true ∧ evt = .timerRetransRetry ∧ st' = st ∧ st ≠ .bound ∧ st ≠ .init) := by
  cases st <;> cases evt <;>
    first
      | exact .inl rfl
      | exact .inr (.inl rfl)
      | exact .inr (.inr ⟨_, _, rfl, by decide⟩)

/-- What a step of the engine can be. -/
inductive DhcpAct (now : Tick) (evt : DhcpEvt) (v v' : DhcpView DhcpCb) : Prop where
  | nothing (hcell : (dhcpFsaTransTable v.dhcp.state evt).2 = none) (heq : v' = v)
  | begins {hd : DhcpHandler} (hcell : (dhcpFsaTransTable v.dhcp.state evt).2 = some hd)
      (hb : hd.begins = true) (hne : evt ≠ .timerRetransRetry ∧ evt ≠ .timerRetransGiveup)
      (hstate : v'.dhcp.state ≠ .bound ∧ v'.dhcp.state ≠ .init)
      (hinit : v.dhcp.state = .init → evt = .start)
      (hsend : Aside v v' ∨ (Transmits now v v' ∧ v'.dhcp.retries = dhcpMaxRetries))
  | commit (hcell : (dhcpFsaTransTable v.dhcp.state evt).2 = some .commitLeaseArmTimers)
      (hevt : evt = .rxAckValid) (hstate : v'.dhcp.state = .bound) (hinit : v.dhcp.state ≠ .init)
      (haside : Aside v v')
  | again (hevt : evt = .timerRetransRetry) (hstate : v'.dhcp.state = v.dhcp.state)
      (hbound : v.dhcp.state ≠ .bound) (hinit : v.dhcp.state ≠ .init)
      (hsend : Aside v v' ∨ (Transmits now v v' ∧ v'.dhcp.retries = v.dhcp.retries))

section
variable {freq now : Tick} {hostnameLen : Nat} {v v' w : DhcpView DhcpCb} {evt : DhcpEvt}

theorem Aside.withState (h : Aside v w) (st : DhcpState) :
    Aside v { w with dhcp := { w.dhcp with state := st } } :=
  ⟨h.pool, h.sent, h.retries, h.freq⟩

theorem Transmits.withState (h : Transmits now v w) (st : DhcpState) :
    Transmits now v { w with dhcp := { w.dhcp with state := st } } :=
  ⟨h.pool, h.sent, h.freq⟩

/-- **The inversion lemma.** -/
theorem dhcpFsaStep_act (h : dhcpFsaStep (dhcpCbEnv freq hostnameLen) now evt v = some v') :
    DhcpAct now evt v v' := by
  unfold dhcpFsaStep at h
  dsimp only at h
  rcases dhcpTable_rows v.dhcp.state evt with hrow | hrow | ⟨st', hd, hrow, hkind⟩
  · rw [hrow] at h
    cases h
    exact .nothing (by rw [hrow]) rfl
  · rw [hrow] at h
    cases h
  · rw [hrow] at h
    obtain ⟨w, hw, rfl⟩ := Option.map_eq_some_iff.mp h
    have hcell : (dhcpFsaTransTable v.dhcp.state evt).2 = some hd := by rw [hrow]
    rcases hkind with ⟨hb, hr, hg, hnb, hni, hinit⟩ | ⟨rfl, hevt, hst, hni⟩ |
      ⟨ha, hevt, hst, hnb, hni⟩
    · refine .begins hcell hb ⟨hr, hg⟩ ⟨hnb, hni⟩ hinit ?_
      rcases sending_call (.inl hb) hw with rfl | ⟨hsends, hretries⟩
      · exact .inl ((Aside.refl _).withState st')
      · rw [if_pos hb] at hretries
        exact .inr ⟨hsends.withState st', hretries⟩
    · cases hw
      exact .commit hcell hevt hst hni ((commit_aside v).withState st')
    · refine .again hevt hst hnb hni ?_
      rcases sending_call (.inr ha) hw with rfl | ⟨hsends, hretries⟩
      · exact .inl ((Aside.refl _).withState st')
      · have hno : hd.begins = false := by cases hd <;> first | rfl | cases ha
        rw [hno] at hretries
        exact .inr ⟨hsends.withState st', hretries⟩

end

/-! ## The timer -/

section
variable {p p' : TimerPool DhcpCb} {j k : Nat} {x : Tick}

theorem retransAt_entry : retransAt p k ↔
    k < p.cap ∧ ∃ e, p.slot k = some e ∧ e.callback = .retrans := by
  unfold retransAt
  rw [Option.map_eq_some_iff]

theorem retransAt_arms (h : Arms (· ≠ .retrans) p p') (hk : retransAt p' k) :
    retransAt p k ∧ p'.slot k = p.slot k := by
  obtain ⟨hcap, e, he, hcb⟩ := retransAt_entry.mp hk
  have hold := h.old (fun hne => hne hcb) he
  exact ⟨retransAt_entry.mpr ⟨h.cap ▸ hcap, e, hold, hcb⟩, he.trans hold.symm⟩

theorem pendingRetrans_arms (h : Arms (· ≠ .retrans) p p') (hp : pendingRetrans p') :
    pendingRetrans p := by
  obtain ⟨k, hk⟩ := hp
  exact ⟨k, (retransAt_arms h hk).1⟩

theorem retransAt_set (hnone : ¬ pendingRetrans p) :
    ∃ k, ∀ j, retransAt (timerSet p x .retrans).1 j →
      j = k ∧ (timerSet p x .retrans).1.slot j = some ⟨x, .retrans⟩ := by
  obtain ⟨k, _, _, heq⟩ | ⟨_, heq⟩ := timerSet_cases p x DhcpCb.retrans
  · refine ⟨k, fun j hj => ?_⟩
    rw [heq] at hj ⊢
    by_cases hjk : j = k
    · subst hjk
      exact ⟨rfl, Function.update_self ..⟩
    · obtain ⟨hcap, hcb⟩ := hj
      simp only [Function.update_of_ne hjk] at hcb
      exact absurd ⟨j, hcap, hcb⟩ hnone
  · refine ⟨0, fun j hj => ?_⟩
    rw [heq] at hj
    exact absurd ⟨j, hj⟩ hnone

theorem pendingRetrans_freed (hone : ∀ i j, retransAt p i → retransAt p j → i = j)
    (hk : retransAt p k) :
    ¬ pendingRetrans { p with slot := Function.update p.slot k none } := by
  rintro ⟨j, hcap, hcb⟩
  by_cases hjk : j = k
  · subst hjk
    simp at hcb
  · simp only [Function.update_of_ne hjk] at hcb
    exact hjk (hone j k ⟨hcap, hcb⟩ hk)

end

/-! ## The invariant -/

/-- One timer at most, due 4 s after the last transmission; transmissions and budget add up. -/
structure RetransInv (freq : Tick) (s : DhcpLife) : Prop where
  one : ∀ j k, retransAt s.view.pool j → retransAt s.view.pool k → j = k
  due : ∀ k e, retransAt s.view.pool k → s.view.pool.slot k = some e →
    e.expiry.toNat = s.last.toNat + freq.toNat * 4
  budget : pendingRetrans s.view.pool → s.view.dhcp.state ≠ .bound →
    s.sends + s.view.dhcp.retries = 1 + dhcpMaxRetries
  bound : pendingRetrans s.view.pool → s.view.dhcp.state = .bound → s.view.dhcp.retries ≠ 0
  freq : s.view.dhcp.state ≠ .init → s.view.dhcp.timerFreq = freq

section
variable {freq now : Tick} {hostnameLen : Nat} {s : DhcpLife} {v v' : DhcpView DhcpCb}
  {evt : DhcpEvt} {again : Bool}

theorem RetransInv.of_none (hnone : ¬ pendingRetrans s.view.pool)
    (hfreq : s.view.dhcp.state ≠ .init → s.view.dhcp.timerFreq = freq) : RetransInv freq s where
  one := fun j _ hj _ => absurd ⟨j, hj⟩ hnone
  due := fun k _ hk _ => absurd ⟨k, hk⟩ hnone
  budget := fun hp => absurd hp hnone
  bound := fun hp => absurd hp hnone
  freq := hfreq

/-- **A step aside** keeps it; one that leads to BOUND does so with budget left. -/
theorem RetransInv.aside (h : RetransInv freq s) (ha : Aside s.view v')
    (hstate : v'.dhcp.state = s.view.dhcp.state ∨ v'.dhcp.state = .bound ∧
      s.view.dhcp.state ≠ .init ∧ (pendingRetrans s.view.pool → s.view.dhcp.retries ≠ 0)) :
    RetransInv freq { s with view := v', clock := now } where
  one := fun j k hj hk => h.one j k (retransAt_arms ha.pool hj).1 (retransAt_arms ha.pool hk).1
  due := by
    intro k e hk he
    obtain ⟨hold, hslot⟩ := retransAt_arms ha.pool hk
    exact h.due k e hold (hslot.symm.trans he)
  budget := by
    intro hp hne
    rcases hstate with hsame | ⟨hb, _⟩
    · show s.sends + v'.dhcp.retries = _
      rw [ha.retries]
      exact h.budget (pendingRetrans_arms ha.pool hp) (hsame ▸ hne)
    · exact absurd hb hne
  bound := by
    intro hp hb
    show v'.dhcp.retries ≠ 0
    rw [ha.retries]
    rcases hstate with hsame | ⟨_, _, hleft⟩
    · exact h.bound (pendingRetrans_arms ha.pool hp) (hsame ▸ hb)
    · exact hleft (pendingRetrans_arms ha.pool hp)
  freq := by
    intro hne
    show v'.dhcp.timerFreq = freq
    rw [ha.freq]
    rcases hstate with hsame | ⟨_, hni, _⟩
    · exact h.freq (hsame ▸ hne)
    · exact h.freq hni

/-- **A message is sent** with no timer pending: its own is now the only one. -/
theorem RetransInv.armed {sends : Nat} (hnone : ¬ pendingRetrans v.pool) (hs : Transmits now v v')
    (hfreq : v.dhcp.timerFreq = freq) (hclock : now.toNat + freq.toNat * 4 < 2 ^ 64)
    (hbudget : sends + v'.dhcp.retries = 1 + dhcpMaxRetries) (hstate : v'.dhcp.state ≠ .bound) :
    RetransInv freq ⟨v', now, sends, now⟩ := by
  have hfreq' : v'.dhcp.state ≠ .init → v'.dhcp.timerFreq = freq := fun _ => hs.freq.trans hfreq
  rcases hs.pool with hpool | hpool
  · exact .of_none (by rwa [← hpool] at hnone) hfreq'
  · obtain ⟨k, hk⟩ := retransAt_set (x := now + v.dhcp.timerFreq * 4) hnone
    rw [← hpool] at hk
    refine ⟨fun i j hi hj => (hk i hi).1.trans (hk j hj).1.symm, ?_, fun _ _ => hbudget,
      fun _ hb => absurd hb hstate, hfreq'⟩
    intro j e hj he
    have hentry := (hk j hj).2.symm.trans he
    cases hentry
    show (now + v.dhcp.timerFreq * 4).toNat = now.toNat + freq.toNat * 4
    rw [hfreq]
    have h4 : (4 : Tick).toNat = 4 := rfl
    rw [BitVec.toNat_add, BitVec.toNat_mul, h4]
    omega

theorem after_quiet (h : v'.sent = s.view.sent) :
    s.after now again v' = { s with view := v', clock := now } := by
  unfold DhcpLife.after
  rw [if_pos (by rw [h])]

theorem after_sends (h : Transmits now v v') (hsent : v.sent = s.view.sent) :
    s.after now again v' = ⟨v', now, if again then s.sends + 1 else 1, now⟩ := by
  unfold DhcpLife.after
  rw [if_neg (by rw [h.sent, hsent]; omega)]

theorem RetransInv.after_none (hnone : ¬ pendingRetrans v'.pool)
    (hfreq : v'.dhcp.state ≠ .init → v'.dhcp.timerFreq = freq) :
    RetransInv freq (s.after now again v') := by
  unfold DhcpLife.after
  split <;> exact .of_none hnone hfreq

theorem RetransInv.begun (hnone : ¬ pendingRetrans v.pool) (hsent : v.sent = s.view.sent)
    (hfreq : v.dhcp.timerFreq = freq) (hclock : now.toNat + freq.toNat * 4 < 2 ^ 64)
    (hstate : v'.dhcp.state ≠ .bound)
    (hsend : Aside v v' ∨ (Transmits now v v' ∧ v'.dhcp.retries = dhcpMaxRetries)) :
    RetransInv freq (s.after now false v') := by
  rcases hsend with ha | ⟨hs, hretries⟩
  · exact .after_none (fun hp => hnone (pendingRetrans_arms ha.pool hp)) fun _ =>
      ha.freq.trans hfreq
  · rw [after_sends hs hsent]
    exact .armed hnone hs hfreq hclock (by rw [hretries]; rfl) hstate

/-- **An answer, or a timer of the lease.** -/
theorem RetransInv.event (h : RetransInv freq s) (hv : Aside s.view v)
    (hvst : v.dhcp.state = s.view.dhcp.state) (hne : evt ≠ .timerRetransRetry ∧ evt ≠ .start)
    (hmay : ∀ hd, (dhcpFsaTransTable s.view.dhcp.state evt).2 = some hd → mayCall s hd)
    (hclock : now.toNat + freq.toNat * 4 < 2 ^ 64)
    (hst : dhcpFsaStep (dhcpCbEnv freq hostnameLen) now evt v = some v') :
    RetransInv freq (s.after now false v') := by
  cases dhcpFsaStep_act hst with
  | nothing _ heq =>
      subst heq
      rw [after_quiet hv.sent]
      exact h.aside hv (.inl hvst)
  | begins hcell hb _ hstate hinit hsend =>
      rw [hvst] at hcell hinit
      have hnone := hmay _ hcell (.inl hb)
      have hni : s.view.dhcp.state ≠ .init := fun hi => hne.2 (hinit hi)
      exact .begun (fun hp => hnone (pendingRetrans_arms hv.pool hp)) hv.sent
        (hv.freq.trans (h.freq hni)) hclock hstate.1 hsend
  | commit hcell _ hstate hinit haside =>
      rw [hvst] at hcell hinit
      have hall := hv.trans haside
      rw [after_quiet hall.sent]
      refine h.aside hall (.inr ⟨hstate, hinit, fun hp h0 => ?_⟩)
      exact hmay _ hcell (.inr ⟨rfl, h0⟩) hp
  | again hevt _ _ _ _ => exact absurd hevt hne.1

theorem freed_aside (s : DhcpLife) (k : Nat) : Aside s.view (s.freed k) :=
  ⟨(Arms.refl _ _).free k, rfl, rfl, rfl⟩

/-- **The timer itself**: the last one pending, so that the message can be sent again. -/
theorem RetransInv.fired (h : RetransInv freq s) {k : Nat} (hk : retransAt s.view.pool k)
    (hclock : now.toNat + freq.toNat * 4 < 2 ^ 64)
    (hst : dhcpRetransCb (dhcpCbEnv freq hostnameLen) now (s.freed k) = some v') :
    RetransInv freq (s.after now true v') := by
  have hnone : ¬ pendingRetrans (s.freed k).pool := pendingRetrans_freed h.one hk
  unfold dhcpRetransCb at hst
  split at hst
  · -- the budget is used up: where the device does not halt, the table has no handler
    cases dhcpFsaStep_act hst with
    | nothing _ heq =>
        subst heq
        exact .after_none hnone h.freq
    | begins _ _ hne _ _ _ => exact absurd rfl hne.2
    | commit _ hevt _ _ _ => cases hevt
    | again hevt _ _ _ _ => cases hevt
  · rename_i hleft
    have hleft' : s.view.dhcp.retries ≠ 0 := hleft
    cases dhcpFsaStep_act hst with
    | nothing _ heq =>
        subst heq
        exact .after_none hnone h.freq
    | begins _ _ hne _ _ _ => exact absurd rfl hne.1
    | commit _ hevt _ _ _ => cases hevt
    | again _ hstate hbound hinit hsend =>
        have hfreq : s.view.dhcp.timerFreq = freq := h.freq hinit
        rcases hsend with ha | ⟨hs, hretries⟩
        · exact .after_none (fun hp => hnone (pendingRetrans_arms ha.pool hp)) fun _ =>
            ha.freq.trans hfreq
        · rw [after_sends hs rfl]
          refine .armed ?_ hs hfreq hclock ?_ (hstate ▸ hbound)
          · exact hnone
          have hsum := h.budget ⟨k, hk⟩ hbound
          rw [hretries, if_pos rfl]
          show s.sends + 1 + (s.view.dhcp.retries - 1) = 1 + dhcpMaxRetries
          omega

theorem retransAt_due {e : TimerEntry DhcpCb} {p : TimerPool DhcpCb} {k : Nat}
    (hdue : timerDue p now k = some e) (hcb : e.callback = .retrans) : retransAt p k := by
  obtain ⟨hcap, he⟩ := timerDue_some hdue
  exact retransAt_entry.mpr ⟨hcap, e, he, hcb⟩

/-- **The step lemma.** -/
theorem RetransInv.step {inp : DhcpInput} {s' : DhcpLife} (h : RetransInv freq s)
    (hok : oneMessage (dhcpCbEnv freq hostnameLen) s inp)
    (hst : dhcpLifeStep (dhcpCbEnv freq hostnameLen) s inp = some s') : RetransInv freq s' := by
  obtain ⟨hticks, hmay⟩ := hok
  cases inp with
  | start now hasPool hasSendFn =>
      simp only [dhcpLifeStep] at hst
      obtain ⟨v', hv', rfl⟩ := Option.map_eq_some_iff.mp hst
      have hnone := hmay (.init, .start) rfl .sendDiscover rfl (.inl rfl)
      cases dhcpFsaStep_act hv' with
      | nothing hcell _ => cases hcell
      | begins _ _ _ hstate _ hsend =>
          refine .begun ?_ ?_ ?_ hticks.2 hstate.1 hsend
          · exact hnone
          · rfl
          · rfl
      | commit _ hevt _ _ _ => cases hevt
      | again hevt _ _ _ _ => cases hevt
  | reply now r parsed =>
      simp only [dhcpLifeStep] at hst
      obtain ⟨v', hv', rfl⟩ := Option.map_eq_some_iff.mp hst
      have haside : Aside s.view { s.view with parsed := parsed } := ⟨.refl _ _, rfl, rfl, rfl⟩
      exact h.event haside rfl (by cases r <;> exact ⟨nofun, nofun⟩)
        (fun hd hcell => hmay _ rfl hd hcell) hticks.2 hv'
  | timer now k =>
      have hclock : now.toNat + freq.toNat * 4 < 2 ^ 64 := hticks.2
      simp only [dhcpLifeStep] at hst
      split at hst
      · cases hst
        exact h.aside (.refl _) (.inl rfl)
      · rename_i e hdue
        split at hst
        · rename_i hcb
          obtain ⟨v', hv', rfl⟩ := Option.map_eq_some_iff.mp hst
          exact h.fired (retransAt_due hdue hcb) hclock hv'
        · rename_i u hcb
          obtain ⟨v', hv', rfl⟩ := Option.map_eq_some_iff.mp hst
          refine h.event (freed_aside s k) rfl (by cases u <;> exact ⟨nofun, nofun⟩)
            (fun hd hcell => hmay (s.view.dhcp.state, u.evt) ?_ hd hcell) hclock hv'
          simp only [DhcpInput.event, hdue, Option.map_some, hcb]
          rfl
        · cases hst
          exact h.aside (freed_aside s k) (.inl rfl)
        · cases hst
          exact h.aside (freed_aside s k) (.inl rfl)
  | otherSet x cb =>
      simp only [dhcpLifeStep] at hst
      split at hst
      · cases hst
      · rename_i hown
        cases hst
        have hcb : cb ≠ .retrans := fun heq => hown (by rw [heq]; rfl)
        exact h.aside ⟨(Arms.refl _ _).set x hcb, rfl, rfl, rfl⟩ (.inl rfl)
  | otherCancel k =>
      cases hst
      exact h.aside ⟨(Arms.refl _ _).cancel k, rfl, rfl, rfl⟩ (.inl rfl)
  | otherMdns m =>
      cases hst
      exact h.aside ⟨.refl _ _, rfl, rfl, rfl⟩ (.inl rfl)

/-- **The invariant gives the discipline.** -/
theorem RetransInv.discipline (h : RetransInv freq s) :
    RetransDiscipline (dhcpCbEnv freq hostnameLen) s where
  one := h.one
  spaced := by
    intro now k hfires _
    obtain ⟨e, hdue, hcb⟩ := Option.map_eq_some_iff.mp hfires
    have hexp := h.due k e (retransAt_due hdue hcb) (timerDue_some hdue).2
    have hle : e.expiry.toNat ≤ now.toNat := timerDue_le hdue
    show s.last.toNat + freq.toNat * 4 ≤ now.toNat
    omega
  giveup := by
    intro now k hfires h0
    obtain ⟨e, hdue, hcb⟩ := Option.map_eq_some_iff.mp hfires
    have hp : pendingRetrans s.view.pool := ⟨k, retransAt_due hdue hcb⟩
    have hne : s.view.dhcp.state ≠ .bound := fun hb => h.bound hp hb h0
    have hsum := h.budget hp hne
    exact ⟨by omega, hne⟩

end

/-- **The retransmission discipline** in every run of the client in which no message begins, and
no lease is committed with the budget used up, while a retransmission timer is pending. -/
theorem dhcp_retrans_discipline {freq : Tick} {hostnameLen : Nat} {net : NetCfg} {mdns : Mdns}
    {pool : TimerPool DhcpCb} {s : DhcpLife} (hpool : ¬ pendingRetrans pool)
    (hrun : Run (dhcpLifeStep (dhcpCbEnv freq hostnameLen))
      (oneMessage (dhcpCbEnv freq hostnameLen)) (dhcpBefore net mdns pool) s) :
    RetransDiscipline (dhcpCbEnv freq hostnameLen) s := by
  have hinv : RetransInv freq s :=
    hrun.invariant (P := RetransInv freq) (.of_none hpool fun hne => absurd rfl hne)
      fun h hok hst => h.step hok hst
  exact hinv.discipline

/-! At a counter of one tick a second, with an empty pool. -/

def demoDhcp : DhcpEnv DhcpCb := dhcpCbEnv 1 0

def demoBoot : DhcpLife := dhcpBefore ⟨0, 0, 0⟩ {} (timerPoolInit DhcpCb 16)

theorem demoBoot_none : ¬ pendingRetrans demoBoot.view.pool := by decide

/-- Nobody answers: the device gives up 16 s after the first DISCOVER. -/
theorem dhcp_retrans_discipline_demo : ∃ s : DhcpLife,
    Run (dhcpLifeStep demoDhcp) (oneMessage demoDhcp) demoBoot s ∧ firesRetrans s 16 0 ∧
    s.view.dhcp.retries = 0 ∧ RetransDiscipline demoDhcp s := by
  obtain ⟨s, hrun, hfires, h0⟩ := exists_run (dhcpLifeStep demoDhcp) (oneMessage demoDhcp) demoBoot
    (Q := fun s => firesRetrans s 16 0 ∧ s.view.dhcp.retries = 0)
    [.start 0 true true, .timer 4 0, .timer 8 0, .timer 12 0]
    (by decide +kernel) (by decide +kernel)
  exact ⟨s, hrun, hfires, h0, dhcp_retrans_discipline demoBoot_none hrun⟩

/-- A server answers after 1 s: the REQUEST goes out with the timer of the DISCOVER still
pending, which has it sent again after 3 s. -/
theorem discover_timer_resends_request : ∃ s : DhcpLife,
    Run (dhcpLifeStep demoDhcp) (ticksOn demoDhcp) demoBoot s ∧
    s.view.dhcp.state = .requesting ∧ retransAt s.view.pool 0 ∧ retransAt s.view.pool 1 ∧
    firesRetrans s 4 0 ∧ s.view.dhcp.retries ≠ 0 ∧ s.last = 1 ∧
    ¬ RetransDiscipline demoDhcp s := by
  obtain ⟨s, hrun, hst, h₀, h₁, hfires, hleft, hlast⟩ := exists_run (dhcpLifeStep demoDhcp)
    (ticksOn demoDhcp) demoBoot
    (Q := fun s => s.view.dhcp.state = .requesting ∧ retransAt s.view.pool 0 ∧
      retransAt s.view.pool 1 ∧ firesRetrans s 4 0 ∧ s.view.dhcp.retries ≠ 0 ∧ s.last = 1)
    [.start 0 true true, .reply 1 .offer {}] (by decide +kernel) (by decide +kernel)
  exact ⟨s, hrun, hst, h₀, h₁, hfires, hleft, hlast, fun h => absurd (h.one 0 1 h₀ h₁) nofun⟩

end WsPi5

/-
# `WsPi5.Dhcp.Leases` — clients and servers on a link

The client takes every address that a valid ACK has for it; it does not compare it with the one it
asked for.  That it gets what it asked for follows from what the servers do, from the transaction id
and from the order of its own messages.

    SELECTING              it has asked for nothing under its xid
    REQUESTING             … for the address of the offer it took
    RENEWING, REBINDING    … for the address it has

`LeaseCore` is the part of the client that this is about, with a transition of its own
(`LeaseCore.step`); `dhcpFsaStep_core` says that it is what the FSA does to it.  The link has any number
of clients with their own addresses, on it is every frame that was ever sent, and any of them may be
given to any client, at any time and any number of times.

**What the servers do** (`DhcpLink.answers`).  An ACK answers a REQUEST on the link, as `dhcpRead`
reads it: of that client, with that xid, for that address.  Nobody sends a REQUEST in a client's name.

**Proved here** (`leases_as_asked`).  As long as no client picks an xid that it had before, a client
with a lease has the address of an offer that was made to it.  So two of them have the same address only
if it was offered to both.
-/
import WsPi5.Dhcp.Messages
import WsPi5.Dhcp.Retransmit

namespace WsPi5

open Lib

/-! ## The addresses -/

def DhcpMsg.asks : DhcpMsg → Option W
  | .discover _ => none
  | .requestSelecting _ _ requestedIp => some requestedIp
  | .requestRenewing _ ciaddr => some ciaddr

/-- BOUND, RENEWING, REBINDING. -/
def DhcpState.leased : DhcpState → Bool
  | .bound | .renewing | .rebinding => true
  | .init | .selecting | .requesting => false

/-- REQUESTING and what comes after it. -/
def DhcpState.offered : DhcpState → Bool
  | .requesting | .bound | .renewing | .rebinding => true
  | .init | .selecting => false

theorem DhcpState.offered_of_leased {st : DhcpState} (h : st.leased = true) :
    st.offered = true := by
  cases st <;> first | rfl | cases h

/-- "Picks a new xid". -/
def DhcpHandler.picksXid : DhcpHandler → Bool
  | .sendDiscover | .sendRequestRenew | .sendRequestRebind => true
  | .resendDiscover | .recordOfferSendRequest | .resendRequestSelecting | .commitLeaseArmTimers
  | .resendRequestRenew | .resendRequestRebind | .panicD => false

/-- The client, as far as its addresses depend on it. -/
structure LeaseCore where
  state : DhcpState
  xid : W
  serverId : W
  requestedIp : W
  ourIp : W
  sent : List DhcpMsg

namespace LeaseCore

def send (msg : DhcpMsg) (c : LeaseCore) : LeaseCore := { c with sent := msg :: c.sent }

def handle (now : Tick) (parsed : DhcpParsed) (c : LeaseCore) : DhcpHandler → LeaseCore
  | .sendDiscover => { c with xid := now.setWidth 32 }.send (.discover (now.setWidth 32))
  | .resendDiscover => c.send (.discover c.xid)
  | .recordOfferSendRequest =>
      { c with serverId := parsed.serverId, requestedIp := parsed.yiaddr }.send
        (.requestSelecting c.xid parsed.serverId parsed.yiaddr)
  | .resendRequestSelecting => c.send (.requestSelecting c.xid c.serverId c.requestedIp)
  | .commitLeaseArmTimers => { c with ourIp := parsed.yiaddr }
  | .sendRequestRenew | .sendRequestRebind =>
      { c with xid := now.setWidth 32 }.send (.requestRenewing (now.setWidth 32) c.ourIp)
  | .resendRequestRenew | .resendRequestRebind => c.send (.requestRenewing c.xid c.ourIp)
  | .panicD => c

def goto (next : Option DhcpState) (c : LeaseCore) : LeaseCore :=
  { c with state := next.getD c.state }

def step (now : Tick) (evt : DhcpEvt) (parsed : DhcpParsed) (c : LeaseCore) : LeaseCore :=
  goto (dhcpFsaTransTable c.state evt).1
    ((dhcpFsaTransTable c.state evt).2.elim c (c.handle now parsed))

end LeaseCore

def DhcpView.core (v : DhcpView DhcpCb) : LeaseCore where
  state := v.dhcp.state
  xid := v.dhcp.xid
  serverId := v.dhcp.serverId
  requestedIp := v.dhcp.requestedIp
  ourIp := v.net.ourIp
  sent := v.sent

section
variable {env : DhcpEnv DhcpCb} {now : Tick} {v v' : DhcpView DhcpCb} {evt : DhcpEvt}

theorem foldl_core {f : DhcpView DhcpCb → LeaseTimer → DhcpView DhcpCb}
    (hf : ∀ v u, (f v u).core = v.core ∧ (f v u).dhcp.hasSendFn = v.dhcp.hasSendFn) :
    ∀ (us : List LeaseTimer) (v : DhcpView DhcpCb),
      (us.foldl f v).core = v.core ∧ (us.foldl f v).dhcp.hasSendFn = v.dhcp.hasSendFn
  | [], v => ⟨rfl, rfl⟩
  | u :: us, v => by
      obtain ⟨hcore, hsend⟩ := foldl_core hf us (f v u)
      exact ⟨hcore.trans (hf v u).1, hsend.trans (hf v u).2⟩

theorem cancelLease_core (v : DhcpView DhcpCb) (u : LeaseTimer) :
    (cancelLease u v).core = v.core ∧ (cancelLease u v).dhcp.hasSendFn = v.dhcp.hasSendFn := by
  unfold cancelLease
  split <;> exact ⟨rfl, rfl⟩

theorem commit_core (v : DhcpView DhcpCb) :
    (hCommitLeaseArmTimers env now v).core = { v.core with ourIp := v.parsed.yiaddr } ∧
      (hCommitLeaseArmTimers env now v).dhcp.hasSendFn = v.dhcp.hasSendFn := by
  unfold hCommitLeaseArmTimers
  dsimp only
  split
  · obtain ⟨harm, hsend⟩ := foldl_core (f := fun v u => armLease env now u v)
      (fun _ _ => ⟨rfl, rfl⟩) leaseTimers
      (leaseTimers.foldl (fun v u => cancelLease u v) (kickMdns env now (commitAddresses v)))
    obtain ⟨hcancel, hsend'⟩ := foldl_core cancelLease_core leaseTimers
      (kickMdns env now (commitAddresses v))
    exact ⟨harm.trans hcancel, hsend.trans hsend'⟩
  · exact ⟨rfl, rfl⟩

/-- **A handler**, of a client that can send. -/
theorem call_core {hd : DhcpHandler} (hsend : v.dhcp.hasSendFn = true)
    (h : hd.call env now v = some v') :
    v'.core = v.core.handle now v.parsed hd ∧ v'.dhcp.hasSendFn = true := by
  have sends : ∀ act : DhcpView DhcpCb → DhcpView DhcpCb, ifSendFn act v = act v :=
    fun act => if_pos hsend
  cases hd with
  | panicD => cases h
  | commitLeaseArmTimers =>
      cases h
      obtain ⟨hcore, hsend'⟩ := @commit_core env now v
      exact ⟨hcore, hsend'.trans hsend⟩
  | _ =>
      cases h
      first
        | exact ⟨congrArg DhcpView.core (sends _),
            (congrArg (fun w => w.dhcp.hasSendFn) (sends _)).trans hsend⟩

theorem dhcpTable_init (h : (dhcpFsaTransTable v.dhcp.state evt).2.isSome = true) :
    v.dhcp.state ≠ .init ∨ evt = .start := by
  by_contra hnot
  obtain ⟨hinit, hevt⟩ := not_or.mp hnot
  rw [not_not.mp hinit] at h
  cases evt <;> first | exact hevt rfl | cases h

/-- **The FSA** does to it what `LeaseCore.step` says. -/
theorem dhcpFsaStep_core (hsend : v.dhcp.state ≠ .init ∨ evt = .start → v.dhcp.hasSendFn = true)
    (h : dhcpFsaStep env now evt v = some v') :
    v'.core = v.core.step now evt v.parsed ∧ (v'.dhcp.hasSendFn = v.dhcp.hasSendFn) := by
  have hinit := @dhcpTable_init v evt
  unfold dhcpFsaStep at h
  dsimp only at h
  obtain ⟨w, hw, rfl⟩ := Option.map_eq_some_iff.mp h
  unfold LeaseCore.step
  show _ = LeaseCore.goto (dhcpFsaTransTable v.dhcp.state evt).1
    ((dhcpFsaTransTable v.dhcp.state evt).2.elim v.core (v.core.handle now v.parsed)) ∧ _
  rcases hcell : dhcpFsaTransTable v.dhcp.state evt with ⟨next, hd⟩
  rw [hcell] at hw hinit
  cases hd with
  | none =>
      cases hw
      cases next <;> exact ⟨rfl, rfl⟩
  | some hd =>
      have hs := hsend (hinit rfl)
      obtain ⟨hcore, hs'⟩ := call_core hs hw
      show _ = LeaseCore.goto next (v.core.handle now v.parsed hd) ∧ _
      rw [← hcore, hs]
      cases next <;> exact ⟨rfl, hs'⟩

end

/-! ## What the messages of a transaction ask for -/

/-- The rows of the table, by what their handler sends. -/
inductive LeaseRow (st : DhcpState) (evt : DhcpEvt) : Prop where
  | nothing (h : dhcpFsaTransTable st evt = (none, none))
  | halt (h : dhcpFsaTransTable st evt = (none, some .panicD))
  | discover (h : dhcpFsaTransTable st evt = (some .selecting, some .sendDiscover))
  | discoverAgain (hst : st = .selecting)
      (h : dhcpFsaTransTable st evt = (some .selecting, some .resendDiscover))
  | request (hst : st = .selecting) (hevt : evt = .rxOfferValid)
      (h : dhcpFsaTransTable st evt = (some .requesting, some .recordOfferSendRequest))
  | requestAgain (hst : st = .requesting)
      (h : dhcpFsaTransTable st evt = (some .requesting, some .resendRequestSelecting))
  | commit (hst : st = .requesting ∨ st = .renewing ∨ st = .rebinding) (hevt : evt = .rxAckValid)
      (h : dhcpFsaTransTable st evt = (some .bound, some .commitLeaseArmTimers))
  | extend {st' : DhcpState} {hd : DhcpHandler} (hst : st.leased = true)
      (hst' : st' = .renewing ∨ st' = .rebinding)
      (hhd : hd = .sendRequestRenew ∨ hd = .sendRequestRebind)
      (h : dhcpFsaTransTable st evt = (some st', some hd))
  | extendAgain {hd : DhcpHandler} (hst : st = .renewing ∨ st = .rebinding)
      (hhd : hd = .resendRequestRenew ∨ hd = .resendRequestRebind)
      (h : dhcpFsaTransTable st evt = (some st, some hd))

theorem leaseRow (st : DhcpState) (evt : DhcpEvt) : LeaseRow st evt := by
  cases st <;> cases evt <;>
    first
      | exact .nothing rfl
      | exact .halt rfl
      | exact .discover rfl
      | exact .discoverAgain rfl rfl
      | exact .request rfl rfl rfl
      | exact .requestAgain rfl rfl
      | exact .commit (.inl rfl) rfl rfl
      | exact .commit (.inr (.inl rfl)) rfl rfl
      | exact .commit (.inr (.inr rfl)) rfl rfl
      | exact .extend rfl (.inl rfl) (.inl rfl) rfl
      | exact .extend rfl (.inr rfl) (.inr rfl) rfl
      | exact .extendAgain (.inl rfl) (.inl rfl) rfl
      | exact .extendAgain (.inr rfl) (.inr rfl) rfl

namespace LeaseCore

/-- The address that the client waits for, where it waits for one. -/
def wants (c : LeaseCore) : Option W :=
  match c.state with
  | .requesting => some c.requestedIp
  | .renewing | .rebinding => some c.ourIp
  | .init | .selecting | .bound => none

/-- **The invariant.**  Under the xid that it waits with, the client has asked for what it wants;
with a lease it has the address of its last offer, which was made to it. -/
structure Inv (Offered : W → Prop) (c : LeaseCore) : Prop where
  asked : c.state ≠ .init → c.state ≠ .bound →
    ∀ m ∈ c.sent, m.xid = c.xid → ∀ ip ∈ m.asks, c.wants = some ip
  leased : c.state.leased = true → c.ourIp = c.requestedIp
  offered : c.state.offered = true → Offered c.requestedIp

variable {Offered : W → Prop} {now : Tick} {evt : DhcpEvt} {parsed : DhcpParsed} {c : LeaseCore}

theorem Inv.mono {Offered' : W → Prop} (h : c.Inv Offered) (hle : ∀ ip, Offered ip → Offered' ip) :
    c.Inv Offered' :=
  ⟨h.asked, h.leased, fun ho => hle _ (h.offered ho)⟩

theorem Inv.atInit (h : c.state = .init) : c.Inv Offered :=
  ⟨fun hne => absurd h hne, by rw [h]; nofun, by rw [h]; nofun⟩

theorem Inv.first {msg : DhcpMsg} (hnone : ∀ m ∈ c.sent, m.xid = c.xid → m.asks = none)
    (hask : ∀ ip ∈ msg.asks, c.wants = some ip)
    (hl : c.state.leased = true → c.ourIp = c.requestedIp)
    (ho : c.state.offered = true → Offered c.requestedIp) : (c.send msg).Inv Offered := by
  refine ⟨fun _ _ m hm hxid ip hip => ?_, hl, ho⟩
  rcases List.mem_cons.mp hm with rfl | hm
  · exact hask ip hip
  · rw [hnone m hm hxid] at hip
    cases hip

theorem Inv.more {msg : DhcpMsg} (h : c.Inv Offered)
    (hask : ∀ ip ∈ msg.asks, c.wants = some ip) : (c.send msg).Inv Offered := by
  refine ⟨fun hi hb m hm hxid => ?_, h.leased, h.offered⟩
  rcases List.mem_cons.mp hm with rfl | hm
  · exact hask
  · exact h.asked hi hb m hm hxid

/-- **One step** keeps it, if an xid that is picked is new, and an ACK is for what is wanted. -/
theorem Inv.step (h : c.Inv Offered)
    (hfresh : ∀ hd ∈ (dhcpFsaTransTable c.state evt).2, hd.picksXid = true →
      ∀ m ∈ c.sent, m.xid ≠ now.setWidth 32)
    (hoffer : evt = .rxOfferValid → Offered parsed.yiaddr)
    (hack : evt = .rxAckValid → ∀ ip ∈ c.wants, parsed.yiaddr = ip) :
    (c.step now evt parsed).Inv Offered := by
  unfold LeaseCore.step
  cases leaseRow c.state evt with
  | nothing hrow | halt hrow =>
      rw [hrow]
      exact h
  | discover hrow =>
      rw [hrow] at hfresh ⊢
      refine @Inv.first _ { c with state := .selecting, xid := now.setWidth 32 } _
        (fun m hm hx => absurd hx (hfresh _ rfl rfl m hm)) (fun ip hip => ?_) nofun nofun
      cases hip
  | discoverAgain hst hrow =>
      rw [hrow, ← hst]
      refine h.more fun ip hip => ?_
      cases hip
  | request hst hevt hrow =>
      have hnone : ∀ m ∈ c.sent, m.xid = c.xid → m.asks = none := by
        intro m hm hx
        refine Option.eq_none_iff_forall_not_mem.mpr fun ip hip => ?_
        have hwants := h.asked (by rw [hst]; decide) (by rw [hst]; decide) m hm hx ip hip
        rw [wants, hst] at hwants
        cases hwants
      rw [hrow]
      exact @Inv.first _ { c with
        state := .requesting, serverId := parsed.serverId, requestedIp := parsed.yiaddr } _ hnone
        (fun ip hip => hip) nofun fun _ => hoffer hevt
  | requestAgain hst hrow =>
      rw [hrow, ← hst]
      refine h.more fun ip hip => ?_
      rw [wants, hst]
      exact hip
  | commit hst hevt hrow =>
      rw [hrow]
      have hwants : c.wants = some c.requestedIp ∧ c.state.offered = true := by
        rcases hst with hst | hst | hst
        · rw [wants, hst]
          exact ⟨rfl, rfl⟩
        · rw [wants, hst, h.leased (by rw [hst]; rfl)]
          exact ⟨rfl, rfl⟩
        · rw [wants, hst, h.leased (by rw [hst]; rfl)]
          exact ⟨rfl, rfl⟩
      exact ⟨fun _ hb => absurd rfl hb, fun _ => hack hevt _ hwants.1,
        fun _ => h.offered hwants.2⟩
  | @extend st' hd hst hst' hhd hrow =>
      have hpicks : hd.picksXid = true := by rcases hhd with rfl | rfl <;> rfl
      have hhandle : c.handle now parsed hd = { c with xid := now.setWidth 32 }.send
          (.requestRenewing (now.setWidth 32) c.ourIp) := by rcases hhd with rfl | rfl <;> rfl
      rw [hrow] at hfresh ⊢
      show (goto (some st') (c.handle now parsed hd)).Inv Offered
      rw [hhandle]
      refine @Inv.first _ { c with state := st', xid := now.setWidth 32 } _
        (fun m hm hx => absurd hx (hfresh _ rfl hpicks m hm)) (fun ip hip => ?_)
        (fun _ => h.leased hst) (fun _ => h.offered (DhcpState.offered_of_leased hst))
      rcases hst' with rfl | rfl <;> exact hip
  | @extendAgain hd hst hhd hrow =>
      have hhandle : c.handle now parsed hd = c.send (.requestRenewing c.xid c.ourIp) := by
        rcases hhd with rfl | rfl <;> rfl
      rw [hrow]
      show (goto (some c.state) (c.handle now parsed hd)).Inv Offered
      rw [hhandle]
      refine h.more fun ip hip => ?_
      rw [wants]
      rcases hst with hst | hst <;> rw [hst] <;> exact hip

theorem step_sent : ∃ new, (c.step now evt parsed).sent = new ++ c.sent := by
  have hhandle : ∀ hd, ∃ new, (c.handle now parsed hd).sent = new ++ c.sent := by
    intro hd
    cases hd
    case commitLeaseArmTimers | panicD => exact ⟨[], rfl⟩
    all_goals exact ⟨[_], rfl⟩
  unfold LeaseCore.step
  cases (dhcpFsaTransTable c.state evt).2 with
  | none => exact ⟨[], rfl⟩
  | some hd => exact hhandle hd

end LeaseCore

/-! ## A step of a client -/

def DhcpInput.now : DhcpInput → Tick
  | .start now _ _ | .reply now _ _ | .timer now _ => now
  | .otherSet _ _ | .otherCancel _ | .otherMdns _ => 0

/-- An xid that a step picks was not the xid of a message before. -/
def freshXid (s : DhcpLife) (inp : DhcpInput) : Prop :=
  ∀ c ∈ inp.event s, ∀ hd ∈ (dhcpFsaTransTable c.1 c.2).2, hd.picksXid = true →
    ∀ m ∈ s.view.sent, m.xid ≠ inp.now.setWidth 32

/-- What a step does to the part of the client. -/
inductive LifeMove (s : DhcpLife) (inp : DhcpInput) (c : LeaseCore) : Prop where
  | aside (hc : c = s.view.core)
  | started {now : Tick} {parsed : DhcpParsed} (hevt : inp.event s = some (.init, .start))
      (hnow : inp.now = now)
      (hc : c = { s.view.core with state := .init }.step now .start parsed)
  | replied {now : Tick} {reply : DhcpReply} {parsed : DhcpParsed}
      (hinp : inp = .reply now reply parsed) (hc : c = s.view.core.step now reply.evt parsed)
  | fired {now : Tick} {u : LeaseTimer} {parsed : DhcpParsed}
      (hevt : inp.event s = some (s.view.dhcp.state, u.evt)) (hnow : inp.now = now)
      (hc : c = s.view.core.step now u.evt parsed)
  | again {now : Tick} {evt : DhcpEvt} {parsed : DhcpParsed}
      (hevt : evt = .timerRetransRetry ∨ evt = .timerRetransGiveup)
      (hc : c = s.view.core.step now evt parsed)

/-- The client was started with a `send_fn`, if it was started. -/
def DhcpLife.canSend (s : DhcpLife) : Prop :=
  s.view.dhcp.state ≠ .init → s.view.dhcp.hasSendFn = true

section
variable {env : DhcpEnv DhcpCb} {s s' : DhcpLife} {inp : DhcpInput}

theorem after_view (s : DhcpLife) (now : Tick) (again : Bool) (v : DhcpView DhcpCb) :
    (s.after now again v).view = v := by
  unfold DhcpLife.after
  split <;> rfl

theorem dhcpFsaStep_sends {now : Tick} {evt : DhcpEvt} {v v' : DhcpView DhcpCb}
    (hsend : v.dhcp.state ≠ .init → v.dhcp.hasSendFn = true) (hne : evt ≠ .start)
    (h : dhcpFsaStep env now evt v = some v') :
    (v'.dhcp.state ≠ .init → v'.dhcp.hasSendFn = true) ∧
      v'.core = v.core.step now evt v.parsed := by
  obtain ⟨hcore, hfn⟩ := dhcpFsaStep_core (fun hor => hor.elim hsend fun hs => absurd hs hne) h
  refine ⟨fun hst => ?_, hcore⟩
  have hold : v.dhcp.state ≠ .init := by
    intro hinit
    refine hst ((congrArg LeaseCore.state hcore).trans ?_)
    have hcell : dhcpFsaTransTable v.dhcp.state evt = (none, none) := by
      rw [hinit]
      cases evt <;> first | rfl | exact absurd rfl hne
    unfold LeaseCore.step
    rw [show v.core.state = v.dhcp.state from rfl, hcell]
    exact hinit
  rw [hfn]
  exact hsend hold

/-- **The inversion lemma** for a step of the client. -/
theorem dhcpLifeStep_move (hsend : s.canSend)
    (hstart : ∀ now hasPool hasSendFn, inp = .start now hasPool hasSendFn → hasSendFn = true)
    (h : dhcpLifeStep env s inp = some s') : s'.canSend ∧ LifeMove s inp s'.view.core := by
  unfold DhcpLife.canSend
  cases inp with
  | start now hasPool hasSendFn =>
      rw [dhcpLifeStep] at h
      obtain ⟨v, hv, rfl⟩ := Option.map_eq_some_iff.mp h
      have hsends := hstart _ _ _ rfl
      obtain ⟨hcore, hfn⟩ := dhcpFsaStep_core (fun _ => hsends) hv
      rw [after_view]
      exact ⟨fun _ => hfn.trans hsends, .started rfl rfl hcore⟩
  | reply now reply parsed =>
      rw [dhcpLifeStep] at h
      obtain ⟨v, hv, rfl⟩ := Option.map_eq_some_iff.mp h
      obtain ⟨hfn, hcore⟩ := @dhcpFsaStep_sends _ _ _ { s.view with parsed := parsed } _ hsend
        (by cases reply <;> decide) hv
      rw [after_view]
      exact ⟨hfn, .replied rfl hcore⟩
  | timer now k =>
      rw [dhcpLifeStep] at h
      cases hdue : timerDue s.view.pool now k with
      | none =>
          rw [hdue] at h
          cases h
          exact ⟨hsend, .aside rfl⟩
      | some e =>
          rw [hdue] at h
          dsimp only at h
          cases hcb : e.callback with
          | retrans =>
              rw [hcb] at h
              obtain ⟨v, hv, rfl⟩ := Option.map_eq_some_iff.mp h
              rw [after_view]
              unfold dhcpRetransCb at hv
              split at hv
              · obtain ⟨hfn, hcore⟩ := @dhcpFsaStep_sends _ _ _ (s.freed k) _ hsend (by decide) hv
                exact ⟨hfn, .again (.inr rfl) hcore⟩
              · obtain ⟨hfn, hcore⟩ := @dhcpFsaStep_sends _ _ _ { s.freed k with dhcp :=
                  { (s.freed k).dhcp with retries := (s.freed k).dhcp.retries - 1 } } _
                  hsend (by decide) hv
                exact ⟨hfn, .again (.inl rfl) hcore⟩
          | lease u =>
              rw [hcb] at h
              obtain ⟨v, hv, rfl⟩ := Option.map_eq_some_iff.mp h
              rw [after_view]
              obtain ⟨hfn, hcore⟩ := @dhcpFsaStep_sends _ _ _ (s.freed k) _ hsend
                (by cases u <;> decide) hv
              have hevt : (DhcpInput.timer now k).event s = some (s.view.dhcp.state, u.evt) := by
                rw [DhcpInput.event, hdue, Option.map_some, hcb]
              exact ⟨hfn, .fired hevt rfl hcore⟩
          | mdns | other _ =>
              rw [hcb] at h
              cases h
              exact ⟨hsend, .aside rfl⟩
  | otherSet x cb =>
      rw [dhcpLifeStep] at h
      split at h
      · cases h
      · cases h
        exact ⟨hsend, .aside rfl⟩
  | otherCancel k | otherMdns m =>
      cases h
      exact ⟨hsend, .aside rfl⟩

/-- **The invariant over a step of the client.** -/
theorem LifeMove.inv {Offered : W → Prop} {c : LeaseCore} (h : LifeMove s inp c)
    (hinv : s.view.core.Inv Offered) (hfresh : freshXid s inp)
    (hoffer : ∀ now parsed, inp = .reply now .offer parsed → Offered parsed.yiaddr)
    (hack : ∀ now parsed, inp = .reply now .ack parsed →
      ∀ ip ∈ s.view.core.wants, parsed.yiaddr = ip) : c.Inv Offered := by
  cases h with
  | aside hc =>
      rw [hc]
      exact hinv
  | started hevt hnow hc =>
      rw [hc]
      refine LeaseCore.Inv.step (.atInit rfl) ?_ nofun nofun
      rw [← hnow]
      exact hfresh _ hevt
  | @replied now reply parsed hinp hc =>
      subst hinp
      rw [hc]
      refine hinv.step (hfresh _ rfl) (fun hevt => ?_) (fun hevt => ?_)
      · cases reply <;> first | exact hoffer _ _ rfl | cases hevt
      · cases reply <;> first | exact hack _ _ rfl | cases hevt
  | @fired now u parsed hevt hnow hc =>
      rw [hc]
      refine hinv.step ?_ (by cases u <;> nofun) (by cases u <;> nofun)
      rw [← hnow]
      exact hfresh _ hevt
  | again hevt hc =>
      rw [hc]
      refine hinv.step (fun hd hhd hpicks => ?_) ?_ ?_
      · generalize s.view.core.state = st at hhd
        rcases hevt with rfl | rfl <;> cases st <;> cases hhd <;> cases hpicks
      · rcases hevt with rfl | rfl <;> nofun
      · rcases hevt with rfl | rfl <;> nofun

theorem LifeMove.sent {c : LeaseCore} (h : LifeMove s inp c) : ∃ new, c.sent = new ++ s.view.sent := by
  cases h with
  | aside hc => exact ⟨[], by rw [hc]; rfl⟩
  | started _ _ hc | replied _ hc | fired _ _ hc | again _ hc =>
      rw [hc]
      exact LeaseCore.step_sent

end

/-! ## The link -/

/-- The clients, and every frame that was sent. -/
structure DhcpLink (ι : Type) where
  host : ι → DhcpLife
  frames : List (Wire.Buf × Nat)

/-- What happens next; `tx` is what the transmit buffer held. -/
inductive DhcpLinkEvent (ι : Type) where
  /-- A client is started, a timer of it is looked at, or others use its pool. -/
  | own (i : ι) (inp : DhcpInput) (tx : Wire.Buf)
  /-- Frame `k` is given to `dhcp_dispatch` of a client. -/
  | deliver (i : ι) (k : Nat) (now : Tick) (tx : Wire.Buf)
  /-- A server sends, or anything else that is no client here. -/
  | server (f : Wire.Buf × Nat)

/-- The event of a type that `dhcp_parse_inbound` returned. -/
def dhcpReplyOf (ty : Byte) : Option DhcpReply :=
  if ty = 2 then some .offer else if ty = 5 then some .ack else if ty = 6 then some .nak else none

/-- `dhcp_dispatch`: what the parser makes of the payload of a frame. -/
def dhcpReceived (mac : BitVec 48) (xid : W) (f : Wire.Buf × Nat) : Option (Byte × DhcpRecord) :=
  if f.2 < 42 then some (0, {})
  else dhcpParseInboundAt (region 42 (Wire.udpPayload f)) 42 (f.2 - 42) xid (Wire.macVector mac)

/-- `dhcp_dispatch`. -/
def dhcpDispatchFrame (env : DhcpEnv DhcpCb) (mac : BitVec 48) (now : Tick) (f : Wire.Buf × Nat)
    (s : DhcpLife) : Option DhcpLife :=
  (dhcpReceived mac s.view.dhcp.xid f).bind fun got =>
    match dhcpReplyOf got.1 with
    | some reply => dhcpLifeStep env s (.reply now reply got.2.toDhcpParsed)
    | none => some { s with view := { s.view with parsed := got.2.toDhcpParsed } }

variable {ι : Type} [DecidableEq ι]

section
variable (env : ι → DhcpEnv DhcpCb) (mac : ι → BitVec 48)

/-- A client has made a step: what it sent is on the link. -/
def DhcpLink.put (t : DhcpLink ι) (i : ι) (tx : Wire.Buf) (s : DhcpLife) : DhcpLink ι where
  host := Function.update t.host i s
  frames := t.frames ++ (s.view.sent.take (s.view.sent.length - (t.host i).view.sent.length)).map
    fun msg => Wire.dhcpFrame (mac i) msg tx

theorem DhcpLink.put_self (t : DhcpLink ι) (i : ι) (tx : Wire.Buf) (s : DhcpLife) :
    (t.put mac i tx s).host i = s := Function.update_self ..

def DhcpLink.step (t : DhcpLink ι) : DhcpLinkEvent ι → Option (DhcpLink ι)
  | .own _ (.reply _ _ _) _ => none
  | .own i inp tx => (dhcpLifeStep (env i) (t.host i) inp).map (t.put mac i tx)
  | .deliver i k now tx =>
      (t.frames[k]?).bind fun f =>
        (dhcpDispatchFrame (env i) (mac i) now f (t.host i)).map (t.put mac i tx)
  | .server f => some { t with frames := t.frames ++ [f] }

/-- An ACK answers a REQUEST on the link, and nobody sends one in a client's name. -/
structure DhcpLink.answers (t : DhcpLink ι) (f : Wire.Buf × Nat) : Prop where
  asked : ∀ i xid, DhcpValid xid (Wire.macVector (mac i)) (Wire.udpPayload f) 5 →
    ∃ g ∈ t.frames, ∃ msg, Wire.dhcpRead (Wire.udpPayload g) = some (mac i, msg) ∧
      msg.xid = xid ∧ msg.asks = some (dhcpRecordOf (Wire.udpPayload f)).yiaddr
  unforged : ∀ i msg, Wire.dhcpRead (Wire.udpPayload f) ≠ some (mac i, msg)
  size : f.2 < 65536

/-- **The condition**: clients can send and pick new xids, and the servers do what they do. -/
def DhcpLink.ok (t : DhcpLink ι) : DhcpLinkEvent ι → Prop
  | .own i inp _ => freshXid (t.host i) inp ∧
      ∀ now hasPool hasSendFn, inp = .start now hasPool hasSendFn → hasSendFn = true
  | .deliver i k now _ => ∀ f ∈ t.frames[k]?,
      ∀ got ∈ dhcpReceived (mac i) (t.host i).view.dhcp.xid f, ∀ reply ∈ dhcpReplyOf got.1,
        freshXid (t.host i) (.reply now reply got.2.toDhcpParsed)
  | .server f => t.answers mac f

end

def DhcpLink.offered (mac : BitVec 48) (frames : List (Wire.Buf × Nat)) (ip : W) : Prop :=
  ∃ f ∈ frames, ∃ xid, DhcpValid xid (Wire.macVector mac) (Wire.udpPayload f) 2 ∧
    (dhcpRecordOf (Wire.udpPayload f)).yiaddr = ip

/-! ## The invariant of the link -/

def DhcpReply.type : DhcpReply → Byte
  | .offer => 2
  | .ack => 5
  | .nak => 6

theorem dhcpReplyOf_some {ty : Byte} {reply : DhcpReply} (h : dhcpReplyOf ty = some reply) :
    ty = reply.type := by
  unfold dhcpReplyOf at h
  split_ifs at h <;> cases h <;> assumption

theorem dhcpReceived_valid {mac : BitVec 48} {xid : W} {f : Wire.Buf × Nat} {got : Byte × DhcpRecord}
    {reply : DhcpReply} (hsize : f.2 < 65536) (h : dhcpReceived mac xid f = some got)
    (hreply : dhcpReplyOf got.1 = some reply) :
    DhcpValid xid (Wire.macVector mac) (Wire.udpPayload f) reply.type ∧
      got.2 = dhcpRecordOf (Wire.udpPayload f) := by
  have hty := dhcpReplyOf_some hreply
  unfold dhcpReceived at h
  split at h
  · cases h
    cases hreply
  · have hlen : (Wire.udpPayload f).length = f.2 - 42 := slice_length ..
    obtain ⟨ty, r, hcall, hvalid, hrec, -⟩ := dhcp_parse_inbound_iff 42 (Wire.udpPayload f) xid
      (Wire.macVector mac) (by omega)
    rw [hlen, h] at hcall
    cases hcall
    have hne : ty ≠ 0 := by
      rw [show ty = reply.type from hty]
      cases reply <;> decide
    exact ⟨(hvalid _ (by rw [← hty]; exact hne)).mp hty, hrec hne⟩

/-- **The invariant.** -/
structure DhcpLink.Inv (mac : ι → BitVec 48) (t : DhcpLink ι) : Prop where
  size : ∀ f ∈ t.frames, f.2 < 65536
  asked : ∀ f ∈ t.frames, ∀ i xid, DhcpValid xid (Wire.macVector (mac i)) (Wire.udpPayload f) 5 →
    ∃ g ∈ t.frames, ∃ msg, Wire.dhcpRead (Wire.udpPayload g) = some (mac i, msg) ∧
      msg.xid = xid ∧ msg.asks = some (dhcpRecordOf (Wire.udpPayload f)).yiaddr
  read : ∀ f ∈ t.frames, ∀ i msg, Wire.dhcpRead (Wire.udpPayload f) = some (mac i, msg) →
    msg ∈ (t.host i).view.sent
  canSend : ∀ i, (t.host i).canSend
  core : ∀ i, (t.host i).view.core.Inv (DhcpLink.offered (mac i) t.frames)

section
variable {env : ι → DhcpEnv DhcpCb} {mac : ι → BitVec 48} {t t' : DhcpLink ι} {i : ι}

theorem DhcpLink.offered.mono {m : BitVec 48} {frames more : List (Wire.Buf × Nat)} {ip : W}
    (h : DhcpLink.offered m frames ip) : DhcpLink.offered m (frames ++ more) ip := by
  obtain ⟨f, hf, hrest⟩ := h
  exact ⟨f, List.mem_append_left _ hf, hrest⟩

/-- **A client has made a step.** -/
theorem DhcpLink.Inv.put (h : t.Inv mac) (hmac : Function.Injective mac) {tx : Wire.Buf}
    {s : DhcpLife} (hsend : s.canSend) (hsent : ∃ new, s.view.sent = new ++ (t.host i).view.sent)
    (hcore : s.view.core.Inv (DhcpLink.offered (mac i) t.frames)) : (t.put mac i tx s).Inv mac := by
  obtain ⟨new, hnew⟩ := hsent
  have hframes : (t.put mac i tx s).frames
      = t.frames ++ new.map fun msg => Wire.dhcpFrame (mac i) msg tx := by
    have htake : s.view.sent.take (s.view.sent.length - (t.host i).view.sent.length) = new := by
      rw [hnew, List.length_append, Nat.add_sub_cancel, List.take_left]
    rw [DhcpLink.put, htake]
  have hself : (t.put mac i tx s).host i = s := t.put_self mac i tx s
  have hother : ∀ {j}, j ≠ i → (t.put mac i tx s).host j = t.host j :=
    fun hj => Function.update_of_ne hj ..
  have hcases : ∀ f ∈ (t.put mac i tx s).frames,
      f ∈ t.frames ∨ ∃ msg ∈ new, f = Wire.dhcpFrame (mac i) msg tx := by
    intro f hf
    rw [hframes] at hf
    rcases List.mem_append.mp hf with hf | hf
    · exact .inl hf
    · obtain ⟨msg, hmsg, rfl⟩ := List.mem_map.mp hf
      exact .inr ⟨msg, hmsg, rfl⟩
  have hkept : ∀ j msg, msg ∈ (t.host j).view.sent → msg ∈ ((t.put mac i tx s).host j).view.sent := by
    intro j msg hmsg
    by_cases hj : j = i
    · subst hj
      rw [hself, hnew]
      exact List.mem_append_right _ hmsg
    · rw [hother hj]
      exact hmsg
  refine ⟨fun f hf => ?_, fun f hf j xid hv => ?_, fun f hf j msg hread => ?_, fun j => ?_,
    fun j => ?_⟩
  · rcases hcases f hf with hold | ⟨msg, -, rfl⟩
    · exact h.size f hold
    · have hfits := @Wire.dhcpBytes_fits (mac i) msg
      rw [Wire.dhcpFrame_len]
      omega
  · rcases hcases f hf with hold | ⟨msg, -, rfl⟩
    · obtain ⟨g, hg, hrest⟩ := h.asked f hold j xid hv
      refine ⟨g, ?_, hrest⟩
      rw [hframes]
      exact List.mem_append_left _ hg
    · rw [Wire.dhcpFrame_payload] at hv
      exact absurd hv Wire.dhcpBytes_noReply
  · rcases hcases f hf with hold | ⟨msg', hmsg', rfl⟩
    · exact hkept j msg (h.read f hold j msg hread)
    · rw [Wire.dhcpFrame_payload, Wire.dhcpRead_bytes] at hread
      obtain ⟨hmacs, rfl⟩ := Prod.mk.inj (Option.some.inj hread)
      obtain rfl := hmac hmacs
      rw [hself, hnew]
      exact List.mem_append_left _ hmsg'
  · by_cases hj : j = i
    · subst hj
      rw [hself]
      exact hsend
    · rw [hother hj]
      exact h.canSend j
  · rw [hframes]
    by_cases hj : j = i
    · subst hj
      rw [hself]
      exact hcore.mono fun ip hip => hip.mono
    · rw [hother hj]
      exact (h.core j).mono fun ip hip => hip.mono

theorem DhcpLink.Inv.move (h : t.Inv mac) (hmac : Function.Injective mac) {tx : Wire.Buf}
    {s : DhcpLife} {inp : DhcpInput} (hs : dhcpLifeStep (env i) (t.host i) inp = some s)
    (hstart : ∀ now hasPool hasSendFn, inp = .start now hasPool hasSendFn → hasSendFn = true)
    (hfresh : freshXid (t.host i) inp)
    (hoffer : ∀ now parsed, inp = .reply now .offer parsed →
      DhcpLink.offered (mac i) t.frames parsed.yiaddr)
    (hack : ∀ now parsed, inp = .reply now .ack parsed →
      ∀ ip ∈ (t.host i).view.core.wants, parsed.yiaddr = ip) : (t.put mac i tx s).Inv mac := by
  obtain ⟨hsend, hmove⟩ := dhcpLifeStep_move (h.canSend i) hstart hs
  exact h.put hmac hsend hmove.sent (hmove.inv (h.core i) hfresh hoffer hack)

omit [DecidableEq ι] in
/-- **What a valid ACK grants** is what the client waits for. -/
theorem DhcpLink.Inv.granted (h : t.Inv mac) {f : Wire.Buf × Nat} (hf : f ∈ t.frames)
    (hv : DhcpValid (t.host i).view.dhcp.xid (Wire.macVector (mac i)) (Wire.udpPayload f) 5)
    {ip : W} (hip : ip ∈ (t.host i).view.core.wants) :
    (dhcpRecordOf (Wire.udpPayload f)).yiaddr = ip := by
  obtain ⟨g, hg, msg, hread, hxid, hasks⟩ := h.asked f hf i _ hv
  have hstate : (t.host i).view.core.state ≠ .init ∧ (t.host i).view.core.state ≠ .bound := by
    unfold LeaseCore.wants at hip
    constructor <;> intro hst <;> rw [hst] at hip <;> cases hip
  have hwants := (h.core i).asked hstate.1 hstate.2 msg (h.read g hg i msg hread) hxid _ hasks
  exact Option.some.inj (hwants.symm.trans hip)

theorem DhcpLink.Inv.step (h : t.Inv mac) (hmac : Function.Injective mac)
    {e : DhcpLinkEvent ι} (hok : t.ok mac e) (hst : t.step env mac e = some t') : t'.Inv mac := by
  cases e with
  | own i inp tx =>
      have hown : (∀ now reply parsed, inp ≠ .reply now reply parsed) ∧
          ∃ s, dhcpLifeStep (env i) (t.host i) inp = some s ∧ t.put mac i tx s = t' := by
        cases inp with
        | reply now reply parsed => cases hst
        | start | timer | otherSet | otherCancel | otherMdns =>
            exact ⟨nofun, Option.map_eq_some_iff.mp hst⟩
      obtain ⟨hnot, s, hs, rfl⟩ := hown
      exact h.move hmac hs hok.2 hok.1 (fun now parsed heq => absurd heq (hnot _ _ _))
        fun now parsed heq => absurd heq (hnot _ _ _)
  | deliver i k now tx =>
      obtain ⟨f, hf, hrest⟩ := Option.bind_eq_some_iff.mp hst
      obtain ⟨s, hs, rfl⟩ := Option.map_eq_some_iff.mp hrest
      have hmem : f ∈ t.frames := List.mem_of_getElem? hf
      obtain ⟨got, hgot, hdispatch⟩ := Option.bind_eq_some_iff.mp hs
      cases hreply : dhcpReplyOf got.1 with
      | none =>
          rw [hreply] at hdispatch
          cases hdispatch
          exact h.put hmac (h.canSend i) ⟨[], rfl⟩ (h.core i)
      | some reply =>
          rw [hreply] at hdispatch
          obtain ⟨hvalid, hrec⟩ := dhcpReceived_valid (h.size f hmem) hgot hreply
          refine h.move hmac hdispatch nofun (hok f hf got hgot reply hreply) ?_ ?_
          · rintro now' parsed ⟨⟩
            rw [hrec]
            exact ⟨f, hmem, _, hvalid, rfl⟩
          · rintro now' parsed ⟨⟩ ip hip
            rw [hrec]
            exact h.granted hmem hvalid hip
  | server f =>
      cases hst
      have hnew : ∀ {g}, g ∈ t.frames ++ [f] → g ∈ t.frames ∨ g = f := fun hg => by simpa using hg
      refine ⟨fun g hg => ?_, fun g hg i xid hv => ?_, fun g hg i msg hread => ?_, h.canSend,
        fun i => (h.core i).mono fun ip hip => hip.mono⟩
      · rcases hnew hg with hold | rfl
        · exact h.size g hold
        · exact hok.size
      · have hasked : ∃ g' ∈ t.frames, ∃ msg, Wire.dhcpRead (Wire.udpPayload g') = some (mac i, msg) ∧
            msg.xid = xid ∧ msg.asks = some (dhcpRecordOf (Wire.udpPayload g)).yiaddr := by
          rcases hnew hg with hold | rfl
          · exact h.asked g hold i xid hv
          · exact hok.asked i xid hv
        obtain ⟨g', hg', hrest⟩ := hasked
        exact ⟨g', List.mem_append_left _ hg', hrest⟩
      · rcases hnew hg with hold | rfl
        · exact h.read g hold i msg hread
        · exact absurd hread (hok.unforged i msg)

end

/-! ## The leases -/

/-- A client with a lease has the address of an offer made to it, the last that it took. -/
def DhcpLink.LeasedAs (mac : ι → BitVec 48) (t : DhcpLink ι) (i : ι) : Prop :=
  (t.host i).view.dhcp.state.leased = true →
    (t.host i).view.net.ourIp = (t.host i).view.dhcp.requestedIp ∧
      DhcpLink.offered (mac i) t.frames (t.host i).view.net.ourIp

/-- **Leases as asked**, in every run: the clients have different MAC addresses, and begin as
`dhcp_start` finds them. -/
theorem leases_as_asked {env : ι → DhcpEnv DhcpCb} {mac : ι → BitVec 48}
    (hmac : Function.Injective mac) {net : ι → NetCfg} {mdns : ι → Mdns}
    {pool : ι → TimerPool DhcpCb} {t : DhcpLink ι}
    (h : Run (DhcpLink.step env mac) (DhcpLink.ok mac)
      ⟨fun i => dhcpBefore (net i) (mdns i) (pool i), []⟩ t) :
    (∀ i, t.LeasedAs mac i) ∧ ∀ i j,
      (t.host i).view.dhcp.state.leased = true → (t.host j).view.dhcp.state.leased = true →
        (t.host i).view.net.ourIp = (t.host j).view.net.ourIp →
          DhcpLink.offered (mac i) t.frames (t.host i).view.net.ourIp ∧
            DhcpLink.offered (mac j) t.frames (t.host i).view.net.ourIp := by
  have hinv : t.Inv mac := by
    refine h.invariant (P := fun t => t.Inv mac) ?_ fun ht hok hst => ht.step hmac hok hst
    exact ⟨nofun, nofun, nofun, fun i hne => absurd rfl hne, fun i => .atInit rfl⟩
  have hleased : ∀ i, t.LeasedAs mac i := by
    intro i hl
    have hip : (t.host i).view.net.ourIp = (t.host i).view.dhcp.requestedIp :=
      (hinv.core i).leased hl
    refine ⟨hip, ?_⟩
    rw [hip]
    exact (hinv.core i).offered (DhcpState.offered_of_leased hl)
  refine ⟨hleased, fun i j hi hj hsame => ⟨(hleased i hi).2, ?_⟩⟩
  rw [hsame]
  exact (hleased j hj).2

/-! ### An address for one of two -/

def demoFrame (payload : List Byte) : Wire.Buf × Nat :=
  (memWrite (fun _ => 0) 42 payload, payload.length + 42)

theorem demoFrame_payload (payload : List Byte) : Wire.udpPayload (demoFrame payload) = payload := by
  unfold Wire.udpPayload demoFrame
  rw [Nat.add_sub_cancel]
  exact slice_memWrite_self _ 42 payload

/-- The ACK to the REQUEST of 192.168.1.50. -/
def demoGrant : List Byte := demoOffer.set 242 5

theorem demoGrant_valid : DhcpValid 0x12345678 #v[2, 0, 0, 0, 0, 1] demoGrant 5 := by
  refine ⟨⟨?_, ?_, ?_, ?_, ?_, ?_⟩, ?_, ?_, ?_, .inr (.inl rfl), fun _ => ?_⟩ <;> decide +kernel

def demoMac (i : Bool) : BitVec 48 := if i then 0x010000000002 else 0x020000000002

theorem demoMac_injective : Function.Injective demoMac := by
  intro i j h
  cases i <;> cases j <;> first | rfl | exact absurd h (by decide)

theorem demoMac_chaddr {xid : W} {i : Bool} {payload : List Byte} {ty : Byte}
    (h : DhcpValid xid (Wire.macVector (demoMac i)) payload ty)
    (hch : bytesAt payload 28 6 = [2, 0, 0, 0, 0, 1]) : i = true := by
  have hmac := h.forUs.chaddr.symm.trans hch
  cases i with
  | true => rfl
  | false => exact absurd hmac (by decide)

theorem deliver_valid {ι : Type} [DecidableEq ι] {env : ι → DhcpEnv DhcpCb} {mac : ι → BitVec 48}
    {t : DhcpLink ι} {i : ι} {k : Nat} {now : Tick} {tx : Wire.Buf} {payload : List Byte}
    {reply : DhcpReply} (hf : t.frames[k]? = some (demoFrame payload)) (hlen : payload.length < 60000)
    (hv : DhcpValid (t.host i).view.dhcp.xid (Wire.macVector (mac i)) payload reply.type) :
    (∀ got ∈ dhcpReceived (mac i) (t.host i).view.dhcp.xid (demoFrame payload),
      dhcpReplyOf got.1 = some reply ∧ got.2 = dhcpRecordOf payload) ∧
    t.step env mac (.deliver i k now tx) = (dhcpLifeStep (env i) (t.host i)
      (.reply now reply (dhcpRecordOf payload).toDhcpParsed)).map (t.put mac i tx) := by
  have hgot : dhcpReceived (mac i) (t.host i).view.dhcp.xid (demoFrame payload)
      = some (reply.type, dhcpRecordOf payload) := by
    obtain ⟨ty, r, hcall, hvalid, hrec, -⟩ := dhcp_parse_inbound_iff 42 payload
      (t.host i).view.dhcp.xid (Wire.macVector (mac i)) (by omega)
    have hne : reply.type ≠ 0 := by cases reply <;> decide
    have hty := (hvalid _ hne).mpr hv
    unfold dhcpReceived
    rw [demoFrame_payload]
    show (if payload.length + 42 < 42 then _ else
      dhcpParseInboundAt _ 42 (payload.length + 42 - 42) _ _) = _
    rw [if_neg (by omega), Nat.add_sub_cancel, hcall, hrec (by rw [hty]; exact hne), hty]
  have hreply : dhcpReplyOf reply.type = some reply := by cases reply <;> rfl
  refine ⟨?_, ?_⟩
  · intro got hmem
    rw [hgot] at hmem
    cases hmem
    exact ⟨hreply, rfl⟩
  · show (t.frames[k]?).bind _ = _
    rw [hf, Option.bind_some, dhcpDispatchFrame, hgot, Option.bind_some]
    show Option.map _ (match dhcpReplyOf reply.type with | some _ => _ | none => _) = _
    rw [hreply]

/-- A server sends a payload, and the client takes it at once. -/
theorem run_answered {ι : Type} [DecidableEq ι] {env : ι → DhcpEnv DhcpCb} {mac : ι → BitVec 48}
    {t : DhcpLink ι} {i : ι} {tx : Wire.Buf} {payload : List Byte} {reply : DhcpReply} {s : DhcpLife}
    (now : Tick) (hserver : t.ok mac (.server (demoFrame payload))) (hlen : payload.length < 60000)
    (hv : DhcpValid (t.host i).view.dhcp.xid (Wire.macVector (mac i)) payload reply.type)
    (hpicks : ∀ hd ∈ (dhcpFsaTransTable (t.host i).view.dhcp.state reply.evt).2,
      hd.picksXid = false)
    (hs : dhcpLifeStep (env i) (t.host i) (.reply now reply (dhcpRecordOf payload).toDhcpParsed)
      = some s) :
    Run (DhcpLink.step env mac) (DhcpLink.ok mac) t
      (({ t with frames := t.frames ++ [demoFrame payload] } : DhcpLink ι).put mac i tx s) := by
  have hlast : (t.frames ++ [demoFrame payload])[t.frames.length]? = some (demoFrame payload) := by
    simp
  obtain ⟨hgot, hstep⟩ := @deliver_valid ι _ env mac
    { t with frames := t.frames ++ [demoFrame payload] } i t.frames.length now tx payload reply
    hlast hlen hv
  refine (Run.single hserver rfl).tail (e := .deliver i t.frames.length now tx) ?_ ?_
  · intro f hf got hmem reply' hreply
    obtain rfl := Option.some.inj (hlast.symm.trans hf)
    obtain rfl := Option.some.inj ((hgot got hmem).1.symm.trans hreply)
    rintro c ⟨⟩ hd hhd hpick
    rw [hpicks hd hhd] at hpick
    cases hpick
  · rw [hstep, hs]
    rfl

theorem demoOffer_record : (dhcpRecordOf demoOffer).yiaddr = wireWord [192, 168, 1, 50] ∧
    (dhcpRecordOf demoGrant).yiaddr = (dhcpRecordOf demoOffer).yiaddr := by
  constructor <;> decide +kernel

theorem demoReplies_read : Wire.dhcpRead demoOffer = none ∧ Wire.dhcpRead demoGrant = none ∧
    ∀ xid mac, ¬ DhcpValid xid mac demoOffer 5 := by
  refine ⟨by decide +kernel, by decide +kernel, fun xid mac hv => ?_⟩
  have htype := hv.type.symm.trans demoOffer_valid.type
  cases htype

theorem demoLives : ∃ s₁ s₂ s₃,
    dhcpLifeStep demoDhcp demoBoot (.start 0x12345678 true true) = some s₁ ∧
    dhcpLifeStep demoDhcp s₁ (.reply 0x12345679 .offer (dhcpRecordOf demoOffer).toDhcpParsed)
      = some s₂ ∧
    dhcpLifeStep demoDhcp s₂ (.reply 0x1234567A .ack (dhcpRecordOf demoGrant).toDhcpParsed)
      = some s₃ ∧
    s₁.view.core = ⟨.selecting, 0x12345678, 0, 0, 0, [.discover 0x12345678]⟩ ∧
    s₂.view.core = ⟨.requesting, 0x12345678, (dhcpRecordOf demoOffer).serverId,
      (dhcpRecordOf demoOffer).yiaddr, 0, [.requestSelecting 0x12345678
        (dhcpRecordOf demoOffer).serverId (dhcpRecordOf demoOffer).yiaddr, .discover 0x12345678]⟩ ∧
    s₃.view.core = { s₂.view.core with
      state := .bound, ourIp := (dhcpRecordOf demoGrant).yiaddr } :=
  ⟨_, _, _, rfl, rfl, rfl, rfl, rfl, rfl⟩

/-- The first client is offered 192.168.1.50, asks for it and has it then. -/
theorem leases_as_asked_demo : ∃ t : DhcpLink Bool,
    (t.host true).view.dhcp.state = .bound ∧
    (t.host true).view.net.ourIp = wireWord [192, 168, 1, 50] ∧
    DhcpLink.offered (demoMac true) t.frames (t.host true).view.net.ourIp := by
  obtain ⟨s₁, s₂, s₃, hs₁, hs₂, hs₃, hc₁, hc₂, hc₃⟩ := demoLives
  obtain ⟨hread₁, hread₂, hnoAck⟩ := demoReplies_read
  let tx : Wire.Buf := fun _ => 0
  let t₀ : DhcpLink Bool := ⟨fun _ => demoBoot, []⟩
  let t₁ := t₀.put demoMac true tx s₁
  let t₂ := ({ t₁ with frames := t₁.frames ++ [demoFrame demoOffer] } : DhcpLink Bool).put
    demoMac true tx s₂
  let t₃ := ({ t₂ with frames := t₂.frames ++ [demoFrame demoGrant] } : DhcpLink Bool).put
    demoMac true tx s₃
  have hh₁ : t₁.host true = s₁ := DhcpLink.put_self ..
  have hh₂ : t₂.host true = s₂ := DhcpLink.put_self ..
  have hh₃ : t₃.host true = s₃ := DhcpLink.put_self ..
  have hasked : Wire.dhcpFrame (demoMac true) (.requestSelecting 0x12345678
      (dhcpRecordOf demoOffer).serverId (dhcpRecordOf demoOffer).yiaddr) tx ∈ t₂.frames := by
    have hsent₁ : s₁.view.sent = [.discover 0x12345678] := congrArg LeaseCore.sent hc₁
    have hsent₂ : s₂.view.sent = _ := congrArg LeaseCore.sent hc₂
    refine List.mem_append_right _ ?_
    show _ ∈ (s₂.view.sent.take (s₂.view.sent.length - (t₁.host true).view.sent.length)).map _
    rw [hh₁, hsent₁, hsent₂]
    exact List.mem_singleton_self _
  -- the DISCOVER
  have hrun₁ : Run (DhcpLink.step (fun _ => demoDhcp) demoMac) (DhcpLink.ok demoMac) t₀ t₁ := by
    refine .single (e := .own true (.start 0x12345678 true true) tx) ⟨?_, ?_⟩ ?_
    · intro c _ hd _ _ m hm
      cases hm
    · rintro _ _ _ ⟨⟩
      rfl
    · exact congrArg (Option.map _) hs₁
  -- the OFFER, and the REQUEST
  have hok₁ : t₁.ok demoMac (.server (demoFrame demoOffer)) := by
    refine ⟨fun i xid hv => ?_, fun i msg => ?_, by decide +kernel⟩
    · rw [demoFrame_payload] at hv
      exact absurd hv (hnoAck _ _)
    · rw [demoFrame_payload, hread₁]
      nofun
  have hrun₂ : Run (DhcpLink.step (fun _ => demoDhcp) demoMac) (DhcpLink.ok demoMac) t₀ t₂ := by
    refine hrun₁.trans (@run_answered Bool _ (fun _ => demoDhcp) demoMac t₁ true tx demoOffer .offer
      s₂ 0x12345679 hok₁ (by decide +kernel) ?_ ?_ ?_)
    all_goals rw [hh₁]
    · rw [show s₁.view.dhcp.xid = 0x12345678 from congrArg LeaseCore.xid hc₁]
      exact demoOffer_valid
    · rw [show s₁.view.dhcp.state = .selecting from congrArg LeaseCore.state hc₁]
      rintro hd ⟨⟩
      rfl
    · exact hs₂
  -- the ACK
  have hok₂ : t₂.ok demoMac (.server (demoFrame demoGrant)) := by
    refine ⟨fun i xid hv => ?_, fun i msg => ?_, by decide +kernel⟩
    · rw [demoFrame_payload] at hv ⊢
      obtain rfl := demoMac_chaddr hv demoGrant_valid.forUs.chaddr
      refine ⟨_, hasked, .requestSelecting 0x12345678 (dhcpRecordOf demoOffer).serverId
          (dhcpRecordOf demoOffer).yiaddr, ?_,
        demoGrant_valid.forUs.xid.symm.trans hv.forUs.xid, congrArg some demoOffer_record.2.symm⟩
      rw [Wire.dhcpFrame_payload, Wire.dhcpRead_bytes]
    · rw [demoFrame_payload, hread₂]
      nofun
  have hrun₃ : Run (DhcpLink.step (fun _ => demoDhcp) demoMac) (DhcpLink.ok demoMac) t₀ t₃ := by
    refine hrun₂.trans (@run_answered Bool _ (fun _ => demoDhcp) demoMac t₂ true tx demoGrant .ack
      s₃ 0x1234567A hok₂ (by decide +kernel) ?_ ?_ ?_)
    all_goals rw [hh₂]
    · rw [show s₂.view.dhcp.xid = 0x12345678 from congrArg LeaseCore.xid hc₂]
      exact demoGrant_valid
    · rw [show s₂.view.dhcp.state = .requesting from congrArg LeaseCore.state hc₂]
      rintro hd ⟨⟩
      rfl
    · exact hs₃
  obtain ⟨hleased, -⟩ := leases_as_asked demoMac_injective hrun₃
  refine ⟨t₃, ?_, ?_, (hleased true ?_).2⟩
  all_goals rw [hh₃]
  · exact (congrArg LeaseCore.state hc₃)
  · exact (congrArg LeaseCore.ourIp hc₃).trans (demoOffer_record.2.trans demoOffer_record.1)
  · rw [show s₃.view.dhcp.state = .bound from congrArg LeaseCore.state hc₃]
    rfl

end WsPi5

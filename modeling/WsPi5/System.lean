/-
# `WsPi5.System` — the users of the one timer pool, together

TCP, IP reassembly, DHCP, mDNS, ARP, NTP and the watchdog share a pool of sixteen entries, which
`main.S` hands to each of them.  A state is that of the first four and the pool; an event is one
call into one of them, or one visit of `timer_check`, which frees a due entry and calls its owner.
ARP, NTP and the watchdog only arm; their next arming may come at any time.

Three of the users cancel by a stored index: a connection, a reassembly slot, and DHCP for each of
the three timers of a lease.  (mDNS does too, after it has looked at the entry.)

**Proved here** (`handles_safe`).  In every run in which DHCP commits no lease while it stores the
index of a timer that has fired, a call of `timer_cancel` finds the slot free or an entry of its
caller, and an entry leaves the pool only when it fires or when its owner cancels it.

What goes wrong otherwise (`renewal_cancels_another`): T1 fires, its slot is handed to a
connection, and the ACK of the renewal cancels the retransmit timer of that connection.

**Shape of the proof.**  Each user's invariant says what its stored indices name; each user's step
keeps its own invariant and makes safe calls only; and safe calls of one user leave the entries
that another one names, because no callback belongs to two of them (`Owner.kept_unique`).
-/
import WsPi5.Tcp.Handles
import WsPi5.Ip.Handles
import WsPi5.Dhcp.Handles

namespace WsPi5

open Lib

/-! ## The callbacks -/

/-- The users of the pool besides TCP, each with its callback and context. -/
inductive PoolUser where
  | reasm (j : RIndex)
  | dhcpRetrans
  | dhcpLease (u : LeaseTimer)
  | mdns
  /-- ARP, NTP, the watchdog. -/
  | plain (n : Nat)
  deriving DecidableEq, Repr

/-- The number under which TCP's model of the pool knows a user. -/
def PoolUser.id : PoolUser → Nat
  | .reasm j => j
  | .dhcpRetrans => 4
  | .dhcpLease .t1 => 5
  | .dhcpLease .t2 => 6
  | .dhcpLease .lease => 7
  | .mdns => 8
  | .plain n => n + 9

section
local instance someReasmSlot : NeZero reasmMaxSlots := ⟨by decide⟩

def PoolUser.ofId : Nat → PoolUser
  | 0 => .reasm 0
  | 1 => .reasm 1
  | 2 => .reasm 2
  | 3 => .reasm 3
  | 4 => .dhcpRetrans
  | 5 => .dhcpLease .t1
  | 6 => .dhcpLease .t2
  | 7 => .dhcpLease .lease
  | 8 => .mdns
  | n + 9 => .plain n

end

theorem PoolUser.id_ofId : ∀ n, (PoolUser.ofId n).id = n
  | 0 | 1 | 2 | 3 | 4 | 5 | 6 | 7 | 8 => rfl
  | _ + 9 => rfl

theorem PoolUser.ofId_id (u : PoolUser) : PoolUser.ofId u.id = u := by
  cases u with
  | reasm j =>
      match j with
      | 0 | 1 | 2 | 3 => rfl
  | dhcpLease u => cases u <;> rfl
  | dhcpRetrans | mdns | plain n => rfl

def PoolUser.cb (u : PoolUser) : Callback := .other u.id

theorem PoolUser.cb_injective : Function.Injective PoolUser.cb := by
  intro u v h
  have hid : u.id = v.id := by
    simpa [PoolUser.cb] using h
  rw [← u.ofId_id, ← v.ofId_id, hid]

/-! ## The state -/

/-- What does not change: the clock rate, our MAC address, the ISN secret, the hostname. -/
structure SysCfg where
  freq : Tick
  ourMac : BitVec 48
  isnSecret : BitVec 64
  hostnameLen : Nat
  deriving Repr

/-- TCP's environment under the current address; pool and send context are set at boot. -/
def SysCfg.tcpEnv (cfg : SysCfg) (net : NetCfg) : Env :=
  ⟨cfg.freq, net.ourIp, cfg.ourMac, cfg.isnSecret, true, true⟩

def SysCfg.reasmEnv (cfg : SysCfg) : ReasmEnv Callback :=
  ⟨cfg.freq, true, fun j => (PoolUser.reasm j).cb⟩

def SysCfg.dhcpEnv (cfg : SysCfg) : DhcpEnv Callback where
  freq := cfg.freq
  retransCb := PoolUser.dhcpRetrans.cb
  leaseCb := fun u => (PoolUser.dhcpLease u).cb
  mdns := ⟨cfg.freq, cfg.hostnameLen, PoolUser.mdns.cb⟩

/-- The pool is the one in TCP's globals.  `fired` is a history: the timers of the lease that have
fired since their index was stored. -/
structure Sys where
  tcp : Tcp
  reasm : RIndex → ReasmSlot
  dhcp : Dhcp
  parsed : DhcpParsed
  net : NetCfg
  mdns : Mdns
  sent : List DhcpMsg
  fired : LeaseTimer → Bool

def Sys.pool (s : Sys) : Pool := s.tcp.pool

/-- The state as reassembly sees it, and its result written back. -/
def Sys.reasmView (s : Sys) : Reasm Callback := ⟨s.reasm, s.pool⟩

def Sys.putReasm (s : Sys) (r : Reasm Callback) : Sys :=
  { s with reasm := r.slot, tcp := { s.tcp with pool := r.pool } }

/-- The state as DHCP sees it, and its result written back. -/
def Sys.client (s : Sys) : DhcpView Callback := ⟨s.dhcp, s.parsed, s.net, s.mdns, s.pool, s.sent⟩

def Sys.putClient (s : Sys) (v : DhcpView Callback) : Sys :=
  { s with
    dhcp := v.dhcp
    parsed := v.parsed
    net := v.net
    mdns := v.mdns
    sent := v.sent
    tcp := { s.tcp with pool := v.pool } }

def Sys.putMdns (s : Sys) (m : Mdns) (p : Pool) : Sys :=
  { s with mdns := m, tcp := { s.tcp with pool := p } }

/-- The state at boot, with the addresses of the configuration file. -/
def sysInit (net : NetCfg) : Sys where
  tcp := tcpInit tpoolDefaultCap
  reasm := fun _ => {}
  dhcp := {}
  parsed := {}
  net := net
  mdns := {}
  sent := []
  fired := fun _ => false

/-! ## The machine -/

inductive SysAct where
  /-- A call into TCP. -/
  | tcp (call : Call)
  /-- A fragment for reassembly. -/
  | frag (f : IpFrag)
  | dhcpStart (hasPool hasSendFn : Bool)
  /-- A DHCP message that passed the parser. -/
  | dhcpRx (reply : DhcpReply) (parsed : DhcpParsed)
  | mdnsStart (hasPool hasSendFn : Bool)
  /-- ARP, NTP or the watchdog arms a timer. -/
  | arm (expiry : Tick) (n : Nat)
  /-- `timer_check` comes to entry `k`. -/
  | visit (k : Nat)
  deriving DecidableEq, Repr

structure SysEvent where
  now : Tick
  act : SysAct
  deriving DecidableEq, Repr

/-- The calls that are TCP's own, from outside. -/
def Call.fromOutside : Call → Bool
  | .visit _ | .otherSet _ _ | .otherCancel _ => false
  | _ => true

/-- Timer `u` has fired at entry `k`: if `k` is the index stored for it, that index is stale. -/
def Sys.noteFired (s : Sys) (u : LeaseTimer) (k : Nat) : Sys :=
  if s.dhcp.slot u = some k then { s with fired := Function.update s.fired u true } else s

/-- The callback of a user besides TCP; the entry, at index `k`, has been freed. -/
def Sys.callback (cfg : SysCfg) (now : Tick) (k : Nat) (s : Sys) : PoolUser → Option Sys
  | .reasm j => some (s.putReasm (ipReasmTimeoutCb j s.reasmView).1)
  | .dhcpRetrans => (dhcpRetransCb cfg.dhcpEnv now s.client).map s.putClient
  | .dhcpLease u =>
      let s := s.noteFired u k
      (dhcpLeaseCb cfg.dhcpEnv now u s.client).map s.putClient
  | .mdns =>
      let r := mdnsTimerCb cfg.dhcpEnv.mdns now s.mdns s.pool
      some (s.putMdns r.1 r.2.1)
  | .plain _ => some s

/-- One visit of `timer_check`. -/
def Sys.visit (cfg : SysCfg) (now : Tick) (k : Nat) (s : Sys) : Option Sys :=
  let s' := { s with tcp := timerVisit (cfg.tcpEnv s.net) now k s.tcp }
  match timerDue s.pool now k with
  | some ⟨_, .other id⟩ => s'.callback cfg now k (PoolUser.ofId id)
  | _ => some s'

/-- What an event does; `none` if it cannot happen or never returns. -/
def Sys.step (cfg : SysCfg) (s : Sys) (e : SysEvent) : Option Sys :=
  match e.act with
  | .tcp c =>
      if c.fromOutside then
        (WsPi5.step (cfg.tcpEnv s.net) s.tcp ⟨e.now, c⟩).map fun t => { s with tcp := t }
      else none
  | .frag f => some (s.putReasm (ipReasmInput cfg.reasmEnv e.now f s.reasmView).1)
  | .dhcpStart hasPool hasSendFn =>
      (dhcpStart cfg.dhcpEnv e.now hasPool hasSendFn s.client).map s.putClient
  | .dhcpRx reply parsed =>
      (dhcpDispatch cfg.dhcpEnv e.now reply parsed s.client).map
        { s with fired := firedAfter reply.evt s.client s.fired }.putClient
  | .mdnsStart hasPool hasSendFn =>
      let r := WsPi5.mdnsStart cfg.dhcpEnv.mdns e.now s.net.ourIp hasPool hasSendFn s.mdns s.pool
      some (s.putMdns r.1 r.2)
  | .arm x n =>
      some { s with tcp := { s.tcp with pool := (timerSet s.pool x (PoolUser.plain n).cb).1 } }
  | .visit k => s.visit cfg e.now k

/-! ## The calls of `timer_cancel` -/

/-- Who cancels by a stored index. -/
inductive Owner where
  | tcp (i : Slot)
  | reasm (j : RIndex)
  | dhcp (o : DhcpOwner)
  deriving DecidableEq, Repr

/-- The timers that the index of each of them is stored for. -/
def Owner.kept (cfg : SysCfg) : Owner → Callback → Prop
  | .tcp i => keptBy i
  | .reasm j => cfg.reasmEnv.kept j
  | .dhcp o => cfg.dhcpEnv.kept o

abbrev SysCancel := CancelCall Owner Callback

/-- The calls of `timer_cancel` that an event makes.  Of the callbacks only TCP's reaper cancels. -/
def Sys.cancels (cfg : SysCfg) (s : Sys) (e : SysEvent) : List SysCancel :=
  match e.act with
  | .tcp c => (s.tcp.cancels (cfg.tcpEnv s.net) e.now c).map (CancelCall.mapOwner .tcp)
  | .frag f => (s.reasmView.cancels cfg.reasmEnv e.now f).map (CancelCall.mapOwner .reasm)
  | .dhcpRx reply parsed =>
      (dhcpCancels cfg.dhcpEnv e.now reply.evt { s.client with parsed := parsed }).map
        (CancelCall.mapOwner .dhcp)
  | .mdnsStart hasPool hasSendFn =>
      (mdnsStartCalls cfg.dhcpEnv.mdns s.net.ourIp hasPool hasSendFn s.mdns s.pool).map
        (CancelCall.mapOwner fun _ => .dhcp .mdns)
  | .visit k => (s.tcp.cancels (cfg.tcpEnv s.net) e.now (.visit k)).map (CancelCall.mapOwner .tcp)
  | .dhcpStart _ _ | .arm _ _ => []

/-- **The property**, of one event: every call finds its slot free or in it a timer of its caller,
and an entry leaves the pool only when it fires or by a call of its owner. -/
structure SafeStep (cfg : SysCfg) (s : Sys) (e : SysEvent) (s' : Sys) : Prop where
  safe : ∀ c ∈ s.cancels cfg e, c.Safe (Owner.kept cfg)
  lost : ∀ k x, k < s.pool.cap → s.pool.slot k = some x →
    s'.pool.slot k = some x ∨
    (e.act = .visit k ∧ timerDue s.pool e.now k = some x) ∨
    ∃ c ∈ s.cancels cfg e, c.index = k ∧ c.hits = some x ∧ c.owner.kept cfg x.callback

/-- What the theorem asks of a step: DHCP does not commit a lease while it stores the index of a
timer that has fired. -/
def freshLease (s : Sys) (e : SysEvent) : Prop :=
  match e.act with
  | .dhcpRx reply _ => dhcpCommits reply.evt s.client → s.dhcp.hasPool = true →
      ∀ u, s.fired u = true → s.dhcp.slot u = none
  | _ => True

/-! ## No callback belongs to two owners -/

section
variable {cfg : SysCfg}

theorem keptBy_ne_user {i : Slot} {u : PoolUser} : ¬ keptBy i u.cb := by
  rintro (h | h) <;> cases h

theorem Owner.kept_user {o : Owner} {cb : Callback} (h : o.kept cfg cb) :
    (∃ i, o = .tcp i ∧ keptBy i cb) ∨ ∃ u : PoolUser, cb = u.cb ∧
      match u with
      | .reasm j => o = .reasm j
      | .dhcpLease t => o = .dhcp (.lease t)
      | .mdns => o = .dhcp .mdns
      | _ => False := by
  cases o with
  | tcp i => exact .inl ⟨i, rfl, h⟩
  | reasm j => exact .inr ⟨.reasm j, h, rfl⟩
  | dhcp o =>
      cases o with
      | lease u => exact .inr ⟨.dhcpLease u, h, rfl⟩
      | mdns => exact .inr ⟨.mdns, h, rfl⟩

/-- **A callback tells its owner.** -/
theorem Owner.kept_unique {o o' : Owner} {cb : Callback} (h : o.kept cfg cb)
    (h' : o'.kept cfg cb) : o = o' := by
  rcases Owner.kept_user h with ⟨i, rfl, hi⟩ | ⟨u, rfl, hu⟩
  · rcases Owner.kept_user h' with ⟨i', rfl, hi'⟩ | ⟨u, rfl, _⟩
    · rw [keptBy_unique hi hi']
    · exact absurd hi keptBy_ne_user
  · rcases Owner.kept_user h' with ⟨i', rfl, hi'⟩ | ⟨u', hcb, hu'⟩
    · exact absurd hi' keptBy_ne_user
    · have huu := PoolUser.cb_injective hcb
      subst huu
      cases u with
      | reasm | dhcpLease | mdns => rw [hu, hu']
      | dhcpRetrans | plain => exact hu.elim

theorem reasmEnv_injective (cfg : SysCfg) : Function.Injective cfg.reasmEnv.timeoutCb := by
  intro j j' h
  have := PoolUser.cb_injective h
  cases this
  rfl

theorem dhcpEnv_injective (cfg : SysCfg) : Function.Injective cfg.dhcpEnv.leaseCb := by
  intro u u' h
  have := PoolUser.cb_injective h
  cases this
  rfl

theorem leaseCb_ne_mdns (cfg : SysCfg) (u : LeaseTimer) :
    cfg.dhcpEnv.leaseCb u ≠ cfg.dhcpEnv.mdns.timerCb := by
  intro h
  have := PoolUser.cb_injective h
  cases this

/-! ## The invariant -/

/-- What the stored indices name, for every user. -/
structure SysInv (cfg : SysCfg) (s : Sys) : Prop where
  tcp : HandlesOk s.tcp
  reasm : ReasmHandlesOk cfg.reasmEnv s.reasmView
  lease : LeaseHandlesOk cfg.dhcpEnv s.fired s.client

/-- The calls `cs` account for the pool from `p` on, they are safe, and the invariant holds. -/
structure SysStep (cfg : SysCfg) (p : Pool) (cs : List SysCancel) (s' : Sys) : Prop where
  calls : PoolCalls p cs s'.pool
  safe : ∀ x ∈ cs, x.Safe (Owner.kept cfg)
  inv : SysInv cfg s'

variable {s s' : Sys} {cs : List SysCancel} {p : Pool}

theorem HandlesOk.others {t : Tcp} (h : HandlesOk t) (hp : PoolCalls t.pool cs p)
    (hsafe : ∀ x ∈ cs, x.Safe (Owner.kept cfg)) (hno : ∀ x ∈ cs, ∀ i, x.owner ≠ .tcp i) :
    HandlesOk { t with pool := p } := by
  intro i hlive
  refine (h i hlive).frame (Owner.kept cfg) hp hsafe fun x hx cb hcb hown => hno x hx i ?_
  have hcb' : Owner.kept cfg (.tcp i) cb := hcb
  exact Owner.kept_unique hown hcb'

theorem ReasmHandlesOk.others {r : Reasm Callback} (h : ReasmHandlesOk cfg.reasmEnv r)
    (hp : PoolCalls r.pool cs p) (hsafe : ∀ x ∈ cs, x.Safe (Owner.kept cfg))
    (hno : ∀ x ∈ cs, ∀ j, x.owner ≠ .reasm j) : ReasmHandlesOk cfg.reasmEnv { r with pool := p } := by
  refine h.frame (Owner.kept cfg) hp hsafe fun x hx j cb hcb hown => hno x hx j ?_
  have hcb' : Owner.kept cfg (.reasm j) cb := hcb
  exact Owner.kept_unique hown hcb'

theorem LeaseHandlesOk.others {v v' : DhcpView Callback} {fired : LeaseTimer → Bool}
    (h : LeaseHandlesOk cfg.dhcpEnv fired v) (hdhcp : v'.dhcp = v.dhcp)
    (hp : PoolCalls v.pool cs v'.pool) (hsafe : ∀ x ∈ cs, x.Safe (Owner.kept cfg))
    (hno : ∀ x ∈ cs, ∀ u, x.owner ≠ .dhcp (.lease u)) : LeaseHandlesOk cfg.dhcpEnv fired v' := by
  intro hpool u hfired
  rw [hdhcp] at hpool
  refine (h hpool u hfired).frame (by rw [hdhcp]) (Owner.kept cfg) hp hsafe
    fun x hx hown => hno x hx u ?_
  have hcb : Owner.kept cfg (.dhcp (.lease u)) (cfg.dhcpEnv.leaseCb u) := rfl
  exact Owner.kept_unique hown hcb

/-! ## The users, one by one -/

theorem mapOwner_ne {ω : Type} {g : ω → Owner} {cs : List (CancelCall ω Callback)}
    {x : SysCancel} {o : Owner} (hx : x ∈ cs.map (CancelCall.mapOwner g)) (hg : ∀ w, g w ≠ o) :
    x.owner ≠ o := by
  obtain ⟨y, _, rfl⟩ := List.mem_map.mp hx
  exact hg y.owner

theorem mapOwner_safe {ω : Type} {g : ω → Owner} {cs : List (CancelCall ω Callback)}
    {names : ω → Callback → Prop} (h : ∀ x ∈ cs, x.Safe names)
    (hg : ∀ o cb, names o cb → Owner.kept cfg (g o) cb) :
    ∀ x ∈ cs.map (CancelCall.mapOwner g), x.Safe (Owner.kept cfg) := by
  intro x hx
  obtain ⟨y, hy, rfl⟩ := List.mem_map.mp hx
  exact (h y hy).mapOwner hg

theorem sysInv_tcpStep {t t' : Tcp} {cs : List TcpCancel}
    (hreasm : ReasmHandlesOk cfg.reasmEnv { s.reasmView with pool := t.pool })
    (hlease : LeaseHandlesOk cfg.dhcpEnv s.fired { s.client with pool := t.pool })
    (hst : HandleStep t cs t') :
    SysStep cfg t.pool (cs.map (CancelCall.mapOwner .tcp)) { s with tcp := t' } := by
  have hcalls : PoolCalls t.pool (cs.map (CancelCall.mapOwner Owner.tcp)) t'.pool :=
    hst.calls.mapOwner Owner.tcp
  have hsafe : ∀ x ∈ cs.map (CancelCall.mapOwner Owner.tcp), x.Safe (Owner.kept cfg) :=
    mapOwner_safe hst.safe fun _ _ hcb => hcb
  refine ⟨hcalls, hsafe, hst.ok, ?_, ?_⟩
  · exact hreasm.others hcalls hsafe fun x hx j =>
      mapOwner_ne hx (by simp)
  · exact hlease.others rfl hcalls hsafe fun x hx u =>
      mapOwner_ne hx (by simp)

theorem SysInv.frag (h : SysInv cfg s) (now : Tick) (f : IpFrag) :
    SysStep cfg s.pool
      ((s.reasmView.cancels cfg.reasmEnv now f).map (CancelCall.mapOwner .reasm))
      (s.putReasm (ipReasmInput cfg.reasmEnv now f s.reasmView).1) := by
  obtain ⟨hcalls, hsafe, hok⟩ := h.reasm.input (reasmEnv_injective cfg) now f
  have hcalls' := hcalls.mapOwner Owner.reasm
  have hsafe' : ∀ x ∈ (s.reasmView.cancels cfg.reasmEnv now f).map
      (CancelCall.mapOwner Owner.reasm), x.Safe (Owner.kept cfg) :=
    mapOwner_safe hsafe fun _ _ hcb => hcb
  refine ⟨hcalls', hsafe', ?_, hok, ?_⟩
  · exact h.tcp.others hcalls' hsafe' fun x hx i =>
      mapOwner_ne hx (by simp)
  · exact h.lease.others rfl hcalls' hsafe' fun x hx u =>
      mapOwner_ne hx (by simp)

theorem SysInv.clientStep (h : SysInv cfg s) {v : DhcpView Callback} {fired : LeaseTimer → Bool}
    {cs : List (CancelCall DhcpOwner Callback)} (hcalls : PoolCalls s.pool cs v.pool)
    (hsafe : ∀ x ∈ cs, x.Safe cfg.dhcpEnv.kept) (hok : LeaseHandlesOk cfg.dhcpEnv fired v) :
    SysStep cfg s.pool (cs.map (CancelCall.mapOwner .dhcp))
      ({ s with fired := fired }.putClient v) := by
  have hcalls' := hcalls.mapOwner Owner.dhcp
  have hsafe' : ∀ x ∈ cs.map (CancelCall.mapOwner Owner.dhcp), x.Safe (Owner.kept cfg) :=
    mapOwner_safe hsafe fun _ _ hcb => hcb
  refine ⟨hcalls', hsafe', ?_, ?_, hok⟩
  · exact h.tcp.others hcalls' hsafe' fun x hx i =>
      mapOwner_ne hx (by simp)
  · exact h.reasm.others hcalls' hsafe' fun x hx j =>
      mapOwner_ne hx (by simp)

/-- The responder does something: the indices of the client stay. -/
theorem SysInv.mdnsStep (h : SysInv cfg s) {m : Mdns} {cs : List (CancelCall Unit Callback)}
    (hcalls : PoolCalls s.pool cs p) (hsafe : ∀ x ∈ cs, x.Safe cfg.dhcpEnv.mdns.kept) :
    SysStep cfg s.pool (cs.map (CancelCall.mapOwner fun _ => .dhcp .mdns)) (s.putMdns m p) := by
  have hcalls' := hcalls.mapOwner fun _ => Owner.dhcp .mdns
  have hsafe' : ∀ x ∈ cs.map (CancelCall.mapOwner fun _ => Owner.dhcp .mdns),
      x.Safe (Owner.kept cfg) := mapOwner_safe hsafe fun _ _ hcb => hcb
  refine ⟨hcalls', hsafe', ?_, ?_, ?_⟩
  · exact h.tcp.others hcalls' hsafe' fun x hx i =>
      mapOwner_ne hx (by simp)
  · exact h.reasm.others hcalls' hsafe' fun x hx j =>
      mapOwner_ne hx (by simp)
  · exact h.lease.others rfl hcalls' hsafe' fun x hx u =>
      mapOwner_ne hx (by simp)

/-! ## `timer_check` -/

theorem SysInv.freed (h : SysInv cfg s) {k : Nat} {e : TimerEntry Callback}
    (fired : LeaseTimer → Bool) (hk : s.pool.slot k = some e) {u : PoolUser}
    (hu : e.callback = u.cb) (hreasm : ∀ j, u ≠ .reasm j)
    (hfired : ∀ t, fired t = false → s.fired t = false ∧ (s.dhcp.slot t = some k →
      u ≠ .dhcpLease t)) :
    SysInv cfg { s with tcp := s.tcp.freeEntry k, fired := fired } where
  tcp := freeEntry_handles h.tcp hk fun i => by
    rw [hu]
    exact keptBy_ne_user
  reasm := by
    refine h.reasm.freed hk fun j hkept => hreasm j ?_
    exact PoolUser.cb_injective (hu.symm.trans hkept)
  lease := by
    refine h.lease.freed hk fun t ht => ⟨(hfired t ht).1, fun hslot hcb => ?_⟩
    exact (hfired t ht).2 hslot (PoolUser.cb_injective (hu.symm.trans hcb))

/-- The callback of a user besides TCP, from the state in which its entry has been freed. -/
theorem SysInv.callback (h : SysInv cfg s) {now : Tick} {k : Nat} {e : TimerEntry Callback}
    (hk : s.pool.slot k = some e) {u : PoolUser} (hu : e.callback = u.cb)
    (hst : { s with tcp := s.tcp.freeEntry k }.callback cfg now k u = some s') :
    SysStep cfg (s.tcp.freeEntry k).pool [] s' := by
  have hsame : ∀ t, s.fired t = false → u ≠ .dhcpLease t →
      s.fired t = false ∧ (s.dhcp.slot t = some k → u ≠ .dhcpLease t) :=
    fun t ht hne => ⟨ht, fun _ => hne⟩
  cases u with
  | reasm j =>
      cases hst
      refine ⟨.refl, by simp, ?_, ?_, ?_⟩
      · refine freeEntry_handles h.tcp hk fun i => ?_
        rw [hu]
        exact keptBy_ne_user
      · exact h.reasm.timeout (reasmEnv_injective cfg) hk hu
      · refine h.lease.freed hk fun t ht => ⟨ht, fun _ hcb => ?_⟩
        cases PoolUser.cb_injective (hu.symm.trans hcb)
  | dhcpRetrans =>
      have hfree := h.freed s.fired hk hu (by simp) fun t ht => hsame t ht (by simp)
      obtain ⟨v, hv, rfl⟩ := Option.map_eq_some_iff.mp hst
      obtain ⟨hcalls, hok⟩ := dhcpRetransCb_quiet hfree.lease hv
      exact hfree.clientStep hcalls (by simp) hok
  | dhcpLease t =>
      obtain ⟨v, hv, rfl⟩ := Option.map_eq_some_iff.mp hst
      unfold Sys.noteFired at hv ⊢
      split at hv
      · rename_i hslot
        rw [if_pos hslot]
        have hfree := h.freed (Function.update s.fired t true) hk hu (by simp)
          fun t' ht' => by
            have hne : t' ≠ t := by
              rintro rfl
              simp at ht'
            rw [Function.update_of_ne hne] at ht'
            exact hsame t' ht' (by simpa using hne.symm)
        obtain ⟨hcalls, hok⟩ := dhcpFsaStep_quiet (by cases t <;> decide) hfree.lease hv
        exact hfree.clientStep hcalls (by simp) hok
      · rename_i hslot
        rw [if_neg hslot]
        have hfree := h.freed s.fired hk hu (by simp) fun t' ht' =>
          ⟨ht', fun hst heq => hslot (by cases heq; exact hst)⟩
        obtain ⟨hcalls, hok⟩ := dhcpFsaStep_quiet (by cases t <;> decide) hfree.lease hv
        exact hfree.clientStep hcalls (by simp) hok
  | mdns =>
      cases hst
      have hfree := h.freed s.fired hk hu (by simp) fun t ht => hsame t ht (by simp)
      exact hfree.mdnsStep (mdnsTimerCb_calls cfg.dhcpEnv.mdns now s.mdns _) (by simp)
  | plain n =>
      cases hst
      have hfree := h.freed s.fired hk hu (by simp) fun t ht => hsame t ht (by simp)
      exact ⟨.refl, by simp, hfree⟩

/-- **One visit of `timer_check`.** -/
theorem SysInv.visit (h : SysInv cfg s) {now : Tick} {k : Nat}
    (hst : s.visit cfg now k = some s') :
    SysStep cfg (s.tcp.fired now (.visit k)).pool
      ((s.tcp.cancels (cfg.tcpEnv s.net) now (.visit k)).map (CancelCall.mapOwner .tcp)) s' := by
  have htcp : HandleStep (s.tcp.fired now (.visit k))
      (s.tcp.cancels (cfg.tcpEnv s.net) now (.visit k))
      (timerVisit (cfg.tcpEnv s.net) now k s.tcp) := timerVisit_handles now rfl rfl h.tcp k
  unfold Sys.visit at hst
  dsimp only at hst
  cases hdue : timerDue s.pool now k with
  | none =>
      have hpool : (s.tcp.fired now (.visit k)).pool = s.pool := by
        have : timerDue s.tcp.pool now k = none := hdue
        simp [Tcp.fired, this, Sys.pool]
      rw [hdue] at hst
      cases hst
      refine sysInv_tcpStep ?_ ?_ htcp
      · rw [hpool]
        exact h.reasm
      · rw [hpool]
        exact h.lease
  | some e =>
      obtain ⟨_, hslot⟩ := timerDue_some hdue
      have hpool : s.tcp.fired now (.visit k) = s.tcp.freeEntry k := by
        have : timerDue s.tcp.pool now k = some e := hdue
        simp [Tcp.fired, this]
      obtain ⟨x, cb⟩ := e
      -- an entry of TCP is named by no other user
      have hown : ∀ {t' : Tcp} {cs : List TcpCancel}, (∀ u : PoolUser, cb ≠ u.cb) →
          HandleStep (s.tcp.fired now (.visit k)) cs t' →
          SysStep cfg (s.tcp.fired now (.visit k)).pool (cs.map (CancelCall.mapOwner .tcp))
            { s with tcp := t' } := by
        intro t' cs hcb hstep
        refine sysInv_tcpStep ?_ ?_ hstep
        · rw [hpool]
          exact h.reasm.freed hslot fun j hkept => hcb _ hkept
        · rw [hpool]
          exact h.lease.freed hslot fun t ht => ⟨ht, fun _ hkept => hcb _ hkept⟩
      rw [hdue] at hst
      cases cb with
      | tcpRetransmitCb j | tcpTimewaitCb j | tcpPersistCb j | tcpIdleReaperCb =>
          cases hst
          exact hown (fun u hu => by cases hu) htcp
      | other id =>
          have hcb : Callback.other id = (PoolUser.ofId id).cb := by
            rw [PoolUser.cb, PoolUser.id_ofId]
          have hvisit : timerVisit (cfg.tcpEnv s.net) now k s.tcp = s.tcp.freeEntry k := by
            have : timerDue s.tcp.pool now k = some ⟨x, .other id⟩ := hdue
            simp only [timerVisit, this, runCallback]
          have hnone : s.tcp.cancels (cfg.tcpEnv s.net) now (.visit k) = [] := by
            have : timerDue s.tcp.pool now k = some ⟨x, .other id⟩ := hdue
            simp only [Tcp.cancels, this]
          rw [hpool, hnone]
          dsimp only at hst
          rw [hvisit] at hst
          exact h.callback hslot hcb hst

/-! ## Every event -/

/-- The pool that the code of an event finds: a due entry has been freed. -/
def Sys.firedPool (s : Sys) (e : SysEvent) : Pool :=
  match e.act with
  | .visit k => (s.tcp.fired e.now (.visit k)).pool
  | _ => s.pool

/-- **Every event** that meets the condition. -/
theorem SysInv.step (h : SysInv cfg s) {e : SysEvent} (hok : freshLease s e)
    (hst : s.step cfg e = some s') : SysStep cfg (s.firedPool e) (s.cancels cfg e) s' := by
  obtain ⟨now, act⟩ := e
  cases act with
  | tcp c =>
      simp only [Sys.step] at hst
      split at hst
      · rename_i hc
        obtain ⟨t, ht, rfl⟩ := Option.map_eq_some_iff.mp hst
        have hstep := h.tcp.step rfl rfl (fun k heq => by
          cases heq
          cases hc) ht
        have hfired : s.tcp.fired now c = s.tcp := by
          cases c <;> first | rfl | cases hc
        rw [hfired] at hstep
        exact sysInv_tcpStep h.reasm h.lease hstep
      · cases hst
  | frag f =>
      cases hst
      exact h.frag now f
  | dhcpStart hasPool hasSendFn =>
      simp only [Sys.step] at hst
      obtain ⟨v, hv, rfl⟩ := Option.map_eq_some_iff.mp hst
      obtain ⟨hcalls, hok'⟩ := dhcpStart_handles hv
      exact h.clientStep hcalls (by simp) hok'
  | dhcpRx reply parsed =>
      simp only [Sys.step] at hst
      obtain ⟨v, hv, rfl⟩ := Option.map_eq_some_iff.mp hst
      have hlease : LeaseHandlesOk cfg.dhcpEnv s.fired { s.client with parsed := parsed } := h.lease
      have hcalls := dhcpFsaStep_calls hv
      have hsafe := dhcpCancels_safe now (dhcpEnv_injective cfg) (leaseCb_ne_mdns cfg) hlease hok
      have hafter := hlease.fsaStep hv
      exact h.clientStep hcalls hsafe hafter
  | mdnsStart hasPool hasSendFn =>
      cases hst
      exact h.mdnsStep (mdnsTryArm_calls cfg.dhcpEnv.mdns now s.net.ourIp _ s.pool)
        (mdnsTryArm_safe cfg.dhcpEnv.mdns s.net.ourIp _ s.pool)
  | arm x n =>
      cases hst
      have hcalls : @PoolCalls _ Owner s.pool [] (timerSet s.pool x (PoolUser.plain n).cb).1 :=
        PoolCalls.refl.set _ _
      have hsafe : ∀ y ∈ ([] : List SysCancel), y.Safe (Owner.kept cfg) := by simp
      exact ⟨hcalls, hsafe, h.tcp.others hcalls hsafe (by simp),
        h.reasm.others hcalls hsafe (by simp), h.lease.others rfl hcalls hsafe (by simp)⟩
  | visit k => exact h.visit hst

theorem sysInv_init (cfg : SysCfg) (net : NetCfg) : SysInv cfg (sysInit net) where
  tcp := handles_init tpoolDefaultCap
  reasm := ⟨show tpoolDefaultCap ≤ 255 by decide, fun _ => .of_free rfl⟩
  lease := by
    intro hpool
    cases hpool

theorem SysStep.safeStep {e : SysEvent} (h : SysStep cfg (s.firedPool e) (s.cancels cfg e) s') :
    SafeStep cfg s e s' where
  safe := h.safe
  lost := by
    intro k x hcap hk
    -- either the entry is freed because it is due, or the code of the event finds it
    have hfound : (e.act = .visit k ∧ timerDue s.pool e.now k = some x) ∨
        (k < (s.firedPool e).cap ∧ (s.firedPool e).slot k = some x) := by
      unfold Sys.firedPool
      cases hact : e.act with
      | visit m =>
          cases hdue : timerDue s.tcp.pool e.now m with
          | none =>
              refine .inr ?_
              simp only [Tcp.fired, hdue, Option.isSome_none, Bool.false_eq_true, if_false]
              exact ⟨hcap, hk⟩
          | some y =>
              by_cases hkm : k = m
              · subst hkm
                have hy := (timerDue_some hdue).2
                rw [show s.tcp.pool.slot k = some x from hk] at hy
                cases hy
                exact .inl ⟨rfl, hdue⟩
              · refine .inr ?_
                simp only [Tcp.fired, hdue, Option.isSome_some, if_true, Tcp.freeEntry,
                  Function.update_of_ne hkm]
                exact ⟨hcap, hk⟩
      | tcp | frag | dhcpStart | dhcpRx | mdnsStart | arm => exact .inr ⟨hcap, hk⟩
    rcases hfound with hfired | ⟨hcap', hk'⟩
    · exact .inr (.inl hfired)
    · rcases h.calls.lost hcap' hk' with hstay | ⟨c, hc, hindex, hhits⟩
      · exact .inl hstay
      · exact .inr (.inr ⟨c, hc, hindex, hhits, h.safe c hc x hhits⟩)

end

/-! ## The result -/

/-- **Timer handles are safe**, in every run in which DHCP commits no lease while it stores the
index of a timer that has fired. -/
theorem handles_safe {cfg : SysCfg} {net : NetCfg} {s s' : Sys} {e : SysEvent}
    (hrun : Run (Sys.step cfg) freshLease (sysInit net) s) (hok : freshLease s e)
    (hst : s.step cfg e = some s') : SafeStep cfg s e s' := by
  have hinv : SysInv cfg s := hrun.invariant (P := SysInv cfg) (sysInv_init cfg net)
    fun h hok hst => (h.step hok hst).inv
  exact (hinv.step hok hst).safeStep

instance decForallLease (P : LeaseTimer → Prop) [∀ u, Decidable (P u)] :
    Decidable (∀ u, P u) :=
  decidable_of_iff (P .t1 ∧ P .t2 ∧ P .lease)
    ⟨fun ⟨h₁, h₂, h₃⟩ u => match u with
      | .t1 => h₁
      | .t2 => h₂
      | .lease => h₃, fun h => ⟨h .t1, h .t2, h .lease⟩⟩

instance decFreshLease (s : Sys) : ∀ e, Decidable (freshLease s e)
  | ⟨_, .dhcpRx reply _⟩ => inferInstanceAs (Decidable (dhcpCommits reply.evt s.client →
      s.dhcp.hasPool = true → ∀ u, s.fired u = true → s.dhcp.slot u = none))
  | ⟨_, .tcp _⟩ | ⟨_, .frag _⟩ | ⟨_, .dhcpStart _ _⟩ | ⟨_, .mdnsStart _ _⟩ | ⟨_, .arm _ _⟩
  | ⟨_, .visit _⟩ => isTrue trivial

def demoCfg : SysCfg := ⟨1000, 2, 0, 4⟩

/-- A lease of 100 s on the address 7. -/
def demoLease : DhcpParsed := { yiaddr := 7, serverId := 3, leaseTime := 100 }

/-- Listen, and get a lease: T1 has entry 2; the two retransmit timers expire. -/
def demoBound : List SysEvent :=
  [⟨1, .tcp (.listen 80)⟩, ⟨1, .dhcpStart true true⟩, ⟨2, .dhcpRx .offer demoLease⟩,
    ⟨3, .dhcpRx .ack demoLease⟩, ⟨5000, .visit 0⟩, ⟨5000, .visit 1⟩]

/-- A connection is opened under the lease; the RST cancels its timer, in entry 0. -/
theorem handles_safe_demo : ∃ s s' : Sys, Run (Sys.step demoCfg) freshLease (sysInit ⟨0, 0, 0⟩) s ∧
    s.step demoCfg ⟨5001, .tcp (.rx demoRst)⟩ = some s' ∧
    s.pool.slot 0 = some ⟨6000, .tcpRetransmitCb 1⟩ ∧ s'.pool.slot 0 = none ∧
    SafeStep demoCfg s ⟨5001, .tcp (.rx demoRst)⟩ s' := by
  obtain ⟨s, hrun, hslot, s', hs', hfree⟩ := exists_run (Sys.step demoCfg) freshLease
    (sysInit ⟨0, 0, 0⟩)
    (Q := fun s => s.pool.slot 0 = some ⟨6000, .tcpRetransmitCb 1⟩ ∧
      ∃ s' ∈ s.step demoCfg ⟨5001, .tcp (.rx demoRst)⟩, s'.pool.slot 0 = none)
    (demoBound ++ [⟨5000, .tcp (.rx demoSyn)⟩]) (by decide +kernel) (by decide +kernel)
  exact ⟨s, s', hrun, hs', hslot, hfree, handles_safe hrun trivial hs'⟩

/-- T1 fires; of two connections that are opened then, the second gets its entry; the ACK of the
renewal cancels the retransmit timer of that connection. -/
theorem renewal_cancels_another : ∃ s s' : Sys,
    Run (Sys.step demoCfg) anyEvent (sysInit ⟨0, 0, 0⟩) s ∧
    s.step demoCfg ⟨60001, .dhcpRx .ack demoLease⟩ = some s' ∧
    s.dhcp.slot .t1 = some 2 ∧ s.pool.slot 2 = some ⟨61000, .tcpRetransmitCb 2⟩ ∧
    ¬ SafeStep demoCfg s ⟨60001, .dhcpRx .ack demoLease⟩ s' := by
  obtain ⟨s, hrun, hindex, hslot, hcap, s', hs', hlost⟩ := exists_run (Sys.step demoCfg) anyEvent
    (sysInit ⟨0, 0, 0⟩)
    (Q := fun s => s.dhcp.slot .t1 = some 2 ∧ s.pool.slot 2 = some ⟨61000, .tcpRetransmitCb 2⟩ ∧
      2 < s.pool.cap ∧ ∃ s' ∈ s.step demoCfg ⟨60001, .dhcpRx .ack demoLease⟩,
        s'.pool.slot 2 ≠ some ⟨61000, .tcpRetransmitCb 2⟩)
    (demoBound ++ [⟨60000, .visit 2⟩, ⟨60000, .tcp (.rx demoSyn)⟩,
      ⟨60000, .tcp (.rx { demoSyn with sport := 1001 })⟩]) (by decide +kernel) (by decide +kernel)
  refine ⟨s, s', hrun, hs', hindex, hslot, fun hsafe => ?_⟩
  rcases hsafe.lost 2 _ hcap hslot with hstay | ⟨hvisit, _⟩ | ⟨c, hc, _, _, hkept⟩
  · exact hlost hstay
  · cases hvisit
  · obtain ⟨y, _, rfl⟩ := List.mem_map.mp hc
    obtain ⟨o, k, q⟩ := y
    cases o <;> cases hkept

end WsPi5

/-
# `WsPi5.Dhcp.Fsa` — the DHCP client of `lib/dhcp_fsa.S`

A table of six states and nine events; a cell names the next state and a handler.  The events come
from `dhcp_start`, from received messages that passed the parser (`dhcp_dispatch`) and from four
timers: the retransmit timer, whose index is not kept, and T1, T2 and the lease expiry, which
`h_commit_lease_arm_timers` arms and whose indices it keeps in the context.

**The indices.**  A commit cancels the three timers by the indices it stored the last time and
arms three new ones.  Nothing else writes the indices: the callbacks of T1, T2 and the lease send
their event and leave them as they are.  So after T1 has fired its index is that of a slot which
the pool hands out again.

`DhcpView` is the client with the pool it shares, and `mdns_kick`, which a commit calls, works on
the same pool.  `none` stands for a step that does not return: `panic_d` halts the device.  The
parser is `Dhcp.Inbound`; `DhcpParsed` is what it leaves.
-/
import WsPi5.Mdns.Probe

namespace WsPi5

/-! ## States, events, handlers, the table -/

/-- `S_*`. -/
inductive DhcpState where
  | init | selecting | requesting | bound | renewing | rebinding
  deriving DecidableEq, Repr

/-- `E_*`. -/
inductive DhcpEvt where
  | start | timerRetransRetry | timerRetransGiveup | timerT1 | timerT2 | timerLease
  | rxOfferValid | rxAckValid | rxNakValid
  deriving DecidableEq, Repr

/-- `h_*`. -/
inductive DhcpHandler where
  | sendDiscover | resendDiscover | recordOfferSendRequest | resendRequestSelecting
  | commitLeaseArmTimers | sendRequestRenew | resendRequestRenew | sendRequestRebind
  | resendRequestRebind | panicD
  deriving DecidableEq, Repr

/-- `dhcp_fsa_trans_table`; `none` for `DHCP_NEXT_NONE` and for no handler. -/
def dhcpFsaTransTable : DhcpState → DhcpEvt → Option DhcpState × Option DhcpHandler
  | .init, .start => (some .selecting, some .sendDiscover)
  | .selecting, .timerRetransRetry => (some .selecting, some .resendDiscover)
  | .selecting, .timerRetransGiveup => (none, some .panicD)
  | .selecting, .rxOfferValid => (some .requesting, some .recordOfferSendRequest)
  | .requesting, .timerRetransRetry => (some .requesting, some .resendRequestSelecting)
  | .requesting, .timerRetransGiveup => (none, some .panicD)
  | .requesting, .rxAckValid => (some .bound, some .commitLeaseArmTimers)
  | .requesting, .rxNakValid => (some .selecting, some .sendDiscover)
  | .bound, .timerT1 => (some .renewing, some .sendRequestRenew)
  | .bound, .timerT2 => (some .rebinding, some .sendRequestRebind)
  | .bound, .timerLease => (some .selecting, some .sendDiscover)
  | .renewing, .timerRetransRetry => (some .renewing, some .resendRequestRenew)
  | .renewing, .timerT2 => (some .rebinding, some .sendRequestRebind)
  | .renewing, .timerLease => (some .selecting, some .sendDiscover)
  | .renewing, .rxAckValid => (some .bound, some .commitLeaseArmTimers)
  | .renewing, .rxNakValid => (some .selecting, some .sendDiscover)
  | .rebinding, .timerRetransRetry => (some .rebinding, some .resendRequestRebind)
  | .rebinding, .timerLease => (some .selecting, some .sendDiscover)
  | .rebinding, .rxAckValid => (some .bound, some .commitLeaseArmTimers)
  | .rebinding, .rxNakValid => (some .selecting, some .sendDiscover)
  | _, _ => (none, none)

/-! ## The client -/

/-- The timers of a lease. -/
inductive LeaseTimer where
  | t1 | t2 | lease
  deriving DecidableEq, Repr

/-- `dhcp_parsed`, as the handlers read it. -/
structure DhcpParsed where
  seenSubnet : Bool := false
  seenRouter : Bool := false
  yiaddr : BitVec 32 := 0
  serverId : BitVec 32 := 0
  leaseTime : BitVec 32 := 0
  subnetMask : BitVec 32 := 0
  routerIp : BitVec 32 := 0
  deriving DecidableEq, Repr

/-- `net_our_ip`, `net_netmask`, `net_gw_ip`. -/
structure NetCfg where
  ourIp : BitVec 32
  netmask : BitVec 32
  gwIp : BitVec 32
  deriving DecidableEq, Repr

/-- What the client sends. -/
inductive DhcpMsg where
  | discover (xid : BitVec 32)
  | requestSelecting (xid serverId requestedIp : BitVec 32)
  | requestRenewing (xid ciaddr : BitVec 32)
  deriving DecidableEq, Repr

/-- `dhcp_send_ctx`, less what the sending needs, and `dhcp_fsa_state`. -/
structure Dhcp where
  hasPool : Bool := false
  hasSendFn : Bool := false
  timerFreq : Tick := 0
  state : DhcpState := .init
  xid : BitVec 32 := 0
  retries : Nat := 0
  leaseTime : BitVec 32 := 0
  serverId : BitVec 32 := 0
  requestedIp : BitVec 32 := 0
  /-- `T1_DEADLINE`, `T2_DEADLINE`, `LEASE_DEADLINE`. -/
  deadline : LeaseTimer → Tick := fun _ => 0
  /-- `T1_SLOT`, `T2_SLOT`, `LEASE_SLOT`; `none` for `-1` (a zeroed context holds index 0). -/
  slot : LeaseTimer → Option Nat := fun _ => some 0

/-- The clock rate and the callbacks. -/
structure DhcpEnv (κ : Type) where
  freq : Tick
  retransCb : κ
  leaseCb : LeaseTimer → κ
  mdns : MdnsEnv κ

/-- The client with everything its handlers reach: what the parser left, the addresses, the
responder, the pool, and the messages it has sent, most recent first. -/
structure DhcpView (κ : Type) where
  dhcp : Dhcp
  parsed : DhcpParsed
  net : NetCfg
  mdns : Mdns
  pool : TimerPool κ
  sent : List DhcpMsg

def dhcpMaxRetries : Nat := 3

section
variable {κ : Type} [DecidableEq κ] (env : DhcpEnv κ) (now : Tick)

/-- The common end of the sending handlers: send, and arm the retransmit timer at 4 s. -/
def dhcpSendArm (msg : DhcpMsg) (v : DhcpView κ) : DhcpView κ :=
  { v with
    sent := msg :: v.sent
    pool := if v.dhcp.hasPool then
        (timerSet v.pool (now + v.dhcp.timerFreq * 4) env.retransCb).1
      else v.pool }

/-- "Fresh retry budget". -/
def Dhcp.freshRetries (d : Dhcp) : Dhcp := { d with retries := dhcpMaxRetries }

/-- "Picks a new xid": the low word of the counter. -/
def Dhcp.freshXid (d : Dhcp) : Dhcp := { d with xid := now.setWidth 32 }

def dhcpDiscoverSendArm (v : DhcpView κ) : DhcpView κ :=
  dhcpSendArm env now (.discover v.dhcp.xid) v

def dhcpRequestSelectingSendArm (v : DhcpView κ) : DhcpView κ :=
  dhcpSendArm env now (.requestSelecting v.dhcp.xid v.dhcp.serverId v.dhcp.requestedIp) v

def dhcpRequestRenewingSendArm (v : DhcpView κ) : DhcpView κ :=
  dhcpSendArm env now (.requestRenewing v.dhcp.xid v.net.ourIp) v

/-- A handler that does nothing without a `send_fn`. -/
def ifSendFn (act : DhcpView κ → DhcpView κ) (v : DhcpView κ) : DhcpView κ :=
  if v.dhcp.hasSendFn then act v else v

def hSendDiscover : DhcpView κ → DhcpView κ :=
  ifSendFn fun v => dhcpDiscoverSendArm env now
    { v with dhcp := (v.dhcp.freshXid now).freshRetries }

def hResendDiscover : DhcpView κ → DhcpView κ := ifSendFn (dhcpDiscoverSendArm env now)

def hRecordOfferSendRequest : DhcpView κ → DhcpView κ :=
  ifSendFn fun v => dhcpRequestSelectingSendArm env now
    { v with dhcp := { v.dhcp with
        serverId := v.parsed.serverId
        requestedIp := v.parsed.yiaddr }.freshRetries }

def hResendRequestSelecting : DhcpView κ → DhcpView κ :=
  ifSendFn (dhcpRequestSelectingSendArm env now)

/-- The body of `h_send_request_renew` and `h_send_request_rebind`. -/
def hSendRequest : DhcpView κ → DhcpView κ :=
  ifSendFn fun v => dhcpRequestRenewingSendArm env now
    { v with dhcp := (v.dhcp.freshXid now).freshRetries }

/-- The body of `h_resend_request_renew` and `h_resend_request_rebind`. -/
def hResendRequest : DhcpView κ → DhcpView κ := ifSendFn (dhcpRequestRenewingSendArm env now)

/-! ### The commit -/

/-- The seconds until each timer: half, seven eighths and all of the lease. -/
def leaseSecs (lease : BitVec 32) : LeaseTimer → Tick
  | .t1 => (lease >>> 1).setWidth 64
  | .t2 => (lease.setWidth 64 * 7) >>> 3
  | .lease => lease.setWidth 64

/-- Cancel one timer by its stored index; `-1` is out of range. -/
def cancelLease (u : LeaseTimer) (v : DhcpView κ) : DhcpView κ :=
  match v.dhcp.slot u with
  | some k => { v with pool := timerCancel v.pool k }
  | none => v

/-- Arm one timer and keep its index and deadline. -/
def armLease (u : LeaseTimer) (v : DhcpView κ) : DhcpView κ :=
  let expiry := now + leaseSecs v.dhcp.leaseTime u * v.dhcp.timerFreq
  let armed := timerSet v.pool expiry (env.leaseCb u)
  { v with
    dhcp := { v.dhcp with
      deadline := Function.update v.dhcp.deadline u expiry
      slot := Function.update v.dhcp.slot u armed.2 }
    pool := armed.1 }

/-- The timers in the order in which the commit cancels and arms them. -/
def leaseTimers : List LeaseTimer := [.t1, .t2, .lease]

/-- "Stamp the addresses", and keep the lease time. -/
def commitAddresses (v : DhcpView κ) : DhcpView κ :=
  { v with
    net := {
      ourIp := v.parsed.yiaddr
      netmask := if v.parsed.seenSubnet then v.parsed.subnetMask else v.net.netmask
      gwIp := if v.parsed.seenRouter then v.parsed.routerIp else v.net.gwIp }
    dhcp := { v.dhcp with leaseTime := v.parsed.leaseTime } }

/-- The call of `mdns_kick`. -/
def kickMdns (v : DhcpView κ) : DhcpView κ :=
  let kicked := mdnsKick env.mdns now v.net.ourIp v.mdns v.pool
  { v with mdns := kicked.1, pool := kicked.2 }

def hCommitLeaseArmTimers (v : DhcpView κ) : DhcpView κ :=
  let v := kickMdns env now (commitAddresses v)
  if v.dhcp.hasPool then
    leaseTimers.foldl (fun v u => armLease env now u v)
      (leaseTimers.foldl (fun v u => cancelLease u v) v)
  else v

/-! ### The engine -/

/-- Call a handler; `panic_d` does not return. -/
def DhcpHandler.call (v : DhcpView κ) : DhcpHandler → Option (DhcpView κ)
  | .sendDiscover => some (hSendDiscover env now v)
  | .resendDiscover => some (hResendDiscover env now v)
  | .recordOfferSendRequest => some (hRecordOfferSendRequest env now v)
  | .resendRequestSelecting => some (hResendRequestSelecting env now v)
  | .commitLeaseArmTimers => some (hCommitLeaseArmTimers env now v)
  | .sendRequestRenew | .sendRequestRebind => some (hSendRequest env now v)
  | .resendRequestRenew | .resendRequestRebind => some (hResendRequest env now v)
  | .panicD => none

/-- `dhcp_fsa_step`: the handler, then the next state. -/
def dhcpFsaStep (evt : DhcpEvt) (v : DhcpView κ) : Option (DhcpView κ) :=
  let cell := dhcpFsaTransTable v.dhcp.state evt
  let called := match cell.2 with
    | some h => h.call env now v
    | none => some v
  called.map fun v' =>
    match cell.1 with
    | some s => { v' with dhcp := { v'.dhcp with state := s } }
    | none => v'

def dhcpStart (hasPool hasSendFn : Bool) (v : DhcpView κ) : Option (DhcpView κ) :=
  dhcpFsaStep env now .start { v with
    dhcp := { v.dhcp with
      hasPool := hasPool
      hasSendFn := hasSendFn
      retries := dhcpMaxRetries
      slot := fun _ => none
      timerFreq := env.freq
      state := .init } }

def dhcpRetransCb (v : DhcpView κ) : Option (DhcpView κ) :=
  if v.dhcp.retries = 0 then dhcpFsaStep env now .timerRetransGiveup v
  else dhcpFsaStep env now .timerRetransRetry
    { v with dhcp := { v.dhcp with retries := v.dhcp.retries - 1 } }

/-- The event of `dhcp_t1_cb`, `dhcp_t2_cb` and `dhcp_lease_cb`. -/
def LeaseTimer.evt : LeaseTimer → DhcpEvt
  | .t1 => .timerT1
  | .t2 => .timerT2
  | .lease => .timerLease

/-- `dhcp_t1_cb`, `dhcp_t2_cb`, `dhcp_lease_cb`: send the event.  The index stays. -/
def dhcpLeaseCb (u : LeaseTimer) (v : DhcpView κ) : Option (DhcpView κ) :=
  dhcpFsaStep env now u.evt v

end

/-- The messages that `dhcp_dispatch` passes on. -/
inductive DhcpReply where
  | offer | ack | nak
  deriving DecidableEq, Repr

def DhcpReply.evt : DhcpReply → DhcpEvt
  | .offer => .rxOfferValid
  | .ack => .rxAckValid
  | .nak => .rxNakValid

/-- `dhcp_dispatch` on a message that the parser accepted. -/
def dhcpDispatch {κ : Type} [DecidableEq κ] (env : DhcpEnv κ) (now : Tick) (reply : DhcpReply)
    (parsed : DhcpParsed) (v : DhcpView κ) : Option (DhcpView κ) :=
  dhcpFsaStep env now reply.evt { v with parsed := parsed }

end WsPi5

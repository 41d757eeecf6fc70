/-
# `WsPi5.Tcp.NetCalls` — what the network and the clock do to a connection

The application sees a connection through its state, its receive buffer and what it did
itself.  Between two of its own calls the module works on frames, ICMP errors and timers; this
module says what that can change, slot by slot (`net_step`):

* a SYN puts a new connection into the slot, in SYN_RCVD with an empty buffer; or
* the connection stays the one it was: the log gets retransmissions and probes at most, the
  buffered bytes stay a prefix of the buffered bytes, and ESTABLISHED is only reached from
  SYN_RCVD, by a frame.

The buffer may be overrun: a stored segment is merged without another look at the room.  It
takes at most four of them, so that `RXLEN`, a halfword, never wraps (`RxBounded`).
-/
import WsPi5.Tcp.RxStream

namespace WsPi5

open Lib

/-- The calls that come from the network and the clock. -/
def Call.net : Call → Bool
  | .rx _ | .icmpErr _ _ _ _ | .visit _ | .otherSet _ _ | .otherCancel _ => true
  | _ => false

/-! ## The log -/

/-- A frame that carries nothing for the first time. -/
def Obs.again : Obs → Bool
  | .resent _ _ | .probed _ _ => true
  | _ => false

/-- The log grew, for slot `i` by such frames only. -/
def onlyAgain (i : Slot) (log log' : List Obs) : Prop :=
  ∃ os : List Obs, log' = os ++ log ∧ ∀ o ∈ os, o.slot = i → o.again = true

theorem onlyAgain.refl (i : Slot) (log : List Obs) : onlyAgain i log log := ⟨[], rfl, by simp⟩

theorem onlyAgain.of_eq {i : Slot} {log log' : List Obs} (h : log' = log) :
    onlyAgain i log log' :=
  h ▸ .refl i log

theorem onlyAgain.of_cons {i : Slot} {log log' : List Obs} {o : Obs} (h : log' = o :: log)
    (ho : o.again = true) : onlyAgain i log log' :=
  ⟨[o], h, by simp [ho]⟩

theorem onlyAgain.trans {i : Slot} {log log' log'' : List Obs} (h : onlyAgain i log log')
    (h' : onlyAgain i log' log'') : onlyAgain i log log'' := by
  obtain ⟨os, rfl, hos⟩ := h
  obtain ⟨os', rfl, hos'⟩ := h'
  refine ⟨os' ++ os, by simp, fun o ho => ?_⟩
  rcases List.mem_append.mp ho with ho | ho
  · exact hos' o ho
  · exact hos o ho

theorem onlyAgain.of_beside {i : Slot} {log log' : List Obs} (h : logGrowsBeside i log log') :
    onlyAgain i log log' := by
  obtain ⟨os, hos, hne⟩ := h
  exact ⟨os, hos, fun o ho heq => absurd heq (hne o ho)⟩

theorem onlyAgain.read {α : Type} {i : Slot} {log log' : List Obs} {g : List Obs → α}
    (h : onlyAgain i log log')
    (hg : ∀ o log, (o.slot = i → o.again = true) → g (o :: log) = g log) : g log' = g log := by
  obtain ⟨os, rfl, hos⟩ := h
  induction os with
  | nil => rfl
  | cons o os ih =>
      rw [List.cons_append, hg o _ (hos o (by simp))]
      exact ih fun o' ho' => hos o' (by simp [ho'])

theorem taken_again {i : Slot} (o : Obs) (log : List Obs) (h : o.slot = i → o.again = true) :
    taken i (o :: log) = taken i log := by
  by_cases ho : o.slot = i
  · have := h ho
    cases o <;> first | rfl | cases this
  · exact taken_other ho

theorem onlyAgain.taken {i : Slot} {log log' : List Obs} (h : onlyAgain i log log') :
    taken i log' = taken i log :=
  h.read taken_again

/-! ## The receive buffer -/

/-- The part of the record that holds received bytes. -/
structure Stored where
  rxlen : Nat
  rxbuf : Nat → Byte
  oooSlots : List OooSlot

def Conn.stored (c : Conn) : Stored := ⟨c.rxlen, c.rxbuf, c.oooSlots⟩

abbrev maxPayload : Nat := 1460

/-- At most four stored segments, each out of one frame, on top of a full buffer. -/
structure RxBounded (c : Conn) : Prop where
  count : c.oooSlots.length ≤ 4
  size : ∀ s ∈ c.oooSlots, s.len ≤ maxPayload
  rxlen : c.rxlen ≤ tcpRxbufSize + 4 * maxPayload

/-- The buffered bytes are kept, and bytes come behind them. -/
def RxGrows (c c' : Conn) : Prop :=
  RxBounded c → RxBounded c' ∧ slice c.rxbuf 0 c.rxlen <+: slice c'.rxbuf 0 c'.rxlen

theorem RxGrows.of_stored {c c' : Conn} (h : c'.stored = c.stored) : RxGrows c c' := by
  have hlen : c'.rxlen = c.rxlen := congrArg Stored.rxlen h
  have hbuf : c'.rxbuf = c.rxbuf := congrArg Stored.rxbuf h
  have hooo : c'.oooSlots = c.oooSlots := congrArg Stored.oooSlots h
  intro hb
  refine ⟨⟨by rw [hooo]; exact hb.count, by rw [hooo]; exact hb.size, by rw [hlen]; exact hb.rxlen⟩,
    ?_⟩
  have hsame : slice c.rxbuf 0 c.rxlen ++ [] = slice c'.rxbuf 0 c'.rxlen := by
    rw [hlen, hbuf, List.append_nil]
  exact ⟨[], hsame⟩

theorem RxGrows.of_rx {c c' : Conn} (h : c'.rx = c.rx) : RxGrows c c' := by
  have hlen : c'.rxlen = c.rxlen := congrArg Rx.rxlen h
  have hbuf : c'.rxbuf = c.rxbuf := congrArg Rx.rxbuf h
  have hooo : c'.oooSlots = c.oooSlots := congrArg Rx.oooSlots h
  exact .of_stored (by rw [Conn.stored, Conn.stored, hlen, hbuf, hooo])

theorem RxGrows.trans {c c' c'' : Conn} (h : RxGrows c c') (h' : RxGrows c' c'') :
    RxGrows c c'' := by
  intro hb
  obtain ⟨hb', hp⟩ := h hb
  obtain ⟨hb'', hp'⟩ := h' hb'
  exact ⟨hb'', hp.trans hp'⟩

theorem slice_prefix_of_keep {buf buf' : Nat → Byte} {n m : Nat} (hle : n ≤ m)
    (hkeep : ∀ k < n, buf' k = buf k) : slice buf 0 n <+: slice buf' 0 m := by
  obtain ⟨d, rfl⟩ := Nat.exists_eq_add_of_le hle
  rw [slice_add]
  have : slice buf' 0 n = slice buf 0 n := slice_congr fun k hk => by simpa using hkeep k hk
  rw [this]
  exact List.prefix_append _ _

theorem swapRemove_length {α : Type} {xs : List α} {k : Nat} (h : xs ≠ []) :
    (swapRemove xs k).length + 1 = xs.length := by
  have hpos : 0 < xs.length := List.length_pos_of_ne_nil h
  rw [swapRemove, List.getLast?_eq_some_getLast h]
  simp only [List.length_dropLast, List.length_set]
  omega

/-- Merging takes entries, each at most once, and only lengthens what is buffered. -/
theorem oooMerge_grows : ∀ (n : Nat) (c : Conn),
    (∀ s ∈ c.oooSlots, s.len ≤ maxPayload) →
    c.rxlen + maxPayload * c.oooSlots.length ≤ tcpRxbufSize + 4 * maxPayload →
    (∀ s ∈ (oooMerge n c).oooSlots, s.len ≤ maxPayload) ∧
      (oooMerge n c).rxlen + maxPayload * (oooMerge n c).oooSlots.length
        ≤ tcpRxbufSize + 4 * maxPayload ∧
      (oooMerge n c).oooSlots.length ≤ c.oooSlots.length ∧
      c.rxlen ≤ (oooMerge n c).rxlen ∧ (oooMerge n c).rxbuf = c.rxbuf
  | 0, c, hs, hb => ⟨hs, hb, Nat.le_refl _, Nat.le_refl _, rfl⟩
  | n + 1, c, hs, hb => by
      rw [oooMerge]
      split
      · exact ⟨hs, hb, Nat.le_refl _, Nat.le_refl _, rfl⟩
      · rename_i k hk
        have hne : c.oooSlots ≠ [] := by
          intro hnil
          simp [hnil] at hk
        have hlen := swapRemove_length (k := k) hne
        have htake : (c.oooSlots[k]?.map OooSlot.len).getD 0 ≤ maxPayload := by
          cases hget : c.oooSlots[k]? with
          | none => simp
          | some s =>
              have := hs s (List.mem_of_getElem? hget)
              simpa using this
        have hfit : (c.rxlen + (c.oooSlots[k]?.map OooSlot.len).getD 0) % 65536
            = c.rxlen + (c.oooSlots[k]?.map OooSlot.len).getD 0 :=
          Nat.mod_eq_of_lt (by simp only [tcpRxbufSize, maxPayload] at *; omega)
        obtain ⟨h₁, h₂, h₃, h₄, h₅⟩ := oooMerge_grows n
          { c with
            rcvNxt := c.rcvNxt + BitVec.ofNat 32 ((c.oooSlots[k]?.map OooSlot.len).getD 0)
            rxlen := (c.rxlen + (c.oooSlots[k]?.map OooSlot.len).getD 0) % 65536
            oooSlots := swapRemove c.oooSlots k }
          (fun s hmem => hs s (mem_swapRemove hmem))
          (by
            simp only [hfit]
            have : maxPayload * c.oooSlots.length
                = maxPayload * (swapRemove c.oooSlots k).length + maxPayload := by
              rw [← hlen, Nat.mul_add, Nat.mul_one]
            omega)
        refine ⟨h₁, h₂, ?_, ?_, h₅⟩
        · have : (swapRemove c.oooSlots k).length ≤ c.oooSlots.length := by omega
          exact Nat.le_trans h₃ this
        · have : c.rxlen ≤ (c.rxlen + (c.oooSlots[k]?.map OooSlot.len).getD 0) % 65536 := by
            omega
          exact Nat.le_trans this h₄

theorem acceptData_grows {f : Frame} {c : Conn} (hroom : c.rxlen + f.payload.length ≤ tcpRxbufSize) :
    RxGrows c (acceptData f c) := by
  intro hb
  have hmul : maxPayload * c.oooSlots.length ≤ 4 * maxPayload := by
    have := hb.count
    rw [Nat.mul_comm]
    exact Nat.mul_le_mul_right _ this
  obtain ⟨h₁, h₂, h₃, h₄, h₅⟩ := oooMerge_grows c.oooSlots.length
    { c with
      rxbuf := memWrite c.rxbuf c.rxlen f.payload
      rxlen := c.rxlen + f.payload.length
      rcvNxt := c.rcvNxt + BitVec.ofNat 32 f.payload.length } hb.size
    (by dsimp only; omega)
  refine ⟨⟨Nat.le_trans h₃ hb.count, h₁, ?_⟩, ?_⟩
  · exact Nat.le_trans (Nat.le_add_right _ _) h₂
  · rw [acceptData]
    dsimp only at h₄ h₅ ⊢
    rw [h₅]
    exact slice_prefix_of_keep (by omega) fun k hk => memWrite_of_lt _ hk

theorem storeOoo_grows {f : Frame} {c : Conn} (hfit : oooFits f c = true)
    (hlen : f.payload.length ≤ maxPayload) : RxGrows c (storeOoo f c) := by
  intro hb
  simp only [oooFits, Bool.and_eq_true, decide_eq_true_eq] at hfit
  refine ⟨⟨?_, ?_, hb.rxlen⟩, ?_⟩
  · simp only [storeOoo, List.length_append, List.length_singleton]
    omega
  · intro s hs
    rcases List.mem_append.mp hs with hs | hs
    · exact hb.size s hs
    · rw [List.mem_singleton.mp hs]
      exact hlen
  · exact slice_prefix_of_keep (Nat.le_refl _) fun k hk => memWrite_of_lt _ (by omega)

/-! ## The handlers -/

section
variable {env : Env} {now : Tick} {i : Slot} {f : Frame}

theorem Resends.onlyAgain {l l' : Local} (h : Resends env now i l l') :
    onlyAgain i l.log l'.log := by
  obtain hsame | ⟨c, off, g, hlog, _⟩ := h
  · exact .of_eq hsame
  · exact .of_cons hlog rfl

theorem tcpEstabAckHandler_net {l l' : Local} {r : HRes}
    (hlen : f.payload.length ≤ maxPayload)
    (hc : tcpEstabAckHandler env now i f l = some (l', r)) :
    RxGrows l.conn l'.conn ∧ onlyAgain i l.log l'.log := by
  unfold tcpEstabAckHandler at hc
  dsimp only at hc
  have hrx : (eakAck env now f (eakWindow env now i f l)).conn.rx = l.conn.rx := by simp
  have hlog : (eakAck env now f (eakWindow env now i f l)).log = l.log := by simp
  split at hc
  · cases hc
    exact ⟨.of_rx hrx, .of_eq hlog⟩
  · refine ⟨?_, ?_⟩
    · obtain hsame | ⟨_, c, hcrx, _, hroom, hl'⟩ | ⟨_, _, hfit, hl'⟩ := eakData_rx env now i f hc
      · exact .of_rx (hsame.trans hrx)
      · exact ((RxGrows.of_rx (hcrx.trans hrx)).trans (acceptData_grows hroom)).trans (.of_rx hl')
      · exact ((RxGrows.of_rx hrx).trans (storeOoo_grows hfit hlen)).trans (.of_rx hl')
    · have := (eakData_resends env now i f hc).onlyAgain
      rwa [hlog] at this

theorem startTimewait_stored (l : Local) :
    (startTimewait env now i l).conn.stored = l.conn.stored := by
  unfold startTimewait
  split <;> rfl

theorem closingAck_stored {stay : TcpState} {acked : Local → Local} {l l' : Local} {r : HRes}
    (h : (acked l).conn.stored = l.conn.stored)
    (hc : some (closingAck f stay acked l) = some (l', r)) : l'.conn.stored = l.conn.stored := by
  unfold closingAck at hc
  split at hc
  · cases hc
    rfl
  · split at hc
    · cases hc
      exact h
    · cases hc
      rfl

/-- **A handler** keeps the buffered bytes in front and logs retransmissions at most. -/
theorem Handler.call_net {h : Handler} {l l' : Local} {r : HRes}
    (hlen : f.payload.length ≤ maxPayload) (hc : h.call env now i f l = some (l', r)) :
    RxGrows l.conn l'.conn ∧ onlyAgain i l.log l'.log := by
  cases h with
  | estabAck => exact tcpEstabAckHandler_net hlen hc
  | synrcvdAck =>
      simp only [Handler.call, tcpSynrcvdAckHandler] at hc
      split at hc
      · cases hc
        exact ⟨.of_stored rfl, .of_eq rfl⟩
      · cases hc
        exact ⟨.of_stored rfl, .of_eq rfl⟩
  | connClose | drop =>
      refine ⟨?_, .of_eq (Handler.call_keeps hc (by decide) (by decide)).2⟩
      cases hc
      exact .of_stored rfl
  | estabFin =>
      refine ⟨?_, .of_eq (Handler.call_keeps hc (by decide) (by decide)).2⟩
      cases hc
      dsimp only
      split
      · exact .of_stored rfl
      · split
        next hin =>
          intro hb
          exact ⟨⟨hb.count, hb.size, Nat.le_trans hin.2 (Nat.le_add_right _ _)⟩,
            slice_prefix_of_keep (Nat.le_add_right _ _) fun k hk => memWrite_of_lt _ hk⟩
        next => exact .of_stored rfl
  | lastackAck | finwait1Ack =>
      refine ⟨?_, .of_eq (Handler.call_keeps hc (by decide) (by decide)).2⟩
      exact .of_stored (closingAck_stored (l := l) rfl hc)
  | closingAck =>
      refine ⟨?_, .of_eq (Handler.call_keeps hc (by decide) (by decide)).2⟩
      exact .of_stored (closingAck_stored (startTimewait_stored l) hc)
  | finwait1Fin =>
      refine ⟨?_, .of_eq (Handler.call_keeps hc (by decide) (by decide)).2⟩
      simp only [Handler.call, tcpFinwait1FinHandler] at hc
      split at hc
      · cases hc
        exact .of_stored rfl
      · cases hc
        exact .of_stored rfl
  | finwait2Fin | timewaitFin =>
      refine ⟨?_, .of_eq (Handler.call_keeps hc (by decide) (by decide)).2⟩
      cases hc
      exact .of_stored (startTimewait_stored _)

end

/-! ## One step -/

/-- The connection in slot `i` stays the one it was. -/
structure NetKeeps (i : Slot) (t t' : Tcp) (e : Event) : Prop where
  log : onlyAgain i t.log t'.log
  bytes : RxGrows (t.conn i) (t'.conn i)
  synRcvd : (t'.conn i).state = .synRcvd → (t.conn i).state = .synRcvd
  established : (t'.conn i).state = .established → (t.conn i).state = .established ∨
    ((t.conn i).state = .synRcvd ∧ ∃ f, e.call = .rx f)

/-- A SYN puts a new connection into slot `i`. -/
structure NetOpens (i : Slot) (t t' : Tcp) (e : Event) : Prop where
  call : ∃ f, e.call = .rx f
  before : (t.conn i).state = .closed ∨ (t.conn i).state = .synRcvd
  after : (t'.conn i).state = .synRcvd
  empty : (t'.conn i).rxlen = 0 ∧ (t'.conn i).oooSlots = []
  log : ∃ syn synAck os, t'.log = os ++ .opened i syn synAck :: t.log ∧ ∀ o ∈ os, o.slot ≠ i

theorem NetKeeps.of_same {i : Slot} {t t' : Tcp} {e : Event} (hc : t'.conn i = t.conn i)
    (hlog : logGrowsBeside i t.log t'.log) : NetKeeps i t t' e where
  log := .of_beside hlog
  bytes := .of_stored (by rw [hc])
  synRcvd := by rw [hc]; exact id
  established := by rw [hc]; exact .inl

theorem recv_state {env : Env} {now : Tick} {i : Slot} {f : Frame} {s next : TcpState}
    {evt : TcpEvt} {h : Handler} {l l₁ : Local} {r : HRes}
    (htab : tcpFsaTable s evt = some (next, h))
    (hcall : h.call env now i f (l.withState next) = some (l₁, r)) :
    ((settle now s l₁ r).conn.state = .synRcvd → s = .synRcvd) ∧
      ((settle now s l₁ r).conn.state = .established → s = .established ∨ s = .synRcvd) := by
  have hst : (settle now s l₁ r).conn.state = s ∨ (settle now s l₁ r).conn.state = next ∨
      h.altState = some (settle now s l₁ r).conn.state := by
    obtain h₁ | h₁ := settle_state now s l₁ r
    · exact .inl h₁
    · obtain h₂ | h₂ := Handler.call_state hcall
      · exact .inr (.inl (by rw [h₁, h₂]; rfl))
      · exact .inr (.inr (by rw [h₁, h₂]))
  generalize (settle now s l₁ r).conn.state = u at hst ⊢
  cases s <;> cases evt <;> simp only [tcpFsaTable, Option.some.injEq, Prod.mk.injEq,
    reduceCtorEq] at htab <;> obtain ⟨rfl, rfl⟩ := htab <;>
    simp only [Handler.altState, Option.some.injEq, reduceCtorEq, or_false] at hst <;>
    constructor <;> rintro rfl <;> simp_all

theorem tcpRetransmitCb_net (env : Env) (now : Tick) (i : Slot) (l : Local) :
    (tcpRetransmitCb env now i l).conn.stored = l.conn.stored ∧
      onlyAgain i l.log (tcpRetransmitCb env now i l).log ∧
      ((tcpRetransmitCb env now i l).conn.state = l.conn.state ∨
        (tcpRetransmitCb env now i l).conn.state = .closed) := by
  unfold tcpRetransmitCb
  split
  · exact ⟨rfl, .of_eq rfl, .inl rfl⟩
  split
  · exact ⟨rfl, .of_eq rfl, .inr rfl⟩
  dsimp only
  split
  · split
    · exact ⟨rfl, .of_eq rfl, .inl rfl⟩
    · refine ⟨?_, .of_cons (tcpRtxArm_log ..) rfl, .inl (by rw [tcpRtxArm_state]; rfl)⟩
      rw [tcpRtxArm]
      split <;> rfl
  · exact ⟨rfl, .of_eq rfl, .inl rfl⟩

theorem tcpPersistCb_net (env : Env) (now : Tick) (i : Slot) (l : Local) :
    (tcpPersistCb env now i l).conn.stored = l.conn.stored ∧
      onlyAgain i l.log (tcpPersistCb env now i l).log ∧
      (tcpPersistCb env now i l).conn.state = l.conn.state := by
  unfold tcpPersistCb
  split
  · rw [tcpPersistArm_conn]
    exact ⟨rfl, .of_cons (tcpPersistArm_log ..) rfl, rfl⟩
  · exact ⟨rfl, .of_eq rfl, rfl⟩

theorem openSlot_fresh (env : Env) (now : Tick) (f : Frame) (lport : BitVec 16) (j : Slot)
    (l : Local) : (openSlot env now f lport j l).conn.state = .synRcvd ∧
      (openSlot env now f lport j l).conn.rxlen = 0 ∧
      (openSlot env now f lport j l).conn.oooSlots = [] := by
  refine ⟨?_, ?_, ?_⟩ <;> simp only [openSlot, tcpRtxSave, tcpRtxArm] <;> split <;> rfl

/-- **What a call from the network or the clock does to slot `i`.** -/
theorem net_step {env : Env} {t t' : Tcp} {e : Event} (h : step env t e = some t')
    (hnet : e.call.net = true) (hlen : ∀ f, e.call = .rx f → f.payload.length ≤ maxPayload)
    (i : Slot) : NetKeeps i t t' e ∨ NetOpens i t t' e := by
  obtain ⟨hc, hlog⟩ | ⟨l, l', hl, hlog, hact, hc, hlog'⟩ := step_slot h i
  · exact .inl (.of_same hc hlog)
  -- an act that keeps the connection, from what it does to record and log
  have keeps : RxGrows l.conn l'.conn → onlyAgain i l.log l'.log →
      (l'.conn.state = .synRcvd → l.conn.state = .synRcvd) →
      (l'.conn.state = .established → l.conn.state = .established ∨
        (l.conn.state = .synRcvd ∧ ∃ f, e.call = .rx f)) → NetKeeps i t t' e := by
    intro h₁ h₂ h₃ h₄
    rw [hl] at h₁ h₃ h₄
    rw [hlog] at h₂
    exact ⟨h₂.trans (.of_beside hlog'), by rw [hc]; exact h₁, by rw [hc]; exact h₃,
      by rw [hc]; exact h₄⟩
  cases hact with
  | @recv f evt next hd l₁ r hrx hmatch hcls hrst htab hcall =>
      obtain ⟨hgrow, hagain⟩ := Handler.call_net (hlen f hrx) hcall
      obtain ⟨hsyn, hest⟩ := recv_state htab hcall
      have hgrow' : RxGrows l.conn (settle e.now (t.conn i).state l₁ r).conn := by
        have hbefore : RxGrows l.conn (l.withState next).conn := .of_stored rfl
        refine (hbefore.trans hgrow).trans ?_
        cases r <;> exact .of_stored rfl
      refine .inl (keeps hgrow' ?_ ?_ ?_)
      · cases r <;> exact hagain
      · rw [hl]
        exact hsyn
      · rw [hl]
        exact fun h => (hest h).imp_right fun hs => ⟨hs, f, hrx⟩
  | @opened f listener l₀ hrx hmatch hlisten hcls halloc =>
      obtain ⟨hst, hempty⟩ := openSlot_fresh env e.now f (t.conn listener).lport i l₀
      refine .inr ⟨⟨f, hrx⟩, ?_, by rw [hc]; exact hst, by rw [hc]; exact hempty, ?_⟩
      · obtain ⟨_, h₁⟩ | ⟨_, h₁⟩ := allocSlot_some halloc
        · exact .inl h₁
        · exact .inr h₁
      · obtain ⟨os, hos, hne⟩ := hlog'
        rw [openSlot_log, allocSlot_log halloc] at hos
        exact ⟨f, _, os, hos, hne⟩
  | touched => exact .inl (keeps (.of_stored rfl) (.of_eq rfl) id .inl)
  | tornDown _ =>
      exact .inl (keeps (.of_stored rfl) (.of_eq rfl) (fun h => by cases h) (fun h => by cases h))
  | retransmit _ _ =>
      obtain ⟨h₁, h₂, h₃⟩ := tcpRetransmitCb_net env e.now i l
      refine .inl (keeps (.of_stored h₁) h₂ ?_ ?_)
      · intro h
        obtain h₃ | h₃ := h₃ <;> rw [h₃] at h
        · exact h
        · cases h
      · intro h
        obtain h₃ | h₃ := h₃ <;> rw [h₃] at h
        · exact .inl h
        · cases h
  | timewait _ _ =>
      exact .inl (keeps (.of_stored rfl) (.of_eq rfl) (fun h => by cases h) (fun h => by cases h))
  | persist _ _ =>
      obtain ⟨h₁, h₂, h₃⟩ := tcpPersistCb_net env e.now i l
      refine .inl (keeps (.of_stored h₁) h₂ ?_ ?_)
      · rw [h₃]
        exact id
      · rw [h₃]
        exact .inl
  | sent hcall | closed hcall | consumed hcall | flushed hcall | listening hcall _ =>
      rw [hcall] at hnet
      cases hnet

end WsPi5

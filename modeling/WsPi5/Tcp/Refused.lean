/-
# `WsPi5.Tcp.Refused` — a segment answered with RST changes nothing

`tcp_handle` writes the next state before it calls the handler and takes it back when the handler
returns -1.  What else a handler may have done by then is the question of this module, for the
whole table of states and events.

    ways into .Ltcp_no_conn                        constructor of `Refused`
    no record matches, none listens                noRecord
    the flags are no event                         noEvent
    the table has no handler for state and event   noHandler
    the handler returned -1                        failed
    tcp_listen_syn_handler found no slot           full

The two directions: a refused segment goes to `.Ltcp_no_conn` with the table as it was
(`Refused.noConn`), and only a refused segment is answered with a RST (`rst_refused`), since
every other reply carries the ACK or the SYN-ACK flags.
-/
import WsPi5.Tcp.SendBuf

namespace WsPi5

open Lib

section
variable {env : Env} {now : Tick} {i : Slot} {f g : Frame} {t t' : Tcp}

/-- The ways into `.Ltcp_no_conn`. -/
inductive Refused (env : Env) (now : Tick) (f : Frame) (t : Tcp) : Prop where
  | noRecord (hexact : t.exactMatch f = none) (hlisten : t.listenMatch f = none)
  | noEvent {i : Slot}
      (hmatch : t.exactMatch f = some i ∨ (t.exactMatch f = none ∧ t.listenMatch f = some i))
      (hcls : tcpClassifyEvent f = none)
  | noHandler {i : Slot} {evt : TcpEvt} (hmatch : t.exactMatch f = some i)
      (hcls : tcpClassifyEvent f = some evt)
      (hrst : evt = .rst → rstCheck (t.conn i) f = .accept)
      (htab : tcpFsaTable (t.conn i).state evt = none)
  | failed {i : Slot} {evt : TcpEvt} {next : TcpState} {h : Handler} {l : Local}
      (hmatch : t.exactMatch f = some i) (hcls : tcpClassifyEvent f = some evt)
      (hrst : evt = .rst → rstCheck (t.conn i) f = .accept)
      (htab : tcpFsaTable (t.conn i).state evt = some (next, h))
      (hcall : h.call env now i f ((t.at i).withState next) = some (l, .rst))
  | noListenHandler {i : Slot} {evt : TcpEvt} (hexact : t.exactMatch f = none)
      (hlisten : t.listenMatch f = some i) (hcls : tcpClassifyEvent f = some evt)
      (hne : evt ≠ .rst ∧ evt ≠ .syn)
  | full {i : Slot} (hexact : t.exactMatch f = none) (hlisten : t.listenMatch f = some i)
      (hcls : tcpClassifyEvent f = some .syn) (hslot : tcpListenSynHandler env now f i t = none)

/-! ## What a failing handler leaves behind -/

theorem closingAck_failed {stay : TcpState} {acked : Local → Local} {l l' : Local}
    (h : closingAck f stay acked l = (l', .rst)) : l' = l.withState stay := by
  unfold closingAck at h
  split at h
  · cases h
    rfl
  · split at h
    · cases h
    · cases h

theorem eakPureAck_quiet {l l' : Local} {r : HRes}
    (h : (eakPureAck env now i f l).map (·, HRes.quiet) = some (l', r)) : r = .quiet := by
  obtain ⟨m, _, hm⟩ := Option.map_eq_some_iff.mp h
  cases hm
  rfl

theorem tcpEstabAckHandler_answer {l l' : Local} {r : HRes}
    (h : tcpEstabAckHandler env now i f l = some (l', r)) :
    r = .quiet ∨ ∃ c : Conn, r = .reply (c.ackReply now f) := by
  unfold tcpEstabAckHandler at h
  dsimp only at h
  split at h
  · cases h
    exact .inr ⟨_, rfl⟩
  · unfold eakData at h
    dsimp only at h
    split at h
    · exact .inl (eakPureAck_quiet h)
    · split at h
      · split at h
        · cases h
          exact .inr ⟨_, rfl⟩
        · exact .inl (eakPureAck_quiet h)
      · split at h
        · cases h
          exact .inr ⟨_, rfl⟩
        · cases h
          exact .inr ⟨_, rfl⟩

/-- What a handler can answer: nothing, an ACK, or -1 with only the state written. -/
inductive Answer (now : Tick) (f : Frame) (l l' : Local) : HRes → Prop where
  | quiet : Answer now f l l' .quiet
  | ack (c : Conn) : Answer now f l l' (.reply (c.ackReply now f))
  | failed (s : TcpState) (h : l' = l.withState s) : Answer now f l l' .rst

theorem closingAck_answer {stay : TcpState} {acked : Local → Local} {l l' : Local} {r : HRes}
    (h : closingAck f stay acked l = (l', r)) : Answer now f l l' r := by
  cases r with
  | quiet => exact .quiet
  | rst => exact .failed stay (closingAck_failed h)
  | reply g =>
      unfold closingAck at h
      split at h
      · cases h
      · split at h <;> cases h

/-- **Every handler, for every state and event.** -/
theorem Handler.call_answer {hd : Handler} {l l' : Local} {r : HRes}
    (h : hd.call env now i f l = some (l', r)) : Answer now f l l' r := by
  cases hd with
  | connClose | drop =>
      cases h
      exact .quiet
  | synrcvdAck =>
      simp only [Handler.call, tcpSynrcvdAckHandler] at h
      split at h
      · cases h
        exact .quiet
      · cases h
        exact .failed .synRcvd rfl
  | estabAck =>
      obtain rfl | ⟨c, rfl⟩ := tcpEstabAckHandler_answer h
      · exact .quiet
      · exact .ack c
  | estabFin | finwait2Fin | timewaitFin =>
      cases h
      exact .ack _
  | lastackAck | finwait1Ack | closingAck => exact closingAck_answer (Option.some.inj h)
  | finwait1Fin =>
      simp only [Handler.call, tcpFinwait1FinHandler] at h
      split at h
      · cases h
        exact .ack _
      · cases h
        exact .ack _

theorem put_rollback (t : Tcp) (i : Slot) (s s' : TcpState) :
    t.put i ((((t.at i).withState s).withState s').withState (t.conn i).state) = t := by
  have hconn : ((((t.at i).withState s).withState s').withState (t.conn i).state).conn
      = t.conn i := rfl
  unfold Tcp.put
  rw [hconn, Function.update_eq_self]
  rfl

/-! ## A refused segment -/

theorem dispatch_failed {evt : TcpEvt} {next : TcpState} {hd : Handler} {l : Local}
    (htab : tcpFsaTable (t.conn i).state evt = some (next, hd))
    (hcall : hd.call env now i f ((t.at i).withState next) = some (l, .rst)) :
    t.dispatch env now i evt f = some (t.noConn env now f) := by
  cases Handler.call_answer hcall with
  | failed s hl =>
      subst hl
      simp only [Tcp.dispatch, htab, hcall, Option.map_some, put_rollback]

theorem handleConn_eq_dispatch {evt : TcpEvt} (hcls : tcpClassifyEvent f = some evt)
    (hrst : evt = .rst → rstCheck (t.conn i) f = .accept) :
    t.handleConn env now i f = t.dispatch env now i evt f := by
  unfold Tcp.handleConn
  rw [hcls]
  cases evt with
  | rst => simp only [hrst rfl]
  | syn | synack | fin | ack => rfl

/-- **A refused segment goes to `.Ltcp_no_conn` with the table as it was.** -/
theorem Refused.noConn (h : Refused env now f t) :
    tcpHandle env now f t = some (t.noConn env now f) := by
  unfold tcpHandle
  cases h with
  | noRecord hexact hlisten => simp only [hexact, hlisten]
  | noEvent hmatch hcls =>
      obtain hexact | ⟨hexact, hlisten⟩ := hmatch
      · simp only [hexact, Tcp.handleConn, hcls]
      · simp only [hexact, hlisten, Tcp.handleListen, hcls]
  | noHandler hmatch hcls hrst htab =>
      simp only [hmatch, handleConn_eq_dispatch hcls hrst, Tcp.dispatch, htab]
  | failed hmatch hcls hrst htab hcall =>
      simp only [hmatch, handleConn_eq_dispatch hcls hrst, dispatch_failed htab hcall]
  | @noListenHandler i evt hexact hlisten hcls hne =>
      simp only [hexact, hlisten, Tcp.handleListen, hcls]
      cases evt with
      | rst => exact absurd rfl hne.1
      | syn => exact absurd rfl hne.2
      | synack | fin | ack => rfl
  | full hexact hlisten hcls hslot =>
      simp only [hexact, hlisten, Tcp.handleListen, hcls, hslot]

/-- Connection records with their buffers and saved frames, timers, reaper and log are the same:
only the RST token bucket may differ. -/
def OnlyBucket (t t' : Tcp) : Prop :=
  t' = { t with rstTokens := t'.rstTokens, rstLastTick := t'.rstLastTick }

theorem tcpRstAllow_onlyBucket (env : Env) (now : Tick) (t : Tcp) :
    OnlyBucket t (tcpRstAllow env now t).1 := by
  unfold tcpRstAllow
  dsimp only
  split <;> split <;> rfl

theorem noConn_onlyBucket (env : Env) (now : Tick) (f : Frame) (t : Tcp) :
    OnlyBucket t (t.noConn env now f).1 := by
  have hallow := tcpRstAllow_onlyBucket env now t
  unfold Tcp.noConn
  split
  · rfl
  · split
    · rename_i t₁ heq
      rw [heq] at hallow
      exact hallow
    · rename_i t₁ heq
      rw [heq] at hallow
      exact hallow

/-- Refused, with a RST or with the bucket empty: the table is what it was. -/
theorem Refused.onlyBucket {r : Option Frame} (h : Refused env now f t)
    (hc : tcpHandle env now f t = some (t', r)) : OnlyBucket t t' := by
  rw [h.noConn] at hc
  have hsame := noConn_onlyBucket env now f t
  rw [show t.noConn env now f = (t', r) from Option.some.inj hc] at hsame
  exact hsame

/-! ## Only a refused segment is answered with a RST -/

theorem ackReply_no_rst (c : Conn) : (c.ackReply now f).has tcpRst = false := by
  have hflags : (c.ackReply now f).flags = tcpAckFlag := rfl
  rw [Frame.has, hflags]
  rfl

theorem synAckFrame_no_rst (lport : BitVec 16) (isn : W) (c : Conn) :
    (synAckFrame env now f lport isn c).has tcpRst = false := by
  have hflags : (synAckFrame env now f lport isn c).flags = tcpSynAck := rfl
  rw [Frame.has, hflags]
  rfl

theorem dispatch_rst {evt : TcpEvt} (hmatch : t.exactMatch f = some i)
    (hcls : tcpClassifyEvent f = some evt)
    (hrst : evt = .rst → rstCheck (t.conn i) f = .accept)
    (h : t.dispatch env now i evt f = some (t', some g)) (hg : g.has tcpRst = true) :
    Refused env now f t := by
  unfold Tcp.dispatch at h
  split at h
  · rename_i htab
    exact .noHandler hmatch hcls hrst htab
  · rename_i next hd htab
    obtain ⟨⟨l, r⟩, hcall, hres⟩ := Option.map_eq_some_iff.mp h
    cases Handler.call_answer hcall with
    | quiet => cases hres
    | ack c =>
        cases hres
        rw [ackReply_no_rst] at hg
        cases hg
    | failed s hl => exact .failed hmatch hcls hrst htab hcall

theorem handleConn_rst (hmatch : t.exactMatch f = some i)
    (h : t.handleConn env now i f = some (t', some g)) (hg : g.has tcpRst = true) :
    Refused env now f t := by
  unfold Tcp.handleConn at h
  split at h
  · rename_i hcls
    exact .noEvent (.inl hmatch) hcls
  · rename_i hcls
    split at h
    · rename_i hacc
      exact dispatch_rst hmatch hcls (fun _ => hacc) h hg
    · cases h
      rw [ackReply_no_rst] at hg
      cases hg
    · cases h
  · rename_i evt hne hcls
    exact dispatch_rst hmatch hcls (fun heq => absurd heq hne) h hg

theorem handleListen_rst (hexact : t.exactMatch f = none) (hlisten : t.listenMatch f = some i)
    (h : t.handleListen env now i f = (t', some g)) (hg : g.has tcpRst = true) :
    Refused env now f t := by
  unfold Tcp.handleListen at h
  split at h
  · cases h
  · rename_i hcls
    split at h
    · rename_i t₁ sa hopen
      unfold tcpListenSynHandler at hopen
      split at hopen
      · cases hopen
      · cases hopen
        cases h
        rw [synAckFrame_no_rst] at hg
        cases hg
    · rename_i hnone
      exact .full hexact hlisten hcls hnone
  · rename_i hne hne'
    cases hcls : tcpClassifyEvent f with
    | none => exact .noEvent (.inr ⟨hexact, hlisten⟩) hcls
    | some evt =>
        refine .noListenHandler hexact hlisten hcls ⟨?_, ?_⟩
        · rintro rfl
          exact hne hcls
        · rintro rfl
          exact hne' hcls

/-- **Whatever is answered with a RST was refused.** -/
theorem rst_refused (h : tcpHandle env now f t = some (t', some g)) (hg : g.has tcpRst = true) :
    Refused env now f t := by
  unfold tcpHandle at h
  split at h
  · rename_i i hmatch
    exact handleConn_rst hmatch h hg
  · rename_i hexact
    split at h
    · rename_i i hlisten
      exact handleListen_rst hexact hlisten (Option.some.inj h) hg
    · rename_i hlisten
      exact .noRecord hexact hlisten

/-- **RST answers.**  For every connection table and every segment that `tcp_handle` answers with
a RST: the segment was refused in one of the ways above, and every record, buffer, saved frame
and timer is what it was before the call. -/
theorem rst_answer_onlyBucket (h : tcpHandle env now f t = some (t', some g))
    (hg : g.has tcpRst = true) : Refused env now f t ∧ OnlyBucket t t' :=
  ⟨rst_refused h hg, (rst_refused h hg).onlyBucket h⟩

end

/-- The peer of a half-open connection acknowledges a byte that was never sent: the handler
fails, and the table still has the connection in SYN_RCVD with its timer. -/
theorem rst_answer_bad_ack : ∃ t t' : Tcp, ∃ g : Frame,
    Run (step demoEnv) anyEvent (tcpInit 16) t ∧ (t.conn 1).state = .synRcvd ∧
      tcpHandle demoEnv 1 (demoAck 5) t = some (t', some g) ∧ g.has tcpRst = true ∧
      Refused demoEnv 1 (demoAck 5) t ∧ OnlyBucket t t' := by
  obtain ⟨t, hrun, hst, t', g, hcall, hg⟩ := exists_run (step demoEnv) anyEvent (tcpInit 16)
    (Q := fun t => (t.conn 1).state = .synRcvd ∧ ∃ t' g,
      tcpHandle demoEnv 1 (demoAck 5) t = some (t', some g) ∧ g.has tcpRst = true)
    [⟨1, .listen 80⟩, ⟨1, .rx demoSyn⟩] (by decide +kernel)
    ⟨_, rfl, by decide +kernel, _, _, rfl, by decide +kernel⟩
  exact ⟨t, t', g, hrun, hst, hcall, hg, rst_answer_onlyBucket hcall hg⟩

end WsPi5

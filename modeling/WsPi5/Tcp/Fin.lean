/-
# `WsPi5.Tcp.Fin` — which FIN is accepted

A FIN is the last octet of the peer's stream.  It may move RCV_NXT and the state only where it
is the next octet: behind a payload that has just been accepted, or at RCV_NXT itself.
`tcp_estab_fin_handler` says so for a FIN behind data ("FIN is only valid at the end of in-order
data") and looks at the sequence number there, but not for a FIN without data; the two handlers
of FIN_WAIT look at neither sequence number nor data.

**Proved here** (`fin_ordered_iff`): when exactly a segment handled as a FIN obeys the rule.
-/
import WsPi5.Tcp.NetCalls

namespace WsPi5

open Lib

/-- If the segment moved RCV_NXT or the state, its payload was accepted (it is in the buffer),
and its FIN is the next octet behind what RCV_NXT reached by that. -/
def FinOrdered (c c' : Conn) (f : Frame) : Prop :=
  c'.rcvNxt ≠ c.rcvNxt ∨ c'.state ≠ c.state →
    c'.rxlen = c.rxlen + f.payload.length ∧
      f.seq + BitVec.ofNat 32 f.payload.length = c.rcvNxt + BitVec.ofNat 32 f.payload.length

/-- The states in which the peer's FIN is awaited. -/
def TcpState.awaitsFin : TcpState → Bool
  | .established | .finWait1 | .finWait2 => true
  | _ => false

/-- The FIN comes alone and stands at RCV_NXT; in ESTABLISHED it may also come with data. -/
def finInPlace (c : Conn) (f : Frame) : Prop :=
  (f.payload = [] → f.seq = c.rcvNxt) ∧ (c.state ≠ .established → f.payload = [])

/-! ## The record after the FIN -/

theorem recv_reply {env : Env} {now : Tick} {t t' : Tcp} {i : Slot} {f g : Frame} {evt : TcpEvt}
    {next : TcpState} {h : Handler} {l : Local} (hmatch : t.exactMatch f = some i)
    (hcls : tcpClassifyEvent f = some evt) (hevt : evt ≠ .rst)
    (htab : tcpFsaTable (t.conn i).state evt = some (next, h))
    (hcall : h.call env now i f ((t.at i).withState next) = some (l, .reply g))
    (hst : step env t ⟨now, .rx f⟩ = some t') : t'.conn i = (l.stamp now).conn := by
  have hconn : t.handleConn env now i f = t.dispatch env now i evt f := by
    unfold Tcp.handleConn
    rw [hcls]
    cases evt with
    | rst => exact absurd rfl hevt
    | _ => rfl
  simp only [step, tcpHandle, hmatch, hconn, Tcp.dispatch, htab, hcall, Option.map_some,
    Option.some.injEq] at hst
  rw [← hst]
  simp [Tcp.touch]

section
variable {env : Env} {now : Tick} {t t' : Tcp} {i : Slot} {f : Frame}

theorem finWait_record (hmatch : t.exactMatch f = some i) (hcls : tcpClassifyEvent f = some .fin)
    (hwait : (t.conn i).state = .finWait1 ∨ (t.conn i).state = .finWait2)
    (hst : step env t ⟨now, .rx f⟩ = some t') :
    (t'.conn i).rcvNxt = (t.conn i).rcvNxt + 1 ∧ (t'.conn i).rxlen = (t.conn i).rxlen := by
  rcases hwait with hw | hw
  · have htab : tcpFsaTable (t.conn i).state .fin = some (.closing, .finwait1Fin) := by rw [hw]; rfl
    have hcall : ∃ l g, Handler.finwait1Fin.call env now i f ((t.at i).withState .closing)
        = some (l, .reply g) ∧ l.conn.rcvNxt = (t.conn i).rcvNxt + 1 ∧
          l.conn.rxlen = (t.conn i).rxlen := by
      simp only [Handler.call, tcpFinwait1FinHandler]
      split <;> exact ⟨_, _, rfl, rfl, rfl⟩
    obtain ⟨l, g, hcall, hrcv, hrx⟩ := hcall
    rw [recv_reply hmatch hcls (by simp) htab hcall hst]
    exact ⟨hrcv, hrx⟩
  · have htab : tcpFsaTable (t.conn i).state .fin = some (.timeWait, .finwait2Fin) := by rw [hw]; rfl
    have hcall : ∃ l g, Handler.finwait2Fin.call env now i f ((t.at i).withState .timeWait)
        = some (l, .reply g) ∧ l.conn.rcvNxt = (t.conn i).rcvNxt + 1 ∧
          l.conn.rxlen = (t.conn i).rxlen := by
      simp only [Handler.call, tcpFinwait2FinHandler, startTimewait]
      split <;> exact ⟨_, _, rfl, rfl, rfl⟩
    obtain ⟨l, g, hcall, hrcv, hrx⟩ := hcall
    rw [recv_reply hmatch hcls (by simp) htab hcall hst]
    exact ⟨hrcv, hrx⟩

/-- In ESTABLISHED: a FIN without data is taken as it comes, one with data only behind data that
was accepted. -/
theorem established_record (hmatch : t.exactMatch f = some i)
    (hcls : tcpClassifyEvent f = some .fin) (hest : (t.conn i).state = .established)
    (hst : step env t ⟨now, .rx f⟩ = some t') :
    (f.payload = [] → (t'.conn i).rcvNxt = (t.conn i).rcvNxt + 1 ∧
      (t'.conn i).rxlen = (t.conn i).rxlen) ∧
    (f.payload ≠ [] →
      (f.seq = (t.conn i).rcvNxt ∧ (t'.conn i).rxlen = (t.conn i).rxlen + f.payload.length) ∨
      ((t'.conn i).rcvNxt = (t.conn i).rcvNxt ∧ (t'.conn i).state = .established)) := by
  have htab : tcpFsaTable (t.conn i).state .fin = some (.closeWait, .estabFin) := by rw [hest]; rfl
  have hrec := recv_reply (l := (tcpEstabFinHandler now f ((t.at i).withState .closeWait)).1)
    hmatch hcls (by simp) htab rfl hst
  rw [hrec]
  unfold tcpEstabFinHandler
  refine ⟨fun hnil => ?_, fun hdata => ?_⟩
  · dsimp only [Local.stamp]
    rw [if_pos hnil]
    exact ⟨rfl, rfl⟩
  · dsimp only [Local.stamp]
    rw [if_neg hdata]
    split
    next hin => exact .inl ⟨hin.1, rfl⟩
    next => exact .inr ⟨rfl, rfl⟩

/-- **When a FIN is accepted in order.**  For every connection that awaits the peer's FIN and
every segment handled as a FIN. -/
theorem fin_ordered_iff (hmatch : t.exactMatch f = some i)
    (hcls : tcpClassifyEvent f = some .fin) (hawait : (t.conn i).state.awaitsFin = true)
    (hst : step env t ⟨now, .rx f⟩ = some t') :
    FinOrdered (t.conn i) (t'.conn i) f ↔ finInPlace (t.conn i) f := by
  have hne : (t.conn i).rcvNxt + 1 ≠ (t.conn i).rcvNxt := by bv_omega
  by_cases hest : (t.conn i).state = .established
  · obtain ⟨halone, hdata⟩ := established_record hmatch hcls hest hst
    refine ⟨fun hord => ⟨fun hnil => ?_, fun hno => absurd hest hno⟩, fun hplace hmoved => ?_⟩
    · obtain ⟨hrcv, _⟩ := halone hnil
      have := (hord (.inl (by rw [hrcv]; exact hne))).2
      simpa [hnil] using this
    · by_cases hnil : f.payload = []
      · exact ⟨by simpa [hnil] using (halone hnil).2, by rw [hplace.1 hnil]⟩
      · rcases hdata hnil with ⟨hseq, hrx⟩ | ⟨hrcv, hstate⟩
        · exact ⟨hrx, by rw [hseq]⟩
        · rcases hmoved with h | h
          · exact absurd hrcv h
          · exact absurd (hstate.trans hest.symm) h
  · have hwait : (t.conn i).state = .finWait1 ∨ (t.conn i).state = .finWait2 := by
      revert hawait hest
      cases (t.conn i).state <;> simp [TcpState.awaitsFin]
    obtain ⟨hrcv, hrx⟩ := finWait_record hmatch hcls hwait hst
    refine ⟨fun hord => ?_, fun hplace _ => ?_⟩
    · obtain ⟨hlen, hseq⟩ := hord (.inl (by rw [hrcv]; exact hne))
      have hnil : f.payload = [] := List.eq_nil_of_length_eq_zero (by omega)
      exact ⟨fun _ => by simpa [hnil] using hseq, fun _ => hnil⟩
    · have hnil := hplace.2 hest
      exact ⟨by simpa [hnil] using hrx, by rw [hplace.1 hnil]⟩

end

/-- The peer's FIN at offset `off` of its stream. -/
def demoFin (off : W) : Frame := { demoAck 0 with seq := 101 + off, flags := tcpFinAck }

/-- A FIN at RCV_NXT is accepted. -/
theorem fin_ordered_demo : ∃ t t' : Tcp, Run (step demoEnv) anyEvent (tcpInit 16) t ∧
    step demoEnv t ⟨1, .rx (demoFin 0)⟩ = some t' ∧ (t'.conn 1).state = .closeWait ∧
      FinOrdered (t.conn 1) (t'.conn 1) (demoFin 0) := by
  obtain ⟨t, hrun, hmatch, hst, hrcv, t', ht', hclosed⟩ := exists_run (step demoEnv) anyEvent (tcpInit 16)
    (Q := fun t => t.exactMatch (demoFin 0) = some 1 ∧ (t.conn 1).state = .established ∧
      (t.conn 1).rcvNxt = 101 ∧ ∃ t' ∈ step demoEnv t ⟨1, .rx (demoFin 0)⟩,
        (t'.conn 1).state = .closeWait)
    demoOpen (by decide +kernel) (by decide +kernel)
  refine ⟨t, t', hrun, ht', hclosed, ?_⟩
  refine (fin_ordered_iff hmatch (by decide +kernel) (by rw [hst]; rfl) ht').mpr ⟨fun _ => ?_, ?_⟩
  · rw [hrcv]
    rfl
  · exact fun hno => absurd hst hno

/-- A FIN beyond a gap of four hundred octets is accepted too. -/
theorem fin_beyond_gap : ∃ t t' : Tcp, Run (step demoEnv) anyEvent (tcpInit 16) t ∧
    (t.conn 1).state = .established ∧ step demoEnv t ⟨1, .rx (demoFin 400)⟩ = some t' ∧
      ¬ FinOrdered (t.conn 1) (t'.conn 1) (demoFin 400) := by
  obtain ⟨t, hrun, hst, hrcv, t', ht', hclosed⟩ := exists_run (step demoEnv) anyEvent (tcpInit 16)
    (Q := fun t => (t.conn 1).state = .established ∧
      (t.conn 1).rcvNxt = 101 ∧ ∃ t' ∈ step demoEnv t ⟨1, .rx (demoFin 400)⟩,
        (t'.conn 1).state = .closeWait)
    demoOpen (by decide +kernel) (by decide +kernel)
  refine ⟨t, t', hrun, hst, ht', fun hord => ?_⟩
  have := (hord (.inr (by rw [hst, hclosed]; simp))).2
  rw [hrcv] at this
  exact absurd this (by decide)

end WsPi5

/-
# `WsPi5.Tcp.Paws` — what an old duplicate leaves behind

`.Leak_paws_drop` is to "send ACK … but do not process segment".  The test stands behind the window
update and the whole of the ACK processing:

    eakWindow    SND_WND, PERSIST_SHIFT, the persist timer
    eakAck       SND_UNA, the ring, RTT, CWND, the retransmission timer
    PAWS         the segment is older than TS_RECENT: reply
    eakData      receive buffer, RCV_NXT, stored segments, TS_RECENT

so that a rejected segment reaches the first two and not the fourth.

**Proved here** (`paws_effect_free_iff`): a segment that PAWS rejects leaves the connection as it
was exactly where it has nothing to tell the first two: its ACK does not advance `SND_UNA`, its
window is the one that is stored, and probing is on exactly if that window is zero.
-/
import WsPi5.Tcp.OooSlots

namespace WsPi5

open Lib

/-- An ESTABLISHED connection with timestamps, and a segment older than `TS_RECENT`. -/
structure OldSegment (f : Frame) (c : Conn) : Prop where
  state : c.state = .established
  enabled : c.tsEnabled = true
  older : ∃ v, tcpParseTsopt f.opts = some v ∧ (v - c.tsRecent).toInt < 0

/-- What a rejected segment must not change: all that the sender side, the receiver side and the
timers of a connection keep. -/
structure Untouched (l l' : Local) : Prop where
  sndUna : l'.conn.sndUna = l.conn.sndUna
  sndWnd : l'.conn.sndWnd = l.conn.sndWnd
  sndBuf : (l'.conn.sndBufHead, l'.conn.sndBufTail, l'.conn.sndBufUsed)
    = (l.conn.sndBufHead, l.conn.sndBufTail, l.conn.sndBufUsed) ∧ l'.conn.sndbuf = l.conn.sndbuf
  cong : (l'.conn.cwnd, l'.conn.ssthresh) = (l.conn.cwnd, l.conn.ssthresh)
  rtt : (l'.conn.srtt, l'.conn.rttvar, l'.conn.rto, l'.conn.sendTick)
    = (l.conn.srtt, l.conn.rttvar, l.conn.rto, l.conn.sendTick)
  persist : l'.conn.persistShift = l.conn.persistShift
  timers : l'.conn.timerSlot = l.conn.timerSlot ∧ l'.pool = l.pool
  rxbuf : l'.conn.rxlen = l.conn.rxlen ∧ l'.conn.rxbuf = l.conn.rxbuf
  rcvNxt : l'.conn.rcvNxt = l.conn.rcvNxt
  ooo : l'.conn.oooSlots = l.conn.oooSlots
  tsRecent : l'.conn.tsRecent = l.conn.tsRecent

theorem Untouched.refl (l : Local) : Untouched l l :=
  ⟨rfl, rfl, ⟨rfl, rfl⟩, rfl, rfl, rfl, ⟨rfl, rfl⟩, ⟨rfl, rfl⟩, rfl, rfl, rfl⟩

/-- The handler answers with an ACK of what was received before, and leaves the rest. -/
def pawsEffectFree (env : Env) (now : Tick) (i : Slot) (f : Frame) (l : Local) : Prop :=
  ∃ l', tcpEstabAckHandler env now i f l = some (l', .reply (l.conn.ackReply now f)) ∧
    Untouched l l'

/-- The segment has nothing new for the sender side. -/
structure NothingNew (f : Frame) (c : Conn) : Prop where
  ack : ackAdvances f c = false
  window : c.sndWnd = scaledWindow f c
  persist : c.persistShift = 0 ↔ c.sndWnd ≠ 0

section
variable {env : Env} {now : Tick} {i : Slot} {f : Frame} {l : Local}

/-! ## In front of the test -/

theorem eakWindow_keeps (env : Env) (now : Tick) (i : Slot) (f : Frame) (l : Local) :
    ∃ w p, (eakWindow env now i f l).conn = { l.conn with sndWnd := w, persistShift := p } := by
  unfold eakWindow tcpPersistArm
  dsimp only
  split
  · split
    · split <;> exact ⟨_, _, rfl⟩
    · exact ⟨_, _, rfl⟩
  · exact ⟨_, _, rfl⟩

theorem eakWindow_fields (env : Env) (now : Tick) (i : Slot) (f : Frame) (l : Local) :
    (eakWindow env now i f l).conn.sndWnd = scaledWindow f l.conn ∧
    (eakWindow env now i f l).conn.persistShift =
      if scaledWindow f l.conn = 0 then
        (if l.conn.persistShift = 0 then 1 else l.conn.persistShift)
      else 0 := by
  unfold eakWindow tcpPersistArm
  dsimp only
  split
  · rename_i hw
    split
    · split <;> exact ⟨hw.symm, rfl⟩
    · exact ⟨hw.symm, rfl⟩
  · exact ⟨rfl, rfl⟩

theorem eakWindow_idle (h : NothingNew f l.conn) : eakWindow env now i f l = l := by
  obtain ⟨_, hw, hp⟩ := h
  unfold eakWindow
  dsimp only
  rw [← hw]
  split
  · rename_i hz
    have hne : l.conn.persistShift ≠ 0 := fun h0 => hp.mp h0 hz
    rw [if_neg hne, ← hz]
  · rename_i hz
    rw [← hp.mpr hz]

theorem eakAck_una (env : Env) (now : Tick) (f : Frame) (l : Local) :
    (eakAck env now f l).conn.sndUna = if ackAdvances f l.conn then f.ack else l.conn.sndUna := by
  unfold eakAck
  split
  · have hcwnd : ∀ c : Conn, (eakCwnd f c).sndUna = c.sndUna := by
      intro c
      unfold eakCwnd
      split <;> rfl
    have hrtt : ∀ c : Conn, (eakRtt env now c).sndUna = c.sndUna := by
      intro c
      unfold eakRtt tcpRttUpdate
      split
      · dsimp only
        split <;> rfl
      · rfl
    dsimp only
    split
    · show (eakCwnd f (eakRtt env now (eakAdvance f l.conn))).sndUna = _
      rw [hcwnd, hrtt]
      rfl
    · rw [hcwnd, hrtt]
      rfl
  · rfl

theorem eakAck_window (env : Env) (now : Tick) (f : Frame) (l : Local) :
    (eakAck env now f l).conn.sndWnd = l.conn.sndWnd ∧
    (eakAck env now f l).conn.persistShift = l.conn.persistShift := by
  have hcwnd : ∀ c : Conn, (eakCwnd f c).sndWnd = c.sndWnd ∧
      (eakCwnd f c).persistShift = c.persistShift := by
    intro c
    unfold eakCwnd
    split <;> exact ⟨rfl, rfl⟩
  have hrtt : ∀ c : Conn, (eakRtt env now c).sndWnd = c.sndWnd ∧
      (eakRtt env now c).persistShift = c.persistShift := by
    intro c
    unfold eakRtt tcpRttUpdate
    split
    · dsimp only
      split <;> exact ⟨rfl, rfl⟩
    · exact ⟨rfl, rfl⟩
  unfold eakAck
  split
  · have hboth := hcwnd (eakRtt env now (eakAdvance f l.conn))
    rw [(hrtt (eakAdvance f l.conn)).1, (hrtt (eakAdvance f l.conn)).2] at hboth
    dsimp only
    split <;> exact hboth
  · exact ⟨rfl, rfl⟩

/-! ## The test -/

theorem OldSegment.pawsFails {c : Conn} (h : OldSegment f c) : pawsFails f c = true := by
  obtain ⟨_, hen, v, hv, hold⟩ := h
  rw [WsPi5.pawsFails, segTs, if_pos hen, hv]
  show (v - c.tsRecent).msb = true
  rw [BitVec.msb_eq_toInt]
  exact decide_eq_true hold

theorem OldSegment.handler (h : OldSegment f l.conn) : tcpEstabAckHandler env now i f l =
    some (eakAck env now f (eakWindow env now i f l),
      .reply ((eakAck env now f (eakWindow env now i f l)).conn.ackReply now f)) := by
  unfold tcpEstabAckHandler
  dsimp only
  rw [if_pos (by rw [eakAck_paws]; exact h.pawsFails)]

/-- **PAWS.**  A segment older than `TS_RECENT` is answered and leaves the connection and the
timers as they were exactly where it has nothing new for the sender side; and then the whole
record is as it was. -/
theorem paws_effect_free_iff (h : OldSegment f l.conn) :
    (pawsEffectFree env now i f l ↔ NothingNew f l.conn) ∧
    (NothingNew f l.conn →
      tcpEstabAckHandler env now i f l = some (l, .reply (l.conn.ackReply now f))) := by
  have hquiet : NothingNew f l.conn →
      tcpEstabAckHandler env now i f l = some (l, .reply (l.conn.ackReply now f)) := by
    intro hn
    have hack : eakAck env now f l = l := by
      rw [eakAck, if_neg (by rw [hn.ack]; exact Bool.false_ne_true)]
    rw [h.handler, eakWindow_idle hn, hack]
  refine ⟨⟨?_, fun hn => ⟨l, hquiet hn, Untouched.refl l⟩⟩, hquiet⟩
  rintro ⟨l', hcall, hsame⟩
  rw [h.handler] at hcall
  obtain ⟨rfl, _⟩ := Prod.mk.inj (Option.some.inj hcall)
  have huna := hsame.sndUna
  have hwnd := hsame.sndWnd
  have hper := hsame.persist
  obtain ⟨w, p, hkeep⟩ := eakWindow_keeps env now i f l
  obtain ⟨hw, hp⟩ := eakWindow_fields env now i f l
  have hadv : ackAdvances f (eakWindow env now i f l).conn = ackAdvances f l.conn := by
    rw [hkeep]
    rfl
  rw [eakAck_una, hadv, show (eakWindow env now i f l).conn.sndUna = l.conn.sndUna by rw [hkeep]]
    at huna
  rw [(eakAck_window ..).1, hw] at hwnd
  rw [(eakAck_window ..).2, hp, hwnd] at hper
  refine ⟨?_, hwnd.symm, ?_⟩
  · cases hack : ackAdvances f l.conn with
    | false => rfl
    | true =>
        -- an ACK that advances is above the old SND_UNA
        rw [hack, if_pos rfl] at huna
        simp only [ackAdvances, Bool.and_eq_true, decide_eq_true_eq] at hack
        rw [huna] at hack
        exact absurd hack.1 (BitVec.lt_irrefl _)
  · split at hper
    · rename_i hz
      refine ⟨fun h0 => ?_, fun hne => absurd hz hne⟩
      rw [if_pos h0, h0] at hper
      cases hper
    · rename_i hnz
      exact ⟨fun _ => hnz, fun _ => hper.symm⟩

end

/-! ## Runs -/

/-- The timestamps option with this TSval. -/
def stamp (v : Byte) : List Byte := [1, 1, 8, 10, 0, 0, 0, v, 0, 0, 0, 0]

/-- An ACK of `n` bytes with a timestamp. -/
def stampedAck (n : W) (v : Byte) : Frame := { demoAck n with opts := stamp v }

/-- A connection with timestamps in slot 1, `TS_RECENT` being 100. -/
def stampedOpen : List Event :=
  [⟨1, .listen 80⟩, ⟨1, .rx { demoSyn with opts := stamp 100 }⟩, ⟨1, .rx (stampedAck 0 100)⟩]

theorem oldSegment_of {c : Conn} (hst : c.state = .established) (hen : c.tsEnabled = true)
    (hts : c.tsRecent = 100) (n : W) : OldSegment (stampedAck n 50) c := by
  refine ⟨hst, hen, 50, rfl, ?_⟩
  rw [hts]
  decide

/-- An old segment with nothing new. -/
theorem paws_effect_free_demo : ∃ t : Tcp, Run (step demoEnv) anyEvent (tcpInit 16) t ∧
    OldSegment (stampedAck 0 50) (t.conn 1) ∧
    pawsEffectFree demoEnv 2 1 (stampedAck 0 50) (t.at 1) := by
  obtain ⟨t, hrun, ⟨hst, hen, hts⟩, hack, hw, hp⟩ := exists_run (step demoEnv) anyEvent
    (tcpInit 16)
    (Q := fun t => ((t.conn 1).state = .established ∧ (t.conn 1).tsEnabled = true ∧
      (t.conn 1).tsRecent = 100) ∧ ackAdvances (stampedAck 0 50) (t.conn 1) = false ∧
      (t.conn 1).sndWnd = scaledWindow (stampedAck 0 50) (t.conn 1) ∧
      ((t.conn 1).persistShift = 0 ↔ (t.conn 1).sndWnd ≠ 0))
    stampedOpen (by decide +kernel) (by decide +kernel)
  have hold := oldSegment_of hst hen hts 0
  exact ⟨t, hrun, hold, (paws_effect_free_iff hold).1.mpr ⟨hack, hw, hp⟩⟩

/-- An old segment that acknowledges the byte we sent: `SND_UNA` moves. -/
theorem paws_drop_acks : ∃ t : Tcp, Run (step demoEnv) anyEvent (tcpInit 16) t ∧
    OldSegment (stampedAck 1 50) (t.conn 1) ∧
    ¬ pawsEffectFree demoEnv 2 1 (stampedAck 1 50) (t.at 1) := by
  obtain ⟨t, hrun, ⟨hst, hen, hts⟩, huna⟩ := exists_run (step demoEnv) anyEvent (tcpInit 16)
    (Q := fun t => ((t.conn 1).state = .established ∧ (t.conn 1).tsEnabled = true ∧
      (t.conn 1).tsRecent = 100) ∧
      ((tcpEstabAckHandler demoEnv 2 1 (stampedAck 1 50) (t.at 1)).map fun r => r.1.conn.sndUna)
        ≠ some (t.conn 1).sndUna)
    (stampedOpen ++ [⟨1, .send 1 [65]⟩]) (by decide +kernel) (by decide +kernel)
  refine ⟨t, hrun, oldSegment_of hst hen hts 1, ?_⟩
  rintro ⟨l', hcall, hsame⟩
  rw [hcall] at huna
  exact huna (congrArg some hsame.sndUna)

end WsPi5

/-
# `WsPi5.Tcp.PoolOwner` — the pool entries of one connection

`TInv i c p` says of connection `i`, with record `c` and pool `p`, that it has a retransmit entry
exactly while something waits for an ACK, under the index in its `TIMER_SLOT`, one persist entry at
most, and what the steps need besides.

A step of a connection changes the entries of that connection only (`PoolFrame`), so it keeps `TInv`
of all others (`TInv.frame`); for the connection itself the entry is either dropped (`TInv.of_idle`)
or newly armed (`TInv.of_armed`).

**Proved here**, for each operation that arms or cancels, that it does one of the two.
-/
import WsPi5.Tcp.SendBuf

namespace WsPi5

open Lib

/-! ## Entries and their owners -/

def Callback.owner : Callback → Option Slot
  | .tcpRetransmitCb i | .tcpTimewaitCb i | .tcpPersistCb i => some i
  | .tcpIdleReaperCb | .other _ => none

def ownedBy (o : Option Slot) (e : Option (TimerEntry Callback)) : Prop :=
  ∀ x, e = some x → x.callback.owner = o

/-- The pools differ only at entries that are free or owned by `o`, before and after. -/
structure PoolFrame (o : Option Slot) (p p' : Pool) : Prop where
  cap : p'.cap = p.cap
  slot : ∀ k, p'.slot k = p.slot k ∨ (ownedBy o (p.slot k) ∧ ownedBy o (p'.slot k))
  beyond : ∀ k, p.cap ≤ k → p'.slot k = p.slot k

theorem PoolFrame.refl (o : Option Slot) (p : Pool) : PoolFrame o p p :=
  ⟨rfl, fun _ => Or.inl rfl, fun _ _ => rfl⟩

theorem PoolFrame.trans {o : Option Slot} {p p' p'' : Pool} (h : PoolFrame o p p')
    (h' : PoolFrame o p' p'') : PoolFrame o p p'' where
  cap := h'.cap.trans h.cap
  slot := by
    intro k
    obtain h₁ | ⟨ha, hb⟩ := h.slot k
    · rw [← h₁]
      exact h'.slot k
    · obtain h₂ | ⟨_, hc⟩ := h'.slot k
      · rw [h₂]
        exact Or.inr ⟨ha, hb⟩
      · exact Or.inr ⟨ha, hc⟩
  beyond := fun k hk => (h'.beyond k (h.cap ▸ hk)).trans (h.beyond k hk)

theorem PoolFrame.entry_iff {o : Option Slot} {p p' : Pool} (h : PoolFrame o p p') {k : Nat}
    {e : TimerEntry Callback} (he : e.callback.owner ≠ o) :
    p'.slot k = some e ↔ p.slot k = some e := by
  obtain h₁ | ⟨ha, hb⟩ := h.slot k
  · rw [h₁]
  · exact ⟨fun h₂ => absurd (hb e h₂) he, fun h₂ => absurd (ha e h₂) he⟩

theorem PoolFrame.update {o : Option Slot} {p : Pool} {k : Nat}
    {e : Option (TimerEntry Callback)} (hk : k < p.cap) (hold : ownedBy o (p.slot k))
    (hnew : ownedBy o e) : PoolFrame o p { p with slot := Function.update p.slot k e } where
  cap := rfl
  slot := by
    intro j
    by_cases hj : j = k
    · subst hj
      right
      simpa using ⟨hold, hnew⟩
    · left
      simp [Function.update_of_ne hj]
  beyond := by
    intro j hj
    exact Function.update_of_ne (by omega) _ _

theorem ownedBy_none (o : Option Slot) : ownedBy o none := by
  intro x hx
  cases hx

theorem timerSet_frame {o : Option Slot} (p : Pool) (x : Tick) {cb : Callback}
    (hcb : cb.owner = o) : PoolFrame o p (timerSet p x cb).1 := by
  obtain ⟨k, hk, hfree, heq⟩ | ⟨_, heq⟩ := timerSet_cases p x cb
  · rw [heq]
    refine .update hk (by rw [hfree]; exact ownedBy_none o) ?_
    intro y hy
    cases hy
    exact hcb
  · rw [heq]
    exact .refl o p

/-! ## What should hold of one connection -/

/-- Something the connection sent waits for an ACK. -/
def Conn.awaitsAck (c : Conn) : Prop :=
  (c.state = .established ∧ c.sndUna ≠ c.sndNxt) ∨
    c.state = .synRcvd ∨ c.state = .finWait1 ∨ c.state = .lastAck ∨ c.state = .closing

/-- **The property.** -/
structure TimerOwned (i : Slot) (c : Conn) (p : Pool) : Prop where
  armed_iff : (∃ k x, p.slot k = some ⟨x, .tcpRetransmitCb i⟩) ↔ c.awaitsAck
  unique : ∀ k k' x x', p.slot k = some ⟨x, .tcpRetransmitCb i⟩ →
    p.slot k' = some ⟨x', .tcpRetransmitCb i⟩ → k = k'
  index : ∀ k x, p.slot k = some ⟨x, .tcpRetransmitCb i⟩ → c.timerSlot = some k
  persist : ∀ k k' x x', p.slot k = some ⟨x, .tcpPersistCb i⟩ →
    p.slot k' = some ⟨x', .tcpPersistCb i⟩ → k = k'

/-- What is in flight in the states that send nothing more: our SYN or FIN, or nothing. -/
structure FlightShape (c : Conn) : Prop where
  one : c.state = .synRcvd ∨ c.state = .finWait1 ∨ c.state = .lastAck ∨ c.state = .closing →
    c.sndNxt = c.sndUna + 1
  none : c.state = .closeWait → c.sndNxt = c.sndUna

/-- Where the record's `TIMER_SLOT` points. -/
def SlotNames (i : Slot) (c : Conn) (p : Pool) (k : Nat) : Prop :=
  k < p.cap ∧ ((c.awaitsAck ∧ ∃ x, p.slot k = some ⟨x, .tcpRetransmitCb i⟩) ∨
    (c.state = .timeWait ∧ ∃ x, p.slot k = some ⟨x, .tcpTimewaitCb i⟩))

/-- The invariant of connection `i`. -/
structure TInv (i : Slot) (c : Conn) (p : Pool) : Prop where
  rtx : ∀ k x, p.slot k = some ⟨x, .tcpRetransmitCb i⟩ → c.awaitsAck ∧ c.timerSlot = some k
  timewait : ∀ k x, p.slot k = some ⟨x, .tcpTimewaitCb i⟩ →
    c.state = .timeWait ∧ c.timerSlot = some k
  persist : ∀ k k' x x', p.slot k = some ⟨x, .tcpPersistCb i⟩ →
    p.slot k' = some ⟨x', .tcpPersistCb i⟩ → k = k'
  names : c.state.live → ∀ k, c.timerSlot = some k → SlotNames i c p k
  armed : c.awaitsAck → c.timerSlot ≠ none
  flight : FlightShape c

/-- The fields the invariant reads. -/
structure Tmr where
  state : TcpState
  sndUna : W
  sndNxt : W
  timerSlot : Option Nat
  deriving DecidableEq

def Conn.tmr (c : Conn) : Tmr := ⟨c.state, c.sndUna, c.sndNxt, c.timerSlot⟩

section
variable {i : Slot} {c c' : Conn} {p p' : Pool}

theorem awaitsAck_congr (h : c'.tmr = c.tmr) : c'.awaitsAck ↔ c.awaitsAck := by
  have hs : c'.state = c.state := congrArg Tmr.state h
  have hu : c'.sndUna = c.sndUna := congrArg Tmr.sndUna h
  have hn : c'.sndNxt = c.sndNxt := congrArg Tmr.sndNxt h
  simp only [Conn.awaitsAck, hs, hu, hn]

theorem TInv.congr (h : TInv i c p) (heq : c'.tmr = c.tmr) : TInv i c' p := by
  have hs : c'.state = c.state := congrArg Tmr.state heq
  have hu : c'.sndUna = c.sndUna := congrArg Tmr.sndUna heq
  have hn : c'.sndNxt = c.sndNxt := congrArg Tmr.sndNxt heq
  have ht : c'.timerSlot = c.timerSlot := congrArg Tmr.timerSlot heq
  have ha := awaitsAck_congr heq
  refine ⟨?_, ?_, h.persist, ?_, ?_, ⟨?_, ?_⟩⟩
  · simpa only [ha, ht] using h.rtx
  · simpa only [hs, ht] using h.timewait
  · simpa only [SlotNames, hs, ht, ha] using h.names
  · simpa only [ha, ht] using h.armed
  · simpa only [hs, hu, hn] using h.flight.one
  · simpa only [hs, hu, hn] using h.flight.none

/-- **The frame rule**: changes to the entries of others do not matter. -/
theorem TInv.frame {o : Option Slot} (h : TInv i c p) (hf : PoolFrame o p p')
    (ho : some i ≠ o) : TInv i c p' := by
  have hr : ∀ k x, p'.slot k = some ⟨x, .tcpRetransmitCb i⟩ ↔
      p.slot k = some ⟨x, .tcpRetransmitCb i⟩ := fun k x => hf.entry_iff ho
  have ht : ∀ k x, p'.slot k = some ⟨x, .tcpTimewaitCb i⟩ ↔
      p.slot k = some ⟨x, .tcpTimewaitCb i⟩ := fun k x => hf.entry_iff ho
  have hp : ∀ k x, p'.slot k = some ⟨x, .tcpPersistCb i⟩ ↔
      p.slot k = some ⟨x, .tcpPersistCb i⟩ := fun k x => hf.entry_iff ho
  refine ⟨?_, ?_, ?_, ?_, h.armed, h.flight⟩
  · simpa only [hr] using h.rtx
  · simpa only [ht] using h.timewait
  · simpa only [hp] using h.persist
  · simpa only [SlotNames, hf.cap, hr, ht] using h.names

theorem TInv.owned (h : TInv i c p) : TimerOwned i c p where
  armed_iff := by
    constructor
    · rintro ⟨k, x, hk⟩
      exact (h.rtx k x hk).1
    · intro haw
      obtain ⟨k, hk⟩ := Option.ne_none_iff_exists'.mp (h.armed haw)
      have hlive : c.state.live := by
        unfold TcpState.live
        obtain ⟨hs, _⟩ | hs | hs | hs | hs := haw <;> simp [hs]
      obtain ⟨_, ⟨_, x, hx⟩ | ⟨hs, _⟩⟩ := h.names hlive k hk
      · exact ⟨k, x, hx⟩
      · simp [Conn.awaitsAck, hs] at haw
  unique := by
    intro k k' x x' hk hk'
    have h₁ := (h.rtx k x hk).2
    have h₂ := (h.rtx k' x' hk').2
    rw [h₁] at h₂
    exact Option.some.inj h₂
  index := fun k x hk => (h.rtx k x hk).2
  persist := h.persist

/-! ## Idle pools -/

/-- The connection has no retransmit or 2MSL entry, and at most one persist entry. -/
structure Idle (i : Slot) (p : Pool) : Prop where
  rtx : ∀ k x, p.slot k ≠ some ⟨x, .tcpRetransmitCb i⟩
  timewait : ∀ k x, p.slot k ≠ some ⟨x, .tcpTimewaitCb i⟩
  persist : ∀ k k' x x', p.slot k = some ⟨x, .tcpPersistCb i⟩ →
    p.slot k' = some ⟨x', .tcpPersistCb i⟩ → k = k'

theorem TInv.idle (h : TInv i c p) (hno : ¬ c.awaitsAck) (htw : c.state ≠ .timeWait) :
    Idle i p where
  rtx := fun k x hk => hno (h.rtx k x hk).1
  timewait := fun k x hk => htw (h.timewait k x hk).1
  persist := h.persist

theorem TInv.timerSlot_none (h : TInv i c p) (hlive : c.state.live) (hno : ¬ c.awaitsAck)
    (htw : c.state ≠ .timeWait) : c.timerSlot = none := by
  cases hk : c.timerSlot with
  | none => rfl
  | some k =>
      obtain ⟨_, ⟨haw, _⟩ | ⟨hs, _⟩⟩ := h.names hlive k hk
      · exact absurd haw hno
      · exact absurd hs htw

/-- **No entry and none needed.** -/
theorem TInv.of_idle (h : Idle i p) (hno : ¬ c.awaitsAck)
    (hslot : c.state.live → c.timerSlot = none) (hfl : FlightShape c) : TInv i c p where
  rtx := fun k x hk => absurd hk (h.rtx k x)
  timewait := fun k x hk => absurd hk (h.timewait k x)
  persist := h.persist
  names := by
    intro hlive k hk
    rw [hslot hlive] at hk
    cases hk
  armed := fun haw => absurd haw hno
  flight := hfl

theorem TInv.free_named (h : TInv i c p) {k : Nat} (hk : c.timerSlot = some k) :
    Idle i { p with slot := Function.update p.slot k none } := by
  have hsub : ∀ j e, (Function.update p.slot k none) j = some e →
      j ≠ k ∧ p.slot j = some e := by
    intro j e hj
    by_cases hjk : j = k
    · subst hjk
      simp at hj
    · rw [Function.update_of_ne hjk] at hj
      exact ⟨hjk, hj⟩
  refine ⟨?_, ?_, ?_⟩
  · intro j x hj
    obtain ⟨hne, hold⟩ := hsub j _ hj
    have := (h.rtx j x hold).2
    rw [hk] at this
    exact hne (Option.some.inj this).symm
  · intro j x hj
    obtain ⟨hne, hold⟩ := hsub j _ hj
    have := (h.timewait j x hold).2
    rw [hk] at this
    exact hne (Option.some.inj this).symm
  · intro j j' x x' hj hj'
    exact h.persist j j' x x' (hsub j _ hj).2 (hsub j' _ hj').2

theorem SlotNames.ownedBy {k : Nat} (h : SlotNames i c p k) :
    WsPi5.ownedBy (some i) (p.slot k) := by
  intro e he
  obtain ⟨_, ⟨_, x, hx⟩ | ⟨_, x, hx⟩⟩ := h
  · rw [hx] at he
    cases he
    rfl
  · rw [hx] at he
    cases he
    rfl

theorem TInv.of_armed (h : Idle i p) {k : Nat} {x : Tick} (hk : k < p.cap)
    (haw : c.awaitsAck) (hslot : c.timerSlot = some k) (hfl : FlightShape c) :
    TInv i c { p with slot := Function.update p.slot k (some ⟨x, .tcpRetransmitCb i⟩) } := by
  have hother : ∀ j e, (Function.update p.slot k (some ⟨x, .tcpRetransmitCb i⟩)) j = some e →
      j ≠ k → p.slot j = some e := by
    intro j e hj hjk
    rwa [Function.update_of_ne hjk] at hj
  refine ⟨?_, ?_, ?_, ?_, fun _ => by simp [hslot], hfl⟩
  · intro j y hj
    by_cases hjk : j = k
    · exact ⟨haw, hjk ▸ hslot⟩
    · exact absurd (hother j _ hj hjk) (h.rtx j y)
  · intro j y hj
    by_cases hjk : j = k
    · subst hjk
      simp at hj
    · exact absurd (hother j _ hj hjk) (h.timewait j y)
  · intro j j' y y' hj hj'
    by_cases hjk : j = k
    · subst hjk
      simp at hj
    · by_cases hjk' : j' = k
      · subst hjk'
        simp at hj'
      · exact h.persist j j' y y' (hother j _ hj hjk) (hother j' _ hj' hjk')
  · intro _ j hj
    rw [hslot] at hj
    cases hj
    exact ⟨hk, Or.inl ⟨haw, x, by simp⟩⟩

theorem TInv.of_timewait (h : Idle i p) {k : Nat} {x : Tick} (hk : k < p.cap)
    (hs : c.state = .timeWait) (hslot : c.timerSlot = some k) :
    TInv i c { p with slot := Function.update p.slot k (some ⟨x, .tcpTimewaitCb i⟩) } := by
  have hno : ¬ c.awaitsAck := by simp [Conn.awaitsAck, hs]
  have hother : ∀ j e, (Function.update p.slot k (some ⟨x, .tcpTimewaitCb i⟩)) j = some e →
      j ≠ k → p.slot j = some e := by
    intro j e hj hjk
    rwa [Function.update_of_ne hjk] at hj
  refine ⟨?_, ?_, ?_, ?_, fun haw => absurd haw hno, ⟨by simp [hs], by simp [hs]⟩⟩
  · intro j y hj
    by_cases hjk : j = k
    · subst hjk
      simp at hj
    · exact absurd (hother j _ hj hjk) (h.rtx j y)
  · intro j y hj
    by_cases hjk : j = k
    · exact ⟨hs, hjk ▸ hslot⟩
    · exact absurd (hother j _ hj hjk) (h.timewait j y)
  · intro j j' y y' hj hj'
    by_cases hjk : j = k
    · subst hjk
      simp at hj
    · by_cases hjk' : j' = k
      · subst hjk'
        simp at hj'
      · exact h.persist j j' y y' (hother j _ hj hjk) (hother j' _ hj' hjk')
  · intro _ j hj
    rw [hslot] at hj
    cases hj
    exact ⟨hk, Or.inr ⟨hs, x, by simp⟩⟩

theorem TInv.add_persist (h : TInv i c p) {k : Nat} {x : Tick} (hfree : p.slot k = none)
    (hnone : ∀ j y, p.slot j ≠ some ⟨y, .tcpPersistCb i⟩) :
    TInv i c { p with slot := Function.update p.slot k (some ⟨x, .tcpPersistCb i⟩) } := by
  have hold : ∀ j (e : TimerEntry Callback), e.callback ≠ .tcpPersistCb i →
      ((Function.update p.slot k (some ⟨x, .tcpPersistCb i⟩)) j = some e ↔
        p.slot j = some e) := by
    intro j e he
    by_cases hjk : j = k
    · subst hjk
      simp only [Function.update_self, Option.some.injEq, hfree, reduceCtorEq, iff_false]
      rintro rfl
      exact he rfl
    · rw [Function.update_of_ne hjk]
  have hkey : ∀ j y, (Function.update p.slot k (some ⟨x, .tcpPersistCb i⟩)) j
      = some ⟨y, .tcpPersistCb i⟩ → j = k := by
    intro j y hj
    by_cases hjk : j = k
    · exact hjk
    · rw [Function.update_of_ne hjk] at hj
      exact absurd hj (hnone j y)
  refine ⟨?_, ?_, ?_, ?_, h.armed, h.flight⟩
  · intro j y hj
    exact h.rtx j y ((hold j _ (by simp)).mp hj)
  · intro j y hj
    exact h.timewait j y ((hold j _ (by simp)).mp hj)
  · intro j j' y y' hj hj'
    exact (hkey j y hj).trans (hkey j' y' hj').symm
  · intro hlive j hj
    obtain ⟨hcap, ⟨haw, y, hy⟩ | ⟨hs, y, hy⟩⟩ := h.names hlive j hj
    · exact ⟨hcap, Or.inl ⟨haw, y, (hold j _ (by simp)).mpr hy⟩⟩
    · exact ⟨hcap, Or.inr ⟨hs, y, (hold j _ (by simp)).mpr hy⟩⟩

end

/-! ## The operations that arm and cancel -/

def TimerPool.hasFree (p : Pool) : Prop := p.firstFree ≠ none

/-- The connection's part of a step: its invariant, and that it touched only its entries. -/
def OwnStep (i : Slot) (p : Pool) (l : Local) : Prop :=
  TInv i l.conn l.pool ∧ PoolFrame (some i) p l.pool

section
variable {env : Env} {now : Tick} {i : Slot} {c : Conn} {p : Pool} {l : Local}

theorem tcpRtxClear_idle (hpool : env.hasPool = true) (h : TInv i c p) (hlive : c.state.live)
    (hslot : l.conn.timerSlot = c.timerSlot) (hp : l.pool = p) :
    Idle i (tcpRtxClear env l).pool ∧ PoolFrame (some i) p (tcpRtxClear env l).pool := by
  unfold tcpRtxClear
  dsimp only
  rw [hslot]
  cases hk : c.timerSlot with
  | none =>
      dsimp only
      rw [hp]
      refine ⟨⟨?_, ?_, h.persist⟩, .refl _ _⟩
      · intro k x hx
        have := (h.rtx k x hx).2
        simp [hk] at this
      · intro k x hx
        have := (h.timewait k x hx).2
        simp [hk] at this
  | some k =>
      obtain hnames := h.names hlive k hk
      have hcancel : timerCancel p k = { p with slot := Function.update p.slot k none } := by
        simp [timerCancel, hnames.1]
      dsimp only
      rw [hpool, if_pos rfl, hp, hcancel]
      exact ⟨h.free_named hk, .update hnames.1 hnames.ownedBy (ownedBy_none _)⟩

theorem tcpRtxArm_own (hpool : env.hasPool = true) (h : Idle i l.pool)
    (hfr : PoolFrame (some i) p l.pool) (hfree : l.pool.hasFree) (haw : l.conn.awaitsAck)
    (hfl : FlightShape l.conn) : OwnStep i p (tcpRtxArm env now i l) := by
  unfold tcpRtxArm
  rw [if_pos hpool]
  dsimp only
  refine ⟨?_, hfr.trans (timerSet_frame _ _ rfl)⟩
  obtain ⟨k, hk, _, heq⟩ | ⟨hfull, heq⟩ := timerSet_cases l.pool
    (now + (if l.conn.rto = 0 then env.freq.setWidth 32 else l.conn.rto).setWidth 64)
    (.tcpRetransmitCb i)
  · rw [heq]
    exact .of_armed h hk haw rfl ⟨hfl.one, hfl.none⟩
  · obtain ⟨k, hk⟩ := Option.ne_none_iff_exists'.mp hfree
    obtain ⟨hcap, hnone⟩ := firstFree_some hk
    exact absurd hnone (hfull k hcap)

theorem tcpRtxSave_own (hpool : env.hasPool = true) (f : Frame) (h : Idle i l.pool)
    (hfr : PoolFrame (some i) p l.pool) (hfree : l.pool.hasFree) (haw : l.conn.awaitsAck)
    (hfl : FlightShape l.conn) : OwnStep i p (tcpRtxSave env now i f l) :=
  tcpRtxArm_own hpool h hfr hfree haw ⟨hfl.one, hfl.none⟩

/-- Arming the 2MSL timer of an idle connection; a full pool leaves it without one. -/
theorem startTimewait_own (hpool : env.hasPool = true) (now : Tick) (h : Idle i l.pool)
    (hfr : PoolFrame (some i) p l.pool) (hs : l.conn.state = .timeWait) :
    OwnStep i p (startTimewait env now i l) := by
  unfold startTimewait armTimewait
  rw [if_pos hpool]
  dsimp only
  refine ⟨?_, hfr.trans (timerSet_frame _ _ rfl)⟩
  obtain ⟨k, hk, _, heq⟩ | ⟨_, heq⟩ := timerSet_cases l.pool (now + env.freq * 60)
    (.tcpTimewaitCb i)
  · rw [heq]
    exact .of_timewait h hk hs rfl
  · rw [heq]
    exact .of_idle h (by simp [Conn.awaitsAck, hs]) (fun _ => rfl) ⟨by simp [hs], by simp [hs]⟩

theorem tornDown_own (hpool : env.hasPool = true) (h : TInv i l.conn l.pool)
    (hlive : l.conn.state.live) : OwnStep i l.pool (tornDown env l) := by
  obtain ⟨hidle, hfr⟩ := tcpRtxClear_idle (l := l) hpool h hlive rfl rfl
  refine ⟨.of_idle hidle ?_ ?_ ⟨?_, ?_⟩, hfr⟩
  · simp [Conn.awaitsAck, tornDown]
  · intro hl
    exact absurd rfl hl.1
  · simp [tornDown]
  · simp [tornDown]

theorem tcpPersistArm_own (h : TInv i l.conn l.pool) (hfr : PoolFrame (some i) p l.pool)
    (hnone : ∀ j y, l.pool.slot j ≠ some ⟨y, .tcpPersistCb i⟩) :
    OwnStep i p (tcpPersistArm env now i l) := by
  unfold tcpPersistArm
  split
  · dsimp only
    refine ⟨?_, hfr.trans (timerSet_frame _ _ rfl)⟩
    obtain ⟨k, _, hfree, heq⟩ | ⟨_, heq⟩ := timerSet_cases l.pool
      (now + env.freq * (if tcpPersistInitial <<< ((l.conn.persistShift + 31) % 32)
        < tcpPersistMax then tcpPersistInitial <<< ((l.conn.persistShift + 31) % 32)
        else tcpPersistMax).setWidth 64) (.tcpPersistCb i)
    · rw [heq]
      exact h.add_persist hfree hnone
    · rw [heq]
      exact h
  · exact ⟨h, hfr⟩

end

end WsPi5

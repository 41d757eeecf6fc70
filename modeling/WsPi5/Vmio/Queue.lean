/-
# `WsPi5.Vmio.Queue` — `lib/vmio_queue.S`, word by word

A queue is three 32-bit words and the slots behind them, 32 bytes each; an event is copied as four
64-bit words.  The slot's address is

    lsl w6, w2, #5        tail * 32, in a 32-bit register
    add x5, x5, x6        from Q_SLOTS on

so of the byte offset only the lower 32 bits remain, and from slot 2^27 on the slots are those from
the first on once more.

    capacity up to 2^27     the queue of `Lib.Ring`, and so a list of up to capacity - 1 events
    capacity 2^28 and more  the event in slot 2^27 is stored in slot 0, where the oldest may still be

**Proved here** (`queues_fifo_iff`): a pair of queues with power-of-two capacities behaves, over
every sequence of calls, as the bounded queues of `Lib.FifoPair`, if and only if neither capacity is
above 2^27.
-/
import WsPi5.Lib.FifoPair
import WsPi5.Lib.Ring
import WsPi5.Tcp.Types

namespace WsPi5.Vmio

open Lib

/-! ## The queue in memory -/

/-- The 32 bytes of an event, as `ldp` and `stp` copy them. -/
structure Event where
  w0 : BitVec 64
  w1 : BitVec 64
  w2 : BitVec 64
  w3 : BitVec 64
  deriving DecidableEq

/-- Q_HEAD, Q_TAIL and Q_MASK, and the double words from Q_SLOTS on by their offset in bytes. -/
structure Queue where
  head : W
  tail : W
  mask : W
  slots : Nat → BitVec 64

def loadEvent (slots : Nat → BitVec 64) (off : Nat) : Event :=
  ⟨slots off, slots (off + 8), slots (off + 16), slots (off + 24)⟩

def storeEvent (slots : Nat → BitVec 64) (off : Nat) (ev : Event) : Nat → BitVec 64 :=
  Function.update (Function.update (Function.update (Function.update slots off ev.w0)
    (off + 8) ev.w1) (off + 16) ev.w2) (off + 24) ev.w3

/-- `vmio_queue_init`. -/
def queueInit (q : Queue) (w1 : W) : Queue := { q with head := 0, tail := 0, mask := w1 - 1 }

/-- `vmio_queue_enqueue`: w0 and the queue. -/
def queueEnqueue (q : Queue) (ev : Event) : W × Queue :=
  let w4 := (q.tail + 1) &&& q.mask
  if w4 = q.head then (-1, q)
  else
    let w6 := q.tail <<< 5
    (0, { q with slots := storeEvent q.slots w6.toNat ev, tail := w4 })

/-- `vmio_queue_dequeue`, into the caller's buffer: w0, the queue and the buffer. -/
def queueDequeue (q : Queue) (dst : Event) : W × Queue × Event :=
  if q.head = q.tail then (-1, q, dst)
  else
    let w5 := q.head <<< 5
    (0, { q with head := (q.head + 1) &&& q.mask }, loadEvent q.slots w5.toNat)

/-- `vmio_dequeue_priority`. -/
def dequeuePriority (hi lo : Queue) (dst : Event) : W × Queue × Queue × Event :=
  let r := queueDequeue hi dst
  if r.1 = 0 then (r.1, r.2.1, lo, r.2.2)
  else
    let low := queueDequeue lo r.2.2
    (low.1, r.2.1, low.2.1, low.2.2)

/-! ## Calls on a pair -/

/-- Two queues that share no memory, and the buffer that events are taken into. -/
structure Queues where
  hi : Queue
  lo : Queue
  dst : Event

def Queues.at (p : Queues) : Side → Queue
  | .hi => p.hi
  | .lo => p.lo

def Queues.set (p : Queues) (q : Queue) : Side → Queues
  | .hi => { p with hi := q }
  | .lo => { p with lo := q }

def queuesInit (p : Queues) (hi lo : W) : Queues :=
  { p with hi := queueInit p.hi hi, lo := queueInit p.lo lo }

/-- A call: w0 and the state behind it. -/
def call (p : Queues) : FifoCall Event → W × Queues
  | .put s ev =>
      let r := queueEnqueue (p.at s) ev
      (r.1, p.set r.2 s)
  | .take s =>
      let r := queueDequeue (p.at s) p.dst
      (r.1, { p.set r.2.1 s with dst := r.2.2 })
  | .takeFirst =>
      let r := dequeuePriority p.hi p.lo p.dst
      (r.1, ⟨r.2.1, r.2.2.1, r.2.2.2⟩)

/-- What the caller has: nothing if w0 is not 0, else for a dequeue the event in its buffer. -/
def answer (c : FifoCall Event) (r : W × Queues) : FifoAnswer Event :=
  if r.1 ≠ 0 then .refused
  else match c with
    | .put _ _ => .stored
    | _ => .got r.2.dst

def run : Queues → List (FifoCall Event) → List (FifoAnswer Event) × Queues
  | p, [] => ([], p)
  | p, c :: cs =>
      let r := call p c
      let rest := run r.2 cs
      (answer c r :: rest.1, rest.2)

/-! ## The ring -/

/-- The queue as a ring of events; slot `i` is at byte `32 * i`. -/
def Queue.ring (q : Queue) : RingQueue Event :=
  ⟨fun i => loadEvent q.slots (32 * i), q.head.toNat, q.tail.toNat, q.mask.toNat⟩

theorem loadEvent_storeEvent (slots : Nat → BitVec 64) (ev : Event) (i j : Nat) :
    loadEvent (storeEvent slots (32 * i) ev) (32 * j)
      = if j = i then ev else loadEvent slots (32 * j) := by
  by_cases hji : j = i
  · subst hji
    rw [if_pos rfl]
    simp [loadEvent, storeEvent]
  · have hout (a : Nat) (ha : a < 32) :
        storeEvent slots (32 * i) ev (32 * j + a) = slots (32 * j + a) := by
      have h₀ : 32 * j + a ≠ 32 * i := by omega
      have h₁ : 32 * j + a ≠ 32 * i + 8 := by omega
      have h₂ : 32 * j + a ≠ 32 * i + 16 := by omega
      have h₃ : 32 * j + a ≠ 32 * i + 24 := by omega
      rw [storeEvent, Function.update_of_ne h₃, Function.update_of_ne h₂,
        Function.update_of_ne h₁, Function.update_of_ne h₀]
    have h₀ := hout 0 (by decide)
    rw [Nat.add_zero] at h₀
    rw [if_neg hji, loadEvent, h₀, hout 8 (by decide), hout 16 (by decide), hout 24 (by decide)]
    rfl

theorem slotOffset {w : W} (h : w.toNat < 2 ^ 27) : (w <<< 5).toNat = 32 * w.toNat := by
  rw [BitVec.toNat_shiftLeft, Nat.shiftLeft_eq, Nat.mod_eq_of_lt (by omega), Nat.mul_comm]

theorem nextIndex {w mask : W} {k : Nat} (hk : k < 32) (hw : w.toNat < 2 ^ k) :
    ((w + 1) &&& mask).toNat = (w.toNat + 1) &&& mask.toNat := by
  have hpow : 2 ^ k < 2 ^ 32 := Nat.pow_lt_pow_right (by decide) hk
  have hadd : (w + 1).toNat = w.toNat + 1 := by
    rw [BitVec.toNat_add]
    exact Nat.mod_eq_of_lt (by show w.toNat + 1 < 2 ^ 32; omega)
  rw [BitVec.toNat_and, hadd]

/-- A queue of `2 ^ k` slots holds the events `xs`. -/
def Queue.Holds (q : Queue) (k : Nat) (xs : List Event) : Prop := q.ring.Holds k xs

section
variable {q : Queue} {k : Nat} {ev : Event} {xs : List Event}

theorem Queue.Holds.tail_lt (h : q.Holds k xs) : q.tail.toNat < 2 ^ k := by
  have htail := RingQueue.Holds.tail h
  show q.ring.tail < 2 ^ k
  rw [htail]
  exact Nat.mod_lt _ (Nat.two_pow_pos k)

theorem Queue.Holds.head_lt (h : q.Holds k xs) : q.head.toNat < 2 ^ k := RingQueue.Holds.head h

theorem queueInit_holds (q : Queue) {k : Nat} (hk : k < 32) :
    (queueInit q (BitVec.ofNat 32 (2 ^ k))).Holds k [] := by
  have hpow : 2 ^ k < 2 ^ 32 := Nat.pow_lt_pow_right (by decide) hk
  have hpos : 0 < 2 ^ k := Nat.two_pow_pos k
  refine ⟨?_, hpos, ?_, hpos, fun j hj => absurd hj (Nat.not_lt_zero j)⟩
  · show (BitVec.ofNat 32 (2 ^ k) - 1).toNat + 1 = 2 ^ k
    have hone : (1 : W).toNat = 1 := rfl
    rw [BitVec.toNat_sub, BitVec.toNat_ofNat, hone, Nat.mod_eq_of_lt hpow]
    omega
  · show 0 = (0 + 0) % 2 ^ k
    rw [Nat.zero_mod]

/-- **Enqueue**, with room. -/
theorem Queue.Holds.enqueue (h : q.Holds k xs) (hk : k ≤ 27) (hroom : xs.length < 2 ^ k - 1) :
    ∃ q', queueEnqueue q ev = (0, q') ∧ q'.Holds k (xs ++ [ev]) := by
  have hpow : 2 ^ k ≤ 2 ^ 27 := Nat.pow_le_pow_right (by decide) hk
  have htail := h.tail_lt
  have hnext := @nextIndex q.tail q.mask k (by omega) htail
  obtain ⟨r, hpush, hr⟩ := RingQueue.Holds.push h ev (by omega)
  simp only [RingQueue.push] at hpush
  have hfree : (q.ring.tail + 1) &&& q.ring.mask ≠ q.ring.head := by
    intro heq
    rw [if_pos heq] at hpush
    cases hpush
  have hne : ¬ (q.tail + 1) &&& q.mask = q.head := by
    intro heq
    refine hfree ?_
    show (q.tail.toNat + 1) &&& q.mask.toNat = q.head.toNat
    rw [← hnext, heq]
  rw [if_neg hfree] at hpush
  refine ⟨_, by rw [queueEnqueue]; exact if_neg hne, ?_⟩
  have hring : ({ q with
      slots := storeEvent q.slots (q.tail <<< 5).toNat ev
      tail := (q.tail + 1) &&& q.mask } : Queue).ring = r := by
    rw [← Option.some.inj hpush]
    simp only [Queue.ring, RingQueue.mk.injEq, true_and, and_true]
    refine ⟨funext fun i => ?_, hnext⟩
    rw [slotOffset (by omega), loadEvent_storeEvent, Function.update_apply]
  rw [Queue.Holds, hring]
  exact hr

theorem Queue.Holds.enqueue_full (h : q.Holds k xs) (hk : k < 32)
    (hfull : ¬ xs.length < 2 ^ k - 1) : queueEnqueue q ev = (-1, q) := by
  have hroom : xs.length < 2 ^ k := RingQueue.Holds.room h
  have hpush := RingQueue.Holds.push_full h ev (by omega)
  have hnext := @nextIndex q.tail q.mask k hk h.tail_lt
  simp only [RingQueue.push] at hpush
  have heq : (q.tail + 1) &&& q.mask = q.head := by
    by_contra hne
    have hfree : (q.ring.tail + 1) &&& q.ring.mask ≠ q.ring.head := by
      intro heq
      exact hne (BitVec.eq_of_toNat_eq (hnext.trans heq))
    rw [if_neg hfree] at hpush
    cases hpush
  rw [queueEnqueue]
  exact if_pos heq

/-- **Dequeue**, the oldest. -/
theorem Queue.Holds.dequeue (h : q.Holds k (ev :: xs)) (hk : k ≤ 27) (dst : Event) :
    ∃ q', queueDequeue q dst = (0, q', ev) ∧ q'.Holds k xs := by
  have hpow : 2 ^ k ≤ 2 ^ 27 := Nat.pow_le_pow_right (by decide) hk
  have hhead := h.head_lt
  have hnext := @nextIndex q.head q.mask k (by omega) hhead
  obtain ⟨r, hpop, hr⟩ := RingQueue.Holds.pop h
  simp only [RingQueue.pop] at hpop
  have hsome : q.ring.head ≠ q.ring.tail := by
    intro heq
    rw [if_pos heq] at hpop
    cases hpop
  have hne : ¬ q.head = q.tail := fun heq => hsome (congrArg BitVec.toNat heq)
  rw [if_neg hsome] at hpop
  obtain ⟨hfront, hbehind⟩ := Prod.mk.inj (Option.some.inj hpop)
  refine ⟨{ q with head := (q.head + 1) &&& q.mask }, ?_, ?_⟩
  · have hev : loadEvent q.slots (q.head <<< 5).toNat = ev := by
      rw [slotOffset (by omega)]
      exact hfront
    rw [queueDequeue, if_neg hne]
    dsimp only
    rw [hev]
  · have hring : ({ q with head := (q.head + 1) &&& q.mask } : Queue).ring = r := by
      rw [← hbehind]
      simp only [Queue.ring, RingQueue.mk.injEq, true_and, and_true]
      exact hnext
    rw [Queue.Holds, hring]
    exact hr

theorem Queue.Holds.dequeue_nil (h : q.Holds k []) (dst : Event) :
    queueDequeue q dst = (-1, q, dst) := by
  have heq : q.ring.head = q.ring.tail := (RingQueue.Holds.empty_iff h).mpr rfl
  rw [queueDequeue, if_pos (BitVec.eq_of_toNat_eq heq)]

end

/-! ## The pair -/

/-- The queues of `2 ^ e s` slots hold the lists of `a`. -/
def Queues.Rep (p : Queues) (e : Side → Nat) (a : Side → List Event) : Prop :=
  ∀ s, (p.at s).Holds (e s) (a s)

def room (e : Side → Nat) (s : Side) : Nat := 2 ^ e s - 1

@[simp] theorem Queues.set_at (p : Queues) (s : Side) : p.set (p.at s) s = p := by
  cases s
  · rfl
  · rfl

@[simp] theorem Queues.dst_at (p : Queues) (d : Event) (s : Side) :
    ({ p with dst := d } : Queues).at s = p.at s := by
  cases s
  · rfl
  · rfl

section
variable {p : Queues} {e : Side → Nat} {a : Side → List Event} {q : Queue} {xs : List Event}

theorem Queues.Rep.set {s : Side} (h : p.Rep e a) (hq : q.Holds (e s) xs) (d : Event) :
    ({ p.set q s with dst := d } : Queues).Rep e (Function.update a s xs) := by
  intro s'
  rw [dst_at]
  by_cases hs : s' = s
  · subst hs
    rw [Function.update_self]
    cases s'
    · exact hq
    · exact hq
  · rw [Function.update_of_ne hs]
    have hkeep : (p.set q s).at s' = p.at s' := by
      cases s
      · cases s'
        · exact absurd rfl hs
        · rfl
      · cases s'
        · rfl
        · exact absurd rfl hs
    rw [hkeep]
    exact h s'

/-- What a call does on the pair is what the call of `Lib.FifoPair` does on the lists; a call that
fails leaves everything as it is. -/
structure Agrees (e : Side → Nat) (p : Queues) (c : FifoCall Event) (r : W × Queues)
    (abs : FifoAnswer Event × (Side → List Event)) : Prop where
  answer : answer c r = abs.1
  rep : r.2.Rep e abs.2
  kept : r.1 ≠ 0 → r.2 = p

theorem call_put (h : p.Rep e a) (he : ∀ s, e s ≤ 27) (s : Side) (ev : Event) :
    Agrees e p (.put s ev) (call p (.put s ev)) (fifoStep (room e) a (.put s ev)) := by
  have hq := h s
  rw [fifoStep]
  by_cases hroom : (a s).length < room e s
  · obtain ⟨q', henq, hq'⟩ := @Queue.Holds.enqueue _ _ ev _ hq (he s) hroom
    have hcall : call p (.put s ev) = (0, p.set q' s) := by rw [call, henq]
    rw [if_pos hroom, hcall]
    exact ⟨rfl, h.set hq' (p.set q' s).dst, fun hne => absurd rfl hne⟩
  · have hfull := @Queue.Holds.enqueue_full _ _ ev _ hq (Nat.lt_of_le_of_lt (he s) (by decide)) hroom
    have hcall : call p (.put s ev) = (-1, p) := by
      rw [call, hfull]
      dsimp only
      rw [Queues.set_at]
    rw [if_neg hroom, hcall]
    exact ⟨rfl, h, fun _ => rfl⟩

/-- For a dequeue from one of the queues, however it was called. -/
theorem call_take (h : p.Rep e a) (he : ∀ s, e s ≤ 27) (s : Side) {c : FifoCall Event}
    (hc : ∀ s' ev, c ≠ .put s' ev) :
    Agrees e p c (call p (.take s)) (fifoTake a s) := by
  have hq := h s
  have hgot (q' : Queue) (d : Event) :
      answer c (0, { p.set q' s with dst := d }) = .got d := by
    cases c with
    | put s' ev => exact absurd rfl (hc s' ev)
    | take s' => rfl
    | takeFirst => rfl
  rw [fifoTake]
  cases ha : a s with
  | nil =>
      rw [ha] at hq
      have hcall : call p (.take s) = (-1, p) := by
        rw [call, hq.dequeue_nil]
        dsimp only
        rw [Queues.set_at]
      rw [hcall]
      exact ⟨rfl, h, fun _ => rfl⟩
  | cons ev xs =>
      rw [ha] at hq
      obtain ⟨q', hdeq, hq'⟩ := hq.dequeue (he s) p.dst
      have hcall : call p (.take s) = (0, { p.set q' s with dst := ev }) := by rw [call, hdeq]
      rw [hcall]
      exact ⟨hgot q' ev, h.set hq' ev, fun hne => absurd rfl hne⟩

theorem call_takeFirst (h : p.Rep e a) (he : ∀ s, e s ≤ 27) :
    call p .takeFirst = call p (.take (firstSide a)) := by
  have hhi : p.hi.Holds (e .hi) (a .hi) := h .hi
  rw [firstSide]
  cases ha : a .hi with
  | nil =>
      rw [ha] at hhi
      rw [if_pos rfl]
      simp only [call, dequeuePriority, hhi.dequeue_nil]
      rfl
  | cons ev xs =>
      rw [ha] at hhi
      obtain ⟨q', hdeq, _⟩ := hhi.dequeue (he .hi) p.dst
      rw [if_neg (by simp)]
      simp only [call, dequeuePriority, Queues.at, hdeq]
      rfl

/-- **One call.** -/
theorem call_agrees (h : p.Rep e a) (he : ∀ s, e s ≤ 27) (c : FifoCall Event) :
    Agrees e p c (call p c) (fifoStep (room e) a c) := by
  cases c with
  | put s ev => exact call_put h he s ev
  | take s => exact call_take h he s fun s' ev heq => nomatch heq
  | takeFirst =>
      rw [call_takeFirst h he]
      exact call_take h he (firstSide a) fun s' ev heq => nomatch heq

/-- **Any sequence of calls.** -/
theorem run_agrees (he : ∀ s, e s ≤ 27) : ∀ (cs : List (FifoCall Event)) {p : Queues}
    {a : Side → List Event}, p.Rep e a →
    (run p cs).1 = (fifoRun (room e) a cs).1 ∧ (run p cs).2.Rep e (fifoRun (room e) a cs).2 := by
  intro cs
  induction cs with
  | nil => intro p a h; exact ⟨rfl, h⟩
  | cons c cs ih =>
      intro p a h
      have hstep := call_agrees h he c
      obtain ⟨hanswers, hrep⟩ := ih hstep.rep
      refine ⟨?_, hrep⟩
      rw [run, fifoRun]
      dsimp only
      rw [hstep.answer, hanswers]

end

/-! ## Slot 2^27 -/

@[simp] theorem Queues.at_set (p : Queues) (q : Queue) (s : Side) : (p.set q s).at s = q := by
  cases s
  · rfl
  · rfl

theorem run_concat (p : Queues) (cs : List (FifoCall Event)) (c : FifoCall Event) :
    run p (cs ++ [c]) = ((run p cs).1 ++ [answer c (call (run p cs).2 c)],
      (call (run p cs).2 c).2) := by
  induction cs generalizing p with
  | nil => rfl
  | cons d cs ih => rw [List.cons_append, run, run, ih]; rfl

/-- One event, and `n` times another one behind it. -/
def onTop (s : Side) (first other : Event) (n : Nat) : List (FifoCall Event) :=
  .put s first :: List.replicate n (.put s other)

theorem onTop_succ (s : Side) (first other : Event) (n : Nat) :
    onTop s first other (n + 1) = onTop s first other n ++ [.put s other] := by
  rw [onTop, List.replicate_succ', onTop, List.cons_append]

/-- The queue after `n + 1` events from the first slot on, of which `front` is in that slot. -/
structure Piled (q : Queue) (k n : Nat) (front : Event) : Prop where
  head : q.head = 0
  tail : q.tail.toNat = n + 1
  mask : q.mask.toNat = 2 ^ k - 1
  front : loadEvent q.slots 0 = front

section
variable {q : Queue} {k n : Nat} {front ev : Event}

theorem Piled.enqueue (h : Piled q k n front) (hlo : 28 ≤ k) (hhi : k < 32) (hn : n + 1 ≤ 2 ^ 27) :
    ∃ q', queueEnqueue q ev = (0, q') ∧
      Piled q' k (n + 1) (if n + 1 = 2 ^ 27 then ev else front) := by
  have hpow : 2 ^ 28 ≤ 2 ^ k := Nat.pow_le_pow_right (by decide) hlo
  have htail := h.tail
  have hnext : ((q.tail + 1) &&& q.mask).toNat = n + 2 := by
    rw [nextIndex hhi (by omega), h.mask, Nat.and_two_pow_sub_one_eq_mod, h.tail,
      Nat.mod_eq_of_lt (by omega)]
  have hne : ¬ (q.tail + 1) &&& q.mask = q.head := by
    intro heq
    rw [heq, h.head] at hnext
    cases hnext
  refine ⟨⟨q.head, (q.tail + 1) &&& q.mask, q.mask, storeEvent q.slots (q.tail <<< 5).toNat ev⟩,
    by rw [queueEnqueue]; exact if_neg hne, h.head, hnext, h.mask, ?_⟩
  dsimp only
  by_cases hlast : n + 1 = 2 ^ 27
  · have hoff : (q.tail <<< 5).toNat = 32 * 0 := by
      rw [BitVec.toNat_shiftLeft, h.tail, hlast]
      rfl
    rw [if_pos hlast, hoff]
    exact (loadEvent_storeEvent q.slots ev 0 0).trans (if_pos rfl)
  · have hoff : (q.tail <<< 5).toNat = 32 * (n + 1) := by
      rw [slotOffset (by omega), h.tail]
    rw [if_neg hlast, hoff, ← h.front]
    exact (loadEvent_storeEvent q.slots ev (n + 1) 0).trans (if_neg (by omega))

theorem Piled.dequeue (h : Piled q k n front) (dst : Event) :
    (queueDequeue q dst).1 = 0 ∧ (queueDequeue q dst).2.2 = front := by
  have hne : ¬ q.head = q.tail := by
    intro heq
    have htail := h.tail
    rw [← heq, h.head] at htail
    cases htail
  have hoff : (q.head <<< 5).toNat = 0 := by rw [h.head]; rfl
  rw [queueDequeue, if_neg hne]
  dsimp only
  rw [hoff]
  exact ⟨rfl, h.front⟩

end

theorem queueInit_piled (q : Queue) {k : Nat} (hlo : 28 ≤ k) (hhi : k < 32) (first : Event) :
    ∃ q', queueEnqueue (queueInit q (BitVec.ofNat 32 (2 ^ k))) first = (0, q') ∧
      Piled q' k 0 first := by
  have hmask : (BitVec.ofNat 32 (2 ^ k) - 1).toNat = 2 ^ k - 1 := by
    have h := RingQueue.Holds.mask (queueInit_holds q hhi)
    exact Nat.eq_sub_of_add_eq h
  have hpow : 2 ^ 28 ≤ 2 ^ k := Nat.pow_le_pow_right (by decide) hlo
  have hnext : (((0 : W) + 1) &&& (BitVec.ofNat 32 (2 ^ k) - 1)).toNat = 1 := by
    have hzero : (0 : W).toNat = 0 := rfl
    rw [nextIndex hhi (by rw [hzero]; omega), hmask, Nat.and_two_pow_sub_one_eq_mod, hzero,
      Nat.mod_eq_of_lt (by omega)]
  have hne : ¬ ((0 : W) + 1) &&& (BitVec.ofNat 32 (2 ^ k) - 1) = 0 := by
    intro heq
    rw [heq] at hnext
    cases hnext
  refine ⟨_, by rw [queueEnqueue]; exact if_neg hne, rfl, hnext, hmask, ?_⟩
  exact (loadEvent_storeEvent q.slots first 0 0).trans (if_pos rfl)

section
variable {p : Queues} {s : Side} {k : Nat} {first other : Event}

theorem onTop_piled (hlo : 28 ≤ k) (hhi : k < 32)
    (hp : ∃ q, p.at s = queueInit q (BitVec.ofNat 32 (2 ^ k))) : ∀ n, n < 2 ^ 27 →
    Piled ((run p (onTop s first other n)).2.at s) k n first := by
  intro n
  induction n with
  | zero =>
      intro _
      obtain ⟨q, hq⟩ := hp
      obtain ⟨q', henq, hpiled⟩ := queueInit_piled q hlo hhi first
      simp only [onTop, List.replicate_zero, run, call, hq, henq, Queues.at_set]
      exact hpiled
  | succ n ih =>
      intro hn
      obtain ⟨q', henq, hpiled⟩ := @Piled.enqueue _ _ _ _ other (ih (by omega)) hlo hhi (by omega)
      rw [if_neg (by omega)] at hpiled
      rw [onTop_succ, run_concat]
      simp only [call, henq, Queues.at_set]
      exact hpiled

/-- **The event in slot 2^27** is the one that is dequeued first. -/
theorem onTop_front (hlo : 28 ≤ k) (hhi : k < 32)
    (hp : ∃ q, p.at s = queueInit q (BitVec.ofNat 32 (2 ^ k))) {n : Nat} (hn : n + 1 = 2 ^ 27) :
    (run p (onTop s first other (n + 1) ++ [.take s])).1.getLast? = some (.got other) := by
  have hpiled := @onTop_piled p s k first other hlo hhi hp n (by omega)
  obtain ⟨q', henq, hover⟩ := @Piled.enqueue _ _ _ _ other hpiled hlo hhi (by omega)
  rw [if_pos hn] at hover
  have hat : (run p (onTop s first other (n + 1))).2.at s = q' := by
    rw [onTop_succ, run_concat]
    simp only [call, henq, Queues.at_set]
  obtain ⟨hdone, hdst⟩ := hover.dequeue (run p (onTop s first other (n + 1))).2.dst
  rw [← hat] at hdone hdst
  rw [run_concat, List.getLast?_concat]
  simp only [answer, call, hdone, hdst, ne_eq, not_true_eq_false, if_false]

theorem onTop_fifo {room : Side → Nat} : ∀ {n}, n < room s →
    (fifoRun room (fun _ => []) (onTop s first other n)).2 s
      = first :: List.replicate n other := by
  intro n
  induction n with
  | zero =>
      intro hroom
      simp [onTop, fifoRun, fifoStep, hroom]
  | succ n ih =>
      intro hroom
      rw [onTop_succ, fifoRun_concat]
      simp only [fifoStep]
      rw [ih (by omega), if_pos (by simpa using hroom), List.replicate_succ']
      simp

end

/-! ## The main result -/

/-- Over every sequence of calls on newly initialised queues: the answers are those of the bounded
queues, and the slots from the head to the tail hold what those hold; what was stored in a queue is
what was taken from it and what it holds, in this order; and a call that fails changes nothing. -/
def BehaveAsFifos (e : Side → Nat) : Prop :=
  ∀ (p : Queues) (cs : List (FifoCall Event)),
    let q := queuesInit p (BitVec.ofNat 32 (2 ^ e .hi)) (BitVec.ofNat 32 (2 ^ e .lo))
    let abs := fifoRun (room e) (fun _ => []) cs
    (run q cs).1 = abs.1 ∧
    (∀ s, ((run q cs).2.at s).ring.contents = abs.2 s) ∧
    (∀ s, fifoStored (room e) s (fun _ => []) cs
      = fifoTaken (room e) s (fun _ => []) cs ++ ((run q cs).2.at s).ring.contents) ∧
    ∀ c, (call (run q cs).2 c).1 ≠ 0 → (call (run q cs).2 c).2 = (run q cs).2

theorem queuesInit_at (p : Queues) (e : Side → Nat) (s : Side) : ∃ q,
    (queuesInit p (BitVec.ofNat 32 (2 ^ e .hi)) (BitVec.ofNat 32 (2 ^ e .lo))).at s
      = queueInit q (BitVec.ofNat 32 (2 ^ e s)) := by
  cases s
  · exact ⟨p.hi, rfl⟩
  · exact ⟨p.lo, rfl⟩

theorem behaveAsFifos {e : Side → Nat} (he : ∀ s, e s ≤ 27) : BehaveAsFifos e := by
  intro p cs q abs
  have hinit : q.Rep e fun _ => [] := by
    intro s
    obtain ⟨q', hq'⟩ := queuesInit_at p e s
    rw [hq']
    exact queueInit_holds q' (Nat.lt_of_le_of_lt (he s) (by decide))
  obtain ⟨hanswers, hrep⟩ := run_agrees he cs hinit
  have hcontents : ∀ s, ((run q cs).2.at s).ring.contents = abs.2 s := fun s =>
    RingQueue.Holds.contents (hrep s)
  refine ⟨hanswers, hcontents, fun s => ?_, fun c => (call_agrees hrep he c).kept⟩
  have hconserved := @fifoRun_conserves _ (room e) s cs fun _ => []
  rwa [List.nil_append, ← hcontents s] at hconserved

def eventA : Event := ⟨0, 0, 0, 0⟩
def eventB : Event := ⟨1, 0, 0, 0⟩

theorem onTop_differs {e : Side → Nat} {s : Side} (p : Queues) (hlo : 28 ≤ e s) (hhi : e s < 32)
    {n : Nat} (hn : n + 1 = 2 ^ 27) :
    (run (queuesInit p (BitVec.ofNat 32 (2 ^ e .hi)) (BitVec.ofNat 32 (2 ^ e .lo)))
      (onTop s eventA eventB (n + 1) ++ [.take s])).1.getLast? = some (.got eventB) ∧
    (fifoRun (room e) (fun _ => []) (onTop s eventA eventB (n + 1) ++ [.take s])).1.getLast?
      = some (.got eventA) := by
  refine ⟨onTop_front hlo hhi (queuesInit_at p e s) hn, ?_⟩
  have hpow : 2 ^ 28 ≤ 2 ^ e s := Nat.pow_le_pow_right (by decide) hlo
  have hroom : n + 1 < room e s := by
    rw [room]
    omega
  rw [fifoRun_concat, List.getLast?_concat]
  simp only [fifoStep, fifoTake, onTop_fifo hroom]

/-- **The queues.**  Two queues of `2 ^ e s` slots behave as bounded queues, over every sequence of
calls, exactly if neither has more than 2^27 slots. -/
theorem queues_fifo_iff {e : Side → Nat} (hcap : ∀ s, e s < 32) :
    BehaveAsFifos e ↔ ∀ s, e s ≤ 27 := by
  refine ⟨fun h s => ?_, behaveAsFifos⟩
  by_contra hbig
  obtain ⟨n, hn⟩ : ∃ n, n + 1 = 2 ^ 27 := ⟨2 ^ 27 - 1, by decide⟩
  have p : Queues := ⟨⟨0, 0, 0, fun _ => 0⟩, ⟨0, 0, 0, fun _ => 0⟩, eventA⟩
  obtain ⟨hanswers, _⟩ := h p (onTop s eventA eventB (n + 1) ++ [.take s])
  obtain ⟨hcode, habs⟩ := @onTop_differs e s p (by omega) (hcap s) n hn
  rw [hanswers, habs] at hcode
  cases hcode

/-- The two queues of the output FSA have 128 slots each. -/
theorem queues_fifo_demo : BehaveAsFifos fun _ => 7 :=
  (@queues_fifo_iff (fun _ => 7) fun _ => by decide).mpr fun _ => by decide

/-- 2^28 slots, of which the first 2^27 + 1 are filled: the dequeue returns the last event. -/
theorem queues_overrun : ∃ n, n + 1 = 2 ^ 27 ∧
    (run (queuesInit ⟨⟨0, 0, 0, fun _ => 0⟩, ⟨0, 0, 0, fun _ => 0⟩, eventA⟩
      (BitVec.ofNat 32 (2 ^ 28)) (BitVec.ofNat 32 (2 ^ 4)))
      (onTop .hi eventA eventB (n + 1) ++ [.take .hi])).1.getLast? = some (.got eventB) ∧
    (fifoRun (room fun s => if s = .hi then 28 else 4) (fun _ => [])
      (onTop .hi eventA eventB (n + 1) ++ [.take .hi])).1.getLast? = some (.got eventA) := by
  obtain ⟨n, hn⟩ : ∃ n, n + 1 = 2 ^ 27 := ⟨2 ^ 27 - 1, by decide⟩
  exact ⟨n, hn, @onTop_differs (fun s => if s = .hi then 28 else 4) .hi
    ⟨⟨0, 0, 0, fun _ => 0⟩, ⟨0, 0, 0, fun _ => 0⟩, eventA⟩ (by decide) (by decide) n hn⟩

end WsPi5.Vmio

/-
# `WsPi5.Http.FsaMemory` — queues, pending bits and states as they lie in memory

`WsPi5.Http.OutputFsa` has lists for the two queues and functions for the per-way tables.  Here
they are what `lib/vmio_queue.S` and `http_fsa_post` make of them: rings of 128 slots with two
indices and a mask, a byte of pending bits and a state byte for each way.

    memory                                     `Fsa`
    ring with head and tail                    list, oldest event first
    bit c of http_fsa_evt_pending[way]         `pending`
    http_fsa_ostate[way]                       `ostate`

**Represents** (`FsaMem.Rep`).  Posting an event for a way that has none, and taking one, do in
memory what they do on the lists (`Rep.post`, `Rep.take`).  What is behind the ways of the
tables, and what no event has (flags, addresses), is left out.
-/
import WsPi5.Lib.Ring
import WsPi5.Http.WayStates

namespace WsPi5

open Lib

/-! ## `lib/vmio_queue.S` -/

/-- EVT_WAY and EVT_CODE. -/
structure VmioEvent where
  way : BitVec 16
  code : BitVec 16
  deriving DecidableEq, Repr

abbrev VmioQueue := RingQueue VmioEvent

/-- `vmio_queue_init`; the slots are left as they are. -/
def vmioQueueInit (slots : Nat → VmioEvent) (capacity : Nat) : VmioQueue :=
  ⟨slots, 0, 0, capacity - 1⟩

/-- `vmio_queue_enqueue`; `none` if full. -/
def vmioQueueEnqueue (q : VmioQueue) (ev : VmioEvent) : Option VmioQueue := q.push ev

/-- `vmio_queue_dequeue`; `none` if empty. -/
def vmioQueueDequeue (q : VmioQueue) : Option (VmioEvent × VmioQueue) := q.pop

def vmioDequeuePriority (hi lo : VmioQueue) : Option (VmioEvent × VmioQueue × VmioQueue) :=
  match vmioQueueDequeue hi with
  | some (ev, hi') => some (ev, hi', lo)
  | none => (vmioQueueDequeue lo).map fun p => (p.1, hi, p.2)

/-! ## `http_fsa_post` -/

/-- What became of a post. -/
inductive PostResult where
  | enqueued | duplicate | full | outOfRange
  deriving DecidableEq, Repr

/-- The globals of the output FSA.  No definition reads `posts` and `taken`: what was posted
and with what result, and what was dequeued, most recent first. -/
structure FsaMem where
  hiQueue : VmioQueue
  loQueue : VmioQueue
  ostate : Nat → BitVec 8
  evtPending : Nat → BitVec 8
  engState : BitVec 32
  posts : List (VmioEvent × PostResult)
  taken : List VmioEvent

def httpFsaQCap : Nat := 128
def fsaNStates : Nat := 4
def fsaNEvents : Nat := 8

def httpFsaHiMask : BitVec 32 := 1 <<< 0 ||| 1 <<< 5 ||| 1 <<< 6 ||| 1 <<< 7

def httpFsaInit (hiSlots loSlots : Nat → VmioEvent) : FsaMem where
  hiQueue := vmioQueueInit hiSlots httpFsaQCap
  loQueue := vmioQueueInit loSlots httpFsaQCap
  ostate := fun _ => 0
  evtPending := fun _ => 0
  engState := 0
  posts := []
  taken := []

section
variable (m : FsaMem) (way code : Nat)

def FsaMem.setBit : FsaMem :=
  { m with evtPending := Function.update m.evtPending way (m.evtPending way ||| 1#8 <<< code) }

/-- `bic`: clear it. -/
def FsaMem.clearBit : FsaMem :=
  { m with evtPending := Function.update m.evtPending way (m.evtPending way &&& ~~~(1#8 <<< code)) }

def FsaMem.notePost (ev : VmioEvent) (res : PostResult) : FsaMem :=
  { m with posts := (ev, res) :: m.posts }

/-- `http_fsa_post`: checks, pending bit, queue by the mask; the bit is taken back if the
queue is full. -/
def httpFsaPost : FsaMem :=
  let ev : VmioEvent := ⟨BitVec.ofNat 16 way, BitVec.ofNat 16 code⟩
  if tcpMaxConns ≤ way ∨ fsaNEvents ≤ code then m.notePost ev .outOfRange
  else if m.evtPending way &&& 1#8 <<< code ≠ 0 then m.notePost ev .duplicate
  else
    let m' := m.setBit way code
    if httpFsaHiMask >>> code &&& 1 = 0 then
      match vmioQueueEnqueue m'.loQueue ev with
      | some q => { m' with loQueue := q }.notePost ev .enqueued
      | none => (m'.clearBit way code).notePost ev .full
    else
      match vmioQueueEnqueue m'.hiQueue ev with
      | some q => { m' with hiQueue := q }.notePost ev .enqueued
      | none => (m'.clearBit way code).notePost ev .full

/-- The peek of `http_fsa_step`. -/
def FsaMem.peek : Option VmioEvent :=
  if m.hiQueue.head ≠ m.hiQueue.tail then some (m.hiQueue.slots m.hiQueue.head)
  else if m.loQueue.head = m.loQueue.tail then none
  else some (m.loQueue.slots m.loQueue.head)

end

/-! ## Codes -/

/-- `E_*` as a number. -/
def OEvt.code : OEvt → Nat
  | .respReady => 0
  | .winOpen => 1
  | .chunkSent => 2
  | .allQueued => 3
  | .allDrained => 4
  | .tcpClosed => 5
  | .doClose => 6
  | .doKeepalive => 7

/-- `O_*` as a number. -/
def OState.code : OState → Nat
  | .idle => 0
  | .setup => 1
  | .tx => 2
  | .draining => 3

/-- A state byte as `http_fsa_poll_tcp_events` tells them apart. -/
def OState.ofByte (b : BitVec 8) : OState :=
  if b = 0 then .idle else if b = 3 then .draining else if b = 1 then .setup else .tx

def OEvt.ofCode (n : Nat) : OEvt :=
  if n = 0 then .respReady else if n = 1 then .winOpen else if n = 2 then .chunkSent
  else if n = 3 then .allQueued else if n = 4 then .allDrained else if n = 5 then .tcpClosed
  else if n = 6 then .doClose else .doKeepalive

/-- The event that `http_fsa_post` builds. -/
def eventOf (i : Slot) (e : OEvt) : VmioEvent := ⟨BitVec.ofNat 16 i.val, BitVec.ofNat 16 e.code⟩

def VmioEvent.decode (ev : VmioEvent) : Slot × OEvt :=
  (⟨ev.way.toNat % tcpMaxConns, Nat.mod_lt _ (by decide)⟩, OEvt.ofCode ev.code.toNat)

theorem OEvt.code_lt (e : OEvt) : e.code < fsaNEvents := by cases e <;> decide

@[simp] theorem OEvt.ofCode_code (e : OEvt) : OEvt.ofCode e.code = e := by cases e <;> rfl

theorem OEvt.code_inj {e e' : OEvt} (h : e.code = e'.code) : e = e' := by
  rw [← OEvt.ofCode_code e, h, OEvt.ofCode_code]

@[simp] theorem OState.ofByte_code (o : OState) : OState.ofByte (BitVec.ofNat 8 o.code) = o := by
  cases o <;> rfl

theorem eventOf_way (i : Slot) (e : OEvt) : (eventOf i e).way.toNat = i.val := by
  have hi : i.val < 128 := i.isLt
  exact Nat.mod_eq_of_lt (by omega)

theorem eventOf_code (i : Slot) (e : OEvt) : (eventOf i e).code.toNat = e.code := by
  have he : e.code < 8 := e.code_lt
  exact Nat.mod_eq_of_lt (by omega)

@[simp] theorem eventOf_decode (i : Slot) (e : OEvt) : (eventOf i e).decode = (i, e) := by
  have hi : i.val < tcpMaxConns := i.isLt
  unfold VmioEvent.decode
  simp only [eventOf_way, eventOf_code, OEvt.ofCode_code, Nat.mod_eq_of_lt hi]

theorem hiMask_code (e : OEvt) : httpFsaHiMask >>> e.code &&& 1 = 0 ↔ e.hi = false := by
  cases e <;> decide

/-! ## Pending bits -/

theorem bit_test (b : BitVec 8) {n : Nat} (hn : n < 8) :
    b &&& 1#8 <<< n ≠ 0 ↔ b.getLsbD n = true := by
  rw [← BitVec.twoPow_eq, BitVec.and_twoPow]
  split
  · rename_i hbit
    refine iff_of_true (fun hzero => ?_) hbit
    have hget : (BitVec.twoPow 8 n).getLsbD n = (0#8).getLsbD n := by rw [hzero]; rfl
    simp [hn] at hget
  · rename_i hbit
    simp [hbit]

theorem bit_set (b : BitVec 8) {n : Nat} (hn : n < 8) (k : Nat) :
    (b ||| 1#8 <<< n).getLsbD k = (b.getLsbD k || decide (k = n)) := by
  rw [← BitVec.twoPow_eq, BitVec.getLsbD_or, BitVec.getLsbD_twoPow]
  simp [hn, eq_comm]

theorem bit_clear (b : BitVec 8) {n k : Nat} (hn : n < 8) (hk : k < 8) :
    (b &&& ~~~(1#8 <<< n)).getLsbD k = (b.getLsbD k && !decide (k = n)) := by
  rw [← BitVec.twoPow_eq, BitVec.getLsbD_and, BitVec.getLsbD_not, BitVec.getLsbD_twoPow]
  simp [hn, hk, eq_comm]

/-! ## Represents -/

def encoded (queued : List (Slot × OEvt)) : List VmioEvent :=
  queued.map fun p => eventOf p.1 p.2

/-- The globals in memory are these queues and tables. -/
structure FsaMem.Rep (m : FsaMem) (q : Fsa) : Prop where
  hi : m.hiQueue.Holds 7 (encoded q.hi)
  lo : m.loQueue.Holds 7 (encoded q.lo)
  ostate : ∀ i : Slot, m.ostate i.val = BitVec.ofNat 8 (q.ostate i).code
  pending : ∀ (i : Slot) (e : OEvt), (m.evtPending i.val).getLsbD e.code = q.pending i e

def FsaMem.view (m : FsaMem) : Fsa where
  ostate := fun i => .ofByte (m.ostate i.val)
  pending := fun i e => (m.evtPending i.val).getLsbD e.code
  hi := m.hiQueue.contents.map VmioEvent.decode
  lo := m.loQueue.contents.map VmioEvent.decode

/-- Way `i` has no event, and there is room for one. -/
structure Fsa.Free (q : Fsa) (i : Slot) : Prop where
  silent : ∀ e, (i, e) ∉ q.hi ∧ (i, e) ∉ q.lo
  room : q.hi.length + q.lo.length < fsaQueueRoom

section
variable {m : FsaMem} {q q' : Fsa} {i : Slot} {e : OEvt}

theorem decode_encoded (queued : List (Slot × OEvt)) :
    (encoded queued).map VmioEvent.decode = queued := by
  unfold encoded
  rw [List.map_map]
  exact (List.map_congr_left fun p _ => eventOf_decode p.1 p.2).trans (List.map_id queued)

theorem FsaMem.Rep.view (h : m.Rep q) : m.view = q := by
  unfold FsaMem.view
  rw [h.hi.contents, h.lo.contents, decode_encoded, decode_encoded]
  congr
  · funext i
    rw [h.ostate, OState.ofByte_code]
  · funext i e
    exact h.pending i e

theorem httpFsaInit_rep (hiSlots loSlots : Nat → VmioEvent) :
    (httpFsaInit hiSlots loSlots).Rep ⟨fun _ => .idle, fun _ _ => false, [], []⟩ := by
  have hempty : ∀ slots : Nat → VmioEvent, (vmioQueueInit slots httpFsaQCap).Holds 7 [] :=
    fun slots => ⟨rfl, Nat.two_pow_pos 7, rfl, Nat.two_pow_pos 7,
      fun j hj => absurd hj (Nat.not_lt_zero j)⟩
  refine ⟨hempty hiSlots, hempty loSlots, fun i => rfl, fun i e => ?_⟩
  simp [httpFsaInit]

theorem Fsa.Free.post (hf : q.Free i) (hq : q.Ok) (e : OEvt) :
    q.post i e = if e.hi then { q.setPending i e true with hi := q.hi ++ [(i, e)] }
      else { q.setPending i e true with lo := q.lo ++ [(i, e)] } := by
  have hroom := hf.room
  have hpend : ¬ q.pending i e = true := by
    intro hp
    rcases (hq.pending i e).mp hp with hmem | hmem
    · exact (hf.silent e).1 hmem
    · exact (hf.silent e).2 hmem
  have hhi : q.hi.length < fsaQueueRoom := by omega
  have hlo : q.lo.length < fsaQueueRoom := by omega
  unfold Fsa.post
  rw [if_neg hpend, if_pos hhi, if_pos hlo]

theorem FsaMem.Rep.setBit (h : m.Rep q) (i : Slot) (e : OEvt) (j : Slot) (e' : OEvt) :
    ((m.setBit i.val e.code).evtPending j.val).getLsbD e'.code
      = (q.setPending i e true).pending j e' := by
  rw [Fsa.setPending_apply]
  unfold FsaMem.setBit
  dsimp only
  by_cases hj : j = i
  · subst hj
    rw [Function.update_self, bit_set _ e.code_lt, h.pending]
    by_cases he : e' = e
    · simp [he]
    · have hcode : e'.code ≠ e.code := fun hc => he (OEvt.code_inj hc)
      simp [he, hcode]
  · have hval : j.val ≠ i.val := fun hv => hj (Fin.ext hv)
    rw [Function.update_of_ne hval, h.pending]
    simp [hj]

theorem FsaMem.Rep.clearBit (h : m.Rep q) (i : Slot) (e : OEvt) (j : Slot) (e' : OEvt) :
    ((m.clearBit i.val e.code).evtPending j.val).getLsbD e'.code
      = (q.setPending i e false).pending j e' := by
  rw [Fsa.setPending_apply]
  unfold FsaMem.clearBit
  dsimp only
  by_cases hj : j = i
  · subst hj
    rw [Function.update_self, bit_clear _ e.code_lt e'.code_lt, h.pending]
    by_cases he : e' = e
    · simp [he]
    · have hcode : e'.code ≠ e.code := fun hc => he (OEvt.code_inj hc)
      simp [he, hcode]
  · have hval : j.val ≠ i.val := fun hv => hj (Fin.ext hv)
    rw [Function.update_of_ne hval, h.pending]
    simp [hj]

theorem encoded_append (queued : List (Slot × OEvt)) (i : Slot) (e : OEvt) :
    encoded (queued ++ [(i, e)]) = encoded queued ++ [eventOf i e] := by
  simp [encoded]

/-- **Posting.**  The event of a way that has none is enqueued. -/
theorem FsaMem.Rep.post (h : m.Rep q) (hq : q.Ok) (hf : q.Free i) (e : OEvt) :
    (httpFsaPost m i.val e.code).Rep (q.post i e) ∧
      (httpFsaPost m i.val e.code).posts = (eventOf i e, .enqueued) :: m.posts ∧
      (httpFsaPost m i.val e.code).taken = m.taken := by
  have hroom := hf.room
  have hway : ¬ (tcpMaxConns ≤ i.val ∨ fsaNEvents ≤ e.code) := by
    have hi := i.isLt
    have he := e.code_lt
    omega
  have hnew : ¬ m.evtPending i.val &&& 1#8 <<< e.code ≠ 0 := by
    rw [bit_test _ e.code_lt, h.pending]
    intro hp
    rcases (hq.pending i e).mp hp with hmem | hmem
    · exact (hf.silent e).1 hmem
    · exact (hf.silent e).2 hmem
  rw [hf.post hq e]
  unfold httpFsaPost
  dsimp only
  rw [if_neg hway, if_neg hnew]
  by_cases he : e.hi = true
  · have hmask : ¬ httpFsaHiMask >>> e.code &&& 1 = 0 := by
      rw [hiMask_code, he]
      simp
    have hlen : (encoded q.hi).length + 1 < 2 ^ 7 := by
      simp only [encoded, List.length_map, fsaQueueRoom] at hroom ⊢
      omega
    obtain ⟨queue, hpush, hholds⟩ := h.hi.push (eventOf i e) hlen
    have hpush' : vmioQueueEnqueue (m.setBit i.val e.code).hiQueue
        ⟨BitVec.ofNat 16 i.val, BitVec.ofNat 16 e.code⟩ = some queue := hpush
    rw [if_neg hmask, if_pos he, hpush']
    refine ⟨⟨?_, h.lo, h.ostate, h.setBit i e⟩, rfl, rfl⟩
    rw [encoded_append]
    exact hholds
  · have he' : e.hi = false := by simpa using he
    have hlen : (encoded q.lo).length + 1 < 2 ^ 7 := by
      simp only [encoded, List.length_map, fsaQueueRoom] at hroom ⊢
      omega
    obtain ⟨queue, hpush, hholds⟩ := h.lo.push (eventOf i e) hlen
    have hpush' : vmioQueueEnqueue (m.setBit i.val e.code).loQueue
        ⟨BitVec.ofNat 16 i.val, BitVec.ofNat 16 e.code⟩ = some queue := hpush
    rw [if_pos ((hiMask_code e).mpr he'), if_neg he, hpush']
    refine ⟨⟨h.hi, ?_, h.ostate, h.setBit i e⟩, rfl, rfl⟩
    rw [encoded_append]
    exact hholds

/-- **Taking.**  What the peek sees is what is dequeued, and it is the next event. -/
theorem FsaMem.Rep.take (h : m.Rep q) (hnext : q.next = some (i, e, q')) :
    m.peek = some (eventOf i e) ∧
    ∃ hi lo, vmioDequeuePriority m.hiQueue m.loQueue = some (eventOf i e, hi, lo) ∧
      FsaMem.Rep { m.clearBit i.val e.code with hiQueue := hi, loQueue := lo } q' := by
  have hpend : q'.pending = (q.setPending i e false).pending := by
    unfold Fsa.next at hnext
    split at hnext <;> cases hnext <;> rfl
  have hbits : ∀ (j : Slot) (e' : OEvt),
      ((m.clearBit i.val e.code).evtPending j.val).getLsbD e'.code = q'.pending j e' := by
    intro j e'
    rw [hpend]
    exact h.clearBit i e j e'
  obtain ⟨host, hqueues⟩ := Fsa.next_some hnext
  have hstates : ∀ j : Slot, m.ostate j.val = BitVec.ofNat 8 (q'.ostate j).code := by
    rw [host]
    exact h.ostate
  rcases hqueues with ⟨hhi, hlo⟩ | ⟨hhi, hhi', hlo⟩
  · have hholds : m.hiQueue.Holds 7 (eventOf i e :: encoded q'.hi) := by
      have := h.hi
      rwa [hhi] at this
    obtain ⟨queue, hpop, hrest⟩ := hholds.pop
    have hpop' : vmioQueueDequeue m.hiQueue = some (eventOf i e, queue) := hpop
    have hne : m.hiQueue.head ≠ m.hiQueue.tail := fun heq => by
      cases hholds.empty_iff.mp heq
    refine ⟨?_, queue, m.loQueue, ?_, hrest, ?_, hstates, hbits⟩
    · unfold FsaMem.peek
      rw [if_pos hne, hholds.front]
    · unfold vmioDequeuePriority
      rw [hpop']
    · rw [hlo]
      exact h.lo
  · have hnil : m.hiQueue.Holds 7 [] := by
      have := h.hi
      rwa [hhi] at this
    have hholds : m.loQueue.Holds 7 (eventOf i e :: encoded q'.lo) := by
      have := h.lo
      rwa [hlo] at this
    obtain ⟨queue, hpop, hrest⟩ := hholds.pop
    have hpop' : vmioQueueDequeue m.loQueue = some (eventOf i e, queue) := hpop
    have hempty : vmioQueueDequeue m.hiQueue = none := hnil.pop_nil
    have heq : m.hiQueue.head = m.hiQueue.tail := hnil.empty_iff.mpr rfl
    have hne : ¬ m.loQueue.head = m.loQueue.tail := fun heq => by
      cases hholds.empty_iff.mp heq
    refine ⟨?_, m.hiQueue, queue, ?_, ?_, hrest, hstates, hbits⟩
    · unfold FsaMem.peek
      rw [if_neg (not_not.mpr heq), if_neg hne, hholds.front]
    · unfold vmioDequeuePriority
      rw [hempty, hpop']
      rfl
    · rw [hhi']
      exact hnil

theorem FsaMem.Rep.idle (h : m.Rep q) (hnext : q.next = none) :
    m.peek = none ∧ vmioDequeuePriority m.hiQueue m.loQueue = none := by
  obtain ⟨hhi, hlo⟩ := Fsa.next_none hnext
  have hnilHi : m.hiQueue.Holds 7 [] := by
    have := h.hi
    rwa [hhi] at this
  have hnilLo : m.loQueue.Holds 7 [] := by
    have := h.lo
    rwa [hlo] at this
  have hemptyHi : vmioQueueDequeue m.hiQueue = none := hnilHi.pop_nil
  have hemptyLo : vmioQueueDequeue m.loQueue = none := hnilLo.pop_nil
  refine ⟨?_, ?_⟩
  · unfold FsaMem.peek
    rw [if_neg (not_not.mpr (hnilHi.empty_iff.mpr rfl)), if_pos (hnilLo.empty_iff.mpr rfl)]
  · unfold vmioDequeuePriority
    rw [hemptyHi, hemptyLo]
    rfl

end

end WsPi5

/-
# `WsPi5.Tcp.RxStream` — the application reads the peer's stream

The peer sends one stream of fewer than 2^32 bytes.  Its segments arrive in any order, cut
anywhere, repeated, overlapping, or not at all, and the application takes bytes from the
front of the receive buffer whenever it likes.

**Proved here** (`rx_stream_integrity`), from the SYN on and for as long as the slot is not
given to another connection: in ESTABLISHED, the bytes taken so far followed by
`rxbuf[0..RXLEN)` are the first `RCV_NXT - (IRS+1)` bytes of the stream; in CLOSE_WAIT, where
the FIN has taken one more sequence number, one fewer.

**Why the hypothesis on `tcp_rx_consume`.**  An out-of-order segment is stored at
`RXLEN + (SEG.SEQ - RCV_NXT)`, and its table entry keeps only the sequence number.  Consuming
moves the bytes up to `RXLEN` down and leaves the stored ones where they are, so a stored
segment that is still to be merged is then in the wrong place (`stored_segment_misplaced`).
The condition is that the application takes bytes only while no such segment is stored.
`tcp_rx_flush`, which drops the entries too, needs no condition.

**The invariant** (`RxAt`).  For the number `n` of stream bytes received so far: an entry
whose segment starts at position `off ≥ n` has its bytes in place, that is, the byte of
position `p` in cell `RXLEN + (p - n)`.  An entry with `off < n` is dead: `RCV_NXT` never
comes round to its sequence number, because the stream is shorter than the sequence space.
For the same reason an old segment that the unsigned comparison takes for a future one is
stored past the end of the stream, where no live entry is.
-/
import WsPi5.Tcp.SendBuf

namespace WsPi5

open Lib

/-! ## What has been received -/

theorem taken_other {i : Slot} {o : Obs} {log : List Obs} (h : o.slot ≠ i) :
    taken i (o :: log) = taken i log := by
  cases o <;> simp_all [taken, Obs.slot]

/-- The receive side of the record. -/
structure Rx where
  rcvNxt : W
  rxlen : Nat
  oooSlots : List OooSlot
  rxbuf : Nat → Byte

def Conn.rx (c : Conn) : Rx where
  rcvNxt := c.rcvNxt
  rxlen := c.rxlen
  oooSlots := c.oooSlots
  rxbuf := c.rxbuf

/-! ## The invariant -/

section
variable (stream : List Byte) (irs : W)

/-- The `len` bytes of the stream from position `off` on lie in place, where position `n` is
the cell behind the received bytes. -/
structure InPlace (n : Nat) (r : Rx) (off len : Nat) : Prop where
  room : r.rxlen + (off - n) + len ≤ tcpRxbufSize
  fits : off + len ≤ stream.length
  bytes : ∀ p, off ≤ p → p < off + len → stream[p]? = some (r.rxbuf (r.rxlen + (p - n)))

/-- A table entry is dead, or its segment lies in place. -/
def SlotOk (n : Nat) (r : Rx) (s : OooSlot) : Prop :=
  ∃ off, off < 2 ^ 32 ∧ s.seq = irs + 1 + BitVec.ofNat 32 off ∧
    (n ≤ off → InPlace stream n r off s.len)

/-- `n` bytes of the stream have been received, `got` of them taken. -/
structure RxAt (got : List Byte) (n : Nat) (r : Rx) : Prop where
  pos : n ≤ stream.length
  rcvNxt : r.rcvNxt = irs + 1 + BitVec.ofNat 32 n
  rxlen : r.rxlen ≤ tcpRxbufSize
  prefix_eq : got ++ slice r.rxbuf 0 r.rxlen = stream.take n
  slots : ∀ s ∈ r.oooSlots, SlotOk stream irs n r s

/-- The segment is a piece of the stream (a segment without payload may be anything).  IPv4
bounds a payload by 16 bits. -/
def FromStream (f : Frame) : Prop :=
  f.payload ≠ [] → f.payload.length < 65536 ∧ ∃ off, off < stream.length ∧
    f.seq = irs + 1 + BitVec.ofNat 32 off ∧ f.payload <+: stream.drop off

instance decFromStream (f : Frame) : Decidable (FromStream stream irs f) :=
  inferInstanceAs (Decidable (_ → _ ∧ ∃ off, off < stream.length ∧ _))

end

section
variable {stream : List Byte} {irs : W}

theorem seq_inj (irs : W) {a b : Nat} (ha : a < 2 ^ 32) (hb : b < 2 ^ 32)
    (h : irs + 1 + BitVec.ofNat 32 a = irs + 1 + BitVec.ofNat 32 b) : a = b := by
  have hn := congrArg BitVec.toNat h
  simp only [BitVec.toNat_add, BitVec.toNat_ofNat] at hn
  omega

theorem seq_sub (irs : W) {a b : Nat} (ha : a < 2 ^ 32) (hb : b < 2 ^ 32) :
    ((irs + 1 + BitVec.ofNat 32 a) - (irs + 1 + BitVec.ofNat 32 b)).toNat
      = if b ≤ a then a - b else a + 2 ^ 32 - b := by
  have hd : (irs + 1 + BitVec.ofNat 32 a) - (irs + 1 + BitVec.ofNat 32 b)
      = BitVec.ofNat 32 a - BitVec.ofNat 32 b := by
    bv_omega
  rw [hd, BitVec.toNat_sub]
  simp only [BitVec.toNat_ofNat]
  split <;> omega

theorem seq_succ (n : Nat) :
    irs + 1 + BitVec.ofNat 32 n + 1 = irs + 1 + BitVec.ofNat 32 (n + 1) := by
  rw [BitVec.ofNat_add, ← BitVec.add_assoc]
  rfl

theorem prefix_getElem? {xs : List Byte} {off : Nat} (h : xs <+: stream.drop off) {k : Nat}
    (hk : k < xs.length) : stream[off + k]? = some (xs[k]) := by
  obtain ⟨rest, hrest⟩ := h
  have : (stream.drop off)[k]? = some xs[k] := by
    rw [← hrest, List.getElem?_append_left hk, List.getElem?_eq_getElem hk]
  rwa [List.getElem?_drop] at this

theorem prefix_fits {xs : List Byte} {off : Nat} (h : xs <+: stream.drop off) (hne : xs ≠ []) :
    off + xs.length ≤ stream.length := by
  have hlen := h.length_le
  have hpos := List.length_pos_iff.mpr hne
  rw [List.length_drop] at hlen
  omega

/-! ## Storing a piece of the stream -/

/-- Storing bytes at position `q`, which where they reach into the stream are the stream's,
keeps what lies in place in place. -/
theorem InPlace.store {n q off len : Nat} {r : Rx} {xs : List Byte}
    (h : InPlace stream n r off len) (hoff : n ≤ off) (hq : n ≤ q)
    (hxs : ∀ k (hk : k < xs.length), q + k < stream.length → stream[q + k]? = some (xs[k])) :
    InPlace stream n { r with rxbuf := memWrite r.rxbuf (r.rxlen + (q - n)) xs } off len where
  room := h.room
  fits := h.fits
  bytes := by
    intro p hp hp'
    have hfits := h.fits
    show stream[p]? = some (memWrite r.rxbuf (r.rxlen + (q - n)) xs (r.rxlen + (p - n)))
    by_cases hbefore : p < q
    · rw [memWrite_of_lt _ (by omega)]
      exact h.bytes p hp hp'
    · by_cases hafter : q + xs.length ≤ p
      · rw [memWrite_of_ge _ (by omega)]
        exact h.bytes p hp hp'
      · -- the cell is written, with the byte of the same position
        have hk : p - q < xs.length := by omega
        have hcell : r.rxlen + (p - n) = r.rxlen + (q - n) + (p - q) := by omega
        rw [hcell, memWrite_get xs hk, ← hxs (p - q) hk (by omega)]
        congr 1
        omega

theorem InPlace.advance {n m off len : Nat} {r r' : Rx} (h : InPlace stream n r off len)
    (hoff : n + m ≤ off) (hlen : r'.rxlen = r.rxlen + m) (hbuf : r'.rxbuf = r.rxbuf) :
    InPlace stream (n + m) r' off len where
  room := by
    have := h.room
    omega
  fits := h.fits
  bytes := by
    intro p hp hp'
    rw [h.bytes p hp hp', hbuf, hlen]
    congr 2
    omega

theorem RxAt.grow {got : List Byte} {n m : Nat} {r r' : Rx} (h : RxAt stream irs got n r)
    (hin : InPlace stream n r n m) (hbuf : r'.rxbuf = r.rxbuf) (hlen : r'.rxlen = r.rxlen + m)
    (hnxt : r'.rcvNxt = r.rcvNxt + BitVec.ofNat 32 m)
    (hslots : ∀ s ∈ r'.oooSlots, s ∈ r.oooSlots) : RxAt stream irs got (n + m) r' where
  pos := hin.fits
  rcvNxt := by
    rw [hnxt, h.rcvNxt, BitVec.ofNat_add, BitVec.add_assoc]
  rxlen := by
    have := hin.room
    omega
  prefix_eq := by
    have hnew : slice r.rxbuf r.rxlen m = (stream.drop n).take m := by
      apply List.ext_getElem?
      intro k
      by_cases hk : k < m
      · have hb := hin.bytes (n + k) (by omega) (by omega)
        rw [slice_getElem? _ hk, List.getElem?_take_of_lt hk, List.getElem?_drop, hb]
        congr 2
        omega
      · rw [List.getElem?_eq_none (by simp; omega),
          List.getElem?_eq_none (by simp only [List.length_take]; omega)]
    rw [hbuf, hlen, slice_add, ← List.append_assoc, h.prefix_eq, Nat.zero_add, hnew,
      ← List.take_add]
  slots := by
    intro s hs
    obtain ⟨off, hlt, hseq, hlive⟩ := h.slots s (hslots s hs)
    exact ⟨off, hlt, hseq, fun hoff => (hlive (by omega)).advance hoff hlen hbuf⟩

/-! ## The steps of the receive path -/

theorem RxAt.store {got : List Byte} {n q : Nat} {r r' : Rx} (xs : List Byte)
    (h : RxAt stream irs got n r) (hq : n ≤ q)
    (hxs : ∀ k (hk : k < xs.length), q + k < stream.length → stream[q + k]? = some (xs[k]))
    (hr : r' = { r with
      rxbuf := memWrite r.rxbuf (r.rxlen + (q - n)) xs, oooSlots := r'.oooSlots })
    (hslots : ∀ s ∈ r'.oooSlots, s ∈ r.oooSlots ∨ SlotOk stream irs n r' s) :
    RxAt stream irs got n r' := by
  have hnxt : r'.rcvNxt = r.rcvNxt := by rw [hr]
  have hlen : r'.rxlen = r.rxlen := by rw [hr]
  have hbuf : r'.rxbuf = memWrite r.rxbuf (r.rxlen + (q - n)) xs := by rw [hr]
  refine ⟨h.pos, hnxt.trans h.rcvNxt, hlen ▸ h.rxlen, ?_, ?_⟩
  · rw [← h.prefix_eq, hlen, hbuf]
    congr 1
    apply slice_congr
    intro k hk
    exact memWrite_of_lt _ (by omega)
  · intro s hs
    obtain hold | hnew := hslots s hs
    · obtain ⟨off, hlt, hseq, hlive⟩ := h.slots s hold
      refine ⟨off, hlt, hseq, fun hoff => ?_⟩
      have hin := (hlive hoff).store hoff hq hxs
      exact ⟨by rw [hlen]; exact hin.room, hin.fits, by rw [hlen, hbuf]; exact hin.bytes⟩
    · exact hnew

theorem mem_swapRemove {α : Type} {xs : List α} {k : Nat} {x : α} (h : x ∈ swapRemove xs k) :
    x ∈ xs := by
  unfold swapRemove at h
  split at h
  · rename_i y hy
    obtain hset | rfl := List.mem_or_eq_of_mem_set (List.dropLast_subset _ h)
    · exact hset
    · exact List.mem_of_getLast? hy
  · cases h

theorem oooMerge_rx (hstream : stream.length < 2 ^ 32) {got : List Byte} :
    ∀ (fuel : Nat) {c : Conn} {n : Nat}, RxAt stream irs got n c.rx →
      ∃ n', RxAt stream irs got n' (oooMerge fuel c).rx
  | 0, _, n, h => ⟨n, h⟩
  | fuel + 1, c, n, h => by
      unfold oooMerge
      split
      · exact ⟨n, h⟩
      · rename_i k hfound
        obtain ⟨hk, hseq⟩ := List.findIdx?_eq_some_iff_getElem.mp hfound
        have hmatch : (c.oooSlots[k]).seq = c.rcvNxt := by simpa using hseq.1
        have hmem : c.oooSlots[k] ∈ c.rx.oooSlots := List.getElem_mem hk
        obtain ⟨off, hlt, hoffseq, hlive⟩ := h.slots _ hmem
        have hpos := h.pos
        -- the entry's sequence number is `RCV_NXT`, so it starts at position `n`
        have hoff : off = n := by
          apply seq_inj irs hlt (by omega)
          rw [← hoffseq, hmatch]
          exact h.rcvNxt
        subst hoff
        have hin := hlive (Nat.le_refl _)
        have hlen : (c.oooSlots[k]?.map OooSlot.len).getD 0 = (c.oooSlots[k]).len := by
          rw [List.getElem?_eq_getElem hk]
          rfl
        dsimp only
        rw [hlen]
        have hsmall : (c.rxlen + (c.oooSlots[k]).len) % 65536
            = c.rxlen + (c.oooSlots[k]).len := by
          have hroom : c.rxlen + (off - off) + (c.oooSlots[k]).len ≤ tcpRxbufSize := hin.room
          unfold tcpRxbufSize at hroom
          exact Nat.mod_eq_of_lt (by omega)
        rw [hsmall]
        refine oooMerge_rx hstream fuel (n := off + (c.oooSlots[k]).len) ?_
        exact h.grow hin rfl rfl rfl (fun s hs => mem_swapRemove hs)

theorem acceptData_rx (hstream : stream.length < 2 ^ 32) {got : List Byte} {n : Nat} {c : Conn}
    {f : Frame} (h : RxAt stream irs got n c.rx) (hf : FromStream stream irs f)
    (hne : f.payload ≠ []) (hseq : f.seq = c.rcvNxt)
    (hroom : c.rxlen + f.payload.length ≤ tcpRxbufSize) :
    ∃ n', RxAt stream irs got n' (acceptData f c).rx := by
  obtain ⟨_, off, _, hoffseq, hpre⟩ := hf hne
  have hfits := prefix_fits hpre hne
  have hpos := h.pos
  have hoff : off = n := by
    apply seq_inj irs (by omega) (by omega)
    rw [← hoffseq, hseq]
    exact h.rcvNxt
  subst hoff
  have hstored : RxAt stream irs got off
      { c.rx with rxbuf := memWrite c.rxbuf c.rxlen f.payload } := by
    refine RxAt.store f.payload h (Nat.le_refl _) (fun k hk _ => prefix_getElem? hpre hk) ?_
      (fun s hs => Or.inl hs)
    simp [Conn.rx]
  have hin : InPlace stream off { c.rx with rxbuf := memWrite c.rxbuf c.rxlen f.payload } off
      f.payload.length := by
    refine ⟨by simpa [Conn.rx] using hroom, hfits, ?_⟩
    intro p hp hp'
    have hk : p - off < f.payload.length := by omega
    have hcell := prefix_getElem? hpre hk
    rw [show off + (p - off) = p by omega] at hcell
    rw [hcell]
    exact congrArg some (memWrite_get f.payload hk).symm
  unfold acceptData
  dsimp only
  exact oooMerge_rx hstream _ (hstored.grow hin rfl rfl rfl (fun s hs => hs))

theorem oooFits_spec {c : Conn} {f : Frame} (hrx : c.rxlen ≤ tcpRxbufSize)
    (hlen : f.payload.length < 65536) (h : oooFits f c = true) :
    c.rxlen + (f.seq - c.rcvNxt).toNat + f.payload.length ≤ tcpRxbufSize := by
  simp only [oooFits, Bool.and_eq_true, decide_eq_true_eq] at h
  obtain ⟨⟨hgap, _⟩, hroom⟩ := h
  unfold tcpRxbufSize at *
  simp only [BitVec.lt_def, BitVec.le_def, BitVec.toNat_sub, BitVec.toNat_add,
    BitVec.toNat_ofNat] at hgap hroom ⊢
  omega

theorem storeOoo_rx (hstream : stream.length < 2 ^ 32) {got : List Byte} {n : Nat} {c : Conn}
    {f : Frame} (h : RxAt stream irs got n c.rx) (hf : FromStream stream irs f)
    (hne : f.payload ≠ []) (hfit : oooFits f c = true) :
    RxAt stream irs got n (storeOoo f c).rx := by
  obtain ⟨hshort, off, _, hoffseq, hpre⟩ := hf hne
  have hfits := prefix_fits hpre hne
  have hpos := h.pos
  have hplen := List.length_pos_iff.mpr hne
  have hroom := oooFits_spec h.rxlen hshort hfit
  have hgap : (f.seq - c.rcvNxt).toNat = if n ≤ off then off - n else off + 2 ^ 32 - n := by
    have hnxt : c.rcvNxt = irs + 1 + BitVec.ofNat 32 n := h.rcvNxt
    rw [hoffseq, hnxt]
    exact seq_sub irs (by omega) (by omega)
  by_cases hnew : n ≤ off
  · rw [if_pos hnew] at hgap
    have hbuf : (storeOoo f c).rx.rxbuf = memWrite c.rxbuf (c.rxlen + (off - n)) f.payload := by
      simp [storeOoo, Conn.rx, hgap]
    refine RxAt.store f.payload h hnew (fun k hk _ => prefix_getElem? hpre hk) ?_ ?_
    · simp [storeOoo, Conn.rx, hgap]
    · intro s hs
      obtain hold | hlast := List.mem_append.mp hs
      · exact Or.inl hold
      · cases List.mem_singleton.mp hlast
        refine Or.inr ⟨off, by omega, hoffseq, fun _ => ⟨?_, hfits, ?_⟩⟩
        · rw [hgap] at hroom
          exact hroom
        · intro p hp hp'
          have hk : p - off < f.payload.length := by
            have : p < off + f.payload.length := hp'
            omega
          have hcell := prefix_getElem? hpre hk
          rw [show off + (p - off) = p by omega] at hcell
          have hat : (storeOoo f c).rx.rxlen + (p - n) = c.rxlen + (off - n) + (p - off) := by
            show c.rxlen + (p - n) = _
            omega
          rw [hcell, hbuf, hat, memWrite_get f.payload hk]
  · -- an old segment, taken for one past the end of the stream: its entry is dead
    rw [if_neg hnew] at hgap
    refine RxAt.store (q := off + 2 ^ 32) f.payload h (by omega) ?_ ?_ ?_
    · intro k hk hin
      omega
    · simp [storeOoo, Conn.rx, hgap]
    · intro s hs
      obtain hold | hlast := List.mem_append.mp hs
      · exact Or.inl hold
      · cases List.mem_singleton.mp hlast
        exact Or.inr ⟨off, by omega, hoffseq, fun hle => absurd hle hnew⟩

/-! ## The application's side -/

def noLiveOoo (c : Conn) : Prop :=
  ∀ s ∈ c.oooSlots, tcpRxbufSize ≤ (s.seq - c.rcvNxt).toNat

instance decNoLiveOoo (c : Conn) : Decidable (noLiveOoo c) :=
  inferInstanceAs (Decidable (∀ s ∈ c.oooSlots, _))

theorem tcpRxConsume_received (i : Slot) (m : Nat) (l : Local) :
    received i (tcpRxConsume i m l).conn (tcpRxConsume i m l).log
      = received i l.conn l.log := by
  unfold received tcpRxConsume
  dsimp only
  split
  · rename_i hall
    simp [taken, Nat.min_eq_right hall]
  · rename_i hpart
    have hmin : min m l.conn.rxlen = m := by omega
    have hrest : slice (memMoveDown l.conn.rxbuf m 0 (l.conn.rxlen - m)) 0 (l.conn.rxlen - m)
        = slice l.conn.rxbuf m (l.conn.rxlen - m) := by
      apply slice_congr
      intro k hk
      rw [memMoveDown_apply _ (Nat.zero_le _), if_pos (by omega)]
      congr 1
      omega
    have hsplit := slice_add l.conn.rxbuf 0 m (l.conn.rxlen - m)
    rw [show m + (l.conn.rxlen - m) = l.conn.rxlen by omega, Nat.zero_add] at hsplit
    simp only [taken, if_pos, hmin, hrest, List.append_assoc, ← hsplit]

theorem tcpRxConsume_rx (hstream : stream.length < 2 ^ 32) {i : Slot} {n m : Nat} {l : Local}
    (h : RxAt stream irs (taken i l.log) n l.conn.rx)
    (hok : 0 < min m l.conn.rxlen → noLiveOoo l.conn) :
    RxAt stream irs (taken i (tcpRxConsume i m l).log) n (tcpRxConsume i m l).conn.rx := by
  have hrec := tcpRxConsume_received i m l
  have hnxt : (tcpRxConsume i m l).conn.rcvNxt = l.conn.rcvNxt := by
    unfold tcpRxConsume
    dsimp only
    split <;> rfl
  have hlen : (tcpRxConsume i m l).conn.rxlen = l.conn.rxlen - m := by
    unfold tcpRxConsume
    dsimp only
    split
    · show 0 = _
      omega
    · rfl
  have hslots : (tcpRxConsume i m l).conn.oooSlots = l.conn.oooSlots := by
    unfold tcpRxConsume
    dsimp only
    split <;> rfl
  have hrx : l.conn.rxlen ≤ tcpRxbufSize := h.rxlen
  refine ⟨h.pos, hnxt.trans h.rcvNxt, ?_, hrec.trans h.prefix_eq, ?_⟩
  · show (tcpRxConsume i m l).conn.rxlen ≤ _
    omega
  · intro s hs
    have hs' : s ∈ l.conn.oooSlots := hslots ▸ hs
    obtain ⟨off, hlt, hseq, hlive⟩ := h.slots s hs'
    refine ⟨off, hlt, hseq, fun hoff => ?_⟩
    by_cases hzero : 0 < min m l.conn.rxlen
    · -- bytes are taken, so the entry is not live
      have hdead := hok hzero s hs'
      have hpos := h.pos
      have hnxt' : l.conn.rcvNxt = irs + 1 + BitVec.ofNat 32 n := h.rcvNxt
      have hroom : l.conn.rxlen + (off - n) + s.len ≤ tcpRxbufSize := (hlive hoff).room
      rw [hseq, hnxt', seq_sub irs hlt (by omega), if_pos hoff] at hdead
      omega
    · -- nothing is taken, so nothing moves
      have hsame : (tcpRxConsume i m l).conn.rx = l.conn.rx := by
        unfold tcpRxConsume
        dsimp only
        split
        · have : l.conn.rxlen = 0 := by omega
          simp [Conn.rx, this]
        · have hm : m = 0 := by omega
          subst hm
          have hbuf : memMoveDown l.conn.rxbuf 0 0 l.conn.rxlen = l.conn.rxbuf := by
            funext j
            rw [memMoveDown_apply _ (Nat.le_refl _)]
            simp
          simp [Conn.rx, hbuf]
      rw [hsame]
      exact hlive hoff

end

/-! ## What the handlers do to the receive side -/

section
variable (env : Env) (now : Tick) (i : Slot) (f : Frame)

@[simp] theorem tcpRtxArm_rx (l : Local) : (tcpRtxArm env now i l).conn.rx = l.conn.rx := by
  unfold tcpRtxArm
  split <;> rfl

@[simp] theorem commitTs_rx (c : Conn) : (commitTs f c).rx = c.rx := by
  unfold commitTs
  split
  · split <;> rfl
  · rfl

@[simp] theorem eakWindow_rx (l : Local) : (eakWindow env now i f l).conn.rx = l.conn.rx := by
  unfold eakWindow
  dsimp only
  split
  · split
    · rw [tcpPersistArm_conn]
      rfl
    · rfl
  · rfl

@[simp] theorem eakAck_rx (l : Local) : (eakAck env now f l).conn.rx = l.conn.rx := by
  have hrtt : ∀ c : Conn, (eakRtt env now c).rx = c.rx := by
    intro c
    unfold eakRtt tcpRttUpdate
    split
    · dsimp only
      split <;> rfl
    · rfl
  have hcwnd : ∀ c : Conn, (eakCwnd f c).rx = c.rx := by
    intro c
    unfold eakCwnd
    split <;> rfl
  have hall : (eakCwnd f (eakRtt env now (eakAdvance f l.conn))).rx = l.conn.rx := by
    rw [hcwnd, hrtt]
    rfl
  unfold eakAck
  split
  · dsimp only
    split
    · exact hall
    · exact hall
  · rfl

theorem tcpFastRetransmit_rx {l l' : Local} (h : tcpFastRetransmit env now i f l = some l') :
    l'.conn.rx = l.conn.rx := by
  unfold tcpFastRetransmit at h
  dsimp only at h
  split at h
  · obtain ⟨off, _, hoff⟩ := Option.map_eq_some_iff.mp h
    split at hoff
    · subst hoff
      rfl
    · subst hoff
      rw [tcpRtxArm_rx]
      rfl
  · cases h
    rfl

theorem eakPureAck_rx {l l' : Local} (h : eakPureAck env now i f l = some l') :
    l'.conn.rx = l.conn.rx := by
  have hts := commitTs_rx f l.conn
  unfold eakPureAck at h
  dsimp only at h
  split at h
  · split at h
    · cases h
      exact hts
    · split at h
      · cases h
        exact hts
      · exact (tcpFastRetransmit_rx env now i f h).trans hts
  · cases h
    exact hts

/-- The three things the ACK handler can do with the payload: nothing, take it in order, or
store it out of order. -/
theorem eakData_rx {l l' : Local} {r : HRes} (h : eakData env now i f l = some (l', r)) :
    l'.conn.rx = l.conn.rx ∨
    (f.payload ≠ [] ∧ ∃ c : Conn, c.rx = l.conn.rx ∧ f.seq = c.rcvNxt ∧
      c.rxlen + f.payload.length ≤ tcpRxbufSize ∧ l'.conn.rx = (acceptData f c).rx) ∨
    (f.payload ≠ [] ∧ f.seq ≠ l.conn.rcvNxt ∧ oooFits f l.conn = true ∧
      l'.conn.rx = (storeOoo f l.conn).rx) := by
  unfold eakData at h
  dsimp only at h
  split at h
  · obtain ⟨m, hm, hmr⟩ := Option.map_eq_some_iff.mp h
    cases hmr
    exact Or.inl (eakPureAck_rx env now i f hm)
  · rename_i hne
    split at h
    · rename_i hseq
      split at h
      · rename_i hroom
        cases h
        have hts := commitTs_rx f l.conn
        have hnxt : (commitTs f l.conn).rcvNxt = l.conn.rcvNxt := congrArg Rx.rcvNxt hts
        exact Or.inr (Or.inl ⟨hne, commitTs f l.conn, hts, hseq.trans hnxt.symm, hroom, rfl⟩)
      · obtain ⟨m, hm, hmr⟩ := Option.map_eq_some_iff.mp h
        cases hmr
        exact Or.inl ((eakPureAck_rx env now i f hm).trans (commitTs_rx f l.conn))
    · split at h
      · rename_i hseq hooo
        cases h
        exact Or.inr (Or.inr ⟨hne, hseq, hooo.2, rfl⟩)
      · cases h
        exact Or.inl rfl

theorem Resends.taken {l l' : Local} (h : Resends env now i l l') :
    WsPi5.taken i l'.log = WsPi5.taken i l.log := by
  obtain hsame | ⟨c, off, g, hlog, _⟩ := h
  · rw [hsame]
  · rw [hlog]
    rfl

end

section
variable {stream : List Byte} {irs : W}

theorem tcpEstabAckHandler_rx (hstream : stream.length < 2 ^ 32) {env : Env} {now : Tick}
    {i : Slot} {f : Frame} {l l' : Local} {r : HRes} {n : Nat}
    (h : RxAt stream irs (taken i l.log) n l.conn.rx) (hf : FromStream stream irs f)
    (hc : tcpEstabAckHandler env now i f l = some (l', r)) :
    ∃ n', RxAt stream irs (taken i l'.log) n' l'.conn.rx := by
  unfold tcpEstabAckHandler at hc
  dsimp only at hc
  have hrx : (eakAck env now f (eakWindow env now i f l)).conn.rx = l.conn.rx := by simp
  split at hc
  · cases hc
    refine ⟨n, ?_⟩
    rw [hrx]
    simpa using h
  · have htaken := (eakData_resends env now i f hc).taken
    simp only [eakAck_log, eakWindow_log] at htaken
    rw [htaken]
    obtain hsame | ⟨hne, c, hcrx, hseq, hroom, hl'⟩ | ⟨hne, _, hfit, hl'⟩ :=
      eakData_rx env now i f hc
    · exact ⟨n, by rw [hsame, hrx]; exact h⟩
    · rw [hl']
      have hc' : RxAt stream irs (taken i l.log) n c.rx := by
        rw [hcrx, hrx]
        exact h
      exact acceptData_rx hstream hc' hf hne hseq hroom
    · rw [hl']
      refine ⟨n, storeOoo_rx hstream ?_ hf hne hfit⟩
      rw [hrx]
      exact h

end

/-! ## The invariant over the life of the connection -/

/-- Where a connection stands as a receiver. -/
inductive RxPhase where
  | receiving | finished | ended
  deriving DecidableEq, Repr

def TcpState.rxPhase : TcpState → RxPhase
  | .synRcvd | .established => .receiving
  | .closeWait => .finished
  | _ => .ended

section
variable (stream : List Byte) (irs : W) (i : Slot)

/-- While receiving, `RxAt`; after the FIN, the received bytes stay what they are. -/
def RxInv (c : Conn) (log : List Obs) : Prop :=
  match c.state.rxPhase with
  | .receiving => ∃ n, RxAt stream irs (taken i log) n c.rx
  | .finished => ∃ n, n ≤ stream.length ∧ c.rcvNxt = irs + 1 + BitVec.ofNat 32 (n + 1) ∧
      received i c log = stream.take n
  | .ended => True

theorem rxInv_ownLog : OwnLog i (RxInv stream irs i) := by
  intro c o log ho
  have htaken : taken i (o :: log) = taken i log := taken_other ho
  unfold RxInv received
  rw [htaken]

end

section
variable {stream : List Byte} {irs : W} {i : Slot}

theorem RxInv.of_ended {c : Conn} {log : List Obs} (h : c.state.rxPhase = .ended) :
    RxInv stream irs i c log := by
  simp [RxInv, h]

theorem RxInv.receiving {c : Conn} {log : List Obs} (h : RxInv stream irs i c log)
    (hph : c.state.rxPhase = .receiving) : ∃ n, RxAt stream irs (taken i log) n c.rx := by
  simpa [RxInv, hph] using h

theorem RxInv.of_receiving {c : Conn} {log : List Obs} (hph : c.state.rxPhase = .receiving)
    (h : ∃ n, RxAt stream irs (taken i log) n c.rx) : RxInv stream irs i c log := by
  simpa [RxInv, hph] using h

theorem RxInv.same {c c' : Conn} {log log' : List Obs} (h : RxInv stream irs i c log)
    (hph : c'.state.rxPhase = .ended ∨ c'.state.rxPhase = c.state.rxPhase) (hrx : c'.rx = c.rx)
    (hlog : taken i log' = taken i log) : RxInv stream irs i c' log' := by
  obtain hended | hsame := hph
  · exact .of_ended hended
  · have hnxt : c'.rcvNxt = c.rcvNxt := congrArg Rx.rcvNxt hrx
    have hrec : received i c' log' = received i c log := by
      have hlen : c'.rxlen = c.rxlen := congrArg Rx.rxlen hrx
      have hbuf : c'.rxbuf = c.rxbuf := congrArg Rx.rxbuf hrx
      simp only [received, hlog, hlen, hbuf]
    unfold RxInv at h ⊢
    rw [hsame, hrx, hlog, hnxt, hrec]
    exact h

theorem tcpFsaTable_rxPhase {s next : TcpState} {evt : TcpEvt} {h : Handler}
    (htab : tcpFsaTable s evt = some (next, h)) :
    (s.rxPhase = .ended ∧ next.rxPhase = .ended ∧
      ∀ a, h.altState = some a → a.rxPhase = .ended) ∨
    (h = .connClose ∧ next = .closed) ∨
    (h = .synrcvdAck ∧ s = .synRcvd ∧ next = .established) ∨
    (h = .estabAck ∧ s = .established ∧ next = .established) ∨
    (h = .estabFin ∧ s = .established ∧ next = .closeWait) ∨
    (h = .drop ∧ s = .closeWait ∧ next = .closeWait) := by
  cases s <;> cases evt <;> simp only [tcpFsaTable, Option.some.injEq, Prod.mk.injEq,
    reduceCtorEq] at htab <;> obtain ⟨rfl, rfl⟩ := htab <;>
    simp [TcpState.rxPhase, Handler.altState]

theorem settle_rx (now : Tick) (old : TcpState) (l : Local) (r : HRes) :
    (settle now old l r).conn.rx = l.conn.rx := by
  cases r <;> rfl

/-- The FIN handler: the FIN is taken with all that comes before it, or not at all. -/
theorem estabFin_rxInv (hstream : stream.length < 2 ^ 32) (now : Tick) {f : Frame} {l : Local}
    (h : RxInv stream irs i l.conn l.log) (hst : l.conn.state = .established)
    (hf : FromStream stream irs f) :
    RxInv stream irs i (tcpEstabFinHandler now f (l.withState .closeWait)).1.conn
      (tcpEstabFinHandler now f (l.withState .closeWait)).1.log := by
  obtain ⟨n, hn⟩ := h.receiving (by rw [hst]; rfl)
  have hnxt : l.conn.rcvNxt = irs + 1 + BitVec.ofNat 32 n := hn.rcvNxt
  unfold tcpEstabFinHandler
  dsimp only
  split
  · refine ⟨n, hn.pos, ?_, hn.prefix_eq⟩
    show l.conn.rcvNxt + 1 = _
    rw [hnxt, seq_succ]
  · rename_i hne
    split
    · rename_i hin
      obtain ⟨hseq, hroom⟩ := hin
      -- the payload is taken as in-order data is, with no entry to merge
      have hbare : RxAt stream irs (taken i l.log) n { l.conn with oooSlots := [] }.rx :=
        ⟨hn.pos, hn.rcvNxt, hn.rxlen, hn.prefix_eq, by simp [Conn.rx]⟩
      obtain ⟨n', hn'⟩ := acceptData_rx hstream hbare hf hne hseq hroom
      have hplain : (acceptData f { l.conn with oooSlots := [] }).rx
          = { rcvNxt := l.conn.rcvNxt + BitVec.ofNat 32 f.payload.length
              rxlen := l.conn.rxlen + f.payload.length
              oooSlots := []
              rxbuf := memWrite l.conn.rxbuf l.conn.rxlen f.payload } := rfl
      rw [hplain] at hn'
      refine ⟨n', hn'.pos, ?_, hn'.prefix_eq⟩
      have hnxt' : l.conn.rcvNxt + BitVec.ofNat 32 f.payload.length
        = irs + 1 + BitVec.ofNat 32 n' := hn'.rcvNxt
      show l.conn.rcvNxt + BitVec.ofNat 32 f.payload.length + 1 = _
      rw [hnxt', seq_succ]
    · exact .of_receiving rfl ⟨n, hn⟩

theorem recv_rxInv (hstream : stream.length < 2 ^ 32) {env : Env} {now : Tick} {f : Frame}
    {evt : TcpEvt} {next : TcpState} {hd : Handler} {l l' : Local} {r : HRes}
    (h : RxInv stream irs i l.conn l.log) (hf : FromStream stream irs f)
    (htab : tcpFsaTable l.conn.state evt = some (next, hd))
    (hc : hd.call env now i f (l.withState next) = some (l', r)) :
    RxInv stream irs i (settle now l.conn.state l' r).conn
      (settle now l.conn.state l' r).log := by
  obtain ⟨hs, hnext, halt⟩ | ⟨rfl, rfl⟩ | ⟨rfl, hs, rfl⟩ | ⟨rfl, hs, rfl⟩ | ⟨rfl, hs, rfl⟩ |
    ⟨rfl, hs, rfl⟩ := tcpFsaTable_rxPhase htab
  · apply RxInv.of_ended
    obtain h₁ | h₁ := settle_state now l.conn.state l' r
    · rw [h₁, hs]
    · rw [h₁]
      obtain h₂ | h₂ := Handler.call_state hc
      · rw [h₂]
        exact hnext
      · exact halt _ h₂
  · cases hc
    exact .of_ended rfl
  · simp only [Handler.call, tcpSynrcvdAckHandler] at hc
    have hph : l.conn.state.rxPhase = .receiving := by rw [hs]; rfl
    split at hc
    · cases hc
      exact h.same (Or.inr hph.symm) rfl rfl
    · cases hc
      exact h.same (Or.inr rfl) rfl rfl
  · have hph : l.conn.state.rxPhase = .receiving := by rw [hs]; rfl
    obtain ⟨n, hn⟩ := h.receiving hph
    obtain ⟨n', hn'⟩ := tcpEstabAckHandler_rx (l := l.withState .established) hstream hn hf hc
    have hst : (settle now l.conn.state l' r).conn.state.rxPhase = .receiving := by
      obtain h₁ | h₁ := settle_state now l.conn.state l' r
      · rw [h₁, hph]
      · rw [h₁, tcpEstabAckHandler_state hc]
        rfl
    refine .of_receiving hst ⟨n', ?_⟩
    rw [settle_rx, (settle_snd now l.conn.state l' r).2]
    exact hn'
  · cases hc
    exact (estabFin_rxInv hstream now h hs hf).same (Or.inr rfl) rfl rfl
  · cases hc
    refine h.same (Or.inr ?_) rfl rfl
    rw [hs]
    rfl

/-- The peer's side: the slot is not opened again, and segments of the connection are pieces
of the stream. -/
def fromPeer (env : Env) (stream : List Byte) (irs : W) (i : Slot) (t : Tcp) (e : Event) :
    Prop :=
  t.opens env e ≠ some i ∧ match e.call with
    | .rx f => t.exactMatch f = some i → FromStream stream irs f
    | _ => True

/-- The application's side: bytes are taken only while no stored segment is live. -/
def takesOrderly (i : Slot) (t : Tcp) (e : Event) : Prop :=
  match e.call with
  | .consume j n => j = i → 0 < min n (t.conn i).rxlen → noLiveOoo (t.conn i)
  | _ => True

def rxOrderly (env : Env) (stream : List Byte) (irs : W) (i : Slot) (t : Tcp) (e : Event) :
    Prop :=
  fromPeer env stream irs i t e ∧ takesOrderly i t e

instance decFromPeer (env : Env) (stream : List Byte) (irs : W) (i : Slot) (t : Tcp)
    (e : Event) : Decidable (fromPeer env stream irs i t e) := by
  unfold fromPeer
  cases e.call <;> infer_instance

instance decTakesOrderly (i : Slot) (t : Tcp) (e : Event) : Decidable (takesOrderly i t e) := by
  unfold takesOrderly
  cases e.call <;> infer_instance

instance decRxOrderly (env : Env) (stream : List Byte) (irs : W) (i : Slot) (t : Tcp)
    (e : Event) : Decidable (rxOrderly env stream irs i t e) :=
  inferInstanceAs (Decidable (_ ∧ _))

theorem tcpRetransmitCb_rxInv {env : Env} {now : Tick} {l : Local}
    (h : RxInv stream irs i l.conn l.log) :
    RxInv stream irs i (tcpRetransmitCb env now i l).conn (tcpRetransmitCb env now i l).log := by
  unfold tcpRetransmitCb
  split
  · exact h
  · split
    · exact .of_ended rfl
    · dsimp only
      split
      · split
        · exact h.same (Or.inr rfl) rfl rfl
        · refine h.same (Or.inr ?_) ?_ ?_
          · rw [tcpRtxArm_state]
            rfl
          · rw [tcpRtxArm_rx]
            rfl
          · rw [tcpRtxArm_log]
            rfl
      · exact h.same (Or.inr rfl) rfl rfl

theorem tcpSend_rxInv {env : Env} {now : Tick} {p : List Byte} {l : Local}
    (h : RxInv stream irs i l.conn l.log) :
    RxInv stream irs i (tcpSend env now i p l).1.conn (tcpSend env now i p l).1.log := by
  unfold tcpSend
  split
  · refine h.same (Or.inr ?_) ?_ ?_
    · simp only [tcpSendAccept, tcpRtxArm_state]
    · simp only [tcpSendAccept, tcpRtxArm_rx]
      rfl
    · simp only [tcpSendAccept, tcpRtxArm_log]
      rfl
  · exact h

theorem tcpClose_rxInv {env : Env} {now : Tick} {l : Local}
    (h : RxInv stream irs i l.conn l.log) :
    RxInv stream irs i (tcpClose env now i l).1.conn (tcpClose env now i l).1.log := by
  have hended : ∀ (f : Frame) (l₀ : Local), l₀.conn.state.rxPhase = .ended →
      RxInv stream irs i (tcpRtxSave env now i f l₀).conn (tcpRtxSave env now i f l₀).log := by
    intro f l₀ hl₀
    apply RxInv.of_ended
    simpa only [tcpRtxSave, tcpRtxArm_state] using hl₀
  unfold tcpClose
  dsimp only
  split
  · exact h
  · rename_i s hs
    apply hended
    split at hs
    · cases hs
      rfl
    · cases hs
      rfl
    · cases hs

theorem tcpRxConsume_rxInv (hstream : stream.length < 2 ^ 32) {m : Nat} {l : Local}
    (h : RxInv stream irs i l.conn l.log)
    (hok : 0 < min m l.conn.rxlen → noLiveOoo l.conn) :
    RxInv stream irs i (tcpRxConsume i m l).conn (tcpRxConsume i m l).log := by
  have hst : (tcpRxConsume i m l).conn.state = l.conn.state := by
    unfold tcpRxConsume
    dsimp only
    split <;> rfl
  have hnxt : (tcpRxConsume i m l).conn.rcvNxt = l.conn.rcvNxt := by
    unfold tcpRxConsume
    dsimp only
    split <;> rfl
  unfold RxInv at h ⊢
  rw [hst, hnxt, tcpRxConsume_received]
  cases hph : l.conn.state.rxPhase with
  | receiving =>
      rw [hph] at h
      obtain ⟨n, hn⟩ := h
      exact ⟨n, tcpRxConsume_rx hstream hn hok⟩
  | finished =>
      rw [hph] at h
      exact h
  | ended => trivial

theorem tcpRxFlush_rxInv {l : Local} (h : RxInv stream irs i l.conn l.log) :
    RxInv stream irs i (tcpRxFlush i l).conn (tcpRxFlush i l).log := by
  have hrec : received i (tcpRxFlush i l).conn (tcpRxFlush i l).log = received i l.conn l.log := by
    simp [received, tcpRxFlush, taken]
  unfold RxInv at h ⊢
  show match l.conn.state.rxPhase with
    | .receiving => _
    | .finished => _
    | .ended => _
  cases hph : l.conn.state.rxPhase with
  | receiving =>
      rw [hph] at h
      obtain ⟨n, hn⟩ := h
      exact ⟨n, hn.pos, hn.rcvNxt, Nat.zero_le _, hrec.trans hn.prefix_eq, by
        simp [Conn.rx, tcpRxFlush]⟩
  | finished =>
      rw [hph] at h
      obtain ⟨n, hn, hnxt, hpre⟩ := h
      exact ⟨n, hn, hnxt, hrec.trans hpre⟩
  | ended => trivial

/-- **Every act of an orderly step keeps the invariant.** -/
theorem SlotAct.rxInv (hstream : stream.length < 2 ^ 32) {env : Env} {t : Tcp} {e : Event}
    {l l' : Local} (hok : rxOrderly env stream irs i t e) (hl : l.conn = t.conn i)
    (ha : SlotAct env t e i l l') (h : RxInv stream irs i l.conn l.log) :
    RxInv stream irs i l'.conn l'.log := by
  cases ha with
  | @recv f evt next hd l₁ r hrx hmatch hcls hrst htab hcall =>
      rw [← hl] at htab ⊢
      have hpeer := hok.1.2
      rw [hrx] at hpeer
      exact recv_rxInv hstream h (hpeer hmatch) htab hcall
  | opened hrx hmatch hlisten hcls halloc =>
      exact absurd (by simp [Tcp.opens, hrx, hmatch, hlisten, hcls, halloc]) hok.1.1
  | touched => exact h.same (Or.inr rfl) rfl rfl
  | sent _ => exact tcpSend_rxInv h
  | closed _ => exact tcpClose_rxInv h
  | @consumed n hcall =>
      have htakes := hok.2
      rw [takesOrderly, hcall] at htakes
      refine tcpRxConsume_rxInv hstream h ?_
      rw [hl]
      exact htakes rfl
  | flushed _ => exact tcpRxFlush_rxInv h
  | tornDown _ => exact .of_ended rfl
  | retransmit _ _ => exact tcpRetransmitCb_rxInv h
  | timewait _ _ => exact .of_ended rfl
  | persist _ _ =>
      unfold tcpPersistCb
      split
      · rw [tcpPersistArm_conn, tcpPersistArm_log]
        exact h.same (Or.inr rfl) rfl rfl
      · exact h
  | listening _ _ => exact .of_ended rfl

theorem openSlot_rxInv (stream : List Byte) (env : Env) (now : Tick) (f : Frame)
    (lport : BitVec 16) (l : Local) : RxInv stream f.seq i
      (openSlot env now f lport i l).conn (openSlot env now f lport i l).log := by
  have hst : (openSlot env now f lport i l).conn.state = .synRcvd := by
    simp only [openSlot, tcpRtxSave, tcpRtxArm_state, synConn]
  have hrx : (openSlot env now f lport i l).conn.rx = ⟨f.seq + 1, 0, [], l.conn.rxbuf⟩ := by
    simp only [openSlot, tcpRtxSave, tcpRtxArm_rx]
    rfl
  have hlog : taken i (openSlot env now f lport i l).log = [] := by
    simp [openSlot, taken]
  refine .of_receiving (by rw [hst]; rfl) ⟨0, ?_⟩
  rw [hrx, hlog]
  exact ⟨Nat.zero_le _, by simp, Nat.zero_le _, by simp, by simp⟩

/-! ## The result -/

/-- **Receive-stream integrity.**  A SYN with sequence number `IRS` has just opened slot `i`,
and the peer's stream has fewer than 2^32 bytes.  In every orderly continuation, what the
application has taken and what is in the buffer is, in ESTABLISHED, the prefix of the stream
of length `RCV_NXT - (IRS+1)`; in CLOSE_WAIT the FIN counts for one. -/
theorem rx_stream_integrity {env : Env} {t₀ t₁ t : Tcp} {now : Tick} {syn : Frame} {i : Slot}
    {stream : List Byte} (hstream : stream.length < 2 ^ 32)
    (hopen : t₀.opens env ⟨now, .rx syn⟩ = some i)
    (hstep : step env t₀ ⟨now, .rx syn⟩ = some t₁)
    (hrun : Run (step env) (rxOrderly env stream syn.seq i) t₁ t) :
    ((t.conn i).state = .established →
      ((t.conn i).rcvNxt - (syn.seq + 1)).toNat ≤ stream.length ∧
      received i (t.conn i) t.log
        = stream.take ((t.conn i).rcvNxt - (syn.seq + 1)).toNat) ∧
    ((t.conn i).state = .closeWait →
      ((t.conn i).rcvNxt - (syn.seq + 1) - 1).toNat ≤ stream.length ∧
      received i (t.conn i) t.log
        = stream.take ((t.conn i).rcvNxt - (syn.seq + 1) - 1).toNat) := by
  obtain ⟨l₀, _, hconn, hlog, _⟩ := opens_step hopen hstep
  have hstart : RxInv stream syn.seq i (t₁.conn i) t₁.log := by
    rw [hconn, hlog]
    exact openSlot_rxInv stream env now syn syn.dport l₀
  have hinv := slot_run hrun (rxInv_ownLog stream syn.seq i)
    (fun hok hl _ ha h => ha.rxInv hstream hok hl h) hstart
  refine ⟨fun hst => ?_, fun hst => ?_⟩
  · obtain ⟨n, hn⟩ := hinv.receiving (by rw [hst]; rfl)
    have hpos := hn.pos
    have hcount : ((t.conn i).rcvNxt - (syn.seq + 1)).toNat = n := by
      have hnxt : (t.conn i).rcvNxt = syn.seq + 1 + BitVec.ofNat 32 n := hn.rcvNxt
      rw [hnxt]
      have := seq_sub syn.seq (a := n) (b := 0) (by omega) (by omega)
      simpa using this
    rw [hcount]
    exact ⟨hpos, hn.prefix_eq⟩
  · unfold RxInv at hinv
    rw [hst] at hinv
    obtain ⟨n, hpos, hnxt, hpre⟩ := hinv
    have hcount : ((t.conn i).rcvNxt - (syn.seq + 1) - 1).toNat = n := by
      rw [hnxt, ← seq_succ]
      have hsub : syn.seq + 1 + BitVec.ofNat 32 n + 1 - (syn.seq + 1) - 1 = BitVec.ofNat 32 n := by
        bv_omega
      rw [hsub, BitVec.toNat_ofNat]
      omega
    rw [hcount]
    exact ⟨hpos, hpre⟩

end

/-- A segment of the stream `ABC` from position `off` on. -/
def demoData (off : W) (p : List Byte) : Frame :=
  { demoAck 0 with seq := 101 + off, payload := p }

/-- `BC` arrives before `A`; then two bytes are taken. -/
theorem rx_stream_demo : ∃ t₀ t₁ t : Tcp, t₀.opens demoEnv ⟨1, .rx demoSyn⟩ = some 1 ∧
    step demoEnv t₀ ⟨1, .rx demoSyn⟩ = some t₁ ∧
    Run (step demoEnv) (rxOrderly demoEnv [65, 66, 67] 100 1) t₁ t ∧
    (t.conn 1).rcvNxt = 104 ∧ received 1 (t.conn 1) t.log = [65, 66, 67] := by
  have hopen : (tcpListen 80 (tcpInit 16)).opens demoEnv ⟨1, .rx demoSyn⟩ = some 1 := by
    decide +kernel
  obtain ⟨t₁, hstep⟩ : ∃ t₁, step demoEnv (tcpListen 80 (tcpInit 16)) ⟨1, .rx demoSyn⟩
      = some t₁ := ⟨_, rfl⟩
  obtain ⟨t, hrun, hst, hnxt⟩ := exists_run (step demoEnv)
    (rxOrderly demoEnv [65, 66, 67] 100 1) t₁
    (Q := fun t => (t.conn 1).state = .established ∧ (t.conn 1).rcvNxt = 104)
    [⟨1, .rx (demoAck 0)⟩, ⟨1, .rx (demoData 1 [66, 67])⟩, ⟨1, .rx (demoData 0 [65])⟩,
      ⟨1, .consume 1 2⟩]
    (by cases hstep; decide +kernel) (by cases hstep; decide +kernel)
  have hlen : ([65, 66, 67] : List Byte).length < 2 ^ 32 := by decide
  have hres := ((rx_stream_integrity hlen hopen hstep hrun).1 hst).2
  rw [hnxt] at hres
  exact ⟨_, t₁, t, hopen, hstep, hrun, hnxt, hres⟩

/-- `A` arrives, then `C`; `A` is taken, then `B` arrives.  `C` was stored two cells from the
front, is merged one cell from the front, and the application reads a zero in its place. -/
theorem stored_segment_misplaced : ∃ t₀ t₁ t : Tcp,
    t₀.opens demoEnv ⟨1, .rx demoSyn⟩ = some 1 ∧
    step demoEnv t₀ ⟨1, .rx demoSyn⟩ = some t₁ ∧
    Run (step demoEnv) (fromPeer demoEnv [65, 66, 67] 100 1) t₁ t ∧
    (t.conn 1).state = .established ∧ (t.conn 1).rcvNxt = 104 ∧
    received 1 (t.conn 1) t.log = [65, 66, 0] := by
  have hopen : (tcpListen 80 (tcpInit 16)).opens demoEnv ⟨1, .rx demoSyn⟩ = some 1 := by
    decide +kernel
  obtain ⟨t₁, hstep⟩ : ∃ t₁, step demoEnv (tcpListen 80 (tcpInit 16)) ⟨1, .rx demoSyn⟩
      = some t₁ := ⟨_, rfl⟩
  obtain ⟨t, hrun, hst, hnxt, hrec⟩ := exists_run (step demoEnv)
    (fromPeer demoEnv [65, 66, 67] 100 1) t₁
    (Q := fun t => (t.conn 1).state = .established ∧ (t.conn 1).rcvNxt = 104 ∧
      received 1 (t.conn 1) t.log = [65, 66, 0])
    [⟨1, .rx (demoAck 0)⟩, ⟨1, .rx (demoData 0 [65])⟩, ⟨1, .rx (demoData 2 [67])⟩,
      ⟨1, .consume 1 1⟩, ⟨1, .rx (demoData 1 [66])⟩]
    (by cases hstep; decide +kernel) (by cases hstep; decide +kernel)
  exact ⟨_, t₁, t, hopen, hstep, hrun, hst, hnxt, hrec⟩

end WsPi5

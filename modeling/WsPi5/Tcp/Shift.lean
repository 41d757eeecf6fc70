/-
# `WsPi5.Tcp.Shift` — a connection moved in sequence space

Add `k` to everything that counts what we send (`SND_UNA`, `SND_NXT`, `SACK_RECOVER`, the
acknowledgement and the SACK edges of a segment) and `k'` to everything that counts what the peer
sends (`RCV_NXT`, the stored out-of-order segments, the sequence number of a segment).

`SACK_RECOVER` is a sequence number only while it is not 0, so 0 stays 0.  The SACK edges are bytes
of an option, rewritten by `shiftSack`, which walks the options as the parsers do
(`tcpParseSackBlocks_shiftSack`).

**Proved here.**  What the code does on differences does not see the shift: the timers, the window,
the gap of an out-of-order segment, the bytes in flight, the search for a hole.
-/
import WsPi5.Tcp.OooSlots

namespace WsPi5

open Lib

/-! ## SACK edges in the options -/

/-- Add `k` to both edges of the first `n` blocks. -/
def shiftBlocks (k : W) : Nat → List Byte → List Byte
  | n + 1, a :: b :: c :: d :: e :: f :: g :: h :: rest =>
      beBytes (be32 a b c d + k) ++ beBytes (be32 e f g h + k) ++ shiftBlocks k n rest
  | _, bytes => bytes

/-- Add `k` to the edges of a SACK option, if it is complete. -/
def shiftItem (k : W) : List Byte → List Byte
  | kind :: len :: body =>
      if len.toNat ≤ (kind :: len :: body).length then
        kind :: len :: shiftBlocks k (min ((len.toNat - 2) / 8) 4) body
      else kind :: len :: body
  | bytes => bytes

/-- The walk of `optWalk` to the first SACK option. -/
def shiftSackFrom (k : W) : Nat → List Byte → List Byte
  | 0, opts => opts
  | _ + 1, [] => []
  | n + 1, kind :: rest =>
      if kind = 0 then kind :: rest
      else if kind = 1 then kind :: shiftSackFrom k n rest
      else
        match rest with
        | [] => [kind]
        | len :: body =>
            if len < 2 then kind :: len :: body
            else if kind = 5 then shiftItem k (kind :: len :: body)
            else (kind :: len :: body).take len.toNat
              ++ shiftSackFrom k n ((kind :: len :: body).drop len.toNat)

def shiftSack (k : W) (opts : List Byte) : List Byte := shiftSackFrom k opts.length opts

theorem sackExtract_shiftBlocks (k : W) (n : Nat) (bytes : List Byte) :
    sackExtract n (shiftBlocks k n bytes)
      = (sackExtract n bytes).map fun b => (b.1 + k, b.2 + k) := by
  fun_induction shiftBlocks k n bytes with
  | case1 n a b c d e f g h rest ih =>
      obtain ⟨a₁, b₁, c₁, d₁, hl, hleft⟩ := be32_beBytes (be32 a b c d + k)
      obtain ⟨a₂, b₂, c₂, d₂, hr, hright⟩ := be32_beBytes (be32 e f g h + k)
      rw [hl, hr]
      show (be32 a₁ b₁ c₁ d₁, be32 a₂ b₂ c₂ d₂) :: sackExtract n (shiftBlocks k n rest) = _
      rw [hleft, hright, ih]
      rfl
  | case2 n bytes hno =>
      have hnil : sackExtract n bytes = [] := by
        unfold sackExtract
        split
        · rename_i a b c d e f g h rest
          exact absurd rfl (hno _ a b c d e f g h rest rfl)
        · rfl
      rw [hnil]
      rfl

theorem shiftBlocks_length (k : W) (n : Nat) (bytes : List Byte) :
    (shiftBlocks k n bytes).length = bytes.length := by
  fun_induction shiftBlocks k n bytes with
  | case1 n a b c d e f g h rest ih =>
      simp only [List.length_append, ih, beBytes, List.length_map, List.length_cons,
        List.length_nil]
      omega
  | case2 n bytes hno => rfl

theorem shiftBlocks_drop (k : W) (n : Nat) (bytes : List Byte) {m : Nat} (h : 8 * n ≤ m) :
    (shiftBlocks k n bytes).drop m = bytes.drop m := by
  fun_induction shiftBlocks k n bytes generalizing m with
  | case1 n a b c d e f g h' rest ih =>
      obtain ⟨m', rfl⟩ : ∃ m', m = m' + 8 := ⟨m - 8, by omega⟩
      have := ih (m := m') (by omega)
      simpa [beBytes] using this
  | case2 n bytes hno => rfl

theorem shiftItem_length (k : W) (bytes : List Byte) :
    (shiftItem k bytes).length = bytes.length := by
  unfold shiftItem
  split
  · split
    · simp only [List.length_cons, shiftBlocks_length]
    · rfl
  · rfl

theorem shiftSackFrom_length (k : W) (n : Nat) (opts : List Byte) :
    (shiftSackFrom k n opts).length = opts.length := by
  fun_induction shiftSackFrom k n opts with
  | case1 | case2 | case3 | case5 | case6 => rfl
  | case4 n rest _ ih => simp only [List.length_cons, ih]
  | case7 => exact shiftItem_length k _
  | case8 n kind _ _ len body _ _ ih =>
      rw [List.length_append, ih, List.length_take, List.length_drop]
      omega

section
variable {want : Byte → Byte → Bool} {k : W} {n : Nat} {kind len : Byte} {body tail : List Byte}

theorem take_append_item (hlen : ¬ len < 2) :
    ∃ body', (kind :: len :: body).take len.toNat ++ tail = kind :: len :: body' := by
  have htwo : 2 ≤ len.toNat := by
    have := UInt8.not_lt.mp hlen
    exact UInt8.le_iff_toNat_le.mp this
  obtain ⟨m, hm⟩ := Nat.exists_eq_add_of_le htwo
  rw [hm, Nat.add_comm 2 m]
  exact ⟨body.take m ++ tail, rfl⟩

theorem drop_take_append {xs ys : List Byte} {m : Nat} (h : xs.drop m = [] → ys = []) :
    (xs.take m ++ ys).drop m = ys := by
  rcases Nat.lt_or_ge xs.length m with hlt | hge
  · rw [h (List.drop_eq_nil_of_le (Nat.le_of_lt hlt)), List.append_nil]
    exact List.drop_eq_nil_of_le (by rw [List.length_take]; omega)
  · exact List.drop_left' (by rw [List.length_take]; omega)

theorem shiftSackFrom_nil (k : W) (n : Nat) : shiftSackFrom k n [] = [] := by
  cases n <;> rfl

theorem optWalk_shiftSack (k : W) : ∀ (n : Nat) (opts : List Byte),
    optWalk (fun kind _ => kind = 5) n (shiftSackFrom k n opts)
      = (optWalk (fun kind _ => kind = 5) n opts).map (shiftItem k) := by
  intro n opts
  fun_induction shiftSackFrom k n opts with
  | case1 | case2 => rfl
  | case3 n rest => simp [optWalk]
  | case4 n rest hk ih => simpa [optWalk] using ih
  | case5 n kind h0 h1 => simp [optWalk, h0, h1]
  | case6 n kind h0 h1 len body hlen => simp [optWalk, h0, h1, hlen]
  | case7 n len body hlen =>
      have hitem : ∃ body', shiftItem k (5 :: len :: body) = 5 :: len :: body' := by
        rw [shiftItem]
        split
        · exact ⟨_, rfl⟩
        · exact ⟨_, rfl⟩
      obtain ⟨body', hbody⟩ := hitem
      rw [hbody, optWalk_item (by decide) (by decide) hlen,
        optWalk_item (by decide) (by decide) hlen]
      simp [hbody]
  | case8 n kind h0 h1 len body hlen h5 ih =>
      obtain ⟨body', hbody⟩ := @take_append_item kind len body
        (shiftSackFrom k n ((kind :: len :: body).drop len.toNat)) hlen
      rw [hbody, optWalk_item h0 h1 hlen, optWalk_item h0 h1 hlen, ← hbody,
        drop_take_append fun h => by rw [h, shiftSackFrom_nil]]
      simpa [h5] using ih

/-- The search for the timestamps steps over the SACK option, and over what `shiftSack` rewrote. -/
theorem shiftItem_drop (hlen : ¬ len < 2) :
    (shiftItem k (kind :: len :: body)).drop len.toNat
      = (kind :: len :: body).drop len.toNat := by
  have htwo : 2 ≤ len.toNat := UInt8.le_iff_toNat_le.mp (UInt8.not_lt.mp hlen)
  obtain ⟨m, hm⟩ := Nat.exists_eq_add_of_le htwo
  rw [shiftItem]
  split
  · rw [hm, Nat.add_comm 2 m]
    show (shiftBlocks k _ body).drop m = body.drop m
    exact shiftBlocks_drop k _ body (by omega)
  · rfl

theorem take_take_append {xs ys : List Byte} {m : Nat} (h : xs.drop m = [] → ys = []) :
    (xs.take m ++ ys).take m = xs.take m := by
  rcases Nat.lt_or_ge xs.length m with hlt | hge
  · rw [h (List.drop_eq_nil_of_le (Nat.le_of_lt hlt)), List.append_nil, List.take_take,
      Nat.min_self]
  · exact List.take_left' (by rw [List.length_take]; omega)

theorem optWalk_tsopt (k : W) : ∀ (n : Nat) (opts : List Byte),
    (optWalk (fun kind len => kind = 8 && len = 10) n (shiftSackFrom k n opts)).map (List.take 10)
      = (optWalk (fun kind len => kind = 8 && len = 10) n opts).map (List.take 10) := by
  intro n opts
  fun_induction shiftSackFrom k n opts with
  | case1 | case2 => rfl
  | case3 n rest => simp [optWalk]
  | case4 n rest hk ih => simpa [optWalk] using ih
  | case5 n kind h0 h1 => simp [optWalk, h0, h1]
  | case6 n kind h0 h1 len body hlen => simp [optWalk, h0, h1, hlen]
  | case7 n len body hlen =>
      have hitem : ∃ body', shiftItem k (5 :: len :: body) = 5 :: len :: body' := by
        rw [shiftItem]
        split
        · exact ⟨_, rfl⟩
        · exact ⟨_, rfl⟩
      obtain ⟨body', hbody⟩ := hitem
      rw [hbody, optWalk_item (by decide) (by decide) hlen,
        optWalk_item (by decide) (by decide) hlen, ← hbody, shiftItem_drop hlen]
      simp
  | case8 n kind h0 h1 len body hlen h5 ih =>
      obtain ⟨body', hbody⟩ := @take_append_item kind len body
        (shiftSackFrom k n ((kind :: len :: body).drop len.toNat)) hlen
      have hnil : (kind :: len :: body).drop len.toNat = [] →
          shiftSackFrom k n ((kind :: len :: body).drop len.toNat) = [] := by
        intro h
        rw [h, shiftSackFrom_nil]
      rw [hbody, optWalk_item h0 h1 hlen, optWalk_item h0 h1 hlen, ← hbody]
      split
      · rename_i hwant
        have hten : len = 10 := by
          simp only [Bool.and_eq_true, decide_eq_true_eq] at hwant
          exact hwant.2
        subst hten
        exact congrArg some (take_take_append hnil)
      · rw [drop_take_append hnil]
        exact ih

end

/-- What `tcp_parse_tsopt` reads of the option. -/
def tsvalOf : List Byte → Option W
  | _ :: _ :: a :: b :: c :: d :: _ :: _ :: _ :: _ :: _ => some (be32 a b c d)
  | _ => none

theorem tsvalOf_take : ∀ bytes : List Byte, tsvalOf (bytes.take 10) = tsvalOf bytes
  | [] | [_] | [_, _] | [_, _, _] | [_, _, _, _] | [_, _, _, _, _] | [_, _, _, _, _, _]
  | [_, _, _, _, _, _, _] | [_, _, _, _, _, _, _, _] | [_, _, _, _, _, _, _, _, _] => rfl
  | _ :: _ :: _ :: _ :: _ :: _ :: _ :: _ :: _ :: _ :: _ => rfl

theorem tcpParseTsopt_eq (opts : List Byte) : tcpParseTsopt opts =
    ((findOpt (fun kind len => kind = 8 && len = 10) opts).map (List.take 10)).bind tsvalOf := by
  unfold tcpParseTsopt
  cases findOpt (fun kind len => kind = 8 && len = 10) opts with
  | none => rfl
  | some bytes =>
      rw [Option.map_some, Option.bind_some, tsvalOf_take]
      unfold tsvalOf
      split
      · rename_i heq
        cases heq
        rfl
      · rename_i hno
        split
        · exact absurd rfl (hno _ _ _ _ _ _ _ _ _ _ _)
        · rfl

/-- **The timestamps are not touched.** -/
@[simp] theorem tcpParseTsopt_shiftSack (k : W) (opts : List Byte) :
    tcpParseTsopt (shiftSack k opts) = tcpParseTsopt opts := by
  rw [tcpParseTsopt_eq, tcpParseTsopt_eq, findOpt, findOpt, shiftSack, shiftSackFrom_length,
    optWalk_tsopt]

/-- **The edges are shifted.** -/
theorem tcpParseSackBlocks_shiftSack (k : W) (opts : List Byte) :
    tcpParseSackBlocks (shiftSack k opts)
      = (tcpParseSackBlocks opts).map fun b => (b.1 + k, b.2 + k) := by
  unfold tcpParseSackBlocks
  rw [findOpt, findOpt, shiftSack, shiftSackFrom_length, optWalk_shiftSack]
  cases optWalk (fun kind _ => kind = 5) opts.length opts with
  | none => rfl
  | some item =>
      match item with
      | [] | [_] => rfl
      | kind :: len :: body =>
          rw [Option.map_some, shiftItem]
          by_cases hle : len.toNat ≤ (kind :: len :: body).length
          · have hle' : len.toNat ≤ (kind :: len ::
                shiftBlocks k (min ((len.toNat - 2) / 8) 4) body).length := by
              simpa [shiftBlocks_length] using hle
            rw [if_pos hle]
            simp only [if_pos hle, if_pos hle', sackExtract_shiftBlocks]
          · rw [if_neg hle]
            simp only [if_neg hle, List.map_nil]

/-! ## The shift -/

/-- 0 stands for no recovery. -/
def shiftRecover (k r : W) : W := if r = 0 then 0 else r + k

def OooSlot.shift (k : W) (s : OooSlot) : OooSlot := { s with seq := s.seq + k }

def Frame.shiftOut (k k' : W) (f : Frame) : Frame :=
  { f with seq := f.seq + k, ack := f.ack + k' }

def Frame.shiftIn (k k' : W) (f : Frame) : Frame :=
  { f with seq := f.seq + k', ack := f.ack + k, opts := shiftSack k f.opts }

def Conn.shift (k k' : W) (c : Conn) : Conn :=
  { c with
    sndUna := c.sndUna + k
    sndNxt := c.sndNxt + k
    sackRecover := shiftRecover k c.sackRecover
    rcvNxt := c.rcvNxt + k'
    oooSlots := c.oooSlots.map (OooSlot.shift k')
    rtxbuf := c.rtxbuf.shiftOut k k' }

def Obs.shift (k k' : W) : Obs → Obs
  | .opened i syn synAck => .opened i (syn.shiftIn k k') (synAck.shiftOut k k')
  | .accepted i f => .accepted i (f.shiftOut k k')
  | .finSent i f => .finSent i (f.shiftOut k k')
  | .resent i f => .resent i (f.shiftOut k k')
  | .probed i f => .probed i (f.shiftOut k k')
  | .consumed i bytes => .consumed i bytes

def Local.shift (k k' : W) (l : Local) : Local :=
  ⟨l.conn.shift k k', l.pool, l.log.map (Obs.shift k k')⟩

def HRes.shift (k k' : W) : HRes → HRes
  | .reply f => .reply (f.shiftOut k k')
  | .quiet => .quiet
  | .rst => .rst

/-! ## What is done on differences -/

section
variable {env : Env} {now : Tick} {i : Slot} {f : Frame} {l : Local} {c : Conn} {k k' : W}

theorem sub_shift (a b k : W) : a + k - (b + k) = a - b := by bv_omega

theorem shift_add (a n k : W) : a + k + n = a + n + k := by ac_rfl

@[simp] theorem add_shift_inj {a b k : W} : a + k = b + k ↔ a = b := BitVec.add_left_inj k

@[simp] theorem inFlight_shift : (c.shift k k').inFlight = c.inFlight := sub_shift _ _ _

@[simp] theorem segTs_shift : segTs (f.shiftIn k k') (c.shift k k') = segTs f c := by
  show (if c.tsEnabled then tcpParseTsopt (shiftSack k f.opts) else none) = _
  rw [tcpParseTsopt_shiftSack]
  rfl

@[simp] theorem pawsFails_shift : pawsFails (f.shiftIn k k') (c.shift k k') = pawsFails f c := by
  unfold pawsFails
  rw [segTs_shift]
  rfl

@[simp] theorem commitTs_shift :
    commitTs (f.shiftIn k k') (c.shift k k') = (commitTs f c).shift k k' := by
  unfold commitTs
  rw [segTs_shift]
  cases segTs f c with
  | none => rfl
  | some v =>
      dsimp only
      split <;> rfl

theorem tcpRtxArm_shift :
    tcpRtxArm env now i (l.shift k k') = (tcpRtxArm env now i l).shift k k' := by
  unfold tcpRtxArm
  split <;> rfl

theorem startTimewait_shift :
    startTimewait env now i (l.shift k k') = (startTimewait env now i l).shift k k' := by
  unfold startTimewait
  split <;> rfl

theorem tcpPersistArm_shift :
    tcpPersistArm env now i (l.shift k k') = (tcpPersistArm env now i l).shift k k' := by
  unfold tcpPersistArm
  split <;> rfl

theorem eakWindow_shift : eakWindow env now i (f.shiftIn k k') (l.shift k k')
    = (eakWindow env now i f l).shift k k' := by
  have hwin : scaledWindow (f.shiftIn k k') (l.shift k k').conn = scaledWindow f l.conn := rfl
  unfold eakWindow
  rw [hwin]
  dsimp only
  split
  · show (if l.conn.persistShift = 0 then _ else _) = _
    split
    · rw [← tcpPersistArm_shift]
      rfl
    · rfl
  · rfl

theorem eakAdvance_shift :
    eakAdvance (f.shiftIn k k') (c.shift k k') = (eakAdvance f c).shift k k' := by
  have hacked : (f.shiftIn k k').ack - (c.shift k k').sndUna = f.ack - c.sndUna :=
    sub_shift _ _ _
  unfold eakAdvance
  rw [hacked]
  rfl

theorem eakRtt_shift : eakRtt env now (c.shift k k') = (eakRtt env now c).shift k k' := by
  unfold eakRtt
  show (if c.rtxcount = 0 ∧ c.sendTick ≠ 0 then _ else _) = _
  split
  · unfold tcpRttUpdate
    show (_ : Conn) = _
    dsimp only
    by_cases hzero : c.srtt = 0
    · have hzero' : (c.shift k k').srtt = 0 := hzero
      rw [if_pos hzero, if_pos hzero']
      rfl
    · have hzero' : ¬ (c.shift k k').srtt = 0 := hzero
      rw [if_neg hzero, if_neg hzero']
      rfl
  · rfl

/-! ### Out-of-order data -/

theorem oooFits_shift : oooFits (f.shiftIn k k') (c.shift k k') = oooFits f c := by
  have hgap : (f.shiftIn k k').seq - (c.shift k k').rcvNxt = f.seq - c.rcvNxt := sub_shift _ _ _
  have hcount : (c.shift k k').oooSlots.length = c.oooSlots.length := List.length_map _
  unfold oooFits
  rw [hgap, hcount]
  rfl

theorem storeOoo_shift :
    storeOoo (f.shiftIn k k') (c.shift k k') = (storeOoo f c).shift k k' := by
  simp only [storeOoo, Conn.shift, Frame.shiftIn, sub_shift, List.map_append, List.map_cons,
    List.map_nil, OooSlot.shift]

theorem swapRemove_map {α β : Type} (g : α → β) (xs : List α) (n : Nat) :
    swapRemove (xs.map g) n = (swapRemove xs n).map g := by
  unfold swapRemove
  rw [List.getLast?_map]
  cases xs.getLast? with
  | none => rfl
  | some x => simp only [Option.map_some, List.map_dropLast, List.map_set]

theorem oooMerge_shift (n : Nat) : ∀ c : Conn,
    oooMerge n (c.shift k k') = (oooMerge n c).shift k k' := by
  induction n with
  | zero => exact fun _ => rfl
  | succ n ih =>
      intro c
      have hfind : ((c.shift k k').oooSlots.findIdx? fun s => s.seq = (c.shift k k').rcvNxt)
          = c.oooSlots.findIdx? fun s => s.seq = c.rcvNxt := by
        show ((c.oooSlots.map (OooSlot.shift k')).findIdx? fun s => s.seq = c.rcvNxt + k') = _
        rw [List.findIdx?_map]
        congr 1
        funext s
        simp [OooSlot.shift]
      rw [oooMerge, oooMerge, hfind]
      cases c.oooSlots.findIdx? fun s => s.seq = c.rcvNxt with
      | none => rfl
      | some m =>
          have hlen : ((c.shift k k').oooSlots[m]?.map OooSlot.len).getD 0
              = (c.oooSlots[m]?.map OooSlot.len).getD 0 := by
            show (((c.oooSlots.map (OooSlot.shift k'))[m]?).map OooSlot.len).getD 0 = _
            rw [List.getElem?_map, Option.map_map]
            rfl
          have hnext : c.rcvNxt + k' + BitVec.ofNat 32 ((c.oooSlots[m]?.map OooSlot.len).getD 0)
              = c.rcvNxt + BitVec.ofNat 32 ((c.oooSlots[m]?.map OooSlot.len).getD 0) + k' :=
            shift_add _ _ _
          dsimp only
          rw [hlen, ← ih]
          simp only [Conn.shift, swapRemove_map, hnext]

theorem acceptData_shift :
    acceptData (f.shiftIn k k') (c.shift k k') = (acceptData f c).shift k k' := by
  have hnext : c.rcvNxt + k' + BitVec.ofNat 32 f.payload.length
      = c.rcvNxt + BitVec.ofNat 32 f.payload.length + k' :=
    shift_add _ _ _
  unfold acceptData
  dsimp only
  rw [← oooMerge_shift]
  simp only [Conn.shift, Frame.shiftIn, List.length_map, hnext]

/-! ### The hole search and fast retransmit -/

theorem sackCovering_shift (blocks : List (W × W)) (pos : W) :
    sackCovering (blocks.map fun b => (b.1 + k, b.2 + k)) (pos + k)
      = (sackCovering blocks pos).map (· + k) := by
  have hcover : ((fun b : W × W => decide (pos + k - b.1 < b.2 - b.1)) ∘
      fun b : W × W => (b.1 + k, b.2 + k)) = fun b => decide (pos - b.1 < b.2 - b.1) := by
    funext b
    simp only [Function.comp_apply, sub_shift]
  unfold sackCovering
  rw [List.find?_map, hcover, Option.map_map, Option.map_map]
  rfl

section
variable {c' : Conn} (huna : c'.sndUna = c.sndUna + k) (hflight : c'.inFlight = c.inFlight)
include huna hflight

theorem sackHoleFrom_shift (blocks : List (W × W)) (n : Nat) : ∀ off : W,
    sackHoleFrom c' (blocks.map fun b => (b.1 + k, b.2 + k)) n off
      = sackHoleFrom c blocks n off := by
  induction n with
  | zero => exact fun _ => rfl
  | succ n ih =>
      intro off
      have hpos : c'.sndUna + off = c.sndUna + off + k := by rw [huna, shift_add]
      rw [sackHoleFrom, sackHoleFrom, hflight, hpos, sackCovering_shift]
      split
      · rfl
      · cases sackCovering blocks (c.sndUna + off) with
        | none => rfl
        | some right =>
            have hright : right + k - c'.sndUna = right - c.sndUna := by
              rw [huna]
              exact sub_shift _ _ _
            show sackHoleFrom c' _ n (right + k - c'.sndUna) = _
            rw [hright]
            exact ih _

theorem fastRtxOffset_shift (hsack : c'.sackEnabled = c.sackEnabled) :
    fastRtxOffset c' (f.shiftIn k k') = fastRtxOffset c f := by
  unfold fastRtxOffset
  rw [hsack]
  show (if c.sackEnabled then
    tcpSackFindHole c' (tcpParseSackBlocks (shiftSack k f.opts)) else some 0) = _
  rw [tcpParseSackBlocks_shiftSack]
  unfold tcpSackFindHole sackFuel
  rw [List.length_map, sackHoleFrom_shift huna hflight]
  simp only [List.map_eq_nil_iff]

end

theorem tcpSndbufBuildFrameAt_shift (off : W) :
    tcpSndbufBuildFrameAt env now (c.shift k k') off
      = (tcpSndbufBuildFrameAt env now c off).map (Frame.shiftOut k k') := by
  have hseq : (c.shift k k').sndUna + off = c.sndUna + off + k := shift_add _ _ _
  unfold tcpSndbufBuildFrameAt
  rw [inFlight_shift]
  split
  · rfl
  · rw [hseq]
    rfl

/-- Store `SACK_RECOVER`. -/
def Local.withRecover (l : Local) (r : W) : Local :=
  { l with conn := { l.conn with sackRecover := r } }

def Conn.recovering (c : Conn) : Conn :=
  { c with
    sackRecover := c.sndNxt
    ssthresh := c.halved
    cwnd := capCwnd (c.halved + c.mss * 3) }

theorem tcpFastRetransmit_eq : tcpFastRetransmit env now i f l =
    if env.hasSendFn then
      (fastRtxOffset l.conn.recovering f).map fun off =>
        match tcpSndbufBuildFrameAt env now l.conn.recovering off with
        | none => { l with conn := l.conn.recovering }
        | some g =>
            tcpRtxArm env now i
              { l with conn := { l.conn.recovering with rtxcount := 0 }, log := .resent i g :: l.log }
    else some { l with conn := l.conn.recovering } := rfl

theorem tcpRtxArm_withRecover (r : W) :
    tcpRtxArm env now i (l.withRecover r) = (tcpRtxArm env now i l).withRecover r := by
  unfold tcpRtxArm
  split <;> rfl

theorem tcpFastRetransmit_shift :
    tcpFastRetransmit env now i (f.shiftIn k k') (l.shift k k')
      = (tcpFastRetransmit env now i f l).map fun l' =>
          (l'.shift k k').withRecover (l.conn.sndNxt + k) := by
  have hoff : fastRtxOffset (l.shift k k').conn.recovering (f.shiftIn k k')
      = fastRtxOffset l.conn.recovering f :=
    fastRtxOffset_shift rfl (@inFlight_shift l.conn k k') rfl
  have hframe : ∀ off, tcpSndbufBuildFrameAt env now (l.shift k k').conn.recovering off
      = (tcpSndbufBuildFrameAt env now l.conn.recovering off).map (Frame.shiftOut k k') :=
    @tcpSndbufBuildFrameAt_shift env now l.conn.recovering k k'
  rw [tcpFastRetransmit_eq, tcpFastRetransmit_eq]
  split
  · rw [hoff, Option.map_map]
    congr 1
    funext off
    rw [hframe, Function.comp_apply]
    cases tcpSndbufBuildFrameAt env now l.conn.recovering off with
    | none => rfl
    | some g =>
        dsimp only [Option.map_some]
        rw [← tcpRtxArm_shift, ← tcpRtxArm_withRecover]
        rfl
  · rfl

end

end WsPi5

/-
# `WsPi5.Tcp.OooSlots` — the table of stored out-of-order segments

An out-of-order segment is copied into the receive buffer at its distance from RCV_NXT, and
an entry `{SEQ, LEN}` remembers it.  When in-order data arrives, `.Leak_ooo_scan` looks for
an entry that starts exactly at the new RCV_NXT, takes it, and looks again.  An entry that
starts *before* the new RCV_NXT is not looked for: it stays in the table for the rest of the
connection, and its distance from RCV_NXT, taken modulo 2^32, is no longer one inside the
buffer.

**Proved here** (`ooo_bookkeeping`), for every run: as long as in-order data is taken only
while that segment and the stored ranges lie apart from one another, every entry is strictly
ahead of RCV_NXT and inside the buffer, there are at most four, and RXLEN fits.  Taking bytes
from the buffer needs no condition, and neither does storing: an overlap among the stored
ranges does harm only when the first of them is merged.

**The loop** (`oooMerge_entries`).  Between two rounds an entry may start at RCV_NXT itself.
When the loop stops none does: either the scan has found none, or each entry had its round.
-/
import WsPi5.Tcp.NetCalls
import Mathlib.Data.List.Perm.Basic

namespace WsPi5

open Lib

/-! ## The property and the condition -/

/-- `SEQ - RCV_NXT`, the distance of a stored segment. -/
def Conn.gap (c : Conn) (s : OooSlot) : Nat := (s.seq - c.rcvNxt).toNat

/-- What the receive path relies on when it writes to the buffer and advertises a window. -/
structure OooOk (c : Conn) : Prop where
  rxlen : c.rxlen ≤ tcpRxbufSize
  count : c.oooSlots.length ≤ 4
  entries : ∀ s ∈ c.oooSlots, 0 < c.gap s ∧ c.rxlen + c.gap s + s.len ≤ tcpRxbufSize

def Conn.apart (c : Conn) (a b : OooSlot) : Prop :=
  c.gap a + a.len ≤ c.gap b ∨ c.gap b + b.len ≤ c.gap a

/-- The segment is taken by `.Leak_seq_ok`: an ACK segment with data that passes PAWS, starts
at RCV_NXT and fits. -/
def takenInOrder (c : Conn) (f : Frame) : Prop :=
  tcpClassifyEvent f = some .ack ∧ pawsFails f c = false ∧ f.payload ≠ [] ∧
    f.seq = c.rcvNxt ∧ c.rxlen + f.payload.length ≤ tcpRxbufSize

/-- The segment ends before every stored range begins, and the stored ranges lie apart. -/
def clearOfStored (c : Conn) (f : Frame) : Prop :=
  (∀ s ∈ c.oooSlots, f.payload.length ≤ c.gap s) ∧ c.oooSlots.Pairwise c.apart

/-- What the theorem asks of a step: in ESTABLISHED, in-order data is taken only clear of what
is stored.  (IPv4 bounds a payload by 16 bits.) -/
def mergesClear (i : Slot) (t : Tcp) (e : Event) : Prop :=
  match e.call with
  | .rx f => t.exactMatch f = some i → (t.conn i).state = .established →
      f.payload.length < 65536 ∧ (takenInOrder (t.conn i) f → clearOfStored (t.conn i) f)
  | _ => True

instance decApart (c : Conn) : DecidableRel c.apart :=
  fun _ _ => inferInstanceAs (Decidable (_ ∨ _))

instance decTakenInOrder (c : Conn) (f : Frame) : Decidable (takenInOrder c f) :=
  inferInstanceAs (Decidable (_ ∧ _))

instance decClearOfStored (c : Conn) (f : Frame) : Decidable (clearOfStored c f) :=
  inferInstanceAs (Decidable (_ ∧ _))

instance decMergesClear (i : Slot) (t : Tcp) : ∀ e, Decidable (mergesClear i t e)
  | ⟨_, .rx _⟩ => inferInstanceAs (Decidable (_ → _ → _ ∧ _))
  | ⟨_, .send _ _⟩ | ⟨_, .close _⟩ | ⟨_, .consume _ _⟩ | ⟨_, .flush _⟩ | ⟨_, .icmpErr _ _ _ _⟩
  | ⟨_, .visit _⟩ | ⟨_, .listen _⟩ | ⟨_, .startReaper⟩ | ⟨_, .otherSet _ _⟩
  | ⟨_, .otherCancel _⟩ => isTrue trivial

/-! ## Removing an entry -/

theorem swapRemove_perm {α : Type} {xs : List α} {k : Nat} (h : k < xs.length) :
    (xs[k] :: swapRemove xs k).Perm xs := by
  have hne : xs ≠ [] := List.ne_nil_of_length_pos (by omega)
  obtain ⟨ys, x, rfl⟩ : ∃ ys x, xs = ys ++ [x] :=
    ⟨xs.dropLast, xs.getLast hne, (List.dropLast_append_getLast hne).symm⟩
  have hlast : (ys ++ [x]).getLast? = some x := by simp
  rw [swapRemove, hlast]
  dsimp only
  rcases Nat.lt_or_ge k ys.length with hk | hk
  · -- an inner entry is overwritten by the last one
    have hset : ((ys ++ [x]).set k x).dropLast = ys.set k x := by
      rw [List.set_append_left _ _ hk, List.dropLast_concat]
    rw [hset, List.getElem_append_left hk]
    have hmoved : (ys[k] :: ys.set k x).Perm (x :: ys[k] :: ys.eraseIdx k) :=
      ((List.set_perm_cons_eraseIdx hk x).cons _).trans (.swap ..)
    have hback : (x :: ys[k] :: ys.eraseIdx k).Perm (x :: ys) :=
      (List.getElem_cons_eraseIdx_perm hk).cons _
    exact (hmoved.trans hback).trans (List.perm_append_singleton x ys).symm
  · -- the last entry is dropped
    have hk' : k = ys.length := by
      simp only [List.length_append, List.length_singleton] at h
      omega
    subst hk'
    have hset : ((ys ++ [x]).set ys.length x).dropLast = ys := by
      rw [List.set_append_right _ _ (Nat.le_refl _), Nat.sub_self, List.set_cons_zero,
        List.dropLast_concat]
    rw [hset, List.getElem_concat_length rfl]
    exact (List.perm_append_singleton x ys).symm

/-! ## The merge loop -/

/-- The state between two rounds: an entry may start at RCV_NXT. -/
structure Merging (c : Conn) : Prop where
  rxlen : c.rxlen ≤ tcpRxbufSize
  room : ∀ s ∈ c.oooSlots, c.rxlen + c.gap s + s.len ≤ tcpRxbufSize
  filled : ∀ s ∈ c.oooSlots, 0 < s.len
  apart : c.oooSlots.Pairwise c.apart

theorem gap_eq_zero {c : Conn} {s : OooSlot} : c.gap s = 0 ↔ s.seq = c.rcvNxt := by
  have hzero : c.gap s = 0 ↔ s.seq - c.rcvNxt = 0 := BitVec.toNat_inj (y := 0)
  rw [hzero]
  constructor <;> intro h <;> bv_omega

theorem gap_advance {c c' : Conn} {s : OooSlot} {n : Nat} (hn : n ≤ c.gap s)
    (hnxt : c'.rcvNxt = c.rcvNxt + BitVec.ofNat 32 n) : c'.gap s = c.gap s - n := by
  have hlt : (s.seq - c.rcvNxt).toNat < 2 ^ 32 := (s.seq - c.rcvNxt).isLt
  have hsub : s.seq - c'.rcvNxt = s.seq - c.rcvNxt - BitVec.ofNat 32 n := by
    rw [hnxt]
    bv_omega
  unfold Conn.gap at hn ⊢
  rw [hsub, BitVec.toNat_sub, BitVec.toNat_ofNat]
  omega

theorem Merging.advance {c c' : Conn} {n : Nat} (h : Merging c)
    (hn : ∀ s ∈ c'.oooSlots, n ≤ c.gap s) (hsub : ∀ s ∈ c'.oooSlots, s ∈ c.oooSlots)
    (hapart : c'.oooSlots.Pairwise c.apart) (hfit : c.rxlen + n ≤ tcpRxbufSize)
    (hnxt : c'.rcvNxt = c.rcvNxt + BitVec.ofNat 32 n) (hlen : c'.rxlen = c.rxlen + n) :
    Merging c' where
  rxlen := hlen ▸ hfit
  room := by
    intro s hs
    have hroom := h.room s (hsub s hs)
    have hle := hn s hs
    rw [gap_advance hle hnxt, hlen]
    omega
  filled := fun s hs => h.filled s (hsub s hs)
  apart := by
    refine hapart.imp_of_mem fun {a b} ha hb hab => ?_
    have hle := hn a ha
    have hle' := hn b hb
    unfold Conn.apart at hab ⊢
    rw [gap_advance hle hnxt, gap_advance hle' hnxt]
    omega

/-- **The loop.**  With a round for each entry, no entry that is left starts at RCV_NXT. -/
theorem oooMerge_entries : ∀ (n : Nat) {c : Conn}, c.oooSlots.length ≤ n → Merging c →
    Merging (oooMerge n c) ∧ (∀ s ∈ (oooMerge n c).oooSlots, (oooMerge n c).gap s ≠ 0) ∧
      (oooMerge n c).oooSlots.length ≤ c.oooSlots.length
  | 0, c, hlen, h => by
      have hnil : c.oooSlots = [] := List.eq_nil_of_length_eq_zero (by omega)
      exact ⟨h, by simp [oooMerge, hnil], Nat.le_refl _⟩
  | n + 1, c, hlen, h => by
      rw [oooMerge]
      split
      · -- the scan found none
        rename_i hnone
        refine ⟨h, fun s hs hzero => ?_, Nat.le_refl _⟩
        have hne : ¬ s.seq = c.rcvNxt := by
          simpa using List.findIdx?_eq_none_iff.mp hnone s hs
        exact hne (gap_eq_zero.mp hzero)
      · -- entry `k` starts at RCV_NXT; the others start where it ends, or later
        rename_i k hfound
        obtain ⟨hk, hseq⟩ := List.findIdx?_eq_some_iff_getElem.mp hfound
        have hperm := swapRemove_perm hk
        have hat : (c.oooSlots[k]).seq = c.rcvNxt := by simpa using hseq.1
        have hgap : c.gap c.oooSlots[k] = 0 := gap_eq_zero.mpr hat
        have hget : (c.oooSlots[k]?.map OooSlot.len).getD 0 = (c.oooSlots[k]).len := by
          rw [List.getElem?_eq_getElem hk]
          rfl
        have hsym : ∀ {a b}, c.apart a b → c.apart b a := Or.symm
        obtain ⟨hothers, hrest⟩ :=
          List.pairwise_cons.mp ((hperm.pairwise_iff hsym).mpr h.apart)
        have hroom := h.room _ (List.getElem_mem hk)
        have hsmall : (c.rxlen + (c.oooSlots[k]).len) % 65536
            = c.rxlen + (c.oooSlots[k]).len := by
          unfold tcpRxbufSize at hroom
          exact Nat.mod_eq_of_lt (by omega)
        have hsub : ∀ s ∈ swapRemove c.oooSlots k, s ∈ c.oooSlots := fun s => mem_swapRemove
        have hbehind : ∀ s ∈ swapRemove c.oooSlots k, (c.oooSlots[k]).len ≤ c.gap s := by
          intro s hs
          have hfilled := h.filled s (hsub s hs)
          rcases hothers s hs with hle | hle <;> omega
        have hne : c.oooSlots ≠ [] := List.ne_nil_of_length_pos (by omega)
        have hcount := swapRemove_length (k := k) hne
        dsimp only
        rw [hget, hsmall]
        obtain ⟨h₁, h₂, h₃⟩ := oooMerge_entries n
          (c := { c with
            rcvNxt := c.rcvNxt + BitVec.ofNat 32 (c.oooSlots[k]).len
            rxlen := c.rxlen + (c.oooSlots[k]).len
            oooSlots := swapRemove c.oooSlots k })
          (by dsimp only; omega)
          (h.advance hbehind hsub hrest (by omega) rfl rfl)
        exact ⟨h₁, h₂, by dsimp only at h₃; omega⟩

/-! ## The steps of the receive path -/

/-- The property, with no entry empty. -/
structure OooInv (c : Conn) : Prop extends OooOk c where
  filled : ∀ s ∈ c.oooSlots, 0 < s.len

theorem OooInv.of_rx {c c' : Conn} (h : OooInv c) (hrx : c'.rx = c.rx) : OooInv c' := by
  have hnxt : c'.rcvNxt = c.rcvNxt := congrArg Rx.rcvNxt hrx
  have hlen : c'.rxlen = c.rxlen := congrArg Rx.rxlen hrx
  have hooo : c'.oooSlots = c.oooSlots := congrArg Rx.oooSlots hrx
  refine ⟨⟨hlen ▸ h.rxlen, hooo ▸ h.count, ?_⟩, hooo ▸ h.filled⟩
  rw [hooo]
  intro s hs
  rw [Conn.gap, hnxt, hlen]
  exact h.entries s hs

theorem acceptData_oooInv {c : Conn} {f : Frame} (h : OooInv c)
    (hroom : c.rxlen + f.payload.length ≤ tcpRxbufSize) (hclear : clearOfStored c f) :
    OooInv (acceptData f c) := by
  have hstart : Merging c := ⟨h.rxlen, fun s hs => (h.entries s hs).2, h.filled, hclear.2⟩
  have hbehind : Merging { c with
      rxbuf := memWrite c.rxbuf c.rxlen f.payload
      rxlen := c.rxlen + f.payload.length
      rcvNxt := c.rcvNxt + BitVec.ofNat 32 f.payload.length } :=
    hstart.advance hclear.1 (fun _ hs => hs) hclear.2 hroom rfl rfl
  obtain ⟨hm, hne, hcount⟩ := oooMerge_entries _ (Nat.le_refl _) hbehind
  refine ⟨⟨hm.rxlen, Nat.le_trans hcount h.count, fun s hs => ⟨?_, hm.room s hs⟩⟩, hm.filled⟩
  exact Nat.pos_of_ne_zero (hne s hs)

theorem storeOoo_oooInv {c : Conn} {f : Frame} (h : OooInv c) (hdata : f.payload ≠ [])
    (hlen : f.payload.length < 65536) (hne : f.seq ≠ c.rcvNxt) (hfit : oooFits f c = true) :
    OooInv (storeOoo f c) := by
  have hroom := oooFits_spec h.rxlen hlen hfit
  have hcount : c.oooSlots.length < 4 := by
    simp only [oooFits, Bool.and_eq_true, decide_eq_true_eq] at hfit
    exact hfit.1.2
  refine ⟨⟨h.rxlen, ?_, fun s hs => ?_⟩, fun s hs => ?_⟩
  · simp only [storeOoo, List.length_append, List.length_singleton]
    omega
  · rcases List.mem_append.mp hs with hold | hnew
    · exact h.entries s hold
    · rw [List.mem_singleton.mp hnew]
      exact ⟨Nat.pos_of_ne_zero fun hzero => hne (gap_eq_zero.mp hzero), hroom⟩
  · rcases List.mem_append.mp hs with hold | hnew
    · exact h.filled s hold
    · rw [List.mem_singleton.mp hnew]
      exact List.length_pos_of_ne_nil hdata

theorem tcpRxConsume_oooInv {i : Slot} {n : Nat} {l : Local} (h : OooInv l.conn) :
    OooInv (tcpRxConsume i n l).conn := by
  have hless : ∀ c' : Conn, c'.rcvNxt = l.conn.rcvNxt → c'.rxlen ≤ l.conn.rxlen →
      c'.oooSlots = l.conn.oooSlots → OooInv c' := by
    intro c' hnxt hlen hooo
    refine ⟨⟨Nat.le_trans hlen h.rxlen, hooo ▸ h.count, ?_⟩, hooo ▸ h.filled⟩
    rw [hooo]
    intro s hs
    obtain ⟨hpos, hroom⟩ := h.entries s hs
    rw [Conn.gap, hnxt]
    exact ⟨hpos, Nat.le_trans (by unfold Conn.gap; omega) hroom⟩
  unfold tcpRxConsume
  dsimp only
  split
  · exact hless _ rfl (Nat.zero_le _) rfl
  · exact hless _ rfl (Nat.sub_le _ _) rfl

theorem OooInv.of_empty {c : Conn} (hlen : c.rxlen = 0) (hooo : c.oooSlots = []) : OooInv c where
  rxlen := by omega
  count := by simp [hooo]
  entries := by simp [hooo]
  filled := by simp [hooo]

/-! ## The ACK handler -/

/-- What comes before the PAWS test does not change its outcome. -/
theorem eakAck_paws (env : Env) (now : Tick) (i : Slot) (f : Frame) (l : Local) :
    pawsFails f (eakAck env now f (eakWindow env now i f l)).conn = pawsFails f l.conn := by
  have hpaws : ∀ c c' : Conn, c'.tsEnabled = c.tsEnabled → c'.tsRecent = c.tsRecent →
      pawsFails f c' = pawsFails f c := by
    intro c c' hts hrecent
    rw [pawsFails, pawsFails, segTs, segTs, hts, hrecent]
  have hrtt : ∀ c : Conn, (eakRtt env now c).tsRecent = c.tsRecent := by
    intro c
    unfold eakRtt tcpRttUpdate
    split
    · dsimp only
      split <;> rfl
    · rfl
  have hcwnd : ∀ c : Conn, (eakCwnd f c).tsRecent = c.tsRecent := by
    intro c
    unfold eakCwnd
    split <;> rfl
  have hwindow : (eakWindow env now i f l).conn.tsRecent = l.conn.tsRecent := by
    unfold eakWindow
    dsimp only
    split
    · split
      · rw [tcpPersistArm_conn]
      · rfl
    · rfl
  have hack : ∀ l' : Local, (eakAck env now f l').conn.tsRecent = l'.conn.tsRecent := by
    intro l'
    have hall : (eakCwnd f (eakRtt env now (eakAdvance f l'.conn))).tsRecent = l'.conn.tsRecent := by
      rw [hcwnd, hrtt]
      rfl
    unfold eakAck
    split
    · dsimp only
      split
      · exact hall
      · exact hall
    · rfl
  refine hpaws _ _ ?_ ((hack _).trans hwindow)
  exact congrArg Cfg.tsEnabled ((eakAck_cfg ..).trans (eakWindow_cfg ..))

/-- The ACK handler, on a segment that is clear of what is stored if it is taken in order. -/
theorem tcpEstabAckHandler_oooInv {env : Env} {now : Tick} {i : Slot} {f : Frame} {l l' : Local}
    {r : HRes} (h : OooInv l.conn) (hcls : tcpClassifyEvent f = some .ack)
    (hlen : f.payload.length < 65536) (hclear : takenInOrder l.conn f → clearOfStored l.conn f)
    (hc : tcpEstabAckHandler env now i f l = some (l', r)) : OooInv l'.conn := by
  unfold tcpEstabAckHandler at hc
  dsimp only at hc
  have hrx : (eakAck env now f (eakWindow env now i f l)).conn.rx = l.conn.rx := by simp
  have hinv := h.of_rx hrx
  split at hc
  · cases hc
    exact hinv
  · rename_i hpaws
    rw [eakAck_paws] at hpaws
    obtain hsame | ⟨hdata, c, hcrx, hseq, hroom, hl'⟩ | ⟨hdata, hne, hfit, hl'⟩ :=
      eakData_rx env now i f hc
    · exact hinv.of_rx hsame
    · -- `c` has the receive side of the record before the step
      have hcrx' : c.rx = l.conn.rx := hcrx.trans hrx
      have hnxt : c.rcvNxt = l.conn.rcvNxt := congrArg Rx.rcvNxt hcrx'
      have hooo : c.oooSlots = l.conn.oooSlots := congrArg Rx.oooSlots hcrx'
      have hrxlen : c.rxlen = l.conn.rxlen := congrArg Rx.rxlen hcrx'
      have hin : takenInOrder l.conn f :=
        ⟨hcls, by simpa using hpaws, hdata, hseq.trans hnxt, hrxlen ▸ hroom⟩
      have hclear' : clearOfStored c f := by
        have hgap : c.gap = l.conn.gap := by
          funext s
          rw [Conn.gap, Conn.gap, hnxt]
        have hapart : c.apart = l.conn.apart := by
          funext a b
          rw [Conn.apart, Conn.apart, hgap]
        rw [clearOfStored, hooo, hgap, hapart]
        exact hclear hin
      exact (acceptData_oooInv (h.of_rx hcrx') hroom hclear').of_rx hl'
    · exact (storeOoo_oooInv hinv hdata hlen hne hfit).of_rx hl'

/-! ## Every act -/

/-- The property, for as long as the connection receives. -/
def OooWhile (c : Conn) : Prop := c.state.rxPhase = .receiving → OooInv c

theorem OooWhile.of_ended {c : Conn} {s : TcpState} (hs : c.state = s)
    (h : s.rxPhase ≠ .receiving) : OooWhile c :=
  fun hrec => absurd hrec (hs ▸ h)

theorem OooWhile.same {c c' : Conn} (h : OooWhile c) (hrx : c'.rx = c.rx)
    (hph : c'.state.rxPhase = .receiving → c.state.rxPhase = .receiving) : OooWhile c' :=
  fun hrec => (h (hph hrec)).of_rx hrx

theorem recv_oooWhile {env : Env} {now : Tick} {i : Slot} {f : Frame} {evt : TcpEvt}
    {next : TcpState} {hd : Handler} {l l' : Local} {r : HRes} (h : OooWhile l.conn)
    (hcls : tcpClassifyEvent f = some evt)
    (hok : l.conn.state = .established → f.payload.length < 65536 ∧
      (takenInOrder l.conn f → clearOfStored l.conn f))
    (htab : tcpFsaTable l.conn.state evt = some (next, hd))
    (hc : hd.call env now i f (l.withState next) = some (l', r)) :
    OooWhile (settle now l.conn.state l' r).conn := by
  obtain ⟨hs, hnext, halt⟩ | ⟨rfl, rfl⟩ | ⟨rfl, hs, rfl⟩ | ⟨rfl, hs, rfl⟩ | ⟨rfl, hs, rfl⟩ |
    ⟨rfl, hs, rfl⟩ := tcpFsaTable_rxPhase htab
  · apply OooWhile.of_ended rfl
    obtain h₁ | h₁ := settle_state now l.conn.state l' r
    · simp [h₁, hs]
    · rw [h₁]
      obtain h₂ | h₂ := Handler.call_state hc
      · rw [h₂]
        simp [hnext]
      · simp [halt _ h₂]
  · cases hc
    exact .of_ended (s := .closed) rfl (by decide)
  · have hph : l.conn.state.rxPhase = .receiving := by rw [hs]; rfl
    simp only [Handler.call, tcpSynrcvdAckHandler] at hc
    split at hc
    · cases hc
      exact h.same rfl fun _ => hph
    · cases hc
      exact h.same rfl fun _ => hph
  · have hph : l.conn.state.rxPhase = .receiving := by rw [hs]; rfl
    obtain ⟨hlen, hclear⟩ := hok hs
    have hevt : evt = .ack := by
      rw [hs] at htab
      cases evt <;> simp_all [tcpFsaTable]
    subst hevt
    have hin : OooInv (l.withState .established).conn := (h hph).of_rx rfl
    have hout := tcpEstabAckHandler_oooInv hin hcls hlen hclear hc
    exact fun _ => hout.of_rx (settle_rx ..)
  · have hph : l.conn.state.rxPhase = .receiving := by rw [hs]; rfl
    cases hc
    dsimp only [settle, Local.stamp]
    split
    · exact .of_ended (s := .closeWait) rfl (by decide)
    · split
      · exact .of_ended (s := .closeWait) rfl (by decide)
      · exact h.same rfl fun _ => hph
  · cases hc
    exact .of_ended (s := .closeWait) rfl (by decide)

theorem tcpRetransmitCb_oooWhile {env : Env} {now : Tick} {i : Slot} {l : Local}
    (h : OooWhile l.conn) : OooWhile (tcpRetransmitCb env now i l).conn := by
  unfold tcpRetransmitCb
  split
  · exact h
  · split
    · exact .of_ended (s := .closed) rfl (by decide)
    · dsimp only
      split
      · split
        · exact h.same rfl id
        · refine h.same ?_ ?_
          · rw [tcpRtxArm_rx]
            rfl
          · rw [tcpRtxArm_state]
            exact id
      · exact h.same rfl id

/-- **Every act keeps the property.** -/
theorem SlotAct.oooWhile {env : Env} {t : Tcp} {e : Event} {i : Slot} {l l' : Local}
    (hok : mergesClear i t e) (hl : l.conn = t.conn i) (ha : SlotAct env t e i l l')
    (h : OooWhile l.conn) : OooWhile l'.conn := by
  cases ha with
  | @recv f evt next hd l₁ r hrx hmatch hcls hrst htab hcall =>
      rw [← hl] at htab ⊢
      rw [mergesClear, hrx] at hok
      dsimp only at hok
      rw [← hl] at hok
      exact recv_oooWhile h hcls (hok hmatch) htab hcall
  | opened hrx hmatch hlisten hcls halloc =>
      obtain ⟨hlen, hooo⟩ := (openSlot_fresh env e.now _ _ i _).2
      exact fun _ => .of_empty hlen hooo
  | touched => exact h.same rfl id
  | @sent p _ =>
      unfold tcpSend
      split
      · refine h.same ?_ ?_
        · simp only [tcpSendAccept, tcpRtxArm_rx]
          rfl
        · simp only [tcpSendAccept, tcpRtxArm_state]
          exact id
      · exact h
  | closed _ =>
      unfold tcpClose
      dsimp only
      split
      · exact h
      · rename_i s hs
        refine .of_ended (s := s) (by simp [tcpRtxSave, tcpRtxArm_state]) ?_
        split at hs <;> cases hs <;> decide
  | consumed _ =>
      intro hrec
      refine tcpRxConsume_oooInv (h ?_)
      revert hrec
      unfold tcpRxConsume
      dsimp only
      split <;> exact id
  | flushed _ => exact fun _ => .of_empty rfl rfl
  | tornDown _ => exact .of_ended (s := .closed) rfl (by decide)
  | retransmit _ _ => exact tcpRetransmitCb_oooWhile h
  | timewait _ _ => exact .of_ended (s := .closed) rfl (by decide)
  | persist _ _ =>
      unfold tcpPersistCb
      split
      · rw [tcpPersistArm_conn]
        exact h.same rfl id
      · exact h
  | listening _ _ => exact .of_ended (s := .listen) rfl (by decide)

/-! ## The result -/

/-- **Out-of-order bookkeeping.**  In every run that takes in-order data only clear of what is
stored, an ESTABLISHED connection's table and buffer are in order. -/
theorem ooo_bookkeeping {env : Env} {cap : PoolCap} {t : Tcp} {i : Slot}
    (hrun : Run (step env) (mergesClear i) (tcpInit cap) t)
    (hest : (t.conn i).state = .established) : OooOk (t.conn i) := by
  have hinv : OooWhile (t.conn i) :=
    slot_run (P := fun c _ => OooWhile c) hrun (fun _ _ _ _ => Iff.rfl)
      (fun hok hl _ ha h => ha.oooWhile hok hl h)
      (.of_ended (s := .closed) rfl (by decide))
  exact (hinv (by rw [hest]; rfl)).toOooOk

/-- `C` and `E` of `ABCDE` are stored, then `A` and `B` arrive: `C` is merged with `B`, and `E`
stays, one byte ahead. -/
theorem ooo_bookkeeping_demo : ∃ t : Tcp, Run (step demoEnv) (mergesClear 1) (tcpInit 16) t ∧
    (t.conn 1).state = .established ∧ (t.conn 1).oooSlots = [⟨105, 1⟩] ∧ OooOk (t.conn 1) := by
  obtain ⟨t, hrun, hst, hooo⟩ := exists_run (step demoEnv) (mergesClear 1) (tcpInit 16)
    (Q := fun t => (t.conn 1).state = .established ∧ (t.conn 1).oooSlots = [⟨105, 1⟩])
    (demoOpen ++ [⟨1, .rx (demoData 2 [67])⟩, ⟨1, .rx (demoData 4 [69])⟩,
      ⟨1, .rx (demoData 0 [65])⟩, ⟨1, .rx (demoData 1 [66])⟩])
    (by decide +kernel) (by decide +kernel)
  exact ⟨t, hrun, hst, hooo, ooo_bookkeeping hrun hst⟩

/-- `C` is stored, then `ABC` arrives in one segment: the entry of `C` is left behind. -/
theorem covered_entry_stays : ∃ t : Tcp, Run (step demoEnv) anyEvent (tcpInit 16) t ∧
    (t.conn 1).state = .established ∧ ¬ OooOk (t.conn 1) := by
  obtain ⟨t, hrun, hst, hnxt, hooo⟩ := exists_run (step demoEnv) anyEvent (tcpInit 16)
    (Q := fun t => (t.conn 1).state = .established ∧ (t.conn 1).rcvNxt = 104 ∧
      (t.conn 1).oooSlots = [⟨103, 1⟩])
    (demoOpen ++ [⟨1, .rx (demoData 2 [67])⟩, ⟨1, .rx (demoData 0 [65, 66, 67])⟩])
    (by decide +kernel) (by decide +kernel)
  refine ⟨t, hrun, hst, fun hok => ?_⟩
  have hbad := (hok.entries ⟨103, 1⟩ (by simp [hooo])).2
  have hgap : (t.conn 1).gap ⟨103, 1⟩ = 2 ^ 32 - 1 := by
    rw [Conn.gap, hnxt]
    rfl
  rw [hgap] at hbad
  unfold tcpRxbufSize at hbad
  omega

end WsPi5

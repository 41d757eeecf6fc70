/-
# `WsPi5.Tcp.SackHole` — the search of `tcp_sack_find_hole`

From `SND_UNA` the search goes to the right edge of the first block that covers the position, and
from there on in the same way.  It stops where no block covers the position, and past `SND_NXT`.

    position is past SND_NXT            offset 0
    no block covers the position        this offset
    block b is the first that does      on from the right edge of b

Nothing in the code keeps the position from going back: a block covers `p` if `p - left` is less
than `right - left`, both taken modulo 2^32, and `right` may lie before `SND_UNA + offset`.  So two
blocks of one option can send the search back and forth for ever (`sack_blocks_loop`).

**Proved here.**  A search that stops enters no block twice, since where it goes from a block
depends on the block alone (`Leads.nodup`).  Hence it returns, and with a hole, exactly if its way
from `SND_UNA` leaves the blocks before it comes to one of them again (`sack_find_hole_iff`), and
it has then made at most one jump for each block (`tcpSackFindHole_eq`).  Blocks whose right edge is
not before the left one, counted from `SND_UNA`, cannot send it back (`sack_find_hole_ordered`).
-/
import Mathlib.Data.List.Perm.Subperm
import WsPi5.Tcp.Ops

namespace WsPi5

/-- A block covers a position: `left <= position < right` as the code compares them. -/
def sackCovers (b : W × W) (pos : W) : Prop := pos - b.1 < b.2 - b.1

instance (b : W × W) (pos : W) : Decidable (sackCovers b pos) :=
  inferInstanceAs (Decidable (_ < _))

/-- The first block that covers the position at an offset. -/
def sackFirst (c : Conn) (blocks : List (W × W)) (off : W) : Option (W × W) :=
  blocks.find? fun b => sackCovers b (c.sndUna + off)

/-- The way from an offset through the blocks of the list, each the first that covers where the
one before it ends, to a position where the search stops. -/
def Leads (c : Conn) (blocks : List (W × W)) : W → List (W × W) → Prop
  | off, [] => c.inFlight ≤ off ∨ sackFirst c blocks off = none
  | off, b :: way =>
      off < c.inFlight ∧ sackFirst c blocks off = some b ∧ Leads c blocks (b.2 - c.sndUna) way

/-- The way from `SND_UNA` leaves the blocks. -/
def LeavesBlocks (c : Conn) (blocks : List (W × W)) : Prop :=
  ∃ way : List (W × W), Leads c blocks 0 way

/-- `tcp_sack_find_hole` returns `off`, after however many jumps. -/
def SackReturns (c : Conn) (blocks : List (W × W)) (off : W) : Prop :=
  if blocks = [] then off = 0 else ∃ n, sackHoleFrom c blocks n 0 = some off

/-- 0, or an offset below `SND_NXT - SND_UNA` whose position is in no block. -/
def IsHole (c : Conn) (blocks : List (W × W)) (off : W) : Prop :=
  off = 0 ∨ off < c.inFlight ∧ ∀ b ∈ blocks, ¬sackCovers b (c.sndUna + off)

section
variable {c : Conn} {blocks way way' : List (W × W)} {off : W}

theorem sackCovering_eq (c : Conn) (blocks : List (W × W)) (off : W) :
    sackCovering blocks (c.sndUna + off) = (sackFirst c blocks off).map Prod.snd := rfl

/-! ## Ways -/

theorem Leads.unique (h : Leads c blocks off way) (h' : Leads c blocks off way') :
    way = way' := by
  induction way generalizing off way' with
  | nil =>
      cases way' with
      | nil => rfl
      | cons b way' =>
          obtain ⟨hlt, hb, _⟩ := h'
          rcases h with hle | hnone
          · exact absurd hlt (BitVec.not_lt.mpr hle)
          · rw [hnone] at hb
            cases hb
  | cons b way ih =>
      obtain ⟨hlt, hb, hrest⟩ := h
      cases way' with
      | nil =>
          rcases h' with hle | hnone
          · exact absurd hlt (BitVec.not_lt.mpr hle)
          · rw [hnone] at hb
            cases hb
      | cons b' way' =>
          obtain ⟨_, hb', hrest'⟩ := h'
          obtain rfl : b = b' := Option.some.inj (hb.symm.trans hb')
          rw [ih hrest hrest']

theorem Leads.after {b : W × W} {pre post : List (W × W)}
    (h : Leads c blocks off (pre ++ b :: post)) : Leads c blocks (b.2 - c.sndUna) post := by
  induction pre generalizing off with
  | nil => exact h.2.2
  | cons a pre ih => exact ih h.2.2

/-- **A way enters no block twice**: from the block on it would be its own rest. -/
theorem Leads.nodup (h : Leads c blocks off way) : way.Nodup := by
  induction way generalizing off with
  | nil => exact List.nodup_nil
  | cons b way ih =>
      obtain ⟨_, _, hrest⟩ := h
      refine List.nodup_cons.mpr ⟨?_, ih hrest⟩
      intro hmem
      obtain ⟨pre, post, rfl⟩ := List.append_of_mem hmem
      have hsame : post = pre ++ b :: post := hrest.after.unique hrest
      have hlen := congrArg List.length hsame
      simp only [List.length_append, List.length_cons] at hlen
      omega

theorem Leads.subset (h : Leads c blocks off way) : way ⊆ blocks := by
  induction way generalizing off with
  | nil => exact List.nil_subset _
  | cons b way ih =>
      obtain ⟨_, hb, hrest⟩ := h
      exact List.cons_subset.mpr ⟨List.mem_of_find?_eq_some hb, ih hrest⟩

theorem Leads.length_le (h : Leads c blocks off way) : way.length ≤ blocks.length :=
  (h.nodup.subperm h.subset).length_le

/-! ## The search goes the way -/

theorem sackHoleFrom_sound {n : Nat} {r : W} (h : sackHoleFrom c blocks n off = some r) :
    ∃ way, Leads c blocks off way := by
  induction n generalizing off with
  | zero => cases h
  | succ n ih =>
      by_cases hle : c.inFlight ≤ off
      · exact ⟨[], .inl hle⟩
      · rw [sackHoleFrom, if_neg hle, sackCovering_eq] at h
        cases hfirst : sackFirst c blocks off with
        | none => exact ⟨[], .inr hfirst⟩
        | some b =>
            rw [hfirst] at h
            obtain ⟨way, hway⟩ := ih h
            exact ⟨b :: way, BitVec.not_le.mp hle, hfirst, hway⟩

theorem sackHoleFrom_complete {n : Nat} (h : Leads c blocks off way) (hn : way.length < n) :
    ∃ r, sackHoleFrom c blocks n off = some r ∧ IsHole c blocks r := by
  induction way generalizing off n with
  | nil =>
      obtain ⟨n, rfl⟩ : ∃ m, n = m + 1 := Nat.exists_eq_succ_of_ne_zero (by omega)
      by_cases hle : c.inFlight ≤ off
      · exact ⟨0, by rw [sackHoleFrom, if_pos hle], .inl rfl⟩
      · have hnone : sackFirst c blocks off = none := h.resolve_left hle
        refine ⟨off, by rw [sackHoleFrom, if_neg hle, sackCovering_eq, hnone]; rfl, .inr ?_⟩
        refine ⟨BitVec.not_le.mp hle, fun b hb => ?_⟩
        simpa using List.find?_eq_none.mp hnone b hb
  | cons b way ih =>
      obtain ⟨hlt, hb, hrest⟩ := h
      obtain ⟨n, rfl⟩ : ∃ m, n = m + 1 := Nat.exists_eq_succ_of_ne_zero (by omega)
      rw [sackHoleFrom, if_neg (BitVec.not_le.mpr hlt), sackCovering_eq, hb]
      exact ih hrest (by simpa using hn)

theorem sackHoleFrom_mono {n m : Nat} {r : W} (h : sackHoleFrom c blocks n off = some r)
    (hnm : n ≤ m) : sackHoleFrom c blocks m off = some r := by
  induction n generalizing off m with
  | zero => cases h
  | succ n ih =>
      obtain ⟨m, rfl⟩ : ∃ k, m = k + 1 := Nat.exists_eq_succ_of_ne_zero (by omega)
      rw [sackHoleFrom] at h ⊢
      split
      · rwa [if_pos ‹_›] at h
      · rw [if_neg ‹_›] at h
        cases hcov : sackCovering blocks (c.sndUna + off) with
        | none => rwa [hcov] at h
        | some right =>
            rw [hcov] at h
            exact ih h (by omega)

/-- **The fuel of `tcpSackFindHole` is enough** for every search that returns. -/
theorem tcpSackFindHole_eq (c : Conn) (blocks : List (W × W)) (off : W) :
    tcpSackFindHole c blocks = some off ↔ SackReturns c blocks off := by
  unfold tcpSackFindHole SackReturns
  split
  · exact ⟨fun h => (Option.some.inj h).symm, fun h => by rw [h]⟩
  · refine ⟨fun h => ⟨_, h⟩, ?_⟩
    rintro ⟨n, hn⟩
    obtain ⟨way, hway⟩ := sackHoleFrom_sound hn
    obtain ⟨r, hr, _⟩ := @sackHoleFrom_complete c blocks way 0 (sackFuel blocks) hway
      (Nat.lt_of_le_of_lt hway.length_le (by unfold sackFuel; omega))
    have hsame := (sackHoleFrom_mono hr (Nat.le_max_right n _)).symm.trans
      (sackHoleFrom_mono hn (Nat.le_max_left _ (sackFuel blocks)))
    rw [hr, hsame]

end

/-- **The search returns, and with a hole, if and only if the way from `SND_UNA` leaves the
blocks.** -/
theorem sack_find_hole_iff (c : Conn) (blocks : List (W × W)) :
    (∃ off, SackReturns c blocks off ∧ IsHole c blocks off) ↔ LeavesBlocks c blocks := by
  by_cases hnil : blocks = []
  · subst hnil
    exact ⟨fun _ => ⟨[], .inr rfl⟩, fun _ => ⟨0, rfl, .inl rfl⟩⟩
  · simp only [SackReturns, if_neg hnil]
    constructor
    · rintro ⟨off, ⟨n, hn⟩, _⟩
      exact sackHoleFrom_sound hn
    · rintro ⟨way, hway⟩
      obtain ⟨off, hoff, hhole⟩ := sackHoleFrom_complete hway (Nat.lt_succ_self _)
      exact ⟨off, ⟨_, hoff⟩, hhole⟩

/-! ## Ordered blocks -/

theorem lt_right_of_covers {una off l r : W} (hord : l - una ≤ r - una)
    (hcov : una + off - l < r - l) : off < r - una := by
  bv_omega

/-- **Blocks with their edges in order**, counted from `SND_UNA`: every jump goes forward. -/
theorem sack_find_hole_ordered (c : Conn) (blocks : List (W × W))
    (hord : ∀ b ∈ blocks, b.1 - c.sndUna ≤ b.2 - c.sndUna) : LeavesBlocks c blocks := by
  have hway : ∀ (n : Nat) (off : W), 2 ^ 32 - off.toNat ≤ n → ∃ way, Leads c blocks off way := by
    intro n
    induction n with
    | zero =>
        intro off hn
        have := off.isLt
        omega
    | succ n ih =>
        intro off hn
        by_cases hle : c.inFlight ≤ off
        · exact ⟨[], .inl hle⟩
        · cases hfirst : sackFirst c blocks off with
          | none => exact ⟨[], .inr hfirst⟩
          | some b =>
              have hcov : sackCovers b (c.sndUna + off) := by
                simpa using List.find?_some hfirst
              have hlt := lt_right_of_covers (hord b (List.mem_of_find?_eq_some hfirst)) hcov
              obtain ⟨way, hway⟩ := ih (b.2 - c.sndUna) (by rw [BitVec.lt_def] at hlt; omega)
              exact ⟨b :: way, BitVec.not_le.mp hle, hfirst, hway⟩
  exact hway (2 ^ 32) 0 (by simp)

/-! ## Two blocks that lead to each other -/

/-- A connection with 100 bytes in flight. -/
def loopConn : Conn := { sndNxt := 100, sackEnabled := true }

/-- A SACK option with the blocks 0..50 and 50..0. -/
def loopOpts : List Byte := [5, 18, 0, 0, 0, 0, 0, 0, 0, 50, 0, 0, 0, 50, 0, 0, 0, 0]

def loopBlocks : List (W × W) := [(0, 50), (50, 0)]

/-- **The search goes from 0 to 50 and back for ever**, for blocks that a packet can carry. -/
theorem sack_blocks_loop :
    tcpParseSackBlocks loopOpts = loopBlocks ∧
      ¬∃ off, SackReturns loopConn loopBlocks off ∧ IsHole loopConn loopBlocks off := by
  refine ⟨by decide, ?_⟩
  rintro ⟨off, hret, _⟩
  obtain ⟨n, hn⟩ : ∃ n, sackHoleFrom loopConn loopBlocks n 0 = some off := hret
  have hloop : ∀ n, sackHoleFrom loopConn loopBlocks n 0 = none ∧
      sackHoleFrom loopConn loopBlocks n 50 = none := by
    intro n
    induction n with
    | zero => exact ⟨rfl, rfl⟩
    | succ n ih => exact ⟨ih.2, ih.1⟩
  rw [(hloop n).1] at hn
  cases hn

end WsPi5

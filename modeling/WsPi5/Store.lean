/-
# `WsPi5.Store` — the ring of records of `lib/store.S`

Three words, the number of records written so far, the size of a record and the capacity, and the
records behind them.  Record number `i` is in slot `i & (capacity - 1)`, so a new record replaces
the oldest once the ring is full.

What it is for: a log, of which the last records can be read.

    store_append    the log grows by one record               (`Store.Holds.append`)
    store_count     how many of it can be read                (`Store.Holds.count`)
    store_read      those, by their number from the oldest on (`Store.Holds.read`)

The number of records is kept in 32 bits, so reading asks for a log shorter than 2^32.
-/
import WsPi5.Lib.Mem
import WsPi5.Lib.Ring
import WsPi5.Tcp.Types

namespace WsPi5

open Lib

/-- STORE_WRITTEN, STORE_REC_BYTES and STORE_CAP, and the bytes from STORE_DATA on. -/
structure Store where
  written : W
  recBytes : W
  cap : W
  data : Nat → Byte

def storeInit (s : Store) (w1 w2 : W) : Store := { s with written := 0, recBytes := w1, cap := w2 }

/-- `store_append`, from a buffer that starts with the record. -/
def storeAppend (s : Store) (x1 : Nat → Byte) : Store :=
  let w4 := s.written &&& (s.cap - 1)
  let off := (w4 * s.recBytes).toNat
  { s with
    data := memWrite s.data off (slice x1 0 s.recBytes.toNat)
    written := s.written + 1 }

def storeCount (s : Store) : W := if s.written ≤ s.cap then s.written else s.cap

/-- `store_read`, into a buffer: w0 and the buffer. -/
def storeRead (s : Store) (w1 : W) (x2 : Nat → Byte) : W × (Nat → Byte) :=
  let w3 := storeCount s
  if w3 ≤ w1 then (0, x2)
  else
    let w5 := (s.written - w3 + w1) &&& (s.cap - 1)
    let off := (w5 * s.recBytes).toNat
    (s.recBytes, memWrite x2 0 (slice s.data off s.recBytes.toNat))

/-! ## The log -/

/-- The last `n` entries. -/
def lastOnes {α : Type} (n : Nat) (log : List α) : List α := log.drop (log.length - n)

theorem lastOnes_length {α : Type} (n : Nat) (log : List α) :
    (lastOnes n log).length = min log.length n := by
  rw [lastOnes, List.length_drop]
  omega

/-- The ring of `2 ^ k` slots of `size` bytes is what is left of this log. -/
structure Store.Holds (s : Store) (k size : Nat) (log : List (List Byte)) : Prop where
  written : s.written = BitVec.ofNat 32 log.length
  recBytes : s.recBytes.toNat = size
  cap : s.cap.toNat = 2 ^ k
  fits : 2 ^ k * size < 2 ^ 32
  width : ∀ r ∈ log, r.length = size
  slot : ∀ i (h : i < log.length), log.length ≤ i + 2 ^ k →
    slice s.data (i % 2 ^ k * size) size = log[i]

theorem storeInit_holds (s : Store) {w1 w2 : W} {k : Nat} (hcap : w2.toNat = 2 ^ k)
    (hfits : 2 ^ k * w1.toNat < 2 ^ 32) : (storeInit s w1 w2).Holds k w1.toNat [] where
  written := rfl
  recBytes := rfl
  cap := hcap
  fits := hfits
  width := fun _ hr => nomatch hr
  slot := fun i hi => absurd hi (Nat.not_lt_zero i)

section
variable {s : Store} {k size : Nat} {log : List (List Byte)}

theorem Store.Holds.lt_32 (h : s.Holds k size log) : k < 32 := by
  have hcap := s.cap.isLt
  rw [h.cap] at hcap
  exact (Nat.pow_lt_pow_iff_right (by decide)).mp hcap

theorem Store.Holds.masked (h : s.Holds k size log) {w : W} {n : Nat} (hw : w = BitVec.ofNat 32 n) :
    (w &&& (s.cap - 1)).toNat = n % 2 ^ k := by
  have hpos : 0 < 2 ^ k := Nat.two_pow_pos k
  have hlt := s.cap.isLt
  have hcap := h.cap
  have hmask : (s.cap - 1).toNat = 2 ^ k - 1 := by
    have hone : (1 : W).toNat = 1 := rfl
    rw [BitVec.toNat_sub, hone]
    omega
  have hdvd : 2 ^ k ∣ 2 ^ 32 := Nat.pow_dvd_pow 2 (Nat.le_of_lt h.lt_32)
  rw [BitVec.toNat_and, hmask, Nat.and_two_pow_sub_one_eq_mod, hw, BitVec.toNat_ofNat,
    Nat.mod_mod_of_dvd n hdvd]

theorem slot_fits {i j n size : Nat} (h : i % n < j % n) : i % n * size + size ≤ j % n * size := by
  calc i % n * size + size = (i % n + 1) * size := (Nat.succ_mul _ _).symm
    _ ≤ j % n * size := Nat.mul_le_mul_right size h

theorem Store.Holds.offset (h : s.Holds k size log) {w : W} {n : Nat} (hw : w = BitVec.ofNat 32 n) :
    ((w &&& (s.cap - 1)) * s.recBytes).toNat = n % 2 ^ k * size := by
  have hlt : n % 2 ^ k < 2 ^ k := Nat.mod_lt n (Nat.two_pow_pos k)
  have hle : n % 2 ^ k * size ≤ 2 ^ k * size := Nat.mul_le_mul_right size (Nat.le_of_lt hlt)
  have hfits := h.fits
  rw [BitVec.toNat_mul, h.masked hw, h.recBytes, Nat.mod_eq_of_lt (by omega)]

/-- **Append.** -/
theorem Store.Holds.append (h : s.Holds k size log) {x1 : Nat → Byte} :
    (storeAppend s x1).Holds k size (log ++ [slice x1 0 size]) := by
  have hlen : (log ++ [slice x1 0 size]).length = log.length + 1 := by simp
  have hdata : (storeAppend s x1).data
      = memWrite s.data (log.length % 2 ^ k * size) (slice x1 0 size) := by
    rw [storeAppend]
    dsimp only
    rw [h.offset h.written, h.recBytes]
  refine ⟨?_, h.recBytes, h.cap, h.fits, ?_, ?_⟩
  · rw [hlen, BitVec.ofNat_add, ← h.written]
    rfl
  · intro r hr
    rcases List.mem_append.mp hr with hr | hr
    · exact h.width r hr
    · rw [List.mem_singleton.mp hr, slice_length]
  · intro i hi hnew
    rw [hlen] at hi hnew
    rw [hdata]
    by_cases hlast : i = log.length
    · subst hlast
      have hself := slice_memWrite_self s.data (log.length % 2 ^ k * size) (slice x1 0 size)
      rw [slice_length] at hself
      rw [hself, List.getElem_append_right (Nat.le_refl _)]
      simp
    · -- another slot
      have hold : i < log.length := by omega
      have hne : i % 2 ^ k ≠ log.length % 2 ^ k := by
        intro heq
        have := eq_of_mod_eq heq (by omega) (by omega)
        omega
      rw [List.getElem_append_left hold, ← h.slot i hold (by omega)]
      refine slice_memWrite_outside ?_
      rw [slice_length]
      rcases Nat.lt_or_gt_of_ne hne with hlt | hgt
      · exact .inl (slot_fits hlt)
      · exact .inr (slot_fits hgt)

theorem Store.Holds.count (h : s.Holds k size log) (hshort : log.length < 2 ^ 32) :
    (storeCount s).toNat = (lastOnes (2 ^ k) log).length := by
  have hwritten : s.written.toNat = log.length := by
    rw [h.written, BitVec.toNat_ofNat, Nat.mod_eq_of_lt hshort]
  rw [lastOnes_length, storeCount]
  by_cases hle : s.written ≤ s.cap
  · have hnat := BitVec.le_def.mp hle
    rw [hwritten, h.cap] at hnat
    rw [if_pos hle, hwritten, Nat.min_eq_left hnat]
  · have hnat := mt BitVec.le_def.mpr hle
    rw [hwritten, h.cap] at hnat
    rw [if_neg hle, h.cap, Nat.min_eq_right (by omega)]

/-- **Read**, of those that are left, by their place. -/
theorem Store.Holds.read (h : s.Holds k size log) (hshort : log.length < 2 ^ 32) {j : Nat}
    (hj : j < (lastOnes (2 ^ k) log).length) (x2 : Nat → Byte) :
    storeRead s (BitVec.ofNat 32 j) x2 = (s.recBytes, memWrite x2 0 (lastOnes (2 ^ k) log)[j]) := by
  have hcount := h.count hshort
  have hmin := lastOnes_length (2 ^ k) log
  have hw1 : (BitVec.ofNat 32 j).toNat = j := by
    rw [BitVec.toNat_ofNat, Nat.mod_eq_of_lt (by omega)]
  have hin : ¬ storeCount s ≤ BitVec.ofNat 32 j := by
    rw [BitVec.le_def, hcount, hw1]
    omega
  obtain ⟨i, hi⟩ : ∃ i, i = log.length - (lastOnes (2 ^ k) log).length + j := ⟨_, rfl⟩
  have hindex : s.written - storeCount s + BitVec.ofNat 32 j = BitVec.ofNat 32 i := by
    apply BitVec.eq_of_toNat_eq
    rw [h.written, BitVec.toNat_add, BitVec.toNat_sub, hcount, hw1, BitVec.toNat_ofNat,
      BitVec.toNat_ofNat, hi]
    omega
  have hlt : i < log.length := by omega
  have hget : (lastOnes (2 ^ k) log)[j] = log[i] := by
    have hstart : log.length - 2 ^ k + j = i := by omega
    simp only [lastOnes, List.getElem_drop, hstart]
  rw [storeRead]
  dsimp only
  rw [if_neg hin, h.offset hindex, h.recBytes, hget, h.slot i hlt (by omega)]

end

end WsPi5

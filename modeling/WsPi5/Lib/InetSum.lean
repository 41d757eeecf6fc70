/-
# `WsPi5.Lib.InetSum` — the Internet checksum (RFC 1071)

The checksum of a string of bytes is the ones' complement of the ones' complement sum of its
halfwords.  It is computed with a 32-bit accumulator: add the halfwords, add the carries to the
low half twice, complement, keep sixteen bits.  Halfwords are read in little-endian order, which
changes nothing as long as the result is stored the same way.

**Proved here** (`checksum_verifies`): store the checksum of a string, computed with the field
zero, into the field; the checksum of the result is zero.  The field stands at an even offset, and
a pseudo-header may be summed beforehand.

The reason is arithmetic modulo 65535 (`inetChecksum_verifies`): folding keeps the residue, so the
sum and its checksum add up to a multiple of 65535, which is not zero, and the fold of such a
number is 65535.

Nothing in this module names a particular protocol.
-/
import Mathlib.Data.List.Basic
import Mathlib.Algebra.GroupWithZero.Nat

namespace Lib

/-- The sum of the halfwords of a string; an odd last byte counts as a low byte. -/
def halfSum : List UInt8 → Nat
  | [] => 0
  | [b] => b.toNat
  | a :: b :: rest => a.toNat + 256 * b.toNat + halfSum rest

/-- Two carry folds of a 32-bit accumulator, complement, sixteen bits. -/
def inetChecksum (s : Nat) : Nat :=
  let w := s % 2 ^ 32
  let folded := w % 65536 + w / 65536
  65535 - (folded + folded / 65536) % 65536

def halfBytes (n : Nat) : List UInt8 := [UInt8.ofNat (n % 256), UInt8.ofNat (n / 256)]

theorem inetChecksum_lt (s : Nat) : inetChecksum s < 65536 := by
  unfold inetChecksum
  dsimp only
  omega

theorem inetChecksum_multiple {m : Nat} (hm : 0 < m) (h : 65535 * m < 2 ^ 32) :
    inetChecksum (65535 * m) = 0 := by
  have hw : 65535 * m % 2 ^ 32 = 65535 * m := Nat.mod_eq_of_lt h
  unfold inetChecksum
  dsimp only
  rw [hw]
  rcases Nat.lt_or_ge m 65537 with hle | hge
  · have hdiv : 65535 * m / 65536 = m - 1 := by omega
    have hmod : 65535 * m % 65536 = 65536 - m := by omega
    rw [hdiv, hmod]
    omega
  · have hm' : m = 65537 := by omega
    subst hm'
    rfl

theorem inetChecksum_complements {s : Nat} (h : s < 2 ^ 32) :
    ∃ m, 0 < m ∧ s + inetChecksum s = 65535 * m := by
  have hs : s % 2 ^ 32 = s := Nat.mod_eq_of_lt h
  unfold inetChecksum
  dsimp only
  rw [hs]
  exact ⟨s / 65536 + (s % 65536 + s / 65536) / 65536 + 1, by omega, by omega⟩

theorem inetChecksum_verifies {s : Nat} (h : s + 65535 < 2 ^ 32) :
    inetChecksum (s + inetChecksum s) = 0 := by
  have hlt := inetChecksum_lt s
  obtain ⟨m, hm, heq⟩ := inetChecksum_complements (s := s) (by omega)
  rw [heq]
  exact inetChecksum_multiple hm (by omega)

theorem inetChecksum_eq_zero_iff {s : Nat} (hpos : 0 < s) (h : s < 2 ^ 32) :
    inetChecksum s = 0 ↔ s % 65535 = 0 := by
  constructor
  · intro hzero
    obtain ⟨m, _, heq⟩ := inetChecksum_complements h
    rw [hzero] at heq
    omega
  · intro hmod
    have heq : s = 65535 * (s / 65535) := by omega
    rw [heq]
    exact inetChecksum_multiple (by omega) (by omega)

/-! ## Where the halfwords stand -/

theorem halfSum_append : ∀ {xs : List UInt8} (ys : List UInt8), xs.length % 2 = 0 →
    halfSum (xs ++ ys) = halfSum xs + halfSum ys
  | [], ys, _ => by simp [halfSum]
  | [_], _, h => by simp at h
  | a :: b :: rest, ys, h => by
      have hrest : rest.length % 2 = 0 := by
        simp only [List.length_cons] at h
        omega
      simp only [List.cons_append, halfSum, halfSum_append ys hrest]
      omega

theorem halfSum_halfBytes {n : Nat} (h : n < 65536) : halfSum (halfBytes n) = n := by
  simp only [halfBytes, halfSum, UInt8.toNat_ofNat']
  omega

theorem halfSum_le : ∀ xs : List UInt8, halfSum xs ≤ 65535 * ((xs.length + 1) / 2)
  | [] => by simp [halfSum]
  | [b] => by
      have := b.toNat_lt
      simp only [halfSum, List.length_singleton]
      omega
  | a :: b :: rest => by
      have ha := a.toNat_lt
      have hb := b.toNat_lt
      have hrest := halfSum_le rest
      simp only [halfSum, List.length_cons]
      omega

/-- The sum with a halfword in the field is the sum with a zero field and that halfword. -/
theorem halfSum_field {n : Nat} (hn : n < 65536) {xs : List UInt8} (ys : List UInt8)
    (hxs : xs.length % 2 = 0) :
    halfSum (xs ++ halfBytes n ++ ys) = halfSum (xs ++ halfBytes 0 ++ ys) + n := by
  have hlen : ∀ m, (halfBytes m).length % 2 = 0 := fun _ => by simp [halfBytes]
  rw [List.append_assoc, List.append_assoc, halfSum_append _ hxs, halfSum_append _ hxs,
    halfSum_append _ (hlen n), halfSum_append _ (hlen 0), halfSum_halfBytes hn,
    halfSum_halfBytes (by omega)]
  omega

/-- **A stored checksum verifies.**  `pre` is the sum of a pseudo-header. -/
theorem checksum_verifies {pre : Nat} {xs ys : List UInt8} (hxs : xs.length % 2 = 0)
    (hfit : pre + halfSum (xs ++ halfBytes 0 ++ ys) + 65535 < 2 ^ 32) :
    inetChecksum (pre + halfSum (xs ++
      halfBytes (inetChecksum (pre + halfSum (xs ++ halfBytes 0 ++ ys))) ++ ys)) = 0 := by
  rw [halfSum_field (inetChecksum_lt _) ys hxs, ← Nat.add_assoc]
  exact inetChecksum_verifies hfit

end Lib

/-
# `Lib.OnesComplement` — the checksum of RFC 1071, word by word

The reference: the sixteen-bit words of a string in network order, an odd last byte padded with
zeros, added up in ones' complement, where the carry of each addition comes in again at the bottom.
`Lib.InetSum` adds little-endian halfwords in a wide accumulator instead and folds twice.

**Proved here** (`inetChecksum_eq_rfc1071`): the two agree, up to the order of the two bytes.

    words of a ones' complement sum     the number that stands for their sum  (`foldl_onesAdd`)
    two folds of a 32-bit accumulator   the same number                       (`inetChecksum_eq`)
    little-endian halfwords             256 times the sum modulo 65535        (`halfSum_netWords`)

In ones' complement a number stands for its residue modulo 65535, and zero, of the two
representations of the residue zero, for no bit set at all (`onesOf`).
-/
import WsPi5.Lib.InetSum

namespace Lib

/-- Ones' complement addition of sixteen-bit numbers. -/
def onesAdd (x y : Nat) : Nat := if x + y < 65536 then x + y else x + y - 65535

def netWords : List UInt8 → List Nat
  | [] => []
  | [b] => [256 * b.toNat]
  | a :: b :: rest => (256 * a.toNat + b.toNat) :: netWords rest

/-- The checksum of RFC 1071. -/
def rfc1071 (bytes : List UInt8) : Nat := 65535 - (netWords bytes).foldl onesAdd 0

/-- The ones' complement number that stands for a sum. -/
def onesOf (s : Nat) : Nat := if s = 0 then 0 else (s - 1) % 65535 + 1

def swapHalf (n : Nat) : Nat := n % 256 * 256 + n / 256

theorem onesOf_lt (s : Nat) : onesOf s < 65536 := by
  rw [onesOf]
  split <;> omega

theorem onesAdd_onesOf (s : Nat) {word : Nat} (h : word < 65536) :
    onesAdd (onesOf s) word = onesOf (s + word) := by
  rw [onesAdd, onesOf, onesOf]
  split
  all_goals split
  all_goals split
  all_goals omega

theorem netWords_lt : ∀ {bytes : List UInt8} {word : Nat}, word ∈ netWords bytes → word < 65536
  | [], _, h => nomatch h
  | [b], word, h => by
      have hb := b.toNat_lt
      obtain rfl := List.mem_singleton.mp h
      omega
  | a :: b :: rest, word, h => by
      have ha := a.toNat_lt
      have hb := b.toNat_lt
      rcases List.mem_cons.mp h with rfl | hrest
      · omega
      · exact netWords_lt hrest

theorem foldl_onesAdd {words : List Nat} (s : Nat) (h : ∀ word ∈ words, word < 65536) :
    words.foldl onesAdd (onesOf s) = onesOf (s + words.sum) := by
  induction words generalizing s with
  | nil => rfl
  | cons word words ih =>
      have hword := h word (List.mem_cons_self ..)
      rw [List.foldl_cons, onesAdd_onesOf s hword,
        ih (s + word) fun w hw => h w (List.mem_cons_of_mem _ hw), List.sum_cons, Nat.add_assoc]

theorem rfc1071_eq (bytes : List UInt8) : rfc1071 bytes = 65535 - onesOf (netWords bytes).sum := by
  have hfold := @foldl_onesAdd (netWords bytes) 0 fun _ => netWords_lt
  rw [Nat.zero_add] at hfold
  rw [rfc1071]
  exact congrArg (65535 - ·) hfold

/-- **Two folds are enough** for what a 32-bit accumulator holds. -/
theorem inetChecksum_eq {s : Nat} (h : s < 2 ^ 32) : inetChecksum s = 65535 - onesOf s := by
  rw [inetChecksum, onesOf, Nat.mod_eq_of_lt h]
  -- one carry at most is left for the second fold
  have hcarry : (s % 65536 + s / 65536) / 65536 ≤ 1 := by omega
  generalize hfold : s % 65536 + s / 65536 = folded at hcarry ⊢
  have hlow : (folded + folded / 65536) % 65536 = folded - 65535 * (folded / 65536) := by omega
  have hsum : s = 65535 * (s / 65536) + folded := by omega
  rw [hlow]
  split <;> omega

/-- **The byte order**: 256 times a little-endian word is the word in network order, and 65535 times
its second byte. -/
theorem halfSum_netWords : ∀ bytes : List UInt8,
    ∃ k ≤ (netWords bytes).sum, 256 * halfSum bytes = (netWords bytes).sum + 65535 * k
  | [] => ⟨0, Nat.le_refl _, rfl⟩
  | [b] => ⟨0, Nat.zero_le _, by simp [halfSum, netWords]⟩
  | a :: b :: rest => by
      obtain ⟨k, hk, hrest⟩ := halfSum_netWords rest
      refine ⟨b.toNat + k, ?_, ?_⟩
      · simp only [netWords, List.sum_cons]
        omega
      · simp only [halfSum, netWords, List.sum_cons]
        omega

/-- Two sums of which one is 256 times the other stand for numbers with their bytes swapped. -/
theorem onesOf_swap {s t k : Nat} (hk : k ≤ t) (h : 256 * s = t + 65535 * k) :
    onesOf s = swapHalf (onesOf t) := by
  have hs := onesOf_lt s
  have ht := onesOf_lt t
  rw [swapHalf]
  by_cases hzero : t = 0
  · have hs0 : s = 0 := by omega
    rw [hzero, hs0]
    rfl
  have hs0 : s ≠ 0 := by omega
  have hsmod : onesOf s % 65535 = s % 65535 := by
    rw [onesOf, if_neg hs0]
    omega
  have htmod : onesOf t % 65535 = t % 65535 := by
    rw [onesOf, if_neg hzero]
    omega
  have hspos : 0 < onesOf s := by
    rw [onesOf, if_neg hs0]
    omega
  have htpos : 0 < onesOf t := by
    rw [onesOf, if_neg hzero]
    omega
  omega

/-- **The reference.** -/
theorem inetChecksum_eq_rfc1071 {bytes : List UInt8} (h : halfSum bytes < 2 ^ 32) :
    inetChecksum (halfSum bytes) = swapHalf (rfc1071 bytes) := by
  obtain ⟨k, hk, heq⟩ := halfSum_netWords bytes
  have hlt := onesOf_lt (netWords bytes).sum
  rw [inetChecksum_eq h, rfc1071_eq, onesOf_swap hk heq, swapHalf, swapHalf]
  omega

end Lib

/-
# `WsPi5.Ntp.Md5` — `md5_hash` against the standard

`Ntp.Client` has the digest as a function of the input.  Here are the stores and loads behind it:
the frame is 224 bytes, and the buffer that the padded input is built in starts at sp + 48, so 176
of them are its own.  A store or a load beyond them has no result.

    .Lmh_copy       the input, byte by byte
    0x80, .Lmh_zero zeros up to 56 or to 120
    str, str        the length in bits, and the upper word of it
    md5_block       the 64 bytes from sp + 48 on, and from 56 bytes of input on those from sp + 112

The rounds differ from the standard's in shape: one loop of 64 turns, in which the four registers
change places after each, in the place of four tables with sixteen operations on fixed words.

**Proved here** (`md5_correct`), for every input of up to 119 bytes: nothing outside the buffer is
touched, and nothing beyond its first 128 bytes; as many blocks are processed as the padded message
of `Lib.Md5` has; and the result is its digest.
-/
import WsPi5.Lib.Md5
import WsPi5.Lib.Region
import WsPi5.Ntp.Client

namespace WsPi5

open Lib

/-! ## The buffer -/

/-- From sp + 48 to the end of the frame. -/
def md5BufferLen : Nat := 224 - 48

/-- `strb`, at an offset in the buffer. -/
def storeByte (buf : List Byte) (off : Nat) (b : Byte) : Option (List Byte) :=
  if off < buf.length then some (buf.set off b) else none

/-- `str` of a word. -/
def storeWord (buf : List Byte) (off : Nat) (w : W) : Option (List Byte) :=
  (wordBytes w).zipIdx.foldlM (fun buf (b, k) => storeByte buf (off + k) b) buf

/-- `.Lmh_copy`, at most `n` turns: the buffer and w3. -/
def md5Copy (mem : Nat → Option Byte) (x0 w1 : Nat) :
    Nat → Nat → List Byte → Option (List Byte)
  | 0, w3, buf => if w1 ≤ w3 then some buf else none
  | n + 1, w3, buf =>
      if w1 ≤ w3 then some buf
      else (mem (x0 + w3)).bind fun w4 =>
        (storeByte buf w3 w4).bind fun buf => md5Copy mem x0 w1 n (w3 + 1) buf

/-- `.Lmh_zero`, at most `n` turns: the buffer and w3. -/
def md5Zero (w5 : Nat) : Nat → Nat → List Byte → Option (List Byte × Nat)
  | 0, w3, buf => if w5 ≤ w3 then some (buf, w3) else none
  | n + 1, w3, buf =>
      if w5 ≤ w3 then some (buf, w3)
      else (storeByte buf w3 0).bind fun buf => md5Zero w5 n (w3 + 1) buf

/-- `md5_block` at an offset in the buffer. -/
def md5BlockAt (buf : List Byte) (off : Nat) (s : Md5State) : Option Md5State :=
  if off + 64 ≤ buf.length then some (md5Block s (md5Words buf off)) else none

/-- What a call leaves: its buffer, where it called `md5_block`, and the 16 bytes at x2. -/
structure Md5Run where
  buf : List Byte
  blocks : List Nat
  digest : List Byte
  deriving DecidableEq

/-- `.Lmh_done`. -/
def md5Out (s : Md5State) : List Byte :=
  wordBytes s.a ++ wordBytes s.b ++ wordBytes s.c ++ wordBytes s.d

/-- `md5_hash`, with the stack as it is found. -/
def md5HashAt (mem : Nat → Option Byte) (x0 w1 : Nat) (stack : List Byte) : Option Md5Run :=
  (md5Copy mem x0 w1 w1 0 stack).bind fun buf =>
  (storeByte buf w1 0x80).bind fun buf =>
  let w5 := if w1 + 1 ≤ 56 then 56 else 120
  (md5Zero w5 (w5 - (w1 + 1)) (w1 + 1) buf).bind fun (buf, w3) =>
  (storeWord buf w3 (BitVec.ofNat 32 (8 * w1))).bind fun buf =>
  (storeWord buf (w3 + 4) 0).bind fun buf =>
  (md5BlockAt buf 0 md5Init).bind fun s =>
  if w1 < 56 then some ⟨buf, [0], md5Out s⟩
  else (md5BlockAt buf 64 s).map fun s => ⟨buf, [0, 64], md5Out s⟩

/-! ## What the stores leave -/

section
variable {done rest : List Byte}

theorem storeByte_next (b : Byte) (h : rest ≠ []) :
    storeByte (done ++ rest) done.length b = some (done ++ [b] ++ rest.drop 1) := by
  cases rest with
  | nil => exact absurd rfl h
  | cons r rest =>
      rw [storeByte, if_pos (by simp), List.set_append_right _ _ (Nat.le_refl _), Nat.sub_self]
      simp

theorem storeWord_next (w : W) (h : 4 ≤ rest.length) :
    storeWord (done ++ rest) done.length w = some (done ++ wordBytes w ++ rest.drop 4) := by
  obtain ⟨b₀, b₁, b₂, b₃, hw⟩ : ∃ b₀ b₁ b₂ b₃, wordBytes w = [b₀, b₁, b₂, b₃] := ⟨_, _, _, _, rfl⟩
  have hne : ∀ k, k < 4 → rest.drop k ≠ [] := fun k hk =>
    List.ne_nil_of_length_pos (by rw [List.length_drop]; omega)
  have h₀ := @storeByte_next done rest b₀ (hne 0 (by decide))
  have h₁ := @storeByte_next (done ++ [b₀]) (rest.drop 1) b₁ (hne 1 (by decide))
  have h₂ := @storeByte_next (done ++ [b₀] ++ [b₁]) (rest.drop 2) b₂ (hne 2 (by decide))
  have h₃ := @storeByte_next (done ++ [b₀] ++ [b₁] ++ [b₂]) (rest.drop 3) b₃ (hne 3 (by decide))
  simp only [List.length_append, List.length_singleton, List.drop_drop, Nat.reduceAdd]
    at h₁ h₂ h₃
  rw [storeWord, hw]
  simp only [List.zipIdx_cons, List.zipIdx_nil, List.foldlM_cons, List.foldlM_nil, Nat.zero_add,
    Nat.add_zero, Nat.reduceAdd, h₀, Option.bind_eq_bind, Option.bind_some, h₁, Nat.add_assoc] at *
  rw [h₂, Option.bind_some, h₃]
  simp

theorem md5Copy_eq {mem : Nat → Option Byte} {x0 : Nat} : ∀ {todo done rest : List Byte},
    Stands mem (x0 + done.length) todo → todo.length ≤ rest.length →
    md5Copy mem x0 (done.length + todo.length) todo.length done.length (done ++ rest)
      = some (done ++ todo ++ rest.drop todo.length) := by
  intro todo
  induction todo with
  | nil =>
      intro done rest _ _
      simp [md5Copy]
  | cons b todo ih =>
      intro done rest hin hroom
      rw [List.length_cons] at hroom
      have hne : rest ≠ [] := List.ne_nil_of_length_pos (by omega)
      have hnext := @ih (done ++ [b]) (rest.drop 1) (by simpa [Nat.add_assoc] using hin.tail)
        (by rw [List.length_drop]; omega)
      have hend : done.length + (todo.length + 1) = (done ++ [b]).length + todo.length := by
        rw [List.length_append, List.length_singleton]
        omega
      have hpos : done.length + 1 = (done ++ [b]).length := by simp
      rw [List.length_cons, md5Copy, if_neg (by omega), hin.head, Option.bind_some,
        storeByte_next b hne, Option.bind_some, hend, hpos, hnext, List.drop_drop]
      simp [Nat.add_comm 1]

theorem md5Zero_eq : ∀ {n : Nat} {done rest : List Byte}, n ≤ rest.length →
    md5Zero (done.length + n) n done.length (done ++ rest)
      = some (done ++ List.replicate n 0 ++ rest.drop n, done.length + n) := by
  intro n
  induction n with
  | zero =>
      intro done rest _
      simp [md5Zero]
  | succ n ih =>
      intro done rest hroom
      have hne : rest ≠ [] := List.ne_nil_of_length_pos (by omega)
      have hnext := @ih (done ++ [0]) (rest.drop 1) (by rw [List.length_drop]; omega)
      have hend : done.length + (n + 1) = (done ++ [(0 : Byte)]).length + n := by
        rw [List.length_append, List.length_singleton]
        omega
      have hpos : done.length + 1 = (done ++ [(0 : Byte)]).length := by simp
      rw [md5Zero, if_neg (by omega), storeByte_next 0 hne, Option.bind_some, hend, hpos, hnext,
        List.drop_drop]
      simp [Nat.add_comm 1, List.replicate_succ]

end

/-! ## The loads -/

theorem md5Words_append {xs ys : List Byte} {off : Nat} (h : off + 64 ≤ xs.length) :
    md5Words (xs ++ ys) off = md5Words xs off := by
  have hget : ∀ j, j < off + 64 → (xs ++ ys).getD j 0 = xs.getD j 0 := by
    intro j hj
    rw [List.getD_eq_getElem?_getD, List.getElem?_append_left (by omega),
      ← List.getD_eq_getElem?_getD]
  refine List.map_congr_left fun k hk => ?_
  have hlt : k < 16 := List.mem_range.mp hk
  rw [leWord, leWord, hget _ (by omega), hget _ (by omega), hget _ (by omega), hget _ (by omega)]

theorem md5BlockAt_append {xs ys : List Byte} {off : Nat} (s : Md5State)
    (h : off + 64 ≤ xs.length) :
    md5BlockAt (xs ++ ys) off s = some (md5Block s (md5Words xs off)) := by
  rw [md5BlockAt, if_pos (by rw [List.length_append]; omega), md5Words_append h]

/-! ## The run -/

theorem wordBytes_length (w : W) : (wordBytes w).length = 4 := rfl

theorem md5Pad_length {input : List Byte} (h : input.length ≤ 119) :
    (md5Pad input).length = if input.length < 56 then 64 else 128 := by
  simp only [md5Pad, List.length_append, List.length_singleton, List.length_replicate,
    wordBytes_length]
  split_ifs <;> omega

/-- **The run** of `md5_hash`: the padded input stands in the buffer, and all else is as before. -/
theorem md5HashAt_eq {mem : Nat → Option Byte} {x0 : Nat} {input stack : List Byte}
    (hin : Stands mem x0 input) (hlen : input.length ≤ 119) (hstack : stack.length = md5BufferLen) :
    md5HashAt mem x0 input.length stack
      = some ⟨md5Pad input ++ stack.drop (md5Pad input).length,
          if input.length < 56 then [0] else [0, 64], md5Hash input⟩ := by
  have hroom : stack.length = 176 := hstack
  obtain ⟨n, hn⟩ : ∃ n, n = input.length := ⟨_, rfl⟩
  obtain ⟨w5, hw5⟩ : ∃ w5, w5 = if n + 1 ≤ 56 then 56 else 120 := ⟨_, rfl⟩
  have hrange : n + 1 ≤ w5 ∧ w5 ≤ 120 := by
    rw [hw5]
    split_ifs <;> omega
  obtain ⟨z, hz⟩ : ∃ z, z = w5 - (n + 1) := ⟨_, rfl⟩
  have hcopy : md5Copy mem x0 n n 0 stack = some (input ++ stack.drop n) := by
    have h := @md5Copy_eq mem x0 input [] stack hin (by omega)
    rw [List.length_nil, Nat.zero_add, ← hn] at h
    exact h
  have hmark : storeByte (input ++ stack.drop n) n 0x80
      = some (input ++ [0x80] ++ stack.drop (n + 1)) := by
    have hne : stack.drop n ≠ [] := List.ne_nil_of_length_pos (by rw [List.length_drop]; omega)
    rw [hn, storeByte_next 0x80 (hn ▸ hne), List.drop_drop]
  have hzero : md5Zero w5 z (n + 1) (input ++ [0x80] ++ stack.drop (n + 1))
      = some (input ++ [0x80] ++ List.replicate z 0 ++ stack.drop w5, w5) := by
    have h := @md5Zero_eq z (input ++ [0x80]) (stack.drop (n + 1))
      (by rw [List.length_drop]; omega)
    have hend : n + 1 + z = w5 := by omega
    rw [List.length_append, List.length_singleton, ← hn, List.drop_drop, hend] at h
    exact h
  -- the two words of the length
  have hfront : (input ++ [0x80] ++ List.replicate z 0).length = w5 := by
    rw [List.length_append, List.length_append, List.length_singleton, List.length_replicate]
    omega
  have hword (done : List Byte) (k : Nat) (w : W) (hdone : done.length = k) (hk : k + 4 ≤ 176) :
      storeWord (done ++ stack.drop k) k w = some (done ++ wordBytes w ++ stack.drop (k + 4)) := by
    have h := @storeWord_next done (stack.drop k) w (by rw [List.length_drop]; omega)
    rwa [hdone, List.drop_drop] at h
  have hlow := hword _ w5 (BitVec.ofNat 32 (8 * n)) hfront (by omega)
  have hhigh := hword (input ++ [0x80] ++ List.replicate z 0 ++ wordBytes (BitVec.ofNat 32 (8 * n)))
    (w5 + 4) 0 (by rw [List.length_append, hfront, wordBytes_length]) (by omega)
  have hpad : input ++ [0x80] ++ List.replicate z 0 ++ wordBytes (BitVec.ofNat 32 (8 * n))
      ++ wordBytes 0 = md5Pad input := by
    rw [hz, hw5, hn]
    rfl
  have hpadLen : (md5Pad input).length = w5 + 4 + 4 := by
    rw [← hpad, List.length_append, List.length_append, hfront, wordBytes_length, wordBytes_length]
  rw [hpad, ← hpadLen] at hhigh
  have hbound : 64 ≤ (md5Pad input).length := by
    rw [md5Pad_length hlen]
    split_ifs <;> omega
  rw [← hn]
  simp only [md5HashAt, hcopy, Option.bind_some, hmark, ← hw5, ← hz, hzero, hlow, hhigh]
  rw [md5BlockAt_append _ (by omega), Option.bind_some]
  by_cases hsmall : n < 56
  · rw [if_pos hsmall, if_pos hsmall, md5Hash, if_pos (hn ▸ hsmall)]
    rfl
  · have hlong : 64 + 64 ≤ (md5Pad input).length := by
      rw [md5Pad_length hlen, if_neg (hn ▸ hsmall)]
    rw [if_neg hsmall, if_neg hsmall, md5BlockAt_append _ hlong, md5Hash, if_neg (hn ▸ hsmall)]
    rfl

/-! ## The rounds -/

/-- The standard's words after `i` turns of the loop, in which the registers have changed places. -/
def Md5State.words (s : Md5State) (i : Nat) : Md5.State :=
  match i % 4 with
  | 0 => ⟨s.a, s.b, s.c, s.d⟩
  | 1 => ⟨s.b, s.c, s.d, s.a⟩
  | 2 => ⟨s.c, s.d, s.a, s.b⟩
  | _ => ⟨s.d, s.a, s.b, s.c⟩

/-- The word that is set in turn `i`. -/
def turnAt (i : Nat) : Md5.Turn :=
  match i % 4 with
  | 0 => .abcd
  | 1 => .dabc
  | 2 => .cdab
  | _ => .bcda

/-- An operation of the standard is what turn `i` of the loop does. -/
structure TurnIs (f : W → W → W → W) (op : Md5.Op) (i : Nat) : Prop where
  turn : op.turn = turnAt i
  mix : ∀ s, md5Mix s i = (f s.b s.c s.d, op.k)
  shift : md5Shifts.getD i 0 = op.s ∧ 0 < op.s ∧ op.s < 32
  table : md5K.getD i 0 = Md5.T.getD (op.i - 1) 0

theorem rotate_eq (x : W) {s : Nat} (hpos : 0 < s) (hlt : s < 32) :
    x.rotateRight (32 - s) = x.rotateLeft s := by
  have hback : 32 - (32 - s) = s := by omega
  rw [BitVec.rotateRight_def, BitVec.rotateLeft_def, Nat.mod_eq_of_lt (by omega : 32 - s < 32),
    Nat.mod_eq_of_lt hlt, hback, BitVec.or_comm]

section
variable {f : W → W → W → W} {op : Md5.Op} {i : Nat} {msg : List W}

theorem TurnIs.round (h : TurnIs f op i) (s : Md5State) :
    md5Round msg s i = ⟨s.d, Md5.mixed f msg op s.a s.b s.c s.d, s.b, s.c⟩ := by
  obtain ⟨hshift, hpos, hlt⟩ := h.shift
  rw [md5Round, h.mix, hshift, h.table]
  dsimp only
  have hsum : s.a + f s.b s.c s.d + Md5.T.getD (op.i - 1) 0 + msg.getD op.k 0
      = s.a + f s.b s.c s.d + msg.getD op.k 0 + Md5.T.getD (op.i - 1) 0 := by
    rw [BitVec.add_assoc, BitVec.add_comm (Md5.T.getD _ 0), ← BitVec.add_assoc]
  rw [rotate_eq _ hpos hlt, BitVec.add_comm _ s.b, hsum]
  rfl

/-- **One turn** of the loop is one operation. -/
theorem TurnIs.operate (h : TurnIs f op i) (s : Md5State) :
    (md5Round msg s i).words (i + 1) = Md5.operate f msg (s.words i) op := by
  rw [h.round, Md5.operate, h.turn, turnAt, Md5State.words, Md5State.words]
  obtain hi | hi | hi | hi : i % 4 = 0 ∨ i % 4 = 1 ∨ i % 4 = 2 ∨ i % 4 = 3 := by omega
  · have hnext : (i + 1) % 4 = 1 := by omega
    simp only [hi, hnext]
  · have hnext : (i + 1) % 4 = 2 := by omega
    simp only [hi, hnext]
  · have hnext : (i + 1) % 4 = 3 := by omega
    simp only [hi, hnext]
  · have hnext : (i + 1) % 4 = 0 := by omega
    simp only [hi, hnext]

theorem round_eq : ∀ {ops : List Md5.Op} {lo : Nat} (s : Md5State),
    (∀ j (hj : j < ops.length), TurnIs f ops[j] (lo + j)) →
    ((List.range' lo ops.length).foldl (md5Round msg) s).words (lo + ops.length)
      = ops.foldl (Md5.operate f msg) (s.words lo) := by
  intro ops
  induction ops with
  | nil => intro lo s _; rfl
  | cons op ops ih =>
      intro lo s h
      have hhead : TurnIs f op lo := h 0 (Nat.succ_pos _)
      have htail : ∀ j (hj : j < ops.length), TurnIs f ops[j] (lo + 1 + j) := by
        intro j hj
        have hpos : lo + 1 + j = lo + (j + 1) := by omega
        rw [hpos]
        exact h (j + 1) (Nat.succ_lt_succ hj)
      have hend : lo + (ops.length + 1) = lo + 1 + ops.length := by omega
      rw [List.length_cons, List.range'_succ, List.foldl_cons, List.foldl_cons,
        ← hhead.operate s, ← ih _ htail, hend]

end
/-- The entries of a round's table are those of the loop's tables from turn `lo` on, with the
message words that `g` says. -/
def Listed (ops : List Md5.Op) (lo : Nat) (g : Nat → Nat) : Prop :=
  ∀ j (hj : j < ops.length), ops[j].turn = turnAt (lo + j) ∧ ops[j].k = g (lo + j) ∧
    md5Shifts.getD (lo + j) 0 = ops[j].s ∧ 0 < ops[j].s ∧ ops[j].s < 32 ∧ ops[j].i = lo + j + 1

instance (ops : List Md5.Op) (lo : Nat) (g : Nat → Nat) : Decidable (Listed ops lo g) :=
  inferInstanceAs (Decidable (∀ j, ∀ _ : j < ops.length, _))

theorem Listed.turns {f : W → W → W → W} {ops : List Md5.Op} {lo : Nat} {g : Nat → Nat}
    (h : Listed ops lo g)
    (hmix : ∀ i s, lo ≤ i → i < lo + ops.length → md5Mix s i = (f s.b s.c s.d, g i)) :
    ∀ j (hj : j < ops.length), TurnIs f ops[j] (lo + j) := by
  intro j hj
  obtain ⟨hturn, hk, hs, hpos, hlt, hi⟩ := h j hj
  have htable : md5K = Md5.T := rfl
  refine ⟨hturn, fun s => ?_, ⟨hs, hpos, hlt⟩, ?_⟩
  · rw [hmix _ s (Nat.le_add_right ..) (Nat.add_lt_add_left hj lo), hk]
  · rw [htable, hi, Nat.add_sub_cancel]

theorem round1_listed : Listed Md5.round1 0 fun i => i := by decide

theorem round2_listed : Listed Md5.round2 16 fun i => (5 * i + 1) % 16 := by decide

theorem round3_listed : Listed Md5.round3 32 fun i => (3 * i + 5) % 16 := by decide

theorem round4_listed : Listed Md5.round4 48 fun i => 7 * i % 16 := by decide

theorem round1_mix (i : Nat) (s : Md5State) (h : i < 16) : md5Mix s i = (Md5.F s.b s.c s.d, i) := by
  rw [md5Mix, if_pos h, Md5.F, BitVec.and_comm s.d]

theorem round2_mix (i : Nat) (s : Md5State) (hlo : 16 ≤ i) (hhi : i < 32) :
    md5Mix s i = (Md5.G s.b s.c s.d, (5 * i + 1) % 16) := by
  rw [md5Mix, if_neg (by omega), if_pos hhi, Md5.G, BitVec.and_comm s.d]

theorem round3_mix (i : Nat) (s : Md5State) (hlo : 32 ≤ i) (hhi : i < 48) :
    md5Mix s i = (Md5.H s.b s.c s.d, (3 * i + 5) % 16) := by
  rw [md5Mix, if_neg (by omega), if_neg (by omega), if_pos hhi, Md5.H]

theorem round4_mix (i : Nat) (s : Md5State) (h : 48 ≤ i) :
    md5Mix s i = (Md5.I s.b s.c s.d, 7 * i % 16) := by
  rw [md5Mix, if_neg (by omega), if_neg (by omega), if_neg (by omega), Md5.I]

def Md5State.spec (s : Md5State) : Md5.State := s.words 0

/-- **`md5_block`** is the step of the standard. -/
theorem md5Block_step (s : Md5State) (msg : List W) :
    (md5Block s msg).spec = Md5.step s.spec msg := by
  have h₁ := @round_eq Md5.F msg Md5.round1 0 s
    (round1_listed.turns fun i s _ h => round1_mix i s h)
  have h₂ := @round_eq Md5.G msg Md5.round2 16 ((List.range' 0 16).foldl (md5Round msg) s)
    (round2_listed.turns fun i s hlo hhi => round2_mix i s hlo hhi)
  have h₃ := @round_eq Md5.H msg Md5.round3 32 ((List.range' 0 32).foldl (md5Round msg) s)
    (round3_listed.turns fun i s hlo hhi => round3_mix i s hlo hhi)
  have h₄ := @round_eq Md5.I msg Md5.round4 48 ((List.range' 0 48).foldl (md5Round msg) s)
    (round4_listed.turns fun i s hlo _ => round4_mix i s hlo)
  have hjoin (n : Nat) : (List.range' n 16).foldl (md5Round msg)
      ((List.range' 0 n).foldl (md5Round msg) s)
        = (List.range' 0 (n + 16)).foldl (md5Round msg) s := by
    rw [← List.foldl_append]
    congr 1
    have happ := @List.range'_append 0 n 16 1
    rwa [Nat.zero_add, Nat.one_mul] at happ
  have hlen : Md5.round1.length = 16 ∧ Md5.round2.length = 16 ∧ Md5.round3.length = 16 ∧
      Md5.round4.length = 16 := ⟨rfl, rfl, rfl, rfl⟩
  simp only [hlen, hjoin, Nat.zero_add, Nat.reduceAdd] at h₁ h₂ h₃ h₄
  rw [md5Block, List.range_eq_range']
  simp only [Md5.step, Md5State.spec, ← h₁, ← h₂, ← h₃, ← h₄]
  rfl

/-! ## The digest -/

theorem leBytes_add (j k v : Nat) : leBytes (j + k) v = leBytes j v ++ leBytes k (v / 256 ^ j) := by
  induction j generalizing v with
  | zero => rw [Nat.zero_add, Nat.pow_zero, Nat.div_one]; rfl
  | succ j ih =>
      have hdiv : v / 256 / 256 ^ j = v / 256 ^ (j + 1) := by
        rw [Nat.div_div_eq_div_mul, Nat.pow_succ, Nat.mul_comm]
      rw [Nat.add_right_comm, leBytes, leBytes, ih, hdiv, List.cons_append]

theorem wordBytes_le (w : W) : wordBytes w = leBytes 4 w.toNat := by
  have hw := w.isLt
  have hbyte : ∀ {m n : Nat}, m % 256 = n % 256 → UInt8.ofNat m = UInt8.ofNat n := by
    intro m n h
    apply UInt8.toNat_inj.mp
    rw [UInt8.toNat_ofNat', UInt8.toNat_ofNat', h]
  have h₀ := @hbyte (w.toNat % 65536 % 256) w.toNat (by omega)
  have h₁ := @hbyte (w.toNat % 65536 / 256) (w.toNat / 256) (by omega)
  have h₂ := @hbyte (w.toNat / 65536 % 256) (w.toNat / 256 / 256) (by omega)
  have h₃ := @hbyte (w.toNat / 65536 / 256) (w.toNat / 256 / 256 / 256) (by omega)
  simp only [wordBytes, halfBytes, leBytes, List.cons_append, List.nil_append, h₀, h₁, h₂, h₃]

theorem md5Pad_pad {input : List Byte} (h : input.length ≤ 119) : md5Pad input = Md5.pad input := by
  have hzeros : (if input.length + 1 ≤ 56 then 56 else 120) - (input.length + 1)
      = Md5.zeros input.length := by
    rw [Md5.zeros]
    split_ifs <;> omega
  have hbits : (BitVec.ofNat 32 (8 * input.length)).toNat = 8 * input.length := by
    rw [BitVec.toNat_ofNat]
    omega
  have hupper : 8 * input.length / 256 ^ 4 = 0 := by omega
  rw [md5Pad, Md5.pad, hzeros, wordBytes_le, wordBytes_le, hbits, leBytes_add 4 4, hupper,
    ← List.append_assoc]
  rfl

theorem leWord_eq {bytes : List Byte} {off : Nat} (h : off + 4 ≤ bytes.length) :
    leWord bytes off = BitVec.ofNat 32 (leNat ((bytes.drop off).take 4)) := by
  obtain ⟨b₀, b₁, b₂, b₃, rest, hdrop⟩ :
      ∃ b₀ b₁ b₂ b₃ rest, bytes.drop off = b₀ :: b₁ :: b₂ :: b₃ :: rest := by
    have hlen : 4 ≤ (bytes.drop off).length := by
      rw [List.length_drop]
      omega
    match hd : bytes.drop off, hlen with
    | b₀ :: b₁ :: b₂ :: b₃ :: rest, _ => exact ⟨b₀, b₁, b₂, b₃, rest, rfl⟩
  have hget : ∀ k, bytes.getD (off + k) 0 = (b₀ :: b₁ :: b₂ :: b₃ :: rest).getD k 0 := by
    intro k
    rw [← hdrop, List.getD_eq_getElem?_getD, List.getD_eq_getElem?_getD, List.getElem?_drop]
  rw [leWord, hget 3, hget 2, hget 1, ← Nat.add_zero off, hget 0, Nat.add_zero, hdrop]
  show be32 b₃ b₂ b₁ b₀ = BitVec.ofNat 32 (leNat [b₀, b₁, b₂, b₃])
  rw [be32]
  congr 1
  simp only [leNat]
  omega

theorem md5Words_block {bytes : List Byte} {n : Nat} (h : 64 * n + 64 ≤ bytes.length) :
    md5Words bytes (64 * n) = Md5.block bytes n := by
  refine List.map_congr_left fun k hk => ?_
  have hlt : k < 16 := List.mem_range.mp hk
  exact leWord_eq (by omega)

theorem md5Hash_digest {input : List Byte} (h : input.length ≤ 119) :
    md5Hash input = Md5.digest input := by
  have hlen := md5Pad_length h
  have hfirst : 64 ≤ (md5Pad input).length := by
    rw [hlen]
    split_ifs <;> omega
  have hblock₀ := @md5Words_block (md5Pad input) 0 hfirst
  have hinit : md5Init.spec = Md5.init := rfl
  have hout (s : Md5State) : md5Out s = leBytes 4 s.spec.a.toNat ++ leBytes 4 s.spec.b.toNat ++
      leBytes 4 s.spec.c.toNat ++ leBytes 4 s.spec.d.toNat := by
    simp only [md5Out, wordBytes_le]
    rfl
  rw [Md5.digest, ← md5Pad_pad h, hlen]
  by_cases hsmall : input.length < 56
  · rw [if_pos hsmall]
    have hrange : List.range (64 / 64) = [0] := rfl
    rw [hrange, List.foldl_cons, List.foldl_nil, ← hblock₀, ← hinit, ← md5Block_step, ← hout,
      md5Hash, if_pos hsmall]
    rfl
  · have hblock₁ := @md5Words_block (md5Pad input) 1 (by rw [hlen, if_neg hsmall])
    have hrange : List.range (128 / 64) = [0, 1] := rfl
    rw [if_neg hsmall, hrange, List.foldl_cons, List.foldl_cons, List.foldl_nil, ← hblock₀,
      ← hblock₁, ← hinit, ← md5Block_step, ← md5Block_step, ← hout, md5Hash, if_neg hsmall]
    rfl

/-- **MD5.**  For every input of up to 119 bytes, wherever it stands: the call ends without touching
anything but its buffer, and leaves what is behind the first 128 bytes as it was; the padded message
of the standard stands in it, and `md5_block` is called on its blocks, one up to 55 bytes and two
beyond; and the 16 bytes are the digest of the standard. -/
theorem md5_correct {mem : Nat → Option Byte} {x0 : Nat} {input stack : List Byte}
    (hin : Stands mem x0 input) (hlen : input.length ≤ 119) (hstack : stack.length = md5BufferLen) :
    ∃ run, md5HashAt mem x0 input.length stack = some run ∧
      run.buf = Md5.pad input ++ stack.drop (Md5.pad input).length ∧
      (Md5.pad input).length ≤ 128 ∧
      run.blocks = (List.range ((Md5.pad input).length / 64)).map (64 * ·) ∧
      run.blocks.length = (if input.length < 56 then 1 else 2) ∧
      run.digest = Md5.digest input := by
  have hpad := md5Pad_pad hlen
  have hpadLen := md5Pad_length hlen
  rw [hpad] at hpadLen
  refine ⟨_, md5HashAt_eq hin hlen hstack, ?_, ?_, ?_, ?_, md5Hash_digest hlen⟩
  · rw [hpad]
  · rw [hpadLen]
    split_ifs <;> omega
  · rw [hpadLen]
    split_ifs <;> rfl
  · dsimp only
    split_ifs <;> rfl

/-- 56 bytes are the least input with two blocks. -/
theorem md5_correct_demo : ∃ run,
    md5HashAt (region 4096 (List.replicate 56 0x61)) 4096 56 (List.replicate md5BufferLen 0xAA)
        = some run ∧
      run.blocks.length = 2 ∧ run.digest = Md5.digest (List.replicate 56 0x61) := by
  have hlen : (List.replicate 56 (0x61 : Byte)).length ≤ 119 := by decide
  have hstack : (List.replicate md5BufferLen (0xAA : Byte)).length = md5BufferLen :=
    List.length_replicate
  obtain ⟨run, hrun, _, _, _, hcount, hdigest⟩ :=
    md5_correct (stands_region 4096 (List.replicate 56 0x61)) hlen hstack
  rw [List.length_replicate] at hrun hcount
  exact ⟨run, hrun, hcount, hdigest⟩

end WsPi5

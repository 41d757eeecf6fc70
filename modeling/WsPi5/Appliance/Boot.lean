/-
# `WsPi5.Appliance.Boot` — `http_appliance_init` and `http_match_uri`

At boot the kernel looks at the magic of its slab (`lib/http.S`).  In a packaged one it turns the
offsets of each entry into addresses, and makes the slab's entries the active route table.

    pointer of an entry    offset 0                     other offsets
    PATH_PTR               start of the content         start of the content + offset
    BODY_PTR, HDR_PTR      stays 0: there is none       start of the content + offset

`http_match_uri` walks the active table.  Memory is linear, with numbers low byte first; what the
image holds in front of the slab, and the built-in table, are of no matter here.

**Proved here**: the loop patches each entry once and writes nothing else (`patchLoop_spec`); the
search stops at the first entry with the path (`matchScan_found`, `matchScan_none`).
-/
import WsPi5.Appliance.Package

namespace WsPi5.Appliance

open Lib

/-! ## `http_appliance_init` -/

/-- Memory, and the route-table indirection. -/
structure RouteState where
  mem : Nat → Byte
  /-- `http_routes_active` -/
  active : Nat
  /-- `http_routes_count_runtime` -/
  count : Nat

/-- BODY_PTR and HDR_PTR: `cbz` leaves a zero alone. -/
def patchPtr (x21 : Nat) (mem : Nat → Byte) (a : Nat) : Nat → Byte :=
  let x2 := loadLe mem a 8
  if x2 = 0 then mem else storeLe mem a 8 (x2 + x21)

def patchEntry (x21 : Nat) (mem : Nat → Byte) (x1 : Nat) : Nat → Byte :=
  let mem := storeLe mem (x1 + 8) 8 (loadLe mem (x1 + 8) 8 + x21)
  let mem := patchPtr x21 mem (x1 + 16)
  patchPtr x21 mem (x1 + 24)

/-- `.Lhai_loop`, `n` entries from number `w23` on. -/
def patchLoop (x20 x21 : Nat) : (n w23 : Nat) → (Nat → Byte) → Nat → Byte
  | 0, _, mem => mem
  | n + 1, w23, mem => patchLoop x20 x21 n (w23 + 1) (patchEntry x21 mem (x20 + w23 * 48))

/-- `http_appliance_init`, with the address of the slab and the built-in table. -/
def httpApplianceInit (sz : SlabSizes) (slab builtin builtinCount : Nat) (mem : Nat → Byte) :
    RouteState :=
  if loadLe mem slab 8 ≠ 0x494C504149505357 then ⟨mem, builtin, builtinCount⟩
  else
    let x20 := slab + 24
    let x21 := slab + sz.contentOff % 2 ^ 32
    let w22 := loadLe mem (slab + 12) 4
    ⟨patchLoop x20 x21 w22 0 mem, x20, w22⟩

/-! ## `http_match_uri` -/

/-- `.Lmu_cmp`: `n` more bytes, from `w6` on. -/
def matchBytes (mem : Nat → Byte) (x2 x1 : Nat) : (n w6 : Nat) → Bool
  | 0, _ => true
  | n + 1, w6 => mem (x2 + w6) = mem (x1 + w6) && matchBytes mem x2 x1 n (w6 + 1)

/-- `.Lmu_scan`: `w5` more entries, from address `x4` on. -/
def matchScan (mem : Nat → Byte) (x2 : Nat) (w3 : W) : (w5 x4 : Nat) → Nat
  | 0, _ => 0
  | w5 + 1, x4 =>
      let w0 := loadLe mem x4 4
      if w0 = w3.toNat ∧ matchBytes mem x2 (loadLe mem (x4 + 8) 8) w0 0 then x4
      else matchScan mem x2 w3 w5 (x4 + 48)

/-- `http_match_uri` on the `w1` bytes from `x0` on: the address of an entry, or 0. -/
def httpMatchUri (st : RouteState) (x0 : Nat) (w1 : W) : Nat :=
  matchScan st.mem x0 w1 st.count st.active

/-! ## One entry patched -/

def RouteEntry.relocate (x21 : Nat) (e : RouteEntry) : RouteEntry :=
  { e with
    pathPtr := (e.pathPtr + x21) % 2 ^ 64
    bodyPtr := if e.bodyPtr = 0 then 0 else (e.bodyPtr + x21) % 2 ^ 64
    hdrPtr := if e.hdrPtr = 0 then 0 else (e.hdrPtr + x21) % 2 ^ 64 }

theorem loadLe_patchPtr (x21 : Nat) (mem : Nat → Byte) (a : Nat) :
    loadLe (patchPtr x21 mem a) a 8 =
      if loadLe mem a 8 = 0 then 0 else (loadLe mem a 8 + x21) % 2 ^ 64 := by
  rw [patchPtr]
  split
  · assumption
  · exact loadLe_storeLe mem a 8 _

theorem slice_patchPtr_outside {x21 : Nat} {mem : Nat → Byte} {a b n : Nat}
    (h : b + n ≤ a ∨ a + 8 ≤ b) : slice (patchPtr x21 mem a) b n = slice mem b n := by
  rw [patchPtr]
  split
  · rfl
  · exact slice_storeLe_outside h

theorem loadLe_patchPtr_outside {x21 : Nat} {mem : Nat → Byte} {a b n : Nat}
    (h : b + n ≤ a ∨ a + 8 ≤ b) : loadLe (patchPtr x21 mem a) b n = loadLe mem b n :=
  loadLe_congr (slice_patchPtr_outside h)

theorem readEntry_patchEntry (x21 : Nat) (mem : Nat → Byte) (p : Nat) :
    readEntry (patchEntry x21 mem p) p = (readEntry mem p).relocate x21 := by
  rw [readEntry, patchEntry, RouteEntry.relocate]
  simp (disch := omega) only [loadLe_patchPtr_outside, loadLe_storeLe_outside, loadLe_patchPtr,
    loadLe_storeLe, readEntry]
  rfl

theorem slice_patchEntry_outside {x21 : Nat} {mem : Nat → Byte} {p a n : Nat}
    (h : a + n ≤ p ∨ p + 48 ≤ a) : slice (patchEntry x21 mem p) a n = slice mem a n := by
  rw [patchEntry]
  simp (disch := omega) only [slice_patchPtr_outside, slice_storeLe_outside]

/-! ## The loop -/

theorem patchLoop_spec (x20 x21 : Nat) (n w23 : Nat) (mem : Nat → Byte) :
    (∀ i, i < n → readEntry (patchLoop x20 x21 n w23 mem) (x20 + (w23 + i) * 48) =
        (readEntry mem (x20 + (w23 + i) * 48)).relocate x21) ∧
      ∀ a k, a + k ≤ x20 + w23 * 48 ∨ x20 + (w23 + n) * 48 ≤ a →
        slice (patchLoop x20 x21 n w23 mem) a k = slice mem a k := by
  induction n generalizing w23 mem with
  | zero => exact ⟨fun i hi => absurd hi (Nat.not_lt_zero i), fun _ _ _ => rfl⟩
  | succ n ih =>
      obtain ⟨hentries, hframe⟩ := ih (w23 + 1) (patchEntry x21 mem (x20 + w23 * 48))
      rw [patchLoop]
      constructor
      · intro i hi
        cases i with
        | zero =>
            have hbehind := hframe (x20 + w23 * 48) 48 (.inl (by omega))
            rw [Nat.add_zero w23, ← readEntry_patchEntry, readEntry_congr hbehind]
        | succ i =>
            have hi' := hentries i (Nat.lt_of_succ_lt_succ hi)
            have hbefore : slice (patchEntry x21 mem (x20 + w23 * 48))
                (x20 + (w23 + 1 + i) * 48) 48 = slice mem (x20 + (w23 + 1 + i) * 48) 48 :=
              slice_patchEntry_outside (.inr (by omega))
            rw [readEntry_congr hbefore] at hi'
            rw [show w23 + (i + 1) = w23 + 1 + i by omega]
            exact hi'
      · intro a k ha
        rw [hframe a k (by omega), slice_patchEntry_outside (by omega)]

/-! ## The search -/

theorem matchBytes_iff (mem : Nat → Byte) (x2 x1 : Nat) (n w6 : Nat) :
    matchBytes mem x2 x1 n w6 = true ↔
      slice mem (x2 + w6) n = slice mem (x1 + w6) n := by
  induction n generalizing w6 with
  | zero => exact ⟨fun _ => rfl, fun _ => rfl⟩
  | succ n ih =>
      rw [matchBytes, Bool.and_eq_true, decide_eq_true_eq, ih, Nat.add_comm n 1, slice_add,
        slice_add]
      exact List.cons_eq_cons.symm

/-- The entry at an address has the `w3` bytes from `x2` on as its path. -/
def Hits (mem : Nat → Byte) (x2 : Nat) (w3 : W) (p : Nat) : Prop :=
  (readEntry mem p).pathLen = w3.toNat ∧
    slice mem (readEntry mem p).pathPtr w3.toNat = slice mem x2 w3.toNat

theorem matchScan_succ (mem : Nat → Byte) (x2 : Nat) (w3 : W) (w5 x4 : Nat) :
    Hits mem x2 w3 x4 ∧ matchScan mem x2 w3 (w5 + 1) x4 = x4 ∨
      ¬Hits mem x2 w3 x4 ∧
        matchScan mem x2 w3 (w5 + 1) x4 = matchScan mem x2 w3 w5 (x4 + 48) := by
  have htest : (loadLe mem x4 4 = w3.toNat ∧
      matchBytes mem x2 (loadLe mem (x4 + 8) 8) (loadLe mem x4 4) 0 = true) ↔
        Hits mem x2 w3 x4 := by
    rw [matchBytes_iff, Nat.add_zero, Nat.add_zero]
    constructor
    · rintro ⟨hlen, hbytes⟩
      rw [hlen] at hbytes
      exact ⟨hlen, hbytes.symm⟩
    · rintro ⟨hlen, hbytes⟩
      have hlen' : loadLe mem x4 4 = w3.toNat := hlen
      rw [hlen']
      exact ⟨rfl, hbytes.symm⟩
  rw [matchScan]
  rcases Classical.em (Hits mem x2 w3 x4) with hhit | hmiss
  · exact .inl ⟨hhit, if_pos (htest.mpr hhit)⟩
  · exact .inr ⟨hmiss, if_neg fun h => hmiss (htest.mp h)⟩

theorem matchScan_found {mem : Nat → Byte} {x2 : Nat} {w3 : W} {w5 x4 k : Nat} (hk : k < w5)
    (hhit : Hits mem x2 w3 (x4 + k * 48)) (hfirst : ∀ j < k, ¬Hits mem x2 w3 (x4 + j * 48)) :
    matchScan mem x2 w3 w5 x4 = x4 + k * 48 := by
  induction w5 generalizing x4 k with
  | zero => cases hk
  | succ w5 ih =>
      cases k with
      | zero =>
          rw [Nat.zero_mul, Nat.add_zero] at hhit ⊢
          obtain ⟨-, hscan⟩ | ⟨hmiss, -⟩ := matchScan_succ mem x2 w3 w5 x4
          · exact hscan
          · exact absurd hhit hmiss
      | succ k =>
          have hmiss := hfirst 0 (Nat.succ_pos k)
          rw [Nat.zero_mul, Nat.add_zero] at hmiss
          obtain ⟨hhit', -⟩ | ⟨-, hscan⟩ := matchScan_succ mem x2 w3 w5 x4
          · exact absurd hhit' hmiss
          · have haddr : ∀ j, x4 + (j + 1) * 48 = x4 + 48 + j * 48 := by
              intro j
              omega
            rw [haddr] at hhit ⊢
            rw [hscan]
            refine ih (Nat.lt_of_succ_lt_succ hk) hhit ?_
            intro j hj
            rw [← haddr]
            exact hfirst (j + 1) (Nat.succ_lt_succ hj)

theorem matchScan_none {mem : Nat → Byte} {x2 : Nat} {w3 : W} {w5 x4 : Nat}
    (hnone : ∀ j < w5, ¬Hits mem x2 w3 (x4 + j * 48)) : matchScan mem x2 w3 w5 x4 = 0 := by
  induction w5 generalizing x4 with
  | zero => rfl
  | succ w5 ih =>
      have hmiss := hnone 0 (Nat.succ_pos w5)
      rw [Nat.zero_mul, Nat.add_zero] at hmiss
      obtain ⟨hhit, -⟩ | ⟨-, hscan⟩ := matchScan_succ mem x2 w3 w5 x4
      · exact absurd hhit hmiss
      · rw [hscan]
        apply ih
        intro j hj
        rw [show x4 + 48 + j * 48 = x4 + (j + 1) * 48 by omega]
        exact hnone (j + 1) (Nat.succ_lt_succ hj)

end WsPi5.Appliance

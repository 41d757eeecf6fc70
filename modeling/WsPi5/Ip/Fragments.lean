/-
# `WsPi5.Ip.Fragments` — what a reassembly slot holds

A slot's bitmap, buffer, total length and least TTL are those of the fragments accepted since the
slot was taken (`Holds`), whatever the slot was used for before.  On top of that:

**Proved here** (`delivered_integral_iff`), for every run and every delivered datagram: each of its bytes
comes from an accepted fragment and its length is the end of an accepted last fragment beyond
which none reaches, *if and only if* among the accepted fragments none reaches beyond the end of
the last fragment that came latest, and any other last fragment ends at a unit boundary.

**Why the condition.**  Fragments are told apart by units of eight bytes, and only a last fragment
may end inside a unit.  If a second last fragment with a greater end is accepted, the unit in which
the first one ends counts as complete although its tail was never written: the datagram then
contains what an earlier datagram left in the buffer (`stale_bytes_delivered`).
-/
import WsPi5.Ip.Reasm
import WsPi5.Lib.Run
import Mathlib.Data.List.Pairwise

namespace WsPi5

open Lib

/-! ## Units of a fragment -/

/-- Unit `u` has a byte of the fragment. -/
def IpFrag.hasUnit (f : IpFrag) (u : Nat) : Prop := f.start / 8 ≤ u ∧ u ≤ (f.stop - 1) / 8

def IpFrag.apart (f g : IpFrag) : Prop := ∀ u, ¬ (f.hasUnit u ∧ g.hasUnit u)

instance symmApart : Std.Symm IpFrag.apart := ⟨fun _ _ h u hu => h u ⟨hu.2, hu.1⟩⟩

section
variable {f g : IpFrag}

theorem fragSane_iff : fragSane f = true ↔ 1 ≤ f.payload.length ∧ f.stop ≤ reasmBufSize ∧
    (f.mf = true → f.payload.length % 8 = 0) := by
  cases hmf : f.mf <;> simp [fragSane, hmf, and_assoc]

theorem units_range (h : fragSane f = true) (u : Nat) :
    (f.off.toNat ≤ u ∧ u < f.off.toNat + f.units) ↔ f.hasUnit u := by
  have hlen := (fragSane_iff.mp h).1
  unfold IpFrag.hasUnit IpFrag.units IpFrag.stop IpFrag.start
  omega

theorem overlaps_iff {s : ReasmSlot} (h : fragSane f = true) :
    s.overlaps f = true ↔ ∃ u, f.hasUnit u ∧ testUnit s.bitmap u = true := by
  unfold ReasmSlot.overlaps
  rw [anySet_iff]
  constructor
  · rintro ⟨u, h₁, h₂, h₃⟩
    exact ⟨u, (units_range h u).mp ⟨h₁, h₂⟩, h₃⟩
  · rintro ⟨u, hu, h₃⟩
    exact ⟨u, ((units_range h u).mpr hu).1, ((units_range h u).mpr hu).2, h₃⟩

theorem hasUnit_of_byte {i : Nat} (h₁ : f.start ≤ i) (h₂ : i < f.stop) : f.hasUnit (i / 8) := by
  unfold IpFrag.hasUnit
  omega

/-- The unit of a byte belongs to the fragment, but the byte does not: the fragment ends inside
the unit. -/
theorem byte_of_hasUnit (h : fragSane f = true) {i : Nat} (hu : f.hasUnit (i / 8)) :
    f.start ≤ i ∧ (i < f.stop ∨ (f.mf = false ∧ f.stop ≤ i ∧ f.stop % 8 ≠ 0)) := by
  obtain ⟨hlen, _, hmf⟩ := fragSane_iff.mp h
  have hstart : f.start % 8 = 0 := by simp [IpFrag.start]
  unfold IpFrag.hasUnit at hu
  refine ⟨by omega, ?_⟩
  rcases Nat.lt_or_ge i f.stop with hlt | hge
  · exact .inl hlt
  · have hodd : f.stop % 8 ≠ 0 := by
      unfold IpFrag.stop at *
      omega
    refine .inr ⟨?_, hge, hodd⟩
    by_contra hm
    have := hmf (by simpa using hm)
    unfold IpFrag.stop at *
    omega

end

/-! ## What a slot holds -/

/-- The end of the last fragment that came latest. -/
def lastStop (acc : List IpFrag) : Nat :=
  match (acc.filter fun f => !f.mf).getLast? with
  | some f => f.stop
  | none => 0

/-- The least TTL of some fragments. -/
def leastTtl (acc : List IpFrag) : UInt8 :=
  acc.foldl (fun t f => if f.ttl < t then f.ttl else t) 255

/-- The slot holds the fragments `acc`, accepted in this order. -/
structure Holds (s : ReasmSlot) (acc : List IpFrag) : Prop where
  key : ∀ f ∈ acc, f.key = s.key
  sane : ∀ f ∈ acc, fragSane f = true
  apart : acc.Pairwise IpFrag.apart
  bitmap : ∀ u, testUnit s.bitmap u = true ↔ ∃ f ∈ acc, f.hasUnit u
  data : ∀ f ∈ acc, ∀ j, (hj : j < f.payload.length) → s.data (f.start + j) = f.payload[j]
  haveLast : s.haveLast = acc.any fun f => !f.mf
  totalLen : s.totalLen = lastStop acc
  minTtl : s.minTtl = leastTtl acc

theorem Holds.nil {s : ReasmSlot} (hb : s.bitmap = fun _ => 0) (hl : s.haveLast = false)
    (ht : s.totalLen = 0) (hm : s.minTtl = 255) : Holds s [] where
  key := by simp
  sane := by simp
  apart := .nil
  bitmap := by simp [hb, testUnit]
  data := by simp
  haveLast := by simp [hl]
  totalLen := by simp [ht, lastStop]
  minTtl := by simp [hm, leastTtl]

theorem holds_take (s : ReasmSlot) (f : IpFrag) : Holds (s.take f) [] := .nil rfl rfl rfl rfl

theorem apart_bytes {f g : IpFrag} (h : f.apart g) {i : Nat} (hf : f.start ≤ i ∧ i < f.stop) :
    ¬ (g.start ≤ i ∧ i < g.stop) := fun hg =>
  h (i / 8) ⟨hasUnit_of_byte hf.1 hf.2, hasUnit_of_byte hg.1 hg.2⟩

/-- **Storing a fragment** of the slot's datagram that overlaps nothing. -/
theorem Holds.store {s : ReasmSlot} {acc : List IpFrag} {f : IpFrag} (h : Holds s acc)
    (hkey : f.key = s.key) (hsane : fragSane f = true) (hno : s.overlaps f = false) :
    Holds (s.store f) (acc ++ [f]) := by
  have hapart : ∀ g ∈ acc, g.apart f := by
    intro g hg u hu
    have hset : testUnit s.bitmap u = true := (h.bitmap u).mpr ⟨g, hg, hu.1⟩
    have : s.overlaps f = true := (overlaps_iff hsane).mpr ⟨u, hu.2, hset⟩
    rw [hno] at this
    cases this
  refine ⟨?_, ?_, ?_, ?_, ?_, ?_, ?_, ?_⟩
  · intro g hg
    rcases List.mem_append.mp hg with hg | hg
    · exact h.key g hg
    · rw [List.mem_singleton.mp hg]
      exact hkey
  · intro g hg
    rcases List.mem_append.mp hg with hg | hg
    · exact h.sane g hg
    · rw [List.mem_singleton.mp hg]
      exact hsane
  · rw [List.pairwise_append]
    refine ⟨h.apart, List.pairwise_singleton _ _, fun g hg f' hf' => ?_⟩
    rw [List.mem_singleton.mp hf']
    exact hapart g hg
  · intro u
    show testUnit (setRange s.bitmap f.off.toNat f.units) u = true ↔ _
    rw [testUnit_setRange, Bool.or_eq_true, h.bitmap u, decide_eq_true_eq, units_range hsane]
    simp [List.mem_append, or_and_right, exists_or]
  · intro g hg j hj
    show memWrite s.data f.start f.payload (g.start + j) = g.payload[j]
    rcases List.mem_append.mp hg with hg | hg
    · -- the bytes of `g` are not among those written
      have hout := apart_bytes (hapart g hg) (i := g.start + j)
        ⟨by omega, by unfold IpFrag.stop; omega⟩
      rw [← h.data g hg j hj]
      rcases Nat.lt_or_ge (g.start + j) f.start with hlt | hge
      · exact memWrite_of_lt _ hlt
      · refine memWrite_of_ge _ ?_
        unfold IpFrag.stop at hout
        omega
    · cases List.mem_singleton.mp hg
      exact memWrite_get f.payload hj
  · show (s.haveLast || !f.mf) = _
    rw [h.haveLast]
    simp
  · show (if f.mf = true then s.totalLen else f.stop) = lastStop (acc ++ [f])
    unfold lastStop
    cases hmf : f.mf with
    | true => simp [hmf, h.totalLen, lastStop]
    | false => simp [hmf]
  · show (if f.ttl < s.minTtl then f.ttl else s.minTtl) = leastTtl (acc ++ [f])
    simp [leastTtl, h.minTtl]

/-! ## Acceptance -/

section
variable {κ : Type} {env : ReasmEnv κ} {now : Tick} {f : IpFrag} {r r' : Reasm κ} {k : RIndex}

/-- The slot that accepts a fragment, with the state in which that slot has been taken. -/
def Reasm.accepting (env : ReasmEnv κ) (now : Tick) (f : IpFrag) (r : Reasm κ) :
    Option (RIndex × Reasm κ) :=
  if fragSane f then
    (r.slotFor env now f).filter fun a => !(a.2.slot a.1).overlaps f
  else none

theorem find_some {key : FragKey} (h : r.find key = some k) :
    (r.slot k).active = true ∧ (r.slot k).key = key := by
  have := List.find?_some h
  simpa using this

theorem find_none {key : FragKey} (h : r.find key = none) (j : RIndex)
    (hj : (r.slot j).active = true) : (r.slot j).key ≠ key := by
  have := List.find?_eq_none.mp h j (List.mem_finRange j)
  simpa [hj] using this

theorem firstFree_inactive (h : r.firstFree = some k) : (r.slot k).active = false := by
  have := List.find?_some h
  simpa using this

theorem firstFree_full (h : r.firstFree = none) (j : RIndex) : (r.slot j).active = true := by
  have := List.find?_eq_none.mp h j (List.mem_finRange j)
  simpa using this

@[simp] theorem put_slot_self (r : Reasm κ) (k : RIndex) (s : ReasmSlot) :
    (r.put k s).slot k = s := by
  simp [Reasm.put]

theorem put_slot_of_ne (r : Reasm κ) {j k : RIndex} (s : ReasmSlot) (h : j ≠ k) :
    (r.put k s).slot j = r.slot j := by
  simp [Reasm.put, h]

@[simp] theorem put_pool (r : Reasm κ) (k : RIndex) (s : ReasmSlot) :
    (r.put k s).pool = r.pool := rfl

/-- Taking a slot: the other slots are left alone, and nothing is held yet. -/
theorem allocate_slot (env : ReasmEnv κ) (now : Tick) (f : IpFrag) (k : RIndex) (r : Reasm κ) :
    (∀ j, j ≠ k → (r.allocate env now f k).slot j = r.slot j) ∧
      ((r.allocate env now f k).slot k).active = true ∧
      ((r.allocate env now f k).slot k).key = f.key ∧
      Holds ((r.allocate env now f k).slot k) [] := by
  unfold Reasm.allocate
  split
  · refine ⟨fun j hj => put_slot_of_ne r _ hj, ?_⟩
    simp only [put_slot_self]
    exact ⟨rfl, rfl, .nil rfl rfl rfl rfl⟩
  · refine ⟨fun j hj => put_slot_of_ne r _ hj, ?_⟩
    rw [put_slot_self]
    exact ⟨rfl, rfl, holds_take _ _⟩

theorem slotFor_some (h : r.slotFor env now f = some (k, r')) :
    (r.find f.key = some k ∧ r' = r) ∨
    (r.find f.key = none ∧ r.firstFree = some k ∧ r' = r.allocate env now f k) := by
  unfold Reasm.slotFor at h
  split at h
  · rename_i j hj
    cases h
    exact .inl ⟨hj, rfl⟩
  · rename_i hnone
    split at h
    · rename_i j hj
      cases h
      exact .inr ⟨hnone, hj, rfl⟩
    · cases h

theorem accepting_some (h : r.accepting env now f = some (k, r')) :
    fragSane f = true ∧ r.slotFor env now f = some (k, r') ∧
      (r'.slot k).overlaps f = false := by
  unfold Reasm.accepting at h
  split at h
  · rename_i hsane
    obtain ⟨hslot, hno⟩ := Option.filter_eq_some_iff.mp h
    exact ⟨hsane, hslot, by simpa using hno⟩
  · cases h

theorem overlaps_taken (hs : fragSane f = true) :
    ((r.allocate env now f k).slot k).overlaps f = false := by
  have hholds := (allocate_slot env now f k r).2.2.2
  cases hov : ((r.allocate env now f k).slot k).overlaps f with
  | false => rfl
  | true =>
      obtain ⟨u, _, hset⟩ := (overlaps_iff hs).mp hov
      obtain ⟨g, hg, _⟩ := (hholds.bitmap u).mp hset
      cases hg

/-- **What `ip_reasm_input` does**: nothing, or it stores the fragment in a slot that accepts
it. -/
theorem ipReasmInput_cases (env : ReasmEnv κ) (now : Tick) (f : IpFrag) (r : Reasm κ) :
    (r.accepting env now f = none ∧ ipReasmInput env now f r = (r, none)) ∨
    ∃ k r', r.accepting env now f = some (k, r') ∧
      ipReasmInput env now f r = r'.deliver env f k := by
  unfold ipReasmInput Reasm.accepting
  split
  · rename_i hsane
    cases hslot : r.slotFor env now f with
    | none => exact .inl ⟨rfl, rfl⟩
    | some a =>
        obtain ⟨k, r'⟩ := a
        dsimp only
        by_cases hov : (r'.slot k).overlaps f = true
        · rw [if_pos hov]
          refine .inl ⟨by simp [hov], ?_⟩
          rcases slotFor_some hslot with ⟨_, rfl⟩ | ⟨_, _, rfl⟩
          · rfl
          · rw [overlaps_taken hsane] at hov
            cases hov
        · rw [if_neg hov]
          exact .inr ⟨k, r', by simp [hov], rfl⟩
  · exact .inl ⟨rfl, rfl⟩

theorem deliver_slot (env : ReasmEnv κ) (f : IpFrag) (k : RIndex) (r : Reasm κ) :
    (∀ j, j ≠ k → (r.deliver env f k).1.slot j = r.slot j) ∧
      ((r.deliver env f k).1.slot k = (r.slot k).store f ∨
        ((r.deliver env f k).1.slot k).active = false) := by
  unfold Reasm.deliver Reasm.cancelTimer
  dsimp only
  split
  · split
    · exact ⟨fun j hj => put_slot_of_ne r _ hj, .inr (by simp [ReasmSlot.free])⟩
    · split
      · exact ⟨fun j hj => put_slot_of_ne r _ hj, .inr (by simp [ReasmSlot.free])⟩
      · exact ⟨fun j hj => put_slot_of_ne r _ hj, .inr (by simp [ReasmSlot.free])⟩
  · exact ⟨fun j hj => put_slot_of_ne r _ hj, .inl (put_slot_self ..)⟩

theorem deliver_some {p : IpPacket} (h : (r.deliver env f k).2 = some p) :
    ((r.slot k).store f).complete = true ∧ p = ((r.slot k).store f).rebuilt := by
  unfold Reasm.deliver at h
  dsimp only at h
  split at h
  · rename_i hc
    split at h
    · cases h
    · cases h
      exact ⟨hc, rfl⟩
  · cases h

end

/-! ## The history of the slots -/

/-- What can happen to the slots: a fragment arrives, a slot's timer fires, the other users of the
pool do something to it. -/
inductive ReasmEvent (κ : Type) where
  | frag (now : Tick) (f : IpFrag)
  | timeout (k : RIndex)
  | others (pool : TimerPool κ)

/-- The slots, and for each the fragments accepted since it was taken. -/
structure Logged (κ : Type) where
  reasm : Reasm κ
  acc : RIndex → List IpFrag

section
variable {κ : Type} (env : ReasmEnv κ)

/-- The fragments accepted for the datagram of `f`, with `f`, if `f` is accepted. -/
def Logged.accepted (now : Tick) (f : IpFrag) (l : Logged κ) : List IpFrag :=
  match l.reasm.accepting env now f with
  | some (k, _) => if l.reasm.find f.key = some k then l.acc k ++ [f] else [f]
  | none => []

def Logged.step (l : Logged κ) : ReasmEvent κ → Option (Logged κ)
  | .frag now f => some
      { reasm := (ipReasmInput env now f l.reasm).1
        acc := match l.reasm.accepting env now f with
          | some (k, _) => Function.update l.acc k (l.accepted env now f)
          | none => l.acc }
  | .timeout k => some { l with reasm := (ipReasmTimeoutCb k l.reasm).1 }
  | .others pool => some { l with reasm := { l.reasm with pool := pool } }

/-- Every slot in use holds the fragments of its history. -/
def Logged.Ok (l : Logged κ) : Prop :=
  ∀ k, (l.reasm.slot k).active = true → Holds (l.reasm.slot k) (l.acc k)

end

section
variable {κ : Type} {env : ReasmEnv κ} {now : Tick} {f : IpFrag} {l l' : Logged κ} {k : RIndex}
  {r' : Reasm κ}

theorem Logged.Ok.accepting (h : l.Ok) (ha : l.reasm.accepting env now f = some (k, r')) :
    ∃ before, l.accepted env now f = before ++ [f] ∧ Holds (r'.slot k) before ∧
      (r'.slot k).key = f.key ∧ (r'.slot k).active = true := by
  obtain ⟨_, hslot, _⟩ := accepting_some ha
  unfold Logged.accepted
  rw [ha]
  dsimp only
  rcases slotFor_some hslot with ⟨hfind, rfl⟩ | ⟨hfind, _, rfl⟩
  · obtain ⟨hact, hkey⟩ := find_some hfind
    exact ⟨l.acc k, if_pos hfind, h k hact, hkey, hact⟩
  · obtain ⟨_, hact, hkey, hholds⟩ := allocate_slot env now f k l.reasm
    exact ⟨[], if_neg (by rw [hfind]; simp), hholds, hkey, hact⟩

theorem Logged.Ok.stored (h : l.Ok) (ha : l.reasm.accepting env now f = some (k, r')) :
    Holds ((r'.slot k).store f) (l.accepted env now f) := by
  obtain ⟨hsane, _, hno⟩ := accepting_some ha
  obtain ⟨before, heq, hholds, hkey, _⟩ := h.accepting ha
  rw [heq]
  exact hholds.store hkey.symm hsane hno

theorem accepting_other (ha : l.reasm.accepting env now f = some (k, r')) {j : RIndex}
    (hj : j ≠ k) : r'.slot j = l.reasm.slot j := by
  obtain ⟨_, hslot, _⟩ := accepting_some ha
  rcases slotFor_some hslot with ⟨_, rfl⟩ | ⟨_, _, rfl⟩
  · rfl
  · exact (allocate_slot env now f k l.reasm).1 j hj

/-- **Every event keeps the histories true.** -/
theorem Logged.Ok.step {e : ReasmEvent κ} (h : l.Ok) (hst : l.step env e = some l') : l'.Ok := by
  cases e with
  | frag now f =>
      cases hst
      intro j hj
      dsimp only at hj ⊢
      rcases ipReasmInput_cases env now f l.reasm with ⟨ha, heq⟩ | ⟨k, r', ha, heq⟩
      · rw [heq] at hj ⊢
        rw [ha]
        exact h j hj
      · rw [heq] at hj ⊢
        rw [ha]
        dsimp only
        obtain ⟨hother, hself⟩ := deliver_slot env f k r'
        by_cases hjk : j = k
        · subst hjk
          rw [Function.update_self]
          rcases hself with hstore | hfree
          · rw [hstore]
            exact h.stored ha
          · rw [hfree] at hj
            cases hj
        · rw [Function.update_of_ne hjk, hother j hjk, accepting_other ha hjk]
          rw [hother j hjk, accepting_other ha hjk] at hj
          exact h j hj
  | timeout k =>
      cases hst
      intro j hj
      by_cases hjk : j = k
      · subst hjk
        simp [ipReasmTimeoutCb, ReasmSlot.free] at hj
      · have hsame : (ipReasmTimeoutCb k l.reasm).1.slot j = l.reasm.slot j :=
          put_slot_of_ne _ _ hjk
        dsimp only at hj ⊢
        rw [hsame] at hj ⊢
        exact h j hj
  | others pool =>
      cases hst
      exact h

/-- The slots right after `ip_reasm_init`. -/
def loggedInit (pool : TimerPool κ) : Logged κ := ⟨ipReasmInit pool, fun _ => []⟩

theorem logged_reachable {pool : TimerPool κ}
    (h : Run (Logged.step env) anyEvent (loggedInit pool) l) : l.Ok := by
  refine h.invariant ?_ fun hl _ hst => hl.step hst
  intro k hk
  simp [loggedInit, ipReasmInit] at hk

end

/-! ## Integrity of what is delivered -/

/-- The packet is made of the fragments `acc`: they are of its datagram, each byte was written by
one of them, and its length is the end of a last fragment beyond which none reaches. -/
structure Integral (acc : List IpFrag) (p : IpPacket) : Prop where
  key : ∀ f ∈ acc, f.key = ⟨p.src, p.dst, p.id, p.proto⟩
  bytes : ∀ i, i < p.payload.length →
    ∃ f ∈ acc, f.start ≤ i ∧ i < f.stop ∧ f.payload[i - f.start]? = p.payload[i]?
  length : ∃ f ∈ acc, f.mf = false ∧ f.stop = p.payload.length
  within : ∀ f ∈ acc, f.stop ≤ p.payload.length

/-- None reaches beyond the last fragment that came latest, and no other last fragment ends
inside a unit. -/
def endsOnce (acc : List IpFrag) : Prop :=
  (∀ f ∈ acc, f.stop ≤ lastStop acc) ∧
    ∀ f ∈ acc, f.mf = false → f.stop = lastStop acc ∨ f.stop % 8 = 0

instance decEndsOnce (acc : List IpFrag) : Decidable (endsOnce acc) :=
  inferInstanceAs (Decidable (_ ∧ _))

theorem lastStop_mem {acc : List IpFrag} (h : (acc.any fun f => !f.mf) = true) :
    ∃ f ∈ acc, f.mf = false ∧ f.stop = lastStop acc := by
  have hne : (acc.filter fun f => !f.mf) ≠ [] := by
    obtain ⟨f, hf, hmf⟩ := List.any_eq_true.mp h
    exact List.ne_nil_of_mem (List.mem_filter.mpr ⟨hf, hmf⟩)
  have hlast := List.getLast?_eq_some_getLast hne
  have hmem := List.mem_filter.mp (List.getLast_mem hne)
  refine ⟨_, hmem.1, by simpa using hmem.2, ?_⟩
  rw [lastStop, hlast]

section
variable {s : ReasmSlot} {acc : List IpFrag}

theorem rebuilt_payload (s : ReasmSlot) : s.rebuilt.payload = slice s.data 0 s.totalLen := rfl

theorem Holds.complete_unit (h : Holds s acc) (hc : s.complete = true) {i : Nat}
    (hi : i < s.totalLen) : ∃ f ∈ acc, f.hasUnit (i / 8) := by
  have hall := (Bool.and_eq_true _ _ ▸ hc).2
  exact (h.bitmap _).mp ((allSet_iff _ _).mp hall (i / 8) (by omega))

theorem Holds.complete_last (h : Holds s acc) (hc : s.complete = true) :
    ∃ f ∈ acc, f.mf = false ∧ f.stop = s.totalLen := by
  have hlast := (Bool.and_eq_true _ _ ▸ hc).1
  rw [h.totalLen]
  exact lastStop_mem (h.haveLast ▸ hlast)

theorem Holds.byte (h : Holds s acc) {f : IpFrag} (hf : f ∈ acc) {i : Nat} (hi : i < s.totalLen)
    (h₁ : f.start ≤ i) (h₂ : i < f.stop) :
    f.payload[i - f.start]? = s.rebuilt.payload[i]? := by
  have hj : i - f.start < f.payload.length := by
    unfold IpFrag.stop at h₂
    omega
  have hcell := h.data f hf (i - f.start) hj
  rw [rebuilt_payload, slice_getElem? _ hi, List.getElem?_eq_getElem hj, ← hcell]
  congr 2
  omega

/-- **When a complete slot delivers what it was sent.** -/
theorem Holds.integral_of_complete (h : Holds s acc) (hc : s.complete = true) :
    Integral acc s.rebuilt ↔ endsOnce acc := by
  have hlen : s.rebuilt.payload.length = s.totalLen := by simp [rebuilt_payload]
  constructor
  · intro hint
    refine ⟨fun f hf => ?_, fun f hf hmf => ?_⟩
    · have := hint.within f hf
      rwa [hlen, h.totalLen] at this
    · -- a last fragment that ends inside a unit: nothing else can have written the next byte
      by_contra hbad
      rw [not_or] at hbad
      obtain ⟨hne, hodd⟩ := hbad
      have hle := hint.within f hf
      rw [hlen] at hle
      have hne' : f.stop ≠ s.totalLen := by
        rw [h.totalLen]
        exact hne
      obtain ⟨g, hg, hg₁, hg₂, _⟩ := hint.bytes f.stop (by rw [hlen]; omega)
      have hshared : f.hasUnit (f.stop / 8) ∧ g.hasUnit (f.stop / 8) := by
        refine ⟨?_, hasUnit_of_byte hg₁ hg₂⟩
        have := (fragSane_iff.mp (h.sane f hf)).1
        unfold IpFrag.hasUnit IpFrag.stop at *
        omega
      have hfg : f ≠ g := by
        rintro rfl
        omega
      exact h.apart.forall hf hg hfg (f.stop / 8) hshared
  · rintro ⟨hwithin, honce⟩
    refine ⟨fun f hf => h.key f hf, ?_, ?_, ?_⟩
    · intro i hi
      rw [hlen] at hi
      obtain ⟨f, hf, hu⟩ := h.complete_unit hc hi
      obtain ⟨h₁, h₂ | ⟨hmf, hge, hodd⟩⟩ := byte_of_hasUnit (h.sane f hf) hu
      · exact ⟨f, hf, h₁, h₂, h.byte hf hi h₁ h₂⟩
      · rcases honce f hf hmf with hstop | heven
        · rw [← h.totalLen] at hstop
          omega
        · exact absurd heven hodd
    · rw [hlen]
      exact h.complete_last hc
    · intro f hf
      rw [hlen, h.totalLen]
      exact hwithin f hf

end

/-- **Integrity of reassembly.**  In every state that any sequence of fragments, timeouts and uses
of the pool leads to, and for every fragment that completes a datagram. -/
theorem delivered_integral_iff {κ : Type} {env : ReasmEnv κ} {pool : TimerPool κ} {l : Logged κ}
    {now : Tick} {f : IpFrag} {p : IpPacket}
    (hrun : Run (Logged.step env) anyEvent (loggedInit pool) l)
    (hp : (ipReasmInput env now f l.reasm).2 = some p) :
    Integral (l.accepted env now f) p ↔ endsOnce (l.accepted env now f) := by
  rcases ipReasmInput_cases env now f l.reasm with ⟨_, heq⟩ | ⟨k, r', ha, heq⟩
  · rw [heq] at hp
    cases hp
  · rw [heq] at hp
    obtain ⟨hc, rfl⟩ := deliver_some hp
    exact ((logged_reachable hrun).stored ha).integral_of_complete hc

/-! A sender of UDP datagrams, and a pool with sixteen entries. -/

def demoReasm : ReasmEnv RIndex := ⟨1000, true, id⟩

def demoFrag (mf : Bool) (off : BitVec 13) (payload : List UInt8) : IpFrag where
  key := ⟨9, 7, 1, 17⟩
  ttl := 64
  mf := mf
  off := off
  payload := payload

/-- The fragment with the last five bytes comes first, then the first eight bytes. -/
theorem delivered_integral_demo : ∃ (l : Logged RIndex) (p : IpPacket),
    Run (Logged.step demoReasm) anyEvent (loggedInit (timerPoolInit RIndex 16)) l ∧
    (ipReasmInput demoReasm 1 (demoFrag true 0 (List.replicate 8 1)) l.reasm).2 = some p ∧
    p.payload.length = 13 ∧
    Integral (l.accepted demoReasm 1 (demoFrag true 0 (List.replicate 8 1))) p := by
  obtain ⟨l, hrun, hends, p, hp, hlen⟩ := exists_run (Logged.step demoReasm) anyEvent
    (loggedInit (timerPoolInit RIndex 16))
    (Q := fun l => endsOnce (l.accepted demoReasm 1 (demoFrag true 0 (List.replicate 8 1))) ∧
      ∃ p ∈ (ipReasmInput demoReasm 1 (demoFrag true 0 (List.replicate 8 1)) l.reasm).2,
        p.payload.length = 13)
    [.frag 1 (demoFrag false 1 (List.replicate 5 2))]
    (by decide +kernel) (by decide +kernel)
  exact ⟨l, p, hrun, hp, hlen, (delivered_integral_iff hrun hp).mpr hends⟩

/-- Two last fragments, of which the first ends inside a unit: bytes 13 to 15 of the datagram were
not sent. -/
theorem stale_bytes_delivered : ∃ (l : Logged RIndex) (p : IpPacket),
    Run (Logged.step demoReasm) anyEvent (loggedInit (timerPoolInit RIndex 16)) l ∧
    (ipReasmInput demoReasm 1 (demoFrag true 0 (List.replicate 8 1)) l.reasm).2 = some p ∧
    ¬ Integral (l.accepted demoReasm 1 (demoFrag true 0 (List.replicate 8 1))) p := by
  obtain ⟨l, hrun, hacc, p, hp, hlen⟩ := exists_run (Logged.step demoReasm) anyEvent
    (loggedInit (timerPoolInit RIndex 16))
    (Q := fun l => (∀ g ∈ l.accepted demoReasm 1 (demoFrag true 0 (List.replicate 8 1)),
        ¬ (g.start ≤ 13 ∧ 13 < g.stop)) ∧
      ∃ p ∈ (ipReasmInput demoReasm 1 (demoFrag true 0 (List.replicate 8 1)) l.reasm).2,
        p.payload.length = 24)
    [.frag 1 (demoFrag false 1 (List.replicate 5 2)), .frag 1 (demoFrag false 2 (List.replicate 8 3))]
    (by decide +kernel) (by decide +kernel)
  refine ⟨l, p, hrun, hp, fun hint => ?_⟩
  obtain ⟨g, hg, h₁, h₂, _⟩ := hint.bytes 13 (by rw [hlen]; omega)
  exact hacc g hg ⟨h₁, h₂⟩

end WsPi5

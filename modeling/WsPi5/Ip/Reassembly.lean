/-
# `WsPi5.Ip.Reassembly` — fragmented datagrams arrive whole

Up to four datagrams of at most 1480 bytes are cut into fragments, each into two or more, at
multiples of eight bytes.  The fragments arrive in any order and interleaving; as long as a
datagram is incomplete, fragments of it that have arrived may arrive again.

**Proved here** (`reassembly_correct`): `ip_reasm_input` answers an arrival with the datagram
exactly when that arrival brings its last missing fragment, and with 0 otherwise; the packet has
the payload that was cut, length and key of the datagram, no fragment bits, the least TTL of its
fragments and a checksum that verifies.

**The invariant** (`TrafficOk`).  A slot in use belongs to one of the datagrams, which is
incomplete, and holds (`Holds`) the fragments of it that have arrived; a datagram without a slot
has had none of its fragments arrive, or all.  So a datagram that needs a slot finds one: the
others in use are at most three.
-/
import WsPi5.Ip.Fragments
import Mathlib.Data.Fintype.Card

namespace WsPi5

open Lib

/-! ## Cutting a datagram -/

/-- The fragments, in order, are `rest` cut up, from offset `off` on. -/
def IsCut : Nat → List UInt8 → List IpFrag → Prop
  | _, _, [] => False
  | off, rest, [f] => f.start = off ∧ f.mf = false ∧ f.payload = rest ∧ rest ≠ []
  | off, rest, f :: g :: fs =>
      f.start = off ∧ f.mf = true ∧ f.payload ≠ [] ∧ f.payload.length % 8 = 0 ∧
        ∃ tail, rest = f.payload ++ tail ∧ IsCut (off + f.payload.length) tail (g :: fs)

/-- A datagram and how it was fragmented. -/
structure Datagram where
  key : FragKey
  payload : List UInt8
  frags : List IpFrag
  keyed : ∀ f ∈ frags, f.key = key
  two : 2 ≤ frags.length
  size : payload.length ≤ 1480
  cut : IsCut 0 payload frags

/-- What is used of a cut. -/
structure CutFacts (off : Nat) (rest : List UInt8) (frags : List IpFrag) : Prop where
  filled : ∀ f ∈ frags, 1 ≤ f.payload.length ∧ (f.mf = true → f.payload.length % 8 = 0)
  inside : ∀ f ∈ frags, off ≤ f.start ∧ f.stop ≤ off + rest.length
  bytes : ∀ f ∈ frags, ∀ i, f.start ≤ i → i < f.stop →
    f.payload[i - f.start]? = rest[i - off]?
  covers : ∀ i, off ≤ i → i < off + rest.length → ∃ f ∈ frags, f.start ≤ i ∧ i < f.stop
  apart : frags.Pairwise IpFrag.apart
  last : ∀ f ∈ frags, f.mf = false → f.stop = off + rest.length
  hasLast : ∃ f ∈ frags, f.mf = false

theorem cutFacts_single {f : IpFrag} (hmf : f.mf = false) (hne : f.payload ≠ []) :
    CutFacts f.start f.payload [f] where
  filled := by
    intro g hg
    rw [List.mem_singleton.mp hg]
    exact ⟨List.length_pos_of_ne_nil hne, by simp [hmf]⟩
  inside := by
    intro g hg
    rw [List.mem_singleton.mp hg]
    exact ⟨Nat.le_refl _, Nat.le_refl _⟩
  bytes := by
    intro g hg i _ _
    rw [List.mem_singleton.mp hg]
  covers := fun i h₁ h₂ => ⟨f, by simp, h₁, h₂⟩
  apart := List.pairwise_singleton _ _
  last := by
    intro g hg _
    rw [List.mem_singleton.mp hg]
    rfl
  hasLast := ⟨f, by simp, hmf⟩

theorem CutFacts.cons {f : IpFrag} {tail : List UInt8} {frags : List IpFrag} (hmf : f.mf = true)
    (hne : f.payload ≠ []) (height : f.payload.length % 8 = 0) (h : CutFacts f.stop tail frags) :
    CutFacts f.start (f.payload ++ tail) (f :: frags) := by
  have hlen : (f.payload ++ tail).length = f.payload.length + tail.length := List.length_append
  have hpos := List.length_pos_of_ne_nil hne
  have hstop : f.stop = f.start + f.payload.length := rfl
  refine ⟨?_, ?_, ?_, ?_, ?_, ?_, ?_⟩
  · rintro g hg
    rcases List.mem_cons.mp hg with rfl | hg
    · exact ⟨hpos, fun _ => height⟩
    · exact h.filled g hg
  · intro g hg
    rw [hlen]
    rcases List.mem_cons.mp hg with rfl | hg
    · exact ⟨Nat.le_refl _, by omega⟩
    · obtain ⟨h₁, h₂⟩ := h.inside g hg
      exact ⟨by omega, by omega⟩
  · intro g hg i h₁ h₂
    rcases List.mem_cons.mp hg with rfl | hg
    · rw [List.getElem?_append_left (by omega)]
    · have hin := (h.inside g hg).1
      rw [h.bytes g hg i h₁ h₂, List.getElem?_append_right (by omega)]
      congr 1
      omega
  · intro i h₁ h₂
    rcases Nat.lt_or_ge i f.stop with hlt | hge
    · exact ⟨f, by simp, h₁, hlt⟩
    · obtain ⟨g, hg, hg'⟩ := h.covers i hge (by omega)
      exact ⟨g, by simp [hg], hg'⟩
  · refine List.pairwise_cons.mpr ⟨fun g hg u hu => ?_, h.apart⟩
    -- `f` ends at a unit boundary, where or before which `g` begins
    have hin := (h.inside g hg).1
    have heven : f.start % 8 = 0 := by simp [IpFrag.start]
    unfold IpFrag.hasUnit at hu
    omega
  · intro g hg hlast
    rcases List.mem_cons.mp hg with rfl | hg
    · rw [hmf] at hlast
      cases hlast
    · rw [h.last g hg hlast, hlen, hstop]
      omega
  · obtain ⟨g, hg, hlast⟩ := h.hasLast
    exact ⟨g, by simp [hg], hlast⟩

theorem IsCut.facts : ∀ {frags : List IpFrag} {off : Nat} {rest : List UInt8},
    IsCut off rest frags → CutFacts off rest frags
  | [], _, _, h => h.elim
  | [f], off, rest, h => by
      obtain ⟨rfl, hmf, rfl, hne⟩ := h
      exact cutFacts_single hmf hne
  | f :: g :: fs, off, rest, h => by
      obtain ⟨rfl, hmf, hne, height, tail, rfl, htail⟩ := h
      exact (IsCut.facts htail).cons hmf hne height

section
variable {d : Datagram} {f : IpFrag}

theorem Datagram.facts (d : Datagram) : CutFacts 0 d.payload d.frags := d.cut.facts

theorem Datagram.sane (hf : f ∈ d.frags) : fragSane f = true := by
  obtain ⟨hpos, height⟩ := d.facts.filled f hf
  have hin := (d.facts.inside f hf).2
  have hsize := d.size
  refine fragSane_iff.mpr ⟨hpos, ?_, height⟩
  unfold reasmBufSize
  omega

theorem Datagram.apart {g : IpFrag} (hf : f ∈ d.frags) (hg : g ∈ d.frags) (hne : f ≠ g) :
    f.apart g :=
  d.facts.apart.forall hf hg hne

end

/-! ## The packet -/

/-- The packet is the datagram. -/
structure IsWhole (d : Datagram) (p : IpPacket) : Prop where
  payload : p.payload = d.payload
  totlen : p.totlen = 20 + d.payload.length
  key : ⟨p.src, p.dst, p.id, p.proto⟩ = d.key
  noFrag : p.flagsFrag = 0
  ttl_le : ∀ f ∈ d.frags, p.ttl ≤ f.ttl
  ttl_mem : ∃ f ∈ d.frags, p.ttl = f.ttl
  checksum : ipChecksum p.header = 0

theorem rebuilt_checksum (s : ReasmSlot) : ipChecksum s.rebuilt.header = 0 := by
  have hlen : s.rebuiltBare.header.length = 20 := rfl
  have hsum := halfSum_le s.rebuiltBare.header
  rw [hlen] at hsum
  have hten : s.rebuiltBare.headerFront.length = 10 := rfl
  have hfront : s.rebuiltBare.headerFront.length % 2 = 0 := by rw [hten]
  have heq : halfSum (s.rebuiltBare.headerFront ++ halfBytes 0 ++
      (wordBytes s.rebuiltBare.src ++ wordBytes s.rebuiltBare.dst))
      = halfSum s.rebuiltBare.header := rfl
  have hver := @checksum_verifies 0 s.rebuiltBare.headerFront
    (wordBytes s.rebuiltBare.src ++ wordBytes s.rebuiltBare.dst) hfront (by omega)
  simp only [Nat.zero_add] at hver
  exact hver

theorem leastTtl_spec {acc : List IpFrag} (hne : acc ≠ []) :
    (∀ f ∈ acc, leastTtl acc ≤ f.ttl) ∧ ∃ f ∈ acc, leastTtl acc = f.ttl := by
  have hfold : ∀ (acc : List IpFrag) (t : UInt8),
      let m := acc.foldl (fun t f => if f.ttl < t then f.ttl else t) t
      m ≤ t ∧ (∀ f ∈ acc, m ≤ f.ttl) ∧ (m = t ∨ ∃ f ∈ acc, m = f.ttl) := by
    intro acc
    induction acc with
    | nil => exact fun t => ⟨UInt8.le_refl _, by simp, .inl rfl⟩
    | cons g acc ih =>
        intro t
        obtain ⟨h₁, h₂, h₃⟩ := ih (if g.ttl < t then g.ttl else t)
        have hmin : (if g.ttl < t then g.ttl else t) ≤ t ∧
            (if g.ttl < t then g.ttl else t) ≤ g.ttl := by
          split
          · rename_i hlt
            exact ⟨UInt8.le_of_lt hlt, UInt8.le_refl _⟩
          · rename_i hge
            exact ⟨UInt8.le_refl _, UInt8.not_lt.mp hge⟩
        refine ⟨UInt8.le_trans h₁ hmin.1, ?_, ?_⟩
        · intro f hf
          rcases List.mem_cons.mp hf with rfl | hf
          · exact UInt8.le_trans h₁ hmin.2
          · exact h₂ f hf
        · rcases h₃ with h₃ | ⟨f, hf, h₃⟩
          · rw [List.foldl_cons, h₃]
            split
            · exact .inr ⟨g, by simp, rfl⟩
            · exact .inl rfl
          · exact .inr ⟨f, by simp [hf], h₃⟩
  obtain ⟨_, hle, heq⟩ := hfold acc 255
  refine ⟨hle, ?_⟩
  rcases heq with heq | hmem
  · -- all of them are 255
    obtain ⟨f, hf⟩ := List.exists_mem_of_ne_nil acc hne
    refine ⟨f, hf, UInt8.le_antisymm (hle f hf) ?_⟩
    rw [leastTtl, heq]
    exact UInt8.le_iff_toNat_le.mpr (Nat.le_of_lt_succ f.ttl.toNat_lt)
  · exact hmem

section
variable {d : Datagram} {s : ReasmSlot} {acc : List IpFrag}

theorem Holds.datagram_len (h : Holds s acc) (hsub : ∀ f ∈ acc, f ∈ d.frags)
    (hl : s.haveLast = true) : s.totalLen = d.payload.length := by
  obtain ⟨f, hf, hmf, hstop⟩ := lastStop_mem (h.haveLast ▸ hl)
  rw [h.totalLen, ← hstop, d.facts.last f (hsub f hf) hmf]
  omega

/-- **A slot is complete when all fragments are there.** -/
theorem Holds.complete_iff (h : Holds s acc) (hsub : ∀ f ∈ acc, f ∈ d.frags) :
    s.complete = true ↔ ∀ g ∈ d.frags, g ∈ acc := by
  constructor
  · intro hc g hg
    have hlast : s.haveLast = true := (Bool.and_eq_true _ _ ▸ hc).1
    have hlen := h.datagram_len hsub hlast
    have hin := (d.facts.inside g hg).2
    have hpos := (d.facts.filled g hg).1
    have hstop : g.stop = g.start + g.payload.length := rfl
    -- the unit in which `g` begins was set by a fragment, which can only be `g`
    obtain ⟨f, hf, hu⟩ := h.complete_unit hc (i := g.start) (by omega)
    by_contra hno
    have hne : f ≠ g := by
      rintro rfl
      exact hno hf
    exact Datagram.apart (hsub f hf) hg hne (g.start / 8)
      ⟨hu, hasUnit_of_byte (Nat.le_refl _) (by omega)⟩
  · intro hall
    obtain ⟨e, he, hmf⟩ := d.facts.hasLast
    have hlast : s.haveLast = true := by
      rw [h.haveLast]
      exact List.any_eq_true.mpr ⟨e, hall e he, by simp [hmf]⟩
    have hlen := h.datagram_len hsub hlast
    refine Bool.and_eq_true _ _ ▸ ⟨hlast, (allSet_iff _ _).mpr fun u hu => ?_⟩
    obtain ⟨f, hf, h₁, h₂⟩ := d.facts.covers (8 * u) (by omega) (by omega)
    refine (h.bitmap u).mpr ⟨f, hall f hf, ?_⟩
    have := hasUnit_of_byte h₁ h₂
    rwa [show 8 * u / 8 = u by omega] at this

theorem Holds.whole (h : Holds s acc) (hsub : ∀ f ∈ acc, f ∈ d.frags) (hkey : s.key = d.key)
    (hc : s.complete = true) : IsWhole d s.rebuilt := by
  have hall := (h.complete_iff hsub).mp hc
  have hlen := h.datagram_len hsub (Bool.and_eq_true _ _ ▸ hc).1
  obtain ⟨e, he, _⟩ := d.facts.hasLast
  obtain ⟨hle, f, hf, hmin⟩ := leastTtl_spec (List.ne_nil_of_mem (hall e he))
  refine ⟨?_, ?_, hkey, rfl, ?_, ?_, rebuilt_checksum s⟩
  · apply List.ext_getElem?
    intro i
    rcases Nat.lt_or_ge i d.payload.length with hi | hi
    · obtain ⟨g, hg, h₁, h₂⟩ := d.facts.covers i (Nat.zero_le _) (by omega)
      rw [← h.byte (hall g hg) (by omega) h₁ h₂, d.facts.bytes g hg i h₁ h₂, Nat.sub_zero]
    · rw [List.getElem?_eq_none hi, List.getElem?_eq_none (by simp [rebuilt_payload]; omega)]
  · show s.totalLen + 20 = _
    omega
  · intro g hg
    show s.minTtl ≤ g.ttl
    rw [h.minTtl]
    exact hle g (hall g hg)
  · exact ⟨f, hsub f hf, h.minTtl.trans hmin⟩

theorem Holds.fits (h : Holds s acc) (hsub : ∀ f ∈ acc, f ∈ d.frags) (hc : s.complete = true) :
    s.oversize = false := by
  have hlen := h.datagram_len hsub (Bool.and_eq_true _ _ ▸ hc).1
  have hsize := d.size
  refine decide_eq_false ?_
  unfold ipFrameMax ethIpHdrLen
  omega

end

/-! ## The traffic -/

/-- A fragment of datagram `of` arrives, or the other users of the pool do something to it. -/
inductive Arrival (κ : Type) (n : Nat) where
  | frag (now : Tick) (of : Fin n) (f : IpFrag)
  | others (pool : TimerPool κ)

/-- The slots, and which fragments of which datagrams have arrived. -/
structure Traffic (κ : Type) (n : Nat) where
  reasm : Reasm κ
  seen : List (Fin n × IpFrag)

def Traffic.step {κ : Type} {n : Nat} (env : ReasmEnv κ) (t : Traffic κ n) :
    Arrival κ n → Option (Traffic κ n)
  | .frag now d f => some ⟨(ipReasmInput env now f t.reasm).1, (d, f) :: t.seen⟩
  | .others pool => some { t with reasm := { t.reasm with pool := pool } }

/-- The fragment is one of its datagram's, of which some fragment has not arrived. -/
def arrives {κ : Type} {n : Nat} (ds : Fin n → Datagram) (t : Traffic κ n) : Arrival κ n → Prop
  | .frag _ d f => f ∈ (ds d).frags ∧ ∃ g ∈ (ds d).frags, (d, g) ∉ t.seen
  | .others _ => True

instance decArrives {κ : Type} {n : Nat} (ds : Fin n → Datagram) (t : Traffic κ n) :
    ∀ e, Decidable (arrives ds t e)
  | .frag _ _ _ => inferInstanceAs (Decidable (_ ∧ ∃ g ∈ _, _))
  | .others _ => isTrue trivial

/-- What a slot in use is for. -/
structure Serves {n : Nat} (ds : Fin n → Datagram) (seen : List (Fin n × IpFrag)) (s : ReasmSlot)
    (d : Fin n) (acc : List IpFrag) : Prop where
  key : s.key = (ds d).key
  holds : Holds s acc
  sub : ∀ f ∈ acc, f ∈ (ds d).frags
  seen_iff : ∀ g, g ∈ acc ↔ (d, g) ∈ seen
  missing : ∃ g ∈ (ds d).frags, (d, g) ∉ seen

/-- The invariant. -/
structure TrafficOk {κ : Type} {n : Nat} (ds : Fin n → Datagram) (t : Traffic κ n) : Prop where
  serves : ∀ k, (t.reasm.slot k).active = true →
    ∃ d acc, Serves ds t.seen (t.reasm.slot k) d acc
  distinct : ∀ j k, (t.reasm.slot j).active = true → (t.reasm.slot k).active = true →
    (t.reasm.slot j).key = (t.reasm.slot k).key → j = k
  idle : ∀ d, (∀ k, (t.reasm.slot k).active = true → (t.reasm.slot k).key ≠ (ds d).key) →
    (∀ g, (d, g) ∉ t.seen) ∨ ∀ g ∈ (ds d).frags, (d, g) ∈ t.seen

section
variable {κ : Type} {n : Nat} {ds : Fin n → Datagram} {env : ReasmEnv κ} {now : Tick}
  {t : Traffic κ n} {d : Fin n} {f : IpFrag}

theorem Serves.other {seen : List (Fin n × IpFrag)} {s : ReasmSlot} {d' : Fin n}
    {acc : List IpFrag} (h : Serves ds seen s d' acc) (hd : d' ≠ d) :
    Serves ds ((d, f) :: seen) s d' acc where
  key := h.key
  holds := h.holds
  sub := h.sub
  seen_iff := by simpa [hd] using h.seen_iff
  missing := by simpa [hd] using h.missing

theorem TrafficOk.room (hn : n ≤ reasmMaxSlots) (h : TrafficOk ds t)
    (hno : ∀ k, (t.reasm.slot k).active = true → (t.reasm.slot k).key ≠ (ds d).key) :
    t.reasm.firstFree ≠ none := by
  intro hfull
  choose owner acc hserves using fun k => h.serves k (firstFree_full hfull k)
  have hinj : Function.Injective owner := by
    intro j k hjk
    apply h.distinct j k (firstFree_full hfull j) (firstFree_full hfull k)
    rw [(hserves j).key, (hserves k).key, hjk]
  have hmiss : d ∉ Set.range owner := by
    rintro ⟨k, rfl⟩
    exact hno k (firstFree_full hfull k) (hserves k).key
  have hlt := Fintype.card_lt_of_injective_of_notMem owner hinj hmiss
  simp only [Fintype.card_fin] at hlt
  omega

/-- The slot that an arrival goes to, with the fragments of its datagram that it holds. -/
theorem TrafficOk.slotFor (hn : n ≤ reasmMaxSlots)
    (hkeys : Function.Injective fun d => (ds d).key) (h : TrafficOk ds t)
    (hf : f ∈ (ds d).frags) (hmiss : ∃ g ∈ (ds d).frags, (d, g) ∉ t.seen) :
    ∃ k r' acc, t.reasm.slotFor env now f = some (k, r') ∧ Serves ds t.seen (r'.slot k) d acc ∧
      (r'.slot k).active = true ∧ (∀ j, j ≠ k → r'.slot j = t.reasm.slot j) ∧
      (∀ j, (t.reasm.slot j).active = true → (t.reasm.slot j).key = (ds d).key → j = k) ∧
      ((t.reasm.slot k).active = true → (t.reasm.slot k).key = (ds d).key) ∧
      (r' = t.reasm ∨ acc = []) := by
  have hkey : f.key = (ds d).key := (ds d).keyed f hf
  unfold Reasm.slotFor
  rw [hkey]
  cases hfind : t.reasm.find (ds d).key with
  | some k =>
      obtain ⟨hact, hk⟩ := find_some hfind
      obtain ⟨d', acc, hserves⟩ := h.serves k hact
      have hd : d' = d := hkeys (hserves.key.symm.trans hk)
      subst hd
      refine ⟨k, _, acc, rfl, hserves, hact, fun _ _ => rfl, fun j hact' hkj => ?_, fun _ => hk,
        .inl rfl⟩
      exact h.distinct j k hact' hact (hkj.trans hk.symm)
  | none =>
      have hno : ∀ k, (t.reasm.slot k).active = true → (t.reasm.slot k).key ≠ (ds d).key :=
        fun k hk => find_none hfind k hk
      obtain ⟨k, hfree⟩ := Option.ne_none_iff_exists'.mp (h.room hn hno)
      obtain ⟨hother, hact, hk, hholds⟩ := allocate_slot env now f k t.reasm
      have hunseen : ∀ g, (d, g) ∉ t.seen := by
        rcases h.idle d hno with hnone | hall
        · exact hnone
        · obtain ⟨g, hg, hgno⟩ := hmiss
          exact absurd (hall g hg) hgno
      dsimp only
      rw [hfree]
      refine ⟨k, _, [], rfl, ⟨hk.trans hkey, hholds, by simp, ?_, hmiss⟩, hact, hother,
        fun j hact' hkj => absurd hkj (hno j hact'), fun hact' => ?_, .inr rfl⟩
      · intro g
        simp [hunseen g]
      · rw [firstFree_inactive hfree] at hact'
        cases hact'

theorem TrafficOk.update (hkeys : Function.Injective fun d => (ds d).key) (h : TrafficOk ds t)
    {r' : Reasm κ} {k : RIndex} (hother : ∀ j, j ≠ k → r'.slot j = t.reasm.slot j)
    (hone : ∀ j, (t.reasm.slot j).active = true → (t.reasm.slot j).key = (ds d).key → j = k)
    (hk : (t.reasm.slot k).active = true → (t.reasm.slot k).key = (ds d).key)
    (hnew : ((r'.slot k).active = true ∧ ∃ acc, Serves ds ((d, f) :: t.seen) (r'.slot k) d acc) ∨
      ((r'.slot k).active = false ∧ ∀ g ∈ (ds d).frags, (d, g) ∈ (d, f) :: t.seen)) :
    TrafficOk ds ⟨r', (d, f) :: t.seen⟩ where
  serves := by
    intro j hj
    by_cases hjk : j = k
    · subst hjk
      rcases hnew with ⟨_, acc, hserves⟩ | ⟨hfree, _⟩
      · exact ⟨d, acc, hserves⟩
      · rw [hfree] at hj
        cases hj
    · dsimp only at hj ⊢
      rw [hother j hjk] at hj ⊢
      obtain ⟨d', acc, hserves⟩ := h.serves j hj
      refine ⟨d', acc, hserves.other ?_⟩
      rintro rfl
      exact hjk (hone j hj hserves.key)
  distinct := by
    -- another slot in use has another key than slot `k`
    have hne : ∀ j, j ≠ k → (r'.slot j).active = true → (r'.slot k).active = true →
        (r'.slot j).key ≠ (r'.slot k).key := by
      intro j hjk hj hk' heq
      rcases hnew with ⟨_, acc, hserves⟩ | ⟨hfree, _⟩
      · rw [hother j hjk] at hj heq
        exact hjk (hone j hj (heq.trans hserves.key))
      · rw [hfree] at hk'
        cases hk'
    intro i j hi hj heq
    by_cases hik : i = k <;> by_cases hjk : j = k
    · rw [hik, hjk]
    · subst hik
      exact absurd heq.symm (hne j hjk hj hi)
    · subst hjk
      exact absurd heq (hne i hik hi hj)
    · dsimp only at hi hj heq
      rw [hother i hik] at hi heq
      rw [hother j hjk] at hj heq
      exact h.distinct i j hi hj heq
  idle := by
    intro d' hno
    by_cases hd : d' = d
    · subst hd
      rcases hnew with ⟨hact, acc, hserves⟩ | ⟨_, hall⟩
      · exact absurd hserves.key (hno k hact)
      · exact .inr hall
    · have hold : ∀ j, (t.reasm.slot j).active = true → (t.reasm.slot j).key ≠ (ds d').key := by
        intro j hj hkj
        by_cases hjk : j = k
        · subst hjk
          exact hd (hkeys (hkj.symm.trans (hk hj)))
        · refine hno j ?_ ?_
          · dsimp only
            rw [hother j hjk]
            exact hj
          · dsimp only
            rw [hother j hjk]
            exact hkj
      simpa [hd] using h.idle d' hold

def AnswersRight (ds : Fin n → Datagram) (seen : List (Fin n × IpFrag)) (d : Fin n) (f : IpFrag)
    (answer : Option IpPacket) : Prop :=
  ((∀ g ∈ (ds d).frags, g = f ∨ (d, g) ∈ seen) → ∃ p, answer = some p ∧ IsWhole (ds d) p) ∧
    (¬ (∀ g ∈ (ds d).frags, g = f ∨ (d, g) ∈ seen) → answer = none)

/-- A fragment overlaps what its datagram's slot holds exactly if it has been here before. -/
theorem Serves.overlaps_iff {seen : List (Fin n × IpFrag)} {s : ReasmSlot} {acc : List IpFrag}
    (h : Serves ds seen s d acc) (hf : f ∈ (ds d).frags) : s.overlaps f = true ↔ f ∈ acc := by
  have hsane := Datagram.sane hf
  constructor
  · intro hov
    obtain ⟨u, hu, hset⟩ := (WsPi5.overlaps_iff hsane).mp hov
    obtain ⟨g, hg, hgu⟩ := (h.holds.bitmap u).mp hset
    by_contra hmem
    have hne : f ≠ g := by
      rintro rfl
      exact hmem hg
    exact absurd ⟨hu, hgu⟩ (Datagram.apart hf (h.sub g hg) hne u)
  · intro hmem
    have hfilled := ((ds d).facts.filled f hf).1
    refine (WsPi5.overlaps_iff hsane).mpr ⟨f.start / 8, ?_, ?_⟩
    · exact hasUnit_of_byte (Nat.le_refl _) (by unfold IpFrag.stop; omega)
    · exact (h.holds.bitmap _).mpr
        ⟨f, hmem, hasUnit_of_byte (Nat.le_refl _) (by unfold IpFrag.stop; omega)⟩

/-- What arrives once more is no news. -/
theorem TrafficOk.again (h : TrafficOk ds t) (hseen : (d, f) ∈ t.seen) :
    TrafficOk ds ⟨t.reasm, (d, f) :: t.seen⟩ := by
  have hsame : ∀ d' g, (d', g) ∈ (d, f) :: t.seen ↔ (d', g) ∈ t.seen := by
    intro d' g
    simp only [List.mem_cons, or_iff_right_iff_imp]
    intro heq
    rw [heq]
    exact hseen
  refine ⟨?_, h.distinct, ?_⟩
  · intro j hj
    obtain ⟨d', acc, hs⟩ := h.serves j hj
    exact ⟨d', acc, hs.key, hs.holds, hs.sub, by simpa [hsame] using hs.seen_iff,
      by simpa only [hsame] using hs.missing⟩
  · intro d' hno
    simpa only [hsame] using h.idle d' hno

/-- A fragment that has not been here before, in the slot of its datagram. -/
theorem TrafficOk.stored (hkeys : Function.Injective fun d => (ds d).key) (h : TrafficOk ds t)
    (hf : f ∈ (ds d).frags) {r' : Reasm κ} {k : RIndex} {acc : List IpFrag}
    (hserves : Serves ds t.seen (r'.slot k) d acc) (hmem : f ∉ acc)
    (hact : (r'.slot k).active = true) (hother : ∀ j, j ≠ k → r'.slot j = t.reasm.slot j)
    (hone : ∀ j, (t.reasm.slot j).active = true → (t.reasm.slot j).key = (ds d).key → j = k)
    (hk : (t.reasm.slot k).active = true → (t.reasm.slot k).key = (ds d).key) :
    TrafficOk ds ⟨(r'.deliver env f k).1, (d, f) :: t.seen⟩ ∧
      AnswersRight ds t.seen d f (r'.deliver env f k).2 := by
  have hno : (r'.slot k).overlaps f = false :=
    Bool.eq_false_iff.mpr (mt (hserves.overlaps_iff hf).mp hmem)
  have hkey : f.key = (r'.slot k).key := ((ds d).keyed f hf).trans hserves.key.symm
  have hholds := hserves.holds.store hkey (Datagram.sane hf) hno
  have hsub : ∀ g ∈ acc ++ [f], g ∈ (ds d).frags := by
    intro g hg
    rcases List.mem_append.mp hg with hg | hg
    · exact hserves.sub g hg
    · rw [List.mem_singleton.mp hg]
      exact hf
  have hmem_iff : ∀ g, g ∈ acc ++ [f] ↔ (d, g) ∈ (d, f) :: t.seen := by
    intro g
    simp [hserves.seen_iff g, or_comm]
  have hcomplete : ((r'.slot k).store f).complete = true ↔
      ∀ g ∈ (ds d).frags, g = f ∨ (d, g) ∈ t.seen := by
    rw [hholds.complete_iff hsub]
    simp [hserves.seen_iff, or_comm]
  unfold Reasm.deliver
  dsimp only
  split
  · rename_i hc
    rw [if_neg (by simp [hholds.fits hsub hc])]
    refine ⟨h.update hkeys (k := k) ?_ hone hk (.inr ⟨?_, ?_⟩), fun _ => ?_, fun hnot => ?_⟩
    · intro j hj
      dsimp only
      rw [put_slot_of_ne _ _ hj, ← hother j hj]
      unfold Reasm.cancelTimer
      split <;> rfl
    · dsimp only
      rw [put_slot_self]
      rfl
    · intro g hg
      exact (hmem_iff g).mp ((hholds.complete_iff hsub).mp hc g hg)
    · exact ⟨_, rfl, hholds.whole hsub hserves.key hc⟩
    · exact absurd (hcomplete.mp hc) hnot
  · rename_i hc
    have hmissing : ∃ g ∈ (ds d).frags, (d, g) ∉ (d, f) :: t.seen := by
      by_contra hall
      refine hc ((hholds.complete_iff hsub).mpr fun g hg => (hmem_iff g).mpr ?_)
      by_contra hgno
      exact hall ⟨g, hg, hgno⟩
    refine ⟨h.update hkeys (k := k) ?_ hone hk (.inl ⟨?_, acc ++ [f], ?_⟩), fun hall => ?_,
      fun _ => rfl⟩
    · intro j hj
      dsimp only
      rw [put_slot_of_ne _ _ hj, hother j hj]
    · dsimp only
      rw [put_slot_self]
      exact hact
    · dsimp only
      rw [put_slot_self]
      exact ⟨hserves.key, hholds, hsub, hmem_iff, hmissing⟩
    · exact absurd (hcomplete.mpr hall) hc

/-- **One arrival**: the right answer, and the invariant. -/
theorem TrafficOk.arrival (hn : n ≤ reasmMaxSlots)
    (hkeys : Function.Injective fun d => (ds d).key) (h : TrafficOk ds t)
    (hf : f ∈ (ds d).frags) (hmiss : ∃ g ∈ (ds d).frags, (d, g) ∉ t.seen) :
    TrafficOk ds ⟨(ipReasmInput env now f t.reasm).1, (d, f) :: t.seen⟩ ∧
      AnswersRight ds t.seen d f (ipReasmInput env now f t.reasm).2 := by
  obtain ⟨k, r', acc, hslot, hserves, hact, hother, hone, hk, hor⟩ :=
    @TrafficOk.slotFor _ _ _ env now _ _ _ hn hkeys h hf hmiss
  have hinput : ipReasmInput env now f t.reasm
      = if (r'.slot k).overlaps f then (r', none) else r'.deliver env f k := by
    rw [ipReasmInput, if_pos (Datagram.sane hf), hslot]
  rw [hinput]
  by_cases hmem : f ∈ acc
  · have hseen : (d, f) ∈ t.seen := (hserves.seen_iff f).mp hmem
    have hr : r' = t.reasm := hor.resolve_right (List.ne_nil_of_mem hmem)
    rw [if_pos ((hserves.overlaps_iff hf).mpr hmem), hr]
    refine ⟨h.again hseen, fun hall => ?_, fun _ => rfl⟩
    obtain ⟨g, hg, hgno⟩ := hmiss
    rcases hall g hg with rfl | hgs
    · exact absurd hseen hgno
    · exact absurd hgs hgno
  · rw [if_neg (mt (hserves.overlaps_iff hf).mp hmem)]
    exact h.stored hkeys hf hserves hmem hact hother hone hk

end

/-! ## Every sequence of arrivals -/

/-- **Reassembly is correct.**  Up to four datagrams with different keys; the slots are all free at
the start.  Whatever has arrived, the next arrival gets the right answer. -/
theorem reassembly_correct {κ : Type} {n : Nat} {ds : Fin n → Datagram} {env : ReasmEnv κ}
    {r₀ : Reasm κ} {t : Traffic κ n} {now : Tick} {d : Fin n} {f : IpFrag}
    (hn : n ≤ reasmMaxSlots) (hkeys : Function.Injective fun d => (ds d).key)
    (hfree : ∀ k, (r₀.slot k).active = false)
    (hrun : Run (Traffic.step env) (arrives ds) ⟨r₀, []⟩ t) (hnext : arrives ds t (.frag now d f)) :
    AnswersRight ds t.seen d f (ipReasmInput env now f t.reasm).2 := by
  have hok : TrafficOk ds t := by
    refine hrun.invariant ⟨?_, ?_, ?_⟩ ?_
    · intro k hk
      rw [hfree k] at hk
      cases hk
    · intro j k hj
      rw [hfree j] at hj
      cases hj
    · exact fun d _ => .inl (by simp)
    · intro t u e ht harr hst
      cases e with
      | frag now d f =>
          cases hst
          exact (ht.arrival hn hkeys harr.1 harr.2).1
      | others pool =>
          cases hst
          exact ⟨ht.serves, ht.distinct, ht.idle⟩
  exact (hok.arrival hn hkeys hnext.1 hnext.2).2

def demoDatagram : Datagram where
  key := ⟨9, 7, 1, 17⟩
  payload := List.replicate 8 1 ++ (List.replicate 8 2 ++ [3])
  frags := [demoFrag true 0 (List.replicate 8 1), demoFrag true 1 (List.replicate 8 2),
    demoFrag false 2 [3]]
  keyed := by decide
  two := by decide
  size := by decide
  cut := ⟨rfl, rfl, by decide, rfl, _, rfl, rfl, rfl, by decide, rfl, _, rfl, rfl, rfl, rfl,
    by decide⟩

def demoNextFrag (mf : Bool) (off : BitVec 13) (payload : List UInt8) : IpFrag :=
  { demoFrag mf off payload with key := ⟨9, 7, 2, 17⟩ }

def demoNextDatagram : Datagram where
  key := ⟨9, 7, 2, 17⟩
  payload := List.replicate 8 4 ++ [5]
  frags := [demoNextFrag true 0 (List.replicate 8 4), demoNextFrag false 1 [5]]
  keyed := by decide
  two := by decide
  size := by decide
  cut := ⟨rfl, rfl, by decide, rfl, _, rfl, rfl, rfl, rfl, by decide⟩

def demoBoth : Fin 2 → Datagram
  | 0 => demoDatagram
  | 1 => demoNextDatagram

theorem demoBoth_keys : Function.Injective fun d => (demoBoth d).key := by decide

/-- Of the first datagram the last fragment, the first, the last once more; between them the last
one of the next datagram.  Its other fragment then completes the next datagram, and the second
fragment the first one. -/
theorem reassembly_correct_demo : ∃ (t u : Traffic RIndex 2) (p q : IpPacket),
    Run (Traffic.step demoReasm) (arrives demoBoth)
      ⟨ipReasmInit (timerPoolInit RIndex 16), []⟩ t ∧
    (ipReasmInput demoReasm 5 (demoNextFrag true 0 (List.replicate 8 4)) t.reasm).2 = some p ∧
    IsWhole demoNextDatagram p ∧
    Run (Traffic.step demoReasm) (arrives demoBoth) t u ∧
    (ipReasmInput demoReasm 6 (demoFrag true 1 (List.replicate 8 2)) u.reasm).2 = some q ∧
    IsWhole demoDatagram q := by
  obtain ⟨t, hrun, hnext, hlast, u, hst, hnext', hlast'⟩ := exists_run (Traffic.step demoReasm)
    (arrives demoBoth) ⟨ipReasmInit (timerPoolInit RIndex 16), []⟩
    (Q := fun t => arrives demoBoth t (.frag 5 1 (demoNextFrag true 0 (List.replicate 8 4))) ∧
      (∀ g ∈ demoNextDatagram.frags, g = demoNextFrag true 0 (List.replicate 8 4) ∨
        (1, g) ∈ t.seen) ∧
      ∃ u ∈ t.step demoReasm (.frag 5 1 (demoNextFrag true 0 (List.replicate 8 4))),
        arrives demoBoth u (.frag 6 0 (demoFrag true 1 (List.replicate 8 2))) ∧
        ∀ g ∈ demoDatagram.frags, g = demoFrag true 1 (List.replicate 8 2) ∨ (0, g) ∈ u.seen)
    [.frag 1 0 (demoFrag false 2 [3]), .frag 2 1 (demoNextFrag false 1 [5]),
      .frag 3 0 (demoFrag true 0 (List.replicate 8 1)), .frag 4 0 (demoFrag false 2 [3])]
    (by decide +kernel) (by decide +kernel)
  have hfree : ∀ k, ((ipReasmInit (timerPoolInit RIndex 16)).slot k).active = false := fun _ => rfl
  obtain ⟨p, hp, hwhole⟩ :=
    (reassembly_correct (by decide) demoBoth_keys hfree hrun hnext).1 hlast
  have hon := Run.single hnext hst
  obtain ⟨q, hq, hwhole'⟩ :=
    (reassembly_correct (by decide) demoBoth_keys hfree (hrun.trans hon) hnext').1 hlast'
  exact ⟨t, u, p, q, hrun, hp, hwhole, hon, hq, hwhole'⟩

end WsPi5

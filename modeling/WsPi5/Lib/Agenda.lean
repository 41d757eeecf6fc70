/-
# `Lib.Agenda` — a bounded set of entries with deadlines, and the events on it

An agenda holds at most `cap` entries.  An entry has a number of its own, which is never given
twice, an index below `cap` by which its owner names it while it is there, a deadline and a
payload.  From time to time there is a pass: it takes out entries whose deadline has come, one
after the other, and in between anything may be entered and cancelled.

    armed t          a new entry, at an index that no other entry has
    refused          no room: the agenda holds `cap` entries
    cancelled k r    the entry with index `k` is taken out (`r`), if there is one
    begun now        a pass begins
    fired t now      the pass takes out an entry whose deadline has come
    closed n         the pass ends, after `n` entries: of those that were due when it began none
                     is left

`Trace a es b` says that the events `es`, most recent first, lead from the agenda `a` to `b`.

**Proved here**, for a trace from an empty agenda (`Trace.lawful`): an entry is taken out at most
once, so it is fired at most once, and not after it was cancelled; it is not fired before its
deadline; a pass fires each entry that was due when it began, or somebody cancelled it meanwhile;
after an entry was fired there is room, until another one is entered.
-/
import Mathlib.Data.List.Nodup
import Mathlib.Data.List.Perm.Subperm

namespace Lib.Agenda

/-- An entry: its number, the index it is named by, its deadline and what it is for. -/
structure Entry (τ α : Type) where
  id : Nat
  index : Nat
  deadline : τ
  payload : α
  deriving DecidableEq

/-- A pass: its time, the entries that were due when it began and are still there, and how many it
has fired. -/
structure Pass (τ α : Type) where
  now : τ
  due : List (Entry τ α)
  fired : Nat

inductive Event (τ α : Type) where
  | armed (t : Entry τ α)
  | refused
  | cancelled (k : Nat) (hit : Option (Entry τ α))
  | begun (now : τ)
  | fired (t : Entry τ α) (now : τ)
  | closed (n : Nat)
  deriving DecidableEq

variable {τ α : Type}

def Event.ends : Event τ α → Option (Entry τ α)
  | .cancelled _ hit => hit
  | .fired t _ => some t
  | _ => none

/-- The events of a pass, without its begin and its end. -/
def Event.inPass : Event τ α → Bool
  | .begun _ | .closed _ => false
  | _ => true

/-- A call that cancels, whether it hits an entry or not. -/
def Event.isCancel : Event τ α → Bool
  | .cancelled _ _ => true
  | _ => false

/-- The numbers of the entries that were taken out. -/
def ended (es : List (Event τ α)) : List Nat := es.filterMap fun e => e.ends.map Entry.id

/-- The entries that have not the index `k`. -/
def besides (k : Nat) (ts : List (Entry τ α)) : List (Entry τ α) := ts.filter fun t => t.index ≠ k

@[simp] theorem mem_besides {k : Nat} {ts : List (Entry τ α)} {t : Entry τ α} :
    t ∈ besides k ts ↔ t ∈ ts ∧ t.index ≠ k := by
  simp [besides]

/-- The agenda: the entries, the number of the next one, and the pass that is going on. -/
structure State (τ α : Type) [LE τ] where
  cap : Nat
  pending : List (Entry τ α)
  next : Nat
  pass : Option (Pass τ α)
  indices : (pending.map Entry.index).Nodup
  ids : (pending.map Entry.id).Nodup
  inside : ∀ t ∈ pending, t.index < cap
  fresh : ∀ t ∈ pending, t.id < next
  late : ∀ p, pass = some p → ∀ t ∈ p.due, t ∈ pending ∧ t.deadline ≤ p.now

section
variable [LE τ] {a b c : State τ α} {es : List (Event τ α)}

def State.empty (τ α : Type) [LE τ] (cap : Nat) : State τ α where
  cap := cap
  pending := []
  next := 0
  pass := none
  indices := List.nodup_nil
  ids := List.nodup_nil
  inside := by simp
  fresh := by simp
  late := by simp

def State.arm (a : State τ α) (i : Nat) (d : τ) (x : α) (hin : i < a.cap)
    (hfree : ∀ t ∈ a.pending, t.index ≠ i) : State τ α where
  cap := a.cap
  pending := ⟨a.next, i, d, x⟩ :: a.pending
  next := a.next + 1
  pass := a.pass
  indices := List.nodup_cons.mpr ⟨by simpa using hfree, a.indices⟩
  ids := List.nodup_cons.mpr ⟨by simpa using fun t ht => Nat.ne_of_lt (a.fresh t ht), a.ids⟩
  inside := List.forall_mem_cons.mpr ⟨hin, a.inside⟩
  fresh := List.forall_mem_cons.mpr
    ⟨Nat.lt_succ_self _, fun t ht => Nat.lt_succ_of_lt (a.fresh t ht)⟩
  late := fun p hp t ht => ⟨List.mem_cons_of_mem _ (a.late p hp t ht).1, (a.late p hp t ht).2⟩

/-- Take out the entry with index `k`; `n` is what is added to the count of the pass. -/
def State.drop (a : State τ α) (k n : Nat) : State τ α where
  cap := a.cap
  pending := besides k a.pending
  next := a.next
  pass := a.pass.map fun p => { p with due := besides k p.due, fired := p.fired + n }
  indices := a.indices.sublist (List.filter_sublist.map _)
  ids := a.ids.sublist (List.filter_sublist.map _)
  inside := fun t ht => a.inside t (mem_besides.mp ht).1
  fresh := fun t ht => a.fresh t (mem_besides.mp ht).1
  late := by
    intro p hp t ht
    obtain ⟨q, hq, rfl⟩ := Option.map_eq_some_iff.mp hp
    obtain ⟨hmem, hk⟩ := mem_besides.mp ht
    exact ⟨mem_besides.mpr ⟨(a.late q hq t hmem).1, hk⟩, (a.late q hq t hmem).2⟩

def State.begin [DecidableLE τ] (a : State τ α) (now : τ) : State τ α :=
  { a with
    pass := some ⟨now, a.pending.filter fun t => t.deadline ≤ now, 0⟩
    late := by
      intro p hp t ht
      cases hp
      simpa using ht }

def State.close (a : State τ α) : State τ α := { a with pass := none, late := by simp }

/-! ## Room -/

theorem State.indices_subset (a : State τ α) :
    a.pending.map Entry.index ⊆ List.range a.cap := by
  intro i hi
  obtain ⟨t, ht, rfl⟩ := List.mem_map.mp hi
  exact List.mem_range.mpr (a.inside t ht)

theorem State.length_le (a : State τ α) : a.pending.length ≤ a.cap := by
  have := (a.indices.subperm a.indices_subset).length_le
  simpa using this

/-- **There is an index left exactly if fewer than `cap` entries are pending.** -/
theorem State.full_iff (a : State τ α) :
    a.pending.length = a.cap ↔ ∀ i < a.cap, ∃ t ∈ a.pending, t.index = i := by
  constructor
  · intro hlen i hi
    by_contra hno
    have hnodup : (i :: a.pending.map Entry.index).Nodup :=
      List.nodup_cons.mpr ⟨by simpa using hno, a.indices⟩
    have hsub : i :: a.pending.map Entry.index ⊆ List.range a.cap :=
      List.cons_subset.mpr ⟨List.mem_range.mpr hi, a.indices_subset⟩
    have hle := (hnodup.subperm hsub).length_le
    simp only [List.length_cons, List.length_map, List.length_range] at hle
    omega
  · intro hall
    have hsub : List.range a.cap ⊆ a.pending.map Entry.index := by
      intro i hi
      obtain ⟨t, ht, rfl⟩ := hall i (List.mem_range.mp hi)
      exact List.mem_map_of_mem ht
    have hle := (List.nodup_range.subperm hsub).length_le
    rw [List.length_range, List.length_map] at hle
    exact Nat.le_antisymm a.length_le hle

theorem State.index_inj (a : State τ α) {t t' : Entry τ α} (ht : t ∈ a.pending)
    (ht' : t' ∈ a.pending) (h : t.index = t'.index) : t = t' :=
  List.inj_on_of_nodup_map a.indices ht ht' h

theorem State.id_inj (a : State τ α) {t t' : Entry τ α} (ht : t ∈ a.pending)
    (ht' : t' ∈ a.pending) (h : t.id = t'.id) : t = t' :=
  List.inj_on_of_nodup_map a.ids ht ht' h

theorem State.drop_length {t : Entry τ α} (ht : t ∈ a.pending) (n : Nat) :
    (a.drop t.index n).pending.length < a.cap := by
  refine Nat.lt_of_lt_of_le (List.length_filter_lt_length_iff_exists.mpr ⟨t, ht, ?_⟩) a.length_le
  simp

/-! ## What the events record -/

/-- The entries that are there are those that were armed and not taken out; none was twice. -/
structure Recorded (es : List (Event τ α)) (a : State τ α) : Prop where
  armed : ∀ t, .armed t ∈ es → t.id < a.next
  below : ∀ i ∈ ended es, i < a.next
  once : (ended es).Nodup
  pending : ∀ t, t ∈ a.pending ↔ .armed t ∈ es ∧ t.id ∉ ended es

theorem Recorded.quiet (h : Recorded es a) {e : Event τ α} (hends : e.ends = none)
    (harm : ∀ t, e ≠ .armed t) (hpending : b.pending = a.pending) (hnext : b.next = a.next) :
    Recorded (e :: es) b := by
  have hended : ended (e :: es) = ended es := by simp [ended, hends]
  have hmem : ∀ t, .armed t ∈ e :: es ↔ .armed t ∈ es := by
    intro t
    simp [(harm t).symm]
  exact ⟨fun t => by rw [hmem, hnext]; exact h.armed t, by rw [hended, hnext]; exact h.below,
    by rw [hended]; exact h.once, fun t => by rw [hended, hmem, hpending]; exact h.pending t⟩

theorem Recorded.out (h : Recorded es a) {e : Event τ α} {t : Entry τ α} (hends : e.ends = some t)
    (harm : ∀ t, e ≠ .armed t) (ht : t ∈ a.pending) (n : Nat) :
    Recorded (e :: es) (a.drop t.index n) := by
  have hended : ended (e :: es) = t.id :: ended es := by simp [ended, hends]
  have hmem : ∀ t, .armed t ∈ e :: es ↔ .armed t ∈ es := by
    intro t
    simp [(harm t).symm]
  refine ⟨fun t => by rw [hmem]; exact h.armed t, ?_, ?_, fun t' => ?_⟩
  · rw [hended]
    exact List.forall_mem_cons.mpr ⟨a.fresh t ht, h.below⟩
  · rw [hended]
    exact List.nodup_cons.mpr ⟨((h.pending t).mp ht).2, h.once⟩
  · rw [hended, hmem, List.mem_cons, not_or]
    show t' ∈ besides t.index a.pending ↔ _
    rw [mem_besides, h.pending t']
    constructor
    · rintro ⟨hin, hne⟩
      refine ⟨hin.1, fun hid => hne ?_, hin.2⟩
      rw [a.id_inj ((h.pending t').mpr hin) ht hid]
    · rintro ⟨harmed, hid, hnot⟩
      refine ⟨⟨harmed, hnot⟩, fun hix => hid ?_⟩
      rw [a.index_inj ((h.pending t').mpr ⟨harmed, hnot⟩) ht hix]

theorem Recorded.arm (h : Recorded es a) (i : Nat) (d : τ) (x : α) (hin : i < a.cap)
    (hfree : ∀ t ∈ a.pending, t.index ≠ i) :
    Recorded (.armed ⟨a.next, i, d, x⟩ :: es) (a.arm i d x hin hfree) := by
  have hended : ended (.armed ⟨a.next, i, d, x⟩ :: es) = ended es := rfl
  refine ⟨?_, ?_, h.once, fun t => ?_⟩
  · rintro t (_ | ⟨_, ht⟩)
    · exact Nat.lt_succ_self _
    · exact Nat.lt_succ_of_lt (h.armed t ht)
  · intro k hk
    exact Nat.lt_succ_of_lt (h.below k hk)
  · rw [hended]
    show t ∈ _ :: a.pending ↔ _
    rw [List.mem_cons, List.mem_cons, Event.armed.injEq, h.pending t]
    constructor
    · rintro (rfl | ht)
      · exact ⟨.inl rfl, fun hmem => Nat.lt_irrefl _ (h.below _ hmem)⟩
      · exact ⟨.inr ht.1, ht.2⟩
    · rintro ⟨rfl | ht, hnot⟩
      · exact .inl rfl
      · exact .inr ⟨ht, hnot⟩

/-! ## Steps and traces -/

variable [DecidableLE τ]

/-- What can happen, and what it does. -/
inductive Step : State τ α → Event τ α → State τ α → Prop where
  | arm (a : State τ α) (i : Nat) (d : τ) (x : α) (hin : i < a.cap)
      (hfree : ∀ t ∈ a.pending, t.index ≠ i) :
      Step a (.armed ⟨a.next, i, d, x⟩) (a.arm i d x hin hfree)
  | refuse (a : State τ α) : a.pending.length = a.cap → Step a .refused a
  | cancel (a : State τ α) (t : Entry τ α) :
      t ∈ a.pending → Step a (.cancelled t.index (some t)) (a.drop t.index 0)
  | miss (a : State τ α) (k : Nat) :
      (∀ t ∈ a.pending, t.index ≠ k) → Step a (.cancelled k none) a
  | begin (a : State τ α) (now : τ) : a.pass = none → Step a (.begun now) (a.begin now)
  | fire (a : State τ α) (p : Pass τ α) (t : Entry τ α) :
      a.pass = some p → t ∈ a.pending → t.deadline ≤ p.now →
      Step a (.fired t p.now) (a.drop t.index 1)
  | close (a : State τ α) (p : Pass τ α) :
      a.pass = some p → p.due = [] → Step a (.closed p.fired) a.close

/-- The events, most recent first, lead from one agenda to another. -/
inductive Trace (a : State τ α) : List (Event τ α) → State τ α → Prop where
  | nil : Trace a [] a
  | cons {es : List (Event τ α)} {b c : State τ α} {e : Event τ α} :
      Trace a es b → Step b e c → Trace a (e :: es) c

theorem Recorded.step (h : Recorded es a) {e : Event τ α} (hs : Step a e b) :
    Recorded (e :: es) b := by
  cases hs with
  | arm i d x hin hfree => exact h.arm i d x hin hfree
  | refuse _ => exact h.quiet rfl (by simp) rfl rfl
  | cancel t ht => exact h.out rfl (by simp) ht 0
  | miss k _ => exact h.quiet rfl (by simp) rfl rfl
  | begin now _ => exact h.quiet rfl (by simp) rfl rfl
  | fire p t _ ht _ => exact h.out rfl (by simp) ht 1
  | close p _ _ => exact h.quiet rfl (by simp) rfl rfl

theorem Trace.recorded {cap : Nat} (h : Trace (State.empty τ α cap) es b) : Recorded es b := by
  induction h with
  | nil => exact ⟨by simp, by simp [ended], by simp [ended], by simp [State.empty]⟩
  | cons _ hs ih => exact ih.step hs

/-! ## Parts of a trace -/

theorem Trace.cap (h : Trace a es c) : c.cap = a.cap := by
  induction h with
  | nil => rfl
  | cons _ hs ih =>
      cases hs <;> exact ih

theorem Trace.split {es' : List (Event τ α)} (h : Trace a (es' ++ es) c) :
    ∃ b, Trace a es b ∧ Trace b es' c := by
  induction es' generalizing c with
  | nil => exact ⟨c, h, .nil⟩
  | cons e es' ih =>
      cases h with
      | cons h hs =>
          obtain ⟨b, hb, hrest⟩ := ih h
          exact ⟨b, hb, .cons hrest hs⟩

theorem Trace.suffix {es' : List (Event τ α)} (h : Trace a es c) (hsuf : es' <:+ es) :
    ∃ b, Trace a es' b := by
  obtain ⟨pre, rfl⟩ := hsuf
  obtain ⟨b, hb, _⟩ := h.split
  exact ⟨b, hb⟩

theorem Trace.fired_early (h : Trace a es c) {t : Entry τ α} {now : τ}
    (hf : .fired t now ∈ es) : t.deadline ≤ now := by
  induction h with
  | nil => cases hf
  | cons _ hs ih =>
      rcases List.mem_cons.mp hf with rfl | hf
      · cases hs with
        | fire _ _ _ _ hle => exact hle
      · exact ih hf

/-- **After an entry was fired there is room**, whatever is cancelled then. -/
theorem Trace.room_after_fire {t : Entry τ α} {now : τ} {cs : List (Event τ α)}
    (h : Trace a (cs ++ .fired t now :: es) c) (hcs : ∀ e ∈ cs, e.isCancel = true) :
    c.pending.length < c.cap := by
  induction cs generalizing c with
  | nil =>
      cases h with
      | cons _ hs =>
          cases hs with
          | fire p _ _ ht _ => exact State.drop_length ht 1
  | cons e cs ih =>
      obtain ⟨hcancel, hcs⟩ := List.forall_mem_cons.mp hcs
      cases h with
      | cons h hs =>
          have hroom := ih h hcs
          cases hs with
          | cancel t ht => exact State.drop_length ht 0
          | miss k _ => exact hroom
          | arm _ _ _ _ _ => cases hcancel
          | refuse _ => cases hcancel
          | begin _ _ => cases hcancel
          | fire _ _ _ _ _ => cases hcancel
          | close _ _ _ => cases hcancel

theorem Trace.in_pass {now : τ} {mid : List (Event τ α)} (h : Trace (a.begin now) mid c)
    (hmid : ∀ e ∈ mid, e.inPass = true) :
    ∃ p, c.pass = some p ∧ ∀ t ∈ a.pending, t.deadline ≤ now →
      t ∈ p.due ∨ ∃ e ∈ mid, e.ends = some t := by
  induction h with
  | nil => exact ⟨_, rfl, fun t ht hd => .inl (List.mem_filter.mpr ⟨ht, by simpa using hd⟩)⟩
  | @cons es b c e _ hs ih =>
      obtain ⟨hin, hmid⟩ := List.forall_mem_cons.mp hmid
      obtain ⟨p, hp, hdue⟩ := ih hmid
      have hkeep : ∀ t ∈ a.pending, t.deadline ≤ now →
          t ∈ p.due ∨ ∃ e' ∈ e :: es, e'.ends = some t := by
        intro t ht hd
        refine (hdue t ht hd).imp_right ?_
        rintro ⟨e', he', hends⟩
        exact ⟨e', List.mem_cons_of_mem _ he', hends⟩
      -- an entry that is taken out is the one the event names
      have hout : ∀ t' n, t' ∈ b.pending → e.ends = some t' → ∃ q, (b.drop t'.index n).pass = some q ∧
          ∀ t ∈ a.pending, t.deadline ≤ now → t ∈ q.due ∨ ∃ e' ∈ e :: es, e'.ends = some t := by
        intro t' n ht' hends
        refine ⟨_, congrArg (Option.map _) hp, fun t ht hd => ?_⟩
        rcases hkeep t ht hd with hmem | hgone
        · by_cases hix : t.index = t'.index
          · obtain rfl := b.index_inj (b.late p hp t hmem).1 ht' hix
            exact .inr ⟨e, List.mem_cons_self, hends⟩
          · exact .inl (mem_besides.mpr ⟨hmem, hix⟩)
        · exact .inr hgone
      cases hs with
      | arm i d x hi hfree => exact ⟨p, hp, hkeep⟩
      | refuse _ => exact ⟨p, hp, hkeep⟩
      | miss k _ => exact ⟨p, hp, hkeep⟩
      | cancel t ht => exact hout t 0 ht rfl
      | fire q t _ ht _ => exact hout t 1 ht rfl
      | begin now' _ => cases hin
      | close q _ _ => cases hin

/-- **A pass takes out whatever was due when it began.** -/
theorem Trace.pass_complete {now : τ} {n : Nat} {mid : List (Event τ α)}
    (h : Trace a (.closed n :: (mid ++ [.begun now])) c) (hmid : ∀ e ∈ mid, e.inPass = true)
    {t : Entry τ α} (ht : t ∈ a.pending) (hd : t.deadline ≤ now) : ∃ e ∈ mid, e.ends = some t := by
  cases h with
  | cons h hs =>
      obtain ⟨b, hb, hrest⟩ := h.split
      cases hb with
      | cons h₀ hb =>
          cases h₀
          cases hb
          obtain ⟨p, hp, hdue⟩ := hrest.in_pass hmid
          cases hs with
          | close q hq hnil =>
              rw [hp] at hq
              cases hq
              exact (hdue t ht hd).resolve_left (by simp [hnil])

/-! ## Together -/

/-- What can be read off the events alone, the most recent first. -/
structure Lawful (es : List (Event τ α)) : Prop where
  /-- An entry is taken out once at most: fired or cancelled, and not both. -/
  once : (ended es).Nodup
  early : ∀ t now, .fired t now ∈ es → t.deadline ≤ now
  /-- An entry that was armed and not taken out before a pass began, and was due then, is taken
  out in the pass. -/
  complete : ∀ n now mid pre, (.closed n :: (mid ++ .begun now :: pre)) <:+ es →
    (∀ e ∈ mid, e.inPass = true) → ∀ t, .armed t ∈ pre → t.id ∉ ended pre → t.deadline ≤ now →
    ∃ e ∈ mid, e.ends = some t
  /-- The first entry after a fired one is not refused. -/
  room : ∀ cs t now pre, (∀ e ∈ cs, e.isCancel = true) →
    ¬(.refused :: (cs ++ .fired t now :: pre)) <:+ es

theorem Trace.lawful {cap : Nat} (h : Trace (State.empty τ α cap) es b) : Lawful es where
  once := h.recorded.once
  early := fun _ _ hf => h.fired_early hf
  complete := by
    intro n now mid pre hsuf hmid t harmed hnot hd
    obtain ⟨c, hc⟩ := h.suffix hsuf
    have hsplit : Trace (State.empty τ α cap) ((.closed n :: (mid ++ [.begun now])) ++ pre) c := by
      simpa using hc
    obtain ⟨a, ha, hrest⟩ := hsplit.split
    exact hrest.pass_complete hmid ((ha.recorded.pending t).mpr ⟨harmed, hnot⟩) hd
  room := by
    intro cs t now pre hcs hsuf
    obtain ⟨c, hc⟩ := h.suffix hsuf
    cases hc with
    | cons hc hs =>
        have hroom := hc.room_after_fire hcs
        cases hs with
        | refuse hfull => exact absurd hfull (Nat.ne_of_lt hroom)

end

end Lib.Agenda

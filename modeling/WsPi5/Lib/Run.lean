/-
# `Lib.Run` — runs of a partial step function, with a condition on every step

A machine is a step function `step : σ → ε → Option σ`: from a state and an event to the
next state, or to `none` where the event cannot happen there (or never returns).  `Run step
ok s t` says that `t` is reached from `s` by finitely many steps, each of which met the
condition `ok` in the state it was taken from.  With `ok := fun _ _ => True` this is plain
reachability.

**Proved here.**

    holds at s, kept by every step that meets ok   ⟹  holds at t           (`Run.invariant`)
    runs compose                                                            (`Run.trans`)
    a run under a stronger condition is a run                               (`Run.mono`)
    a list of events that meets ok step by step is a run                    (`run_ofList`, `exists_run`)

**Parties** on a medium that loses, repeats and reorders are one such machine.  Each party has a state
of its own.  It acts, which may send messages, or it is given a message that has been sent, by any
party and at any time before; so that a message may arrive at any party, any number of times, in any
order, or never.  What each keeps by itself, as long as it is given good messages only, while it
sends good messages only, holds in every run of any number of them (`Medium.invariant`).

Nothing in this module names a particular machine.
-/
import Mathlib.Logic.Function.Basic

namespace Lib

section
variable {σ ε : Type}

/-- `t` is reached from `s` by steps that each met `ok` where they were taken. -/
inductive Run (step : σ → ε → Option σ) (ok : σ → ε → Prop) (s : σ) : σ → Prop where
  | refl : Run step ok s s
  | tail {t u : σ} {e : ε} :
      Run step ok s t → ok t e → step t e = some u → Run step ok s u

/-- Every event is allowed: plain reachability. -/
def anyEvent : σ → ε → Prop := fun _ _ => True

variable {step : σ → ε → Option σ} {ok ok' : σ → ε → Prop} {s t u : σ} {e : ε}

/-- **The invariant rule.**  What holds at the start of a run and is kept by each of its
steps holds at its end. -/
theorem Run.invariant {P : σ → Prop} (hs : P s)
    (hstep : ∀ {t u e}, P t → ok t e → step t e = some u → P u)
    (h : Run step ok s t) : P t := by
  induction h with
  | refl => exact hs
  | tail _ hok hst ih => exact hstep ih hok hst

theorem Run.single (hok : ok s e) (h : step s e = some t) : Run step ok s t :=
  .tail .refl hok h

theorem Run.trans (h₁ : Run step ok s t) (h₂ : Run step ok t u) : Run step ok s u := by
  induction h₂ with
  | refl => exact h₁
  | tail _ hok hst ih => exact .tail ih hok hst

theorem Run.mono (hok : ∀ {t e}, ok t e → ok' t e) (h : Run step ok s t) :
    Run step ok' s t := by
  induction h with
  | refl => exact .refl
  | tail _ h₁ hst ih => exact .tail ih (hok h₁) hst

/-! ## Runs along a list of events -/

def feed (step : σ → ε → Option σ) : σ → List ε → Option σ
  | s, [] => some s
  | s, e :: es => (step s e).bind fun t => feed step t es

/-- The condition holds at every step of the feed. -/
def feedOk (step : σ → ε → Option σ) (ok : σ → ε → Prop) : σ → List ε → Prop
  | _, [] => True
  | s, e :: es => ok s e ∧ match step s e with
      | some t => feedOk step ok t es
      | none => True

instance decFeedOk [∀ s e, Decidable (ok s e)] : ∀ s es, Decidable (feedOk step ok s es)
  | _, [] => isTrue trivial
  | s, e :: es =>
      have : Decidable (match step s e with
          | some t => feedOk step ok t es
          | none => True) :=
        match step s e with
        | some t => decFeedOk t es
        | none => isTrue trivial
      inferInstanceAs (Decidable (_ ∧ _))

instance decAnyEvent (s : σ) (e : ε) : Decidable (anyEvent s e) := isTrue trivial

theorem feedOk_any : ∀ (es : List ε) (s : σ), feedOk step anyEvent s es
  | [], _ => trivial
  | e :: es, s => by
      refine ⟨trivial, ?_⟩
      cases step s e with
      | none => trivial
      | some t => exact feedOk_any es t

theorem run_ofList : ∀ (es : List ε) {s t : σ}, feedOk step ok s es →
    feed step s es = some t → Run step ok s t
  | [], s, t, _, h => by
      cases h
      exact .refl
  | e :: es, s, t, hok, h => by
      obtain ⟨u, hu, hrest⟩ := Option.bind_eq_some_iff.mp h
      obtain ⟨hfirst, htail⟩ := hok
      rw [hu] at htail
      exact (Run.single hfirst hu).trans (run_ofList es htail hrest)

theorem exists_run (step : σ → ε → Option σ) (ok : σ → ε → Prop) (s : σ) {Q : σ → Prop}
    (es : List ε) (hok : feedOk step ok s es) (hQ : ∃ t ∈ feed step s es, Q t) :
    ∃ t, Run step ok s t ∧ Q t := by
  obtain ⟨t, ht, hq⟩ := hQ
  exact ⟨t, run_ofList es hok ht, hq⟩

end

/-! ## Parties on a medium -/

section

/-- What one party does: an action of its own, and a message. -/
structure Party (σ α μ : Type) where
  act : σ → α → Option (σ × List μ)
  recv : σ → μ → σ × List μ

/-- The parties, and what they have sent. -/
structure Medium (ι σ μ : Type) where
  host : ι → σ
  sent : List μ

/-- A party acts, or the message with a number is given to it. -/
inductive MediumEvent (ι α : Type) where
  | act (i : ι) (a : α)
  | deliver (i : ι) (k : Nat)

variable {ι σ α μ : Type} [DecidableEq ι]

def Medium.put (s : Medium ι σ μ) (i : ι) (r : σ × List μ) : Medium ι σ μ :=
  ⟨Function.update s.host i r.1, s.sent ++ r.2⟩

def Medium.step (p : Party σ α μ) (s : Medium ι σ μ) : MediumEvent ι α → Option (Medium ι σ μ)
  | .act i a => (p.act (s.host i) a).map (s.put i)
  | .deliver i k => (s.sent[k]?).map fun m => s.put i (p.recv (s.host i) m)

variable {p : Party σ α μ} {Ok : ι → σ → Prop} {Good : μ → Prop}

theorem Medium.put_keeps {s : Medium ι σ μ} {i : ι} {r : σ × List μ}
    (hs : (∀ j, Ok j (s.host j)) ∧ ∀ m ∈ s.sent, Good m) (hr : Ok i r.1 ∧ ∀ m ∈ r.2, Good m) :
    (∀ j, Ok j ((s.put i r).host j)) ∧ ∀ m ∈ (s.put i r).sent, Good m := by
  constructor
  · intro j
    show Ok j (Function.update s.host i r.1 j)
    by_cases hj : j = i
    · subst hj
      rw [Function.update_self]
      exact hr.1
    · rw [Function.update_of_ne hj]
      exact hs.1 j
  · intro m hm
    rcases List.mem_append.mp hm with hm | hm
    · exact hs.2 m hm
    · exact hr.2 m hm

/-- **From each party to the whole.** -/
theorem Medium.invariant {s t : Medium ι σ μ}
    (hact : ∀ {i x a r}, Ok i x → p.act x a = some r → Ok i r.1 ∧ ∀ m ∈ r.2, Good m)
    (hrecv : ∀ {i x m}, Ok i x → Good m → Ok i (p.recv x m).1 ∧ ∀ m' ∈ (p.recv x m).2, Good m')
    (hs : (∀ j, Ok j (s.host j)) ∧ ∀ m ∈ s.sent, Good m)
    (h : Run (Medium.step p) anyEvent s t) :
    (∀ j, Ok j (t.host j)) ∧ ∀ m ∈ t.sent, Good m := by
  refine h.invariant (P := fun t => (∀ j, Ok j (t.host j)) ∧ ∀ m ∈ t.sent, Good m) hs ?_
  intro t u e ht _ hstep
  cases e with
  | act i a =>
      obtain ⟨r, hr, rfl⟩ := Option.map_eq_some_iff.mp hstep
      exact Medium.put_keeps ht (hact (ht.1 i) hr)
  | deliver i k =>
      obtain ⟨m, hm, rfl⟩ := Option.map_eq_some_iff.mp hstep
      exact Medium.put_keeps ht (hrecv (ht.1 i) (ht.2 m (List.mem_of_getElem? hm)))

end

end Lib

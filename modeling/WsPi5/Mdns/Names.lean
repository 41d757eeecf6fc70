/-
# `WsPi5.Mdns.Names` — one owner of a name on a link

Hosts of this kind on a link with multicast, each with a name.  A host probes three times for its
name before it announces it, and whoever has the name by then answers.

    probing                  an answer or an announcement for its name halts it (`mdns_panic_fn`)
    announcing, live         it answers probes for its name

**The gap.**  `mdns_timer_cb` leaves PROBE_3 as it sends the third probe, and announces 250 ms
later.  A host of the same name that sends its own third probe in between has been told nothing by
then, and does not listen any more: both own the name (`two_owners`).  The condition
(`NameLink.ok`) excludes this.  Else it says that the link is faster than the timers: when one
fires, every frame has been heard by everyone.

**Proved here** (`name_unique`).  Under this condition there is never more than one owner of a name,
up to case.
-/
import WsPi5.Mdns.Frames
import WsPi5.Lib.Run

namespace WsPi5

open Lib

/-- ANNOUNCE_1 to LIVE. -/
def MdnsState.owns : MdnsState → Bool
  | .announce1 | .announce2 | .live => true
  | .idle | .probe1 | .probe2 | .probe3 => false

/-- PROBE_1 to PROBE_3. -/
def MdnsState.probes : MdnsState → Bool
  | .probe1 | .probe2 | .probe3 => true
  | .idle | .announce1 | .announce2 | .live => false

namespace Wire

/-- A host: its addresses, and its name. -/
structure NameHost where
  vars : NetVars
  name : Label

def NameHost.SameName (c c' : NameHost) : Prop :=
  c.name.bytes.map foldCase = c'.name.bytes.map foldCase

/-- The frame that a firing of the timer puts on the wire. -/
def NameHost.frame (c : NameHost) (buf : Buf) : MdnsFrame → Option (Buf × Nat)
  | .probe => mdnsBuildProbeFrame c.vars c.name.bytes buf
  | .announce => mdnsBuildAnnounceFrame c.vars c.name.bytes buf

def NameHost.hears {κ : Type} (c : NameHost) (m : Mdns) (renv : ReasmEnv κ) (now : Tick)
    (r : Reasm κ) (f : Buf × Nat) : Option MdnsResult :=
  match (netRecvOne renv now c.vars f.1 f.2 r).2.2 with
  | .mdns f => mdnsDispatch c.vars c.name.bytes m f
  | _ => some .dropped

/-! ## What is on the wire -/

section
variable {κ : Type} {c c' : NameHost} {f : Buf × Nat} {m : Mdns}

def NameHost.IsProbe (c : NameHost) (f : Buf × Nat) : Prop :=
  IsMdnsFrame c.vars.ourIp (mdnsBuildProbePayload c.name.bytes).1 f

def NameHost.IsClaim (c : NameHost) (f : Buf × Nat) : Prop :=
  ∃ id, IsMdnsFrame c.vars.ourIp (addressResponse c.name c.vars.ourIp id).encode f

/-- The other host takes the address of this one. -/
def NameHost.Hears (c c' : NameHost) : Prop := ipSrcOk c.vars.ourIp c'.vars.ourIp = true

theorem probe_frame {buf : Buf} (h : c.frame buf .probe = some f) : c.IsProbe f := by
  have hlen := mdnsBuildProbePayload_length c.name
  have hshort := c.name.short
  refine mdnsBuildFrame_isMdns h hlen ?_
  rw [mdnsBuildProbePayload_eq]
  show c.name.bytes.length + 24 ≤ 1472
  omega

theorem announcePayload_eq (host : Label) (ip : W) :
    (mdnsBuildAnnouncePayload host.bytes ip).1 = (addressResponse host ip 0).encode := by
  rw [← mdnsBuildAnnouncePayload_eq, mdnsBuildAnnouncePayload,
    if_neg (Nat.ne_of_gt host.nonempty)]
  rfl

theorem announce_frame {buf : Buf} (h : c.frame buf .announce = some f) : c.IsClaim f := by
  have hshort := c.name.short
  have hlen : (mdnsBuildAnnouncePayload c.name.bytes c.vars.ourIp).1.length
      = (mdnsBuildAnnouncePayload c.name.bytes c.vars.ourIp).2 := by
    rw [announcePayload_eq, addressResponse_length, mdnsBuildAnnouncePayload_length]
  have hframe := mdnsBuildFrame_isMdns h hlen (by
    rw [mdnsBuildAnnouncePayload_length]
    omega)
  rw [announcePayload_eq] at hframe
  exact ⟨0, hframe⟩

/-! ## What is heard -/

theorem hears_mdns {src : W} {payload : List Byte} (h : IsMdnsFrame src payload f)
    (hsrc : ipSrcOk c.vars.ourIp src = true) (renv : ReasmEnv κ) (now : Tick) (r : Reasm κ) :
    c.hears m renv now r f = mdnsDispatch c.vars c.name.bytes m f := by
  unfold NameHost.hears
  rw [h.received renv now c.vars r, if_pos hsrc]

theorem respond_claim {g : Buf × Nat} (hf : f.2 < 2 ^ 31)
    (h : mdnsDispatch c.vars c.name.bytes m f = some (.respond g)) : c.IsClaim g := by
  obtain ⟨built, hbuilt, hne, rfl⟩ := mdnsDispatch_respond h
  have hlen : (udpPayload f).length = f.2 - 42 := slice_length ..
  have hshort : (udpPayload f).length < 2 ^ 31 := by omega
  rw [← hlen] at hbuilt
  obtain hdrop | ⟨id, hasks⟩ := mdnsBuildResponse_total c.name c.vars.ourIp 42 hshort
  · rw [hdrop] at hbuilt
    cases hbuilt
    exact absurd rfl hne
  · rw [mdnsBuildResponse_answers hshort hasks] at hbuilt
    cases hbuilt
    have hname := c.name.short
    exact ⟨id, mdnsFrame_isMdns (addressResponse_length ..) (by dsimp only; omega)⟩

theorem claimFlags_msb : (0x8400 : BitVec 16).msb = true := by decide

theorem noQuestions_lt : ([] : List DnsQuestion).length < 2 ^ 16 := by decide

/-- The answer of a host as the search for conflicts sees it. -/
def claimPacket (host : Label) (ip : W) (id : BitVec 16) : ResponsePacket where
  id := id
  flags := 0x8400
  response := claimFlags_msb
  questions := []
  answers := [addressRecord host ip]
  ns := 0
  ar := 0
  rest := []
  questions_lt := noQuestions_lt
  answers_lt := (by decide : 1 < 2 ^ 16)
  address := by
    intro a ha _
    rw [List.mem_singleton.mp ha]
    exact leBytes_length ..

theorem isMdnsFrame_len {src : W} {payload : List Byte} (h : IsMdnsFrame src payload f) :
    f.2 = payload.length + 42 := h.frame.len

theorem NameHost.SameName.isOurs (h : c.SameName c') :
    IsOurName c.name (.plain [c'.name, localLabel]) := by
  have hfold : c'.name.fold = c.name.fold := Label.ext h.symm
  refine ⟨rfl, ?_⟩
  show [c'.name.fold, localLabel.fold] = _
  rw [hfold, localLabel_fold]

/-- **A claim of our name** halts a host that probes. -/
theorem dispatch_claim (hm : m.state.probes = true) (hprior : m.priorAnnouncedIp = 0)
    (h : c'.IsClaim f) (hsame : c.SameName c') :
    mdnsDispatch c.vars c.name.bytes m f = some .conflict := by
  obtain ⟨id, hframe⟩ := h
  have hlen := isMdnsFrame_len hframe
  have hshort := c'.name.short
  have hbytes : (claimPacket c'.name c'.vars.ourIp id).bytes = udpPayload f := hframe.payload.symm
  have hverdict : firstVerdict c.name 0 [addressRecord c'.name c'.vars.ourIp] = true := by
    have hours : IsOurName c.name (addressRecord c'.name c'.vars.ourIp).name := hsame.isOurs
    have hecho : ¬ IsEcho 0 (addressRecord c'.name c'.vars.ourIp) := fun h => h.2.1 rfl
    have hfind : [addressRecord c'.name c'.vars.ourIp].find?
        (fun a => decide (IsOurName c.name a.name)) = some _ :=
      List.find?_cons_of_pos (decide_eq_true hours)
    unfold firstVerdict
    rw [hfind]
    show (!decide _) = true
    rw [decide_eq_false hecho]
    rfl
  have hlength : (udpPayload f).length = f.2 - 42 := slice_length ..
  have hcheck := mdnsCheckConflict_eq c.name 0 42 (claimPacket c'.name c'.vars.ourIp id) (by
    rw [hbytes, hframe.payload, addressResponse_length]
    omega)
  rw [hbytes, hlength] at hcheck
  have hfound : mdnsCheckConflict (region 42 (udpPayload f)) c.name.bytes m.priorAnnouncedIp 42
      (f.2 - 42) = some true := by
    rw [hprior, hcheck]
    exact congrArg some hverdict
  unfold mdnsDispatch
  rw [if_neg (by omega)]
  dsimp only
  cases hst : m.state with
  | idle | announce1 | announce2 | live =>
      rw [hst] at hm
      cases hm
  | probe1 | probe2 | probe3 =>
      dsimp only
      rw [hfound]
      rfl

/-- **A probe for our name** is answered by its owner. -/
theorem dispatch_probe (hm : m.state.owns = true) (h : c'.IsProbe f) (hsame : c.SameName c') :
    ∃ g, mdnsDispatch c.vars c.name.bytes m f = some (.respond g) := by
  have hlen := isMdnsFrame_len h
  have hprobe := mdnsBuildProbePayload_length c'.name
  have hshort := c'.name.short
  have hbuilt : (mdnsBuildProbePayload c'.name.bytes).2 = c'.name.bytes.length + 24 := by
    rw [mdnsBuildProbePayload_eq]
  obtain ⟨id, hasks⟩ := (asksFor_probe c.name c'.name).mpr hsame.symm
  have hpayload : udpPayload f = (mdnsBuildProbePayload c'.name.bytes).1 := h.payload
  have hlength : (udpPayload f).length = f.2 - 42 := slice_length ..
  rw [← hpayload] at hasks
  have hanswer := @mdnsBuildResponse_answers c.name c.vars.ourIp 42 _ _ (by
    rw [hlength]
    omega) hasks
  rw [hlength] at hanswer
  unfold mdnsDispatch
  rw [if_neg (by omega)]
  dsimp only
  cases hst : m.state with
  | idle | probe1 | probe2 | probe3 =>
      rw [hst] at hm
      cases hm
  | announce1 | announce2 | live =>
      dsimp only
      rw [hanswer]
      exact ⟨_, rfl⟩

end

/-! ## The responder of a host -/

section
variable {κ : Type} [DecidableEq κ] {c : NameHost} {env : MdnsEnv κ} {m : Mdns} {p : TimerPool κ}
  {now : Tick}

/-- What a responder keeps, as long as its address does not change. -/
structure NameHost.Kept (c : NameHost) (m : Mdns) : Prop where
  sends : m.hasPool = true → m.hasSendFn = true
  pool : m.state ≠ .idle → m.hasPool = true
  ip : m.state ≠ .idle → m.announcedIp = c.vars.ourIp
  prior : m.priorAnnouncedIp = 0

theorem tryArm_cases (env : MdnsEnv κ) (now : Tick) (ip : W) (m : Mdns) (p : TimerPool κ) :
    (mdnsTryArm env now ip m p).1 = m ∨ m.hasPool = true ∧ ∃ slot,
      (mdnsTryArm env now ip m p).1 = { m with
        timerFreq := env.freq, announcedIp := ip, state := .probe1, timerSlot := slot } := by
  unfold mdnsTryArm
  split
  · rename_i hmay
    refine .inr ⟨?_, _, rfl⟩
    unfold mdnsMayArm at hmay
    simp only [Bool.and_eq_true] at hmay
    exact hmay.1.1
  · exact .inl rfl

theorem start_kept (hprior : m.priorAnnouncedIp = 0) :
    c.Kept (mdnsStart env now c.vars.ourIp true true m p).1 ∧
    ((mdnsStart env now c.vars.ourIp true true m p).1.state = .idle ∨
      (mdnsStart env now c.vars.ourIp true true m p).1.state = .probe1) := by
  unfold mdnsStart
  obtain h | ⟨-, slot, h⟩ := tryArm_cases env now c.vars.ourIp { m with
    hasPool := true, hasSendFn := true, state := .idle, timerSlot := none, announcedIp := 0 } p
  · rw [h]
    exact ⟨⟨fun _ => rfl, fun hne => absurd rfl hne, fun hne => absurd rfl hne, hprior⟩, .inl rfl⟩
  · rw [h]
    exact ⟨⟨fun _ => rfl, fun _ => rfl, fun _ => rfl, hprior⟩, .inr rfl⟩

theorem kick_kept (h : c.Kept m) :
    (mdnsKick env now c.vars.ourIp m p).1 = m ∨
    c.Kept (mdnsKick env now c.vars.ourIp m p).1 ∧
      (mdnsKick env now c.vars.ourIp m p).1.state = .probe1 := by
  unfold mdnsKick
  split
  · obtain harm | ⟨hpool, slot, harm⟩ := tryArm_cases env now c.vars.ourIp m p
    · exact .inl harm
    · rw [harm]
      exact .inr ⟨⟨h.sends, fun _ => hpool, fun _ => rfl, h.prior⟩, rfl⟩
  · rename_i hne
    rw [if_pos (h.ip hne)]
    exact .inl rfl

omit [DecidableEq κ] in
/-- `mdns_timer_cb`: the next state and the frame of this one, or nothing. -/
theorem timerCb_kept (h : c.Kept m) (hlen : env.hostnameLen ≠ 0) :
    match m.state.advance with
    | none => (mdnsTimerCb env now m p).1 = m ∧ (mdnsTimerCb env now m p).2.2 = none
    | some (frame, next) => c.Kept (mdnsTimerCb env now m p).1 ∧
        (mdnsTimerCb env now m p).1.state = next ∧ (mdnsTimerCb env now m p).2.2 = some frame := by
  unfold mdnsTimerCb
  cases hadv : m.state.advance with
  | none => exact ⟨rfl, rfl⟩
  | some fn =>
      obtain ⟨frame, next⟩ := fn
      have hidle : m.state ≠ .idle := by
        intro hst
        rw [hst] at hadv
        cases hadv
      have hpool := h.pool hidle
      have hsent : (if env.hostnameLen ≠ 0 ∧ m.hasSendFn = true then some frame else none)
          = some frame := if_pos ⟨hlen, h.sends hpool⟩
      dsimp only
      by_cases hlive : next = .live
      · rw [if_pos hlive]
        exact ⟨⟨h.sends, fun _ => hpool, fun _ => h.ip hidle, rfl⟩, rfl, hsent⟩
      · rw [if_neg hlive, if_pos hpool]
        exact ⟨⟨h.sends, fun _ => hpool, fun _ => h.ip hidle, h.prior⟩, rfl, hsent⟩

end

/-! ## The link -/

/-- The hosts and what they have in common. -/
structure NameNet (ι κ : Type) where
  host : ι → NameHost
  freq : Tick
  timerCb : κ
  renv : ReasmEnv κ

def NameNet.env {ι κ : Type} (net : NameNet ι κ) (i : ι) : MdnsEnv κ :=
  ⟨net.freq, (net.host i).name.bytes.length, net.timerCb⟩

/-- The responders, which of them have stopped in `mdns_panic_fn`, every frame that was sent and by
whom, and how many of them each host has heard. -/
structure NameLink (ι : Type) where
  mdns : ι → Mdns
  halted : ι → Bool
  heard : ι → Nat
  sent : List (ι × Buf × Nat)

/-- The calls of `mdns_start`, `mdns_kick` and `mdns_timer_cb`, with what they find; and the next
frame on the link, at a host. -/
inductive NameEvent (ι κ : Type) where
  | start (i : ι) (now : Tick) (p : TimerPool κ)
  | kick (i : ι) (now : Tick) (p : TimerPool κ)
  | fire (i : ι) (now : Tick) (p : TimerPool κ) (tx : Buf)
  | hear (i : ι) (now : Tick) (r : Reasm κ)

section
variable {ι κ : Type} [DecidableEq ι] [DecidableEq κ]

/-- A host goes on with `m`, and sends. -/
def NameLink.act (l : NameLink ι) (i : ι) (m : Mdns) (sent : List (ι × Buf × Nat)) :
    NameLink ι :=
  { l with mdns := Function.update l.mdns i m, sent := l.sent ++ sent }

def NameLink.next (l : NameLink ι) (i : ι) : NameLink ι :=
  { l with heard := Function.update l.heard i (l.heard i + 1) }

def NameLink.halt (l : NameLink ι) (i : ι) : NameLink ι :=
  { l with halted := Function.update l.halted i true }

/-- What becomes of the link when a host has heard a frame. -/
def NameLink.heardAs (l : NameLink ι) (i : ι) : MdnsResult → NameLink ι
  | .dropped => l.next i
  | .conflict => (l.next i).halt i
  | .respond g => (l.next i).act i (l.mdns i) [(i, g)]

def NameLink.step (net : NameNet ι κ) (l : NameLink ι) : NameEvent ι κ → Option (NameLink ι)
  | .start i now p =>
      if l.halted i then none
      else some (l.act i
        (mdnsStart (net.env i) now (net.host i).vars.ourIp true true (l.mdns i) p).1 [])
  | .kick i now p =>
      if l.halted i then none
      else some (l.act i (mdnsKick (net.env i) now (net.host i).vars.ourIp (l.mdns i) p).1 [])
  | .fire i now p tx =>
      if l.halted i then none
      else
        let fired := mdnsTimerCb (net.env i) now (l.mdns i) p
        match fired.2.2 with
        | none => some (l.act i fired.1 [])
        | some kind => ((net.host i).frame tx kind).map fun f => l.act i fired.1 [(i, f)]
  | .hear i now r =>
      if l.halted i then none
      else (l.sent[l.heard i]?).bind fun x =>
        if x.1 = i then some (l.next i)
        else ((net.host i).hears (l.mdns i) net.renv now r x.2).map (l.heardAs i)

/-- Every host that goes on has heard everything. -/
def NameLink.Quiet (l : NameLink ι) : Prop := ∀ i, l.halted i = false → l.heard i = l.sent.length

def NameLink.Owns (l : NameLink ι) (i : ι) : Prop :=
  l.halted i = false ∧ (l.mdns i).state.owns = true

/-- **The condition.**  The timers fire on a quiet link, and no host leaves PROBE_3 while another of
its name is in ANNOUNCE_1. -/
def NameLink.ok (net : NameNet ι κ) (l : NameLink ι) : NameEvent ι κ → Prop
  | .fire i _ _ _ => l.Quiet ∧ ((l.mdns i).state = .probe3 →
      ∀ j, j ≠ i → (net.host i).SameName (net.host j) → l.halted j = false →
        (l.mdns j).state ≠ .announce1)
  | .start .. | .kick .. | .hear .. => True

def NameLink.boot : NameLink ι := ⟨fun _ => {}, fun _ => false, fun _ => 0, []⟩

/-! ## The invariant -/

end

/-- ANNOUNCE_2 and LIVE: an announcement has been sent. -/
def announced : MdnsState → Bool
  | .announce2 | .live => true
  | .idle | .probe1 | .probe2 | .probe3 | .announce1 => false

/-- PROBE_2 and PROBE_3: a probe has been sent. -/
def probed : MdnsState → Bool
  | .probe2 | .probe3 => true
  | .idle | .probe1 | .announce1 | .announce2 | .live => false

section
variable {ι κ : Type} {net : NameNet ι κ} {l : NameLink ι} {i j k : ι}

def NameNet.Rivals (net : NameNet ι κ) (i j : ι) : Prop :=
  i ≠ j ∧ (net.host i).SameName (net.host j)

theorem NameNet.Rivals.symm (h : net.Rivals i j) : net.Rivals j i := ⟨h.1.symm, Eq.symm h.2⟩

/-- On its way to `j` is a claim of its name, or on its way to `i` is a probe of `j`. -/
def NameLink.Pending (net : NameNet ι κ) (l : NameLink ι) (i j : ι) : Prop :=
  (∃ n s f, l.heard j ≤ n ∧ l.sent[n]? = some (s, f) ∧ net.Rivals j s ∧ (net.host s).IsClaim f) ∨
  (∃ n f, l.heard i ≤ n ∧ l.sent[n]? = some (j, f) ∧ (net.host j).IsProbe f)

/-- What holds in every state. -/
structure NameLink.Inv (net : NameNet ι κ) (l : NameLink ι) : Prop where
  frames : ∀ x ∈ l.sent, (net.host x.1).IsProbe x.2 ∨ (net.host x.1).IsClaim x.2
  heard : ∀ i, l.heard i ≤ l.sent.length
  kept : ∀ i, (net.host i).Kept (l.mdns i)
  /-- One owner. -/
  unique : ∀ i j, net.Rivals i j → l.Owns i → ¬ l.Owns j
  /-- A host that has probed will be stopped by one that has announced. -/
  pending : ∀ i j, net.Rivals i j → l.halted i = false → announced (l.mdns i).state = true →
    l.halted j = false → probed (l.mdns j).state = true → l.Pending net i j

theorem boot_inv : (NameLink.boot : NameLink ι).Inv net where
  frames := fun _ hx => nomatch hx
  heard := fun _ => Nat.le_refl 0
  kept := fun _ => ⟨fun h => (nomatch h), fun h => absurd rfl h, fun h => absurd rfl h, rfl⟩
  unique := fun _ _ _ h => nomatch h.2
  pending := fun _ _ _ _ h => nomatch h

theorem NameLink.Quiet.not_pending (h : l.Quiet) (hi : l.halted i = false)
    (hj : l.halted j = false) : ¬ l.Pending net i j := by
  have hnone : ∀ {k n}, l.halted k = false → l.heard k ≤ n → l.sent[n]? = none :=
    fun hk hle => List.getElem?_eq_none ((h _ hk) ▸ hle)
  rintro (⟨n, s, f, hle, hget, -⟩ | ⟨n, f, hle, hget, -⟩)
  · rw [hnone hj hle] at hget
    cases hget
  · rw [hnone hi hle] at hget
    cases hget

variable [DecidableEq ι]

theorem act_mdns_self (l : NameLink ι) (i : ι) (m : Mdns) (sent : List (ι × Buf × Nat)) :
    (l.act i m sent).mdns i = m := Function.update_self ..

theorem act_mdns_ne (l : NameLink ι) {i j : ι} (m : Mdns) (sent : List (ι × Buf × Nat))
    (h : j ≠ i) : (l.act i m sent).mdns j = l.mdns j := Function.update_of_ne h ..

theorem next_heard_self (l : NameLink ι) (i : ι) : (l.next i).heard i = l.heard i + 1 :=
  Function.update_self ..

theorem next_heard_ne (l : NameLink ι) {i j : ι} (h : j ≠ i) : (l.next i).heard j = l.heard j :=
  Function.update_of_ne h ..

theorem NameLink.Pending.act (h : l.Pending net i j) (k : ι) (m : Mdns)
    (sent : List (ι × Buf × Nat)) : (l.act k m sent).Pending net i j := by
  have hget : ∀ {n x}, l.sent[n]? = some x → (l.sent ++ sent)[n]? = some x := fun h => by
    rw [List.getElem?_append_left (List.getElem?_eq_some_iff.mp h).1]
    exact h
  obtain ⟨n, s, f, hle, hx, hclaim⟩ | ⟨n, f, hle, hx, hprobe⟩ := h
  · exact .inl ⟨n, s, f, hle, hget hx, hclaim⟩
  · exact .inr ⟨n, f, hle, hget hx, hprobe⟩

theorem getElem?_sent (l : NameLink ι) (i : ι) (m : Mdns) (x : ι × Buf × Nat) :
    (l.act i m [x]).sent[l.sent.length]? = some x := by
  show (l.sent ++ [x])[l.sent.length]? = some x
  rw [List.getElem?_append_right (Nat.le_refl _), Nat.sub_self]
  rfl

/-- **A host goes on.**  What there is to show if it owns the name then, has announced it or has
probed. -/
theorem NameLink.Inv.act {m : Mdns} {sent : List (ι × Buf × Nat)} (h : l.Inv net)
    (hkept : (net.host i).Kept m)
    (hframes : ∀ x ∈ sent, (net.host x.1).IsProbe x.2 ∨ (net.host x.1).IsClaim x.2)
    (hown : m.state.owns = true → ∀ j, net.Rivals i j → ¬ l.Owns j)
    (hannounced : announced m.state = true → ∀ j, net.Rivals i j → l.halted j = false →
      probed (l.mdns j).state = true → (l.act i m sent).Pending net i j)
    (hprobed : probed m.state = true → ∀ j, net.Rivals j i → l.halted j = false →
      announced (l.mdns j).state = true → (l.act i m sent).Pending net j i) :
    (l.act i m sent).Inv net where
  frames := fun x hx => (List.mem_append.mp hx).elim (h.frames x) (hframes x)
  heard := fun j => Nat.le_trans (h.heard j) (by
    show l.sent.length ≤ (l.sent ++ sent).length
    rw [List.length_append]
    exact Nat.le_add_right ..)
  kept := by
    intro j
    by_cases hj : j = i
    · subst hj
      rw [act_mdns_self]
      exact hkept
    · rw [act_mdns_ne l m sent hj]
      exact h.kept j
  unique := by
    intro a b hr ha hb
    have howns : ∀ {k}, k ≠ i → (l.act i m sent).Owns k → l.Owns k := by
      intro k hk ho
      refine ⟨ho.1, ?_⟩
      rw [← act_mdns_ne l m sent hk]
      exact ho.2
    have hself : ∀ {k}, k = i → (l.act i m sent).Owns k → m.state.owns = true := by
      intro k hk ho
      subst hk
      rw [← act_mdns_self l k m sent]
      exact ho.2
    by_cases hai : a = i
    · subst hai
      exact hown (hself rfl ha) b hr (howns (Ne.symm hr.1) hb)
    · by_cases hbi : b = i
      · subst hbi
        exact hown (hself rfl hb) a hr.symm (howns hai ha)
      · exact h.unique a b hr (howns hai ha) (howns hbi hb)
  pending := by
    intro a b hr hupa hann hupb hpro
    by_cases hai : a = i
    · subst hai
      rw [act_mdns_self] at hann
      rw [act_mdns_ne l m sent (Ne.symm hr.1)] at hpro
      exact hannounced hann b hr hupb hpro
    · rw [act_mdns_ne l m sent hai] at hann
      by_cases hbi : b = i
      · subst hbi
        rw [act_mdns_self] at hpro
        exact hprobed hpro a hr hupa hann
      · rw [act_mdns_ne l m sent hbi] at hpro
        exact (h.pending a b hr hupa hann hupb hpro).act i m sent

theorem NameLink.Inv.act_fresh {m : Mdns} (h : l.Inv net) (hkept : (net.host i).Kept m)
    (hfresh : m.state = .idle ∨ m.state = .probe1) : (l.act i m []).Inv net := by
  refine h.act hkept (fun _ hx => nomatch hx) ?_ ?_ ?_ <;> intro hst <;>
    obtain hf | hf := hfresh <;> rw [hf] at hst <;> cases hst

theorem act_same (l : NameLink ι) (i : ι) : l.act i (l.mdns i) [] = l := by
  unfold NameLink.act
  rw [Function.update_eq_self, List.append_nil]

/-- **A timer fires** on a quiet link. -/
theorem NameLink.Inv.fire {m : Mdns} {f : Buf × Nat} (frame : MdnsFrame) (h : l.Inv net)
    (hup : l.halted i = false) (hquiet : l.Quiet)
    (hlast : (l.mdns i).state = .probe3 → ∀ j, j ≠ i → (net.host i).SameName (net.host j) →
      l.halted j = false → (l.mdns j).state ≠ .announce1)
    (hadv : (l.mdns i).state.advance = some (frame, m.state)) (hkept : (net.host i).Kept m)
    (hframe : match frame with
      | .probe => (net.host i).IsProbe f
      | .announce => (net.host i).IsClaim f) : (l.act i m [(i, f)]).Inv net := by
  have hget := getElem?_sent l i m (i, f)
  -- The other one has announced, and this one has probed: it would have been stopped.
  have hstopped : ∀ {a b}, net.Rivals a b → l.halted a = false →
      announced (l.mdns a).state = true → l.halted b = false →
      probed (l.mdns b).state = true → False :=
    fun hr ha hann hb hpro => hquiet.not_pending ha hb (h.pending _ _ hr ha hann hb hpro)
  have hframes : ∀ x ∈ [(i, f)], (net.host x.1).IsProbe x.2 ∨ (net.host x.1).IsClaim x.2 := by
    intro x hx
    rw [List.mem_singleton.mp hx]
    cases frame with
    | probe => exact .inl hframe
    | announce => exact .inr hframe
  cases hst : (l.mdns i).state with
  | idle | live =>
      rw [hst] at hadv
      cases hadv
  | probe1 | probe2 =>
      -- A first or second probe is on its way to everyone.
      rw [hst] at hadv
      obtain ⟨rfl, hnext⟩ : MdnsFrame.probe = frame ∧ _ = m.state := by
        simpa [MdnsState.advance] using hadv
      refine h.act hkept hframes ?_ ?_ ?_
      · rw [← hnext]
        exact fun ho => nomatch ho
      · rw [← hnext]
        exact fun ho => nomatch ho
      · intro _ j _ _ _
        exact .inr ⟨_, f, h.heard j, hget, hframe⟩
  | probe3 =>
      rw [hst] at hadv
      obtain ⟨rfl, hnext⟩ : MdnsFrame.probe = frame ∧ _ = m.state := by
        simpa [MdnsState.advance] using hadv
      refine h.act hkept hframes ?_ ?_ ?_
      · intro _ j hr ho
        have hj := hlast hst j (Ne.symm hr.1) hr.2 ho.1
        refine hstopped hr.symm ho.1 ?_ hup (by rw [hst]; rfl)
        have howns := ho.2
        cases hsj : (l.mdns j).state with
        | announce2 | live => rfl
        | announce1 => exact absurd hsj hj
        | idle | probe1 | probe2 | probe3 =>
            rw [hsj] at howns
            cases howns
      · rw [← hnext]
        exact fun ho => nomatch ho
      · rw [← hnext]
        exact fun ho => nomatch ho
  | announce1 =>
      -- The announcement is on its way to everyone.
      rw [hst] at hadv
      obtain ⟨rfl, hnext⟩ : MdnsFrame.announce = frame ∧ _ = m.state := by
        simpa [MdnsState.advance] using hadv
      refine h.act hkept hframes ?_ ?_ ?_
      · intro _ j hr
        exact h.unique i j hr ⟨hup, by rw [hst]; rfl⟩
      · intro _ j hr _ _
        exact .inl ⟨_, i, f, h.heard j, hget, hr.symm, hframe⟩
      · rw [← hnext]
        exact fun ho => nomatch ho
  | announce2 =>
      rw [hst] at hadv
      obtain ⟨rfl, hnext⟩ : MdnsFrame.announce = frame ∧ _ = m.state := by
        simpa [MdnsState.advance] using hadv
      refine h.act hkept hframes ?_ ?_ ?_
      · intro _ j hr
        exact h.unique i j hr ⟨hup, by rw [hst]; rfl⟩
      · intro _ j hr hj hpro
        exact (hstopped hr hup (by rw [hst]; rfl) hj hpro).elim
      · rw [← hnext]
        exact fun ho => nomatch ho

theorem NameLink.Pending.next {x : ι × Buf × Nat} (h : l.Pending net i j)
    (hx : l.sent[l.heard k]? = some x) :
    (l.next k).Pending net i j ∨
    (j = k ∧ net.Rivals k x.1 ∧ (net.host x.1).IsClaim x.2) ∨
    (i = k ∧ x.1 = j ∧ (net.host j).IsProbe x.2) := by
  -- A frame that is not the one just heard.
  have hlater : ∀ {a n y}, l.heard a ≤ n → l.sent[n]? = some y → ¬ (a = k ∧ y = x) →
      (l.next k).heard a ≤ n := by
    intro a n y hle hget hne
    by_cases hak : a = k
    · subst hak
      rw [next_heard_self]
      refine Nat.lt_of_le_of_ne hle fun hn => hne ⟨rfl, ?_⟩
      rw [← hn, hx] at hget
      exact (Option.some.inj hget).symm
    · rw [next_heard_ne l hak]
      exact hle
  obtain ⟨n, s, f, hle, hget, hr, hclaim⟩ | ⟨n, f, hle, hget, hprobe⟩ := h
  · by_cases hheard : j = k ∧ (s, f) = x
    · obtain ⟨rfl, rfl⟩ := hheard
      exact .inr (.inl ⟨rfl, hr, hclaim⟩)
    · exact .inl (.inl ⟨n, s, f, hlater hle hget hheard, hget, hr, hclaim⟩)
  · by_cases hheard : i = k ∧ (j, f) = x
    · obtain ⟨rfl, rfl⟩ := hheard
      exact .inr (.inr ⟨rfl, rfl, hprobe⟩)
    · exact .inl (.inr ⟨n, f, hlater hle hget hheard, hget, hprobe⟩)

theorem heardAs_mdns (l : NameLink ι) (k : ι) (r : MdnsResult) : (l.heardAs k r).mdns = l.mdns := by
  cases r with
  | dropped | conflict => rfl
  | respond g => exact Function.update_eq_self ..

theorem heardAs_heard (l : NameLink ι) (k : ι) (r : MdnsResult) :
    (l.heardAs k r).heard = (l.next k).heard := by
  cases r <;> rfl

theorem heardAs_up {r : MdnsResult} (h : (l.heardAs k r).halted i = false) :
    l.halted i = false ∧ (r = .conflict → i ≠ k) := by
  cases r with
  | dropped | respond => exact ⟨h, fun hr => nomatch hr⟩
  | conflict =>
      have hne : i ≠ k := by
        rintro rfl
        have hself : (l.heardAs i .conflict).halted i = true := Function.update_self ..
        rw [hself] at h
        cases h
      refine ⟨?_, fun _ => hne⟩
      have hother : (l.heardAs k .conflict).halted i = l.halted i := Function.update_of_ne hne ..
      exact hother ▸ h

theorem NameLink.Pending.heardAs (h : (l.next k).Pending net i j) (r : MdnsResult) :
    (l.heardAs k r).Pending net i j := by
  cases r with
  | dropped | conflict => exact h
  | respond g => exact h.act k (l.mdns k) [(k, g)]

/-- **A host hears a frame.**  A claim stops it if it probes, a probe it answers once it has
announced. -/
theorem NameLink.Inv.hear {x : ι × Buf × Nat} {r : MdnsResult} (h : l.Inv net)
    (hx : l.sent[l.heard k]? = some x)
    (hclaim : probed (l.mdns k).state = true → net.Rivals k x.1 → (net.host x.1).IsClaim x.2 →
      r = .conflict)
    (hprobe : announced (l.mdns k).state = true → net.Rivals k x.1 → (net.host x.1).IsProbe x.2 →
      ∃ g, r = .respond g)
    (hrespond : ∀ g, r = .respond g → (net.host k).IsClaim g) : (l.heardAs k r).Inv net where
  frames := by
    intro y hy
    cases r with
    | dropped | conflict => exact h.frames y hy
    | respond g =>
        obtain hold | hnew := List.mem_append.mp hy
        · exact h.frames y hold
        · rw [List.mem_singleton.mp hnew]
          exact .inr (hrespond g rfl)
  heard := by
    intro i
    have hlen : l.sent.length ≤ (l.heardAs k r).sent.length := by
      cases r with
      | dropped | conflict => exact Nat.le_refl _
      | respond g =>
          show l.sent.length ≤ (l.sent ++ [(k, g)]).length
          rw [List.length_append]
          exact Nat.le_add_right ..
    refine Nat.le_trans ?_ hlen
    rw [heardAs_heard]
    by_cases hi : i = k
    · subst hi
      rw [next_heard_self]
      exact (List.getElem?_eq_some_iff.mp hx).1
    · rw [next_heard_ne l hi]
      exact h.heard i
  kept := by
    rw [heardAs_mdns]
    exact h.kept
  unique := by
    intro i j hr hi hj
    rw [NameLink.Owns, heardAs_mdns] at hi hj
    exact h.unique i j hr ⟨(heardAs_up hi.1).1, hi.2⟩ ⟨(heardAs_up hj.1).1, hj.2⟩
  pending := by
    intro i j hr hi hann hj hpro
    rw [heardAs_mdns] at hann hpro
    obtain hpend | ⟨rfl, hrival, hc⟩ | ⟨rfl, rfl, hp⟩ :=
      (h.pending i j hr (heardAs_up hi).1 hann (heardAs_up hj).1 hpro).next hx
    · exact hpend.heardAs r
    · exact absurd rfl ((heardAs_up hj).2 (hclaim hpro hrival hc))
    · obtain ⟨g, rfl⟩ := hprobe hann hr hp
      refine .inl ⟨l.sent.length, i, g, ?_, getElem?_sent _ i _ _, hr.symm, hrespond g rfl⟩
      rw [heardAs_heard, next_heard_ne l (Ne.symm hr.1)]
      exact h.heard x.1

/-- **One event keeps the invariant.** -/
theorem NameLink.Inv.step [DecidableEq κ] {l' : NameLink ι} {e : NameEvent ι κ}
    (hlink : ∀ i j, i ≠ j → (net.host i).Hears (net.host j)) (h : l.Inv net)
    (hok : NameLink.ok net l e) (hstep : NameLink.step net l e = some l') : l'.Inv net := by
  cases e with
  | start i now p =>
      simp only [NameLink.step] at hstep
      split at hstep
      · cases hstep
      · cases hstep
        obtain ⟨hkept, hfresh⟩ := @start_kept κ _ (net.host i) (net.env i) _ p now (h.kept i).prior
        exact h.act_fresh hkept hfresh
  | kick i now p =>
      simp only [NameLink.step] at hstep
      split at hstep
      · cases hstep
      · cases hstep
        obtain hsame | ⟨hkept, hfresh⟩ := @kick_kept κ _ _ (net.env i) _ p now (h.kept i)
        · rw [hsame, act_same]
          exact h
        · exact h.act_fresh hkept (.inr hfresh)
  | fire i now p tx =>
      simp only [NameLink.step] at hstep
      split at hstep
      · cases hstep
      · rename_i hup
        have hfire := @timerCb_kept κ _ (net.env i) _ p now (h.kept i)
          (Nat.ne_of_gt (net.host i).name.nonempty)
        cases hadv : (l.mdns i).state.advance with
        | none =>
            rw [hadv] at hfire
            rw [hfire.2, hfire.1, act_same] at hstep
            cases hstep
            exact h
        | some fn =>
            obtain ⟨frame, next⟩ := fn
            rw [hadv] at hfire
            obtain ⟨hkept, hnext, hsent⟩ := hfire
            rw [hsent] at hstep
            obtain ⟨f, hf, rfl⟩ := Option.map_eq_some_iff.mp hstep
            refine h.fire frame (Bool.eq_false_iff.mpr hup) hok.1 hok.2
              (hnext.symm ▸ hadv) hkept ?_
            cases frame with
            | probe => exact probe_frame hf
            | announce => exact announce_frame hf
  | hear i now r =>
      simp only [NameLink.step] at hstep
      split at hstep
      · cases hstep
      · obtain ⟨x, hx, hheard⟩ := Option.bind_eq_some_iff.mp hstep
        split at hheard
        · rename_i hown
          cases hheard
          exact h.hear (r := .dropped) hx (fun _ hr _ => absurd hown.symm hr.1)
            (fun _ hr _ => absurd hown.symm hr.1) (fun _ hr => nomatch hr)
        · rename_i hother
          obtain ⟨res, hres, rfl⟩ := Option.map_eq_some_iff.mp hheard
          have hsrc := hlink i x.1 (Ne.symm hother)
          have hdispatch : mdnsDispatch (net.host i).vars (net.host i).name.bytes (l.mdns i) x.2
              = some res := by
            rw [← hres]
            obtain hp | ⟨id, hc⟩ := h.frames x (List.mem_of_getElem? hx)
            · exact (hears_mdns hp hsrc net.renv now r).symm
            · exact (hears_mdns hc hsrc net.renv now r).symm
          refine h.hear hx ?_ ?_ ?_
          · intro hpro hr hc
            have hprobing : (l.mdns i).state.probes = true := by
              cases hst : (l.mdns i).state <;> rw [hst] at hpro <;> first | rfl | cases hpro
            rw [dispatch_claim hprobing (h.kept i).prior hc hr.2] at hdispatch
            exact (Option.some.inj hdispatch).symm
          · intro hann hr hp
            have howns : (l.mdns i).state.owns = true := by
              cases hst : (l.mdns i).state <;> rw [hst] at hann <;> first | rfl | cases hann
            obtain ⟨g, hg⟩ := dispatch_probe howns hp hr.2
            rw [hg] at hdispatch
            exact ⟨g, (Option.some.inj hdispatch).symm⟩
          · rintro g rfl
            refine respond_claim ?_ hdispatch
            obtain hp | ⟨id, hc⟩ := h.frames x (List.mem_of_getElem? hx)
            · have hname := (net.host x.1).name.short
              rw [isMdnsFrame_len hp, mdnsBuildProbePayload_length, mdnsBuildProbePayload_eq]
              show (net.host x.1).name.bytes.length + 24 + 42 < 2 ^ 31
              omega
            · have hname := (net.host x.1).name.short
              rw [isMdnsFrame_len hc, addressResponse_length]
              omega

/-! ## The owners -/

variable [DecidableEq κ]

/-- **The condition is needed.**  A host that leaves PROBE_3 while another of its name is in
ANNOUNCE_1 owns the name as well. -/
theorem two_owners {l' : NameLink ι} {now : Tick} {p : TimerPool κ} {tx : Buf} (hne : j ≠ i)
    (hi : (l.mdns i).state = .probe3) (hj : l.halted j = false)
    (hfirst : (l.mdns j).state = .announce1)
    (hstep : NameLink.step net l (.fire i now p tx) = some l') : l'.Owns i ∧ l'.Owns j := by
  have hstate : (mdnsTimerCb (net.env i) now (l.mdns i) p).1.state = .announce1 := by
    unfold mdnsTimerCb
    rw [hi]
    dsimp only [MdnsState.advance]
    rw [if_neg (by decide)]
    split <;> rfl
  have hact : ∀ sent, l.halted i = false →
      NameLink.Owns (l.act i (mdnsTimerCb (net.env i) now (l.mdns i) p).1 sent) i ∧
      NameLink.Owns (l.act i (mdnsTimerCb (net.env i) now (l.mdns i) p).1 sent) j := by
    intro sent hup
    refine ⟨⟨hup, ?_⟩, hj, ?_⟩
    · rw [act_mdns_self, hstate]
      rfl
    · rw [act_mdns_ne l _ _ hne, hfirst]
      rfl
  simp only [NameLink.step] at hstep
  split at hstep
  · cases hstep
  · rename_i hup
    have hup := Bool.eq_false_iff.mpr hup
    cases hsent : (mdnsTimerCb (net.env i) now (l.mdns i) p).2.2 with
    | none =>
        rw [hsent] at hstep
        cases hstep
        exact hact _ hup
    | some kind =>
        rw [hsent] at hstep
        obtain ⟨f, -, rfl⟩ := Option.map_eq_some_iff.mp hstep
        exact hact _ hup

/-- **One owner of a name**, whatever the hosts do and whenever their timers fire, as long as the
link is quiet then and no host leaves PROBE_3 while another of its name is in ANNOUNCE_1. -/
theorem name_unique (hlink : ∀ i j, i ≠ j → (net.host i).Hears (net.host j))
    (h : Run (NameLink.step net) (NameLink.ok net) NameLink.boot l) (hne : i ≠ j)
    (hsame : (net.host i).SameName (net.host j)) : ¬ (l.Owns i ∧ l.Owns j) := by
  have hinv : l.Inv net := h.invariant boot_inv fun hinv hok hstep => hinv.step hlink hok hstep
  exact fun ho => hinv.unique i j ⟨hne, hsame⟩ ho.1 ho.2

end

/-! ## Two hosts called `pi` -/

def demoNames : NameNet Bool RIndex where
  host second := ⟨lanDemo second, ⟨[0x70, 0x69], by decide, by decide⟩⟩
  freq := 4
  timerCb := Fin.last 3
  renv := demoReasm

instance (l : NameLink Bool) (e : NameEvent Bool RIndex) :
    Decidable (NameLink.ok demoNames l e) :=
  match e with
  | .fire i _ _ _ => inferInstanceAs (Decidable ((∀ _ : Bool, _ → _ = _) ∧
      ((l.mdns i).state = .probe3 → ∀ j : Bool, j ≠ i → _ = _ → l.halted j = false →
        (l.mdns j).state ≠ .announce1)))
  | .start .. | .kick .. | .hear .. => isTrue trivial

/-- A host starts, its timer fires, it hears the next frame. -/
def demoStart (i : Bool) : NameEvent Bool RIndex := .start i 0 (timerPoolInit _ 16)

def demoFire (i : Bool) : NameEvent Bool RIndex := .fire i 0 (timerPoolInit _ 16) fun _ => 0

def demoHear (i : Bool) : NameEvent Bool RIndex := .hear i 0 (ipReasmInit (timerPoolInit _ 16))

/-- The first one has the name, and the second one is stopped by the answer to its first probe. -/
theorem name_unique_demo : ∃ l : NameLink Bool, l.Owns false ∧ l.halted true = true ∧
    ¬ (l.Owns false ∧ l.Owns true) := by
  let turn := [demoFire false, demoHear false, demoHear true]
  obtain ⟨l, hrun, ⟨hup, howns⟩, hhalted⟩ := exists_run (NameLink.step demoNames)
    (NameLink.ok demoNames) NameLink.boot (Q := fun l => (l.halted false = false ∧
      (l.mdns false).state.owns = true) ∧ l.halted true = true)
    (demoStart false :: (turn ++ turn ++ turn ++ turn ++ turn ++
      [demoStart true, demoFire true, demoHear true, demoHear false, demoHear true]))
    (by decide +kernel) (by decide +kernel)
  refine ⟨l, ⟨hup, howns⟩, hhalted, name_unique ?_ hrun (by decide) rfl⟩
  intro i j hne
  show ipSrcOk _ _ = true
  cases i <;> cases j <;> first | exact absurd rfl hne | decide

end Wire

end WsPi5

/-
# `WsPi5.Mdns.Conflict` — the search for another owner of our name in `lib/mdns.S`

`mdns_check_conflict` walks over the answers of a response.

    name is compressed, or not ours     next answer
    name is ours, an echo               0
    name is ours, no echo               1
    no answer is left                   0

An echo is an address record with the address that we announced before the last change: a peer that
has not seen the change yet.  The second line ends the walk, where the answers that follow have not
been looked at.  So an echo hides a conflict behind it.

**Proved here** (`mdns_check_conflict_iff`), for every response whose questions and answers are
well formed: the walk ends, reads nothing but the payload, and returns 1 exactly when an answer is a
conflict, if and only if it does not happen that the first answer under our name is an echo and a
later one is a conflict (`EchoHides`).
-/
import WsPi5.Mdns.Message

namespace WsPi5

open Lib

/-! ## The code -/

section
variable (mem : Nat → Option Byte)

/-- `_mdns_skip_name`: the offset behind a name, and `none` for -1. -/
def mdnsSkipName (x0 w1 w2 : Nat) : Option (Option Nat) :=
  (labelLoop mem x0 w1 w1 w2).map fun
    | .root w9 => if w1 < w9 + 1 then none else some (w9 + 1)
    | .top w9 => if w1 < w9 + 2 then none else some (w9 + 2)
    | .past => none
    | .long => none

/-- `.Lcc_q_loop`: `w0` questions from `w21` on; `none` where the answer is no. -/
def conflictQuestions (x19 w20 : Nat) : (w0 w21 : Nat) → Option (Option Nat)
  | 0, w21 => some (some w21)
  | w0 + 1, w21 => (mdnsSkipName mem x19 w20 w21).bind fun
      | none => some none
      | some past =>
          if w20 < past + 4 then some none else conflictQuestions x19 w20 w0 (past + 4)

/-- `.Lcc_skip_an`: the record behind the one at `w21`. -/
def conflictSkip (x19 w20 w21 : Nat) : Option (Option Nat) :=
  (mdnsSkipName mem x19 w20 w21).bind fun
    | none => some none
    | some w0 =>
        if w20 < w0 + 10 then some none
        else (mem (x19 + (w0 + 8))).bind fun w3 => (mem (x19 + (w0 + 9))).map fun w4 =>
          let w21 := w0 + 10 + (w4.toNat + w3.toNat * 256)
          if w20 < w21 then none else some w21

/-- `.Lcc_yes`: a record under our name whose name ends at `x24`. -/
def conflictYes (prior : W) (x19 w20 x24 : Nat) : Option Bool :=
  if w20 < x24 + 15 then some true
  else (mem (x19 + (x24 + 1))).bind fun w1 => (mem (x19 + (x24 + 2))).bind fun w2 =>
    if w2.toNat + w1.toNat * 256 ≠ 1 then some true
    else if prior = 0 then some true
    else (loadCells mem 4 (x19 + (x24 + 11))).map fun rdata => decide (wireWord rdata ≠ prior)

/-- `.Lcc_an_loop`: `w22` answers from `w21` on. -/
def conflictAnswers (hostname : List Byte) (prior : W) (x19 w20 : Nat) :
    (w22 w21 : Nat) → Option Bool
  | 0, _ => some false
  | w22 + 1, w21 =>
      if w20 ≤ w21 then some false
      else
        let skip := (conflictSkip mem x19 w20 w21).bind fun
          | none => some false
          | some w21 => conflictAnswers hostname prior x19 w20 w22 w21
        (mem (x19 + w21)).bind fun w0 =>
          if w0 &&& 0xC0 ≠ 0 then skip
          else (labelLoop mem x19 w20 w20 w21).bind fun
            | .past => some false
            | .long => some false
            | .top _ => skip
            | .root x24 => (qnameEqHostnameLocal mem hostname x19 w21 x24).bind fun same =>
                if same then conflictYes mem prior x19 w20 x24 else skip

/-- `mdns_check_conflict`, with `MDNSC_PRIOR_ANNOUNCED_IP`. -/
def mdnsCheckConflict (hostname : List Byte) (prior : W) (x0 w1 : Nat) : Option Bool :=
  if (BitVec.ofNat 32 w1).toInt < 12 then some false
  else (mem (x0 + 2)).bind fun w0 =>
    if w0 &&& 0x80 = 0 then some false
    else (mem (x0 + 6)).bind fun an1 => (mem (x0 + 7)).bind fun an2 =>
      let w22 := an2.toNat + an1.toNat * 256
      if w22 = 0 then some false
      else (mem (x0 + 4)).bind fun qd1 => (mem (x0 + 5)).bind fun qd2 =>
        (conflictQuestions mem x0 w1 (qd2.toNat + qd1.toNat * 256) 12).bind fun
          | none => some false
          | some w21 => conflictAnswers mem hostname prior x0 w1 w22 w21

end

/-! ## The reference -/

/-- A response whose questions and answers are well formed; an address has four bytes. -/
structure ResponsePacket where
  id : BitVec 16
  flags : BitVec 16
  response : flags.msb = true
  questions : List DnsQuestion
  answers : List DnsRecord
  ns : BitVec 16
  ar : BitVec 16
  rest : List Byte
  questions_lt : questions.length < 2 ^ 16
  answers_lt : answers.length < 2 ^ 16
  address : ∀ a ∈ answers, a.type = 1 → a.data.length = 4

def ResponsePacket.bytes (p : ResponsePacket) : List Byte :=
  dnsHeader p.id p.flags (.ofNat 16 p.questions.length) (.ofNat 16 p.answers.length) p.ns p.ar ++
    (p.questions.flatMap DnsQuestion.encode ++ (p.answers.flatMap DnsRecord.encode ++ p.rest))

/-- An address record with the address that was announced before; 0 is none. -/
def IsEcho (prior : W) (a : DnsRecord) : Prop := a.type = 1 ∧ prior ≠ 0 ∧ wireWord a.data = prior

instance (prior : W) (a : DnsRecord) : Decidable (IsEcho prior a) :=
  inferInstanceAs (Decidable (_ ∧ _))

def IsConflict (host : Label) (prior : W) (a : DnsRecord) : Prop :=
  IsOurName host a.name ∧ ¬ IsEcho prior a

/-- The first answer under our name is an echo, and a later answer is a conflict. -/
def EchoHides (host : Label) (prior : W) (answers : List DnsRecord) : Prop :=
  ∃ before a after, answers = before ++ a :: after ∧ (∀ b ∈ before, ¬ IsOurName host b.name) ∧
    IsOurName host a.name ∧ IsEcho prior a ∧ ∃ c ∈ after, IsConflict host prior c

/-- What the walk decides by: the first answer under our name. -/
def firstVerdict (host : Label) (prior : W) (answers : List DnsRecord) : Bool :=
  match answers.find? fun a => decide (IsOurName host a.name) with
  | none => false
  | some a => !decide (IsEcho prior a)

/-- The first answer under our name is enough unless it is an echo in front of a conflict. -/
theorem firstVerdict_iff (host : Label) (prior : W) (answers : List DnsRecord) :
    (firstVerdict host prior answers = true ↔ ∃ a ∈ answers, IsConflict host prior a) ↔
      ¬ EchoHides host prior answers := by
  rw [firstVerdict]
  cases hfind : answers.find? fun a => decide (IsOurName host a.name) with
  | none =>
      have hnone : ∀ a ∈ answers, ¬ IsOurName host a.name := fun a ha =>
        of_decide_eq_false (Bool.eq_false_iff.mpr (List.find?_eq_none.mp hfind a ha))
      have hfree : ¬ ∃ a ∈ answers, IsConflict host prior a := fun ⟨a, ha, hc⟩ => hnone a ha hc.1
      refine iff_of_true (iff_of_false Bool.false_ne_true hfree) ?_
      rintro ⟨before, a, after, rfl, -, hours, -⟩
      exact hnone a (List.mem_append_right _ (List.mem_cons_self ..)) hours
  | some a =>
      obtain ⟨hours, before, after, hsplit, hbefore⟩ := List.find?_eq_some_iff_append.mp hfind
      have hours := of_decide_eq_true hours
      have hbefore : ∀ b ∈ before, ¬ IsOurName host b.name := fun b hb =>
        by simpa using hbefore b hb
      by_cases hecho : IsEcho prior a
      · -- 0: right unless there is a conflict, which can only be behind the echo
        have hiff : (∃ c ∈ answers, IsConflict host prior c) ↔ EchoHides host prior answers := by
          constructor
          · rintro ⟨c, hc, hconflict⟩
            refine ⟨before, a, after, hsplit, hbefore, hours, hecho, c, ?_, hconflict⟩
            rw [hsplit] at hc
            rcases List.mem_append.mp hc with hc | hc
            · exact absurd hconflict.1 (hbefore c hc)
            · rcases List.mem_cons.mp hc with rfl | hc
              · exact absurd hecho hconflict.2
              · exact hc
          · rintro ⟨before', a', after', rfl, -, -, -, c, hc, hconflict⟩
            exact ⟨c, List.mem_append_right _ (List.mem_cons_of_mem _ hc), hconflict⟩
        rw [← hiff]
        simp [hecho]
      · -- 1: the first answer under our name is a conflict
        have hconflict : ∃ c ∈ answers, IsConflict host prior c := by
          refine ⟨a, ?_, hours, hecho⟩
          rw [hsplit]
          exact List.mem_append_right _ (List.mem_cons_self ..)
        refine iff_of_true (iff_of_true (by simp [hecho]) hconflict) ?_
        rintro ⟨before', a', after', hsplit', hbefore', hours', hecho', -⟩
        have hfind' : answers.find? (fun a => decide (IsOurName host a.name)) = some a' :=
          List.find?_eq_some_iff_append.mpr ⟨decide_eq_true hours', before', after', hsplit',
            fun b hb => by simpa using hbefore' b hb⟩
        rw [hfind, Option.some.injEq] at hfind'
        exact hecho (hfind' ▸ hecho')

/-! ## The walk -/

section
variable {mem : Nat → Option Byte} {x19 w20 w21 : Nat}

theorem mdnsSkipName_eq {n : DnsName} {rest : List Byte}
    (h : Stands mem (x19 + w21) (n.encode ++ rest)) (hend : w21 + (n.encode ++ rest).length = w20) :
    mdnsSkipName mem x19 w20 w21 = some (some (w21 + n.encode.length)) := by
  obtain ⟨ls, pointer⟩ := n
  have hlen : (DnsName.mk ls pointer).encode.length + rest.length
      = ((DnsName.mk ls pointer).encode ++ rest).length := List.length_append.symm
  cases pointer with
  | none =>
      rw [DnsName.encode_root] at h hend hlen
      rw [mdnsSkipName, labelLoop_root h hend (by omega), Option.map_some]
      rw [List.length_append, List.length_cons] at hend hlen
      dsimp only
      rw [if_neg (by omega)]
      congr 2
      omega
  | some p =>
      obtain ⟨hi, lo, htop, hname⟩ := DnsName.encode_pointer ls p rest
      rw [hname] at h hend hlen
      rw [mdnsSkipName, labelLoop_top htop h hend (by omega), Option.map_some]
      rw [List.length_append, List.length_cons, List.length_cons] at hend hlen
      dsimp only
      rw [if_neg (by omega)]
      congr 2
      omega

theorem conflictQuestions_eq {qs : List DnsQuestion} {rest : List Byte}
    (h : Stands mem (x19 + w21) (qs.flatMap DnsQuestion.encode ++ rest))
    (hend : w21 + (qs.flatMap DnsQuestion.encode ++ rest).length = w20) :
    conflictQuestions mem x19 w20 qs.length w21
      = some (some (w21 + (qs.flatMap DnsQuestion.encode).length)) := by
  induction qs generalizing w21 with
  | nil => rfl
  | cons q qs ih =>
      rw [List.flatMap_cons, List.append_assoc] at h hend
      have hrest : Stands mem (x19 + (w21 + q.encode.length))
          (qs.flatMap DnsQuestion.encode ++ rest) := by
        rw [← Nat.add_assoc]
        exact h.right
      have hsize : q.encode.length = q.name.encode.length + 4 := by
        rw [DnsQuestion.encode, List.length_append, List.length_append, netWord_length,
          netWord_length]
      rw [List.length_append] at hend
      have hnext := ih hrest (by omega)
      rw [DnsQuestion.encode_append] at h
      rw [List.length_cons, conflictQuestions, mdnsSkipName_eq h (by
        rw [← DnsQuestion.encode_append, List.length_append]
        omega), Option.bind_some]
      dsimp only
      rw [if_neg (by rw [List.length_append] at hend; omega), Nat.add_assoc, ← hsize, hnext,
        List.flatMap_cons, List.length_append, Nat.add_assoc]

theorem conflictSkip_eq {a : DnsRecord} {rest : List Byte}
    (h : Stands mem (x19 + w21) (a.encode ++ rest)) (hend : w21 + (a.encode ++ rest).length = w20) :
    conflictSkip mem x19 w20 w21 = some (some (w21 + a.encode.length)) := by
  have hsize : a.encode.length = a.name.encode.length + 10 + a.data.length := by
    rw [DnsRecord.encode, DnsRecord.fixed]
    simp only [List.length_append, netWord_length, netBytes_length]
  rw [List.length_append] at hend
  rw [DnsRecord.encode_append] at h
  have hfields := h.right.right.right.right
  obtain ⟨hhigh, hlow, -⟩ := stands_netWord hfields
  have hvalue : (UInt8.ofNat (BitVec.ofNat 16 a.data.length).toNat).toNat +
      (UInt8.ofNat ((BitVec.ofNat 16 a.data.length).toNat / 256)).toNat * 256 = a.data.length := by
    have hshort := a.short
    rw [high_toNat, low_toNat, a.size_toNat]
    omega
  have hname : mdnsSkipName mem x19 w20 w21 = some (some (w21 + a.name.encode.length)) := by
    refine mdnsSkipName_eq h ?_
    rw [← DnsRecord.encode_append, List.length_append]
    exact hend
  have hat : ∀ k, x19 + w21 + a.name.encode.length + k = x19 + (w21 + a.name.encode.length + k) :=
    fun k => by omega
  have hhigh : mem (x19 + (w21 + a.name.encode.length + 8)) = _ :=
    (congrArg mem (hat 8).symm).trans hhigh
  have hlow : mem (x19 + (w21 + a.name.encode.length + 9)) = _ :=
    (congrArg mem (hat 9).symm).trans hlow
  rw [conflictSkip, hname, Option.bind_some]
  dsimp only
  rw [if_neg (by omega), hhigh, Option.bind_some, hlow, Option.map_some, hvalue, if_neg (by omega)]
  congr 2
  omega

theorem conflictYes_eq (prior : W) {a : DnsRecord} {ls : List Label} {rest : List Byte}
    (hname : a.name = ⟨ls, none⟩) (haddress : a.type = 1 → a.data.length = 4)
    (h : Stands mem (x19 + w21) (a.encode ++ rest)) (hend : w21 + (a.encode ++ rest).length = w20) :
    conflictYes mem prior x19 w20 (w21 + (labelBytes ls).length)
      = some (!decide (IsEcho prior a)) := by
  rw [DnsRecord.encode_append, hname, DnsName.encode_root] at h hend
  have hfields := h.right.tail
  obtain ⟨hhigh, hlow, hfields⟩ := stands_netWord hfields
  have hdata := hfields.right.right.right.left
  simp only [List.length_append, List.length_cons, netWord_length, netBytes_length] at hend
  have hat : ∀ k, x19 + w21 + (labelBytes ls).length + k
      = x19 + (w21 + (labelBytes ls).length + k) := fun k => by omega
  have hhigh : mem (x19 + (w21 + (labelBytes ls).length + 1)) = _ :=
    (congrArg mem (hat 1).symm).trans hhigh
  have hlow : mem (x19 + (w21 + (labelBytes ls).length + 2)) = _ :=
    (congrArg mem (hat 2).symm).trans hlow
  have hvalue : (UInt8.ofNat a.type.toNat).toNat +
      (UInt8.ofNat (a.type.toNat / 256)).toNat * 256 = a.type.toNat := by
    rw [high_toNat, low_toNat]
    omega
  by_cases htype : a.type = 1
  swap
  · -- no address: a conflict, looked at or not
    have hne : a.type.toNat ≠ 1 := fun h1 => htype (BitVec.eq_of_toNat_eq h1)
    have hno : ¬ IsEcho prior a := fun hecho => htype hecho.1
    rw [conflictYes, hhigh, Option.bind_some, hlow, Option.bind_some, hvalue, if_pos hne,
      decide_eq_false hno]
    exact ite_self _
  have hfour := haddress htype
  have hload : loadCells mem 4 (x19 + (w21 + (labelBytes ls).length + 11)) = some a.data := by
    rw [← hat, ← hfour]
    exact loadCells_eq hdata
  have hone : ¬ a.type.toNat ≠ 1 := by
    rw [htype]
    decide
  rw [conflictYes, if_neg (by omega), hhigh, Option.bind_some, hlow, Option.bind_some, hvalue,
    if_neg hone]
  by_cases hprior : prior = 0
  · have hno : ¬ IsEcho prior a := fun hecho => hecho.2.1 hprior
    rw [if_pos hprior, decide_eq_false hno]
    rfl
  · have hecho : IsEcho prior a ↔ wireWord a.data = prior :=
      ⟨fun h => h.2.2, fun h => ⟨htype, hprior, h⟩⟩
    rw [if_neg hprior, hload, Option.map_some, decide_not]
    simp only [hecho]

theorem conflictAnswers_eq (host : Label) (prior : W) {as : List DnsRecord} {rest : List Byte}
    (haddress : ∀ a ∈ as, a.type = 1 → a.data.length = 4)
    (h : Stands mem (x19 + w21) (as.flatMap DnsRecord.encode ++ rest))
    (hend : w21 + (as.flatMap DnsRecord.encode ++ rest).length = w20) :
    conflictAnswers mem host.bytes prior x19 w20 as.length w21
      = some (firstVerdict host prior as) := by
  induction as generalizing w21 with
  | nil => rfl
  | cons a as ih =>
      rw [List.flatMap_cons, List.append_assoc] at h hend
      have hnext : Stands mem (x19 + (w21 + a.encode.length))
          (as.flatMap DnsRecord.encode ++ rest) := by
        rw [← Nat.add_assoc]
        exact h.right
      have hskip := conflictSkip_eq h hend
      have hsum := hend
      rw [List.length_append] at hsum
      have hgo := ih (fun b hb => haddress b (List.mem_cons_of_mem _ hb)) hnext (by omega)
      have hbytes := DnsRecord.encode_append a (as.flatMap DnsRecord.encode ++ rest)
      -- an answer under another name
      have hother : ¬ IsOurName host a.name →
          firstVerdict host prior (a :: as) = firstVerdict host prior as := by
        intro hnot
        rw [firstVerdict, List.find?_cons_of_neg (by simpa using hnot)]
        rfl
      have hours : IsOurName host a.name →
          firstVerdict host prior (a :: as) = !decide (IsEcho prior a) := by
        intro hour
        rw [firstVerdict, List.find?_cons_of_pos (by simpa using hour)]
      have hpos : 0 < (a.encode ++ (as.flatMap DnsRecord.encode ++ rest)).length := by
        rw [hbytes, List.length_append, DnsName.encode, List.length_append]
        have hending := a.name.ending_pos
        omega
      rw [List.length_cons, conflictAnswers, if_neg (by omega), hskip, Option.bind_some]
      dsimp only
      rw [hgo]
      cases hname : a.name with
      | mk ls pointer =>
          cases pointer with
          | some p =>
              obtain ⟨hi, lo, htop, hsplit⟩ := DnsName.encode_pointer ls p _
              rw [hbytes, hname, hsplit] at h hend
              have hnot : ¬ IsOurName host a.name := by
                rw [hname]
                intro hour
                cases hour.1
              obtain ⟨b, hb⟩ : ∃ b, mem (x19 + w21) = some b := by
                cases ls with
                | nil => exact ⟨hi, h.head⟩
                | cons l ls => exact ⟨_, h.head⟩
              rw [hother hnot, hb, Option.bind_some,
                labelLoop_top htop h hend (Nat.le_of_add_left_le (Nat.le_of_eq hend))]
              exact ite_self _
          | none =>
              have hanswer := h
              have hsize := hend
              rw [hbytes, hname, DnsName.encode_root] at h hend
              obtain ⟨b, hb, hb64⟩ : ∃ b, mem (x19 + w21) = some b ∧ b &&& 0xC0 = 0 := by
                cases ls with
                | nil => exact ⟨0, h.head, by decide⟩
                | cons l ls => exact ⟨_, h.head, l.length_top⟩
              rw [hb, Option.bind_some, if_neg (fun hne => hne hb64),
                labelLoop_root h hend (Nat.le_of_add_left_le (Nat.le_of_eq hend)),
                Option.bind_some]
              dsimp only
              rw [qnameEqHostnameLocal_eq h.left, Option.bind_some]
              by_cases hour : IsOurName host a.name
              · have hfold := isOurName_iff.mp (hname ▸ hour)
                rw [decide_eq_true hfold, if_pos rfl, hours hour]
                exact conflictYes_eq prior hname (haddress a (List.mem_cons_self ..)) hanswer hsize
              · have hfold := fun hf => hour (hname ▸ isOurName_iff.mpr hf)
                rw [decide_eq_false hfold, if_neg Bool.false_ne_true, hother hour]

end

/-! ## The packet -/

theorem count_bytes {n : Nat} (hn : n < 2 ^ 16) :
    (UInt8.ofNat (BitVec.ofNat 16 n).toNat).toNat +
      (UInt8.ofNat ((BitVec.ofNat 16 n).toNat / 256)).toNat * 256 = n := by
  rw [high_toNat, low_toNat, BitVec.toNat_ofNat, Nat.mod_eq_of_lt hn]
  omega

theorem mdnsCheckConflict_eq (host : Label) (prior : W) (x0 : Nat) (p : ResponsePacket)
    (hlen : p.bytes.length < 2 ^ 31) :
    mdnsCheckConflict (region x0 p.bytes) host.bytes prior x0 p.bytes.length
      = some (firstVerdict host prior p.answers) := by
  have h := stands_region x0 p.bytes
  have hin : ∀ {k}, k < 12 → k < p.bytes.length := by
    intro k hk
    rw [ResponsePacket.bytes, List.length_append, dnsHeader_length]
    omega
  have hflag : region x0 p.bytes (x0 + 2) = some (UInt8.ofNat (p.flags.toNat / 256)) :=
    h 2 (hin (by decide))
  have hqd1 : region x0 p.bytes (x0 + 4) =
      some (UInt8.ofNat ((BitVec.ofNat 16 p.questions.length).toNat / 256)) := h 4 (hin (by decide))
  have hqd2 : region x0 p.bytes (x0 + 5) =
      some (UInt8.ofNat (BitVec.ofNat 16 p.questions.length).toNat) := h 5 (hin (by decide))
  have han1 : region x0 p.bytes (x0 + 6) =
      some (UInt8.ofNat ((BitVec.ofNat 16 p.answers.length).toNat / 256)) := h 6 (hin (by decide))
  have han2 : region x0 p.bytes (x0 + 7) =
      some (UInt8.ofNat (BitVec.ofNat 16 p.answers.length).toNat) := h 7 (hin (by decide))
  have hresponse : ¬ UInt8.ofNat (p.flags.toNat / 256) &&& 0x80 = 0 := by
    rw [response_flag, p.response]
    exact Bool.noConfusion
  have hlong : 12 ≤ p.bytes.length := by
    rw [ResponsePacket.bytes, List.length_append, dnsHeader_length]
    exact Nat.le_add_right ..
  rw [mdnsCheckConflict, signedLength hlen, if_neg (by omega), hflag, Option.bind_some,
    if_neg hresponse, han1, Option.bind_some, han2, Option.bind_some, count_bytes p.answers_lt]
  dsimp only
  by_cases hnone : p.answers.length = 0
  · rw [if_pos hnone, List.eq_nil_of_length_eq_zero hnone]
    rfl
  have hbody := (stands_dnsHeader h).2
  have hend : 12 + (p.questions.flatMap DnsQuestion.encode ++
      (p.answers.flatMap DnsRecord.encode ++ p.rest)).length = p.bytes.length := by
    rw [ResponsePacket.bytes, @List.length_append _ (dnsHeader ..), dnsHeader_length]
  have hquestions := conflictQuestions_eq hbody hend
  have hanswers := hbody.right
  rw [Nat.add_assoc] at hanswers
  rw [List.length_append, ← Nat.add_assoc] at hend
  rw [if_neg hnone, hqd1, Option.bind_some, hqd2, Option.bind_some, count_bytes p.questions_lt,
    hquestions, Option.bind_some]
  exact conflictAnswers_eq host prior p.address hanswers hend

/-- **When the search finds the conflicts**: on a response that is well formed it ends, reads
nothing but the payload, and returns 1 exactly if some answer is a conflict; unless the first answer
under our name is an echo in front of a conflict. -/
theorem mdns_check_conflict_iff (host : Label) (prior : W) (x0 : Nat) (p : ResponsePacket)
    (hlen : p.bytes.length < 2 ^ 31) :
    ∃ found, mdnsCheckConflict (region x0 p.bytes) host.bytes prior x0 p.bytes.length = some found ∧
      ((found = true ↔ ∃ a ∈ p.answers, IsConflict host prior a) ↔
        ¬ EchoHides host prior p.answers) :=
  ⟨_, mdnsCheckConflict_eq host prior x0 p hlen, firstVerdict_iff host prior p.answers⟩

/-- An address record for the host of the examples. -/
def demoClaim (d : Byte) : DnsRecord :=
  ⟨.plain [demoHost, localLabel], 1, 0x8001, 120, [192, 168, 1, d], (by decide : 4 < 2 ^ 16)⟩

/-- A response with two answers: one peer has `192.168.1.50`, another `192.168.1.77`. -/
def demoClaims : ResponsePacket where
  id := 0
  flags := 0x8400
  response := by decide
  questions := []
  answers := [demoClaim 50, demoClaim 77]
  ns := 0
  ar := 0
  rest := []
  questions_lt := by decide
  answers_lt := by decide
  address := by decide

/-- The first peer is found, where it is the second that has the address of before. -/
theorem mdns_check_conflict_demo :
    mdnsCheckConflict (region 0x1000 demoClaims.bytes) demoHost.bytes (wireWord [192, 168, 1, 77])
      0x1000 demoClaims.bytes.length = some true := by
  obtain ⟨found, hcall, hiff⟩ :=
    mdns_check_conflict_iff demoHost (wireWord [192, 168, 1, 77]) 0x1000 demoClaims (by decide)
  have hfree : ¬ EchoHides demoHost (wireWord [192, 168, 1, 77]) demoClaims.answers := by
    rintro ⟨before, a, after, hsplit, hbefore, -, hecho, -⟩
    cases before with
    | nil =>
        obtain rfl := (List.cons.inj hsplit).1
        exact absurd hecho (by decide)
    | cons b before =>
        obtain rfl := (List.cons.inj hsplit).1
        exact absurd (hbefore _ (List.mem_cons_self ..)) (by decide)
  have hfound := (hiff.mpr hfree).mpr ⟨demoClaim 50, by decide, by decide, by decide⟩
  rw [hcall, hfound]

/-- **The second peer is not found**: `192.168.1.50` is the address that we announced before. -/
theorem mdns_echo_hides_conflict :
    mdnsCheckConflict (region 0x1000 demoClaims.bytes) demoHost.bytes (wireWord [192, 168, 1, 50])
      0x1000 demoClaims.bytes.length = some false ∧
    ∃ a ∈ demoClaims.answers, IsConflict demoHost (wireWord [192, 168, 1, 50]) a := by
  refine ⟨?_, demoClaim 77, by decide, by decide, by decide⟩
  rw [mdnsCheckConflict_eq demoHost _ 0x1000 demoClaims (by decide)]
  decide

end WsPi5

/-
# `WsPi5.Http.DateHeader` — the Date field of a response that is sent in pieces

`h_send` takes the header from the template itself, as much as may be sent, and
`http_update_date` writes the template again on every pass.  A response whose RESP_PTR stands in
the Date field between two passes is continued with what the second pass has written
(`date_header_torn`: the epoch of the image, and then the first date from the time server).

**The condition** (`sparesBegun`).  In a Date field that a response being sent has begun,
`http_update_date` does not change what is still to be sent, or writes a date that begins with what
was sent.

**Proved here** (`date_header_intact`).  In every run whose steps meet the condition, the bytes of
a Date field that went to `tcp_send` for one response are the first bytes of one formatted date, all
29 of them once the field is behind.

**The invariant** (`Sent`).  The record has the last response of the way, at the place up to which
it was handed over (`Current`); while it is SENDING, every Date field of its header is read in
pieces of one date, by the rules of `Lib.ReadInPieces`.
-/
import WsPi5.Lib.ReadInPieces
import WsPi5.Http.ConnHeader
import WsPi5.Http.Date

namespace WsPi5

open Lib

/-! ## What is claimed -/

def Dated (d : List Byte) : Prop := ∃ t, httpFormatDate t = some d

/-- The responses of way `i`, each with what was handed over of it, latest first. -/
def responses (i : Slot) : List HObs → List (Resp × List Byte)
  | [] => []
  | .answered j _ _ r :: log => if j = i then (r, []) :: responses i log else responses i log
  | .handed j _ _ bytes :: log =>
      if j = i then
        match responses i log with
        | [] => []
        | (r, sent) :: rest => (r, sent ++ bytes) :: rest
      else responses i log
  | _ :: log => responses i log

/-- A Date field at `a` in the header that starts at `hdr`. -/
def fieldIn (hdr hdrLen a : Nat) : Prop := hdr ≤ a ∧ a + httpDateLen ≤ hdr + hdrLen

/-- What was sent of the Date field at `off` of the response. -/
def sentDate (off : Nat) (sent : List Byte) : List Byte := part off httpDateLen sent

/-- What was sent of each Date field is of one date. -/
def DateIntact (env : HttpEnv) (r : Resp) (sent : List Byte) : Prop :=
  ∀ a ∈ env.dateFields, fieldIn r.hdrSrc r.hdrLen a →
    ∃ d, Dated d ∧ sentDate (a - r.hdrSrc) sent = d.take (sent.length - (a - r.hdrSrc))

/-- RESP_PTR stands in the Date field at `a`. -/
def Resp.begun (r : Resp) (a : Nat) : Prop :=
  fieldIn r.hdrSrc r.hdrLen a ∧ a < r.hdrSrc + r.respPtr ∧ r.hdrSrc + r.respPtr < a + httpDateLen

/-- Date `d` in the field at `a`, of which the response of way `i` was sent in part: it leaves the
rest as it is, or begins with what was sent. -/
def Server.spares (s : Server) (i : Slot) (a : Nat) (d : List Byte) : Prop :=
  let ptr := (s.http i).resp.hdrSrc + (s.http i).resp.respPtr
  d.drop (ptr - a) = slice s.mem ptr (a + httpDateLen - ptr) ∨
    ∀ x ∈ (responses i s.log).head?, sentDate (a - x.1.hdrSrc) x.2 = d.take (ptr - a)

/-- `http_update_date` spares every field that was begun. -/
def sparesBegun (env : HttpEnv) (s : Server) : Input → Prop
  | .date (some t) => ∀ d ∈ httpFormatDate t.val, ∀ i, (s.http i).req.state = .sending →
      ∀ a ∈ env.dateFields, (s.http i).resp.begun a → s.spares i a d
  | _ => True

/-! ## Dates -/

theorem loadCells_length {mem : Nat → Option Byte} : ∀ {n p : Nat} {xs : List Byte},
    loadCells mem n p = some xs → xs.length = n := by
  intro n
  induction n with
  | zero =>
      intro p xs h
      cases h
      rfl
  | succ n ih =>
      intro p xs h
      obtain ⟨b, -, hrest⟩ := Option.bind_eq_some_iff.mp h
      obtain ⟨ys, hys, rfl⟩ := Option.map_eq_some_iff.mp hrest
      rw [List.length_cons, ih hys]

theorem nameEntry_length {table : List Byte} {k : Nat} {name : List Byte}
    (h : nameEntry table k = some name) : name.length = 3 := loadCells_length h

theorem Dated.length {d : List Byte} (h : Dated d) : d.length = httpDateLen := by
  obtain ⟨t, ht⟩ := h
  unfold httpFormatDate at ht
  dsimp only at ht
  obtain ⟨dow, hdow, ht⟩ := Option.bind_eq_some_iff.mp ht
  obtain ⟨y, -, ht⟩ := Option.bind_eq_some_iff.mp ht
  obtain ⟨m, -, ht⟩ := Option.bind_eq_some_iff.mp ht
  obtain ⟨month, hmonth, rfl⟩ := Option.map_eq_some_iff.mp ht
  simp [nameEntry_length hdow, nameEntry_length hmonth, httpWrite2digits, httpWrite4digits, ascii,
    httpDateLen]

theorem Dated.day {d : List Byte} (h : Dated d) : ∃ k < 7, d.take 3 = nameOf dayNames k := by
  obtain ⟨t, ht⟩ := h
  unfold httpFormatDate at ht
  dsimp only at ht
  obtain ⟨dow, hdow, ht⟩ := Option.bind_eq_some_iff.mp ht
  obtain ⟨y, -, ht⟩ := Option.bind_eq_some_iff.mp ht
  obtain ⟨m, -, ht⟩ := Option.bind_eq_some_iff.mp ht
  obtain ⟨month, -, rfl⟩ := Option.map_eq_some_iff.mp ht
  have hlen := nameEntry_length hdow
  generalize (t / 86400 % 2 ^ 32 + 4) % 2 ^ 32 = w at hdow
  have hday : w - w / 7 * 7 < 7 := by omega
  rw [dowEntry hday, Option.some.injEq] at hdow
  refine ⟨w - w / 7 * 7, hday, ?_⟩
  rw [hdow]
  simp only [List.append_assoc]
  rw [List.take_left' hlen]

/-! ## What the log says of the responses -/

def HObs.silent : HObs → Prop
  | .answered _ _ _ _ | .handed _ _ _ _ => False
  | _ => True

theorem responses_append {i : Slot} {log : List HObs} : ∀ {os : List HObs},
    (∀ o ∈ os, o.slot ≠ i ∨ o.silent) → responses i (os ++ log) = responses i log := by
  intro os
  induction os with
  | nil => exact fun _ => rfl
  | cons o os ih =>
      intro h
      have hrest := ih fun o' ho' => h o' (List.mem_cons_of_mem o ho')
      have ho := h o List.mem_cons_self
      rw [List.cons_append]
      cases o with
      | established j => exact hrest
      | visited j seen => exact hrest
      | ended j how => exact hrest
      | answered j ep req r =>
          have hne : j ≠ i := ho.resolve_right id
          rw [responses, if_neg hne, hrest]
      | handed j ep ptr bytes =>
          have hne : j ≠ i := ho.resolve_right id
          rw [responses, if_neg hne, hrest]

/-! ## A step and the last response -/

/-- What a step does to the responses of way `i` and to the record of the last one. -/
inductive RespAct (env : HttpEnv) (i : Slot) (s s' : Server) : Prop where
  | same (hlog : responses i s'.log = responses i s.log)
      (hresp : (s'.http i).resp = (s.http i).resp)
      (hsend : (s'.http i).req.state = .sending → (s.http i).req.state = .sending)
  | answer {start now : Tick} {r : Req} {page : Page} {resp : Resp}
      (hpoll : pollSlot env (s.visit i start now) (s.http i).req = .answer r page)
      (hsrc : resp.hdrSrc = page.blob.hdr ∧ resp.hdrLen = page.blob.hdrLen ∧ resp.respPtr = 0)
      (hok : resp.Ok)
      (hlog : responses i s'.log = (resp, []) :: responses i s.log)
      (hresp : (s'.http i).resp = resp)
  | piece {ready : Nat} (hsend : (s.http i).req.state = .sending)
      (hrem : (s.http i).resp.remaining ≠ 0)
      (hlog : ∀ r sent rest, responses i s.log = (r, sent) :: rest → responses i s'.log
        = (r, sent ++ slice s.mem ((s.http i).resp.piece ready).1 ((s.http i).resp.piece ready).2)
          :: rest)
      (hresp : (s'.http i).resp = (s.http i).resp.advance ((s.http i).resp.piece ready).2)

section
variable {env : HttpEnv} {i j : Slot} {s s' : Server}

theorem RespAct.beside (h : Beside i s s') : RespAct env i s s' := by
  obtain ⟨os, hos, hne⟩ := h.log
  refine .same ?_ (by rw [h.http]) (by rw [h.http]; exact id)
  rw [hos]
  exact responses_append fun o ho => .inl (hne o ho)

theorem RespAct.around {q : Fsa} (h : RespAct env i { s with fsa := q } s') (f : Fsa) (p : Phase) :
    RespAct env i s { s' with fsa := f, phase := p } := by
  cases h with
  | same hlog hresp hsend => exact .same hlog hresp hsend
  | answer hpoll hsrc hok hlog hresp => exact .answer hpoll hsrc hok hlog hresp
  | piece hsend hrem hlog hresp => exact .piece hsend hrem hlog hresp

theorem WayInv.send_sending {e : OEvt} {q : Fsa} {o : OState} (h : WayInv i s) (hq : s.fsa.Ok)
    (hph : s.phase = .drain) (hnext : s.fsa.next = some (i, e, q))
    (htab : httpFsaTransTable (s.fsa.ostate i) e = some (o, .send)) :
    (s.http i).req.state = .sending := by
  have hlow : e.hi = false ∧ s.fsa.ostate i ≠ .idle := by
    cases hst : s.fsa.ostate i <;> rw [hst] at htab <;> cases e <;> cases htab <;> simp [OEvt.hi]
  have hnil : s.fsa.hi = [] := by
    obtain ⟨_, ⟨hhi, _⟩ | ⟨hhi, _⟩⟩ := Fsa.next_some hnext
    · have hup := hq.upper (i, e) (by rw [hhi]; exact List.mem_cons_self)
      rw [hlow.1] at hup
      cases hup
    · exact hhi
  rcases h.busy hlow.2 with hsend | ⟨hstage, _⟩ | ⟨_, hclosed⟩
  · exact hsend
  · rw [hph] at hstage
    cases hstage
  · rw [hnil] at hclosed
    cases hclosed

/-- **What `h_send` does** to the record: nothing, or an accepted piece. -/
theorem RespAct.hSend (env : HttpEnv) (now : Tick) (hsend : (s.http i).req.state = .sending) :
    RespAct env i s (hSend env now i s) := by
  have hpost : ∀ e, RespAct env i s (s.post i e) := fun e => .same rfl rfl id
  unfold WsPi5.hSend
  dsimp only
  split
  next =>
    split
    next => exact hpost _
    next hrem =>
      split
      next => exact .same rfl rfl id
      next =>
        split
        next => exact .same rfl rfl id
        next l f hacc =>
          refine @RespAct.piece _ _ _ _ (tcpSendReady (s.tcp.conn i)).toNat hsend hrem ?_ ?_
          · intro r sent rest hlog
            unfold hSent
            simp only [Server.post_log, Server.observe_log, Server.setHttp_log, responses, if_true,
              hlog]
          · unfold hSent
            simp only [Server.post_http, Server.observe_http, Server.setHttp_self]
  next => exact hpost _

theorem RespAct.call (env : HttpEnv) (now : Tick) (hd : OHandler)
    (hsend : hd = .send → (s.http i).req.state = .sending) :
    RespAct env i s (hd.call env now i s) := by
  cases hd with
  | install => exact .same rfl rfl id
  | send => exact .hSend env now (hsend rfl)
  | noop => exact .same rfl rfl id
  | decide => exact .same rfl rfl id
  | reset =>
      refine .same rfl ?_ fun hs => ?_
      · simp [OHandler.call, hReset]
      · exact absurd hs (OHandler.call_letsGo env now i s (.inl rfl))
  | close =>
      refine .same rfl ?_ fun hs => ?_
      · simp [OHandler.call, hClose, Server.tcpClose]
      · exact absurd hs (OHandler.call_letsGo env now i s (.inr (.inl rfl)))
  | keepalive =>
      refine .same rfl ?_ fun hs => ?_
      · simp [OHandler.call, hKeepalive]
      · exact absurd hs (OHandler.call_letsGo env now i s (.inr (.inr rfl)))

theorem RespAct.visit (env : HttpEnv) (i : Slot) (s : Server) (start now : Tick)
    (out : HandlerOut) : RespAct env i s (visitSlot env i s start now out) := by
  obtain ⟨-, hnh, -, -⟩ := noteVisit_fields s i start now
  have hnote : responses i (s.noteVisit i start now).log = responses i s.log := by
    unfold Server.noteVisit
    split
    · rfl
    · rfl
  -- a record that is kept does not become SENDING
  have hkept : ∀ r, pollSlot env (s.visit i start now) (s.http i).req = .stay r ∨
      pollSlot env (s.visit i start now) (s.http i).req = .close r → r.state = .sending →
      (s.http i).req.state = .sending := by
    intro r hpoll hr
    by_contra hns
    have hv := @pollSlot_notSending env (s.visit i start now) _ hns
    rcases hpoll with hpoll | hpoll <;> rw [hpoll] at hv <;> exact hv hr
  unfold visitSlot
  dsimp only
  cases hpoll : pollSlot env (s.visit i start now) (s.http i).req with
  | stay r =>
      refine .same hnote (by simp [hnh]) fun hs => hkept r (.inl hpoll) ?_
      simpa using hs
  | close r =>
      refine .same hnote (by simp [hnh, Server.tcpClose]) fun hs => hkept r (.inr hpoll) ?_
      simpa using hs
  | answer r page =>
      refine @RespAct.answer _ _ _ _ start now r page
        (setupPage env i (s.noteVisit i start now) out r.flags page).2 hpoll ?_
        (setupPage_ok env i _ out r.flags page) ?_ ?_
      · cases page <;> exact ⟨rfl, rfl, rfl⟩
      · simp only [answerSlot, Server.post_log, Server.observe_log, Server.setHttp_log, responses,
          if_true, hnote]
      · simp [answerSlot]

theorem resp_step {inp : Input} (h : WaysOk s) (hst : serverStep env s inp = some s') :
    RespAct env i s s' := by
  cases serverStep_act hst with
  | @net _ e t _ _ _ _ _ _ _ =>
      refine .same ?_ rfl id
      have hnet : ∀ o ∈ (newlyEstablished s.tcp t).map HObs.established, o.slot ≠ i ∨ o.silent := by
        intro o ho
        obtain ⟨j, -, rfl⟩ := List.mem_map.mp ho
        exact .inr trivial
      exact responses_append hnet
  | idle _ => exact .same rfl rfl id
  | date _ => exact .same rfl rfl id
  | @visit j start now out _ =>
      by_cases hij : i = j
      · subst hij
        exact (RespAct.visit env i s start now out).around _ _
      · exact .beside (.of_common (.visitSlot hij env s start now out) _ _)
  | @event j _ =>
      by_cases hij : i = j
      · obtain heq | ⟨_, e, _, heq⟩ | ⟨_, _, heq⟩ := pollEvent_cases j s <;> rw [heq] <;>
          exact .same rfl rfl id
      · exact .beside (.of_common (.pollEvent hij s) _ _)
  | @fsa now _ hph hstep =>
      obtain ⟨j, e, q, hnext, hcase⟩ := httpFsaStep_cases hstep
      by_cases hij : i = j
      · subst hij
        obtain ⟨_, rfl⟩ | ⟨o, hd, htab, rfl⟩ := hcase
        · exact .same rfl rfl id
        · refine (RespAct.call (s := { s with fsa := q }) env now hd ?_).around _ _
          rintro rfl
          exact (h.ways i).send_sending h.queues.ok hph hnext htab
      · exact .beside (.fsaStep hij hstep hnext)
  | drained _ _ => exact .same rfl rfl id

end

/-! ## The templates -/

def DatesIn (env : HttpEnv) (routeHdr : Route → List HdrLine) (mem : Nat → Byte) : Prop :=
  ∀ p ∈ env.headers routeHdr, ∀ a ∈ env.dateFields, fieldIn p.1.hdr p.1.hdrLen a →
    Dated (slice mem a httpDateLen)

section
variable {env : HttpEnv} {routeHdr : Route → List HdrLine} {p : Blob × List HdrLine} {a : Nat}

theorem fieldIn.slice_eq {hdr hdrLen : Nat} {mem mem' : Nat → Byte} (hin : fieldIn hdr hdrLen a)
    (h : slice mem' hdr hdrLen = slice mem hdr hdrLen) {k : Nat} (hk : k ≤ httpDateLen) :
    slice mem' (a + k) (httpDateLen - k) = slice mem (a + k) (httpDateLen - k) := by
  have hle : (a - hdr + k) + (httpDateLen - k) ≤ hdrLen := by
    have hlo := hin.1
    have hhi := hin.2
    omega
  have hfield := slice_part h hle
  have haddr : hdr + (a - hdr + k) = a + k := by
    have hlo := hin.1
    omega
  rwa [haddr] at hfield

theorem HttpLayout.one_field (hl : HttpLayout env routeHdr) (hp : p ∈ env.headers routeHdr)
    (ha : a ∈ env.dateFields) (hin : fieldIn p.1.hdr p.1.hdrLen a) {b : Nat}
    (hb : b ∈ env.dateFields) : b = a ∨ b + httpDateLen ≤ a ∨ a + httpDateLen ≤ b := by
  obtain ⟨hlo, hhi⟩ := hin
  have hpos : 0 < httpDateLen := by decide
  rcases hl.dates b hb p hp with hout | ⟨before, after, ht, hbefore, hafter, rfl⟩
  · omega
  rcases hl.dates a ha p hp with hout | ⟨before', after', ht', hbefore', hafter', rfl⟩
  · omega
  rw [ht', List.append_cons_inj_of_notMem hbefore' hafter'] at ht
  rw [ht.1]
  exact .inl rfl

theorem HttpLayout.updateDate_field (hl : HttpLayout env routeHdr) (hp : p ∈ env.headers routeHdr)
    (ha : a ∈ env.dateFields) (hin : fieldIn p.1.hdr p.1.hdrLen a) {d : List Byte}
    (hd : d.length = httpDateLen) (mem : Nat → Byte) :
    slice (putDates env mem d) a httpDateLen = d := by
  have hall : ∀ fields : List Nat, (∀ b ∈ fields, b ∈ env.dateFields) → ∀ m : Nat → Byte,
      a ∈ fields ∨ slice m a httpDateLen = d →
      slice (fields.foldl (fun m b => memWrite m b d) m) a httpDateLen = d := by
    intro fields
    induction fields with
    | nil => exact fun _ m hm => hm.resolve_left List.not_mem_nil
    | cons b fields ih =>
        intro hmem m hm
        refine ih (fun c hc => hmem c (List.mem_cons_of_mem b hc)) _ ?_
        rcases hl.one_field hp ha hin (hmem b List.mem_cons_self) with rfl | hapart
        · right
          rw [← hd]
          exact slice_memWrite_self m b d
        · refine hm.imp (fun hmem' => ?_) fun hm' => ?_
          · rcases List.mem_cons.mp hmem' with rfl | hrest
            · have hpos : 0 < httpDateLen := by decide
              omega
            · exact hrest
          · rw [slice_memWrite_outside (by rw [hd]; omega)]
            exact hm'
  exact hall env.dateFields (fun _ hb => hb) mem (.inl ha)

theorem DatesIn.step {s s' : Server} {inp : Input} (h : DatesIn env routeHdr s.mem)
    (hl : HttpLayout env routeHdr) (hst : serverStep env s inp = some s') :
    DatesIn env routeHdr s'.mem := by
  intro p hp a ha hin
  by_cases hinp : ∃ t, inp = .date (some t)
  · obtain ⟨t, rfl⟩ := hinp
    cases serverStep_act hst with
    | net _ _ _ _ _ _ => exact h p hp a ha hin
    | date _ =>
        obtain ⟨d, hd, hs⟩ := httpFormatDate_stamp t
        show Dated (slice (httpUpdateDate env s.mem (some t)) a httpDateLen)
        rw [httpUpdateDate_some hd, hl.updateDate_field hp ha hin hs.length]
        exact ⟨t, hd⟩
  · have hsame := headers_unwritten hl (fun d hd => hinp ⟨d, hd⟩) hst hp
    have hfield := hin.slice_eq hsame (Nat.zero_le httpDateLen)
    rw [Nat.add_zero, Nat.sub_zero] at hfield
    rw [hfield]
    exact h p hp a ha hin

end

/-! ## The invariant -/

/-- The record has response `r`, handed over as far as `sent`. -/
structure Current (env : HttpEnv) (routeHdr : Route → List HdrLine) (i : Slot) (s : Server)
    (r : Resp) (sent : List Byte) : Prop where
  resp : (s.http i).resp = { r with respPtr := sent.length }
  ok : (s.http i).resp.Ok
  header : ∃ p ∈ env.headers routeHdr, r.hdrSrc = p.1.hdr ∧ r.hdrLen = p.1.hdrLen
  fields : (s.http i).req.state = .sending → ∀ a ∈ env.dateFields, fieldIn r.hdrSrc r.hdrLen a →
    ReadInPieces Dated s.mem a httpDateLen (sentDate (a - r.hdrSrc) sent)

structure DateSent (env : HttpEnv) (routeHdr : Route → List HdrLine) (i : Slot) (s : Server) :
    Prop where
  intact : ∀ p ∈ responses i s.log, DateIntact env p.1 p.2
  empty : responses i s.log = [] → (s.http i).resp = {}
  current : ∀ r sent rest, responses i s.log = (r, sent) :: rest →
    Current env routeHdr i s r sent

section
variable {env : HttpEnv} {routeHdr : Route → List HdrLine} {i : Slot} {s s' : Server}

theorem intact_of_pieces {mem : Nat → Byte} {a off : Nat} {sent : List Byte}
    (h : ReadInPieces Dated mem a httpDateLen (sentDate off sent)) :
    ∃ d, Dated d ∧ sentDate off sent = d.take (sent.length - off) := by
  obtain ⟨d, hd, hpre⟩ := h.one_text
  refine ⟨d, hd, ?_⟩
  have htake := List.prefix_iff_eq_take.mp hpre
  have hlen : (sentDate off sent).length = min httpDateLen (sent.length - off) :=
    part_length off httpDateLen sent
  rw [hlen, ← hd.length, Nat.min_comm, ← List.take_take, List.take_length] at htake
  exact htake

theorem DateSent.keep (h : DateSent env routeHdr i s)
    (hlog : responses i s'.log = responses i s.log)
    (hresp : (s'.http i).resp = (s.http i).resp)
    (hfields : ∀ r sent, (responses i s.log).head? = some (r, sent) →
      Current env routeHdr i s r sent → (s'.http i).req.state = .sending →
      ∀ a ∈ env.dateFields, fieldIn r.hdrSrc r.hdrLen a →
        ReadInPieces Dated s'.mem a httpDateLen (sentDate (a - r.hdrSrc) sent)) :
    DateSent env routeHdr i s' := by
  refine ⟨?_, ?_, fun r sent rest hcons => ?_⟩
  · rw [hlog]
    exact h.intact
  · rw [hlog, hresp]
    exact h.empty
  · rw [hlog] at hcons
    have hc := h.current r sent rest hcons
    exact ⟨by rw [hresp]; exact hc.resp, by rw [hresp]; exact hc.ok, hc.header,
      hfields r sent (by rw [hcons]; rfl) hc⟩

/-- **A new date** goes with what was sent. -/
theorem DateSent.date (h : DateSent env routeHdr i s) (hl : HttpLayout env routeHdr) {t : UnixTime}
    (hok : sparesBegun env s (.date (some t))) (p : Phase) :
    DateSent env routeHdr i { s with mem := httpUpdateDate env s.mem (some t), phase := p } := by
  obtain ⟨d, htext, hs⟩ := httpFormatDate_stamp t
  have hd : Dated d := ⟨t, htext⟩
  have hspare := hok d htext
  rw [httpUpdateDate_some htext]
  refine h.keep rfl rfl fun r sent hlast hc hsend a ha hin => ?_
  obtain ⟨q, hq, hsrc, hlen⟩ := hc.header
  have hnew : slice (putDates env s.mem d) a httpDateLen = d :=
    hl.updateDate_field hq ha (by rw [← hsrc, ← hlen]; exact hin) hs.length s.mem
  have hsent : (sentDate (a - r.hdrSrc) sent).length
      = min httpDateLen (sent.length - (a - r.hdrSrc)) := part_length _ _ _
  by_cases hnone : sent.length ≤ a - r.hdrSrc
  · -- the field was not begun
    have hnil : sentDate (a - r.hdrSrc) sent = [] := part_nil_of_le httpDateLen hnone
    rw [hnil]
    exact .start (by rw [hnew]; exact hd)
  by_cases hall : httpDateLen ≤ sent.length - (a - r.hdrSrc)
  · refine (hc.fields hsend a ha hin).write ?_
    rw [hsent, Nat.min_eq_left hall, Nat.sub_self, slice_zero, slice_zero]
  · obtain ⟨hlo, hhi⟩ := hin
    have hbegun : (s.http i).resp.begun a := by
      rw [hc.resp]
      exact ⟨⟨hlo, hhi⟩, by dsimp only; omega, by dsimp only; omega⟩
    have hrest := hspare i hsend a ha hbegun
    unfold Server.spares at hrest
    rw [hc.resp] at hrest
    dsimp only at hrest
    have hk : r.hdrSrc + sent.length - a = sent.length - (a - r.hdrSrc) := by omega
    have haddr : r.hdrSrc + sent.length = a + (sent.length - (a - r.hdrSrc)) := by omega
    have hleft : a + httpDateLen - (r.hdrSrc + sent.length)
        = httpDateLen - (sent.length - (a - r.hdrSrc)) := by omega
    rw [hk, hleft, haddr] at hrest
    have hlater : slice (putDates env s.mem d) (a + (sent.length - (a - r.hdrSrc)))
        (httpDateLen - (sent.length - (a - r.hdrSrc)))
        = d.drop (sent.length - (a - r.hdrSrc)) := by
      rw [← slice_drop _ _ (by omega), hnew]
    rcases hrest with hsame | hfront
    · -- the rest is as before
      refine (hc.fields hsend a ha ⟨hlo, hhi⟩).write ?_
      rw [hsent, Nat.min_eq_right (by omega), hlater, hsame]
    · -- the new date begins with what was sent
      have hgot := hfront (r, sent) hlast
      refine ⟨by rw [hsent]; exact Nat.min_le_left _ _, ?_⟩
      rw [hsent, Nat.min_eq_right (by omega), hlater, hgot, List.take_append_drop]
      exact hd

/-- **A piece** brings the next bytes of the field. -/
theorem pieces_sent {mem : Nat → Byte} {r : Resp} {sent : List Byte} {a ready : Nat}
    (hlen : sent.length = r.respPtr) (hin : fieldIn r.hdrSrc r.hdrLen a)
    (h : ReadInPieces Dated mem a httpDateLen (sentDate (a - r.hdrSrc) sent)) :
    ReadInPieces Dated mem a httpDateLen (sentDate (a - r.hdrSrc)
      (sent ++ slice mem (r.piece ready).1 (r.piece ready).2)) := by
  obtain ⟨hlo, hhi⟩ := hin
  by_cases hhdr : r.respPtr < r.hdrLen
  · have hptr : (r.piece ready).1 = r.hdrSrc + sent.length := by
      rw [hlen, Resp.piece, if_pos hhdr]
    obtain ⟨m, hfit, hpart⟩ := part_read mem r.hdrSrc (a - r.hdrSrc) httpDateLen
      (r.piece ready).2 sent
    have haddr : r.hdrSrc + (a - r.hdrSrc) = a := by omega
    rw [haddr] at hpart
    rw [hptr, sentDate, hpart]
    exact h.read hfit
  · -- the header is out
    have hdone : httpDateLen - (sent.length - (a - r.hdrSrc)) = 0 := by omega
    rw [sentDate, part_append, hdone, part_zero, List.append_nil]
    exact h

theorem DateSent.other (h : DateSent env routeHdr i s)
    (hact : RespAct env i s s')
    (hmem : ∀ p ∈ env.headers routeHdr,
      slice s'.mem p.1.hdr p.1.hdrLen = slice s.mem p.1.hdr p.1.hdrLen)
    (hdates : DatesIn env routeHdr s'.mem) : DateSent env routeHdr i s' := by
  -- the fields of a header stay
  have hstay : ∀ {r : Resp} {sent : List Byte} {a : Nat},
      (∃ p ∈ env.headers routeHdr, r.hdrSrc = p.1.hdr ∧ r.hdrLen = p.1.hdrLen) →
      fieldIn r.hdrSrc r.hdrLen a →
      ReadInPieces Dated s.mem a httpDateLen (sentDate (a - r.hdrSrc) sent) →
      ReadInPieces Dated s'.mem a httpDateLen (sentDate (a - r.hdrSrc) sent) := by
    rintro r sent a ⟨p, hp, hsrc, hlen⟩ hin hread
    refine hread.write ?_
    rw [hsrc, hlen] at hin
    exact hin.slice_eq (hmem p hp) hread.fits
  cases hact with
  | same hlog hresp hsend =>
      refine h.keep hlog hresp fun r sent _ hc hs a ha hin => ?_
      exact hstay hc.header hin (hc.fields (hsend hs) a ha hin)
  | @answer start now req page resp hpoll hsrc hok hlog hresp =>
      obtain ⟨t, ht, -⟩ : ∃ t, (page.blob, t) ∈ env.headers routeHdr ∧ _ := by
        have hspec := @pollSlot_fits env routeHdr (s.visit i start now) (s.http i).req
        rw [hpoll] at hspec
        exact hspec
      have hread : ∀ a ∈ env.dateFields, fieldIn resp.hdrSrc resp.hdrLen a →
          ReadInPieces Dated s'.mem a httpDateLen (sentDate (a - resp.hdrSrc) []) := by
        intro a ha hin
        rw [hsrc.1, hsrc.2.1] at hin
        rw [sentDate, part_nil_of_le httpDateLen (Nat.zero_le _)]
        exact .start (hdates _ ht a ha hin)
      refine ⟨?_, fun hnil => ?_, fun r sent rest hcons => ?_⟩
      · rw [hlog]
        intro p hp
        rcases List.mem_cons.mp hp with rfl | hp
        · exact fun a ha hin => intact_of_pieces (hread a ha hin)
        · exact h.intact p hp
      · rw [hlog] at hnil
        cases hnil
      · rw [hlog] at hcons
        cases hcons
        refine ⟨?_, by rw [hresp]; exact hok, ⟨_, ht, hsrc.1, hsrc.2.1⟩, fun _ => hread⟩
        rw [hresp]
        show resp = { resp with respPtr := 0 }
        rw [← hsrc.2.2]
  | @piece ready hsend hrem hlog hresp =>
      cases hcons : responses i s.log with
      | nil =>
          rw [h.empty hcons] at hrem
          exact absurd rfl hrem
      | cons x rest =>
          obtain ⟨r, sent⟩ := x
          have hc := h.current r sent rest hcons
          have hnew := hlog r sent rest hcons
          have hle := hc.ok.piece_le ready
          have hword := hc.ok.word
          have hread : ∀ a ∈ env.dateFields, fieldIn r.hdrSrc r.hdrLen a →
              ReadInPieces Dated s'.mem a httpDateLen (sentDate (a - r.hdrSrc) (sent ++
                slice s.mem ((s.http i).resp.piece ready).1 ((s.http i).resp.piece ready).2)) := by
            intro a ha hin
            refine hstay hc.header hin ?_
            rw [hc.resp]
            exact pieces_sent (r := { r with respPtr := sent.length }) rfl hin
              (hc.fields hsend a ha hin)
          refine ⟨?_, fun hnil => ?_, fun r' sent' rest' hcons' => ?_⟩
          · rw [hnew]
            intro p hp
            rcases List.mem_cons.mp hp with rfl | hp
            · exact fun a ha hin => intact_of_pieces (hread a ha hin)
            · exact h.intact p (by rw [hcons]; exact List.mem_cons_of_mem _ hp)
          · rw [hnew] at hnil
            cases hnil
          · rw [hnew] at hcons'
            cases hcons'
            refine ⟨?_, by rw [hresp]; exact hc.ok.advance ready, hc.header, fun _ => hread⟩
            rw [hresp, Resp.advance, Nat.mod_eq_of_lt (by omega), hc.resp, List.length_append,
              slice_length]

theorem DateSent.step {inp : Input} (h : DateSent env routeHdr i s) (hl : HttpLayout env routeHdr)
    (hw : WaysOk s) (hdates : DatesIn env routeHdr s.mem) (hok : sparesBegun env s inp)
    (hst : serverStep env s inp = some s') : DateSent env routeHdr i s' := by
  by_cases hinp : ∃ t, inp = .date (some t)
  · obtain ⟨t, rfl⟩ := hinp
    cases serverStep_act hst with
    | net _ _ _ _ _ _ =>
        refine h.other (resp_step hw hst) (fun _ _ => rfl) hdates
    | date _ => exact h.date hl hok _
  · refine h.other (resp_step hw hst) ?_ (hdates.step hl hst)
    intro p hp
    exact headers_unwritten hl (fun d hd => hinp ⟨d, hd⟩) hst hp

end

/-- **The Date header is of one time.**  In every run from the start in which `http_update_date`
spares each Date field that a response has begun, what went to `tcp_send` of a Date field, for any response on any way, is the beginning of one formatted date:
all of it, once 29 bytes are out. -/
theorem date_header_intact {env : HttpEnv} {routeHdr : Route → List HdrLine} {cap : PoolCap}
    {t₀ : Tick} {mem : Nat → Byte} {s : Server} (hl : HttpLayout env routeHdr)
    (hmem : DatesIn env routeHdr mem)
    (hreach : Run (serverStep env) (sparesBegun env) (serverInit env cap t₀ mem) s) (i : Slot) :
    ∀ p ∈ responses i s.log, DateIntact env p.1 p.2 := by
  have hinv : WaysOk s ∧ DatesIn env routeHdr s.mem ∧ DateSent env routeHdr i s := by
    refine hreach.invariant
      (P := fun s => WaysOk s ∧ DatesIn env routeHdr s.mem ∧ DateSent env routeHdr i s)
      ⟨waysOk_init env cap t₀ mem, hmem, ?_⟩ ?_
    · exact ⟨nofun, fun _ => rfl, nofun⟩
    · rintro t u e ⟨hw, hd, hs⟩ hok hst
      exact ⟨waysOk_step hw hst, hd.step hl hst, hs.step hl hw hd hok hst⟩
  exact hinv.2.2.intact

/-! ## Runs with a date

A pass that is passed over leaves the date alone, so that a date may as well be missing in it. -/

def undated (_ : Server) : Input → Prop
  | .date (some _) => False
  | _ => True

instance decUndated (s : Server) : ∀ inp, Decidable (undated s inp)
  | .date (some _) => isFalse id
  | .date none | .frame _ _ | .icmpErr _ _ _ _ _ | .otherSet _ _ | .otherCancel _ | .idle
  | .timer _ | .slot _ _ _ | .event | .drain _ => isTrue trivial

/-- The condition, or a step that changes nothing but the phase. -/
def orPasses (env : HttpEnv) (ok : Server → Input → Prop) (s : Server) (inp : Input) : Prop :=
  ok s inp ∨ ∃ p, serverStep env s inp = some { s with phase := p }

section
variable {env : HttpEnv} {ok : Server → Input → Prop} {i : Slot} {s s' : Server}

theorem run_orPasses (hok : ∀ {s inp}, undated s inp → ok s inp)
    (h : Run (serverStep env) (orPasses env ok) s s') : Run (serverStep env) ok s s' := by
  refine h.invariant (P := Run (serverStep env) ok s) .refl ?_
  intro t u inp hrun hcond hst
  by_cases hinp : ∃ time, inp = .date (some time)
  · obtain ⟨time, rfl⟩ := hinp
    rcases hcond with hcond | ⟨p, hp⟩
    · exact hrun.tail hcond hst
    · -- the same step without a date
      have hcalm : undated t (.date none) := trivial
      have hnone : serverStep env t (.date none) = some u := by
        rw [hst] at hp
        cases hp
        unfold serverStep at hst ⊢
        split at hst <;> simp_all [httpUpdateDate]
      exact hrun.tail (hok hcalm) hnone
  · refine hrun.tail (hok ?_) hst
    cases inp with
    | date time =>
        cases time with
        | some t => exact absurd ⟨t, rfl⟩ hinp
        | none => trivial
    | _ => trivial

/-- **A pass over a server with one busy way**, in which a date is written. -/
theorem pollAt_dated {start now : Tick} {out : HandlerOut} {drains : List Tick} {time : UnixTime}
    (hok : ∀ {s inp}, undated s inp → ok s inp) (hquiet : QuietBut i now s) (hph : s.phase = .recv)
    (hdate : ok { s with phase := .timers s.tcp.pool.cap } (.date (some time)))
    (h : pollAt env i start now out drains { s with mem := httpUpdateDate env s.mem (some time) }
      = some s') : Run (serverStep env) ok s s' := by
  have hpass : ∀ t, passesOver env (orPasses env ok) i t := fun t p p' inp _ _ hst =>
    .inr ⟨p', hst⟩
  have hway : ∀ j, j ≠ i → Quiet { s with mem := httpUpdateDate env s.mem (some time) } j :=
    fun j hj => ⟨(hquiet.ways j hj).tcp, (hquiet.ways j hj).http, (hquiet.ways j hj).output⟩
  have hi : i.val < tcpMaxConns := i.isLt
  have hslots := pass_slots (hpass { s with mem := httpUpdateDate env s.mem (some time) }) i.val
    (a := 0) (by omega) fun j _ hj =>
      have hne : j ≠ i := fun heq => by rw [heq] at hj; omega
      ⟨hne, hway j hne⟩
  rw [show Phase.slotsFrom (0 + i.val) = .slots i.val by simp [Phase.slotsFrom]] at hslots
  refine run_orPasses hok ?_
  refine (((pass_toDate (hpass s) hquiet hph).tail (.inl hdate) (date_step env s (some time))).trans
    hslots).trans ?_
  exact pollAt_fromVisit hpass hway (.inl (hok trivial)) (fun _ _ => .inl (hok trivial))
    (fun _ _ _ => .inl (hok trivial)) h

theorem pollAt_undated {start now : Tick} {out : HandlerOut} {drains : List Tick}
    (hok : ∀ {s inp}, undated s inp → ok s inp) (hquiet : QuietBut i now s) (hph : s.phase = .recv)
    (h : pollAt env i start now out drains s = some s') : Run (serverStep env) ok s s' := by
  have hpass : ∀ t, passesOver env (orPasses env ok) i t := fun t p p' inp _ _ hst =>
    .inr ⟨p', hst⟩
  refine run_orPasses hok ((pass_toVisit (hpass s) hquiet hph).trans ?_)
  exact pollAt_fromVisit hpass hquiet.ways (.inl (hok trivial)) (fun _ _ => .inl (hok trivial))
    (fun _ _ _ => .inl (hok trivial)) h

end

theorem sparesBegun_undated {env : HttpEnv} {s : Server} {inp : Input} (h : undated s inp) :
    sparesBegun env s inp := by
  cases inp with
  | date time =>
      cases time with
      | some t => cases h
      | none => trivial
  | _ => trivial

/-! The image of the headers again: its 405 header has the Date field at 2055. -/

theorem demoImage_dates : DatesIn demoImage demoRouteHdr demoImageMem := by
  intro p _ a ha _
  obtain rfl := List.mem_singleton.mp ha
  exact ⟨0, by decide +kernel⟩

/-- The first date from the time server, and the day before. -/
def demoFriday : List Byte := ascii "Fri, 06 Feb 2026 00:00:00 GMT"

def demoThursday : List Byte := ascii "Thu, 05 Feb 2026 00:00:00 GMT"

theorem demoFriday_dated : httpFormatDate (1770336000 : UnixTime) = some demoFriday := by
  decide +kernel

theorem demoThursday_dated : httpFormatDate (1770249600 : UnixTime) = some demoThursday := by
  decide +kernel

/-- A segment of a peer with a window of 56 bytes: up to the Date field, and one byte of it. -/
def demoNarrow (f : Frame) : Input := .frame 1 { f with window := 56 }

/-- A PUT of that peer. -/
def demoNarrowPut : List Input :=
  [demoNarrow { demoSyn with sport := 1000 }, demoNarrow (demoFrom 1000 0 []),
    demoNarrow (demoFrom 1000 0 demoPut)]

/-- The peer acknowledges the 56 bytes, and there is room for the rest. -/
def demoRoom : Input :=
  demoWide { demoFrom 1000 demoPut.length [] with
    ack := (demoFrom 1000 demoPut.length []).ack + 56 }

def demoTorn : List Byte := ascii "Tri, 06 Feb 2026 00:00:00 GMT"

/-- A response from the 405 header, with these bytes in its Date field. -/
def demoDateSent (d : List Byte) (s : Server) : Prop :=
  ∃ p ∈ responses 1 s.log, p.1.hdrSrc = 2000 ∧ p.1.hdrLen = 192 ∧ sentDate 55 p.2 = d

instance decDemoDateSent (d : List Byte) (s : Server) : Decidable (demoDateSent d s) :=
  inferInstanceAs (Decidable (∃ p ∈ responses 1 s.log, _ ∧ _ ∧ _))

def demoDatedPass (d : List Byte) (s : Server) : Option Server :=
  pollAt demoImage 1 1 1 {} [1, 1, 1, 1] { s with mem := putDates demoImage s.mem d }

/-- The response has begun its Date field, with the first byte of date `d`. -/
def demoBegun (d : List Byte) (s : Server) : Prop :=
  ∀ i, (s.http i).req.state = .sending → (s.http i).resp.hdrSrc + (s.http i).resp.respPtr = 2056 ∧
    ∀ x ∈ (responses i s.log).head?, sentDate (2055 - x.1.hdrSrc) x.2 = d.take 1

instance decDemoBegun (d : List Byte) (s : Server) : Decidable (demoBegun d s) :=
  inferInstanceAs (Decidable (∀ _, _ → _))

/-- The request is answered with 56 bytes, the peer makes room, and date `d` comes; the client has
`text`. -/
def demoContinued (begun d text : List Byte) (s : Server) : Prop :=
  (QuietBut 1 1 s ∧ s.phase = .recv) ∧ ∃ s₁ ∈ pollAt demoImage 1 1 1 {} [1, 1, 1, 1] s,
    ∃ s₂ ∈ serverStep demoImage s₁ demoRoom, (QuietBut 1 1 s₂ ∧ s₂.phase = .recv) ∧
      demoBegun begun s₂ ∧ (s₂.http 1).req.state = .sending ∧
      ∃ s₃ ∈ demoDatedPass d s₂, demoDateSent text s₃

instance decDemoContinued (begun d text : List Byte) (s : Server) :
    Decidable (demoContinued begun d text s) :=
  inferInstanceAs (Decidable ((_ ∧ _) ∧ _))

/-- **The Date header is torn.**  The header was sent up to the first byte of the date, with the
date of the image, and is continued with the first date of the time server: `Tri, 06 Feb 2026`. -/
theorem date_header_torn : ∃ s : Server, Run (serverStep demoImage) anyEvent demoHome s ∧
    ∃ p ∈ responses 1 s.log, ¬ DateIntact demoImage p.1 p.2 := by
  obtain ⟨s, hrun, ⟨hquiet, hph⟩, s₁, hs₁, s₂, hs₂, ⟨hquiet₂, hph₂⟩, -, -, s₃, hs₃, p, hp, hsrc,
      hlen, hsent⟩ :=
    exists_run (serverStep demoImage) undated demoHome
      (Q := demoContinued demoTorn demoFriday demoTorn) demoNarrowPut (by decide +kernel)
      (by decide +kernel)
  have hany : ∀ {s : Server} {inp : Input}, undated s inp → anyEvent s inp := fun _ => trivial
  have hpass : pollAt demoImage 1 1 1 {} [1, 1, 1, 1]
      { s₂ with mem := httpUpdateDate demoImage s₂.mem (some 1770336000) } = some s₃ := by
    rw [httpUpdateDate_some demoFriday_dated]
    exact hs₃
  have hfirst := pollAt_undated hany hquiet hph hs₁
  have hsecond := pollAt_dated hany hquiet₂ hph₂ trivial hpass
  refine ⟨s₃, ((hrun.mono hany).trans hfirst).trans ((Run.single trivial hs₂).trans hsecond), p, hp,
    fun hintact => ?_⟩
  obtain ⟨d, hd, heq⟩ := hintact 2055 (List.mem_singleton.mpr rfl)
    (by rw [hsrc, hlen]; exact ⟨by decide, by decide⟩)
  have h55 : 2055 - p.1.hdrSrc = 55 := by rw [hsrc]
  rw [h55, hsent] at heq
  have hall : 3 ≤ p.2.length - 55 := by
    have hlength := (congrArg List.length heq).symm
    rw [List.length_take] at hlength
    have h29 : demoTorn.length = 29 := by decide
    omega
  have hday := hd.day
  have hfront : demoTorn.take 3 = d.take 3 := by
    rw [heq, List.take_take, Nat.min_eq_left hall]
  rw [← hfront] at hday
  revert hday
  decide

/-- The same pieces, and a Thursday for the first date: it begins as the image's does. -/
theorem date_header_intact_demo : ∃ s : Server, demoDateSent demoThursday s ∧
    ∀ p ∈ responses 1 s.log, DateIntact demoImage p.1 p.2 := by
  obtain ⟨s, hrun, ⟨hquiet, hph⟩, s₁, hs₁, s₂, hs₂, ⟨hquiet₂, hph₂⟩, hbegun, -, s₃, hs₃, hsent⟩ :=
    exists_run (serverStep demoImage) undated demoHome
      (Q := demoContinued demoThursday demoThursday demoThursday) demoNarrowPut (by decide +kernel)
      (by decide +kernel)
  have hpass : pollAt demoImage 1 1 1 {} [1, 1, 1, 1]
      { s₂ with mem := httpUpdateDate demoImage s₂.mem (some 1770249600) } = some s₃ := by
    rw [httpUpdateDate_some demoThursday_dated]
    exact hs₃
  have hdate : sparesBegun demoImage { s₂ with phase := .timers s₂.tcp.pool.cap }
      (.date (some 1770249600)) := by
    intro d hd i hsend a ha _
    rw [demoThursday_dated, Option.mem_some] at hd
    subst hd
    obtain rfl := List.mem_singleton.mp ha
    obtain ⟨hptr, hfront⟩ := hbegun i hsend
    refine .inr fun x hx => ?_
    dsimp only
    rw [hptr]
    exact hfront x hx
  have hcalm : ∀ {s : Server} {inp : Input}, undated s inp → sparesBegun demoImage s inp :=
    sparesBegun_undated
  have hfirst := pollAt_undated hcalm hquiet hph hs₁
  have hsecond := pollAt_dated hcalm hquiet₂ hph₂ hdate hpass
  exact ⟨s₃, hsent, date_header_intact demoImage_layout demoImage_dates
    (((hrun.mono hcalm).trans hfirst).trans ((Run.single trivial hs₂).trans hsecond)) 1⟩

end WsPi5

/-
# `WsPi5.Http.Reply` — what a request is answered with

`http_poll` makes its tests on the bytes in the receive buffer and on the record that the parser has
left, and some of them at a later visit than the others: a request with a body is answered when the
body is there.  What comes of them is a function of the head (`HttpEnv.reply`).

    another method              405
    no Host                     400
    no route with the path      404
    not a method of the route   405
    else                        200, with the page of the route

This is for answers behind which the connection is kept open; others are given to bytes that are no
request at all.

**Proved here** (`pollSlot_served`).  Status, page and method flag of such an answer are those of the
head at the front of the buffer.
-/
import WsPi5.Http.Persistent

namespace WsPi5

open Lib

/-! ## The reference -/

/-- The URI up to the first question mark. -/
def RequestHead.path (h : RequestHead) : List Byte := h.uri.takeWhile (· ≠ 0x3F)

def RequestHead.methodBit (h : RequestHead) : BitVec 8 :=
  if h.method = ascii "POST" then hmPost else if h.method = ascii "HEAD" then hmHead else hmGet

def RequestHead.Served (h : RequestHead) : Prop :=
  h.method = ascii "GET" ∨ h.method = ascii "HEAD" ∨ h.method = ascii "POST"

instance (h : RequestHead) : Decidable h.Served := inferInstanceAs (Decidable (_ ∨ _ ∨ _))

/-- The page for a method that the route does not have. -/
def HttpEnv.methodPage (env : HttpEnv) (methods : BitVec 8) : Blob :=
  if methods = hmGet ||| hmHead then env.methodGh
  else if methods = hmPost then env.methodP
  else env.methodGhp

/-- **The answer.** -/
def HttpEnv.reply (env : HttpEnv) (h : RequestHead) : Status × Page :=
  if ¬ h.Served then (.method405, .static env.methodGhp)
  else if ∀ f ∈ h.fields, isName hostName f.1 = false then (.bad400, .static env.badRequest)
  else match env.routes.find? fun rt => rt.path = h.path with
    | none => (.notFound404, .static env.notFound)
    | some rt =>
        if rt.methods &&& h.methodBit = 0 then (.method405, .static (env.methodPage rt.methods))
        else (.ok200, if rt.dynamic then .dynamic rt.blob else .static rt.blob)

/-! ## The record of a request that is understood -/

/-- The method is one that is served, there is a Host, and the record has the path. -/
structure Understood (h : RequestHead) (r : Req) : Prop where
  served : h.Served
  host : ¬ ∀ f ∈ h.fields, isName hostName f.1 = false
  uriStart : r.parser.uriStart = h.method.length + 1
  uriLen : r.parser.uriLen = h.path.length
  head : r.flags.head = decide (h.method = ascii "HEAD")
  post : r.flags.post = decide (h.method = ascii "POST")

def Req.Serves (rest : List Byte) (r : Req) : Prop :=
  match r.state with
  | .idle | .recvHdr => r.flags = {}
  | .recvBody => r.keeps = true → ∃ h : RequestHead, h.Valid ∧ h.bytes <+: rest ∧ Understood h r
  | .sending => False

/-- The answer is the one to the head at the front. -/
structure AnswersHead (env : HttpEnv) (rest : List Byte) (r : Req) (page : Page) (h : RequestHead) :
    Prop where
  valid : h.Valid
  front : h.bytes <+: rest
  reply : (r.status, page) = env.reply h
  head : r.flags.head = decide (h.method = ascii "HEAD")

def Verdict.Serves (env : HttpEnv) (rest : List Byte) : Verdict → Prop
  | .stay r => r.Serves rest
  | .close _ => True
  | .answer r page => r.keeps = true → ∃ h, AnswersHead env rest r page h

/-! ## The tests on the bytes -/

section
variable {h : RequestHead} {buf : Nat → Byte}

theorem holds_blank {text more : List Byte} (hbuf : BufHolds buf 0 (text ++ 0x20 :: more)) (n : Nat) :
    slice buf 0 (text.length + 1 + n) = text ++ 0x20 :: slice buf (text.length + 1) n := by
  have hall : text ++ 0x20 :: more = (text ++ [0x20]) ++ more := by simp
  rw [hall] at hbuf
  have hfront := hbuf.left.slice
  rw [List.length_append] at hfront
  rw [slice_add, show text.length + 1 = text.length + [(0x20 : Byte)].length from rfl, hfront,
    Nat.zero_add]
  simp

theorem text_method {text : List Byte} (hv : h.Valid) (hbuf : BufHolds buf 0 h.bytes)
    (htext : 0x20 ∉ text) (hat : textAt buf 0 (text ++ [0x20]) = true) :
    h.method = text := by
  have hslice : slice buf 0 (text ++ [0x20]).length = text ++ [0x20] := of_decide_eq_true hat
  have hholds : BufHolds buf 0 (text ++ 0x20 :: []) := by
    have hall := slice_holds buf (text ++ [0x20]).length
    rwa [hslice] at hall
  have hmethod := hbuf
  simp only [RequestHead.bytes, RequestHead.lines, RequestHead.line, RequestHead.upTo,
    List.append_assoc, List.cons_append] at hmethod
  have h₁ := holds_blank hmethod (text.length + 1)
  have h₂ := holds_blank hholds (h.method.length + 1)
  rw [Nat.add_comm (h.method.length + 1), h₂] at h₁
  have hspace : ∀ b ∈ text, b ≠ 0x20 := fun b hb hne => htext (hne ▸ hb)
  exact (split_unique h₁ hspace fun b hb => letter_ne_space (hv.method b hb)).1.symm

def Method.text : Method → List Byte
  | .get => ascii "GET"
  | .head => ascii "HEAD"
  | .post => ascii "POST"

theorem methodOf_text {m : Method} (hv : h.Valid) (hbuf : BufHolds buf 0 h.bytes)
    (hm : methodOf buf = some m) : h.method = m.text := by
  unfold methodOf at hm
  split at hm
  next hat =>
    cases hm
    exact text_method hv hbuf (by decide) hat
  split at hm
  next hat =>
    cases hm
    exact text_method hv hbuf (by decide) hat
  split at hm
  next hat =>
    cases hm
    exact text_method hv hbuf (by decide) hat
  next => cases hm

theorem findQuery_path {uri : List Byte} : ∀ {pos : Nat}, BufHolds buf pos uri →
    findQuery buf uri.length pos =
      if (uri.takeWhile (· ≠ 0x3F)).length = uri.length then none
      else some (pos + (uri.takeWhile (· ≠ 0x3F)).length) := by
  induction uri with
  | nil => exact fun _ => rfl
  | cons b uri ih =>
      intro pos hbuf
      rw [List.length_cons, findQuery, hbuf.head]
      by_cases hb : b = 0x3F
      · have hstop : (b :: uri).takeWhile (· ≠ 0x3F) = [] := by simp [hb]
        rw [if_pos hb, hstop, List.length_nil, if_neg (by omega), Nat.add_zero]
      · have hgo : (b :: uri).takeWhile (· ≠ 0x3F) = b :: uri.takeWhile (· ≠ 0x3F) := by simp [hb]
        rw [if_neg hb, ih hbuf.tail, hgo, List.length_cons]
        simp only [Nat.add_right_cancel_iff]
        split
        · rfl
        · rw [Nat.add_assoc, Nat.add_comm 1]

theorem splitQuery_path {r : Req} (hbuf : BufHolds buf r.parser.uriStart h.uri)
    (hlen : r.parser.uriLen = h.uri.length) :
    (splitQuery buf r).parser.uriLen = h.path.length := by
  have hfind := findQuery_path hbuf
  unfold splitQuery
  rw [hlen, hfind]
  split
  next hnone =>
    split at hnone
    next hwhole => exact hlen.trans hwhole.symm
    next => cases hnone
  next q hsome =>
    split at hsome
    next => cases hsome
    next =>
      cases hsome
      exact Nat.add_sub_cancel_left ..

theorem httpMatchUri_path {env : HttpEnv} {v : Visit} {r : Req}
    (hbuf : BufHolds v.buf r.parser.uriStart h.path) (hlen : r.parser.uriLen = h.path.length) :
    httpMatchUri env v r = env.routes.find? fun rt => rt.path = h.path := by
  have hpath := hbuf.slice
  unfold httpMatchUri
  congr 1
  funext rt
  rw [hlen, textAt]
  by_cases hrt : rt.path = h.path
  · rw [hrt, hpath]
    simp
  · by_cases hsame : rt.path.length = h.path.length
    · rw [hsame, hpath]
      simp [hrt, eq_comm]
    · simp [hrt, hsame]

end

/-! ## A visit -/

section
variable {env : HttpEnv} {v : Visit} {rest : List Byte} {r : Req} {h : RequestHead}

theorem Understood.methodBit (hu : Understood h r) : r.flags.methodBit = h.methodBit := by
  unfold Flags.methodBit RequestHead.methodBit
  rw [hu.head, hu.post]
  simp only [decide_eq_true_eq]

theorem holds_uri (hbuf : BufHolds v.buf 0 rest) (hpre : h.bytes <+: rest) :
    BufHolds v.buf (h.method.length + 1) h.uri := by
  obtain ⟨more, rfl⟩ := hpre
  have hhead := hbuf.left
  have hsplit : ∃ tail, h.bytes = (h.method ++ [0x20]) ++ (h.uri ++ tail) := by
    refine ⟨0x20 :: (h.version ++ [0x2F, h.major, 0x2E, h.minor, 0x0D, 0x0A]) ++
      h.fields.flatMap fieldBytes ++ [0x0D, 0x0A], ?_⟩
    simp [RequestHead.bytes, RequestHead.lines, RequestHead.line, RequestHead.upTo]
  obtain ⟨tail, htail⟩ := hsplit
  rw [htail] at hhead
  have huri := hhead.right.left
  rwa [List.length_append, Nat.zero_add] at huri

theorem holds_path (hbuf : BufHolds v.buf 0 rest) (hpre : h.bytes <+: rest) :
    BufHolds v.buf (h.method.length + 1) h.path := by
  have huri := holds_uri hbuf hpre
  obtain ⟨tail, htail⟩ := List.takeWhile_prefix (l := h.uri) (fun b => decide (b ≠ 0x3F))
  rw [← htail] at huri
  exact huri.left

theorem dispatchRoute_reply (hu : Understood h r) (hbuf : BufHolds v.buf 0 rest)
    (hpre : h.bytes <+: rest) :
    dispatchRoute env v r = .answer { r with status := (env.reply h).1 } (env.reply h).2 := by
  have hpath := holds_path hbuf hpre
  rw [← hu.uriStart] at hpath
  unfold dispatchRoute HttpEnv.reply
  rw [httpMatchUri_path hpath hu.uriLen, hu.methodBit, if_neg (not_not_intro hu.served),
    if_neg hu.host]
  cases env.routes.find? fun rt => rt.path = h.path with
  | none => rfl
  | some rt =>
      dsimp only
      split
      · rfl
      · rfl

theorem dispatchRoute_served (hbuf : BufHolds v.buf 0 rest)
    (hu : r.keeps = true → ∃ h : RequestHead, h.Valid ∧ h.bytes <+: rest ∧ Understood h r) :
    (dispatchRoute env v r).Serves env rest := by
  by_cases hk : r.keeps = true
  · obtain ⟨h, hv, hpre, hunder⟩ := hu hk
    rw [dispatchRoute_reply hunder hbuf hpre]
    exact fun _ => ⟨h, hv, hpre, rfl, hunder.head⟩
  · unfold dispatchRoute
    split
    · exact fun hk' => absurd hk' hk
    split
    · exact fun hk' => absurd hk' hk
    · exact fun hk' => absurd hk' hk

theorem bodyCheck_served (hbuf : BufHolds v.buf 0 rest)
    (hu : r.keeps = true → ∃ h : RequestHead, h.Valid ∧ h.bytes <+: rest ∧ Understood h r) :
    (bodyCheck env v r).Serves env rest := by
  unfold bodyCheck
  split
  · exact dispatchRoute_served hbuf hu
  split
  next => exact fun hk => absurd hk (by simp [Req.keeps])
  split
  next =>
    intro hk
    obtain ⟨h, hv, hpre, hserved, hhost, hstart, hlen, hhead, hpost⟩ := hu hk
    exact ⟨h, hv, hpre, hserved, hhost, hstart, hlen, hhead, hpost⟩
  next => exact dispatchRoute_served hbuf hu

theorem methodDone_served (hr : HeadRead h r.parser) (hv : h.Valid) (hpre : h.bytes <+: rest)
    (hbuf : BufHolds v.buf 0 rest) (hlen : r.parser.uriLen = h.uri.length) (hserved : h.Served)
    (hhead : r.flags.head = decide (h.method = ascii "HEAD"))
    (hpost : r.flags.post = decide (h.method = ascii "POST")) :
    (methodDone env v r).Serves env rest := by
  have huri : BufHolds v.buf r.parser.uriStart h.uri := by
    rw [hr.uriStart]
    exact holds_uri hbuf hpre
  unfold methodDone
  split
  next hno =>
    rw [Bool.and_eq_true, Bool.not_eq_true'] at hno
    have hnone : ∀ f ∈ h.fields, isName hostName f.1 = false := by
      intro f hf
      have hany := hr.host.symm.trans hno.2
      rw [List.any_eq_false] at hany
      simpa using hany f hf
    refine fun _ => ⟨h, hv, hpre, ?_, hhead⟩
    unfold HttpEnv.reply
    rw [if_neg (not_not_intro hserved), if_pos hnone]
  next hyes =>
    unfold hostOk
    dsimp only
    generalize hr' : ({ r with flags := { r.flags with
      close := r.flags.close || r.parser.closeFound || !r.flags.http11 } } : Req) = r'
    obtain ⟨n, hparser, hflags⟩ := splitQuery_keeps v.buf r'
    split
    next => exact fun hk => absurd hk (by simp [Req.keeps])
    next =>
      refine bodyCheck_served hbuf fun hk => ?_
      have h11 : r.flags.http11 = true := by
        rw [Req.keeps, hflags, Bool.and_eq_true, ← hr'] at hk
        exact hk.2
      rw [h11, Bool.true_and] at hyes
      refine ⟨h, hv, hpre, hserved, fun hnone => hyes ?_, ?_, ?_, ?_, ?_⟩
      · rw [hr.host, Bool.not_eq_true', List.any_eq_false]
        intro f hf
        rw [hnone f hf]
        decide
      · rw [hparser, ← hr']
        exact hr.uriStart
      · refine splitQuery_path ?_ ?_
        · rw [← hr']
          exact huri
        · rw [← hr']
          exact hlen
      · rw [hflags, ← hr']
        exact hhead
      · rw [hflags, ← hr']
        exact hpost

theorem fsaDone_served (hr : HeadRead h r.parser) (hv : h.Valid) (hpre : h.bytes <+: rest)
    (hbuf : BufHolds v.buf 0 rest) (hbound : rest.length ≤ tcpRxbufSize + 4 * maxPayload)
    (hflags : r.flags = {}) : (fsaDone env v r).Serves env rest := by
  have hbytes : BufHolds v.buf 0 h.bytes := by
    obtain ⟨more, rfl⟩ := hpre
    exact hbuf.left
  have huri : r.parser.uriLen = h.uri.length := by
    rw [hr.uriLen]
    refine Nat.mod_eq_of_lt ?_
    have hle := hpre.length_le
    have hcount : h.uri.length ≤ h.bytes.length := by
      simp only [RequestHead.bytes, RequestHead.lines, RequestHead.line, RequestHead.upTo,
        List.length_append, List.length_cons]
      omega
    simp only [tcpRxbufSize, maxPayload] at hbound
    omega
  unfold fsaDone
  split
  next htext =>
    dsimp only
    split
    next hmethod =>
      -- another method
      obtain ⟨hget, hhead, hpost⟩ := methodOf_none hbytes hmethod
      have hno : ¬ h.Served := by
        rintro (hm | hm | hm)
        · exact hget hm
        · exact hhead hm
        · exact hpost hm
      refine fun _ => ⟨h, hv, hpre, ?_, ?_⟩
      · unfold HttpEnv.reply
        rw [if_pos hno]
      · rw [hflags]
        exact (decide_eq_false hhead).symm
    next hmethod =>
      have htext := methodOf_text hv hbytes hmethod
      refine methodDone_served hr hv hpre hbuf huri (.inl htext) ?_ ?_
      all_goals
        rw [htext, hflags]
        rfl
    next hmethod =>
      have htext := methodOf_text hv hbytes hmethod
      refine methodDone_served hr hv hpre hbuf huri (.inr (.inl htext)) ?_ ?_
      all_goals
        rw [htext, hflags]
        rfl
    next hmethod =>
      have htext := methodOf_text hv hbytes hmethod
      refine methodDone_served hr hv hpre hbuf huri (.inr (.inr htext)) ?_ ?_
      all_goals
        rw [htext, hflags]
        rfl
  next =>
    intro hk
    rw [Req.keeps, Bool.and_eq_true] at hk
    have hk₂ : r.flags.http11 = true := hk.2
    rw [hflags] at hk₂
    cases hk₂

/-- `.Lhp_try_parse`, over a buffer that is read as far as PARSE_OFF. -/
theorem tryParse_served (hread : Reading rest r.parser) (hst : r.state = .recvHdr)
    (hflags : r.flags = {}) (hbuf : BufHolds v.buf 0 rest) (hlen : v.len = rest.length)
    (hbound : rest.length ≤ tcpRxbufSize + 4 * maxPayload)
    (hs : FramesSafely rest r.parser.off) : (tryParse env v r).Serves env rest := by
  have hwaits : ∀ p, ({ r with parser := p } : Req).Serves rest := by
    intro p
    unfold Req.Serves
    rw [hst]
    exact hflags
  have hbytes : ∀ k < rest.length, v.buf k = bytesOf rest k := by
    intro k hk
    have hat := (hbuf k hk).trans (bytesOf_holds rest k hk).symm
    rw [Nat.zero_add] at hat
    exact Option.some.inj hat
  obtain ⟨-, hdone⟩ := hread.parse hs.stands
  unfold tryParse
  split
  · trivial
  split
  · exact hwaits _
  split
  · rw [hlen, httpParseRequest_congr hbytes]
    dsimp only
    split
    next hq =>
      obtain ⟨h, hv, hpre, hr⟩ := hdone hq
      exact fsaDone_served hr hv hpre hbuf hbound hflags
    next =>
      intro hk
      have hk₂ : (r.flags.close = false) ∧ r.flags.http11 = true := by
        simpa [Req.keeps] using hk
      rw [hflags] at hk₂
      cases hk₂.2
    next => exact hwaits _
  · trivial

/-- **A visit serves the head at the front of the buffer.** -/
theorem pollSlot_served (h : r.Awaits rest) (hsrv : r.Serves rest) (hest : v.tcp = .established)
    (hbuf : BufHolds v.buf 0 rest) (hlen : v.len = rest.length)
    (hbound : rest.length ≤ tcpRxbufSize + 4 * maxPayload)
    (hs : r.state = .idle ∨ r.state = .recvHdr → FramesSafely rest r.parser.off) :
    (pollSlot env v r).Serves env rest := by
  unfold Req.Awaits at h
  unfold Req.Serves at hsrv
  unfold pollSlot
  rw [if_pos hest]
  cases hst : r.state with
  | idle =>
      rw [hst] at h hsrv
      exact tryParse_served h rfl hsrv hbuf hlen hbound (hs (.inl hst))
  | recvHdr =>
      rw [hst] at h hsrv
      exact tryParse_served h hst hsrv hbuf hlen hbound (hs (.inr hst))
  | sending =>
      rw [hst] at h
      exact h.elim
  | recvBody =>
      rw [hst] at hsrv
      dsimp only
      unfold resumeBody
      split
      · trivial
      split
      · show r.Serves rest
        unfold Req.Serves
        rw [hst]
        exact hsrv
      · exact bodyCheck_served hbuf hsrv

end

end WsPi5

/-
# `WsPi5.Http.PollReads` — what a poll reads of the record and of the buffer

A record is never cleared as a whole, so that it holds fields of earlier requests; and a buffer
holds bytes of earlier connections behind `RXLEN`.  What a visit does depends on neither:

    two records that agree in the fields that the current request has set,
    two buffers that agree below RXLEN
      ⟹  the same verdict, and records that agree again                  (`pollSlot_view`)

`view` blanks the fields that are not set yet.  The second half needs that the parser's
offsets lie in the buffered bytes (`Within`), which parsing keeps.
-/
import WsPi5.Http.ParseSplit
import WsPi5.Http.Poll

namespace WsPi5

open Lib

/-! ## The fields that are set -/

/-- URI_START is set. -/
def ParseState.hasStart : ParseState → Bool
  | .method | .mSp | .error => false
  | _ => true

/-- URI_LEN is set. -/
def ParseState.hasUri : ParseState → Bool
  | .method | .mSp | .uri | .error => false
  | _ => true

/-- The parser's record, blank where this request has set nothing. -/
def Parser.view (p : Parser) : Parser :=
  { p with
    uriStart := if p.state.hasStart then p.uriStart else 0
    uriLen := if p.state.hasUri then p.uriLen else 0
    reqLen := if p.state = .done then p.reqLen else 0
    hdrNmStart := if p.state = .hdrNm then p.hdrNmStart else 0 }

def Req.queried (r : Req) : Bool :=
  r.state = .recvBody || (r.state = .sending && r.status = .ok200)

def Req.view (r : Req) : Req :=
  { r with
    status := if r.state = .sending then r.status else .ok200
    recvTick := if r.state = .idle then 0 else r.recvTick
    parser := r.parser.view
    queryStart := if r.queried then r.queryStart else 0
    queryLen := if r.queried then r.queryLen else 0 }

/-- A verdict with what is set of its record; an answer is recorded as SENDING. -/
def Verdict.view : Verdict → Verdict
  | .stay r => .stay r.view
  | .close r => .close r.view
  | .answer r page => .answer { r with state := .sending }.view page

/-! ## The parser -/

/-- Two records with the same view. -/
structure Parser.Like (p q : Parser) : Prop where
  state : q.state = p.state
  off : q.off = p.off
  verMinor : q.verMinor = p.verMinor
  hostFound : q.hostFound = p.hostFound
  closeFound : q.closeFound = p.closeFound
  contentLen : q.contentLen = p.contentLen
  clSeen : q.clSeen = p.clSeen
  uriStart : p.state.hasStart = true → q.uriStart = p.uriStart
  uriLen : p.state.hasUri = true → q.uriLen = p.uriLen
  reqLen : p.state = .done → q.reqLen = p.reqLen
  hdrNmStart : p.state = .hdrNm → q.hdrNmStart = p.hdrNmStart

theorem Parser.Like.view {p q : Parser} (h : p.Like q) : p.view = q.view := by
  obtain ⟨hst, hoff, hver, hhost, hclose, hcl, hseen, hus, hul, hrl, hnm⟩ := h
  simp only [Parser.view, hst, hoff, hver, hhost, hclose, hcl, hseen, Parser.mk.injEq, true_and,
    and_true]
  refine ⟨?_, ?_, ?_, ?_⟩
  · split
    next h => rw [hus h]
    next => rfl
  · split
    next h => rw [hul h]
    next => rfl
  · split
    next h => rw [hrl h]
    next => rfl
  · split
    next h => rw [hnm h]
    next => rfl

theorem Parser.Like.of_view {p q : Parser} (h : p.view = q.view) : p.Like q := by
  have hst : q.state = p.state := (congrArg Parser.state h).symm
  simp only [Parser.view, hst, Parser.mk.injEq] at h
  obtain ⟨-, hoff, hus, hul, hver, hhost, hclose, hrl, hnm, hcl, hseen⟩ := h
  exact ⟨hst, hoff.symm, hver.symm, hhost.symm, hclose.symm, hcl.symm, hseen.symm,
    fun hs => by rw [if_pos hs, if_pos hs] at hus; exact hus.symm,
    fun hs => by rw [if_pos hs, if_pos hs] at hul; exact hul.symm,
    fun hs => by rw [if_pos hs, if_pos hs] at hrl; exact hrl.symm,
    fun hs => by rw [if_pos hs, if_pos hs] at hnm; exact hnm.symm⟩

theorem table_sets (st : ParseState) (c : CharClass) :
    let t := httpFsaTable st c
    (t.2.hasStart = true → st.hasStart = true ∨ t.1 = .uriStart) ∧
    (t.2.hasUri = true → st.hasUri = true ∨ t.1 = .uriEnd) ∧
    (t.2 = .done → st = .done ∨ t.1 = .reqDone) ∧
    (t.2 = .hdrNm → st = .hdrNm ∨ t.1 = .hdrNameStart) ∧
    (t.1 = .uriEnd → st = .uri) ∧ (t.1 = .hdrCheckHost → st = .hdrNm ∧ t.2 = .hdrVl) := by
  cases st <;> cases c <;> decide

section
variable {buf : Nat → Byte} {len : Nat} {p q : Parser}

/-- At a colon: the name is read at HDR_NM_START, what is noted is no URI. -/
theorem Parser.Like.checkName (h : p.Like q) (hnm : q.hdrNmStart = p.hdrNmStart) :
    (p.checkName buf len).Like (q.checkName buf len) := by
  have hname : ∀ name, q.nameAtColon buf name = p.nameAtColon buf name := by
    intro name
    rw [Parser.nameAtColon, Parser.nameAtColon, h.off, hnm]
  have hread : (p.readCl buf len).Like (q.readCl buf len) := by
    have hlook : lookCl buf len q.off = lookCl buf len p.off := by rw [h.off]
    unfold Parser.readCl
    rw [hlook]
    by_cases hp : p.clSeen = true
    · rw [if_pos hp, if_pos (h.clSeen.trans hp)]
      exact { h with
        state := rfl
        uriStart := by rintro ⟨⟩
        uriLen := by rintro ⟨⟩
        reqLen := by rintro ⟨⟩
        hdrNmStart := by rintro ⟨⟩ }
    · rw [if_neg hp, if_neg fun hq => hp (h.clSeen.symm.trans hq)]
      cases lookCl buf len p.off with
      | none => exact h
      | some v => exact { h with contentLen := rfl, clSeen := rfl }
  unfold Parser.checkName
  rw [hname, hname, hname]
  split
  · exact { h with hostFound := rfl }
  split
  · exact { h with closeFound := by rw [h.closeFound, h.off] }
  split
  · exact hread
  · exact h

theorem Parser.Like.advance (h : p.Like q) :
    Parser.Like { p with off := p.off + 1 } { q with off := q.off + 1 } :=
  { h with off := by rw [h.off] }

theorem Parser.Like.byte (h : p.Like q) : (p.byte buf len).Like (q.byte buf len) := by
  have hnext : httpFsaTable q.state (httpClassifyChar (buf q.off))
      = httpFsaTable p.state (httpClassifyChar (buf p.off)) := by rw [h.state, h.off]
  unfold Parser.byte
  rw [hnext]
  obtain ⟨hstart, huri, hdone, hname, hend, hcheck⟩ :=
    table_sets p.state (httpClassifyChar (buf p.off))
  generalize httpFsaTable p.state (httpClassifyChar (buf p.off)) = t at *
  obtain ⟨a, st⟩ := t
  dsimp only at *
  refine Parser.Like.advance ?_
  cases a with
  | none =>
      exact { h with
        state := rfl
        uriStart := fun hs => h.uriStart (by simpa using hstart hs)
        uriLen := fun hs => h.uriLen (by simpa using huri hs)
        reqLen := fun hs => h.reqLen (by simpa using hdone hs)
        hdrNmStart := fun hs => h.hdrNmStart (by simpa using hname hs) }
  | uriStart =>
      exact { h with
        state := rfl
        uriStart := fun _ => h.off
        uriLen := fun hs => h.uriLen (by simpa using huri hs)
        reqLen := fun hs => h.reqLen (by simpa using hdone hs)
        hdrNmStart := fun hs => h.hdrNmStart (by simpa using hname hs) }
  | uriEnd =>
      have hset : q.uriStart = p.uriStart := h.uriStart (by rw [hend rfl]; rfl)
      exact { h with
        state := rfl
        uriStart := fun _ => hset
        uriLen := fun _ => by simp only [Parser.act]; rw [h.off, hset]
        reqLen := fun hs => h.reqLen (by simpa using hdone hs)
        hdrNmStart := fun hs => h.hdrNmStart (by simpa using hname hs) }
  | verMinor =>
      exact { h with
        state := rfl
        verMinor := by simp only [Parser.act]; rw [h.off]
        uriStart := fun hs => h.uriStart (by simpa using hstart hs)
        uriLen := fun hs => h.uriLen (by simpa using huri hs)
        reqLen := fun hs => h.reqLen (by simpa using hdone hs)
        hdrNmStart := fun hs => h.hdrNmStart (by simpa using hname hs) }
  | hdrNameStart =>
      exact { h with
        state := rfl
        uriStart := fun hs => h.uriStart (by simpa using hstart hs)
        uriLen := fun hs => h.uriLen (by simpa using huri hs)
        reqLen := fun hs => h.reqLen (by simpa using hdone hs)
        hdrNmStart := fun _ => h.off }
  | hdrCheckHost =>
      obtain ⟨hnm, rfl⟩ := hcheck rfl
      refine Parser.Like.checkName { h with
        state := rfl
        uriStart := fun hs => h.uriStart (by simpa using hstart hs)
        uriLen := fun hs => h.uriLen (by simpa using huri hs)
        reqLen := by rintro ⟨⟩
        hdrNmStart := by rintro ⟨⟩ } (h.hdrNmStart hnm)
  | reqDone =>
      exact { h with
        state := rfl
        uriStart := fun hs => h.uriStart (by simpa using hstart hs)
        uriLen := fun hs => h.uriLen (by simpa using huri hs)
        reqLen := fun _ => by simp only [Parser.act]; rw [h.off]
        hdrNmStart := fun hs => h.hdrNmStart (by simpa using hname hs) }

theorem parseLoop_like : ∀ (n : Nat) {p q : Parser}, p.Like q →
    (parseLoop buf len n p).Like (parseLoop buf len n q)
  | 0, _, _, h => h
  | n + 1, p, q, h => by
      rw [parseLoop, parseLoop, h.state]
      split
      · exact h
      · exact parseLoop_like n h.byte

theorem httpParseRequest_like (h : p.Like q) :
    (httpParseRequest buf len p).Like (httpParseRequest buf len q) := by
  rw [httpParseRequest, httpParseRequest, h.off]
  exact parseLoop_like _ h

end

/-! ## Offsets -/

/-- How much has been parsed behind the URI, up to the blank and `HTTP`. -/
def ParseState.behind : ParseState → Nat
  | .uSp => 1
  | .vh => 2
  | .vt1 => 3
  | .vt2 => 4
  | _ => 5

/-- The offsets lie in the first `n` bytes. -/
structure Parser.Within (n : Nat) (p : Parser) : Prop where
  off : p.off ≤ n
  start : p.state = .uri → p.uriStart ≤ p.off
  uri : p.state.hasUri = true → p.uriStart + p.uriLen + p.state.behind ≤ p.off

theorem table_behind (st : ParseState) (c : CharClass) :
    let t := httpFsaTable st c
    (t.1 = .uriStart → t.2 = .uri) ∧ (t.1 = .uriEnd → t.2 = .uSp ∧ st = .uri) ∧
    (t.2 = .uri → t.1 = .uriStart ∨ st = .uri) ∧
    (t.2.hasUri = true → t.1 = .uriEnd ∨
      (st.hasUri = true ∧ t.2.behind ≤ st.behind + 1)) := by
  cases st <;> cases c <;> decide

section
variable {buf : Nat → Byte} {len n : Nat} {p q : Parser}

theorem Parser.checkName_uri (p : Parser) (buf : Nat → Byte) (len : Nat) :
    (p.checkName buf len).uriStart = p.uriStart ∧ (p.checkName buf len).uriLen = p.uriLen ∧
      ((p.checkName buf len).state = p.state ∨ (p.checkName buf len).state = .error) := by
  unfold Parser.checkName Parser.readCl
  split
  · exact ⟨rfl, rfl, .inl rfl⟩
  split
  · exact ⟨rfl, rfl, .inl rfl⟩
  split
  · split
    · exact ⟨rfl, rfl, .inr rfl⟩
    · split <;> exact ⟨rfl, rfl, .inl rfl⟩
  · exact ⟨rfl, rfl, .inl rfl⟩

theorem Parser.byte_uri (p : Parser) (buf : Nat → Byte) (len : Nat) :
    let t := httpFsaTable p.state (httpClassifyChar (buf p.off))
    ((p.byte buf len).state = t.2 ∨ (p.byte buf len).state = .error) ∧
    (p.byte buf len).uriStart = (if t.1 = .uriStart then p.off else p.uriStart) ∧
    (p.byte buf len).uriLen
      = (if t.1 = .uriEnd then (p.off + 65536 - p.uriStart) % 65536 else p.uriLen) := by
  unfold Parser.byte
  generalize httpFsaTable p.state (httpClassifyChar (buf p.off)) = t
  obtain ⟨a, st⟩ := t
  cases a with
  | hdrCheckHost =>
      obtain ⟨h₁, h₂, h₃⟩ := Parser.checkName_uri { p with state := st } buf len
      exact ⟨h₃, h₁, h₂⟩
  | _ => exact ⟨.inl rfl, rfl, rfl⟩

theorem Parser.Within.byte (h : p.Within n) (hoff : p.off < n) (hn : n < 65536) :
    (p.byte buf len).Within n := by
  have hnext := p.byte_off buf len
  obtain ⟨hstart, hend, huri, hbehind⟩ := table_behind p.state (httpClassifyChar (buf p.off))
  obtain ⟨hst, hus, hul⟩ := p.byte_uri buf len
  have herr : (p.byte buf len).state = .error → (p.byte buf len).Within n := by
    intro he
    exact ⟨by omega, by rw [he]; nofun, by rw [he]; nofun⟩
  rcases hst with hst | hst
  · refine ⟨by omega, fun hu => ?_, fun hu => ?_⟩
    · rw [hst] at hu
      rw [hus, hnext]
      rcases huri hu with ha | hold
      · rw [if_pos ha]
        omega
      · have := h.start hold
        split <;> omega
    · rw [hst] at hu ⊢
      rw [hus, hul, hnext]
      rcases hbehind hu with ha | ⟨hold, hmore⟩
      · obtain ⟨hsp, hfrom⟩ := hend ha
        have hle := h.start hfrom
        rw [if_pos ha, if_neg (by rw [ha]; nofun), hsp]
        simp only [ParseState.behind]
        omega
      · have hle := h.uri hold
        have hns : (httpFsaTable p.state (httpClassifyChar (buf p.off))).1 ≠ .uriStart := by
          intro ha
          rw [hstart ha] at hu
          cases hu
        have hne : (httpFsaTable p.state (httpClassifyChar (buf p.off))).1 ≠ .uriEnd := by
          intro ha
          rw [(hend ha).2] at hold
          cases hold
        rw [if_neg hns, if_neg hne]
        omega
  · exact herr hst

theorem parseLoop_within (hn : n < 65536) : ∀ (m : Nat) {p : Parser}, p.off + m ≤ n →
    p.Within n → (parseLoop buf len m p).Within n
  | 0, _, _, h => h
  | m + 1, p, hm, h => by
      rw [parseLoop]
      split
      · exact h
      · refine parseLoop_within hn m ?_ (h.byte (by omega) hn)
        rw [p.byte_off]
        omega

theorem httpParseRequest_within (hlen : len < 65536) (h : p.Within len) :
    (httpParseRequest buf len p).Within len :=
  parseLoop_within hlen _ (by have := h.off; omega) h

end

/-! ## The poll -/

/-- What a visit reads is the same. -/
structure Visit.Like (v w : Visit) : Prop where
  tcp : w.tcp = v.tcp
  len : w.len = v.len
  start : w.start = v.start
  now : w.now = v.now
  buf : ∀ k < v.len, w.buf k = v.buf k

/-- Two records that agree while a request is being worked on. -/
structure Req.Like (a b : Req) : Prop where
  state : b.state = a.state
  flags : b.flags = a.flags
  recvTick : b.recvTick = a.recvTick
  parser : a.parser.Like b.parser

/-- A record that a visit may find, no response being sent: the offsets lie in the first `n`
bytes, RECV_BODY comes behind S_DONE, and before it the version is not noted. -/
structure Req.Within (n : Nat) (r : Req) : Prop where
  parser : r.parser.Within n
  body : r.state = .recvBody → r.parser.state = .done
  version : r.state ≠ .recvBody → r.flags.http11 = false
  free : r.state ≠ .sending

/-- A complete request line in the buffer. -/
structure Req.Complete (n : Nat) (r : Req) : Prop where
  done : r.parser.state = .done
  uri : r.parser.uriStart + r.parser.uriLen + 5 ≤ n

theorem Req.Within.complete {n : Nat} {r : Req} (h : r.parser.Within n)
    (hd : r.parser.state = .done) : r.Complete n := by
  have huri := h.uri (by rw [hd]; rfl)
  have hoff := h.off
  rw [hd] at huri
  exact ⟨hd, by simp only [ParseState.behind] at huri; omega⟩

section
variable {v w : Visit} {a b : Req}

theorem textAt_like (h : v.Like w) {off : Nat} {text : List Byte}
    (hfit : off + text.length ≤ v.len) : textAt w.buf off text = textAt v.buf off text := by
  unfold textAt
  rw [slice_congr fun k hk => h.buf (off + k) (by omega)]

theorem findQuery_like (h : v.Like w) : ∀ (n pos : Nat), pos + n ≤ v.len →
    findQuery w.buf n pos = findQuery v.buf n pos
  | 0, _, _ => rfl
  | n + 1, pos, hfit => by
      rw [findQuery, findQuery, h.buf pos (by omega), findQuery_like h n (pos + 1) (by omega)]

theorem Req.Like.uri (h : a.Like b) (hd : a.parser.state = .done) :
    b.parser.uriStart = a.parser.uriStart ∧ b.parser.uriLen = a.parser.uriLen ∧
      b.parser.reqLen = a.parser.reqLen :=
  ⟨h.parser.uriStart (by rw [hd]; rfl), h.parser.uriLen (by rw [hd]; rfl), h.parser.reqLen hd⟩

theorem Req.Like.answer (h : a.Like b) (st : Status) (page : Page)
    (hq : st = .ok200 → b.queryStart = a.queryStart ∧ b.queryLen = a.queryLen) :
    (Verdict.answer { a with status := st } page).view
      = (Verdict.answer { b with status := st } page).view := by
  have hp := h.parser.view
  simp only [Verdict.view, Req.view, Req.queried, hp, h.flags, h.recvTick, Verdict.answer.injEq,
    Req.mk.injEq, true_and, and_true]
  by_cases hst : st = .ok200
  · obtain ⟨h₁, h₂⟩ := hq hst
    simp [hst, h₁, h₂]
  · simp [hst]

theorem Req.Like.withFlags (h : a.Like b) (g : Flags → Flags) :
    Req.Like { a with flags := g a.flags } { b with flags := g b.flags } :=
  { h with flags := by dsimp only; rw [h.flags] }

def Req.sameQuery (a b : Req) : Prop :=
  b.queryStart = a.queryStart ∧ b.queryLen = a.queryLen

section
variable (env : HttpEnv)

theorem respond_like (h : a.Like b) (st : Status) (hst : st ≠ .ok200) (blob : Blob) :
    (respond st blob a).view = (respond st blob b).view :=
  h.answer st (.static blob) fun hok => absurd hok hst

theorem respondClose_like (h : a.Like b) (st : Status) (hst : st ≠ .ok200) (blob : Blob) :
    (respondClose st blob a).view = (respondClose st blob b).view := by
  unfold respondClose
  exact respond_like (h.withFlags fun f => { f with close := true }) st hst blob

theorem httpMatchUri_like (hv : v.Like w) (h : a.Like b) (hc : a.Complete v.len) :
    httpMatchUri env w b = httpMatchUri env v a := by
  obtain ⟨hus, hul, _⟩ := h.uri hc.done
  have huri := hc.uri
  unfold httpMatchUri
  rw [hus, hul]
  refine congrArg (env.routes.find? ·) (funext fun rt => ?_)
  by_cases hlen : rt.path.length = a.parser.uriLen
  · rw [textAt_like hv (by omega)]
  · simp [hlen]

theorem dispatchRoute_like (hv : v.Like w) (h : a.Like b) (hc : a.Complete v.len)
    (hq : a.sameQuery b) : (dispatchRoute env v a).view = (dispatchRoute env w b).view := by
  have hbit : b.flags.methodBit = a.flags.methodBit := by rw [h.flags]
  unfold dispatchRoute
  rw [httpMatchUri_like env hv h hc, hbit]
  split
  · exact respond_like h .notFound404 nofun _
  split
  · exact respond_like h .method405 nofun _
  · exact h.answer .ok200 _ fun _ => hq

theorem bodyCheck_like (hv : v.Like w) (h : a.Like b) (hc : a.Complete v.len)
    (hq : a.sameQuery b) : (bodyCheck env v a).view = (bodyCheck env w b).view := by
  have hdispatch := dispatchRoute_like env hv h hc hq
  unfold bodyCheck
  rw [hv.len, h.parser.contentLen, (h.uri hc.done).2.2]
  split
  · exact hdispatch
  split
  · exact respondClose_like h .large413 nofun _
  split
  · simp only [Verdict.view, Req.view, Req.queried, h.parser.view, h.flags, h.recvTick, hq.1, hq.2]
    rfl
  · exact hdispatch

theorem findQuery_some {buf : Nat → Byte} {q : Nat} : ∀ {n pos : Nat},
    findQuery buf n pos = some q → q < pos + n
  | 0, _, h => by cases h
  | n + 1, pos, h => by
      rw [findQuery] at h
      split at h
      · cases h
        omega
      · have := findQuery_some h
        omega

theorem splitQuery_like (hv : v.Like w) (h : a.Like b) (hc : a.Complete v.len) :
    (splitQuery v.buf a).Like (splitQuery w.buf b) ∧ (splitQuery v.buf a).Complete v.len ∧
      (splitQuery v.buf a).sameQuery (splitQuery w.buf b) := by
  obtain ⟨hus, hul, _⟩ := h.uri hc.done
  have huri := hc.uri
  unfold splitQuery
  rw [hus, hul, findQuery_like hv _ _ (by omega)]
  cases hfind : findQuery v.buf a.parser.uriLen a.parser.uriStart with
  | none => exact ⟨{ h with }, ⟨hc.done, huri⟩, rfl, rfl⟩
  | some q =>
      have hlt := findQuery_some hfind
      refine ⟨{ h with parser := { h.parser with uriLen := fun _ => ?_, uriStart := fun _ => ?_ } },
        ⟨hc.done, ?_⟩, rfl, rfl⟩
      · exact hus
      · rfl
      · dsimp only
        omega

theorem hostOk_like (hv : v.Like w) (h : a.Like b) (hc : a.Complete v.len) :
    (hostOk env v a).view = (hostOk env w b).view := by
  have hflags : Req.Like
      { a with flags :=
        { a.flags with close := a.flags.close || a.parser.closeFound || !a.flags.http11 } }
      { b with flags :=
        { b.flags with close := b.flags.close || b.parser.closeFound || !b.flags.http11 } } :=
    { h with flags := by simp only [h.flags, h.parser.closeFound] }
  obtain ⟨hlike, hcomp, hquery⟩ := splitQuery_like hv hflags ⟨hc.done, hc.uri⟩
  unfold hostOk
  dsimp only
  rw [hlike.flags, hlike.parser.clSeen]
  split
  · exact respondClose_like hlike .length411 nofun _
  · exact bodyCheck_like env hv hlike hcomp hquery

theorem methodDone_like (hv : v.Like w) (h : a.Like b) (hc : a.Complete v.len) :
    (methodDone env v a).view = (methodDone env w b).view := by
  unfold methodDone
  rw [h.flags, h.parser.hostFound]
  split
  · exact respond_like h .bad400 nofun _
  · exact hostOk_like env hv h hc

theorem methodOf_like (hv : v.Like w) (hlen : 5 ≤ v.len) : methodOf w.buf = methodOf v.buf := by
  have hget : (ascii "GET ").length ≤ 5 := by decide
  have hhead : (ascii "HEAD ").length ≤ 5 := by decide
  have hpost : (ascii "POST ").length ≤ 5 := by decide
  unfold methodOf
  rw [textAt_like hv (by omega), textAt_like hv (by omega), textAt_like hv (by omega)]

theorem fsaDone_like (hv : v.Like w) (h : a.Like b) (hc : a.Complete v.len) :
    (fsaDone env v a).view = (fsaDone env w b).view := by
  obtain ⟨hus, hul, _⟩ := h.uri hc.done
  have huri := hc.uri
  have hhttp : (ascii "HTTP").length = 4 := by decide
  have hver : Req.Like
      { a with flags := { a.flags with http11 := a.flags.http11 || a.parser.verMinor = 0x31 } }
      { b with flags := { b.flags with http11 := b.flags.http11 || b.parser.verMinor = 0x31 } } :=
    { h with flags := by simp only [h.flags, h.parser.verMinor] }
  unfold fsaDone
  rw [hus, hul, textAt_like hv (by omega), methodOf_like hv (by omega)]
  split
  · dsimp only
    split
    · exact respond_like hver .method405 nofun _
    · exact methodDone_like env hv hver ⟨hc.done, huri⟩
    · exact methodDone_like env hv (hver.withFlags fun f => { f with head := true })
        ⟨hc.done, huri⟩
    · exact methodDone_like env hv (hver.withFlags fun f => { f with post := true })
        ⟨hc.done, huri⟩
  · exact respond_like h .bad400 nofun _

/-! Whole visits.  What stays in the record lies within the buffer again, and what is answered
was parsed to its end or will end the connection. -/

def Verdict.Within (n : Nat) : Verdict → Prop
  | .stay r => r.Within n
  | .close _ => True
  | .answer r _ => r.parser.state = .done ∨ r.flags.http11 = false

theorem dispatchRoute_within (n : Nat) (hd : a.parser.state = .done) :
    (dispatchRoute env v a).Within n := by
  unfold dispatchRoute
  split
  · exact .inl hd
  · split <;> exact .inl hd

theorem bodyCheck_within (h : a.parser.Within v.len) (hd : a.parser.state = .done) :
    (bodyCheck env v a).Within v.len := by
  unfold bodyCheck
  split
  · exact dispatchRoute_within env _ hd
  split
  · exact .inl hd
  split
  · exact ⟨h, fun _ => hd, fun hne => absurd rfl hne, nofun⟩
  · exact dispatchRoute_within env _ hd

theorem splitQuery_within (h : a.parser.Within v.len) (hd : a.parser.state = .done) :
    (splitQuery v.buf a).parser.Within v.len ∧ (splitQuery v.buf a).parser.state = .done := by
  unfold splitQuery
  split
  · exact ⟨h, hd⟩
  next q hfind =>
    have hlt := findQuery_some hfind
    have huri := h.uri (by rw [hd]; rfl)
    refine ⟨⟨h.off, fun hu => absurd (hd.symm.trans hu) nofun, fun _ => ?_⟩, hd⟩
    dsimp only
    omega

theorem methodDone_within (h : a.parser.Within v.len) (hd : a.parser.state = .done) :
    (methodDone env v a).Within v.len := by
  unfold methodDone
  split
  · exact .inl hd
  · obtain ⟨h', hd'⟩ := splitQuery_within (v := v) (a := { a with flags := { a.flags with
      close := a.flags.close || a.parser.closeFound || !a.flags.http11 } }) h hd
    unfold hostOk
    dsimp only
    split
    · exact .inl hd'
    · exact bodyCheck_within env h' hd'

theorem fsaDone_within (h : a.parser.Within v.len) (hd : a.parser.state = .done) :
    (fsaDone env v a).Within v.len := by
  unfold fsaDone
  split
  · dsimp only
    split
    · exact .inl hd
    · exact methodDone_within env h hd
    · exact methodDone_within env h hd
    · exact methodDone_within env h hd
  · exact .inl hd

theorem Req.Like.view (h : a.Like b) (hst : a.state = .recvHdr) : a.view = b.view := by
  simp only [Req.view, Req.queried, h.parser.view, h.state, h.flags, h.recvTick, hst]
  rfl

theorem reset_view (h : a.parser.Like b.parser) : a.reset.view = b.reset.view := by
  have hp : Parser.Like { a.parser with contentLen := 0, clSeen := false }
      { b.parser with contentLen := 0, clSeen := false } :=
    { h with contentLen := rfl, clSeen := rfl }
  simp only [Req.reset, Req.view, Req.queried, hp.view]
  rfl

theorem tryParse_like (hv : v.Like w) (hlen : v.len < 65536) (h : a.Like b)
    (hw : a.parser.Within v.len) (hst : a.state = .recvHdr) (hver : a.flags.http11 = false) :
    (tryParse env v a).view = (tryParse env w b).view ∧ (tryParse env v a).Within v.len := by
  have hparse : Req.Like { a with parser := httpParseRequest v.buf v.len a.parser }
      { b with parser := httpParseRequest w.buf w.len b.parser } := by
    rw [hv.len, httpParseRequest_congr hv.buf b.parser]
    exact { h with parser := httpParseRequest_like h.parser }
  have hin : (httpParseRequest v.buf v.len a.parser).Within v.len :=
    httpParseRequest_within hlen hw
  have htime : timedOut env w b = timedOut env v a := by
    unfold timedOut
    rw [hv.now, h.recvTick]
  have hreset : (Verdict.close a.reset).view = (Verdict.close b.reset).view :=
    congrArg Verdict.close (reset_view h.parser)
  have hkeep : ∀ {p : Parser}, p.Within v.len → Req.Within v.len { a with parser := p } :=
    fun hp => ⟨hp, fun hb => absurd (hst.symm.trans hb) nofun, fun _ => hver,
      fun hs => absurd (hst.symm.trans hs) nofun⟩
  unfold tryParse
  rw [htime, hv.len]
  split
  · exact ⟨hreset, trivial⟩
  split
  · exact ⟨congrArg Verdict.stay (h.view hst), hkeep hw⟩
  next hpos =>
    have hfirst : firstByteOk w b = firstByteOk v a := by
      unfold firstByteOk
      rw [h.parser.off, hv.buf 0 (by omega)]
    rw [hfirst]
    rw [hv.len] at hparse
    split
    · dsimp only
      have hsame : (httpParseRequest w.buf v.len b.parser).state
          = (httpParseRequest v.buf v.len a.parser).state := hparse.parser.state
      rw [hsame]
      cases hd : (httpParseRequest v.buf v.len a.parser).state with
      | done => exact ⟨fsaDone_like env hv hparse (Req.Within.complete hin hd),
          fsaDone_within env hin hd⟩
      | error => exact ⟨respond_like hparse .bad400 nofun _, .inr hver⟩
      | _ => exact ⟨congrArg Verdict.stay (hparse.view hst), hkeep hin⟩
    · exact ⟨hreset, trivial⟩

theorem resumeBody_like (hv : v.Like w) (h : a.Like b) (hq : a.sameQuery b)
    (hw : a.parser.Within v.len) (hst : a.state = .recvBody) (hd : a.parser.state = .done) :
    (resumeBody env v a).view = (resumeBody env w b).view ∧
      (resumeBody env v a).Within v.len := by
  have htime : timedOut env w b = timedOut env v a := by
    unfold timedOut
    rw [hv.now, h.recvTick]
  unfold resumeBody
  rw [htime, hv.len]
  split
  · exact ⟨congrArg Verdict.close (reset_view h.parser), trivial⟩
  split
  · refine ⟨congrArg Verdict.stay ?_, ⟨hw, fun _ => hd, fun hne => absurd hst hne,
      fun hs => absurd (hst.symm.trans hs) nofun⟩⟩
    simp only [Req.view, Req.queried, h.parser.view, h.state, h.flags, h.recvTick, hst, hq.1, hq.2]
    rfl
  · exact ⟨bodyCheck_like env hv h (Req.Within.complete hw hd) hq, bodyCheck_within env hw hd⟩

theorem Req.of_view (h : a.view = b.view) :
    b.state = a.state ∧ b.flags = a.flags ∧ a.parser.Like b.parser ∧
      (a.state ≠ .idle → b.recvTick = a.recvTick) ∧ (a.state = .recvBody → a.sameQuery b) := by
  have hst : b.state = a.state := (congrArg Req.state h).symm
  have htick : a.view.recvTick = b.view.recvTick := congrArg Req.recvTick h
  have hqs : a.view.queryStart = b.view.queryStart := congrArg Req.queryStart h
  have hql : a.view.queryLen = b.view.queryLen := congrArg Req.queryLen h
  refine ⟨hst, (congrArg Req.flags h).symm, .of_view (congrArg Req.parser h), fun hne => ?_,
    fun hbody => ?_⟩
  · simp only [Req.view, hst, if_neg hne] at htick
    exact htick.symm
  · have hqa : a.queried = true := by simp [Req.queried, hbody]
    have hqb : b.queried = true := by simp [Req.queried, hst, hbody]
    simp only [Req.view, hqa, hqb, if_true] at hqs hql
    exact ⟨hqs.symm, hql.symm⟩

/-- **A visit of an ESTABLISHED connection** reads the view of its record and the buffered
bytes. -/
theorem pollSlot_view (hv : v.Like w) (hest : v.tcp = .established) (hlen : v.len < 65536)
    (h : a.view = b.view) (hw : a.Within v.len) :
    (pollSlot env v a).view = (pollSlot env w b).view ∧ (pollSlot env v a).Within v.len := by
  obtain ⟨hstate, hflags, hparser, htick, hquery⟩ := Req.of_view h
  have hlike : a.state ≠ .idle → a.Like b := fun hne => ⟨hstate, hflags, htick hne, hparser⟩
  unfold pollSlot
  rw [if_pos hest, if_pos (hv.tcp.trans hest), hstate, hv.start]
  cases hs : a.state with
  | idle =>
      exact tryParse_like env hv hlen ⟨rfl, hflags, rfl, hparser⟩ hw.parser rfl
        (hw.version (by rw [hs]; nofun))
  | recvHdr =>
      exact tryParse_like env hv hlen (hlike (by rw [hs]; nofun)) hw.parser hs
        (hw.version (by rw [hs]; nofun))
  | sending => exact absurd hs hw.free
  | recvBody =>
      exact resumeBody_like env hv (hlike (by rw [hs]; nofun)) (hquery hs) hw.parser hs (hw.body hs)

end

end

end WsPi5

/-
# `WsPi5.Http.Grammar` — the requests that the parser is for

A request head is a request line, fields and an empty line:

    letters* SP uri SP letter{4} "/" digit "." digit CR LF
    (name ":" value CR LF)*
    CR LF

A URI is not empty and has no SP, CR or LF.  A name starts with a letter and has no SP, CR, LF or
colon; a value has no CR or LF; and at most one field is a Content-Length.

`RequestHead` is what is read off a head, `bytes` the head that is written from it, `Valid` the
grammar.  A parser in one of its states has read a part of a head: `Draft` holds what was read so
far, `text` is how it was written, and `Ok` what of the grammar is settled in that state.

**Proved here** (`Draft.completes`): whatever is settled, some bytes complete the head.  So a parser
that keeps a draft has not gone wrong yet.
-/
import WsPi5.Http.Parse
import WsPi5.Lib.Utf8

namespace WsPi5

open Lib

/-! ## Bytes -/

def IsLetter (b : Byte) : Prop := (0x41 ≤ b ∧ b ≤ 0x5A) ∨ (0x61 ≤ b ∧ b ≤ 0x7A)

def IsDecDigit (b : Byte) : Prop := 0x30 ≤ b ∧ b ≤ 0x39

def InUri (b : Byte) : Prop := b ≠ 0x20 ∧ b ≠ 0x0D ∧ b ≠ 0x0A

def InName (b : Byte) : Prop := InUri b ∧ b ≠ 0x3A

def InValue (b : Byte) : Prop := b ≠ 0x0D ∧ b ≠ 0x0A

instance (b : Byte) : Decidable (IsLetter b) := inferInstanceAs (Decidable (_ ∨ _))
instance (b : Byte) : Decidable (IsDecDigit b) := inferInstanceAs (Decidable (_ ∧ _))
instance (b : Byte) : Decidable (InUri b) := inferInstanceAs (Decidable (_ ∧ _))
instance (b : Byte) : Decidable (InName b) := inferInstanceAs (Decidable (_ ∧ _))
instance (b : Byte) : Decidable (InValue b) := inferInstanceAs (Decidable (_ ∧ _))

/-- `A` to `Z` as `a` to `z`. -/
def lowerByte (b : Byte) : Byte := if 0x41 ≤ b ∧ b ≤ 0x5A then b + 0x20 else b

def isName (ref name : List Byte) : Bool := name.map lowerByte = ref

/-! ## Heads -/

/-- What a request head says. -/
structure RequestHead where
  method : List Byte := []
  uri : List Byte := []
  version : List Byte := []
  major : Byte := 0x30
  minor : Byte := 0x30
  /-- name and value -/
  fields : List (List Byte × List Byte) := []
  deriving DecidableEq

def fieldBytes (f : List Byte × List Byte) : List Byte := f.1 ++ 0x3A :: (f.2 ++ [0x0D, 0x0A])

namespace RequestHead

/-- The request line up to the version, and what follows it. -/
def upTo (h : RequestHead) (rest : List Byte) : List Byte :=
  h.method ++ 0x20 :: (h.uri ++ 0x20 :: (h.version ++ rest))

def line (h : RequestHead) : List Byte := h.upTo [0x2F, h.major, 0x2E, h.minor, 0x0D, 0x0A]

def lines (h : RequestHead) : List Byte := h.line ++ h.fields.flatMap fieldBytes

def bytes (h : RequestHead) : List Byte := h.lines ++ [0x0D, 0x0A]

def lengths (h : RequestHead) : List (List Byte × List Byte) :=
  h.fields.filter fun f => isName contentLengthName f.1

end RequestHead

/-- The grammar of a field. -/
structure FieldValid (f : List Byte × List Byte) : Prop where
  start : ∃ c cs, f.1 = c :: cs ∧ IsLetter c
  name : ∀ b ∈ f.1, InName b
  value : ∀ b ∈ f.2, InValue b

def RequestHead.MethodOk (h : RequestHead) : Prop := ∀ b ∈ h.method, IsLetter b

/-- The URI. -/
def RequestHead.UriOk (h : RequestHead) : Prop := h.uri ≠ [] ∧ ∀ b ∈ h.uri, InUri b

/-- `n` letters of the protocol name. -/
def RequestHead.VersionOk (h : RequestHead) (n : Nat) : Prop :=
  h.version.length = n ∧ ∀ b ∈ h.version, IsLetter b

/-- The grammar. -/
structure RequestHead.Valid (h : RequestHead) : Prop where
  method : h.MethodOk
  uri : h.UriOk
  version : h.VersionOk 4
  major : IsDecDigit h.major
  minor : IsDecDigit h.minor
  fields : ∀ f ∈ h.fields, FieldValid f
  once : h.lengths.length ≤ 1

/-! ## Parts of a head -/

/-- The head as far as it was read, and the field that is being read. -/
structure Draft where
  head : RequestHead := {}
  name : List Byte := []
  value : List Byte := []

/-- The name is not that of a second Content-Length. -/
def Draft.NoSecond (d : Draft) : Prop :=
  isName contentLengthName d.name = true → d.head.lengths = []

/-- How the draft was written, in each state of the parser. -/
def Draft.text (d : Draft) : ParseState → List Byte
  | .method => d.head.method
  | .mSp => d.head.method ++ [0x20]
  | .uri => d.head.method ++ 0x20 :: d.head.uri
  | .uSp | .vh | .vt1 | .vt2 | .vp => d.head.upTo []
  | .vslash => d.head.upTo [0x2F]
  | .vmaj => d.head.upTo [0x2F, d.head.major]
  | .vdot => d.head.upTo [0x2F, d.head.major, 0x2E]
  | .vmin => d.head.upTo [0x2F, d.head.major, 0x2E, d.head.minor]
  | .rlCr => d.head.upTo [0x2F, d.head.major, 0x2E, d.head.minor, 0x0D]
  | .hdrSt => d.head.lines
  | .hdrNm => d.head.lines ++ d.name
  | .hdrVl => d.head.lines ++ (d.name ++ 0x3A :: d.value)
  | .hdrCr => d.head.lines ++ (d.name ++ 0x3A :: (d.value ++ [0x0D]))
  | .endCr => d.head.lines ++ [0x0D]
  | .done => d.head.bytes
  | .error => []

/-- What of the grammar is settled, in each state of the parser. -/
def Draft.Ok (d : Draft) : ParseState → Prop
  | .method | .mSp => d.head.MethodOk
  | .uri => d.head.MethodOk ∧ d.head.UriOk
  | .uSp => d.head.MethodOk ∧ d.head.UriOk ∧ d.head.VersionOk 0
  | .vh => d.head.MethodOk ∧ d.head.UriOk ∧ d.head.VersionOk 1
  | .vt1 => d.head.MethodOk ∧ d.head.UriOk ∧ d.head.VersionOk 2
  | .vt2 => d.head.MethodOk ∧ d.head.UriOk ∧ d.head.VersionOk 3
  | .vp | .vslash => d.head.MethodOk ∧ d.head.UriOk ∧ d.head.VersionOk 4
  | .vmaj | .vdot =>
      d.head.MethodOk ∧ d.head.UriOk ∧ d.head.VersionOk 4 ∧ IsDecDigit d.head.major
  | .vmin | .rlCr =>
      d.head.MethodOk ∧ d.head.UriOk ∧ d.head.VersionOk 4 ∧ IsDecDigit d.head.major ∧
        IsDecDigit d.head.minor
  | .hdrSt | .endCr | .done => d.head.Valid
  | .hdrNm => d.head.Valid ∧ FieldValid (d.name, [])
  | .hdrVl | .hdrCr => d.head.Valid ∧ FieldValid (d.name, d.value) ∧ d.NoSecond
  | .error => False

/-! ## One byte more -/

section
variable {d : Draft} {b : Byte}

/-- A draft, and the draft after a byte. -/
structure Draft.Grows (d : Draft) (s : ParseState) (b : Byte) (d' : Draft) (s' : ParseState) :
    Prop where
  ok : d'.Ok s'
  text : d'.text s' = d.text s ++ [b]

theorem upTo_snoc (h : RequestHead) (rest : List Byte) (b : Byte) :
    h.upTo rest ++ [b] = h.upTo (rest ++ [b]) := by
  simp [RequestHead.upTo]

theorem forall_mem_snoc {P : Byte → Prop} {xs : List Byte} (h : ∀ x ∈ xs, P x) (hb : P b) :
    ∀ x ∈ xs ++ [b], P x := by
  intro x hx
  rcases List.mem_append.mp hx with hx | hx
  · exact h x hx
  · rw [List.mem_singleton.mp hx]
    exact hb

theorem Draft.method_letter (h : d.Ok .method) (hb : IsLetter b) :
    d.Grows .method b { d with head := { d.head with method := d.head.method ++ [b] } } .method :=
  ⟨forall_mem_snoc h hb, rfl⟩

theorem Draft.method_sp (h : d.Ok .method) : d.Grows .method 0x20 d .mSp := ⟨h, rfl⟩

theorem Draft.uri_first (h : d.Ok .mSp) (hb : InUri b) :
    d.Grows .mSp b { d with head := { d.head with uri := [b] } } .uri where
  ok := ⟨h, List.cons_ne_nil b [], fun _ hx => (List.mem_singleton.mp hx) ▸ hb⟩
  text := by simp [Draft.text]

theorem Draft.uri_more (h : d.Ok .uri) (hb : InUri b) :
    d.Grows .uri b { d with head := { d.head with uri := d.head.uri ++ [b] } } .uri where
  ok := ⟨h.1, by simp, forall_mem_snoc h.2.2 hb⟩
  text := by simp [Draft.text]

theorem Draft.uri_sp (h : d.Ok .uri) :
    d.Grows .uri 0x20 { d with head := { d.head with version := [] } } .uSp where
  ok := ⟨h.1, h.2, rfl, fun _ hx => nomatch hx⟩
  text := by simp [Draft.text, RequestHead.upTo]

theorem versionOk_snoc {h : RequestHead} {n : Nat} (hv : h.VersionOk n) (hb : IsLetter b) :
    RequestHead.VersionOk { h with version := h.version ++ [b] } (n + 1) :=
  ⟨by rw [List.length_append, hv.1, List.length_singleton], forall_mem_snoc hv.2 hb⟩

theorem upTo_version (h : RequestHead) (b : Byte) :
    RequestHead.upTo { h with version := h.version ++ [b] } [] = h.upTo [] ++ [b] := by
  simp [RequestHead.upTo]

theorem Draft.version_letter {s t : ParseState} {n : Nat} (h : d.Ok s) (hb : IsLetter b)
    (hs : d.Ok s = (d.head.MethodOk ∧ d.head.UriOk ∧ d.head.VersionOk n))
    (ht : ∀ d' : Draft, d'.Ok t = (d'.head.MethodOk ∧ d'.head.UriOk ∧ d'.head.VersionOk (n + 1)))
    (hfrom : d.text s = d.head.upTo []) (hto : ∀ d' : Draft, d'.text t = d'.head.upTo []) :
    d.Grows s b { d with head := { d.head with version := d.head.version ++ [b] } } t where
  ok := by
    rw [hs] at h
    rw [ht]
    exact ⟨h.1, h.2.1, versionOk_snoc h.2.2 hb⟩
  text := by
    rw [hfrom, hto]
    exact upTo_version d.head b

theorem Draft.slash (h : d.Ok .vp) : d.Grows .vp 0x2F d .vslash where
  ok := h
  text := (upTo_snoc d.head [] 0x2F).symm

theorem Draft.major_digit (h : d.Ok .vslash) (hb : IsDecDigit b) :
    d.Grows .vslash b { d with head := { d.head with major := b } } .vmaj where
  ok := ⟨h.1, h.2.1, h.2.2, hb⟩
  text := (upTo_snoc d.head [0x2F] b).symm

theorem Draft.dot (h : d.Ok .vmaj) : d.Grows .vmaj 0x2E d .vdot where
  ok := h
  text := (upTo_snoc d.head [0x2F, d.head.major] 0x2E).symm

theorem Draft.minor_digit (h : d.Ok .vdot) (hb : IsDecDigit b) :
    d.Grows .vdot b { d with head := { d.head with minor := b } } .vmin where
  ok := ⟨h.1, h.2.1, h.2.2.1, h.2.2.2, hb⟩
  text := (upTo_snoc d.head [0x2F, d.head.major, 0x2E] b).symm

theorem Draft.line_cr (h : d.Ok .vmin) : d.Grows .vmin 0x0D d .rlCr where
  ok := h
  text := (upTo_snoc d.head [0x2F, d.head.major, 0x2E, d.head.minor] 0x0D).symm

theorem Draft.line_lf (h : d.Ok .rlCr) :
    d.Grows .rlCr 0x0A { d with head := { d.head with fields := [] } } .hdrSt where
  ok := ⟨h.1, h.2.1, h.2.2.1, h.2.2.2.1, h.2.2.2.2, fun _ hf => (nomatch hf), Nat.zero_le 1⟩
  text := (List.append_nil _).trans
    (upTo_snoc d.head [0x2F, d.head.major, 0x2E, d.head.minor, 0x0D] 0x0A).symm

theorem letter_inName (hb : IsLetter b) : InName b := by
  refine ⟨⟨?_, ?_, ?_⟩, ?_⟩ <;> (rintro rfl; exact absurd hb (by decide))

theorem Draft.name_first (h : d.Ok .hdrSt) (hb : IsLetter b) :
    d.Grows .hdrSt b { d with name := [b] } .hdrNm where
  ok := ⟨h, ⟨b, [], rfl, hb⟩, fun _ hx => (List.mem_singleton.mp hx) ▸ letter_inName hb,
    fun _ hx => nomatch hx⟩
  text := rfl

theorem Draft.name_more (h : d.Ok .hdrNm) (hb : InName b) :
    d.Grows .hdrNm b { d with name := d.name ++ [b] } .hdrNm where
  ok := by
    obtain ⟨hhead, ⟨c, cs, hc, hletter⟩, hname, -⟩ := h
    exact ⟨hhead, ⟨c, cs ++ [b], by rw [show d.name = c :: cs from hc]; rfl, hletter⟩,
      forall_mem_snoc hname hb, fun _ hx => nomatch hx⟩
  text := by simp [Draft.text]

theorem Draft.colon (h : d.Ok .hdrNm) (hno : d.NoSecond) :
    d.Grows .hdrNm 0x3A { d with value := [] } .hdrVl where
  ok := ⟨h.1, h.2, hno⟩
  text := by simp [Draft.text]

theorem Draft.value_more (h : d.Ok .hdrVl) (hb : InValue b) :
    d.Grows .hdrVl b { d with value := d.value ++ [b] } .hdrVl where
  ok := ⟨h.1, ⟨h.2.1.start, h.2.1.name, forall_mem_snoc h.2.1.value hb⟩, h.2.2⟩
  text := by simp [Draft.text]

theorem Draft.value_cr (h : d.Ok .hdrVl) : d.Grows .hdrVl 0x0D d .hdrCr where
  ok := h
  text := by simp [Draft.text]

theorem lengths_snoc (h : RequestHead) (f : List Byte × List Byte) :
    RequestHead.lengths { h with fields := h.fields ++ [f] }
      = h.lengths ++ if isName contentLengthName f.1 then [f] else [] := by
  rw [RequestHead.lengths, List.filter_append, RequestHead.lengths]
  cases hf : isName contentLengthName f.1 <;> simp [hf]

theorem Draft.value_lf (h : d.Ok .hdrCr) : d.Grows .hdrCr 0x0A
    { d with head := { d.head with fields := d.head.fields ++ [(d.name, d.value)] } } .hdrSt where
  ok := by
    obtain ⟨hhead, hfield, hno⟩ := h
    refine ⟨hhead.method, hhead.uri, hhead.version, hhead.major, hhead.minor, ?_, ?_⟩
    · intro f hf
      rcases List.mem_append.mp hf with hf | hf
      · exact hhead.fields f hf
      · rw [List.mem_singleton.mp hf]
        exact hfield
    · rw [lengths_snoc]
      have honce := hhead.once
      cases hname : isName contentLengthName d.name with
      | true =>
          rw [hno hname]
          exact Nat.le_refl 1
      | false => simpa [hname] using honce
  text := by simp [Draft.text, RequestHead.lines, RequestHead.line, RequestHead.upTo, fieldBytes]

theorem Draft.end_cr (h : d.Ok .hdrSt) : d.Grows .hdrSt 0x0D d .endCr := ⟨h, rfl⟩

theorem Draft.end_lf (h : d.Ok .endCr) : d.Grows .endCr 0x0A d .done where
  ok := h
  text := by simp [Draft.text, RequestHead.bytes]

end

/-! ## Every draft can be completed -/

def Draft.Completes (d : Draft) (s : ParseState) : Prop :=
  ∃ h ext, RequestHead.Valid h ∧ h.bytes = d.text s ++ ext

theorem Draft.Grows.completes {d d' : Draft} {s s' : ParseState} {b : Byte}
    (hg : d.Grows s b d' s') (h : d'.Completes s') : d.Completes s := by
  obtain ⟨head, ext, hvalid, hbytes⟩ := h
  exact ⟨head, b :: ext, hvalid, by rw [hbytes, hg.text, List.append_assoc]; rfl⟩

theorem not_contentLength (name : List Byte) :
    isName contentLengthName (name ++ [0x78]) = false := by
  rw [isName, List.map_append]
  refine decide_eq_false fun h => ?_
  have hlast := congrArg List.getLast? h
  rw [List.map_singleton, List.getLast?_concat] at hlast
  exact absurd hlast (by decide)

/-- **Every draft** is part of a head: by state, from the end of the head to its start. -/
theorem Draft.completes {s : ParseState} {d : Draft} (h : d.Ok s) : d.Completes s := by
  have done : ∀ {d : Draft}, d.Ok .done → d.Completes .done := fun {d} h =>
    ⟨d.head, [], h, (List.append_nil _).symm⟩
  have endCr : ∀ {d : Draft}, d.Ok .endCr → d.Completes .endCr := fun h =>
    (end_lf h).completes (done (end_lf h).ok)
  have hdrSt : ∀ {d : Draft}, d.Ok .hdrSt → d.Completes .hdrSt := fun h =>
    (end_cr h).completes (endCr (end_cr h).ok)
  have hdrCr : ∀ {d : Draft}, d.Ok .hdrCr → d.Completes .hdrCr := fun h =>
    (value_lf h).completes (hdrSt (value_lf h).ok)
  have hdrVl : ∀ {d : Draft}, d.Ok .hdrVl → d.Completes .hdrVl := fun h =>
    (value_cr h).completes (hdrCr (value_cr h).ok)
  have hdrNm : ∀ {d : Draft}, d.Ok .hdrNm → d.Completes .hdrNm := by
    intro d h
    have hx : d.Grows .hdrNm 0x78 _ .hdrNm := name_more h (by decide)
    have hno : isName contentLengthName (d.name ++ [0x78]) = false := not_contentLength d.name
    have hcolon := colon hx.ok fun hcl => absurd (hno.symm.trans hcl) Bool.false_ne_true
    exact hx.completes (hcolon.completes (hdrVl hcolon.ok))
  have rlCr : ∀ {d : Draft}, d.Ok .rlCr → d.Completes .rlCr := fun h =>
    (line_lf h).completes (hdrSt (line_lf h).ok)
  have vmin : ∀ {d : Draft}, d.Ok .vmin → d.Completes .vmin := fun h =>
    (line_cr h).completes (rlCr (line_cr h).ok)
  have vdot : ∀ {d : Draft}, d.Ok .vdot → d.Completes .vdot := fun h =>
    have hg := minor_digit h (show IsDecDigit 0x31 by decide)
    hg.completes (vmin hg.ok)
  have vmaj : ∀ {d : Draft}, d.Ok .vmaj → d.Completes .vmaj := fun h =>
    (dot h).completes (vdot (dot h).ok)
  have vslash : ∀ {d : Draft}, d.Ok .vslash → d.Completes .vslash := fun h =>
    have hg := major_digit h (show IsDecDigit 0x31 by decide)
    hg.completes (vmaj hg.ok)
  have vp : ∀ {d : Draft}, d.Ok .vp → d.Completes .vp := fun h =>
    (slash h).completes (vslash (slash h).ok)
  have vt2 : ∀ {d : Draft}, d.Ok .vt2 → d.Completes .vt2 := fun h =>
    have hg := version_letter (t := .vp) h (show IsLetter 0x50 by decide) rfl (fun _ => rfl) rfl
      fun _ => rfl
    hg.completes (vp hg.ok)
  have vt1 : ∀ {d : Draft}, d.Ok .vt1 → d.Completes .vt1 := fun h =>
    have hg := version_letter (t := .vt2) h (show IsLetter 0x54 by decide) rfl (fun _ => rfl) rfl
      fun _ => rfl
    hg.completes (vt2 hg.ok)
  have vh : ∀ {d : Draft}, d.Ok .vh → d.Completes .vh := fun h =>
    have hg := version_letter (t := .vt1) h (show IsLetter 0x54 by decide) rfl (fun _ => rfl) rfl
      fun _ => rfl
    hg.completes (vt1 hg.ok)
  have uSp : ∀ {d : Draft}, d.Ok .uSp → d.Completes .uSp := fun h =>
    have hg := version_letter (t := .vh) h (show IsLetter 0x48 by decide) rfl (fun _ => rfl) rfl
      fun _ => rfl
    hg.completes (vh hg.ok)
  have uri : ∀ {d : Draft}, d.Ok .uri → d.Completes .uri := fun h =>
    (uri_sp h).completes (uSp (uri_sp h).ok)
  have mSp : ∀ {d : Draft}, d.Ok .mSp → d.Completes .mSp := fun h =>
    have hg := uri_first h (show InUri 0x2F by decide)
    hg.completes (uri hg.ok)
  have method : ∀ {d : Draft}, d.Ok .method → d.Completes .method := fun h =>
    (method_sp h).completes (mSp (method_sp h).ok)
  cases s with
  | method => exact method h
  | mSp => exact mSp h
  | uri => exact uri h
  | uSp => exact uSp h
  | vh => exact vh h
  | vt1 => exact vt1 h
  | vt2 => exact vt2 h
  | vp => exact vp h
  | vslash => exact vslash h
  | vmaj => exact vmaj h
  | vdot => exact vdot h
  | vmin => exact vmin h
  | rlCr => exact rlCr h
  | hdrSt => exact hdrSt h
  | hdrNm => exact hdrNm h
  | hdrVl => exact hdrVl h
  | hdrCr => exact hdrCr h
  | endCr => exact endCr h
  | done => exact done h
  | error => exact h.elim

end WsPi5

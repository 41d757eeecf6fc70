/-
# `WsPi5.Http.HeadRun` — the parser over a head of the grammar

One call of `http_parse_request` on a buffer that begins with a head of the grammar, from a record
that was reset: state S_METHOD, offset 0, no Host and no Content-Length seen, anything in the
fields that the parser writes before it is done.

    request line     URI_START, URI_LEN, VER_MINOR
    a field          HOST_FOUND if it is a Host; CONTENT_LEN and CL_SEEN if it is a Content-Length
    empty line       REQ_LEN, S_DONE

The value of a Content-Length is looked up in the buffer when the parser is at the colon.  What it
finds there depends on the value alone (`clValue`): the spaces in front are skipped, and digits are
taken until something else comes or the number is above the limit.

**Proved here** (`head_parsed`): the parser is done at the end of the head, with the parts of the
head in the record.
-/
import Mathlib.Logic.Function.Iterate
import WsPi5.Http.Grammar
import WsPi5.Http.ParseSplit
import WsPi5.Lib.Region

namespace WsPi5

open Lib

/-- The buffer has these bytes from `off` on. -/
def BufHolds (buf : Nat → Byte) (off : Nat) (bs : List Byte) : Prop :=
  Stands (fun k => some (buf k)) off bs

section
variable {buf : Nat → Byte} {off : Nat} {b : Byte} {bs cs : List Byte}

theorem BufHolds.head (h : BufHolds buf off (b :: bs)) : buf off = b :=
  Option.some.inj (Stands.head h)

theorem BufHolds.tail (h : BufHolds buf off (b :: bs)) : BufHolds buf (off + 1) bs := Stands.tail h

theorem BufHolds.left (h : BufHolds buf off (bs ++ cs)) : BufHolds buf off bs := Stands.left h

theorem BufHolds.right (h : BufHolds buf off (bs ++ cs)) : BufHolds buf (off + bs.length) cs :=
  Stands.right h

end

theorem bytesOf_holds (l : List Byte) : BufHolds (bytesOf l) 0 l := by
  intro k hk
  show some (l.getD (0 + k) 0) = _
  rw [Nat.zero_add, List.getD_eq_getElem?_getD, List.getElem?_eq_getElem hk, Option.getD_some]

/-! ## Values -/

/-- The digits in front, up to a number above the limit. -/
def capDigits : List Byte → Nat → Nat
  | [], acc => acc
  | b :: bs, acc =>
      if IsDecDigit b then
        let acc' := acc * 10 + (b - 0x30).toNat
        if httpMaxRecvBody < acc' then acc' else capDigits bs acc'
      else acc

/-- What the parser reads of the value of a Content-Length. -/
def clValue (v : List Byte) : Nat := capDigits (v.dropWhile (· = 0x20)) 0

section
variable {buf : Nat → Byte}

theorem skipSp_holds : ∀ {v : List Byte} {n pos : Nat} {c : Byte}, BufHolds buf pos (v ++ [c]) →
    c ≠ 0x20 → v.length + 1 ≤ n →
    skipSp buf n pos = pos + (v.takeWhile fun b => decide (b = 0x20)).length := by
  intro v
  induction v with
  | nil =>
      intro n pos c h hc hn
      obtain ⟨n, rfl⟩ : ∃ k, n = k + 1 := ⟨n - 1, by omega⟩
      have hhead : buf pos = c := BufHolds.head h
      rw [skipSp, hhead, if_neg hc]
      rfl
  | cons b v ih =>
      intro n pos c h hc hn
      rw [List.length_cons] at hn
      obtain ⟨n, rfl⟩ : ∃ k, n = k + 1 := ⟨n - 1, by omega⟩
      have hhead : buf pos = b := BufHolds.head h
      rw [skipSp, hhead]
      by_cases hb : b = 0x20
      · rw [if_pos hb, ih (BufHolds.tail h) hc (by omega),
          List.takeWhile_cons_of_pos (by simpa using hb), List.length_cons]
        omega
      · rw [if_neg hb, List.takeWhile_cons_of_neg (by simpa using hb)]
        rfl

theorem clDigits_holds : ∀ {v : List Byte} {n pos acc : Nat} {c : Byte},
    BufHolds buf pos (v ++ [c]) → ¬ IsDecDigit c → v.length + 1 ≤ n →
    clDigits buf n pos acc = capDigits v acc := by
  intro v
  induction v with
  | nil =>
      intro n pos acc c h hc hn
      obtain ⟨n, rfl⟩ : ∃ k, n = k + 1 := ⟨n - 1, by omega⟩
      have hhead : buf pos = c := BufHolds.head h
      rw [clDigits, hhead]
      exact if_neg hc
  | cons b v ih =>
      intro n pos acc c h hc hn
      rw [List.length_cons] at hn
      obtain ⟨n, rfl⟩ : ∃ k, n = k + 1 := ⟨n - 1, by omega⟩
      have hhead : buf pos = b := BufHolds.head h
      rw [clDigits, hhead, capDigits]
      dsimp only
      rw [ih (BufHolds.tail h) hc (by omega)]
      rfl

theorem lookCl_holds {v : List Byte} {len off : Nat} (h : BufHolds buf (off + 1) (v ++ [0x0D]))
    (hlen : off + 1 + v.length + 1 ≤ len) : lookCl buf len off = some (clValue v) := by
  have hparts : v.takeWhile (· = 0x20) ++ v.dropWhile (· = 0x20) = v :=
    List.takeWhile_append_dropWhile
  have hcount := congrArg List.length hparts
  rw [List.length_append] at hcount
  have hstart : valueStart buf len off = off + 1 + (v.takeWhile (· = 0x20)).length :=
    skipSp_holds h (by decide) (by omega)
  have hrest : BufHolds buf (off + 1 + (v.takeWhile (· = 0x20)).length)
      (v.dropWhile (· = 0x20) ++ [0x0D]) := by
    rw [← hparts, List.append_assoc] at h
    exact h.right
  rw [lookCl, hstart, if_pos (by omega), clDigits_holds hrest (by decide) (by omega)]
  rfl

end

/-! ## Names -/

/-- The letters of the names that the parser knows. -/
def nameLetters : List Byte := 0x2D :: (List.range 26).map fun k => UInt8.ofNat (0x61 + k)

theorem nameLetters_range {c : Byte} (hc : c ∈ nameLetters) : c = 0x2D ∨ (0x61 ≤ c ∧ c ≤ 0x7A) :=
  list_all (p := fun c => c = 0x2D ∨ (0x61 ≤ c ∧ c ≤ 0x7A)) (l := nameLetters) (by decide +kernel)
    c hc

theorem known_letters {ref : List Byte} (h : ref ∈ [hostName, connName, contentLengthName]) :
    ∀ c ∈ ref, c ∈ nameLetters :=
  list_all (p := fun ref => ∀ c ∈ ref, c ∈ nameLetters)
    (l := [hostName, connName, contentLengthName]) (by decide +kernel) ref h

theorem orLower_iff {b c : Byte} (hb : InName b) (hc : c ∈ nameLetters) :
    ((b ||| 0x20) = c) ↔ lowerByte b = c := by
  have hall := byte_all (p := fun b => InName b → (b ||| 0x20) = lowerByte b ∨
    (¬ ((b ||| 0x20) = 0x2D ∨ (0x61 ≤ (b ||| 0x20) ∧ (b ||| 0x20) ≤ 0x7A)) ∧
      ¬ (lowerByte b = 0x2D ∨ (0x61 ≤ lowerByte b ∧ lowerByte b ≤ 0x7A)))) (by decide +kernel) b hb
  have hrange := nameLetters_range hc
  rcases hall with heq | ⟨hor, hlower⟩
  · rw [heq]
  · exact ⟨fun h => absurd (h ▸ hrange) hor, fun h => absurd (h ▸ hrange) hlower⟩

theorem nameIs_holds {buf : Nat → Byte} : ∀ {ref name : List Byte} {start : Nat},
    BufHolds buf start name → name.length = ref.length → (∀ b ∈ name, InName b) →
    (∀ c ∈ ref, c ∈ nameLetters) → nameIs buf start ref = isName ref name := by
  intro ref
  induction ref with
  | nil =>
      intro name start _ hlen _ _
      rw [List.eq_nil_of_length_eq_zero hlen]
      rfl
  | cons c ref ih =>
      intro name start h hlen hname href
      cases name with
      | nil => cases hlen
      | cons b name =>
          have hrest := ih (BufHolds.tail h) (Nat.succ.inj hlen)
            (fun x hx => hname x (List.mem_cons_of_mem _ hx))
            fun x hx => href x (List.mem_cons_of_mem _ hx)
          have hfirst := orLower_iff (hname b (List.mem_cons_self ..))
            (href c (List.mem_cons_self ..))
          rw [nameIs, BufHolds.head h, hrest, isName, isName, List.map_cons]
          by_cases heq : lowerByte b = c
          · simp [heq, hfirst.mpr heq]
          · simp [heq, mt hfirst.mp heq]

theorem nameAtColon_holds {buf : Nat → Byte} {p : Parser} {name ref : List Byte}
    (h : BufHolds buf p.hdrNmStart name) (hoff : p.off = p.hdrNmStart + name.length)
    (hname : ∀ b ∈ name, InName b) (href : ∀ c ∈ ref, c ∈ nameLetters) :
    p.nameAtColon buf ref = isName ref name := by
  have hsub : p.off - p.hdrNmStart = name.length := by omega
  rw [Parser.nameAtColon, hsub]
  by_cases hlen : name.length = ref.length
  · rw [decide_eq_true hlen, Bool.true_and]
    exact nameIs_holds h hlen hname href
  · rw [decide_eq_false hlen, Bool.false_and]
    refine (decide_eq_false fun heq => hlen ?_).symm
    rw [← heq, List.length_map]

/-! ## Classes -/

section
variable {b : Byte}

theorem classify_letter (h : IsLetter b) : httpClassifyChar b = .alpha := if_pos h

theorem classify_digit (h : IsDecDigit b) : httpClassifyChar b = .digit := by
  have hletter : ¬ IsLetter b := by
    simp only [IsLetter, IsDecDigit, UInt8.le_iff_toNat_le] at h ⊢
    have hlow : b.toNat ≤ 0x39 := h.2
    rintro (⟨hup, -⟩ | ⟨hup, -⟩)
    · exact absurd (Nat.le_trans hup hlow) (by decide)
    · exact absurd (Nat.le_trans hup hlow) (by decide)
  exact (if_neg hletter).trans (if_pos h)

def CharClass.Has : CharClass → Byte → Prop
  | .alpha, b => IsLetter b
  | .digit, b => IsDecDigit b
  | .sp, b => b = 0x20
  | .cr, b => b = 0x0D
  | .lf, b => b = 0x0A
  | .colon, b => b = 0x3A
  | .slash, b => b = 0x2F
  | .dot, b => b = 0x2E
  | .other, _ => True

theorem class_has {c : CharClass} (h : httpClassifyChar b = c) : c.Has b := by
  subst h
  rw [httpClassifyChar]
  split_ifs <;> first | assumption | trivial

theorem classify_uri (h : InUri b) : httpClassifyChar b ≠ .sp ∧ httpClassifyChar b ≠ .cr ∧
    httpClassifyChar b ≠ .lf := by
  refine ⟨?_, ?_, ?_⟩
  · exact fun hc => h.1 (class_has hc)
  · exact fun hc => h.2.1 (class_has hc)
  · exact fun hc => h.2.2 (class_has hc)

theorem classify_value (h : InValue b) : httpClassifyChar b ≠ .cr ∧ httpClassifyChar b ≠ .lf := by
  refine ⟨?_, ?_⟩
  · exact fun hc => h.1 (class_has hc)
  · exact fun hc => h.2 (class_has hc)

theorem table_method (h : IsLetter b) :
    httpFsaTable .method (httpClassifyChar b) = (.none, .method) := by
  rw [classify_letter h]
  rfl

theorem table_mSp (h : InUri b) : httpFsaTable .mSp (httpClassifyChar b) = (.uriStart, .uri) := by
  obtain ⟨hsp, hcr, hlf⟩ := classify_uri h
  cases hc : httpClassifyChar b with
  | sp => exact absurd hc hsp
  | cr => exact absurd hc hcr
  | lf => exact absurd hc hlf
  | _ => rfl

theorem table_uri (h : InUri b) : httpFsaTable .uri (httpClassifyChar b) = (.none, .uri) := by
  obtain ⟨hsp, hcr, hlf⟩ := classify_uri h
  cases hc : httpClassifyChar b with
  | sp => exact absurd hc hsp
  | cr => exact absurd hc hcr
  | lf => exact absurd hc hlf
  | _ => rfl

theorem table_name (h : InName b) : httpFsaTable .hdrNm (httpClassifyChar b) = (.none, .hdrNm) := by
  obtain ⟨hsp, hcr, hlf⟩ := classify_uri h.1
  have hcolon := mt classify_colon.mp h.2
  cases hc : httpClassifyChar b with
  | sp => exact absurd hc hsp
  | cr => exact absurd hc hcr
  | lf => exact absurd hc hlf
  | colon => exact absurd hc hcolon
  | _ => rfl

theorem table_value (h : InValue b) :
    httpFsaTable .hdrVl (httpClassifyChar b) = (.none, .hdrVl) := by
  obtain ⟨hcr, hlf⟩ := classify_value h
  cases hc : httpClassifyChar b with
  | cr => exact absurd hc hcr
  | lf => exact absurd hc hlf
  | _ => rfl

end

/-! ## Runs -/

section
variable (buf : Nat → Byte) (len : Nat)

/-- The parser after `k` bytes more. -/
def Parser.after (k : Nat) (p : Parser) : Parser := (Parser.tick buf fun _ => len)^[k] p

theorem parseLoop_after (n : Nat) (p : Parser) : parseLoop buf len n p = p.after buf len n := by
  induction n generalizing p with
  | zero => rfl
  | succ n ih =>
      rw [parseLoop, Parser.after, Function.iterate_succ_apply, Parser.tick]
      cases hterm : p.state.terminal with
      | true =>
          rw [if_pos rfl, if_pos rfl]
          exact (parseLoop_terminal buf len hterm n).symm.trans (ih p)
      | false => exact ih _

/-- The parser goes from `p` to `q` over the bytes between their offsets. -/
def Reaches (p q : Parser) : Prop := ∃ k, q.off = p.off + k ∧ p.after buf len k = q

end

section
variable {buf : Nat → Byte} {len : Nat} {p q r : Parser}

theorem Reaches.refl (p : Parser) : Reaches buf len p p := ⟨0, rfl, rfl⟩

theorem Reaches.trans (h : Reaches buf len p q) (h' : Reaches buf len q r) :
    Reaches buf len p r := by
  obtain ⟨k, hk, rfl⟩ := h
  obtain ⟨m, hm, rfl⟩ := h'
  refine ⟨m + k, by omega, ?_⟩
  exact Function.iterate_add_apply _ m k p

theorem Reaches.after (h : Reaches buf len p q) : p.after buf len (q.off - p.off) = q := by
  obtain ⟨k, hk, hq⟩ := h
  rw [hk, Nat.add_sub_cancel_left]
  exact hq

def Parser.to (q : Parser) (s : ParseState) (off : Nat) : Parser :=
  { q with state := s, off := off }

variable {s t : ParseState} {off : Nat} {b : Byte} {bs : List Byte}

theorem Reaches.byte {a : Action} (h : Reaches buf len p (q.to s off))
    (hb : BufHolds buf off (b :: bs)) (hs : s.terminal = false)
    (ht : httpFsaTable s (httpClassifyChar b) = (a, t)) :
    Reaches buf len p { (q.to t off).act buf len a with off := off + 1 } := by
  refine h.trans ⟨1, rfl, ?_⟩
  have hoff := (q.to s off).byte_off buf len
  have hread : buf (q.to s off).off = b := hb.head
  have hturn : httpFsaTable (q.to s off).state (httpClassifyChar b) = (a, t) := ht
  show (q.to s off).tick buf (fun _ => len) = _
  have hgoes : ¬ (q.to s off).state.terminal = true := by
    rw [show (q.to s off).state = s from rfl, hs]
    exact Bool.false_ne_true
  rw [Parser.tick, if_neg hgoes]
  simp only [Parser.byte, hread, hturn] at hoff ⊢
  rw [hoff]
  rfl

theorem Reaches.plain (h : Reaches buf len p (q.to s off)) (hb : BufHolds buf off (b :: bs))
    (hs : s.terminal = false) (ht : httpFsaTable s (httpClassifyChar b) = (.none, t)) :
    Reaches buf len p (q.to t (off + 1)) := h.byte hb hs ht

theorem Reaches.same (hs : s.terminal = false) : ∀ {bs : List Byte} {off : Nat},
    Reaches buf len p (q.to s off) → BufHolds buf off bs →
    (∀ b ∈ bs, httpFsaTable s (httpClassifyChar b) = (.none, s)) →
    Reaches buf len p (q.to s (off + bs.length)) := by
  intro bs
  induction bs with
  | nil => intro off h _ _; exact h
  | cons b bs ih =>
      intro off h hb ht
      have hrest := ih (h.plain hb hs (ht b (List.mem_cons_self ..))) hb.tail
        fun x hx => ht x (List.mem_cons_of_mem _ hx)
      have hoff : off + (b :: bs).length = off + 1 + bs.length := by
        rw [List.length_cons]
        omega
      rw [hoff]
      exact hrest

/-! ## The request line -/

/-- What a call leaves that reads a request line. -/
structure LineRead (h : RequestHead) (p q : Parser) : Prop where
  state : q.state = .hdrSt
  off : q.off = p.off + h.line.length
  uriStart : q.uriStart = p.off + h.method.length + 1
  uriLen : q.uriLen = h.uri.length % 65536
  verMinor : q.verMinor = h.minor
  host : q.hostFound = p.hostFound
  seen : q.clSeen = p.clSeen
  length : q.contentLen = p.contentLen

theorem reaches_line {h : RequestHead} (hv : h.Valid) (hst : p.state = .method)
    (hb : BufHolds buf p.off h.line) : ∃ q, Reaches buf len p q ∧ LineRead h p q := by
  obtain ⟨hmethod, ⟨huri, huris⟩, ⟨hfour, hletters⟩, hmajor, hminor, -, -⟩ := hv
  obtain ⟨method, uri, version, major, minor, fields⟩ := h
  match uri, huri, huris with
  | u :: us, _, huris =>
  match version, hfour, hletters with
  | [v₁, v₂, v₃, v₄], _, hletters =>
  -- what stands where
  have hline : BufHolds buf p.off (method ++ 0x20 :: (u :: (us ++
      [0x20, v₁, v₂, v₃, v₄, 0x2F, major, 0x2E, minor, 0x0D, 0x0A]))) := hb
  have hsp := hline.right
  have htail := hsp.tail.tail.right
  have hrest := htail.tail.tail.tail.tail.tail
  have table_letter : ∀ v ∈ [v₁, v₂, v₃, v₄], ∀ {s s' : ParseState},
      httpFsaTable s .alpha = (.none, s') → httpFsaTable s (httpClassifyChar v) = (.none, s') := by
    intro v hv s s' ht
    rw [classify_letter (hletters v hv), ht]
  have table_digit : ∀ v, IsDecDigit v → ∀ {s s' : ParseState} {a : Action},
      httpFsaTable s .digit = (a, s') → httpFsaTable s (httpClassifyChar v) = (a, s') := by
    intro v hv s s' a ht
    rw [classify_digit hv, ht]
  have hstart : Reaches buf len p (p.to .method p.off) := by
    rw [← hst]
    exact Reaches.refl p
  -- the method and the URI
  have r := (hstart.same rfl hline.left fun b hb => table_method (hmethod b hb)).plain hsp rfl rfl
  have r : Reaches buf len p ({ p with uriStart := _ }.to .uri _) :=
    r.byte hsp.tail rfl (table_mSp (huris u (List.mem_cons_self ..)))
  have r := r.same rfl hsp.tail.tail.left
    fun b hb => table_uri (huris b (List.mem_cons_of_mem _ hb))
  have r : Reaches buf len p ({ p with uriStart := _, uriLen := _ }.to .uSp _) :=
    r.byte htail rfl (a := .uriEnd) rfl
  -- the version
  have r := r.plain htail.tail rfl (table_letter v₁ (by simp) rfl)
  have r := r.plain htail.tail.tail rfl (table_letter v₂ (by simp) rfl)
  have r := r.plain htail.tail.tail.tail rfl (table_letter v₃ (by simp) rfl)
  have r := r.plain htail.tail.tail.tail.tail rfl (table_letter v₄ (by simp) rfl)
  have r := r.plain hrest rfl (t := .vslash) rfl
  have r := r.plain hrest.tail rfl (table_digit major hmajor rfl)
  have r := r.plain hrest.tail.tail rfl (t := .vdot) rfl
  have r : Reaches buf len p ({ p with uriStart := _, uriLen := _, verMinor := _ }.to .vmin _) :=
    r.byte hrest.tail.tail.tail rfl (table_digit minor hminor rfl)
  have r := r.plain hrest.tail.tail.tail.tail rfl (t := .rlCr) rfl
  have r := r.plain hrest.tail.tail.tail.tail.tail rfl (t := .hdrSt) rfl
  refine ⟨_, r, rfl, ?_, rfl, ?_, hrest.tail.tail.tail.head, rfl, rfl, rfl⟩
  · simp only [Parser.to, RequestHead.line, RequestHead.upTo, List.length_append, List.length_cons,
      List.length_nil]
    omega
  · show (p.off + method.length + 1 + 1 + us.length + 65536 - (p.off + method.length + 1)) % 65536
      = (us.length + 1) % 65536
    omega

/-! ## The fields -/

/-- Nothing but the header part of the record changes. -/
structure SameLine (p q : Parser) : Prop where
  uriStart : q.uriStart = p.uriStart
  uriLen : q.uriLen = p.uriLen
  verMinor : q.verMinor = p.verMinor

theorem SameLine.trans (h : SameLine p q) (h' : SameLine q r) : SameLine p r :=
  ⟨h'.uriStart.trans h.uriStart, h'.uriLen.trans h.uriLen, h'.verMinor.trans h.verMinor⟩

/-- What reading a field does to the three marks. -/
structure FieldRead (f : List Byte × List Byte) (p q : Parser) : Prop where
  line : SameLine p q
  host : q.hostFound = (p.hostFound || isName hostName f.1)
  seen : q.clSeen = (p.clSeen || isName contentLengthName f.1)
  length : q.contentLen = if isName contentLengthName f.1 then clValue f.2 else p.contentLen

theorem isName_ne {name ref ref' : List Byte} (h : isName ref name = true)
    (hne : ref.length ≠ ref'.length) : isName ref' name = false := by
  refine decide_eq_false fun h' => hne ?_
  rw [← of_decide_eq_true h, ← h']

theorem checkName_read {name value : List Byte} (hname : BufHolds buf p.hdrNmStart name)
    (hoff : p.off = p.hdrNmStart + name.length) (hok : ∀ b ∈ name, InName b)
    (hvalue : BufHolds buf (p.off + 1) (value ++ [0x0D]))
    (hlen : p.off + 1 + value.length + 1 ≤ len)
    (hsecond : isName contentLengthName name = true → p.clSeen = false) :
    (p.checkName buf len).state = p.state ∧ FieldRead (name, value) p (p.checkName buf len) := by
  have hhost := @nameAtColon_holds buf p name hostName hname hoff hok (known_letters (.head _))
  have hconn := @nameAtColon_holds buf p name connName hname hoff hok
    (known_letters (.tail _ (.head _)))
  have hcl := @nameAtColon_holds buf p name contentLengthName hname hoff hok
    (known_letters (.tail _ (.tail _ (.head _))))
  rw [Parser.checkName, hhost, hconn, hcl]
  cases h₁ : isName hostName name with
  | true =>
      have h₂ : isName contentLengthName name = false := isName_ne h₁ (by decide)
      exact ⟨rfl, ⟨rfl, rfl, rfl⟩, by simp [h₁], by simp [h₂], by simp [h₂]⟩
  | false =>
      rw [if_neg Bool.false_ne_true]
      cases h₂ : isName connName name with
      | true =>
          have h₃ : isName contentLengthName name = false := isName_ne h₂ (by decide)
          exact ⟨rfl, ⟨rfl, rfl, rfl⟩, by simp [h₁], by simp [h₃], by simp [h₃]⟩
      | false =>
          rw [if_neg Bool.false_ne_true]
          cases h₃ : isName contentLengthName name with
          | true =>
              have hseen := hsecond h₃
              rw [if_pos rfl, Parser.readCl, if_neg (by rw [hseen]; exact Bool.false_ne_true),
                lookCl_holds hvalue hlen]
              exact ⟨rfl, ⟨rfl, rfl, rfl⟩, by simp [h₁], by simp [h₃], by simp [h₃]⟩
          | false =>
              rw [if_neg Bool.false_ne_true]
              exact ⟨rfl, ⟨rfl, rfl, rfl⟩, by simp [h₁], by simp [h₃], by simp [h₃]⟩

theorem reaches_field {f : List Byte × List Byte} (hf : FieldValid f)
    (hsecond : isName contentLengthName f.1 = true → q.clSeen = false)
    (hb : BufHolds buf off (fieldBytes f)) (hlen : off + (fieldBytes f).length ≤ len)
    (r : Reaches buf len p (q.to .hdrSt off)) :
    ∃ q', Reaches buf len p (q'.to .hdrSt (off + (fieldBytes f).length)) ∧ FieldRead f q q' := by
  obtain ⟨name, value⟩ := f
  obtain ⟨⟨c, cs, rfl, hc⟩, hname, hval⟩ := hf
  have hcount : (fieldBytes (c :: cs, value)).length = cs.length + value.length + 4 := by
    simp only [fieldBytes, List.length_append, List.length_cons, List.length_nil]
    omega
  rw [hcount] at hlen ⊢
  have hall : BufHolds buf off (c :: (cs ++ 0x3A :: (value ++ [0x0D, 0x0A]))) := hb
  have hcolon := hall.tail.right
  have hend := hcolon.tail.right
  have hstored : BufHolds buf off (c :: cs) :=
    @BufHolds.left buf off (c :: cs) (0x3A :: (value ++ [0x0D, 0x0A])) hall
  -- the name
  have r : Reaches buf len p ({ q with hdrNmStart := off }.to .hdrNm (off + 1)) :=
    r.byte hall rfl (a := .hdrNameStart) (by rw [classify_letter hc]; rfl)
  have r := r.same rfl hall.tail.left fun b hb => table_name (hname b (List.mem_cons_of_mem _ hb))
  -- the colon
  have r := r.byte hcolon rfl (a := .hdrCheckHost) (t := .hdrVl) rfl
  have hread := @checkName_read buf len
    ({ q with hdrNmStart := off }.to .hdrVl (off + 1 + cs.length)) (c :: cs) value hstored
    (by show off + 1 + cs.length = off + (cs.length + 1); omega) hname
    (by
      have hsplit : value ++ [0x0D, 0x0A] = (value ++ [0x0D]) ++ [0x0A] := by simp
      have hvalue := hcolon.tail
      rw [hsplit] at hvalue
      exact hvalue.left)
    (by show off + 1 + cs.length + 1 + value.length + 1 ≤ len; omega) hsecond
  obtain ⟨hstate, hfield⟩ := hread
  generalize hq' : ({ q with hdrNmStart := off }.to .hdrVl (off + 1 + cs.length)).checkName buf len
    = q' at hstate hfield
  have r : Reaches buf len p (q'.to .hdrVl (off + 1 + cs.length + 1)) := by
    have hvl : q'.state = .hdrVl := hstate
    have hrecord : { q' with off := off + 1 + cs.length + 1 } =
        q'.to .hdrVl (off + 1 + cs.length + 1) := by
      rw [Parser.to, hvl]
    rw [← hrecord, ← hq']
    exact r
  -- the value and the line end
  have r := r.same rfl hcolon.tail.left fun b hb => table_value (hval b hb)
  have r := r.plain hend rfl (t := .hdrCr) rfl
  have r := r.plain hend.tail rfl (t := .hdrSt) rfl
  refine ⟨q', ?_, ⟨⟨hfield.line.uriStart, hfield.line.uriLen, hfield.line.verMinor⟩, hfield.host,
    hfield.seen, hfield.length⟩⟩
  have hoff : off + (cs.length + value.length + 4)
      = off + 1 + cs.length + 1 + value.length + 1 + 1 := by
    omega
  rw [hoff]
  exact r

theorem reaches_fields : ∀ {fields : List (List Byte × List Byte)} {q : Parser} {off : Nat},
    (∀ f ∈ fields, FieldValid f) →
    (fields.filter fun f => isName contentLengthName f.1).length + q.clSeen.toNat ≤ 1 →
    BufHolds buf off (fields.flatMap fieldBytes) → off + (fields.flatMap fieldBytes).length ≤ len →
    Reaches buf len p (q.to .hdrSt off) →
    ∃ q', Reaches buf len p (q'.to .hdrSt (off + (fields.flatMap fieldBytes).length)) ∧
      SameLine q q' ∧
      q'.hostFound = (q.hostFound || fields.any fun f => isName hostName f.1) ∧
      q'.clSeen = (q.clSeen || fields.any fun f => isName contentLengthName f.1) ∧
      (∀ f ∈ fields, isName contentLengthName f.1 = true → q'.contentLen = clValue f.2) ∧
      (q.clSeen = true → q'.contentLen = q.contentLen) := by
  intro fields
  induction fields with
  | nil =>
      intro q off _ _ _ _ r
      exact ⟨q, r, ⟨rfl, rfl, rfl⟩, by simp, by simp, fun _ hf => (nomatch hf), fun _ => rfl⟩
  | cons f fields ih =>
      intro q off hok honce hb hlen r
      rw [List.flatMap_cons] at hb
      rw [List.flatMap_cons, List.length_append] at hlen ⊢
      have hsecond : isName contentLengthName f.1 = true → q.clSeen = false := by
        intro hcl
        simp only [List.filter_cons, hcl, if_true, List.length_cons] at honce
        exact Bool.toNat_eq_zero.mp (by omega)
      obtain ⟨q₁, r₁, hline₁, hhost₁, hseen₁, hlength₁⟩ :=
        reaches_field (hok f (List.mem_cons_self ..)) hsecond hb.left (by omega) r
      have honce₁ : (fields.filter fun f => isName contentLengthName f.1).length
          + q₁.clSeen.toNat ≤ 1 := by
        rw [hseen₁]
        cases hcl : isName contentLengthName f.1 with
        | true =>
            simp only [List.filter_cons, hcl, if_true, List.length_cons] at honce
            rw [hsecond hcl] at honce ⊢
            exact honce
        | false =>
            simp only [List.filter_cons, hcl, Bool.false_eq_true, if_false] at honce
            rw [Bool.or_false]
            exact honce
      obtain ⟨q₂, r₂, hline₂, hhost₂, hseen₂, hlength₂, hkept₂⟩ :=
        ih (fun g hg => hok g (List.mem_cons_of_mem _ hg)) honce₁ hb.right (by omega) r₁
      rw [← Nat.add_assoc]
      refine ⟨q₂, r₂, hline₁.trans hline₂, ?_, ?_, ?_, ?_⟩
      · rw [hhost₂, hhost₁, List.any_cons, Bool.or_assoc]
      · rw [hseen₂, hseen₁, List.any_cons, Bool.or_assoc]
      · intro g hg hcl
        rcases List.mem_cons.mp hg with rfl | hg
        · rw [hkept₂ (by rw [hseen₁, hcl, Bool.or_true]), hlength₁, if_pos hcl]
        · exact hlength₂ g hg hcl
      · intro hseen
        have hno : isName contentLengthName f.1 = false := by
          cases hcl : isName contentLengthName f.1 with
          | false => rfl
          | true => exact absurd (hseen.symm.trans (hsecond hcl)) (by decide)
        rw [hkept₂ (by rw [hseen₁, hseen, Bool.true_or]), hlength₁, hno]
        rfl

/-! ## The head -/

/-- A record that was reset for a request: whatever the fields hold that the parser writes. -/
structure Fresh (p : Parser) : Prop where
  state : p.state = .method
  off : p.off = 0
  host : p.hostFound = false
  seen : p.clSeen = false

/-- The record of a head. -/
structure Parsed (h : RequestHead) (q : Parser) : Prop where
  state : q.state = .done
  off : q.off = h.bytes.length
  reqLen : q.reqLen = h.bytes.length
  uriStart : q.uriStart = h.method.length + 1
  uriLen : q.uriLen = h.uri.length % 65536
  verMinor : q.verMinor = h.minor
  host : q.hostFound = h.fields.any fun f => isName hostName f.1
  seen : q.clSeen = h.fields.any fun f => isName contentLengthName f.1
  length : ∀ f ∈ h.fields, isName contentLengthName f.1 = true → q.contentLen = clValue f.2

theorem Parsed.terminal {h : RequestHead} (hq : Parsed h q) : q.state.terminal = true := by
  rw [hq.state]
  rfl

/-- **A head**, at the start of the buffer: whatever follows it, the parser is done at its end. -/
theorem head_parsed {h : RequestHead} (hv : h.Valid) (hp : Fresh p) (hb : BufHolds buf 0 h.bytes)
    (hlen : h.bytes.length ≤ len) : ∃ q, p.after buf len h.bytes.length = q ∧ Parsed h q := by
  have hcount : h.bytes.length = h.line.length + (h.fields.flatMap fieldBytes).length + 2 := by
    simp only [RequestHead.bytes, RequestHead.lines, List.length_append, List.length_cons,
      List.length_nil]
  have hline : BufHolds buf p.off h.line := by
    rw [hp.off]
    exact hb.left.left
  have hfields : BufHolds buf h.line.length (h.fields.flatMap fieldBytes) := by
    have hright := hb.left.right
    rwa [Nat.zero_add] at hright
  have hend : BufHolds buf (h.line.length + (h.fields.flatMap fieldBytes).length) [0x0D, 0x0A] := by
    have hright := hb.right
    rwa [RequestHead.lines, List.length_append, Nat.zero_add] at hright
  obtain ⟨q₁, r₁, hread⟩ := @reaches_line buf len p h hv hp.state hline
  have hoff₁ : q₁.off = h.line.length := by rw [hread.off, hp.off, Nat.zero_add]
  have r₁ : Reaches buf len p (q₁.to .hdrSt h.line.length) := by
    rw [← hoff₁, ← hread.state]
    exact r₁
  have honce : h.lengths.length + q₁.clSeen.toNat ≤ 1 := by
    rw [hread.seen, hp.seen]
    exact hv.once
  obtain ⟨q₂, r₂, hsame, hhost, hseen, hlength, -⟩ :=
    reaches_fields hv.fields honce hfields (by omega) r₁
  have r := r₂.plain hend rfl (t := .endCr) rfl
  have r : Reaches buf len p
      ({ q₂ with reqLen := h.line.length + (h.fields.flatMap fieldBytes).length + 2 }.to .done
        (h.line.length + (h.fields.flatMap fieldBytes).length + 2)) :=
    r.byte hend.tail rfl (a := .reqDone) rfl
  have hafter := r.after
  rw [hp.off, show (Parser.to _ .done _).off = h.bytes.length from hcount.symm] at hafter
  refine ⟨_, hafter, ⟨rfl, hcount.symm, hcount.symm, ?_, ?_, ?_, ?_, ?_, hlength⟩⟩
  · exact hsame.uriStart.trans (by rw [hread.uriStart, hp.off, Nat.zero_add])
  · exact hsame.uriLen.trans hread.uriLen
  · exact hsame.verMinor.trans hread.verMinor
  · exact hhost.trans (by rw [hread.host, hp.host, Bool.false_or])
  · exact hseen.trans (by rw [hread.seen, hp.seen, Bool.false_or])

theorem parse_of_after {k : Nat} (hp : Fresh p) (hk : k ≤ len) (hq : p.after buf len k = q)
    (hterm : q.state.terminal = true) : httpParseRequest buf len p = q := by
  obtain ⟨m, rfl⟩ : ∃ m, len = m + k := ⟨len - k, by omega⟩
  rw [httpParseRequest, hp.off, Nat.sub_zero, parseLoop_after, Parser.after,
    Function.iterate_add_apply]
  show (Parser.after buf (m + k) m (p.after buf (m + k) k)) = q
  rw [hq, ← parseLoop_after, parseLoop_terminal buf _ hterm]

end

end WsPi5

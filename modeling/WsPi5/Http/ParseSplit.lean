/-
# `WsPi5.Http.ParseSplit` — the parser and the cuts between arrivals

A request arrives in pieces and `http_parse_request` is called after each of them on all that
has been buffered.  The states, offsets and the Host mark come out as if it had been called
once, because the table looks at one byte at a time.  The two header values do not: at the
colon behind `Connection` and `Content-Length` the parser looks ahead over the bytes that have
arrived so far and never comes back.

    the value is cut inside its digits      the number of the digits that were there
    only spaces were there                  no Content-Length at all
    `close` or the byte behind it was not   no Connection: close

**The lexical path.**  `lexAt buf k` is the parser after `k` bytes with both look-aheads left
out: it depends on the string alone.  `header buf name c` says that on this path the colon at
`c` ends this header name.  A parse with `look c` bytes buffered when byte `c` is parsed is the
lexical path with three fields filled in (`lookahead_fill`), and two of them, the whole parse
and the one in pieces, differ only where the look-ahead does (`split_same_iff`).
-/
import WsPi5.Http.Parse

namespace WsPi5

/-! ## Only the buffered bytes are read -/

theorem nameIs_congr {buf buf' : Nat → Byte} : ∀ {name : List Byte} {start : Nat},
    (∀ k < start + name.length, buf k = buf' k) → nameIs buf start name = nameIs buf' start name
  | [], _, _ => rfl
  | c :: cs, start, h => by
      have htail : nameIs buf (start + 1) cs = nameIs buf' (start + 1) cs :=
        nameIs_congr fun k hk => h k (by simp only [List.length_cons]; omega)
      rw [nameIs, nameIs, htail, h start (by simp)]

theorem skipSp_congr {buf buf' : Nat → Byte} : ∀ {n pos : Nat},
    (∀ k < pos + n, buf k = buf' k) → skipSp buf n pos = skipSp buf' n pos
  | 0, _, _ => rfl
  | n + 1, pos, h => by
      rw [skipSp, skipSp, h pos (by omega), skipSp_congr fun k hk => h k (by omega)]

theorem clDigits_congr {buf buf' : Nat → Byte} : ∀ {n pos acc : Nat},
    (∀ k < pos + n, buf k = buf' k) → clDigits buf n pos acc = clDigits buf' n pos acc
  | 0, _, _, _ => rfl
  | n + 1, pos, acc, h => by
      have htail : ∀ acc', clDigits buf n (pos + 1) acc' = clDigits buf' n (pos + 1) acc' :=
        fun _ => clDigits_congr fun k hk => h k (by omega)
      simp only [clDigits, h pos (by omega), htail]

theorem skipSp_le (buf : Nat → Byte) : ∀ n pos, skipSp buf n pos ≤ pos + n
  | 0, _ => Nat.le_refl _
  | n + 1, pos => by
      have := skipSp_le buf n (pos + 1)
      rw [skipSp]
      split <;> omega

section
variable {buf buf' : Nat → Byte} {len : Nat} (h : ∀ k < len, buf k = buf' k)
include h

theorem valueStart_congr {off : Nat} (ho : off < len) :
    valueStart buf len off = valueStart buf' len off :=
  skipSp_congr fun k hk => h k (by omega)

theorem lookClose_congr {off : Nat} (ho : off < len) :
    lookClose buf len off = lookClose buf' len off := by
  rw [lookClose, lookClose, valueStart_congr h ho]
  by_cases hfit : valueStart buf' len off + 5 < len
  · have : nameIs buf (valueStart buf' len off) closeName =
        nameIs buf' (valueStart buf' len off) closeName :=
      nameIs_congr fun k hk => h k (by
        have hk' : k < valueStart buf' len off + 5 := hk
        omega)
    rw [this]
  · simp [hfit]

theorem lookCl_congr {off : Nat} (ho : off < len) :
    lookCl buf len off = lookCl buf' len off := by
  rw [lookCl, lookCl, valueStart_congr h ho]
  split
  · rw [clDigits_congr fun k hk => h k (by omega)]
  · rfl

theorem Parser.nameAtColon_congr {p : Parser} (ho : p.off < len) (name : List Byte)
    (hne : name ≠ []) : p.nameAtColon buf name = p.nameAtColon buf' name := by
  have hpos : 0 < name.length := List.length_pos_of_ne_nil hne
  rw [nameAtColon, nameAtColon]
  by_cases hlen : p.off - p.hdrNmStart = name.length
  · rw [nameIs_congr fun k hk => h k (by omega)]
  · simp [hlen]

theorem Parser.byte_congr {p : Parser} (ho : p.off < len) : p.byte buf len = p.byte buf' len := by
  have hcheck : ∀ q : Parser, q.off = p.off → q.checkName buf len = q.checkName buf' len := by
    intro q hq
    have ho' : q.off < len := hq ▸ ho
    simp only [checkName, readCl, nameAtColon_congr h ho' hostName (by decide),
      nameAtColon_congr h ho' connName (by decide), lookClose_congr h ho', lookCl_congr h ho',
      nameAtColon_congr h ho' contentLengthName (by decide)]
  have hact : ∀ (q : Parser) (a : Action), q.off = p.off → q.act buf len a = q.act buf' len a := by
    intro q a hq
    cases a with
    | verMinor => simp only [act, hq, h p.off ho]
    | hdrCheckHost => exact hcheck q hq
    | _ => rfl
  simp only [byte, h p.off ho, hact]

end

/-! ## Every byte moves the offset by one -/

theorem Parser.checkName_off (buf : Nat → Byte) (len : Nat) (p : Parser) :
    (p.checkName buf len).off = p.off := by
  simp only [checkName, readCl]
  split
  · rfl
  split
  · rfl
  split
  · split
    · rfl
    · split <;> rfl
  · rfl

theorem Parser.byte_off (buf : Nat → Byte) (len : Nat) (p : Parser) :
    (p.byte buf len).off = p.off + 1 := by
  have hact : ∀ (q : Parser) (a : Action), (q.act buf len a).off = q.off := by
    intro q a
    cases a with
    | hdrCheckHost => exact q.checkName_off buf len
    | _ => rfl
  simp only [byte, hact]

theorem parseLoop_terminal (buf : Nat → Byte) (len : Nat) {p : Parser}
    (h : p.state.terminal = true) : ∀ n, parseLoop buf len n p = p
  | 0 => rfl
  | n + 1 => by rw [parseLoop, if_pos h]

theorem parseLoop_congr {buf buf' : Nat → Byte} {len : Nat} (h : ∀ k < len, buf k = buf' k) :
    ∀ n (p : Parser), p.off + n ≤ len → parseLoop buf len n p = parseLoop buf' len n p
  | 0, _, _ => rfl
  | n + 1, p, hn => by
      have hp : p.byte buf len = p.byte buf' len := Parser.byte_congr h (by omega)
      have hoff := p.byte_off buf' len
      rw [parseLoop, parseLoop, hp, parseLoop_congr h n _ (by omega)]

/-- **The parser reads the buffered bytes and no others.** -/
theorem httpParseRequest_congr {buf buf' : Nat → Byte} {len : Nat}
    (h : ∀ k < len, buf k = buf' k) (p : Parser) :
    httpParseRequest buf len p = httpParseRequest buf' len p := by
  rw [httpParseRequest, httpParseRequest]
  by_cases hoff : p.off ≤ len
  · exact parseLoop_congr h _ p (by omega)
  · rw [show len - p.off = 0 by omega]
    rfl

/-! ## The parse with a given look-ahead -/

/-- One pass of the loop, `look k` bytes being buffered when byte `k` is parsed. -/
def Parser.tick (buf : Nat → Byte) (look : Nat → Nat) (p : Parser) : Parser :=
  if p.state.terminal then p else p.byte buf (look p.off)

/-- The fresh parser after `k` passes. -/
def parseWith (buf : Nat → Byte) (look : Nat → Nat) : Nat → Parser
  | 0 => {}
  | k + 1 => (parseWith buf look k).tick buf look

theorem parseWith_off (buf : Nat → Byte) (look : Nat → Nat) : ∀ k,
    (parseWith buf look k).state.terminal = true ∨ (parseWith buf look k).off = k
  | 0 => .inr rfl
  | k + 1 => by
      rw [parseWith, Parser.tick]
      by_cases hterm : (parseWith buf look k).state.terminal = true
      · rw [if_pos hterm]
        exact .inl hterm
      · have hoff := (parseWith_off buf look k).resolve_left hterm
        rw [if_neg hterm, Parser.byte_off, hoff]
        exact .inr rfl

/-- A call that finds `len` bytes continues the parse, if `look` says so where it runs. -/
theorem parseLoop_parseWith {buf : Nat → Byte} {look : Nat → Nat} {len : Nat} : ∀ {n k : Nat},
    (∀ c, k ≤ c → c < k + n → look c = len) →
    parseLoop buf len n (parseWith buf look k) = parseWith buf look (k + n)
  | 0, _, _ => rfl
  | n + 1, k, hlook => by
      rw [show k + (n + 1) = (k + 1) + n by omega,
        ← parseLoop_parseWith (n := n) (k := k + 1) fun c h₁ h₂ => hlook c (by omega) (by omega),
        parseLoop, parseWith, Parser.tick]
      by_cases hterm : (parseWith buf look k).state.terminal = true
      · rw [if_pos hterm, if_pos hterm, parseLoop_terminal buf len hterm]
      · have hoff := (parseWith_off buf look k).resolve_left hterm
        rw [if_neg hterm, if_neg hterm, hoff, hlook k (by omega) (by omega)]

theorem httpParseRequest_parseWith {buf : Nat → Byte} {look : Nat → Nat} {len k : Nat}
    (hk : k ≤ len) (hlook : ∀ c, k ≤ c → c < len → look c = len) :
    httpParseRequest buf len (parseWith buf look k) = parseWith buf look len := by
  have hrun : parseLoop buf len (len - k) (parseWith buf look k) = parseWith buf look len := by
    rw [parseLoop_parseWith fun c h₁ h₂ => hlook c h₁ (by omega), Nat.add_sub_cancel' hk]
  rw [httpParseRequest]
  rcases parseWith_off buf look k with hterm | hoff
  · rw [← hrun, parseLoop_terminal buf len hterm, parseLoop_terminal buf len hterm]
  · rw [hoff, hrun]

/-! ## Arrivals -/

def bytesOf (l : List Byte) : Nat → Byte := fun k => l.getD k 0

/-- `http_parse_request` after each arrival, on all that has arrived. -/
def parseArrivals : List Byte → Parser → List (List Byte) → Parser
  | _, p, [] => p
  | got, p, a :: as =>
      parseArrivals (got ++ a) (httpParseRequest (bytesOf (got ++ a)) (got ++ a).length p) as

/-- How many bytes are buffered when byte `c` first is: the first cut behind `c`. -/
def cutAfter : Nat → List (List Byte) → Nat → Nat
  | got, [], _ => got
  | got, a :: as, c =>
      if c < got + a.length then got + a.length else cutAfter (got + a.length) as c

theorem bytesOf_append {a b : List Byte} {k : Nat} (hk : k < a.length) :
    bytesOf (a ++ b) k = bytesOf a k := by
  simp [bytesOf, List.getD_eq_getElem?_getD, List.getElem?_append_left hk]

theorem parseArrivals_parseWith (look : Nat → Nat) (buf : Nat → Byte) :
    ∀ (as : List (List Byte)) (got : List Byte),
    (∀ k < (got ++ as.flatten).length, buf k = bytesOf (got ++ as.flatten) k) →
    (∀ c, got.length ≤ c → c < (got ++ as.flatten).length →
      look c = cutAfter got.length as c) →
    parseArrivals got (parseWith buf look got.length) as =
      parseWith buf look (got ++ as.flatten).length
  | [], got, _, _ => by simp [parseArrivals]
  | a :: as, got, hbuf, hlook => by
      have hassoc : got ++ (a :: as).flatten = (got ++ a) ++ as.flatten := by simp
      rw [hassoc] at hbuf hlook ⊢
      have hcall : httpParseRequest (bytesOf (got ++ a)) (got ++ a).length
          (parseWith buf look got.length) = parseWith buf look (got ++ a).length := by
        have hsame : ∀ k < (got ++ a).length, bytesOf (got ++ a) k = buf k := by
          intro k hk
          rw [hbuf k (by simp only [List.length_append] at hk ⊢; omega), bytesOf_append hk]
        rw [httpParseRequest_congr hsame, httpParseRequest_parseWith (by simp)]
        intro c h₁ h₂
        rw [hlook c h₁ (by simp only [List.length_append] at h₂ ⊢; omega), cutAfter,
          if_pos (by simpa using h₂), List.length_append]
      rw [parseArrivals, hcall]
      refine parseArrivals_parseWith look buf as (got ++ a) hbuf fun c h₁ h₂ => ?_
      rw [hlook c (by simp only [List.length_append] at h₁; omega) h₂, cutAfter,
        if_neg (by simp only [List.length_append] at h₁; omega), List.length_append]

/-! ## The lexical path -/

section
variable (buf : Nat → Byte)

/-- What the colon does to the state and the Host mark: a second Content-Length is an error,
whatever its value. -/
def Parser.lexName (p : Parser) : Parser :=
  if p.nameAtColon buf hostName then { p with hostFound := true }
  else if p.nameAtColon buf contentLengthName then
    if p.clSeen then { p with state := .error } else { p with clSeen := true }
  else p

/-- `Parser.byte` without the look-ahead. -/
def Parser.lexByte (p : Parser) : Parser :=
  let t := httpFsaTable p.state (httpClassifyChar (buf p.off))
  let q := { p with state := t.2 }
  let p' := if t.1 = .hdrCheckHost then q.lexName buf else q.act buf 0 t.1
  { p' with off := p'.off + 1 }

/-- The fresh parser after `k` bytes, the header values unread. -/
def lexAt : Nat → Parser
  | 0 => {}
  | k + 1 => if (lexAt k).state.terminal then lexAt k else (lexAt k).lexByte buf

/-- The colon at `c` ends this header name. -/
def header (name : List Byte) (c : Nat) : Prop :=
  (lexAt buf c).state = .hdrNm ∧ buf c = 0x3A ∧ (lexAt buf c).nameAtColon buf name = true

instance (name : List Byte) (c : Nat) : Decidable (header buf name c) :=
  inferInstanceAs (Decidable (_ ∧ _ ∧ _))

def firstCl (d : Nat) : Prop :=
  header buf contentLengthName d ∧ ∀ d' < d, ¬ header buf contentLengthName d'

instance (d : Nat) : Decidable (firstCl buf d) := inferInstanceAs (Decidable (_ ∧ _))

end

def Parser.clRead (p : Parser) : Option Nat := if p.clSeen then some p.contentLen else none

def Parser.fill (q : Parser) (close : Bool) (len : Nat) (seen : Bool) : Parser :=
  { q with closeFound := close, contentLen := len, clSeen := seen }

/-- `p` is the lexical path at `k` with the look-ahead fields filled in. -/
structure Filled (buf : Nat → Byte) (look : Nat → Nat) (k : Nat) (p : Parser) : Prop where
  path : p = (lexAt buf k).fill p.closeFound p.contentLen p.clSeen
  close : p.closeFound = true ↔
    ∃ c < k, header buf connName c ∧ lookClose buf (look c) c = true
  value : ∀ d < k, firstCl buf d → p.clRead = lookCl buf (look d) d
  unread : p.clSeen = false → p.contentLen = 0
  unseen : (lexAt buf k).clSeen = false → p.clSeen = false
  seen : (lexAt buf k).clSeen = true ↔ ∃ d < k, firstCl buf d

section
variable {buf : Nat → Byte}

theorem classify_colon {b : Byte} : httpClassifyChar b = .colon ↔ b = 0x3A := by
  constructor
  · intro h
    simp only [httpClassifyChar] at h
    grind
  · rintro rfl
    rfl

theorem hdrCheckHost_iff {st : ParseState} {b : Byte} :
    (httpFsaTable st (httpClassifyChar b)).1 = .hdrCheckHost ↔ st = .hdrNm ∧ b = 0x3A := by
  rw [← classify_colon]
  cases st <;> cases httpClassifyChar b <;> decide

theorem table_colon {st : ParseState} {b : Byte} (hst : st = .hdrNm) (hb : b = 0x3A) :
    httpFsaTable st (httpClassifyChar b) = (.hdrCheckHost, .hdrVl) := by
  rw [hst, classify_colon.mpr hb]
  rfl

theorem Parser.lexByte_off (p : Parser) : (p.lexByte buf).off = p.off + 1 := by
  have hname : ∀ q : Parser, (q.lexName buf).off = q.off := by
    intro q
    simp only [lexName]
    split
    · rfl
    split
    · split <;> rfl
    · rfl
  have hact : ∀ (q : Parser) (a : Action), a ≠ .hdrCheckHost → (q.act buf 0 a).off = q.off := by
    intro q a ha
    cases a with
    | hdrCheckHost => exact absurd rfl ha
    | _ => rfl
  simp only [lexByte]
  split
  · rw [hname]
  next h => rw [hact _ _ h]

theorem lexAt_off : ∀ k, (lexAt buf k).state.terminal = true ∨ (lexAt buf k).off = k
  | 0 => .inr rfl
  | k + 1 => by
      rw [lexAt]
      by_cases hterm : (lexAt buf k).state.terminal = true
      · rw [if_pos hterm]
        exact .inl hterm
      · rw [if_neg hterm, Parser.lexByte_off, (lexAt_off k).resolve_left hterm]
        exact .inr rfl

theorem lexAt_off_of {k : Nat} (h : (lexAt buf k).state.terminal = false) :
    (lexAt buf k).off = k :=
  (lexAt_off k).resolve_left (by rw [h]; exact Bool.false_ne_true)

/-! One byte of the parse against one byte of the path, by what stands at the byte. -/

section
variable {len v : Nat} {cf sn : Bool} {q : Parser}

theorem fill_byte_plain (h : ¬ (q.state = .hdrNm ∧ buf q.off = 0x3A)) :
    (q.fill cf v sn).byte buf len = (q.lexByte buf).fill cf v sn ∧
      (q.lexByte buf).clSeen = q.clSeen := by
  have hne := mt hdrCheckHost_iff.mp h
  simp only [Parser.byte, Parser.lexByte, Parser.fill, if_neg hne]
  generalize (httpFsaTable q.state (httpClassifyChar (buf q.off))).1 = a at hne ⊢
  cases a with
  | hdrCheckHost => exact absurd rfl hne
  | _ => exact ⟨rfl, rfl⟩

theorem nameAtColon_ne {n₁ : List Byte} (n₂ : List Byte) (hlen : n₁.length ≠ n₂.length)
    (h : q.nameAtColon buf n₁ = true) : q.nameAtColon buf n₂ = false := by
  simp only [Parser.nameAtColon, Bool.and_eq_true, decide_eq_true_eq] at h
  simp only [Parser.nameAtColon, Bool.and_eq_false_iff, decide_eq_false_iff_not]
  exact .inl fun h' => hlen (h.1.symm.trans h')

/-- A header name ends here: what `checkName` does to the fields, this byte does. -/
theorem fill_byte_colon {cf' sn' : Bool} {v' : Nat}
    (hst : q.state = .hdrNm) (hcolon : buf q.off = 0x3A)
    (h : ({ q with state := .hdrVl }.fill cf v sn).checkName buf len =
      ({ q with state := ParseState.hdrVl }.lexName buf).fill cf' v' sn') :
    (q.fill cf v sn).byte buf len = (q.lexByte buf).fill cf' v' sn' ∧
      (q.lexByte buf).clSeen = ({ q with state := ParseState.hdrVl }.lexName buf).clSeen := by
  simp only [Parser.fill] at h
  simp only [Parser.byte, Parser.lexByte, Parser.fill, table_colon hst hcolon, Parser.act, if_true,
    h, and_self]

section
variable (hconn : q.nameAtColon buf connName = false)
include hconn

theorem checkName_fill_other (hcl : q.nameAtColon buf contentLengthName = false) :
    (q.fill cf v sn).checkName buf len = (q.lexName buf).fill cf v sn ∧
      (q.lexName buf).clSeen = q.clSeen := by
  have hconn' : (q.fill cf v sn).nameAtColon buf connName = false := hconn
  have hcl' : (q.fill cf v sn).nameAtColon buf contentLengthName = false := hcl
  cases hhost : q.nameAtColon buf hostName with
  | true =>
      have hhost' : (q.fill cf v sn).nameAtColon buf hostName = true := hhost
      simp only [Parser.checkName, Parser.lexName, hhost, hhost', if_true]
      exact ⟨rfl, trivial⟩
  | false =>
      have hhost' : (q.fill cf v sn).nameAtColon buf hostName = false := hhost
      simp only [Parser.checkName, Parser.lexName, hhost, hhost', hconn', hcl, hcl',
        Bool.false_eq_true, if_false, and_self]

end

theorem checkName_fill_conn (hconn : q.nameAtColon buf connName = true) :
    (q.fill cf v sn).checkName buf len =
        (q.lexName buf).fill (cf || lookClose buf len q.off) v sn ∧
      (q.lexName buf).clSeen = q.clSeen := by
  have hhost := nameAtColon_ne hostName (by decide) hconn
  have hcl := nameAtColon_ne contentLengthName (by decide) hconn
  have hconn' : (q.fill cf v sn).nameAtColon buf connName = true := hconn
  have hhost' : (q.fill cf v sn).nameAtColon buf hostName = false := hhost
  simp only [Parser.checkName, Parser.lexName, hhost, hhost', hconn', hcl, Bool.false_eq_true,
    if_false, if_true]
  exact ⟨rfl, trivial⟩

section
variable (hcl : q.nameAtColon buf contentLengthName = true)
include hcl

variable (len v cf sn) in
theorem checkName_fill_cl :
    (q.fill cf v sn).checkName buf len = (q.fill cf v sn).readCl buf len ∧
      q.lexName buf =
        if q.clSeen then { q with state := .error } else { q with clSeen := true } := by
  have hhost := nameAtColon_ne hostName (by decide) hcl
  have hconn := nameAtColon_ne connName (by decide) hcl
  have hcl' : (q.fill cf v sn).nameAtColon buf contentLengthName = true := hcl
  have hhost' : (q.fill cf v sn).nameAtColon buf hostName = false := hhost
  have hconn' : (q.fill cf v sn).nameAtColon buf connName = false := hconn
  simp only [Parser.checkName, Parser.lexName, hhost, hhost', hconn', hcl, hcl',
    Bool.false_eq_true, if_false, if_true, and_self]

/-- `Content-Length`, the first one: its value is read from the bytes that are there. -/
theorem checkName_fill_first (hq : q.clSeen = false) :
    (q.fill cf 0 false).checkName buf len =
        (q.lexName buf).fill cf ((lookCl buf len q.off).getD 0) (lookCl buf len q.off).isSome ∧
      (q.lexName buf).clSeen = true := by
  obtain ⟨hcheck, hlex⟩ := checkName_fill_cl len 0 cf false hcl
  rw [hcheck, hlex, hq]
  simp only [Parser.readCl, Parser.fill, Bool.false_eq_true, if_false]
  cases lookCl buf len q.off <;> exact ⟨rfl, trivial⟩

theorem lexByte_first (hst : q.state = .hdrNm) (hcolon : buf q.off = 0x3A)
    (hq : q.clSeen = false) : (q.lexByte buf).state = .hdrVl := by
  have hlex : Parser.lexName buf { q with state := .hdrVl } =
      { { q with state := .hdrVl } with clSeen := true } := by
    rw [(checkName_fill_cl 0 0 false false (q := { q with state := .hdrVl }) hcl).2]
    exact if_neg (by simp [hq])
  simp only [Parser.lexByte, table_colon hst hcolon, if_true, hlex]

theorem checkName_fill_again (hq : q.clSeen = true) :
    (q.fill cf v true).checkName buf len = (q.lexName buf).fill cf v true ∧
      (q.lexName buf).clSeen = true := by
  obtain ⟨hcheck, hlex⟩ := checkName_fill_cl len v cf true hcl
  rw [hcheck, hlex, hq]
  exact ⟨rfl, by rw [if_pos rfl]⟩

end

end

/-! ## The parse fills in the path -/

theorem not_header_of_terminal {k : Nat} {name : List Byte}
    (h : (lexAt buf k).state.terminal = true) : ¬ header buf name k := by
  rintro ⟨hst, -, -⟩
  rw [hst] at h
  cases h

theorem lexAt_succ {k : Nat} (h : (lexAt buf k).state.terminal = false) :
    lexAt buf (k + 1) = (lexAt buf k).lexByte buf := by
  rw [lexAt, if_neg (by simp [h])]

theorem exists_lt_succ {P : Nat → Prop} {k : Nat} :
    (∃ c < k + 1, P c) ↔ (∃ c < k, P c) ∨ P k := by
  constructor
  · rintro ⟨c, hc, hP⟩
    rcases Nat.lt_succ_iff_lt_or_eq.mp hc with h | rfl
    · exact .inl ⟨c, h, hP⟩
    · exact .inr hP
  · rintro (⟨c, hc, hP⟩ | hP)
    · exact ⟨c, by omega, hP⟩
    · exact ⟨k, by omega, hP⟩

variable {look : Nat → Nat}

theorem Filled.quiet {k : Nat} {p p' : Parser} (h : Filled buf look k p)
    (hconn : ¬ header buf connName k) (hcl : ¬ header buf contentLengthName k)
    (hp : p' = (lexAt buf (k + 1)).fill p.closeFound p.contentLen p.clSeen)
    (hseen : (lexAt buf (k + 1)).clSeen = (lexAt buf k).clSeen) :
    Filled buf look (k + 1) p' := by
  have hfirst : ¬ firstCl buf k := fun hf => hcl hf.1
  subst hp
  refine ⟨rfl, ?_, ?_, h.unread, fun hq => h.unseen (hseen ▸ hq), ?_⟩
  · rw [exists_lt_succ, or_iff_left (fun hc => hconn hc.1)]
    exact h.close
  · intro d hd hf
    rcases Nat.lt_succ_iff_lt_or_eq.mp hd with hlt | rfl
    · exact h.value d hlt hf
    · exact absurd hf hfirst
  · rw [hseen, exists_lt_succ, or_iff_left hfirst]
    exact h.seen

theorem Filled.state {k : Nat} {p : Parser} (h : Filled buf look k p) :
    p.state = (lexAt buf k).state :=
  (congrArg Parser.state h.path).trans rfl

theorem Filled.tick_eq {k : Nat} {p : Parser} (h : Filled buf look k p)
    (hterm : (lexAt buf k).state.terminal = false) :
    p.tick buf look =
      ((lexAt buf k).fill p.closeFound p.contentLen p.clSeen).byte buf (look k) := by
  have hoff : p.off = k :=
    (congrArg Parser.off h.path).trans (lexAt_off_of hterm)
  rw [Parser.tick, if_neg (by simp [h.state, hterm]), hoff, ← h.path]

theorem Filled.conn {k : Nat} {p p' : Parser} (h : Filled buf look k p)
    (hconn : header buf connName k)
    (hp : p' = (lexAt buf (k + 1)).fill (p.closeFound || lookClose buf (look k) k)
      p.contentLen p.clSeen)
    (hseen : (lexAt buf (k + 1)).clSeen = (lexAt buf k).clSeen) :
    Filled buf look (k + 1) p' := by
  have hcl : ¬ header buf contentLengthName k := fun hc => by
    have := nameAtColon_ne contentLengthName (by decide) hconn.2.2
    simp [hc.2.2] at this
  have hfirst : ¬ firstCl buf k := fun hf => hcl hf.1
  subst hp
  refine ⟨rfl, ?_, ?_, h.unread, fun hq => h.unseen (hseen ▸ hq), ?_⟩
  · rw [exists_lt_succ, ← h.close]
    simp [Parser.fill, hconn]
  · intro d hd hf
    rcases Nat.lt_succ_iff_lt_or_eq.mp hd with hlt | rfl
    · exact h.value d hlt hf
    · exact absurd hf hfirst
  · rw [hseen, exists_lt_succ, or_iff_left hfirst]
    exact h.seen

theorem Filled.first {k : Nat} {p p' : Parser} (h : Filled buf look k p)
    (hcl : header buf contentLengthName k) (hq : (lexAt buf k).clSeen = false)
    (hp : p' = (lexAt buf (k + 1)).fill p.closeFound ((lookCl buf (look k) k).getD 0)
      (lookCl buf (look k) k).isSome)
    (hseen : (lexAt buf (k + 1)).clSeen = true) :
    Filled buf look (k + 1) p' := by
  have hconn : ¬ header buf connName k := fun hc => by
    have := nameAtColon_ne contentLengthName (by decide) hc.2.2
    simp [hcl.2.2] at this
  have hnone : ∀ d < k, ¬ firstCl buf d := by
    intro d hd hf
    rw [h.seen.mpr ⟨d, hd, hf⟩] at hq
    cases hq
  have hfirst : firstCl buf k := by
    refine ⟨hcl, ?_⟩
    intro d hd
    -- the least header below `k` would be a first one
    induction d using Nat.strongRecOn with
    | _ d ih => exact fun hd' => hnone d hd ⟨hd', fun d' hlt => ih d' hlt (by omega)⟩
  subst hp
  refine ⟨rfl, ?_, ?_, ?_, fun hq' => absurd hq' (by simp [hseen]), ?_⟩
  · rw [exists_lt_succ, or_iff_left (fun hc => hconn hc.1)]
    exact h.close
  · intro d hd hf
    rcases Nat.lt_succ_iff_lt_or_eq.mp hd with hlt | rfl
    · exact absurd hf (hnone d hlt)
    · simp only [Parser.clRead, Parser.fill]
      cases lookCl buf (look d) d <;> rfl
  · simp only [Parser.fill]
    cases lookCl buf (look k) k <;> simp
  · simp only [hseen, true_iff]
    exact ⟨k, by omega, hfirst⟩

theorem Filled.again {k : Nat} {p p' : Parser} (h : Filled buf look k p)
    (hcl : header buf contentLengthName k) (hq : (lexAt buf k).clSeen = true)
    (hp : p' = (lexAt buf (k + 1)).fill p.closeFound p.contentLen p.clSeen)
    (hseen : (lexAt buf (k + 1)).clSeen = true) :
    Filled buf look (k + 1) p' := by
  have hconn : ¬ header buf connName k := fun hc => by
    have := nameAtColon_ne contentLengthName (by decide) hc.2.2
    simp [hcl.2.2] at this
  obtain ⟨d₀, hd₀, hf₀⟩ := h.seen.mp hq
  have hfirst : ¬ firstCl buf k := fun hf => hf.2 d₀ hd₀ hf₀.1
  subst hp
  refine ⟨rfl, ?_, ?_, h.unread, fun hq' => absurd hq' (by simp [hseen]), ?_⟩
  · rw [exists_lt_succ, or_iff_left (fun hc => hconn hc.1)]
    exact h.close
  · intro d hd hf
    rcases Nat.lt_succ_iff_lt_or_eq.mp hd with hlt | rfl
    · exact h.value d hlt hf
    · exact absurd hf hfirst
  · simp only [hseen, true_iff]
    exact ⟨d₀, by omega, hf₀⟩

/-- **One byte.**  The parse stays the filled-in path, unless it passes a second
Content-Length whose first it could not read. -/
theorem Filled.step {k : Nat} {p : Parser} (h : Filled buf look k p)
    (hread : ∀ d < k, firstCl buf d → header buf contentLengthName k →
      lookCl buf (look d) d ≠ none) :
    Filled buf look (k + 1) (p.tick buf look) := by
  cases hterm : (lexAt buf k).state.terminal with
  | true =>
      have hnext : lexAt buf (k + 1) = lexAt buf k := by rw [lexAt, if_pos hterm]
      refine h.quiet (not_header_of_terminal hterm) (not_header_of_terminal hterm) ?_
        (by rw [hnext])
      rw [Parser.tick, if_pos (h.state ▸ hterm), hnext]
      exact h.path
  | false =>
      have hoff : (lexAt buf k).off = k := lexAt_off_of hterm
      rw [h.tick_eq hterm]
      by_cases hcolon : (lexAt buf k).state = .hdrNm ∧ buf (lexAt buf k).off = 0x3A
      · obtain ⟨hst, hb⟩ := hcolon
        have hb' : buf k = 0x3A := hoff ▸ hb
        cases hconn : (lexAt buf k).nameAtColon buf connName with
        | true =>
            obtain ⟨hcheck, hseen⟩ := checkName_fill_conn
              (q := { lexAt buf k with state := .hdrVl }) hconn
            obtain ⟨hbyte, hseen'⟩ := fill_byte_colon hst hb hcheck
            rw [hbyte, ← lexAt_succ hterm]
            refine h.conn ⟨hst, hb', hconn⟩ (by rw [hoff]) ?_
            rw [lexAt_succ hterm, hseen', hseen]
        | false =>
            have hno : ¬ header buf connName k := fun hc => by simp [hc.2.2] at hconn
            cases hcl : (lexAt buf k).nameAtColon buf contentLengthName with
            | false =>
                obtain ⟨hcheck, hseen⟩ := checkName_fill_other
                  (q := { lexAt buf k with state := .hdrVl }) hconn hcl
                obtain ⟨hbyte, hseen'⟩ := fill_byte_colon hst hb hcheck
                rw [hbyte, ← lexAt_succ hterm]
                refine h.quiet hno (fun hc => by simp [hc.2.2] at hcl) rfl ?_
                rw [lexAt_succ hterm, hseen', hseen]
            | true =>
                have hhead : header buf contentLengthName k := ⟨hst, hb', hcl⟩
                cases hq : (lexAt buf k).clSeen with
                | false =>
                    have hsn := h.unseen hq
                    have hv := h.unread hsn
                    obtain ⟨hcheck, hseen⟩ := checkName_fill_first
                      (q := { lexAt buf k with state := .hdrVl }) hcl hq
                    obtain ⟨hbyte, hseen'⟩ := fill_byte_colon hst hb hcheck
                    rw [hsn, hv, hbyte, ← lexAt_succ hterm]
                    refine h.first hhead hq (by rw [hoff]) ?_
                    rw [lexAt_succ hterm, hseen', hseen]
                | true =>
                    -- the first value was read, so the second name is an error here too
                    obtain ⟨d, hd, hf⟩ := h.seen.mp hq
                    have hsn : p.clSeen = true := by
                      have hne := hread d hd hf hhead
                      rw [← h.value d hd hf, Parser.clRead] at hne
                      by_contra hc
                      exact hne (if_neg hc)
                    obtain ⟨hcheck, hseen⟩ := checkName_fill_again
                      (q := { lexAt buf k with state := .hdrVl }) hcl hq
                    obtain ⟨hbyte, hseen'⟩ := fill_byte_colon hst hb hcheck
                    rw [hsn, hbyte, ← lexAt_succ hterm]
                    refine h.again hhead hq (by rw [hsn]) ?_
                    rw [lexAt_succ hterm, hseen', hseen]
      · obtain ⟨hbyte, hseen⟩ := fill_byte_plain hcolon
        have hno : ∀ name, ¬ header buf name k := fun _ hc =>
          hcolon ⟨hc.1, by rw [hoff]; exact hc.2.1⟩
        rw [hbyte, ← lexAt_succ hterm]
        exact h.quiet (hno _) (hno _) rfl (by rw [lexAt_succ hterm, hseen])

/-- **The parse is the lexical path with the look-ahead filled in**, as long as the first
Content-Length was read when a second one is met. -/
theorem lookahead_fill {n : Nat}
    (hread : ∀ d k, d < k → k < n → firstCl buf d → header buf contentLengthName k →
      lookCl buf (look d) d ≠ none) :
    ∀ k ≤ n, Filled buf look k (parseWith buf look k)
  | 0, _ => ⟨rfl, by simp [parseWith], by simp, fun _ => rfl, fun _ => rfl, by simp [lexAt]⟩
  | k + 1, hk =>
      (lookahead_fill hread k (by omega)).step fun d hd hf hc => hread d k hd (by omega) hf hc

/-! ## Looking further -/

theorem skipSp_all : ∀ {n pos : Nat}, skipSp buf n pos = pos + n → ∀ j < n, buf (pos + j) = 0x20
  | 0, _, _, j, hj => absurd hj (by omega)
  | n + 1, pos, h, j, hj => by
      rw [skipSp] at h
      split at h
      next hsp =>
        cases j with
        | zero => exact hsp
        | succ j =>
            have := skipSp_all (h.trans (by omega)) j (by omega)
            rwa [show pos + (j + 1) = pos + 1 + j by omega]
      next => omega

theorem skipSp_stop : ∀ {n m pos : Nat}, n ≤ m → skipSp buf n pos < pos + n →
    skipSp buf m pos = skipSp buf n pos
  | 0, _, _, _, h => absurd h (Nat.lt_irrefl _)
  | n + 1, 0, _, hm, _ => absurd hm (by omega)
  | n + 1, m + 1, pos, hm, h => by
      rw [skipSp] at h ⊢
      rw [skipSp]
      split
      next hsp =>
        rw [if_pos hsp] at h
        exact skipSp_stop (by omega) (by omega)
      next => rfl

theorem lookClose_mono {len len' off : Nat} (hle : len ≤ len')
    (h : lookClose buf len off = true) : lookClose buf len' off = true := by
  simp only [lookClose, Bool.and_eq_true, decide_eq_true_eq] at h ⊢
  have hsame : valueStart buf len' off = valueStart buf len off :=
    skipSp_stop (by omega) (by
      have := h.1
      simp only [valueStart] at this
      omega)
  rw [hsame]
  exact ⟨by omega, h.2⟩

theorem lexAt_spaces {d : Nat} (hst : (lexAt buf (d + 1)).state = .hdrVl) :
    ∀ j, (∀ i < j, buf (d + 1 + i) = 0x20) → (lexAt buf (d + 1 + j)).state = .hdrVl
  | 0, _ => hst
  | j + 1, hsp => by
      have ih := lexAt_spaces hst j fun i hi => hsp i (by omega)
      have hterm : (lexAt buf (d + 1 + j)).state.terminal = false := by rw [ih]; rfl
      have hoff : (lexAt buf (d + 1 + j)).off = d + 1 + j :=
        lexAt_off_of hterm
      rw [show d + 1 + (j + 1) = (d + 1 + j) + 1 by omega, lexAt_succ hterm, Parser.lexByte, ih,
        hoff, hsp j (by omega)]
      rfl

theorem firstCl_value {d : Nat} (hf : firstCl buf d) : (lexAt buf (d + 1)).state = .hdrVl := by
  obtain ⟨⟨hst, hb, hname⟩, hno⟩ := hf
  have hterm : (lexAt buf d).state.terminal = false := by rw [hst]; rfl
  have hoff : (lexAt buf d).off = d := lexAt_off_of hterm
  have hfill : Filled buf id d (parseWith buf id d) :=
    lookahead_fill (fun _ k _ hk _ hc => absurd hc (hno k hk)) d (Nat.le_refl d)
  have hq : (lexAt buf d).clSeen = false := by
    by_contra hc
    obtain ⟨d', hd', hf'⟩ := hfill.seen.mp (by simpa using hc)
    exact hno d' hd' hf'.1
  rw [lexAt_succ hterm]
  exact lexByte_first hname hst (by rw [hoff, hb]) hq

/-- If another header follows, the whole string holds the value of the first Content-Length. -/
theorem lookCl_of_later {d k n : Nat} (hdk : d < k) (hkn : k < n) (hf : firstCl buf d)
    (hk : header buf contentLengthName k) : lookCl buf n d ≠ none := by
  intro hnone
  have hstart : ¬ valueStart buf n d < n := fun hlt => by simp [lookCl, hlt] at hnone
  have hle := skipSp_le buf (n - (d + 1)) (d + 1)
  have hend : skipSp buf (n - (d + 1)) (d + 1) = d + 1 + (n - (d + 1)) := by
    simp only [valueStart] at hstart
    omega
  have hall := skipSp_all hend
  have hst := lexAt_spaces (firstCl_value hf) (k - (d + 1)) fun i hi => hall i (by omega)
  rw [show d + 1 + (k - (d + 1)) = k by omega, hk.1] at hst
  cases hst

end

theorem cutAfter_le : ∀ (as : List (List Byte)) (got c : Nat),
    cutAfter got as c ≤ got + as.flatten.length
  | [], _, _ => Nat.le_refl _
  | a :: as, got, c => by
      have := cutAfter_le as (got + a.length) c
      simp only [cutAfter, List.flatten_cons, List.length_append]
      split <;> omega

/-! ## The law -/

def Parser.sameFields (p p' : Parser) : Prop :=
  p.state = p'.state ∧ p.uriStart = p'.uriStart ∧ p.uriLen = p'.uriLen ∧
  p.verMinor = p'.verMinor ∧ p.hostFound = p'.hostFound ∧ p.closeFound = p'.closeFound ∧
  p.contentLen = p'.contentLen ∧ p.clSeen = p'.clSeen ∧ p.reqLen = p'.reqLen

instance (p p' : Parser) : Decidable (p.sameFields p') :=
  inferInstanceAs (Decidable (_ ∧ _ ∧ _ ∧ _ ∧ _ ∧ _ ∧ _ ∧ _ ∧ _))

/-- **No value is cut short.**  When the first Content-Length colon is parsed, the bytes that
have arrived give the value that the whole string gives; and if some Connection header of the
string says `close`, one of them does so already in the bytes that have arrived at its colon. -/
def valuesBuffered (as : List (List Byte)) : Prop :=
  let buf := bytesOf as.flatten
  let n := as.flatten.length
  (∀ d < n, firstCl buf d → lookCl buf (cutAfter 0 as d) d = lookCl buf n d) ∧
  ((∃ c < n, header buf connName c ∧ lookClose buf n c = true) →
    ∃ c < n, header buf connName c ∧ lookClose buf (cutAfter 0 as c) c = true)

instance (as : List (List Byte)) : Decidable (valuesBuffered as) :=
  inferInstanceAs (Decidable (_ ∧ (_ → _)))

/-- The string has at most one Content-Length header. -/
def singleCl (data : List Byte) : Prop :=
  ∀ d < data.length, header (bytesOf data) contentLengthName d →
    ∀ d' < data.length, header (bytesOf data) contentLengthName d' → d = d'

section
variable {buf : Nat → Byte} {look look' : Nat → Nat} {k : Nat} {p p' : Parser}

theorem Filled.field {α : Type} (h : Filled buf look k p) (h' : Filled buf look' k p')
    (f : Parser → α) (hf : ∀ q cf v sn, f (Parser.fill q cf v sn) = f q) : f p = f p' := by
  rw [h.path, h'.path, hf, hf]

theorem Filled.same_length (h : Filled buf look k p) (h' : Filled buf look' k p')
    (hread : p.clRead = p'.clRead) : p.contentLen = p'.contentLen ∧ p.clSeen = p'.clSeen := by
  simp only [Parser.clRead] at hread
  cases hs : p.clSeen <;> cases hs' : p'.clSeen <;> simp only [hs, hs'] at hread
  · exact ⟨by rw [h.unread hs, h'.unread hs'], rfl⟩
  · cases hread
  · cases hread
  · exact ⟨by simpa using hread, rfl⟩

theorem Filled.same_iff (h : Filled buf look k p) (h' : Filled buf look' k p') :
    p.sameFields p' ↔ p.closeFound = p'.closeFound ∧ p.clRead = p'.clRead := by
  constructor
  · rintro ⟨-, -, -, -, -, hclose, hlen, hseen, -⟩
    exact ⟨hclose, by rw [Parser.clRead, Parser.clRead, hlen, hseen]⟩
  · rintro ⟨hclose, hread⟩
    have hcl := h.same_length h' hread
    exact ⟨h.field h' _ fun _ _ _ _ => rfl, h.field h' _ fun _ _ _ _ => rfl,
      h.field h' _ fun _ _ _ _ => rfl, h.field h' _ fun _ _ _ _ => rfl,
      h.field h' _ fun _ _ _ _ => rfl, hclose, hcl.1, hcl.2, h.field h' _ fun _ _ _ _ => rfl⟩

end

theorem httpParseRequest_whole (data : List Byte) :
    httpParseRequest (bytesOf data) data.length {} =
      parseWith (bytesOf data) (fun _ => data.length) data.length :=
  httpParseRequest_parseWith (k := 0) (Nat.zero_le _) fun _ _ _ => rfl

theorem parseArrivals_cut (as : List (List Byte)) :
    parseArrivals [] {} as =
      parseWith (bytesOf as.flatten) (cutAfter 0 as) as.flatten.length :=
  parseArrivals_parseWith (cutAfter 0 as) (bytesOf as.flatten) as [] (fun _ _ => rfl)
    fun _ _ _ => rfl

theorem Filled.clRead_none {buf : Nat → Byte} {look : Nat → Nat} {k : Nat} {p : Parser}
    (h : Filled buf look k p) (hno : ¬ ∃ d < k, firstCl buf d) : p.clRead = none := by
  have hq : (lexAt buf k).clSeen = false := by
    by_contra hc
    exact hno (h.seen.mp (by simpa using hc))
  rw [Parser.clRead, h.unseen hq]
  rfl

/-- **No length is cut short.** -/
def LengthsStand (as : List (List Byte)) : Prop :=
  ∀ d < as.flatten.length, firstCl (bytesOf as.flatten) d →
    lookCl (bytesOf as.flatten) (cutAfter 0 as d) d
      = lookCl (bytesOf as.flatten) as.flatten.length d

theorem whole_filled (data : List Byte) : Filled (bytesOf data) (fun _ => data.length) data.length
    (httpParseRequest (bytesOf data) data.length {}) := by
  rw [httpParseRequest_whole]
  exact lookahead_fill (fun _ _ hdk hk hf hc => lookCl_of_later hdk hk hf hc) _ (Nat.le_refl _)

theorem LengthsStand.filled {as : List (List Byte)} (h : LengthsStand as) :
    Filled (bytesOf as.flatten) (cutAfter 0 as) as.flatten.length (parseArrivals [] {} as) := by
  rw [parseArrivals_cut]
  refine lookahead_fill (fun d k hdk hk hf hc => ?_) _ (Nat.le_refl _)
  rw [h d (by omega) hf]
  exact lookCl_of_later hdk hk hf hc

theorem LengthsStand.clRead {as : List (List Byte)} (h : LengthsStand as) :
    (parseArrivals [] {} as).clRead =
      (httpParseRequest (bytesOf as.flatten) as.flatten.length {}).clRead := by
  have hpieces := h.filled
  have hwhole := whole_filled as.flatten
  by_cases hex : ∃ d < as.flatten.length, firstCl (bytesOf as.flatten) d
  · obtain ⟨d, hd, hf⟩ := hex
    rw [hpieces.value d hd hf, hwhole.value d hd hf]
    exact h d hd hf
  · rw [hpieces.clRead_none hex, hwhole.clRead_none hex]

/-- **The parse in pieces and the parse of the whole.**  Where no value is cut short the nine
fields agree, for every string and every way of cutting it; and for a string with at most one
Content-Length header they agree nowhere else. -/
theorem split_same_iff (as : List (List Byte)) :
    (valuesBuffered as →
      (parseArrivals [] {} as).sameFields
        (httpParseRequest (bytesOf as.flatten) as.flatten.length {})) ∧
    (singleCl as.flatten →
      (parseArrivals [] {} as).sameFields
        (httpParseRequest (bytesOf as.flatten) as.flatten.length {}) →
      valuesBuffered as) := by
  have hcut : ∀ c, cutAfter 0 as c ≤ as.flatten.length := by
    intro c
    have := cutAfter_le as 0 c
    omega
  constructor
  · rintro ⟨hvalue, hclose⟩
    have hstand : LengthsStand as := hvalue
    have hwhole := whole_filled as.flatten
    refine (hstand.filled.same_iff hwhole).mpr ⟨?_, hstand.clRead⟩
    rw [Bool.eq_iff_iff, hstand.filled.close, hwhole.close]
    constructor
    · rintro ⟨c, hc, hh, hl⟩
      exact ⟨c, hc, hh, lookClose_mono (hcut c) hl⟩
    · exact hclose
  · rw [httpParseRequest_whole, parseArrivals_cut]
    intro hsingle hsame
    -- there is no second Content-Length, so no parse can stop at one
    have hfill : ∀ look, Filled (bytesOf as.flatten) look as.flatten.length
        (parseWith (bytesOf as.flatten) look as.flatten.length) := fun look =>
      lookahead_fill (fun d k hdk hk hf hc =>
        absurd (hsingle d (by omega) hf.1 k hk hc) (by omega)) _ (Nat.le_refl _)
    obtain ⟨hclose, hread⟩ := ((hfill _).same_iff (hfill _)).mp hsame
    constructor
    · intro d hd hf
      rw [← (hfill (cutAfter 0 as)).value d hd hf, ← (hfill fun _ => _).value d hd hf]
      exact hread
    · intro hex
      rw [← (hfill (cutAfter 0 as)).close, hclose, (hfill fun _ => _).close]
      exact hex

/-- A request with both headers, cut behind the line of the last one. -/
def cutAtLineEnd : List (List Byte) :=
  [ascii "GET / HTTP/1.1\r\nHost: a\r\nConnection: close\r\nContent-Length: 0\r\n",
    ascii "\r\n"]

/-- A request cut between the digits of its Content-Length. -/
def cutInDigits : List (List Byte) :=
  [ascii "POST / HTTP/1.1\r\nContent-Length: 1", ascii "2\r\n\r\n"]

theorem parse_same_at_line_end : valuesBuffered cutAtLineEnd ∧
    (parseArrivals [] {} cutAtLineEnd).sameFields
      (httpParseRequest (bytesOf cutAtLineEnd.flatten) cutAtLineEnd.flatten.length {}) :=
  have h : valuesBuffered cutAtLineEnd := by decide +kernel
  ⟨h, (split_same_iff cutAtLineEnd).1 h⟩

/-- The parse in pieces reads a body of 1 byte, the parse of the whole one of 12. -/
theorem parse_differs_in_digits : ¬ (parseArrivals [] {} cutInDigits).sameFields
    (httpParseRequest (bytesOf cutInDigits.flatten) cutInDigits.flatten.length {}) := by
  decide +kernel

end WsPi5

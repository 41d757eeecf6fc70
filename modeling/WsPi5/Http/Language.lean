/-
# `WsPi5.Http.Language` — what the parser accepts, and what it gives up on

`http_parse_request` in one call on all that is buffered, against the grammar of
`WsPi5.Http.Grammar`.  `head_parsed` is one half: a head at the start of the buffer is accepted.
For the other half the lexical path is followed byte by byte: in every state but S_ERROR there is a
draft of a head, and the bytes read so far are how it was written (`Drafted`).

    S_DONE        the draft is a head: the buffer begins with one
    S_ERROR       the path went wrong at some byte, and does so whatever follows
    other         the draft can be completed, so some bytes behind the buffer would be accepted

**Proved here** (`parser_language`): the parser is done exactly on the buffers that begin with a
head, it stops in S_ERROR exactly on those that no extension makes into such a buffer, and what it
has then stored are the parts of the head, whose end is where `http_find_end_of_headers` finds it.
-/
import WsPi5.Http.HeadRun

namespace WsPi5

open Lib

/-! ## The end of the headers -/

section
variable (buf : Nat → Byte)

/-- CR LF CR LF from here on. -/
def blankLineAt (i : Nat) : Prop :=
  buf i = 0x0D ∧ buf (i + 1) = 0x0A ∧ buf (i + 2) = 0x0D ∧ buf (i + 3) = 0x0A

instance (i : Nat) : Decidable (blankLineAt buf i) := inferInstanceAs (Decidable (_ ∧ _))

/-- `.Lfeh_scan`, at most `n` positions. -/
def fehScan : Nat → Nat → Option Nat
  | 0, _ => none
  | n + 1, i => if blankLineAt buf i then some (i + 4) else fehScan n (i + 1)

/-- `http_find_end_of_headers`: the offset past CR LF CR LF. -/
def httpFindEndOfHeaders (len : Nat) : Option Nat :=
  if len < 4 then none else fehScan buf (len - 3) 0

end

theorem fehScan_first {buf : Nat → Byte} {j : Nat} (hj : blankLineAt buf j) : ∀ {n i : Nat},
    i ≤ j → j < i + n → (∀ k < j, ¬ blankLineAt buf k) → fehScan buf n i = some (j + 4) := by
  intro n
  induction n with
  | zero => intro i hi hn _; omega
  | succ n ih =>
      intro i hi hn hno
      rw [fehScan]
      rcases Nat.eq_or_lt_of_le hi with rfl | hlt
      · exact if_pos hj
      · rw [if_neg (hno i hlt)]
        exact ih hlt (by omega) hno

/-! ## Classes -/

section
variable {b : Byte}

theorem inUri_of_class (hsp : httpClassifyChar b ≠ .sp) (hcr : httpClassifyChar b ≠ .cr)
    (hlf : httpClassifyChar b ≠ .lf) : InUri b := by
  refine ⟨?_, ?_, ?_⟩
  · rintro rfl; exact hsp rfl
  · rintro rfl; exact hcr rfl
  · rintro rfl; exact hlf rfl

theorem inValue_of_class (hcr : httpClassifyChar b ≠ .cr) (hlf : httpClassifyChar b ≠ .lf) :
    InValue b := by
  refine ⟨?_, ?_⟩
  · rintro rfl; exact hcr rfl
  · rintro rfl; exact hlf rfl

end

/-! ## Drafts along the table -/

/-- A Content-Length has been read, or its name has. -/
def Draft.hasLength (d : Draft) : ParseState → Bool
  | .hdrSt | .hdrNm | .endCr | .done => d.head.fields.any fun f => isName contentLengthName f.1
  | .hdrVl | .hdrCr =>
      (d.head.fields.any fun f => isName contentLengthName f.1) || isName contentLengthName d.name
  | _ => false

/-- The draft after a byte that is no colon behind a name. -/
structure Draft.Passes (d : Draft) (s : ParseState) (b : Byte) (d' : Draft) (t : ParseState) :
    Prop where
  grows : d.Grows s b d' t
  length : d'.hasLength t = d.hasLength s
  head : t = .hdrNm → d'.head = d.head

section
variable {d : Draft} {s t : ParseState} {a : Action} {b : Byte} {c : CharClass}

theorem table_oneWay (only : CharClass) (hrow : ∀ c, c = only ∨ (httpFsaTable s c).2 = .error)
    (ht : httpFsaTable s c = (a, t)) (hne : t ≠ .error) : c = only := by
  rcases hrow c with hc | herr
  · exact hc
  · rw [ht] at herr
    exact absurd herr hne

theorem Draft.passes_method (h : d.Ok .method) (hc : httpClassifyChar b = c)
    (ht : httpFsaTable .method c = (a, t)) (hne : t ≠ .error) :
    ∃ d', d.Passes .method b d' t := by
  cases c with
  | alpha =>
      cases ht
      exact ⟨_, method_letter h (class_has hc), rfl, nofun⟩
  | sp =>
      cases ht
      obtain rfl : b = 0x20 := class_has hc
      exact ⟨_, method_sp h, rfl, nofun⟩
  | _ => cases ht; exact absurd rfl hne

theorem Draft.passes_mSp (h : d.Ok .mSp) (hc : httpClassifyChar b = c)
    (ht : httpFsaTable .mSp c = (a, t)) (hne : t ≠ .error) : ∃ d', d.Passes .mSp b d' t := by
  cases c with
  | sp => cases ht; exact absurd rfl hne
  | cr => cases ht; exact absurd rfl hne
  | lf => cases ht; exact absurd rfl hne
  | _ =>
      cases ht
      exact ⟨_, uri_first h (inUri_of_class (by simp [hc]) (by simp [hc]) (by simp [hc])), rfl,
        nofun⟩

theorem Draft.passes_uri (h : d.Ok .uri) (hc : httpClassifyChar b = c)
    (ht : httpFsaTable .uri c = (a, t)) (hne : t ≠ .error) : ∃ d', d.Passes .uri b d' t := by
  cases c with
  | sp =>
      cases ht
      obtain rfl : b = 0x20 := class_has hc
      exact ⟨_, uri_sp h, rfl, nofun⟩
  | cr => cases ht; exact absurd rfl hne
  | lf => cases ht; exact absurd rfl hne
  | _ =>
      cases ht
      exact ⟨_, uri_more h (inUri_of_class (by simp [hc]) (by simp [hc]) (by simp [hc])), rfl,
        nofun⟩

theorem Draft.passes_hdrSt (h : d.Ok .hdrSt) (hc : httpClassifyChar b = c)
    (ht : httpFsaTable .hdrSt c = (a, t)) (hne : t ≠ .error) : ∃ d', d.Passes .hdrSt b d' t := by
  cases c with
  | alpha =>
      cases ht
      exact ⟨_, name_first h (class_has hc), rfl, fun _ => rfl⟩
  | cr =>
      cases ht
      obtain rfl : b = 0x0D := class_has hc
      exact ⟨_, end_cr h, rfl, nofun⟩
  | _ => cases ht; exact absurd rfl hne

theorem Draft.passes_hdrNm (h : d.Ok .hdrNm) (hc : httpClassifyChar b = c)
    (ht : httpFsaTable .hdrNm c = (a, t)) (hne : t ≠ .error) (ha : a ≠ .hdrCheckHost) :
    ∃ d', d.Passes .hdrNm b d' t := by
  cases c with
  | sp => cases ht; exact absurd rfl hne
  | cr => cases ht; exact absurd rfl hne
  | lf => cases ht; exact absurd rfl hne
  | colon => cases ht; exact absurd rfl ha
  | _ =>
      cases ht
      have hb : InName b :=
        ⟨inUri_of_class (by simp [hc]) (by simp [hc]) (by simp [hc]),
          mt classify_colon.mpr (by simp [hc])⟩
      exact ⟨_, name_more h hb, rfl, fun _ => rfl⟩

theorem Draft.passes_hdrVl (h : d.Ok .hdrVl) (hc : httpClassifyChar b = c)
    (ht : httpFsaTable .hdrVl c = (a, t)) (hne : t ≠ .error) : ∃ d', d.Passes .hdrVl b d' t := by
  cases c with
  | cr =>
      cases ht
      obtain rfl : b = 0x0D := class_has hc
      exact ⟨_, value_cr h, rfl, nofun⟩
  | lf => cases ht; exact absurd rfl hne
  | _ =>
      cases ht
      exact ⟨_, value_more h (inValue_of_class (by simp [hc]) (by simp [hc])), rfl, nofun⟩

theorem Draft.passes_letter (hs : s = .uSp ∨ s = .vh ∨ s = .vt1 ∨ s = .vt2) (h : d.Ok s)
    (hc : httpClassifyChar b = c) (ht : httpFsaTable s c = (a, t)) (hne : t ≠ .error) :
    ∃ d', d.Passes s b d' t := by
  have halpha : c = .alpha := by
    refine table_oneWay .alpha (fun c => ?_) ht hne
    rcases hs with rfl | rfl | rfl | rfl <;> cases c <;> simp [httpFsaTable]
  subst halpha
  rcases hs with rfl | rfl | rfl | rfl <;> cases ht
  all_goals
    exact ⟨_, version_letter h (class_has hc) rfl (fun _ => rfl) rfl fun _ => rfl, rfl, nofun⟩

/-- **One byte of the table.** -/
theorem Draft.passes (h : d.Ok s) (hc : httpClassifyChar b = c) (ht : httpFsaTable s c = (a, t))
    (hs : s ≠ .done) (hne : t ≠ .error) (ha : a ≠ .hdrCheckHost) : ∃ d', d.Passes s b d' t := by
  cases s with
  | method => exact passes_method h hc ht hne
  | mSp => exact passes_mSp h hc ht hne
  | uri => exact passes_uri h hc ht hne
  | uSp | vh | vt1 | vt2 => exact passes_letter (by simp) h hc ht hne
  | vp =>
      obtain rfl := table_oneWay .slash (fun c => by cases c <;> simp [httpFsaTable]) ht hne
      cases ht
      obtain rfl : b = 0x2F := class_has hc
      exact ⟨_, slash h, rfl, nofun⟩
  | vslash =>
      obtain rfl := table_oneWay .digit (fun c => by cases c <;> simp [httpFsaTable]) ht hne
      cases ht
      exact ⟨_, major_digit h (class_has hc), rfl, nofun⟩
  | vmaj =>
      obtain rfl := table_oneWay .dot (fun c => by cases c <;> simp [httpFsaTable]) ht hne
      cases ht
      obtain rfl : b = 0x2E := class_has hc
      exact ⟨_, dot h, rfl, nofun⟩
  | vdot =>
      obtain rfl := table_oneWay .digit (fun c => by cases c <;> simp [httpFsaTable]) ht hne
      cases ht
      exact ⟨_, minor_digit h (class_has hc), rfl, nofun⟩
  | vmin =>
      obtain rfl := table_oneWay .cr (fun c => by cases c <;> simp [httpFsaTable]) ht hne
      cases ht
      obtain rfl : b = 0x0D := class_has hc
      exact ⟨_, line_cr h, rfl, nofun⟩
  | rlCr =>
      obtain rfl := table_oneWay .lf (fun c => by cases c <;> simp [httpFsaTable]) ht hne
      cases ht
      obtain rfl : b = 0x0A := class_has hc
      exact ⟨_, line_lf h, rfl, nofun⟩
  | hdrSt => exact passes_hdrSt h hc ht hne
  | hdrNm => exact passes_hdrNm h hc ht hne ha
  | hdrVl => exact passes_hdrVl h hc ht hne
  | hdrCr =>
      obtain rfl := table_oneWay .lf (fun c => by cases c <;> simp [httpFsaTable]) ht hne
      cases ht
      obtain rfl : b = 0x0A := class_has hc
      exact ⟨_, value_lf h, List.any_append.trans (by simp [Draft.hasLength]), nofun⟩
  | endCr =>
      obtain rfl := table_oneWay .lf (fun c => by cases c <;> simp [httpFsaTable]) ht hne
      cases ht
      obtain rfl : b = 0x0A := class_has hc
      exact ⟨_, end_lf h, rfl, nofun⟩
  | done => exact absurd rfl hs
  | error => exact h.elim

end

/-! ## The lexical path -/

/-- The draft of the lexical path: the bytes that were read are how it was written. -/
structure Drafted (bs : List Byte) (d : Draft) (q : Parser) : Prop where
  ok : d.Ok q.state
  text : d.text q.state = bs.take q.off
  fits : q.off ≤ bs.length
  start : q.state = .hdrNm → q.hdrNmStart = d.head.lines.length
  seen : q.clSeen = d.hasLength q.state

section
variable {bs : List Byte} {d : Draft} {q : Parser}

theorem take_bytesOf {k : Nat} (hk : k < bs.length) :
    bs.take (k + 1) = bs.take k ++ [bytesOf bs k] := by
  rw [List.take_succ_eq_append_getElem hk, bytesOf, List.getD_eq_getElem?_getD,
    List.getElem?_eq_getElem hk, Option.getD_some]

theorem Drafted.length (h : Drafted bs d q) : (d.text q.state).length = q.off := by
  rw [h.text, List.length_take, Nat.min_eq_left h.fits]

theorem lexByte_plain {buf : Nat → Byte} {a : Action} {t : ParseState}
    (ht : httpFsaTable q.state (httpClassifyChar (buf q.off)) = (a, t)) (ha : a ≠ .hdrCheckHost) :
    (q.lexByte buf).state = t ∧ (q.lexByte buf).clSeen = q.clSeen ∧
      (q.lexByte buf).hdrNmStart = if a = .hdrNameStart then q.off else q.hdrNmStart := by
  simp only [Parser.lexByte, ht, if_neg ha]
  cases a with
  | hdrCheckHost => exact absurd rfl ha
  | _ => exact ⟨rfl, rfl, rfl⟩

theorem table_to_name {s : ParseState} {c : CharClass} {a : Action}
    (h : httpFsaTable s c = (a, .hdrNm)) :
    s = .hdrSt ∧ a = .hdrNameStart ∨ s = .hdrNm ∧ a = .none := by
  cases s <;> cases c <;> cases h <;> simp

theorem Drafted.plain (h : Drafted bs d q) (hterm : q.state.terminal = false)
    (hoff : q.off < bs.length) (hno : ¬ (q.state = .hdrNm ∧ bytesOf bs q.off = 0x3A)) :
    (q.lexByte (bytesOf bs)).state = .error ∨ ∃ d', Drafted bs d' (q.lexByte (bytesOf bs)) := by
  obtain ⟨a, t, ht⟩ : ∃ a t, httpFsaTable q.state (httpClassifyChar (bytesOf bs q.off)) = (a, t) :=
    ⟨_, _, rfl⟩
  have ha : a ≠ .hdrCheckHost := fun ha => hno (hdrCheckHost_iff.mp (by rw [ht, ha]))
  obtain ⟨hstate, hseen, hstart⟩ := lexByte_plain ht ha
  have hnext := @Parser.lexByte_off (bytesOf bs) q
  by_cases hne : t = .error
  · exact .inl (hstate.trans hne)
  have hdone : q.state ≠ .done := by
    intro hd
    rw [hd] at hterm
    cases hterm
  obtain ⟨d', hgrows, hlength, hhead⟩ := Draft.passes h.ok rfl ht hdone hne ha
  refine .inr ⟨d', ?_, ?_, ?_, ?_, ?_⟩
  · rw [hstate]
    exact hgrows.ok
  · rw [hstate, hnext, take_bytesOf hoff, ← h.text]
    exact hgrows.text
  · omega
  · intro hname
    have ht' : t = .hdrNm := hstate.symm.trans hname
    rw [hstart, hhead ht']
    subst ht'
    rcases table_to_name ht with ⟨hs, rfl⟩ | ⟨hs, rfl⟩
    · have hcount := h.length
      rw [hs] at hcount
      exact hcount.symm
    · exact h.start hs
  · rw [hstate, hseen, hlength, h.seen]

theorem Drafted.name (h : Drafted bs d q) (hs : q.state = .hdrNm) :
    BufHolds (bytesOf bs) q.hdrNmStart d.name ∧ q.off = q.hdrNmStart + d.name.length := by
  have hcount := h.length
  have htext := h.text
  rw [hs] at hcount htext
  have hsplit : bs = d.head.lines ++ (d.name ++ bs.drop q.off) := by
    rw [← List.append_assoc]
    exact (List.take_append_drop q.off bs).symm.trans (congrArg (· ++ bs.drop q.off) htext.symm)
  rw [h.start hs]
  constructor
  · have hall := bytesOf_holds bs
    generalize bytesOf bs = buf at hall ⊢
    rw [hsplit] at hall
    have hright := hall.right
    rw [Nat.zero_add] at hright
    exact hright.left
  · rw [← hcount, Draft.text, List.length_append]

theorem Drafted.colon (h : Drafted bs d q) (hs : q.state = .hdrNm) (hoff : q.off < bs.length)
    (hb : bytesOf bs q.off = 0x3A) :
    (q.lexByte (bytesOf bs)).state = .error ∨ ∃ d', Drafted bs d' (q.lexByte (bytesOf bs)) := by
  obtain ⟨hname, hcount⟩ := h.name hs
  have hok : d.Ok .hdrNm := hs ▸ h.ok
  have hhost := @nameAtColon_holds _ { q with state := .hdrVl } d.name hostName hname hcount
    hok.2.name (known_letters (.head _))
  have hcl := @nameAtColon_holds _ { q with state := .hdrVl } d.name contentLengthName hname hcount
    hok.2.name (known_letters (.tail _ (.tail _ (.head _))))
  have hseen : q.clSeen = d.head.fields.any fun f => isName contentLengthName f.1 := by
    rw [h.seen, hs]
    rfl
  have hbyte : q.lexByte (bytesOf bs) =
      { ({ q with state := .hdrVl } : Parser).lexName (bytesOf bs) with off := q.off + 1 } := by
    have hnext := @Parser.lexByte_off (bytesOf bs) q
    rw [← hnext]
    simp only [Parser.lexByte, table_colon hs hb, if_true]
  -- what is drafted if the name is not that of a second Content-Length
  have hdrafted : ∀ r : Parser, r.state = .hdrVl → r.off = q.off + 1 → d.NoSecond →
      r.clSeen = (q.clSeen || isName contentLengthName d.name) →
      ∃ d', Drafted bs d' r := by
    intro r hst hr hno hsn
    have hgrows := Draft.colon hok hno
    refine ⟨{ d with value := [] }, ?_, ?_, by omega, ?_, ?_⟩
    · rw [hst]
      exact hgrows.ok
    · rw [hst, hr, take_bytesOf hoff, hb, ← h.text, hs]
      exact hgrows.text
    · intro hnm
      rw [hst] at hnm
      cases hnm
    · rw [hsn, hseen, hst]
      rfl
  rw [hbyte, Parser.lexName, hhost, hcl]
  cases h₁ : isName hostName d.name with
  | true =>
      have h₂ : isName contentLengthName d.name = false := isName_ne h₁ (by decide)
      refine .inr (hdrafted _ rfl rfl ?_ ?_)
      · intro h₃
        rw [h₂] at h₃
        cases h₃
      · rw [h₂, Bool.or_false]
        rfl
  | false =>
      rw [if_neg Bool.false_ne_true]
      cases h₂ : isName contentLengthName d.name with
      | false =>
          refine .inr (hdrafted _ rfl rfl ?_ ?_)
          · intro h₃
            rw [h₂] at h₃
            cases h₃
          · rw [h₂, Bool.or_false]
            rfl
      | true =>
          rw [if_pos rfl]
          cases h₃ : q.clSeen with
          | true => exact .inl rfl
          | false =>
              rw [if_neg Bool.false_ne_true]
              refine .inr (hdrafted _ rfl rfl ?_ ?_)
              · intro _
                rw [hseen] at h₃
                exact List.filter_eq_nil_iff.mpr fun f hf => by
                  simpa using List.any_eq_false.mp h₃ f hf
              · rw [h₂, Bool.or_true]

/-- **The lexical path** of a string, at every byte: an error, or a draft. -/
theorem lexAt_drafted (bs : List Byte) : ∀ k ≤ bs.length,
    (lexAt (bytesOf bs) k).state = .error ∨ ∃ d, Drafted bs d (lexAt (bytesOf bs) k) := by
  intro k
  induction k with
  | zero =>
      exact fun _ => .inr ⟨{}, fun _ hb => (nomatch hb), rfl, Nat.zero_le _, nofun, rfl⟩
  | succ k ih =>
      intro hk
      cases hterm : (lexAt (bytesOf bs) k).state.terminal with
      | true =>
          rw [lexAt, if_pos hterm]
          exact ih (by omega)
      | false =>
          rw [lexAt_succ hterm]
          rcases ih (by omega) with herr | ⟨d, hd⟩
          · rw [herr] at hterm
            cases hterm
          have hoff := lexAt_off_of hterm
          by_cases hcolon : (lexAt (bytesOf bs) k).state = .hdrNm ∧
              bytesOf bs (lexAt (bytesOf bs) k).off = 0x3A
          · exact hd.colon hcolon.1 (by omega) hcolon.2
          · exact hd.plain hterm (by omega) hcolon

end

/-! ## One call -/

/-- Two records that differ where nothing is read before it is written. -/
structure SamePath (p q : Parser) : Prop where
  state : p.state = q.state
  off : p.off = q.off
  seen : p.clSeen = q.clSeen
  start : p.state = .hdrNm → p.hdrNmStart = q.hdrNmStart

section
variable {buf buf' : Nat → Byte} {len : Nat} {p q : Parser}

theorem checkName_marks (buf : Nat → Byte) (len : Nat) (p : Parser) :
    ((p.checkName buf len).state, (p.checkName buf len).clSeen) =
      if p.nameAtColon buf contentLengthName then
        if p.clSeen then (.error, true) else (p.state, (lookCl buf len p.off).isSome)
      else (p.state, p.clSeen) := by
  cases hcl : p.nameAtColon buf contentLengthName with
  | false =>
      rw [if_neg Bool.false_ne_true, Parser.checkName, hcl]
      cases p.nameAtColon buf hostName with
      | true => rfl
      | false =>
          cases p.nameAtColon buf connName with
          | true => rfl
          | false => rfl
  | true =>
      have hhost : p.nameAtColon buf hostName = false := nameAtColon_ne hostName (by decide) hcl
      have hconn : p.nameAtColon buf connName = false := nameAtColon_ne connName (by decide) hcl
      rw [if_pos rfl, Parser.checkName, hhost, hconn, hcl, if_neg Bool.false_ne_true,
        if_neg Bool.false_ne_true, if_pos rfl, Parser.readCl]
      cases hseen : p.clSeen with
      | true =>
          rw [if_pos rfl, if_pos rfl]
      | false =>
          rw [if_neg Bool.false_ne_true, if_neg Bool.false_ne_true]
          cases lookCl buf len p.off with
          | none => exact congrArg (Prod.mk p.state) hseen
          | some v => rfl

theorem SamePath.checkName (hoff : p.off = q.off) (hstate : p.state = .hdrVl)
    (hstate' : q.state = .hdrVl) (hseen : p.clSeen = q.clSeen)
    (hstart : p.hdrNmStart = q.hdrNmStart) :
    (p.checkName buf len).state = (q.checkName buf len).state ∧
      (p.checkName buf len).clSeen = (q.checkName buf len).clSeen ∧
      (p.checkName buf len).state ≠ .hdrNm := by
  have hname : p.nameAtColon buf contentLengthName = q.nameAtColon buf contentLengthName := by
    rw [Parser.nameAtColon, Parser.nameAtColon, hoff, hstart]
  have hmarks := checkName_marks buf len p
  have hsame := hmarks
  rw [hname, hseen, hoff, hstate, ← hstate', ← checkName_marks buf len q] at hsame
  refine ⟨congrArg Prod.fst hsame, congrArg Prod.snd hsame, ?_⟩
  have hstop := congrArg Prod.fst hmarks
  rw [hstate] at hstop
  intro hnm
  rw [hnm] at hstop
  split at hstop
  · split at hstop <;> cases hstop
  · cases hstop

theorem SamePath.byte (h : SamePath p q) : SamePath (p.byte buf len) (q.byte buf len) := by
  have hturn : httpFsaTable p.state (httpClassifyChar (buf p.off)) =
      httpFsaTable q.state (httpClassifyChar (buf q.off)) := by
    rw [h.state, h.off]
  obtain ⟨a, t, ht⟩ : ∃ a t, httpFsaTable q.state (httpClassifyChar (buf q.off)) = (a, t) :=
    ⟨_, _, rfl⟩
  have hnext : (p.byte buf len).off = (q.byte buf len).off := by
    rw [Parser.byte_off, Parser.byte_off, h.off]
  rw [ht] at hturn
  by_cases ha : a = .hdrCheckHost
  · have hcolon := hdrCheckHost_iff.mp (by rw [ht, ha] : (httpFsaTable q.state _).1 = .hdrCheckHost)
    have htarget : t = .hdrVl := by
      rw [table_colon hcolon.1 hcolon.2] at ht
      exact (congrArg Prod.snd ht).symm
    obtain ⟨hstate, hseen, hne⟩ := @SamePath.checkName buf len { p with state := t }
      { q with state := t } h.off htarget htarget h.seen (h.start (h.state.trans hcolon.1))
    have hp : p.byte buf len =
        { ({ p with state := t } : Parser).checkName buf len with
          off := (p.byte buf len).off } := by
      simp only [Parser.byte, hturn, ha, Parser.act]
    have hq : q.byte buf len =
        { ({ q with state := t } : Parser).checkName buf len with
          off := (q.byte buf len).off } := by
      simp only [Parser.byte, ht, ha, Parser.act]
    refine ⟨?_, hnext, ?_, ?_⟩
    · rw [hp, hq]
      exact hstate
    · rw [hp, hq]
      exact hseen
    · intro hnm
      rw [hp] at hnm
      exact absurd hnm hne
  · simp only [Parser.byte, hturn, ht] at hnext ⊢
    cases a with
    | hdrCheckHost => exact absurd rfl ha
    | hdrNameStart => exact ⟨rfl, hnext, h.seen, fun _ => h.off⟩
    | _ =>
        refine ⟨rfl, hnext, h.seen, fun hnm => ?_⟩
        have ht' : t = .hdrNm := hnm
        subst ht'
        rcases table_to_name ht with ⟨-, hact⟩ | ⟨hs, -⟩
        · cases hact
        · exact h.start (h.state.trans hs)

theorem SamePath.loop (h : SamePath p q) (n : Nat) :
    SamePath (parseLoop buf len n p) (parseLoop buf len n q) := by
  induction n generalizing p q with
  | zero => exact h
  | succ n ih =>
      rw [parseLoop, parseLoop, h.state]
      cases q.state.terminal with
      | true => exact h
      | false => exact ih h.byte

theorem parse_lexAt {bs : List Byte} (hp : Fresh p) :
    (httpParseRequest (bytesOf bs) bs.length p).state = (lexAt (bytesOf bs) bs.length).state ∧
    (httpParseRequest (bytesOf bs) bs.length p).off = (lexAt (bytesOf bs) bs.length).off := by
  have hsame : SamePath p {} := ⟨hp.state, hp.off, hp.seen, fun hnm => by
    rw [hp.state] at hnm
    cases hnm⟩
  have hloop := @SamePath.loop (bytesOf bs) bs.length _ _ hsame bs.length
  have hcall : httpParseRequest (bytesOf bs) bs.length p =
      parseLoop (bytesOf bs) bs.length bs.length p := by
    rw [httpParseRequest, hp.off, Nat.sub_zero]
  have hfill := @lookahead_fill (bytesOf bs) (fun _ => bs.length) bs.length
    (fun _ _ hdk hk hf hc => lookCl_of_later hdk hk hf hc) bs.length (Nat.le_refl _)
  have hpath := hfill.path
  rw [← httpParseRequest_whole] at hpath
  rw [hcall]
  exact ⟨hloop.state.trans ((congrArg Parser.state hpath).trans rfl),
    hloop.off.trans ((congrArg Parser.off hpath).trans rfl)⟩

/-! ## The path of a longer string -/

theorem lexByte_congr (ho : p.off < len) (h : ∀ k < len, buf k = buf' k) :
    p.lexByte buf = p.lexByte buf' := by
  have hname : ∀ name, name ≠ [] → ∀ q : Parser, q.off = p.off →
      q.nameAtColon buf name = q.nameAtColon buf' name := fun name hne q hq =>
    Parser.nameAtColon_congr h (hq ▸ ho) name hne
  have hlex : ∀ q : Parser, q.off = p.off → q.lexName buf = q.lexName buf' := by
    intro q hq
    simp only [Parser.lexName, hname hostName (by decide) q hq,
      hname contentLengthName (by decide) q hq]
  have hact : ∀ (q : Parser) (a : Action), q.off = p.off →
      (if a = .hdrCheckHost then q.lexName buf else q.act buf 0 a) =
        if a = .hdrCheckHost then q.lexName buf' else q.act buf' 0 a := by
    intro q a hq
    cases a with
    | verMinor =>
        show q.act buf 0 .verMinor = q.act buf' 0 .verMinor
        simp only [Parser.act, hq, h p.off ho]
    | hdrCheckHost => exact hlex q hq
    | _ => rfl
  simp only [Parser.lexByte, h p.off ho, hact]

theorem lexAt_congr (h : ∀ k < len, buf k = buf' k) (k : Nat) (hk : k ≤ len) :
    lexAt buf k = lexAt buf' k := by
  induction k with
  | zero => rfl
  | succ k ih =>
      rw [lexAt, lexAt, ← ih (by omega)]
      cases hterm : (lexAt buf k).state.terminal with
      | true => rfl
      | false =>
          have hoff := lexAt_off_of hterm
          exact lexByte_congr (by omega) h

theorem lexAt_terminal {k : Nat} (h : (lexAt buf k).state.terminal = true) (j : Nat) :
    lexAt buf (k + j) = lexAt buf k := by
  induction j with
  | zero => rfl
  | succ j ih => rw [← Nat.add_assoc, lexAt, ih, if_pos h]

theorem lexAt_off_le (k : Nat) : (lexAt buf k).off ≤ k := by
  induction k with
  | zero => exact Nat.le_refl 0
  | succ k ih =>
      rw [lexAt]
      split
      · omega
      · rw [Parser.lexByte_off]
        omega

theorem lexAt_head {h : RequestHead} (hv : h.Valid) {k : Nat} (hk : k < h.bytes.length) :
    (lexAt (bytesOf h.bytes) k).state.terminal = false := by
  have hfresh : Fresh {} := ⟨rfl, rfl, rfl, rfl⟩
  obtain ⟨q, hq, hparsed⟩ := head_parsed hv hfresh (bytesOf_holds h.bytes) (Nat.le_refl _)
  have hcall := parse_of_after hfresh (Nat.le_refl _) hq hparsed.terminal
  have hoff := (@parse_lexAt {} h.bytes hfresh).2
  rw [hcall, hparsed.off] at hoff
  cases hstop : (lexAt (bytesOf h.bytes) k).state.terminal with
  | false => rfl
  | true =>
      have hsame := lexAt_terminal hstop (h.bytes.length - k)
      rw [Nat.add_sub_cancel' (by omega)] at hsame
      have hle := @lexAt_off_le (bytesOf h.bytes) k
      rw [hsame] at hoff
      omega

end

/-! ## The language -/

def Accepted (bs : List Byte) : Prop := ∃ h : RequestHead, h.Valid ∧ h.bytes <+: bs

/-- What a record holds of a head, the end of which is the end of the headers in this buffer. -/
structure HeadStored (bs : List Byte) (h : RequestHead) (q : Parser) : Prop where
  reqLen : q.reqLen = h.bytes.length
  found : httpFindEndOfHeaders (bytesOf bs) bs.length = some h.bytes.length
  uriStart : q.uriStart = h.method.length + 1
  uriLen : q.uriLen = h.uri.length
  verMinor : q.verMinor = h.minor
  host : q.hostFound = true ↔ ∃ f ∈ h.fields, isName hostName f.1 = true

section
variable {bs : List Byte} {h : RequestHead} {p : Parser}

theorem parse_head (hv : h.Valid) (hbs : h.bytes <+: bs) (hp : Fresh p) :
    Parsed h (httpParseRequest (bytesOf bs) bs.length p) := by
  have hholds : BufHolds (bytesOf bs) 0 h.bytes := by
    obtain ⟨rest, rfl⟩ := hbs
    exact (bytesOf_holds (h.bytes ++ rest)).left
  obtain ⟨q, hq, hparsed⟩ := head_parsed hv hp hholds hbs.length_le
  rw [parse_of_after hp hbs.length_le hq hparsed.terminal]
  exact hparsed

/-- **Done** is having read a head. -/
theorem done_iff (hp : Fresh p) :
    (httpParseRequest (bytesOf bs) bs.length p).state = .done ↔ Accepted bs := by
  constructor
  · intro hdone
    rw [(parse_lexAt hp).1] at hdone
    rcases lexAt_drafted bs bs.length (Nat.le_refl _) with herr | ⟨d, hd⟩
    · rw [herr] at hdone
      cases hdone
    · have hok := hd.ok
      have htext := hd.text
      rw [hdone] at hok htext
      refine ⟨d.head, hok, ?_⟩
      rw [show d.head.bytes = d.text .done from rfl, htext]
      exact List.take_prefix _ bs
  · rintro ⟨h, hv, hbs⟩
    exact (parse_head hv hbs hp).state

/-- **An error** is for good: whatever follows, there is no head. -/
theorem error_iff (hp : Fresh p) :
    (httpParseRequest (bytesOf bs) bs.length p).state = .error ↔
      ¬ ∃ ext, Accepted (bs ++ ext) := by
  constructor
  · rintro herr ⟨ext, hacc⟩
    have hdone := (done_iff hp).mpr hacc
    rw [(parse_lexAt hp).1] at herr hdone
    have hcongr : lexAt (bytesOf bs) bs.length = lexAt (bytesOf (bs ++ ext)) bs.length :=
      lexAt_congr (fun k hk => (bytesOf_append hk).symm) bs.length (Nat.le_refl _)
    rw [hcongr] at herr
    have hterm : (lexAt (bytesOf (bs ++ ext)) bs.length).state.terminal = true := by
      rw [herr]
      rfl
    rw [List.length_append, lexAt_terminal hterm, herr] at hdone
    cases hdone
  · intro hno
    rw [(parse_lexAt hp).1]
    rcases lexAt_drafted bs bs.length (Nat.le_refl _) with herr | ⟨d, hd⟩
    · exact herr
    · exfalso
      obtain ⟨h, ext, hv, hbytes⟩ := Draft.completes hd.ok
      cases hterm : (lexAt (bytesOf bs) bs.length).state.terminal with
      | false =>
          have hoff := lexAt_off_of hterm
          have hall : bs ++ ext = h.bytes := by
            rw [hbytes, hd.text, hoff, List.take_length]
          exact hno ⟨ext, h, hv, hall ▸ List.prefix_refl (bs ++ ext)⟩
      | true =>
          have hdone : (lexAt (bytesOf bs) bs.length).state = .done := by
            have hok := hd.ok
            cases hs : (lexAt (bytesOf bs) bs.length).state with
            | done => rfl
            | error => rw [hs] at hok; exact hok.elim
            | _ => rw [hs] at hterm; cases hterm
          rw [← (parse_lexAt hp).1] at hdone
          exact hno ⟨[], by rw [List.append_nil]; exact (done_iff hp).mp hdone⟩

/-! ## The blank line -/

theorem lexAt_lineEnd {buf : Nat → Byte} {k : Nat} (hterm : (lexAt buf k).state.terminal = false)
    {b : Byte} (hb : buf k = b) (hend : b = 0x0D ∨ b = 0x0A) :
    (lexAt buf (k + 1)).state = (httpFsaTable (lexAt buf k).state (httpClassifyChar b)).2 := by
  have hoff := lexAt_off_of hterm
  have hno : (httpFsaTable (lexAt buf k).state (httpClassifyChar b)).1 ≠ .hdrCheckHost := by
    intro h
    have hcolon := (hdrCheckHost_iff.mp h).2
    rcases hend with rfl | rfl <;> cases hcolon
  rw [lexAt_succ hterm]
  have hread : buf (lexAt buf k).off = b := by rw [hoff, hb]
  rw [← hread] at hno ⊢
  exact (lexByte_plain rfl hno).1

theorem blankLine_ends (s : ParseState) :
    (httpFsaTable (httpFsaTable (httpFsaTable (httpFsaTable s .cr).2 .lf).2 .cr).2 .lf).2.terminal
      = true := by
  cases s <;> rfl

theorem lines_end (h : RequestHead) : ∃ front, h.lines = front ++ [0x0D, 0x0A] := by
  rcases List.eq_nil_or_concat h.fields with hnil | ⟨fs, f, hfs⟩
  · refine ⟨h.upTo [0x2F, h.major, 0x2E, h.minor], ?_⟩
    simp [RequestHead.lines, RequestHead.line, RequestHead.upTo, hnil]
  · refine ⟨h.line ++ (fs.flatMap fieldBytes ++ (f.1 ++ 0x3A :: f.2)), ?_⟩
    simp [RequestHead.lines, hfs, fieldBytes]

theorem head_blankLine (hv : h.Valid) : ∃ j, h.bytes.length = j + 4 ∧
    blankLineAt (bytesOf h.bytes) j ∧ ∀ k < j, ¬ blankLineAt (bytesOf h.bytes) k := by
  obtain ⟨front, hfront⟩ := lines_end h
  have hbytes : h.bytes = front ++ [0x0D, 0x0A, 0x0D, 0x0A] := by
    rw [RequestHead.bytes, hfront, List.append_assoc]
    rfl
  refine ⟨front.length, by rw [hbytes, List.length_append]; rfl, ?_, ?_⟩
  · have hall := bytesOf_holds h.bytes
    generalize bytesOf h.bytes = buf at hall ⊢
    rw [hbytes] at hall
    have hend := hall.right
    rw [Nat.zero_add] at hend
    exact ⟨hend.head, hend.tail.head, hend.tail.tail.head, hend.tail.tail.tail.head⟩
  · rintro k hk ⟨h₁, h₂, h₃, h₄⟩
    have hlen : h.bytes.length = front.length + 4 := by
      rw [hbytes, List.length_append]
      rfl
    -- a blank line before it would have ended the path
    have hgoes : ∀ i < 5, (lexAt (bytesOf h.bytes) (k + i)).state.terminal = false := fun i hi =>
      lexAt_head hv (by omega)
    have hend := hgoes 4 (by decide)
    rw [lexAt_lineEnd (hgoes 3 (by decide)) h₄ (.inr rfl),
      lexAt_lineEnd (hgoes 2 (by decide)) h₃ (.inl rfl),
      lexAt_lineEnd (hgoes 1 (by decide)) h₂ (.inr rfl),
      lexAt_lineEnd (hgoes 0 (by decide)) h₁ (.inl rfl)] at hend
    exact absurd (hend.symm.trans (blankLine_ends _)) Bool.false_ne_true

theorem blankLineAt_congr {buf buf' : Nat → Byte} {i : Nat} (h : ∀ k < i + 4, buf k = buf' k) :
    blankLineAt buf i ↔ blankLineAt buf' i := by
  rw [blankLineAt, blankLineAt, h i (by omega), h (i + 1) (by omega), h (i + 2) (by omega),
    h (i + 3) (by omega)]

/-- **The end of the headers** is the end of the head. -/
theorem findEndOfHeaders_head (hv : h.Valid) (hbs : h.bytes <+: bs) :
    httpFindEndOfHeaders (bytesOf bs) bs.length = some h.bytes.length := by
  obtain ⟨j, hlen, hblank, hfirst⟩ := head_blankLine hv
  have hle := hbs.length_le
  obtain ⟨rest, rfl⟩ := hbs
  have hsame : ∀ k < h.bytes.length, bytesOf (h.bytes ++ rest) k = bytesOf h.bytes k :=
    fun k hk => bytesOf_append hk
  rw [httpFindEndOfHeaders, if_neg (by omega), hlen]
  refine fehScan_first ?_ (Nat.zero_le j) (by omega) fun k hk hat => ?_
  · exact (blankLineAt_congr fun k hk => hsame k (by omega)).mpr hblank
  · exact hfirst k hk ((blankLineAt_congr fun i hi => hsame i (by omega)).mp hat)

end

/-- **The language of the parser**, in one call from a reset record on any string that fits a
16-bit length: it is done exactly on the strings that begin with a head, whichever head that is
says what was stored, and it is in error exactly where no extension begins with a head. -/
theorem parser_language {bs : List Byte} {p : Parser} (hp : Fresh p) (hlen : bs.length < 65536) :
    ((httpParseRequest (bytesOf bs) bs.length p).state = .done ↔ Accepted bs) ∧
    (∀ h : RequestHead, h.Valid → h.bytes <+: bs →
      HeadStored bs h (httpParseRequest (bytesOf bs) bs.length p)) ∧
    ((httpParseRequest (bytesOf bs) bs.length p).state = .error ↔
      ¬ ∃ ext, Accepted (bs ++ ext)) := by
  refine ⟨done_iff hp, fun h hv hbs => ?_, error_iff hp⟩
  have hparsed := parse_head hv hbs hp
  have huri : h.uri.length < 65536 := by
    have hle := hbs.length_le
    have hcount : h.uri.length ≤ h.bytes.length := by
      simp only [RequestHead.bytes, RequestHead.lines, RequestHead.line, RequestHead.upTo,
        List.length_append, List.length_cons]
      omega
    omega
  refine ⟨hparsed.reqLen, findEndOfHeaders_head hv hbs, hparsed.uriStart, ?_, hparsed.verMinor, ?_⟩
  · rw [hparsed.uriLen, Nat.mod_eq_of_lt huri]
  · rw [hparsed.host, List.any_eq_true]

def hostRequest : RequestHead where
  method := ascii "GET"
  uri := ascii "/a"
  version := ascii "HTTP"
  major := 0x31
  minor := 0x31
  fields := [(ascii "hOst", ascii " b")]

theorem hostRequest_valid : hostRequest.Valid where
  method := (list_all (by decide +kernel) : ∀ b ∈ ascii "GET", IsLetter b)
  uri := ⟨List.cons_ne_nil _ _, (list_all (by decide +kernel) : ∀ b ∈ ascii "/a", InUri b)⟩
  version := ⟨rfl, (list_all (by decide +kernel) : ∀ b ∈ ascii "HTTP", IsLetter b)⟩
  major := by decide
  minor := by decide
  fields := by
    intro f hf
    rw [List.mem_singleton.mp hf]
    have hname : ∀ b ∈ ascii "hOst", InName b := list_all (by decide +kernel)
    have hvalue : ∀ b ∈ ascii " b", InValue b := list_all (by decide +kernel)
    exact ⟨⟨0x68, _, rfl, by decide⟩, hname, hvalue⟩
  once := Nat.zero_le 1

theorem parser_language_demo :
    let bs := hostRequest.bytes ++ ascii "GET"
    (httpParseRequest (bytesOf bs) bs.length {}).state = .done ∧
    HeadStored bs hostRequest (httpParseRequest (bytesOf bs) bs.length {}) := by
  have hpre : hostRequest.bytes <+: hostRequest.bytes ++ ascii "GET" := List.prefix_append _ _
  obtain ⟨hdone, hstored, -⟩ := @parser_language (hostRequest.bytes ++ ascii "GET") {}
    ⟨rfl, rfl, rfl, rfl⟩ (by decide +kernel)
  exact ⟨hdone.mpr ⟨hostRequest, hostRequest_valid, hpre⟩, hstored _ hostRequest_valid hpre⟩

/-- A request for a URI. -/
def uriRequest (uri : List Byte) : RequestHead where
  method := ascii "GET"
  uri := uri
  version := ascii "HTTP"
  major := 0x31
  minor := 0x31

/-- A CR in the URI is no space, and is refused; a tab is white space, and is accepted. -/
theorem uri_not_space :
    (let h := uriRequest (ascii "/\r")
     h.MethodOk ∧ (h.uri ≠ [] ∧ ∀ b ∈ h.uri, b ≠ 0x20) ∧ h.VersionOk 4 ∧ IsDecDigit h.major ∧
       IsDecDigit h.minor ∧ h.fields = [] ∧
       (httpParseRequest (bytesOf h.bytes) h.bytes.length {}).state = .error) ∧
    (let h := uriRequest (ascii "/\t")
     0x09 ∈ h.uri ∧ (httpParseRequest (bytesOf h.bytes) h.bytes.length {}).state = .done) := by
  refine ⟨⟨list_all (by decide +kernel), ⟨List.cons_ne_nil _ _, list_all (by decide +kernel)⟩,
    ⟨rfl, list_all (by decide +kernel)⟩, by decide, by decide, rfl, by decide +kernel⟩,
    by decide +kernel, by decide +kernel⟩

end WsPi5

/-
# `WsPi5.Config.Lines` — one line, as the boot parser and as the linter read it

The parser works on bytes and the linter on characters, but what the parser looks for is ASCII, so
its reading is one of characters too (`readLine_words`, `readMagic_chars`).  Both cut a line at
its comment, trim it, part it at the first `=` and trim the two words; they differ in the blanks
and in what a byte of a MAC is.

                        the parser            the linter
    around a line       space, tab, CR        the 29 blanks of `isspace`
    around a word       space, tab            the same
    a byte of a MAC     two hex digits        two characters that `int(_, 16)` takes

A line where that shows is `Loose`: one of the linter's further blanks stands at an end of what
the parser's blanks leave, or such a byte in the value of `mac`.

    a loose line       the parser refuses it                                (`readLine_loose`)
    any other line     the two give one entry, or refuse it with one code   (`readLine_ok`,
                                                                             `readLine_error`)

So the parser takes no line that the linter refuses.
-/
import WsPi5.Config.Taken

namespace WsPi5.ConfigParser

open Lib (cutComment trim edged partitionAt utf8 latin Encodes)

/-! ## Characters -/

/-- `isWs` of a character. -/
def isWsChar (c : Char) : Bool := c == ' ' || c == '\t' || c == '\r'

/-- `isBlank` of a character. -/
def isBlankChar (c : Char) : Bool := c == ' ' || c == '\t'

theorem isspace_of_isWsChar {c : Char} (h : isWsChar c = true) : Lint.isspace c = true := by
  simp only [isWsChar, Bool.or_eq_true, beq_iff_eq] at h
  rcases h with (rfl | rfl) | rfl <;> decide

theorem isWsChar_of_isBlankChar {c : Char} (h : isBlankChar c = true) : isWsChar c = true := by
  rw [isWsChar, ← isBlankChar, h, Bool.true_or]

theorem encodes_utf8 {p : Byte → Bool} {p' : Char → Bool} (h : ∀ b, p' (latin b) = p b)
    (hascii : ∀ c, p' c = true → c.toNat < 128) : Encodes String.utf8EncodeChar p' p where
  codes := by
    intro c b hb
    rcases Nat.lt_or_ge c.toNat 128 with hc | hc
    · rw [Lib.encode_ascii hc, List.mem_singleton] at hb
      rw [hb, ← h, Lib.latin_ofNat hc]
    · have hhigh := (Lib.encode_high hc b hb).1
      have hp' : p' c = false := Bool.eq_false_iff.mpr fun hp => by
        have := hascii c hp
        omega
      rw [← h, hp', Bool.eq_false_iff]
      intro hp
      have := hascii _ hp
      rw [Lib.latin_toNat] at this
      omega
  nonempty := fun _ => String.utf8EncodeChar_ne_nil
  single := fun c hc => ⟨_, Lib.encode_ascii (hascii c hc)⟩

theorem encodes_hash : Encodes String.utf8EncodeChar (· == '#') isHash := by
  refine encodes_utf8 (fun b => ?_) fun c hc => ?_
  · exact Lib.byte_all (p := fun b => (latin b == '#') = isHash b) (by decide +kernel) b
  · rw [eq_of_beq hc]
    decide

theorem encodes_eq : Encodes String.utf8EncodeChar (· == '=') isEq := by
  refine encodes_utf8 (fun b => ?_) fun c hc => ?_
  · exact Lib.byte_all (p := fun b => (latin b == '=') = isEq b) (by decide +kernel) b
  · rw [eq_of_beq hc]
    decide

theorem encodes_isWs : Encodes String.utf8EncodeChar isWsChar isWs := by
  refine encodes_utf8 (fun b => ?_) fun c hc => ?_
  · exact Lib.byte_all (p := fun b => isWsChar (latin b) = isWs b) (by decide +kernel) b
  · simp only [isWsChar, Bool.or_eq_true, beq_iff_eq] at hc
    rcases hc with (rfl | rfl) | rfl <;> decide

theorem encodes_isBlank : Encodes String.utf8EncodeChar isBlankChar isBlank := by
  refine encodes_utf8 (fun b => ?_) fun c hc => ?_
  · exact Lib.byte_all (p := fun b => isBlankChar (latin b) = isBlank b) (by decide +kernel) b
  · simp only [isBlankChar, Bool.or_eq_true, beq_iff_eq] at hc
    rcases hc with rfl | rfl <;> decide

/-! ## Lines and words -/

/-- A line up to its comment, in the parser's blanks. -/
def bootLine (fresh : Bool) (l : List Char) : List Char :=
  trim isWsChar (cutComment (· == '#') isWsChar fresh l)

def lintLine (fresh : Bool) (l : List Char) : List Char :=
  Lint.strip (cutComment (· == '#') Lint.isspace fresh l)

/-- The two words around the first `=`. -/
def wordsOf (blank : Char → Bool) (line : List Char) : Option (List Char × List Char) :=
  (partitionAt (· == '=') line).map fun (key, value) => (trim blank key, trim blank value)

/-- A blank of the linter's at an end of what the parser's blanks leave of a line. -/
def looseEdge (fresh : Bool) (l : List Char) : Bool :=
  edged Lint.isspace (trim isWsChar (cutComment (· == '#') Lint.isspace fresh l))

def looseWord (word : List Char) : Bool := edged Lint.isspace (trim isBlankChar word)

/-- A byte that only `int(_, 16)` reads. -/
def looseMac (value : List Char) : Bool :=
  (value.splitOn ':').any fun p => Lint.isValidMacByte p && !isHexPair p

/-- **The lines that show which of the two reads them.** -/
inductive Loose (l : List Char) : Prop
  | line : looseEdge true l = true → Loose l
  | word {key value : List Char} : partitionAt (· == '=') (lintLine true l) = some (key, value) →
      (looseWord key || looseWord value) = true → Loose l
  | mac {value : List Char} : wordsOf Lint.isspace (lintLine true l)
      = some (ConfKey.mac.name, value) → looseMac value = true → Loose l

def isLoose (l : List Char) : Bool :=
  looseEdge true l ||
    (partitionAt (· == '=') (lintLine true l)).any (fun (key, value) =>
      looseWord key || looseWord value) ||
    (wordsOf Lint.isspace (lintLine true l)).any fun (key, value) =>
      key == ConfKey.mac.name && looseMac value

theorem isLoose_iff {l : List Char} : isLoose l = true ↔ Loose l := by
  simp only [isLoose, Bool.or_eq_true, Option.any_eq_true, Prod.exists, Bool.and_eq_true,
    beq_iff_eq]
  constructor
  · rintro ((h | ⟨key, value, hpart, h⟩) | ⟨key, value, hwords, rfl, h⟩)
    · exact .line h
    · exact .word hpart (by simpa using h)
    · exact .mac hwords h
  · intro h
    cases h with
    | line h => exact .inl (.inl h)
    | word hpart h => exact .inl (.inr ⟨_, _, hpart, by simpa using h⟩)
    | mac hwords h => exact .inr ⟨_, _, hwords, rfl, h⟩

instance (l : List Char) : Decidable (Loose l) := decidable_of_iff _ isLoose_iff

theorem bootLine_utf8 (fresh : Bool) (l : List Char) :
    trim isWs (cutComment isHash isWs fresh (utf8 l)) = utf8 (bootLine fresh l) := by
  rw [utf8, encodes_hash.cutComment encodes_isWs, encodes_isWs.trim]
  rfl

theorem lintLine_eq {fresh : Bool} {l : List Char} (h : looseEdge fresh l = false) :
    lintLine fresh l = bootLine fresh l := by
  have hwide : ∀ c, isWsChar c = true → Lint.isspace c = true := fun _ => isspace_of_isWsChar
  have htrim : lintLine fresh l
      = trim isWsChar (cutComment (· == '#') Lint.isspace fresh l) :=
    Lib.trim_wider (fun c _ => hwide c) h
  obtain heq | ⟨ys, y, heq, hy, hy'⟩ :=
      @Lib.cutComment_wider _ (· == '#') _ _ hwide fresh l
  · rw [htrim, heq]
    rfl
  · -- a comment behind a blank of the linter's leaves that blank at the end
    exfalso
    obtain ⟨zs, hzs⟩ := Lib.trim_concat (p := isWsChar) ys hy'
    rw [looseEdge, heq, hzs, edged, List.getLast?_concat, Option.any_some, hy, Bool.or_true] at h
    cases h

theorem wordsOf_eq {line : List Char}
    (h : ∀ key value, partitionAt (· == '=') line = some (key, value) →
      (looseWord key || looseWord value) = false) :
    wordsOf Lint.isspace line = wordsOf isBlankChar line := by
  have hwide : ∀ c, isBlankChar c = true → Lint.isspace c = true := fun _ hc =>
    isspace_of_isWsChar (isWsChar_of_isBlankChar hc)
  unfold wordsOf
  cases hpart : partitionAt (· == '=') line with
  | none => rfl
  | some e =>
      obtain ⟨key, value⟩ := e
      obtain ⟨hkey, hvalue⟩ := Bool.or_eq_false_iff.mp (h key value hpart)
      simp only [Option.map_some]
      rw [Lib.trim_wider (fun c _ => hwide c) hkey, Lib.trim_wider (fun c _ => hwide c) hvalue]

theorem words_of_not_loose {l : List Char} (h : ¬Loose l) :
    lintLine true l = bootLine true l ∧
      wordsOf Lint.isspace (bootLine true l) = wordsOf isBlankChar (bootLine true l) := by
  have hline : lintLine true l = bootLine true l :=
    lintLine_eq (Bool.eq_false_iff.mpr fun hedge => h (.line hedge))
  refine ⟨hline, wordsOf_eq fun key value hpart => Bool.eq_false_iff.mpr fun hword => h ?_⟩
  exact .word (hline ▸ hpart) hword

/-! ## The parser's reading, in characters -/

theorem lookupKey_utf8 (key : List Char) : lookupKey (utf8 key) = Lint.knownKey key := by
  have hname : ∀ k : ConfKey, (utf8 k.name == utf8 key) = (k.name == key) := by
    intro k
    have hlow : ∀ b ∈ utf8 k.name, b.toNat < 128 := by
      cases k <;> exact Lib.list_all (by decide)
    rw [Bool.eq_iff_iff, beq_iff_eq, beq_iff_eq, eq_comm, Lib.utf8_inj hlow, eq_comm]
  unfold lookupKey Lint.knownKey
  exact congrArg (ConfKey.all.find? ·) (funext hname)

/-- **`_parse_line`**, in characters. -/
theorem readLine_words (seen : W) (l : List Char) :
    readLine seen (utf8 l) =
      if bootLine true l = [] then .ok none
      else
        match wordsOf isBlankChar (bootLine true l) with
        | none => .error .line
        | some (key, value) =>
            match Lint.knownKey key with
            | none => .error .key
            | some k =>
                if wasSeen seen k then .error .dup
                else (validate k (utf8 value)).map fun v => some (k, v) := by
  unfold readLine wordsOf
  dsimp only
  rw [bootLine_utf8]
  simp only [Lib.utf8_eq_nil]
  rw [utf8, encodes_eq.partitionAt]
  cases partitionAt (· == '=') (bootLine true l) with
  | none => rfl
  | some e =>
      simp only [Option.map_some]
      rw [encodes_isBlank.trim, encodes_isBlank.trim, ← utf8, lookupKey_utf8]
      rfl

theorem readMagic_chars (l : List Char) :
    readMagic (utf8 l) =
      if bootLine false l = [] then .blank
      else if bootLine false l = Lint.magic then .found else .other := by
  have hmagic : utf8 (bootLine false l) = magic ↔ bootLine false l = Lint.magic :=
    Lib.utf8_inj (t := Lint.magic) (Lib.list_all (by decide))
  unfold readMagic
  dsimp only
  rw [bootLine_utf8]
  simp only [Lib.utf8_eq_nil, hmagic]

/-! ## What the parser takes -/

theorem validate_spaceless {k : ConfKey} {value : List Char} {v : Value}
    (h : validate k (utf8 value) = .ok v) : ∀ c ∈ value, Lint.isspace c = false := by
  obtain ⟨hgraphic, _⟩ := validate_ok h
  have hascii := Lib.ascii_of_utf8 fun b hb => (hgraphic b hb).lt
  intro c hc
  rw [← Lib.map_latin_utf8 hascii, List.mem_map] at hc
  obtain ⟨b, hb, rfl⟩ := hc
  exact (hgraphic b hb).isspace

theorem name_spaceless (k : ConfKey) : ∀ c ∈ k.name, Lint.isspace c = false := by
  cases k <;> exact Lib.list_all (by decide)

theorem readLine_taken {seen : W} {l : List Char} {e : Option (ConfKey × Value)}
    (h : readLine seen (utf8 l) = .ok e) :
    (bootLine true l = [] ∧ e = none) ∨ ∃ k value v,
      wordsOf isBlankChar (bootLine true l) = some (k.name, value) ∧ wasSeen seen k = false ∧
        validate k (utf8 value) = .ok v ∧ e = some (k, v) := by
  rw [readLine_words] at h
  split at h
  next hnil =>
    cases h
    exact .inl ⟨hnil, rfl⟩
  next =>
    split at h
    next => cases h
    next key value hwords =>
      split at h
      next => cases h
      next k hkey =>
        split at h
        next => cases h
        next hnew =>
          cases hval : validate k (utf8 value) with
          | error err => simp [hval, Except.map] at h
          | ok v =>
              have hfound : (k.name == key) = true :=
                List.find?_some (p := fun k : ConfKey => k.name == key) hkey
              obtain rfl := eq_of_beq hfound
              refine .inr ⟨k, value, v, hwords, by simpa using hnew, hval, ?_⟩
              simpa [hval, Except.map] using h.symm

theorem plain_of_words {line key value : List Char}
    (h : wordsOf isBlankChar line = some (key, value)) (hkey : ∀ c ∈ key, Lint.isspace c = false)
    (hvalue : ∀ c ∈ value, Lint.isspace c = false) :
    ∀ c ∈ line, Lint.isspace c = isWsChar c := by
  simp only [wordsOf, Option.map_eq_some_iff] at h
  obtain ⟨⟨key₀, value₀⟩, hpart, heq⟩ := h
  obtain ⟨rfl, rfl⟩ := Prod.mk.inj heq
  obtain ⟨s, hs, hline⟩ := Lib.partitionAt_some hpart
  have hword : ∀ {w : List Char}, (∀ c ∈ trim isBlankChar w, Lint.isspace c = false) →
      ∀ c ∈ w, Lint.isspace c = isWsChar c := by
    intro w hw c hc
    rcases Lib.mem_trim_or hc with hmem | hblank
    · have hc' := hw c hmem
      rw [hc', eq_comm, Bool.eq_false_iff]
      exact fun hws => by simp [isspace_of_isWsChar hws] at hc'
    · have hws := isWsChar_of_isBlankChar hblank
      rw [isspace_of_isWsChar hws, hws]
  intro c hc
  rw [hline, List.mem_append, List.mem_cons] at hc
  rcases hc with hc | rfl | hc
  · exact hword hkey c hc
  · rw [eq_of_beq hs]
    decide
  · exact hword hvalue c hc

/-- A line whose blanks are the parser's: neither the cut nor the trim shows the reader. -/
theorem looseEdge_plain {fresh : Bool} {l : List Char}
    (h : ∀ c ∈ bootLine fresh l, Lint.isspace c = isWsChar c) : looseEdge fresh l = false := by
  have hcut : ∀ c ∈ cutComment (· == '#') isWsChar fresh l, isWsChar c = Lint.isspace c := by
    intro c hc
    rcases Lib.mem_trim_or hc with hmem | hblank
    · exact (h c hmem).symm
    · rw [hblank, isspace_of_isWsChar hblank]
  rw [looseEdge, Lib.cutComment_congr hcut]
  exact (Lib.edged_congr h).trans (Lib.edged_trim isWsChar _)

theorem hexNibble_ascii {b : Byte} {x : Nat} (h : hexNibble b = some x) :
    isHexAscii (latin b) = true := by
  have hrange := hexNibble_some h
  simp only [isHexAscii, Bool.or_eq_true, Bool.and_eq_true, decide_eq_true_eq, le_latin, latin_le]
  have h0 : '0'.toNat = 0x30 := rfl
  have h9 : '9'.toNat = 0x39 := rfl
  have hA : 'A'.toNat = 0x41 := rfl
  have hF : 'F'.toNat = 0x46 := rfl
  have ha : 'a'.toNat = 0x61 := rfl
  have hf : 'f'.toNat = 0x66 := rfl
  omega

theorem macBytes_hex : ∀ {left : Nat} {v ms : List Byte}, macBytes (left + 1) v = some ms →
    v.length = 3 * left + 2 → ∀ b ∈ v, b = 0x3A ∨ isHexAscii (latin b) = true := by
  intro left
  induction left with
  | zero =>
      intro v ms h hlen
      obtain ⟨h', l', rfl⟩ := List.length_eq_two.mp hlen
      cases hh : hexNibble h' with
      | none => simp [macBytes, hh] at h
      | some hi =>
          cases hl : hexNibble l' with
          | none => simp [macBytes, hh, hl] at h
          | some lo => simp [hexNibble_ascii hh, hexNibble_ascii hl]
  | succ left ih =>
      intro v ms h hlen
      obtain ⟨h', l', sep, v, rfl⟩ : ∃ h' l' sep v', v = h' :: l' :: sep :: v' := by
        rcases v with _ | ⟨h', _ | ⟨l', _ | ⟨sep, v⟩⟩⟩
        · simp at hlen
        · simp at hlen
        · simp only [List.length_cons, List.length_nil] at hlen; omega
        · exact ⟨h', l', sep, v, rfl⟩
      cases hh : hexNibble h' with
      | none => simp [macBytes, hh] at h
      | some hi =>
          cases hl : hexNibble l' with
          | none => simp [macBytes, hh, hl] at h
          | some lo =>
              rw [macBytes, hh, hl] at h
              simp only [Nat.succ_ne_zero, if_false] at h
              split at h
              next rest heq =>
                obtain ⟨rfl, rfl⟩ := List.cons.inj heq
                rw [Option.map_eq_some_iff] at h
                obtain ⟨ms', hms', _⟩ := h
                have hrest := ih hms' (by simp only [List.length_cons] at hlen; omega)
                intro b hb
                simp only [List.mem_cons] at hb
                rcases hb with rfl | rfl | rfl | hb
                · exact .inr (hexNibble_ascii hh)
                · exact .inr (hexNibble_ascii hl)
                · exact .inl rfl
                · exact hrest b hb
              next => cases h

theorem looseMac_taken {value : List Char} {v : Value}
    (h : validate .mac (utf8 value) = .ok v) : looseMac value = false := by
  obtain ⟨hgraphic, _⟩ := validate_ok h
  have hvalue := Lib.map_latin_utf8 (Lib.ascii_of_utf8 fun b hb => (hgraphic b hb).lt)
  have hhex : ∀ c ∈ value, c ≠ ':' → isHexAscii c = true := by
    intro c hc hne
    rw [← hvalue, List.mem_map] at hc
    obtain ⟨b, hb, rfl⟩ := hc
    simp only [validate] at h
    split at h
    next ms hms =>
      simp only [validateMac, Option.ite_none_right_eq_some] at hms
      refine (macBytes_hex hms.2 hms.1 b hb).resolve_left ?_
      rintro rfl
      exact hne rfl
    next => cases h
  simp only [looseMac, List.any_eq_false, Bool.and_eq_true, Bool.not_eq_true', not_and,
    Bool.not_eq_false]
  intro p hp hbyte
  obtain ⟨a, b, rfl⟩ : ∃ a b, p = [a, b] := by
    rcases p with _ | ⟨a, _ | ⟨b, _ | ⟨c, p⟩⟩⟩
    · cases hbyte
    · cases hbyte
    · exact ⟨a, b, rfl⟩
    · cases hbyte
  have hin : ∀ c ∈ [a, b], isHexAscii c = true := by
    intro c hc
    refine hhex c (Lib.mem_of_mem_splitOn hp hc) ?_
    rintro rfl
    exact Lib.notMem_of_mem_splitOn hp hc
  simpa [isHexPair] using hin

theorem words_taken {seen : W} {l : List Char} {e : Option (ConfKey × Value)}
    (h : readLine seen (utf8 l) = .ok e) :
    looseEdge true l = false ∧ ∀ key value,
      partitionAt (· == '=') (bootLine true l) = some (key, value) →
        (looseWord key || looseWord value) = false := by
  obtain ⟨hnil, _⟩ | ⟨k, value, v, hwords, _, hval, _⟩ := readLine_taken h
  · rw [hnil]
    refine ⟨looseEdge_plain (by simp [hnil]), fun key value hpart => ?_⟩
    cases hpart
  · refine ⟨looseEdge_plain
      (plain_of_words hwords (name_spaceless k) (validate_spaceless hval)), ?_⟩
    intro key₀ value₀ hpart
    rw [wordsOf, hpart, Option.map_some, Option.some.injEq, Prod.mk.injEq] at hwords
    rw [looseWord, looseWord, hwords.1, hwords.2, Lib.edged_of_forall (name_spaceless k),
      Lib.edged_of_forall (validate_spaceless hval)]
    rfl

theorem knownKey_name (k : ConfKey) : Lint.knownKey k.name = some k := by
  cases k <;> decide

theorem not_loose_of_taken {seen : W} {l : List Char} {e : Option (ConfKey × Value)}
    (h : readLine seen (utf8 l) = .ok e) : ¬Loose l := by
  obtain ⟨hedge, hparts⟩ := words_taken h
  have hline := lintLine_eq hedge
  intro hl
  cases hl with
  | line hloose =>
      rw [hedge] at hloose
      cases hloose
  | word hpart hloose =>
      rw [hparts _ _ (hline ▸ hpart)] at hloose
      cases hloose
  | mac hwords hloose =>
      rw [hline, wordsOf_eq hparts] at hwords
      obtain ⟨hnil, _⟩ | ⟨k, value, v, hwords', _, hval, _⟩ := readLine_taken h
      · rw [hnil] at hwords
        cases hwords
      · rw [hwords', Option.some.injEq, Prod.mk.injEq] at hwords
        have hk := congrArg Lint.knownKey hwords.1
        rw [knownKey_name, knownKey_name, Option.some.injEq] at hk
        subst hk
        rw [← hwords.2, looseMac_taken hval] at hloose
        cases hloose

/-- **The parser refuses a loose line.** -/
theorem readLine_loose (seen : W) {l : List Char} (h : Loose l) :
    ∃ code, readLine seen (utf8 l) = .error code := by
  cases hread : readLine seen (utf8 l) with
  | error code => exact ⟨code, rfl⟩
  | ok e => exact absurd h (not_loose_of_taken hread)

/-! ## Entries -/

/-- The mask and the dictionary have the same keys. -/
def Matches (seen : W) (config : Lint.Config) : Prop :=
  ∀ k, wasSeen seen k = (config k).isSome

theorem matches_init : Matches 0 fun _ => none := fun k => wasSeen_zero k

theorem Matches.update {seen : W} {config : Lint.Config} (h : Matches seen config) (k : ConfKey)
    (s : List Char) : Matches (markSeen seen k) (Function.update config k (some s)) := by
  intro k'
  rw [wasSeen_markSeen, h k']
  by_cases hk : k = k'
  · subst hk
    simp
  · rw [Function.update_of_ne (Ne.symm hk)]
    simp [hk]

/-- **`_parse_line` of the linter**, by its words. -/
theorem parseLine_words (i : Nat) (l : List Char) (config : Lint.Config) :
    Lint.parseLine i l config =
      if lintLine true l = [] then .ok config
      else
        match wordsOf Lint.isspace (lintLine true l) with
        | none => .error ⟨i, .line, "line lacks '=': ", some (lintLine true l)⟩
        | some (key, value) =>
            match Lint.knownKey key with
            | none => .error ⟨i, .key, "unknown key: ", some key⟩
            | some k =>
                if (config k).isSome then .error ⟨i, .dup, "duplicate key: ", some key⟩
                else
                  match Lint.validateValue i k value with
                  | none => .ok (Function.update config k (some value))
                  | some e => .error e := by
  have hline : Lint.strip (Lint.stripInlineComment l) = lintLine true l := rfl
  unfold Lint.parseLine wordsOf
  dsimp only
  rw [hline]
  cases partitionAt (· == '=') (lintLine true l) with
  | none => rfl
  | some e => rfl

/-- **A line that the parser takes** the linter takes, with the same effect. -/
theorem readLine_ok {seen : W} {config : Lint.Config} {l : List Char}
    {e : Option (ConfKey × Value)} (hm : Matches seen config)
    (h : readLine seen (utf8 l) = .ok e) (i : Nat) :
    ∃ config', Lint.parseLine i l config = .ok config' ∧ Matches (seenAfter seen e) config' ∧
      ∀ net, storeEntry e (loaded net config) = loaded net config' := by
  obtain ⟨hline, hwords⟩ := words_of_not_loose (not_loose_of_taken h)
  rw [parseLine_words, hline, hwords]
  obtain ⟨hnil, rfl⟩ | ⟨k, value, v, hparts, hnew, hval, rfl⟩ := readLine_taken h
  · exact ⟨config, if_pos hnil, hm, fun _ => rfl⟩
  · obtain ⟨hgraphic, hvalid, hstore⟩ := validate_ok hval
    have hvalue := Lib.map_latin_utf8 (Lib.ascii_of_utf8 fun b hb => (hgraphic b hb).lt)
    rw [hvalue] at hvalid hstore
    have hne : bootLine true l ≠ [] := by
      intro hnil
      rw [hnil] at hparts
      cases hparts
    refine ⟨Function.update config k (some value), ?_, hm.update k _,
      fun net => hstore net config⟩
    rw [if_neg hne, hparts]
    dsimp only
    rw [knownKey_name]
    dsimp only
    rw [← hm k, hnew, if_neg Bool.false_ne_true, hvalid]

/-- **A line that the parser refuses**, and that is not loose, the linter refuses with the same
code. -/
theorem readLine_error {seen : W} {config : Lint.Config} {l : List Char} {code : ConfErr}
    (hm : Matches seen config) (hl : ¬Loose l) (h : readLine seen (utf8 l) = .error code)
    (i : Nat) : ∃ e, Lint.parseLine i l config = .error e ∧ e.code = code := by
  obtain ⟨hline, hwords⟩ := words_of_not_loose hl
  have hmac : ∀ value, wordsOf isBlankChar (bootLine true l) = some (ConfKey.mac.name, value) →
      looseMac value = false := fun value hparts =>
    Bool.eq_false_iff.mpr fun hloose => hl (.mac (by rw [hline, hwords, hparts]) hloose)
  rw [readLine_words] at h
  rw [parseLine_words, hline, hwords]
  split at h
  next => cases h
  next hne =>
    rw [if_neg hne]
    split at h
    next => cases h; exact ⟨_, rfl, rfl⟩
    next key value hparts =>
      split at h
      next => cases h; exact ⟨_, rfl, rfl⟩
      next k hkey =>
        rw [← hm k]
        split at h
        next hseen =>
          cases h
          rw [if_pos hseen]
          exact ⟨_, rfl, rfl⟩
        next hnew =>
          rw [if_neg hnew]
          cases hval : validate k (utf8 value) with
          | ok v => simp [hval, Except.map] at h
          | error err =>
              obtain rfl : err = code := by simpa [hval, Except.map] using h
              have hinvalid : (Lint.validators k).1 value = false := by
                rw [Bool.eq_false_iff]
                intro hvalid
                have hpairs : k = .mac → ∀ p ∈ value.splitOn ':', isHexPair p = true := by
                  rintro rfl p hp
                  have hfound : (ConfKey.mac.name == key) = true :=
                    List.find?_some (p := fun k : ConfKey => k.name == key) hkey
                  have hstrict := hmac value (by rw [hparts, eq_of_beq hfound])
                  simp only [looseMac, List.any_eq_false, Bool.and_eq_true, Bool.not_eq_true',
                    not_and, Bool.not_eq_false] at hstrict
                  simp only [Lint.validators, Lint.validateMac, Bool.and_eq_true,
                    List.all_eq_true] at hvalid
                  exact hstrict p hp (hvalid.2 p hp)
                obtain ⟨v, hv⟩ := validate_taken hvalid hpairs
                rw [hval] at hv
                cases hv
              refine ⟨⟨i, (Lint.validators k).2.1, (Lint.validators k).2.2, some value⟩, ?_,
                (validate_code hval).symm⟩
              simp [Lint.validateValue, hinvalid]

/-! ## The magic line -/

theorem readMagic_lint (l : List Char) :
    Lint.readMagic l =
      if lintLine false l = [] then .blank
      else if lintLine false l = Lint.magic then .found else .other := rfl

theorem readMagic_eq {l : List Char} (h : looseEdge false l = false) :
    Lint.readMagic l = readMagic (utf8 l) := by
  rw [readMagic_lint, readMagic_chars, lintLine_eq h]

theorem looseEdge_taken {l : List Char} (h : readMagic (utf8 l) ≠ .other) :
    looseEdge false l = false := by
  have hmagic : ∀ c ∈ Lint.magic, Lint.isspace c = isWsChar c := Lib.list_all (by decide)
  rw [readMagic_chars] at h
  refine looseEdge_plain ?_
  split at h
  next hnil => simp [hnil]
  next =>
    split at h
    next hfound =>
      rw [hfound]
      exact hmagic
    next => exact absurd rfl h

end WsPi5.ConfigParser

/-
# `WsPi5.Config.Agree` — the linter and the boot parser, file by file

For every text without NUL, every memory `net` and the bytes of the text:

    LintAgrees text :  config_parse succeeds exactly when lint reports ok, and where both do,
                       memory is `loaded net` of the linter's dictionary

**Proved here** (`lint_agrees_iff`): this fails on the following files and on no others
(`DiffersFile`).

* The file is well formed, and the magic line, or a line without content before it, has a character
  above `~`, or begins or ends in a blank that is not space, tab or CR (`looseMagic`).
* The file is well formed, and behind lines that are not loose comes a `Loose` line, at which the
  parser does not stop.
* Behind lines that are not loose comes a `Loose` line at which the parser stops, content: in its
  blanks the key is unknown, and nothing required is missing.  And the file is not well formed, or
  an entry of that line, or of one behind it, shows in memory.

A file is well formed (`WellFormed`) where each line up to the end, or up to an unknown key with
all that is required collected, has no content or is a new key with a valid value, in the linter's
blanks.  So where no line is loose the two agree (`not_differsFile`).
-/
import WsPi5.Config.Scan

namespace WsPi5

open Lib (utf8 latin)
open ConfigParser

/-! ## What is compared -/

def LintAgrees (text : List Char) : Prop :=
  ∀ net : NetLabels,
    ((configParse net (utf8 text)).1 = none ↔ (Lint.lint text).ok = true) ∧
      ((configParse net (utf8 text)).1 = none → (Lint.lint text).ok = true →
        (configParse net (utf8 text)).2 = loaded net (Lint.lint text).config)

/-- The two dictionaries stand for the same memory: no entry but `dhcp=no` is in one only. -/
def sameValues (config config' : Lint.Config) : Bool :=
  (ConfKey.all.all fun k => k == .dhcp || config' k == config k) &&
    ((config' .dhcp == some ['y', 'e', 's']) == (config .dhcp == some ['y', 'e', 's']))

/-! ## Files -/

/-- A line without content, or a new key with a valid value; and the dictionary after it. -/
inductive Reads (config : Lint.Config) (l : List Char) : Lint.Config → Prop
  | blank : lintLine true l = [] → Reads config l config
  | entry (k : ConfKey) {value : List Char} :
      wordsOf Lint.isspace (lintLine true l) = some (k.name, value) → config k = none →
      (Lint.validators k).1 value = true → Reads config l (Function.update config k (some value))

/-- The words of a line with a key that is none. -/
def UnknownKey (words : Option (List Char × List Char)) : Prop :=
  ∃ key value, words = some (key, value) ∧ ∀ k : ConfKey, k.name ≠ key

/-- The lines behind the magic line, and the dictionary that they give. -/
inductive WellFormed : Lint.Config → List (List Char) → Lint.Config → Prop
  | ends {config : Lint.Config} :
      Lint.requiredCollected config = true → WellFormed config [] config
  | line {config config' c : Lint.Config} {l : List Char} {lines : List (List Char)} :
      Reads config l config' → WellFormed config' lines c → WellFormed config (l :: lines) c
  | stops {config : Lint.Config} {l : List Char} {lines : List (List Char)} :
      UnknownKey (wordsOf Lint.isspace (lintLine true l)) → Lint.requiredCollected config = true →
      WellFormed config (l :: lines) config

/-- The whole file. -/
inductive WellFormedFile : List (List Char) → Lint.Config → Prop
  | blank {l : List Char} {lines : List (List Char)} {c : Lint.Config} :
      lintLine false l = [] → WellFormedFile lines c → WellFormedFile (l :: lines) c
  | found {l : List Char} {lines : List (List Char)} {c : Lint.Config} :
      lintLine false l = Lint.magic → WellFormed (fun _ => none) lines c →
      WellFormedFile (l :: lines) c

/-! ## Files on which the two differ -/

/-- From a line behind the magic line on. -/
inductive Differs : Lint.Config → List (List Char) → Prop
  | later {config config' : Lint.Config} {l : List Char} {lines : List (List Char)} :
      ¬Loose l → Reads config l config' → Differs config' lines → Differs config (l :: lines)
  /-- The parser refuses the file at this line. -/
  | refused {config c : Lint.Config} {l : List Char} {lines : List (List Char)} : Loose l →
      ¬(UnknownKey (wordsOf isBlankChar (bootLine true l)) ∧
        Lint.requiredCollected config = true) →
      WellFormed config (l :: lines) c → Differs config (l :: lines)
  /-- The parser is done with the file at this line. -/
  | stopped {config : Lint.Config} {l : List Char} {lines : List (List Char)} : Loose l →
      UnknownKey (wordsOf isBlankChar (bootLine true l)) → Lint.requiredCollected config = true →
      (∀ c, WellFormed config (l :: lines) c → sameValues config c = false) →
      Differs config (l :: lines)

/-- A first line that shows which of the two reads it. -/
def looseMagic (l : List Char) : Bool := l.any isHigh || looseEdge false l

/-- From the search for the magic line on. -/
inductive DiffersFile : List (List Char) → Prop
  | blank {l : List Char} {lines : List (List Char)} : looseMagic l = false →
      lintLine false l = [] → DiffersFile lines → DiffersFile (l :: lines)
  | found {l : List Char} {lines : List (List Char)} : looseMagic l = false →
      lintLine false l = Lint.magic → Differs (fun _ => none) lines → DiffersFile (l :: lines)
  | magic {l : List Char} {lines : List (List Char)} {c : Lint.Config} : looseMagic l = true →
      WellFormedFile (l :: lines) c → DiffersFile (l :: lines)

/-! ## Dictionaries that grow -/

def Grows (config config' : Lint.Config) : Prop :=
  ∀ k s, config k = some s → config' k = some s

theorem Grows.refl (config : Lint.Config) : Grows config config := fun _ _ h => h

theorem Grows.trans {a b c : Lint.Config} (h₁ : Grows a b) (h₂ : Grows b c) : Grows a c :=
  fun k s h => h₂ k s (h₁ k s h)

theorem grows_parseLine {i : Nat} {l : List Char} {config config' : Lint.Config}
    (h : Lint.parseLine i l config = .ok config') : Grows config config' := by
  unfold Lint.parseLine at h
  dsimp only at h
  split at h
  next => cases h; exact .refl _
  next =>
    split at h
    next => cases h
    next =>
      split at h
      next => cases h
      next k _ =>
        split at h
        next => cases h
        next hfree =>
          split at h
          next =>
            cases h
            intro k' s hs
            rw [Function.update_of_ne ?_, hs]
            rintro rfl
            simp [hs] at hfree
          next => cases h

theorem grows_settle : ∀ {lines : List (List Char)} {config c : Lint.Config},
    Lint.settle config lines = some c → Grows config c := by
  intro lines
  induction lines with
  | nil =>
      intro config c h
      simp only [Lint.settle, Option.ite_none_right_eq_some, Option.some.injEq] at h
      obtain ⟨_, rfl⟩ := h
      exact .refl _
  | cons l lines ih =>
      intro config c h
      cases hline : Lint.parseLine 0 l config with
      | ok config' =>
          rw [Lint.settle, hline] at h
          exact (grows_parseLine hline).trans (ih h)
      | error e =>
          simp only [Lint.settle, hline, Option.ite_none_right_eq_some, Option.some.injEq] at h
          obtain ⟨_, rfl⟩ := h
          exact .refl _

theorem elim_eq {config config' : Option (List Char)} {f : List Char → List Byte}
    (hg : ∀ s, config = some s → config' = some s)
    (h : ∀ x, config.elim x f = config'.elim x f) : config' = config := by
  cases config with
  | some s => exact hg s rfl
  | none =>
      cases config' with
      | none => rfl
      | some s =>
          have hlen := congrArg List.length (h (0 :: f s))
          simp at hlen

theorem sameValues_iff {config config' : Lint.Config} (hg : Grows config config') :
    sameValues config config' = true ↔ ∀ net, loaded net config = loaded net config' := by
  simp only [sameValues, Bool.and_eq_true, List.all_eq_true, Bool.or_eq_true, beq_iff_eq]
  constructor
  · rintro ⟨hall, hdhcp⟩ net
    have hk : ∀ k, k ≠ .dhcp → config' k = config k := fun k hne =>
      (hall k (ConfKey.mem_all k)).resolve_left hne
    rw [Bool.eq_iff_iff, beq_iff_eq, beq_iff_eq] at hdhcp
    simp only [loaded, hk .ip (by decide), hk .netmask (by decide), hk .gateway (by decide),
      hk .ntpServer (by decide), hk .mac (by decide), hk .hostname (by decide), hdhcp]
  · intro h
    refine ⟨fun k _ => ?_, ?_⟩
    · obtain ⟨net₀⟩ : Nonempty NetLabels := inferInstance
      cases k with
      | ip => exact .inr (elim_eq (hg _) fun x => congrArg NetLabels.ourIp (h { net₀ with ourIp := x }))
      | netmask =>
          exact .inr (elim_eq (hg _) fun x => congrArg NetLabels.netmask (h { net₀ with netmask := x }))
      | gateway => exact .inr (elim_eq (hg _) fun x => congrArg NetLabels.gwIp (h { net₀ with gwIp := x }))
      | ntpServer =>
          exact .inr (elim_eq (hg _) fun x => congrArg NetLabels.ntpIp (h { net₀ with ntpIp := x }))
      | mac =>
          exact .inr (elim_eq (hg _) fun x => congrArg NetLabels.ourMac (h { net₀ with ourMac := x }))
      | hostname =>
          exact .inr (elim_eq (hg _) fun x =>
            congrArg NetLabels.hostname (h { net₀ with hostname := x }))
      | dhcp => exact .inl rfl
    · have hflag := congrArg NetLabels.dhcp (h default)
      simp only [loaded] at hflag
      by_cases h₁ : config .dhcp = some ['y', 'e', 's'] <;>
        by_cases h₂ : config' .dhcp = some ['y', 'e', 's'] <;> simp_all

/-! ## Two outcomes -/

/-- One outcome of the parser against what the linter settles on. -/
def Alike (net : NetLabels) (r : Option ConfErr × NetLabels) (o : Option Lint.Config) : Prop :=
  (r.1 = none ↔ o.isSome = true) ∧ ∀ c, r.1 = none → o = some c → r.2 = loaded net c

theorem alike_fails {net : NetLabels} {r : Option ConfErr × NetLabels} {o : Option Lint.Config}
    (h : r.1 ≠ none) : Alike net r o ↔ o = none := by
  constructor
  · intro ha
    exact Option.not_isSome_iff_eq_none.mp fun hs => h (ha.1.mpr hs)
  · rintro rfl
    exact ⟨⟨fun h' => absurd h' h, fun h' => by cases h'⟩, fun c h' => absurd h' h⟩

theorem alike_ends {config : Lint.Config} {o : Option Lint.Config}
    (hg : ∀ c, o = some c → Grows config c) :
    (∀ net, Alike net (none, loaded net config) o) ↔ o.any (sameValues config) = true := by
  cases o with
  | none =>
      constructor
      · intro h
        have hsome := (h default).1.mp rfl
        cases hsome
      · intro h
        cases h
  | some c =>
      rw [Option.any_some, sameValues_iff (hg c rfl)]
      constructor
      · intro h net
        exact (h net).2 c rfl rfl
      · intro h net
        refine ⟨by simp, fun c' _ hc => ?_⟩
        obtain rfl := Option.some.inj hc
        exact h net

/-- Whether an error with this code ends the file. -/
def soft (code : ConfErr) (config : Lint.Config) : Bool :=
  code == .key && Lint.requiredCollected config

variable {seen : W} {config : Lint.Config}

theorem complete_iff (hm : Matches seen config) (net : NetLabels) :
    (⟨seen, loaded net config⟩ : PState).complete = Lint.requiredCollected config := by
  have hmask : ∀ m : W, (seen &&& m == m) = decide (seen &&& m = m) := fun m => by
    rw [Bool.eq_iff_iff, beq_iff_eq, decide_eq_true_eq]
  rw [Bool.eq_iff_iff]
  by_cases hyes : config .dhcp = some ['y', 'e', 's']
  · have hbit := hostnameMask_iff seen
    rw [hm .hostname] at hbit
    simpa [PState.complete, loaded, hyes, hmask, Lint.requiredCollected, Lint.required] using hbit
  · simp [PState.complete, loaded, hyes, hmask, requiredMask_iff, hm .ip, hm .netmask, hm .gateway,
      hm .hostname, Lint.requiredCollected, Lint.required]

theorem checkSoftEof_loaded (hm : Matches seen config) (net : NetLabels) (code : ConfErr) :
    checkSoftEof ⟨seen, loaded net config⟩ code
      = (if soft code config then none else some code, loaded net config) := by
  rw [checkSoftEof, complete_iff hm]
  by_cases hs : code = .key ∧ Lint.requiredCollected config = true
  · simp [soft, hs]
  · rw [if_neg hs]
    have hsoft : soft code config = false := by
      simpa [soft] using hs
    simp [hsoft]

theorem settle_cons (config : Lint.Config) (l : List Char) (lines : List (List Char)) :
    Lint.settle config (l :: lines) =
      match Lint.parseLine 0 l config with
      | .ok config' => Lint.settle config' lines
      | .error e => if soft e.code config = true then some config else none := by
  rw [Lint.settle]
  cases Lint.parseLine 0 l config with
  | ok config' => rfl
  | error e => simp [soft]

/-! ## The linter accepts the well-formed files -/

theorem knownKey_eq_none {key : List Char} :
    Lint.knownKey key = none ↔ ∀ k : ConfKey, k.name ≠ key := by
  simp [Lint.knownKey, ConfKey.mem_all]

theorem reads_iff {l : List Char} {config config' : Lint.Config} :
    Lint.parseLine 0 l config = .ok config' ↔ Reads config l config' := by
  rw [parseLine_words]
  constructor
  · intro h
    split at h
    next hnil =>
      cases h
      exact .blank hnil
    next =>
      split at h
      next => cases h
      next key value hwords =>
        split at h
        next => cases h
        next k hkey =>
          obtain rfl := eq_of_beq (List.find?_some (p := fun k : ConfKey => k.name == key) hkey)
          split at h
          next => cases h
          next hfree =>
            split at h
            next hvalid =>
              cases h
              refine .entry k hwords (by simpa using hfree) ?_
              by_contra hno
              simp [Lint.validateValue, hno] at hvalid
            next => cases h
  · intro h
    cases h with
    | blank hnil => rw [if_pos hnil]
    | entry k hwords hfree hvalid =>
        have hne : lintLine true l ≠ [] := by
          intro hnil
          rw [hnil] at hwords
          cases hwords
        rw [if_neg hne, hwords]
        simp [knownKey_name, hfree, Lint.validateValue, hvalid]

theorem validators_code (k : ConfKey) : (Lint.validators k).2.1 ≠ .key := by
  cases k <;> decide

theorem parseLine_unknown {l : List Char} (config : Lint.Config)
    (h : UnknownKey (wordsOf Lint.isspace (lintLine true l))) :
    ∃ e, Lint.parseLine 0 l config = .error e ∧ e.code = .key := by
  obtain ⟨key, value, hwords, hno⟩ := h
  have hne : lintLine true l ≠ [] := by
    intro hnil
    rw [hnil] at hwords
    cases hwords
  rw [parseLine_words, if_neg hne, hwords]
  dsimp only
  rw [knownKey_eq_none.mpr hno]
  exact ⟨_, rfl, rfl⟩

theorem parseLine_key {l : List Char} {config : Lint.Config} {e : Lint.LintError}
    (h : Lint.parseLine 0 l config = .error e) (hcode : e.code = .key) :
    UnknownKey (wordsOf Lint.isspace (lintLine true l)) := by
  rw [parseLine_words] at h
  split at h
  next => cases h
  next =>
    split at h
    next => cases h; cases hcode
    next key value hwords =>
      split at h
      next hkey =>
        exact ⟨key, value, hwords, knownKey_eq_none.mp hkey⟩
      next k hkey =>
        split at h
        next => cases h; cases hcode
        next =>
          split at h
          next => cases h
          next e' hvalue =>
            cases h
            simp only [Lint.validateValue] at hvalue
            split at hvalue
            next => cases hvalue
            next =>
              cases hvalue
              exact absurd hcode (validators_code k)

theorem settle_iff : ∀ {lines : List (List Char)} {config c : Lint.Config},
    Lint.settle config lines = some c ↔ WellFormed config lines c := by
  intro lines
  induction lines with
  | nil =>
      intro config c
      simp only [Lint.settle, Option.ite_none_right_eq_some, Option.some.injEq]
      constructor
      · rintro ⟨hreq, rfl⟩
        exact .ends hreq
      · rintro ⟨hreq⟩
        exact ⟨hreq, rfl⟩
  | cons l lines ih =>
      intro config c
      rw [settle_cons]
      cases hline : Lint.parseLine 0 l config with
      | ok config' =>
          rw [ih]
          refine ⟨fun h => .line (reads_iff.mp hline) h, fun h => ?_⟩
          cases h with
          | line hreads h =>
              rw [← reads_iff, hline, Except.ok.injEq] at hreads
              exact hreads ▸ h
          | stops hunknown _ =>
              obtain ⟨e, he, _⟩ := parseLine_unknown config hunknown
              rw [hline] at he
              cases he
      | error e =>
          simp only [soft, Bool.and_eq_true, beq_iff_eq, Option.ite_none_right_eq_some,
            Option.some.injEq]
          constructor
          · rintro ⟨⟨hcode, hreq⟩, rfl⟩
            exact .stops (parseLine_key hline hcode) hreq
          · intro h
            cases h with
            | line hreads h =>
                rw [← reads_iff, hline] at hreads
                cases hreads
            | stops hunknown hreq =>
                obtain ⟨e', he', hcode⟩ := parseLine_unknown config hunknown
                rw [hline, Except.error.injEq] at he'
                exact ⟨⟨he' ▸ hcode, hreq⟩, rfl⟩

theorem settleMagic_iff : ∀ {lines : List (List Char)} {c : Lint.Config},
    Lint.settleMagic lines = some c ↔ WellFormedFile lines c := by
  intro lines
  induction lines with
  | nil =>
      intro c
      refine iff_of_false (by simp [Lint.settleMagic]) fun h => ?_
      cases h
  | cons l lines ih =>
      intro c
      rw [Lint.settleMagic, readMagic_lint]
      by_cases hnil : lintLine false l = []
      · rw [if_pos hnil]
        refine ih.trans ⟨.blank hnil, fun h => ?_⟩
        cases h with
        | blank _ h => exact h
        | found hmagic _ =>
            rw [hnil] at hmagic
            cases hmagic
      · rw [if_neg hnil]
        by_cases hmagic : lintLine false l = Lint.magic
        · rw [if_pos hmagic]
          refine settle_iff.trans ⟨.found hmagic, fun h => ?_⟩
          cases h with
          | blank hnil' _ => exact absurd hnil' hnil
          | found _ h => exact h
        · rw [if_neg hmagic]
          refine iff_of_false (by simp) fun h => ?_
          cases h with
          | blank hnil' _ => exact hnil hnil'
          | found hmagic' _ => exact hmagic hmagic'

/-! ## The lines -/

theorem readLine_key {l : List Char} {code : ConfErr} (h : readLine seen (utf8 l) = .error code) :
    code = .key ↔ UnknownKey (wordsOf isBlankChar (bootLine true l)) := by
  rw [readLine_words] at h
  split at h
  next => cases h
  next =>
    split at h
    next hwords =>
      cases h
      refine iff_of_false (fun h => by cases h) ?_
      rintro ⟨key, value, hwords', _⟩
      rw [hwords] at hwords'
      cases hwords'
    next key value hwords =>
      split at h
      next hkey =>
        cases h
        exact iff_of_true rfl ⟨key, value, hwords, knownKey_eq_none.mp hkey⟩
      next k hkey =>
        have hknown : ¬UnknownKey (wordsOf isBlankChar (bootLine true l)) := by
          rintro ⟨key', value', hwords', hno⟩
          rw [hwords, Option.some.injEq, Prod.mk.injEq] at hwords'
          rw [← hwords'.1, ← knownKey_eq_none, hkey] at hno
          cases hno
        refine iff_of_false ?_ hknown
        rintro rfl
        split at h
        next => cases h
        next =>
          cases hval : validate k (utf8 value) with
          | ok v => simp [hval, Except.map] at h
          | error err =>
              obtain rfl : err = .key := by simpa [hval, Except.map] using h
              exact validators_code k (validate_code hval).symm

/-- **At a loose line**: the parser fails, or stops with what it has. -/
theorem alike_loose (hm : Matches seen config) {l : List Char} (lines : List (List Char))
    (hl : Loose l) :
    (∀ net, Alike net (readLines ⟨seen, loaded net config⟩ ((l :: lines).map utf8))
        (Lint.settle config (l :: lines))) ↔ ¬Differs config (l :: lines) := by
  obtain ⟨code, hread⟩ := readLine_loose seen hl
  have hlines : ∀ net, readLines ⟨seen, loaded net config⟩ ((l :: lines).map utf8)
      = (if soft code config then none else some code, loaded net config) := by
    intro net
    rw [List.map_cons, readLines, hread]
    exact checkSoftEof_loaded hm net code
  have hstop : soft code config = true ↔
      UnknownKey (wordsOf isBlankChar (bootLine true l)) ∧ Lint.requiredCollected config = true := by
    simp [soft, readLine_key hread]
  simp only [hlines]
  cases hs : soft code config with
  | true =>
      obtain ⟨hkey, hreq⟩ := hstop.mp hs
      simp only [if_true]
      rw [alike_ends fun c => grows_settle]
      constructor
      · intro hany hd
        obtain ⟨c, hc, hsame⟩ := (Option.any_eq_true ..).mp hany
        cases hd with
        | later hno _ _ => exact hno hl
        | refused _ hno _ => exact hno ⟨hkey, hreq⟩
        | stopped _ _ _ hall =>
            rw [hall c (settle_iff.mp hc)] at hsame
            cases hsame
      · intro hd
        by_contra hany
        refine hd (.stopped hl hkey hreq fun c hc => ?_)
        rw [Bool.not_eq_true, Option.any_eq_false] at hany
        simpa using hany c (settle_iff.mpr hc)
  | false =>
      have hfails : ∀ net : NetLabels, (some code, loaded net config).1 ≠ none := by simp
      have hno : ¬(UnknownKey (wordsOf isBlankChar (bootLine true l)) ∧
          Lint.requiredCollected config = true) := fun h => by
        rw [hstop.mpr h] at hs
        cases hs
      simp only [Bool.false_eq_true, if_false, alike_fails (hfails _), forall_const]
      constructor
      · intro hnone hd
        cases hd with
        | later hno _ _ => exact hno hl
        | refused _ _ hc =>
            rw [settle_iff.mpr hc] at hnone
            cases hnone
        | stopped _ hkey hreq _ => exact hno ⟨hkey, hreq⟩
      · intro hd
        rw [Option.eq_none_iff_forall_not_mem]
        exact fun c hc => hd (.refused hl hno (settle_iff.mp hc))

/-- **The lines behind the magic line.** -/
theorem alike_iff : ∀ (lines : List (List Char)) {seen : W} {config : Lint.Config},
    Matches seen config →
    ((∀ net, Alike net (readLines ⟨seen, loaded net config⟩ (lines.map utf8))
        (Lint.settle config lines)) ↔ ¬Differs config lines) := by
  intro lines
  induction lines with
  | nil =>
      intro seen config hm
      refine iff_of_true (fun net => ?_) fun h => by cases h
      rw [List.map_nil, readLines, finish, complete_iff hm, Lint.settle]
      cases Lint.requiredCollected config with
      | true => exact ⟨by simp, fun c _ hc => by rw [← Option.some.inj hc]; rfl⟩
      | false => exact (alike_fails (by simp)).mpr rfl
  | cons l lines ih =>
      intro seen config hm
      by_cases hl : Loose l
      · exact alike_loose hm lines hl
      · cases hread : readLine seen (utf8 l) with
        | error code =>
            -- the linter refuses the line with the same code
            obtain ⟨e, hparse, rfl⟩ := readLine_error hm hl hread 0
            refine iff_of_true (fun net => ?_) fun hd => ?_
            · simp only [List.map_cons, readLines, hread, checkSoftEof_loaded hm, settle_cons, hparse]
              cases soft e.code config with
              | true => exact ⟨by simp, fun c _ hc => by rw [← Option.some.inj hc]⟩
              | false => exact (alike_fails (by simp)).mpr rfl
            · cases hd with
              | later _ hreads _ =>
                  rw [← reads_iff, hparse] at hreads
                  cases hreads
              | refused hloose _ _ => exact hl hloose
              | stopped hloose _ _ _ => exact hl hloose
        | ok e =>
            obtain ⟨config', hparse, hm', hstore⟩ := readLine_ok hm hread 0
            simp only [List.map_cons, readLines, hread, PState.enter, hstore, settle_cons, hparse]
            refine (ih hm').trans (not_congr ⟨.later hl (reads_iff.mp hparse), fun hd => ?_⟩)
            cases hd with
            | later _ hreads h =>
                rw [← reads_iff, hparse, Except.ok.injEq] at hreads
                exact hreads ▸ h
            | refused hloose _ _ => exact absurd hloose hl
            | stopped hloose _ _ _ => exact absurd hloose hl

/-! ## The magic line -/

theorem looseMagic_other {l : List Char} (hlow : ∀ c ∈ l, isHigh c = false)
    (h : looseMagic l = true) : readMagic (utf8 l) = .other := by
  have hany : l.any isHigh = false := by simpa using hlow
  rw [looseMagic, hany, Bool.false_or] at h
  by_contra hne
  rw [looseEdge_taken hne] at h
  cases h

theorem start_other {l : List Char} (lines : List (List Char)) (h : LineOk l)
    (hlow : ∀ c ∈ l, isHigh c = false) (hmagic : readMagic (utf8 l) = .other) (net : NetLabels)
    (n : Nat) (hn : (utf8 (joined (l :: lines))).length ≤ n) :
    (start net n (utf8 (joined (l :: lines)))).1 ≠ none := by
  cases lines with
  | nil =>
      rw [joined, List.intercalate_singleton] at hn ⊢
      rw [start_last h hlow net hn, hmagic]
      exact Option.some_ne_none _
  | cons l' lines =>
      rw [utf8_joined] at hn ⊢
      obtain ⟨m, rfl⟩ : ∃ m, n = m + 1 := ⟨n - 1, by simp at hn; omega⟩
      rw [start_line h hlow, hmagic]
      exact Option.some_ne_none _

theorem start_found {l : List Char} {lines : List (List Char)} (hls : ∀ l' ∈ l :: lines, LineOk l')
    (hlow : ∀ c ∈ l, isHigh c = false) (hmagic : readMagic (utf8 l) = .found) (net : NetLabels)
    (n : Nat) (hn : (utf8 (joined (l :: lines))).length ≤ n) :
    start net n (utf8 (joined (l :: lines))) = readLines ⟨0, net⟩ (lines.map utf8) := by
  have h := hls l List.mem_cons_self
  cases lines with
  | nil =>
      rw [joined, List.intercalate_singleton] at hn ⊢
      rw [start_last h hlow net hn, hmagic]
      rfl
  | cons l' lines =>
      rw [utf8_joined] at hn ⊢
      obtain ⟨m, rfl⟩ : ∃ m, n = m + 1 := ⟨n - 1, by simp at hn; omega⟩
      rw [start_line h hlow, hmagic]
      exact loop_lines lines l' (fun l'' hl => hls l'' (List.mem_cons_of_mem _ hl)) _ _
        (Nat.le_refl _)

theorem start_loose {l : List Char} (lines : List (List Char)) (h : LineOk l)
    (hloose : looseMagic l = true) (net : NetLabels) (n : Nat)
    (hn : (utf8 (joined (l :: lines))).length ≤ n) :
    (start net n (utf8 (joined (l :: lines)))).1 ≠ none := by
  by_cases hhigh : ∃ c ∈ l, isHigh c = true
  · cases lines with
    | nil =>
        rw [joined, List.intercalate_singleton]
        have hstart := start_high h hhigh net n []
        rwa [List.append_nil] at hstart
    | cons l' lines =>
        rw [utf8_joined]
        exact start_high h hhigh net n _
  · have hlow : ∀ c ∈ l, isHigh c = false := fun c hc => by simpa using fun hc' => hhigh ⟨c, hc, hc'⟩
    exact start_other lines h hlow (looseMagic_other hlow hloose) net n hn

section

variable {l : List Char} {lines : List (List Char)} {n : Nat}

theorem alikeMagic_loose (h : LineOk l) (hloose : looseMagic l = true)
    (hn : (utf8 (joined (l :: lines))).length ≤ n) :
    (∀ net, Alike net (start (loaded net fun _ => none) n (utf8 (joined (l :: lines))))
      (Lint.settleMagic (l :: lines))) ↔ ¬DiffersFile (l :: lines) := by
  simp only [alike_fails (start_loose lines h hloose _ n hn), forall_const]
  constructor
  · intro hnone hd
    cases hd with
    | blank hno _ _ | found hno _ _ =>
        rw [hloose] at hno
        cases hno
    | magic _ hc =>
        rw [settleMagic_iff.mpr hc] at hnone
        cases hnone
  · intro hd
    rw [Option.eq_none_iff_forall_not_mem]
    exact fun c hc => hd (.magic hloose (settleMagic_iff.mp hc))

theorem looseMagic_same (hloose : looseMagic l = false) :
    (∀ c ∈ l, isHigh c = false) ∧ Lint.readMagic l = readMagic (utf8 l) := by
  obtain ⟨hany, hedge⟩ := Bool.or_eq_false_iff.mp hloose
  exact ⟨by simpa using hany, readMagic_eq hedge⟩

theorem alikeMagic_other (h : LineOk l) (hloose : looseMagic l = false)
    (hmagic : Lint.readMagic l = .other) (hn : (utf8 (joined (l :: lines))).length ≤ n) :
    (∀ net, Alike net (start (loaded net fun _ => none) n (utf8 (joined (l :: lines))))
      (Lint.settleMagic (l :: lines))) ↔ ¬DiffersFile (l :: lines) := by
  obtain ⟨hlow, hsame⟩ := looseMagic_same hloose
  refine iff_of_true (fun net => ?_) fun hd => ?_
  · rw [alike_fails (start_other lines h hlow (hsame ▸ hmagic) _ n hn), Lint.settleMagic, hmagic]
  · rw [readMagic_lint] at hmagic
    cases hd with
    | blank _ hnil _ =>
        rw [if_pos hnil] at hmagic
        cases hmagic
    | found _ hfound _ =>
        rw [if_neg (by rw [hfound]; decide), if_pos hfound] at hmagic
        cases hmagic
    | magic hloose' _ =>
        rw [hloose] at hloose'
        cases hloose'

theorem alikeMagic_found (hls : ∀ l' ∈ l :: lines, LineOk l') (hloose : looseMagic l = false)
    (hmagic : Lint.readMagic l = .found) (hn : (utf8 (joined (l :: lines))).length ≤ n) :
    (∀ net, Alike net (start (loaded net fun _ => none) n (utf8 (joined (l :: lines))))
      (Lint.settleMagic (l :: lines))) ↔ ¬DiffersFile (l :: lines) := by
  obtain ⟨hlow, hsame⟩ := looseMagic_same hloose
  have hline : lintLine false l ≠ [] ∧ lintLine false l = Lint.magic := by
    rw [readMagic_lint] at hmagic
    split_ifs at hmagic with hnil hfound
    exact ⟨hnil, hfound⟩
  simp only [start_found hls hlow (hsame ▸ hmagic) _ n hn, Lint.settleMagic, hmagic]
  refine (alike_iff lines matches_init).trans (not_congr ⟨.found hloose hline.2, fun hd => ?_⟩)
  cases hd with
  | blank _ hnil _ => exact absurd hnil hline.1
  | found _ _ h => exact h
  | magic hloose' _ =>
      rw [hloose] at hloose'
      cases hloose'

theorem differsFile_blank (hloose : looseMagic l = false) (hmagic : Lint.readMagic l = .blank) :
    DiffersFile (l :: lines) ↔ DiffersFile lines := by
  have hnil : lintLine false l = [] := by
    rw [readMagic_lint] at hmagic
    split_ifs at hmagic with hnil
    exact hnil
  refine ⟨fun hd => ?_, .blank hloose hnil⟩
  cases hd with
  | blank _ _ h => exact h
  | found _ hfound _ =>
      rw [hnil] at hfound
      cases hfound
  | magic hloose' _ =>
      rw [hloose] at hloose'
      cases hloose'

end

/-- **The file from the search for the magic line on**, with turns to spare. -/
theorem alikeMagic_iff : ∀ (lines : List (List Char)) (l : List Char),
    (∀ l' ∈ l :: lines, LineOk l') → ∀ n, (utf8 (joined (l :: lines))).length ≤ n →
    ((∀ net, Alike net (start (loaded net fun _ => none) n (utf8 (joined (l :: lines))))
        (Lint.settleMagic (l :: lines))) ↔ ¬DiffersFile (l :: lines)) := by
  intro lines
  induction lines with
  | nil =>
      intro l hls n hn
      have h := hls l List.mem_cons_self
      cases hloose : looseMagic l with
      | true => exact alikeMagic_loose h hloose hn
      | false =>
          cases hmagic : Lint.readMagic l with
          | other => exact alikeMagic_other h hloose hmagic hn
          | found => exact alikeMagic_found hls hloose hmagic hn
          | blank =>
              -- no line is left: both fail
              obtain ⟨hlow, hsame⟩ := looseMagic_same hloose
              rw [joined, List.intercalate_singleton] at hn ⊢
              rw [differsFile_blank hloose hmagic]
              refine iff_of_true (fun net => ?_) fun hd => by cases hd
              rw [start_last h hlow _ hn, ← hsame, hmagic]
              exact (alike_fails (Option.some_ne_none _)).mpr
                (by simp [Lint.settleMagic, hmagic])
  | cons l' lines ih =>
      intro l hls n hn
      have h := hls l List.mem_cons_self
      cases hloose : looseMagic l with
      | true => exact alikeMagic_loose h hloose hn
      | false =>
          cases hmagic : Lint.readMagic l with
          | other => exact alikeMagic_other h hloose hmagic hn
          | found => exact alikeMagic_found hls hloose hmagic hn
          | blank =>
              obtain ⟨hlow, hsame⟩ := looseMagic_same hloose
              rw [utf8_joined] at hn ⊢
              rw [List.length_append, List.length_cons] at hn
              obtain ⟨m, rfl⟩ : ∃ m, n = m + 1 := ⟨n - 1, by omega⟩
              simp only [start_line h hlow, ← hsame, hmagic]
              rw [Lint.settleMagic, hmagic, differsFile_blank hloose hmagic]
              exact ih l' (fun l'' hl => hls l'' (List.mem_cons_of_mem _ hl)) m (by omega)

/-! ## Every file -/

theorem not_differs : ∀ {lines : List (List Char)} {config : Lint.Config},
    (∀ l ∈ lines, ¬Loose l) → ¬Differs config lines := by
  intro lines
  induction lines with
  | nil => intro config _ hd; cases hd
  | cons l lines ih =>
      intro config h hd
      have hl := h l List.mem_cons_self
      cases hd with
      | later _ _ hd => exact ih (fun l' hl' => h l' (List.mem_cons_of_mem _ hl')) hd
      | refused hloose _ _ => exact hl hloose
      | stopped hloose _ _ _ => exact hl hloose

/-- **Nothing else is a difference.**  No line is loose, and none that is loose in the place of the
magic line passes for it there, or for a line without content. -/
theorem not_differsFile : ∀ {lines : List (List Char)}, (∀ l ∈ lines, ¬Loose l) →
    (∀ l ∈ lines, looseMagic l = true → Lint.readMagic l = .other) → ¬DiffersFile lines := by
  intro lines
  induction lines with
  | nil => intro _ _ hd; cases hd
  | cons l lines ih =>
      intro h hfirst hd
      have htail := fun l' hl' => h l' (List.mem_cons_of_mem l hl')
      cases hd with
      | blank _ _ hd => exact ih htail (fun l' hl' => hfirst l' (List.mem_cons_of_mem _ hl')) hd
      | found _ _ hd => exact not_differs htail hd
      | magic hloose hwell =>
          have hsettle := settleMagic_iff.mpr hwell
          rw [Lint.settleMagic, hfirst l List.mem_cons_self hloose] at hsettle
          cases hsettle

/-- **The linter and the boot parser agree on a file** exactly where it is none of these. -/
theorem lint_agrees_iff (text : List Char) (hnul : '\x00' ∉ text) :
    LintAgrees text ↔ ¬DiffersFile (text.splitOn '\n') := by
  obtain ⟨l, lines, hlines⟩ := List.exists_cons_of_ne_nil (List.splitOn_ne_nil '\n' text)
  have htext : joined (l :: lines) = text := by
    rw [joined, ← hlines, List.intercalate_splitOn]
  have hok : ∀ l' ∈ l :: lines, LineOk l' := by
    intro l' hl'
    refine ⟨Lib.notMem_of_mem_splitOn (hlines ▸ hl'), fun hmem => hnul ?_⟩
    rw [← htext]
    exact Lib.mem_intercalate hl' hmem
  have hlint := Lint.settle_lint text
  rw [hlines, ← alikeMagic_iff lines l hok _ (Nat.le_refl _), htext, ← hlines, hlint]
  refine forall_congr' fun net => ?_
  have hstart : configParse net (utf8 text)
      = start (loaded net fun _ => none) (utf8 text).length (utf8 text) := rfl
  rw [← hstart, Alike]
  cases hlok : (Lint.lint text).ok with
  | true => simp
  | false => simp

/-- A file with everything, in CRLF lines and with comments. -/
def demoConf : List Char :=
  ("# WSPI5CFG # v1\r\n\r\nip = 10.0.0.2 # é\r\nnetmask=255.255.255.0\ngateway=10.0.0.1\n" ++
    "hostname=wspi5\nmac=de:AD:be:ef:ca:fe\ndhcp=no\nfoo=1\nrubbish").toList

theorem lint_agrees_demo : (Lint.lint demoConf).ok = true ∧ LintAgrees demoConf :=
  ⟨by decide +kernel, (lint_agrees_iff demoConf (by decide +kernel)).mpr
    (not_differsFile (by decide +kernel) (by decide +kernel))⟩

/-- A file whose magic line has a comment with an é. -/
def accentConf : List Char := "# WSPI5CFG # é\ndhcp=yes\nhostname=wspi5\n".toList

/-- **The linter passes a file that does not boot.** -/
theorem accent_refused :
    '\x00' ∉ accentConf ∧ (utf8 accentConf).length ≤ 4096 ∧ (Lint.lint accentConf).ok = true ∧
      (configParse default (utf8 accentConf)).1 = some .line ∧ ¬LintAgrees accentConf := by
  have hok : (Lint.lint accentConf).ok = true := by decide +kernel
  have hfails : (configParse default (utf8 accentConf)).1 = some .line := by decide +kernel
  refine ⟨by decide +kernel, by decide +kernel, hok, hfails, fun h => ?_⟩
  have hboots := (h default).1.mpr hok
  rw [hfails] at hboots
  cases hboots

end WsPi5

/-
# `WsPi5.Config.Lint` — `network.conf` as the flash-time linter reads it

The functions of `scripts/lint_network_conf.py`, on the text of the file: `lint` as it is called
on a `str`.  Characters are Unicode, and so are the blanks: `str.strip` and `str.isspace` know
the 29 of `isspace`, and `int(p, 16)` takes signs, blanks and the decimal digits of every
script.

A dictionary of the linter holds known keys only, so it is a function of the key.  An error
message is its text up to the value that it shows, and that value, which Python writes with
`repr`.

**Proved here**: `lint` accepts exactly the files that `settleMagic` gives a dictionary for, and
its dictionary is that one (`settle_lint`).
-/
import Mathlib.Logic.Function.Basic
import WsPi5.Config.Parser

namespace WsPi5.Lint

open Lib (cutComment trim partitionAt)

/-! ## Characters -/

/-- `str.isspace` of one character. -/
def isspace (c : Char) : Bool :=
  let n := c.toNat
  (9 ≤ n && n ≤ 13) || (0x1C ≤ n && n ≤ 0x20) || n == 0x85 || n == 0xA0 || n == 0x1680 ||
    (0x2000 ≤ n && n ≤ 0x200A) || n == 0x2028 || n == 0x2029 || n == 0x202F || n == 0x205F ||
    n == 0x3000

/-- `str.strip`. -/
def strip (s : List Char) : List Char := trim isspace s

/-- The zeros of the decimal digits that Python knows; nine more digits follow each. -/
def zeros : List Nat :=
  [0x30, 0x660, 0x6F0, 0x7C0, 0x966, 0x9E6, 0xA66, 0xAE6, 0xB66, 0xBE6, 0xC66, 0xCE6, 0xD66,
    0xDE6, 0xE50, 0xED0, 0xF20, 0x1040, 0x1090, 0x17E0, 0x1810, 0x1946, 0x19D0, 0x1A80, 0x1A90,
    0x1B50, 0x1BB0, 0x1C40, 0x1C50, 0xA620, 0xA8D0, 0xA900, 0xA9D0, 0xA9F0, 0xAA50, 0xABF0,
    0xFF10, 0x104A0, 0x10D30, 0x11066, 0x110F0, 0x11136, 0x111D0, 0x112F0, 0x11450, 0x114D0,
    0x11650, 0x116C0, 0x11730, 0x118E0, 0x11950, 0x11C50, 0x11D50, 0x11DA0, 0x16A60, 0x16AC0,
    0x16B50, 0x1D7CE, 0x1D7D8, 0x1D7E2, 0x1D7EC, 0x1D7F6, 0x1E140, 0x1E2F0, 0x1E950, 0x1FBF0]

/-- A digit to `int(_, 16)`. -/
def isHexDigit (c : Char) : Bool :=
  zeros.any (fun z => z ≤ c.toNat && c.toNat < z + 10) || ('A' ≤ c && c ≤ 'F') ||
    ('a' ≤ c && c ≤ 'f')

/-- A blank that `int` skips. -/
def intSpace (c : Char) : Bool :=
  (9 ≤ c.toNat && c.toNat ≤ 13) || c == ' ' || (128 ≤ c.toNat && isspace c)

/-! ## Per-value validators -/

/-- `int(p)`, where `p` is ASCII digits. -/
def decimal (p : List Char) : Nat := p.foldl (fun v c => v * 10 + (c.toNat - 0x30)) 0

def isValidOctet (p : List Char) : Bool :=
  !p.isEmpty && p.all (fun c => '0' ≤ c && c ≤ '9') && !(1 < p.length && p.head? == some '0') &&
    decimal p ≤ 255

def validateIp (s : List Char) : Bool :=
  let parts := s.splitOn '.'
  parts.length == 4 && parts.all isValidOctet

def validateYesno (s : List Char) : Bool := s == ['y', 'e', 's'] || s == ['n', 'o']

/-- `c in _LDH_FIRST`. -/
def ldhFirst (c : Char) : Bool := c.isAlphanum

/-- `c in _LDH`. -/
def ldh (c : Char) : Bool := ldhFirst c || c == '-'

def hostnameMaxLen : Nat := 63

def validateHostname (s : List Char) : Bool :=
  !s.isEmpty && s.length ≤ hostnameMaxLen && s.head?.any ldhFirst && s.getLast?.any ldhFirst &&
    s.all ldh

/-- `_is_valid_mac_byte`: two characters that `int(p, 16)` takes. -/
def isValidMacByte : List Char → Bool
  | [a, b] =>
      ((isHexDigit a || a == '+' || a == '-' || intSpace a) && isHexDigit b) ||
        (isHexDigit a && intSpace b)
  | _ => false

def validateMac (s : List Char) : Bool :=
  let parts := s.splitOn ':'
  parts.length == 6 && parts.all isValidMacByte

/-! ## Errors -/

structure LintError where
  line : Nat
  code : ConfErr
  text : String
  shown : Option (List Char)

def validators : ConfKey → (List Char → Bool) × ConfErr × String
  | .ip | .netmask | .gateway | .ntpServer =>
      (validateIp, .ip, "malformed IPv4 dotted-decimal: ")
  | .hostname =>
      (validateHostname, .host, "hostname must be 1-63 LDH chars, first letter/digit; got ")
  | .mac => (validateMac, .mac, "MAC must be six colon-separated 2-digit hex bytes; got ")
  | .dhcp => (validateYesno, .line, "dhcp must be 'yes' or 'no'; got ")

/-! ## Lines -/

def stripInlineComment (s : List Char) : List Char := cutComment (· == '#') isspace true s

/-- The scan starts at the second character: the first `#` is part of the magic. -/
def stripMagicTrailingComment (s : List Char) : List Char :=
  cutComment (· == '#') isspace false s

def magic : List Char := ['#', ' ', 'W', 'S', 'P', 'I', '5', 'C', 'F', 'G']

/-- What `_check_magic` takes a line for. -/
def readMagic (raw : List Char) : MagicLine :=
  let stripped := strip (stripMagicTrailingComment raw)
  if stripped = [] then .blank else if stripped = magic then .found else .other

/-- `_check_magic` from line `i` on: the number of the magic line. -/
def checkMagic : Nat → List (List Char) → Except LintError Nat
  | _, [] => .error ⟨0, .magic, "empty file or no magic sentinel found", none⟩
  | i, raw :: lines =>
      match readMagic raw with
      | .blank => checkMagic (i + 1) lines
      | .found => .ok i
      | .other =>
          .error ⟨i, .magic, "first non-empty line must be '# WSPI5CFG'; got ",
            some (strip (stripMagicTrailingComment raw))⟩

abbrev Config := ConfKey → Option (List Char)

/-- `key in ALL_KEYS`. -/
def knownKey (key : List Char) : Option ConfKey := ConfKey.all.find? fun k => k.name == key

def validateValue (lineno : Nat) (k : ConfKey) (value : List Char) : Option LintError :=
  let (validator, code, text) := validators k
  if validator value then none else some ⟨lineno, code, text, some value⟩

/-- `_parse_line`, with `_classify_kv`: the dictionary after it. -/
def parseLine (lineno : Nat) (raw : List Char) (config : Config) : Except LintError Config :=
  let line := strip (stripInlineComment raw)
  if line = [] then .ok config
  else
    match partitionAt (· == '=') line with
    | none => .error ⟨lineno, .line, "line lacks '=': ", some line⟩
    | some (key, value) =>
        match knownKey (strip key) with
        | none => .error ⟨lineno, .key, "unknown key: ", some (strip key)⟩
        | some k =>
            if (config k).isSome then
              .error ⟨lineno, .dup, "duplicate key: ", some (strip key)⟩
            else
              match validateValue lineno k (strip value) with
              | none => .ok (Function.update config k (some (strip value)))
              | some e => .error e

/-! ## The file -/

/-- `REQUIRED_KEYS`, or `DHCP_RELAXED_REQUIRED`. -/
def required (config : Config) : List ConfKey :=
  if config .dhcp = some ['y', 'e', 's'] then [.hostname]
  else [.ip, .netmask, .gateway, .hostname]

def requiredCollected (config : Config) : Bool := (required config).all fun k => (config k).isSome

def checkRequired (config : Config) : List LintError :=
  ((required config).filter fun k => (config k).isNone).map fun k =>
    ⟨0, .req, "required key missing: ", some k.name⟩

/-- The loop of `lint`, from line `i` on: the dictionary and the errors. -/
def lintLines : Nat → Config → List (List Char) → Config × List LintError
  | _, config, [] => (config, [])
  | i, config, raw :: lines =>
      match parseLine i raw config with
      | .ok config' => lintLines (i + 1) config' lines
      | .error e =>
          if e.code = .key ∧ requiredCollected config then (config, [])
          else
            let (config', errors) := lintLines (i + 1) config lines
            (config', e :: errors)

structure LintResult where
  ok : Bool
  config : Config
  errors : List LintError

def lint (text : List Char) : LintResult :=
  let lines := text.splitOn '\n'
  match checkMagic 1 lines with
  | .error e => ⟨false, fun _ => none, [e]⟩
  | .ok magicLineno =>
      let (config, errors) := lintLines (magicLineno + 1) (fun _ => none) (lines.drop magicLineno)
      let errors := errors ++ checkRequired config
      ⟨errors.isEmpty, config, errors⟩

/-! ## What an accepted file gives -/

/-- The dictionary that the lines complete; none where the linter objects to one of them, or to
the end. -/
def settle (config : Config) : List (List Char) → Option Config
  | [] => if requiredCollected config then some config else none
  | raw :: lines =>
      match parseLine 0 raw config with
      | .ok config' => settle config' lines
      | .error e => if e.code = .key ∧ requiredCollected config then some config else none

/-- The same from the search for the magic line on. -/
def settleMagic : List (List Char) → Option Config
  | [] => none
  | raw :: lines =>
      match readMagic raw with
      | .blank => settleMagic lines
      | .found => settle (fun _ => none) lines
      | .other => none

theorem checkRequired_nil (config : Config) :
    checkRequired config = [] ↔ requiredCollected config = true := by
  simp [checkRequired, requiredCollected, Option.isSome_iff_ne_none]

theorem parseLine_lineno (i : Nat) (raw : List Char) (config : Config) :
    parseLine i raw config
      = (parseLine 0 raw config).mapError fun e => { e with line := i } := by
  unfold parseLine validateValue
  dsimp only
  split
  · rfl
  · split
    · rfl
    · split
      · rfl
      · split
        · rfl
        · split <;> simp_all [Except.mapError]

theorem lintLines_settle : ∀ (lines : List (List Char)) (i : Nat) (config : Config),
    settle config lines =
      if (lintLines i config lines).2 = [] ∧
          requiredCollected (lintLines i config lines).1 = true then
        some (lintLines i config lines).1
      else none := by
  intro lines
  induction lines with
  | nil => intro i config; simp [settle, lintLines]
  | cons raw lines ih =>
      intro i config
      cases hline : parseLine 0 raw config with
      | ok config' =>
          simp only [settle, lintLines, parseLine_lineno i, hline, Except.mapError]
          exact ih (i + 1) config'
      | error e =>
          simp only [settle, lintLines, parseLine_lineno i, hline, Except.mapError]
          by_cases hsoft : e.code = .key ∧ requiredCollected config = true
          · simp [hsoft]
          · simp [if_neg hsoft]

theorem checkMagic_settle : ∀ (lines : List (List Char)) (i : Nat),
    (∀ m, checkMagic i lines = .ok m →
      i ≤ m ∧ settleMagic lines = settle (fun _ => none) (lines.drop (m + 1 - i))) ∧
    (∀ e, checkMagic i lines = .error e → settleMagic lines = none) := by
  intro lines
  induction lines with
  | nil => intro i; simp [checkMagic, settleMagic]
  | cons raw lines ih =>
      intro i
      cases hraw : readMagic raw with
      | blank =>
          simp only [checkMagic, settleMagic, hraw]
          refine ⟨fun m hm => ?_, (ih (i + 1)).2⟩
          obtain ⟨hle, hset⟩ := (ih (i + 1)).1 m hm
          refine ⟨by omega, hset.trans ?_⟩
          rw [show m + 1 - i = (m + 1 - (i + 1)) + 1 by omega, List.drop_succ_cons]
      | found => simp [checkMagic, settleMagic, hraw]
      | other => simp [checkMagic, settleMagic, hraw]

/-- **What the linter accepts**, and with which dictionary. -/
theorem settle_lint (text : List Char) :
    settleMagic (text.splitOn '\n')
      = if (lint text).ok = true then some (lint text).config else none := by
  obtain ⟨hfound, hnone⟩ := checkMagic_settle (text.splitOn '\n') 1
  unfold lint
  cases hm : checkMagic 1 (text.splitOn '\n') with
  | error e => simp [hm, hnone e hm]
  | ok m =>
      obtain ⟨_, hset⟩ := hfound m hm
      rw [Nat.add_sub_cancel] at hset
      rw [hset, lintLines_settle _ (m + 1)]
      simp [hm, checkRequired_nil]

end WsPi5.Lint

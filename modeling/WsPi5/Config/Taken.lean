/-
# `WsPi5.Config.Taken` — what the linter takes, the boot parser takes, MACs apart

The other direction of `WsPi5.Config.Values`.  An address, a hostname or a flag that passes the
linter's validator passes the parser's; a MAC does where each of its bytes is two hexadecimal
digits of ASCII (`isHexPair`).  What else `int(p, 16)` takes, the parser refuses.

    _is_valid_octet p  →  one turn of `_validate_ip` reads p       (`readOctet_taken`)
    four of them       →  `_validate_ip` reads the address          (`readOctets_taken`)
    isHexPair p        →  one turn of `_validate_mac` reads p       (`macBytes_taken`)
-/
import WsPi5.Config.Values

namespace WsPi5.ConfigParser

open Lib (utf8 latin latin_toNat)

/-- A hexadecimal digit of ASCII. -/
def isHexAscii (c : Char) : Bool :=
  ('0' ≤ c && c ≤ '9') || ('A' ≤ c && c ≤ 'F') || ('a' ≤ c && c ≤ 'f')

/-- A byte of a MAC as the parser wants it. -/
def isHexPair (p : List Char) : Bool := p.length == 2 && p.all isHexAscii

/-! ## Addresses -/

theorem le_decimal (ds : List Char) (v : Nat) :
    v ≤ ds.foldl (fun v c => v * 10 + (c.toNat - 0x30)) v := by
  induction ds generalizing v with
  | nil => exact Nat.le_refl v
  | cons d ds ih => exact Nat.le_trans (by omega) (ih (v * 10 + (d.toNat - 0x30)))

/-- What is left behind an octet: nothing, or a dot. -/
def AtDot (rest : List Byte) : Prop := rest = [] ∨ ∃ after, rest = 0x2E :: after

theorem readOctet_stop {v n : Nat} {rest : List Byte} (hn : n ≠ 0) (hrest : AtDot rest) :
    readOctet v n rest = some (v, rest) := by
  obtain rfl | ⟨after, rfl⟩ := hrest <;> simp [readOctet, hn]

theorem readOctet_digits : ∀ {ds : List Char} {v n : Nat} {rest : List Byte},
    (∀ c ∈ ds, '0' ≤ c ∧ c ≤ '9') → (n = 0 → ds ≠ []) → (n ≠ 0 → v = 0 → ds = []) →
    (n = 0 → v = 0 ∧ (ds.head? = some '0' → ds.length ≤ 1)) →
    ds.foldl (fun v c => v * 10 + (c.toNat - 0x30)) v ≤ 255 → AtDot rest →
    readOctet v n (utf8 ds ++ rest)
      = some (ds.foldl (fun v c => v * 10 + (c.toNat - 0x30)) v, rest) := by
  intro ds
  induction ds with
  | nil =>
      intro v n rest _ hne _ _ _ hrest
      exact readOctet_stop (fun hn => hne hn rfl) hrest
  | cons d ds ih =>
      intro v n rest hdigits _ hzero hlead hmax hrest
      obtain ⟨h0, h9⟩ := hdigits d List.mem_cons_self
      have hge : 0x30 ≤ d.toNat := h0
      have hle : d.toNat ≤ 0x39 := h9
      have hb : (UInt8.ofNat d.toNat).toNat = d.toNat :=
        UInt8.toNat_ofNat_of_lt' (Nat.lt_of_le_of_lt hle (by decide))
      have hdot : UInt8.ofNat d.toNat ≠ 0x2E := by
        intro h
        have := congrArg UInt8.toNat h
        rw [hb] at this
        have h2E : (0x2E : Byte).toNat = 0x2E := rfl
        omega
      have hrange : ¬(UInt8.ofNat d.toNat < 0x30 ∨ 0x39 < UInt8.ofNat d.toNat) := by
        rw [UInt8.lt_iff_toNat_lt, UInt8.lt_iff_toNat_lt, hb]
        simp
        omega
      have hfresh : ¬(n ≠ 0 ∧ v = 0) := by
        rintro ⟨hn, hv⟩
        cases hzero hn hv
      have hsmall : ¬255 < v * 10 + (d.toNat - 0x30) := by
        have := le_decimal ds (v * 10 + (d.toNat - 0x30))
        rw [List.foldl_cons] at hmax
        omega
      rw [Lib.utf8_cons, Lib.encode_ascii (by omega), List.singleton_append, List.cons_append,
        readOctet, if_neg hdot, if_neg hrange, if_neg hfresh, hb, if_neg hsmall]
      refine ih (fun c hc => hdigits c (List.mem_cons_of_mem _ hc)) (by omega) ?_ (by omega) hmax
        hrest
      intro _ hv
      -- a zero so far is the digit 0 alone
      have hn : n = 0 := by
        by_contra hn
        exact hfresh ⟨hn, by omega⟩
      have hd : d = '0' := Char.toNat_inj.mp (by
        have : '0'.toNat = 0x30 := rfl
        omega)
      have hone := (hlead hn).2 (by rw [hd]; rfl)
      rw [List.length_cons] at hone
      exact List.length_eq_zero_iff.mp (by omega)

theorem readOctet_taken {p : List Char} (h : Lint.isValidOctet p = true) {rest : List Byte}
    (hrest : AtDot rest) : readOctet 0 0 (utf8 p ++ rest) = some (Lint.decimal p, rest) := by
  simp only [Lint.isValidOctet, Bool.and_eq_true, Bool.not_eq_true', List.isEmpty_eq_false_iff,
    List.all_eq_true, decide_eq_true_eq, Bool.and_eq_false_iff, decide_eq_false_iff_not,
    beq_eq_false_iff_ne] at h
  obtain ⟨⟨⟨hne, hdigits⟩, hlead⟩, hmax⟩ := h
  refine readOctet_digits hdigits (fun _ => hne) (by omega) (fun _ => ⟨rfl, fun hhead => ?_⟩) hmax
    hrest
  rcases hlead with hlen | hhead'
  · omega
  · exact absurd hhead hhead'

theorem readOctets_taken : ∀ (ps : List (List Char)) {p : List Char},
    (∀ p' ∈ p :: ps, Lint.isValidOctet p' = true) →
    ∃ os, readOctets (ps.length + 1) (utf8 (['.'].intercalate (p :: ps))) = some os := by
  intro ps
  induction ps with
  | nil =>
      intro p h
      have hread := @readOctet_taken p (h p List.mem_cons_self) [] (.inl rfl)
      rw [List.append_nil] at hread
      exact ⟨_, by rw [List.intercalate_singleton, List.length_nil, readOctets, hread]; rfl⟩
  | cons q ps ih =>
      intro p h
      obtain ⟨os, hos⟩ := ih (p := q) fun p' hp' => h p' (List.mem_cons_of_mem _ hp')
      have hjoin : utf8 (['.'].intercalate (p :: q :: ps))
          = utf8 p ++ 0x2E :: utf8 (['.'].intercalate (q :: ps)) := by
        rw [List.intercalate_cons_cons, Lib.utf8_append, Lib.utf8_append, List.append_assoc]
        rfl
      refine ⟨UInt8.ofNat (Lint.decimal p) :: os, ?_⟩
      rw [hjoin, readOctets, readOctet_taken (h p List.mem_cons_self) (.inr ⟨_, rfl⟩)]
      dsimp only
      rw [List.length_cons, hos]
      rfl

theorem validateIp_taken {s : List Char} (h : Lint.validateIp s = true) :
    ∃ os, validateIp (utf8 s) = some os := by
  simp only [Lint.validateIp, Bool.and_eq_true, beq_iff_eq, List.all_eq_true] at h
  obtain ⟨p, ps, hparts⟩ := List.exists_cons_of_ne_nil (List.splitOn_ne_nil '.' s)
  rw [hparts, List.length_cons] at h
  obtain ⟨os, hos⟩ := readOctets_taken ps h.2
  rw [h.1, ← hparts, List.intercalate_splitOn] at hos
  exact ⟨os, hos⟩

/-! ## MACs -/

theorem hexNibble_taken {c : Char} (h : isHexAscii c = true) :
    c.toNat < 128 ∧ ∃ x, hexNibble (UInt8.ofNat c.toNat) = some x := by
  have hrange : (0x30 ≤ c.toNat ∧ c.toNat ≤ 0x39) ∨ (0x41 ≤ c.toNat ∧ c.toNat ≤ 0x46) ∨
      (0x61 ≤ c.toNat ∧ c.toNat ≤ 0x66) := by
    simp only [isHexAscii, Bool.or_eq_true, Bool.and_eq_true, decide_eq_true_eq] at h
    rcases h with (⟨h, h'⟩ | ⟨h, h'⟩) | ⟨h, h'⟩
    · exact .inl ⟨h, h'⟩
    · exact .inr (.inl ⟨h, h'⟩)
    · exact .inr (.inr ⟨h, h'⟩)
  have hb : (UInt8.ofNat c.toNat).toNat = c.toNat :=
    UInt8.toNat_ofNat_of_lt' (by rw [UInt8.size]; omega)
  refine ⟨by omega, ?_⟩
  simp only [hexNibble, UInt8.le_iff_toNat_le, hb, UInt8.reduceToNat]
  split
  · exact ⟨_, rfl⟩
  · split
    · exact ⟨_, rfl⟩
    · rw [if_pos (by omega)]
      exact ⟨_, rfl⟩

theorem macBytes_taken : ∀ (ps : List (List Char)) {p : List Char},
    (∀ p' ∈ p :: ps, isHexPair p' = true) →
    (utf8 ([':'].intercalate (p :: ps))).length = 3 * ps.length + 2 ∧
      ∃ ms, macBytes (ps.length + 1) (utf8 ([':'].intercalate (p :: ps))) = some ms := by
  have hpair : ∀ {p : List Char}, isHexPair p = true → ∃ h l : Byte, ∃ hi lo,
      utf8 p = [h, l] ∧ hexNibble h = some hi ∧ hexNibble l = some lo := by
    intro p hp
    match p, hp with
    | [a, b], hp =>
        simp only [isHexPair, List.all_cons, List.all_nil, Bool.and_eq_true] at hp
        obtain ⟨ha, hi, hhi⟩ := hexNibble_taken hp.2.1
        obtain ⟨hb, lo, hlo⟩ := hexNibble_taken hp.2.2.1
        refine ⟨_, _, hi, lo, ?_, hhi, hlo⟩
        rw [Lib.utf8_cons, Lib.utf8_cons, Lib.encode_ascii ha, Lib.encode_ascii hb]
        rfl
  intro ps
  induction ps with
  | nil =>
      intro p h
      obtain ⟨a, b, hi, lo, hbytes, hhi, hlo⟩ := hpair (h p List.mem_cons_self)
      rw [List.intercalate_singleton, hbytes]
      refine ⟨rfl, [UInt8.ofNat (16 * hi + lo)], ?_⟩
      simp only [List.length_nil, macBytes, hhi, hlo, if_true]
  | cons q ps ih =>
      intro p h
      obtain ⟨a, b, hi, lo, hbytes, hhi, hlo⟩ := hpair (h p List.mem_cons_self)
      obtain ⟨hlen, ms, hms⟩ := ih (p := q) fun p' hp' => h p' (List.mem_cons_of_mem _ hp')
      have hjoin : utf8 ([':'].intercalate (p :: q :: ps))
          = a :: b :: 0x3A :: utf8 ([':'].intercalate (q :: ps)) := by
        rw [List.intercalate_cons_cons, Lib.utf8_append, Lib.utf8_append, List.append_assoc, hbytes]
        rfl
      rw [hjoin]
      refine ⟨by simp only [List.length_cons, hlen]; omega, UInt8.ofNat (16 * hi + lo) :: ms, ?_⟩
      simp only [List.length_cons, macBytes, hhi, hlo, hms, Option.map_some]
      rw [if_neg (by omega)]

theorem validateMac_taken {s : List Char} (hnum : (s.splitOn ':').length = 6)
    (hall : ∀ p ∈ s.splitOn ':', isHexPair p = true) : ∃ ms, validateMac (utf8 s) = some ms := by
  obtain ⟨p, ps, hparts⟩ := List.exists_cons_of_ne_nil (List.splitOn_ne_nil ':' s)
  rw [hparts] at hall
  rw [hparts, List.length_cons] at hnum
  obtain ⟨hlen, ms, hms⟩ := macBytes_taken ps hall
  rw [← hparts, List.intercalate_splitOn] at hlen hms
  rw [hnum] at hms
  exact ⟨ms, by rw [validateMac, if_pos (by omega), hms]⟩

/-! ## Hostnames and flags -/

theorem isAlnum_latin (b : Byte) : Lint.ldhFirst (latin b) = isAlnum b :=
  Lib.byte_all (p := fun b => Lint.ldhFirst (latin b) = isAlnum b) (by decide +kernel) b

theorem ldhFirst_ascii {c : Char} (h : Lint.ldhFirst c = true) : c.toNat < 128 := by
  have hval : ((decide (c.val ≥ 65 ∧ c.val ≤ 90)
      || decide (c.val ≥ 97) && decide (c.val ≤ 122))
      || decide (c.val ≥ 48) && decide (c.val ≤ 57)) = true := h
  simp only [Bool.or_eq_true, Bool.and_eq_true, decide_eq_true_eq] at hval
  rcases hval with (⟨_, hle⟩ | ⟨_, hle⟩) | ⟨_, hle⟩
  · exact Nat.lt_of_le_of_lt (UInt32.le_iff_toNat_le.mp hle) (by decide)
  · exact Nat.lt_of_le_of_lt (UInt32.le_iff_toNat_le.mp hle) (by decide)
  · exact Nat.lt_of_le_of_lt (UInt32.le_iff_toNat_le.mp hle) (by decide)

theorem validateHostname_taken {s : List Char} (h : Lint.validateHostname s = true) :
    validateHostname (utf8 s) = true := by
  have hascii : ∀ c ∈ s, c.toNat < 128 := by
    intro c hc
    simp only [Lint.validateHostname, Bool.and_eq_true, List.all_eq_true] at h
    have hldh := h.2 c hc
    rw [Lint.ldh, Bool.or_eq_true, beq_iff_eq] at hldh
    rcases hldh with hfirst | rfl
    · exact ldhFirst_ascii hfirst
    · decide
  obtain ⟨bs, hbs⟩ : ∃ bs, bs = utf8 s := ⟨_, rfl⟩
  have hs : s = bs.map latin := by rw [hbs, Lib.map_latin_utf8 hascii]
  rw [← hbs]
  rw [hs] at h
  have hhyphen : ∀ b : Byte, (latin b == '-') = (b == 0x2D) := fun b =>
    Lib.byte_all (p := fun b => (latin b == '-') = (b == 0x2D)) (by decide +kernel) b
  simp only [Lint.validateHostname, List.isEmpty_map, List.length_map, List.head?_map,
    List.getLast?_map, Option.any_map, List.all_map, Function.comp_def, Lint.ldh, isAlnum_latin,
    hhyphen, Bool.and_eq_true, Bool.not_eq_true', List.isEmpty_eq_false_iff,
    decide_eq_true_eq] at h
  obtain ⟨⟨⟨⟨hne, hlen⟩, hfirst⟩, hlast⟩, hall⟩ := h
  simp only [validateHostname, Bool.and_eq_true, bne_iff_ne, ne_eq, List.length_eq_zero_iff,
    decide_eq_true_eq]
  refine ⟨⟨⟨⟨hne, hlen⟩, hfirst⟩, hlast⟩, ?_⟩
  rw [List.all_eq_true] at hall ⊢
  exact fun b hb => (Bool.or_comm _ _).trans (hall b hb)

theorem validateYesno_taken {s : List Char} (h : Lint.validateYesno s = true) :
    ∃ flag, validateYesno (utf8 s) = some flag := by
  simp only [Lint.validateYesno, Bool.or_eq_true, beq_iff_eq] at h
  obtain rfl | rfl := h
  · exact ⟨1, by decide⟩
  · exact ⟨0, by decide⟩

/-! ## All seven keys -/

/-- **A value that the linter takes**, a MAC in hexadecimal digits of ASCII, the parser takes. -/
theorem validate_taken {k : ConfKey} {s : List Char} (h : (Lint.validators k).1 s = true)
    (hmac : k = .mac → ∀ p ∈ s.splitOn ':', isHexPair p = true) :
    ∃ value, validate k (utf8 s) = .ok value := by
  cases k with
  | hostname => exact ⟨_, if_pos (validateHostname_taken h)⟩
  | mac =>
      simp only [Lint.validators, Lint.validateMac, Bool.and_eq_true, beq_iff_eq] at h
      obtain ⟨ms, hms⟩ := validateMac_taken h.1 (hmac rfl)
      exact ⟨.mac ms, by rw [validate, hms]⟩
  | dhcp =>
      obtain ⟨flag, hflag⟩ := validateYesno_taken h
      exact ⟨.yesno flag, by rw [validate, hflag]⟩
  | ip | netmask | gateway | ntpServer =>
      obtain ⟨os, hos⟩ := validateIp_taken h
      exact ⟨.ip os, by rw [validate, hos]⟩

theorem validate_code {k : ConfKey} {v : List Byte} {code : ConfErr}
    (h : validate k v = .error code) : code = (Lint.validators k).2.1 := by
  cases k with
  | hostname =>
      simp only [validate] at h
      split at h <;> cases h
      rfl
  | mac | dhcp | ip | netmask | gateway | ntpServer =>
      simp only [validate] at h
      split at h <;> cases h
      rfl

end WsPi5.ConfigParser

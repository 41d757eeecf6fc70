/-
# `WsPi5.Config.Values` — what the boot parser takes, the linter takes for the same value

    the value of a dictionary entry    the bytes that its label should hold (`loaded`)

`loaded net config` is memory `net` with the values of a dictionary in it: four octets for an
address, six for the MAC, the hostname in its buffer with its length, and 1 for `dhcp=yes`.  It
is written from what the entries mean, not from the parser.

**Proved here**: a value that a validator of the parser takes has printable characters only, the
linter's validator takes it, and the store leaves the value of the entry (`validate_ok`).
The other direction is that of `WsPi5.Config.Taken`.
-/
import WsPi5.Config.Lint

namespace WsPi5

open Lib (latin utf8 latin_toNat latin_injective utf8_latin)

/-! ## Values of entries -/

def octetsOf (s : List Char) : List Byte :=
  (s.splitOn '.').map fun p => UInt8.ofNat (Lint.decimal p)

def hexDigit (c : Char) : Nat :=
  if c ≤ '9' then c.toNat - 0x30 else if c ≤ 'F' then c.toNat - 0x37 else c.toNat - 0x57

def macOf (s : List Char) : List Byte :=
  (s.splitOn ':').map fun p => UInt8.ofNat (p.foldl (fun v c => 16 * v + hexDigit c) 0)

def loaded (net : NetLabels) (config : Lint.Config) : NetLabels where
  ourIp := (config .ip).elim net.ourIp octetsOf
  netmask := (config .netmask).elim net.netmask octetsOf
  gwIp := (config .gateway).elim net.gwIp octetsOf
  ntpIp := (config .ntpServer).elim net.ntpIp octetsOf
  ourMac := (config .mac).elim net.ourMac macOf
  hostname := (config .hostname).elim net.hostname fun s =>
    utf8 s ++ List.replicate (64 - (utf8 s).length) 0
  hostnameLen := (config .hostname).elim net.hostnameLen fun s => BitVec.ofNat 32 (utf8 s).length
  dhcp := if config .dhcp = some ['y', 'e', 's'] then 1 else 0

/-! ## Printable bytes -/

/-- Printable ASCII, without the space. -/
def Graphic (b : Byte) : Prop := 0x21 ≤ b ∧ b ≤ 0x7E

theorem Graphic.lt {b : Byte} (h : Graphic b) : b.toNat < 128 := by
  have hle : b.toNat ≤ 126 := h.2
  omega

theorem Graphic.isspace {b : Byte} (h : Graphic b) : Lint.isspace (latin b) = false := by
  have hge : 0x21 ≤ b.toNat := h.1
  have hle : b.toNat ≤ 0x7E := h.2
  simp only [Lint.isspace, latin_toNat, Bool.or_eq_false_iff, Bool.and_eq_false_iff,
    decide_eq_false_iff_not, beq_eq_false_iff_ne]
  omega

namespace ConfigParser

/-! ## Addresses -/

/-- What one turn of `_validate_ip` has read: the digits `ds`. -/
structure OctetRead (v n : Nat) (bs : List Byte) (o : Nat) (rest ds : List Byte) : Prop where
  bytes : bs = ds ++ rest
  digits : ∀ b ∈ ds, 0x30 ≤ b ∧ b ≤ 0x39
  value : ds.foldl (fun v b => v * 10 + (b.toNat - 0x30)) v = o
  nonempty : n = 0 → ds ≠ []
  alone : n ≠ 0 → v = 0 → ds = []
  noLead : v = 0 → 1 < ds.length → ds.head? ≠ some 0x30
  bound : v ≤ 255 → o ≤ 255
  stop : rest = [] ∨ ∃ after, rest = 0x2E :: after

theorem readOctet_some : ∀ {bs : List Byte} {v n o : Nat} {rest : List Byte},
    readOctet v n bs = some (o, rest) → ∃ ds, OctetRead v n bs o rest ds := by
  intro bs
  induction bs with
  | nil =>
      intro v n o rest h
      simp only [readOctet, Option.ite_none_left_eq_some, Option.some.injEq, Prod.mk.injEq] at h
      obtain ⟨hn, rfl, rfl⟩ := h
      exact ⟨[], rfl, by simp, rfl, fun h => absurd h hn, fun _ _ => rfl, by simp, id, .inl rfl⟩
  | cons b bs ih =>
      intro v n o rest h
      by_cases hdot : b = 0x2E
      · simp only [readOctet, if_pos hdot, Option.ite_none_left_eq_some, Option.some.injEq,
          Prod.mk.injEq] at h
        obtain ⟨hn, rfl, rfl⟩ := h
        exact ⟨[], rfl, by simp, rfl, fun h => absurd h hn, fun _ _ => rfl, by simp, id,
          .inr ⟨bs, by rw [hdot]⟩⟩
      · simp only [readOctet, if_neg hdot, Option.ite_none_left_eq_some] at h
        obtain ⟨hdigit, hzero, hbig, h⟩ := h
        rw [not_or, UInt8.not_lt, UInt8.not_lt] at hdigit
        obtain ⟨ds, hds⟩ := ih h
        refine ⟨b :: ds, by rw [hds.bytes, List.cons_append], ?_, hds.value, by simp, ?_, ?_, ?_,
          hds.stop⟩
        · intro b' hb'
          rcases List.mem_cons.mp hb' with rfl | hb'
          · exact hdigit
          · exact hds.digits b' hb'
        · exact fun hn hv => absurd ⟨hn, hv⟩ hzero
        · intro hv hlen hhead
          -- after a zero no digit follows
          obtain rfl : b = 0x30 := by simpa using hhead
          have hnil : ds = [] := hds.alone (Nat.succ_ne_zero n) (by simp [hv])
          simp [hnil] at hlen
        · exact fun _ => hds.bound (by omega)

theorem latin_le {b : Byte} {c : Char} : latin b ≤ c ↔ b.toNat ≤ c.toNat := by
  rw [← latin_toNat]
  exact Iff.rfl

theorem le_latin {b : Byte} {c : Char} : c ≤ latin b ↔ c.toNat ≤ b.toNat := by
  rw [← latin_toNat]
  exact Iff.rfl

theorem latin_ne {b : Byte} {c : Char} (h : b.toNat ≠ c.toNat) : latin b ≠ c := by
  rintro rfl
  exact h (latin_toNat b).symm

theorem digit_spec {b : Byte} (h : 0x30 ≤ b ∧ b ≤ 0x39) :
    Graphic b ∧ latin b ≠ '.' ∧ ('0' ≤ latin b ∧ latin b ≤ '9') := by
  have hge : 0x30 ≤ b.toNat := h.1
  have hle : b.toNat ≤ 0x39 := h.2
  refine ⟨⟨?_, ?_⟩, latin_ne ?_, le_latin.mpr hge, latin_le.mpr hle⟩
  · exact UInt8.le_trans (by decide) h.1
  · exact UInt8.le_trans h.2 (by decide)
  · have hdot : '.'.toNat = 0x2E := rfl
    omega

theorem OctetRead.valid {bs rest ds : List Byte} {o : Nat} (h : OctetRead 0 0 bs o rest ds) :
    Lint.isValidOctet (ds.map latin) = true ∧ Lint.decimal (ds.map latin) = o := by
  have hvalue : Lint.decimal (ds.map latin) = o := by
    rw [Lint.decimal, List.foldl_map, ← h.value]
    simp only [latin_toNat]
  have hdigits : ∀ c ∈ ds.map latin, '0' ≤ c ∧ c ≤ '9' := by
    intro c hc
    obtain ⟨b, hb, rfl⟩ := List.mem_map.mp hc
    exact (digit_spec (h.digits b hb)).2.2
  have hzero : 1 < ds.length → (ds.map latin).head? ≠ some '0' := by
    intro hlen hhead
    rw [List.head?_map, Option.map_eq_some_iff] at hhead
    obtain ⟨b, hb, hb0⟩ := hhead
    obtain rfl : b = 0x30 := latin_injective hb0
    exact h.noLead rfl hlen hb
  refine ⟨?_, hvalue⟩
  simp only [Lint.isValidOctet, hvalue, Bool.and_eq_true, List.all_eq_true, decide_eq_true_eq,
    Bool.not_eq_true', List.isEmpty_eq_false_iff, List.map_eq_nil_iff, ne_eq, List.length_map,
    Bool.and_eq_false_iff, decide_eq_false_iff_not, beq_eq_false_iff_ne]
  refine ⟨⟨⟨h.nonempty rfl, hdigits⟩, ?_⟩, h.bound (by decide)⟩
  by_cases hlen : 1 < ds.length
  · exact .inr (hzero hlen)
  · exact .inl hlen

theorem readOctets_some : ∀ {left : Nat} {bs os : List Byte}, readOctets left bs = some os →
    (∀ b ∈ bs, Graphic b) ∧ ((bs.map latin).splitOn '.').length = left ∧
      (∀ p ∈ (bs.map latin).splitOn '.', Lint.isValidOctet p = true) ∧
      octetsOf (bs.map latin) = os := by
  intro left
  induction left with
  | zero => intro bs os h; cases h
  | succ left ih =>
      intro bs os h
      cases hread : readOctet 0 0 bs with
      | none => simp [readOctets, hread] at h
      | some r =>
          obtain ⟨o, rest⟩ := r
          obtain ⟨ds, hds⟩ := readOctet_some hread
          obtain ⟨hvalid, hvalue⟩ := hds.valid
          have hgraphic : ∀ b ∈ ds, Graphic b := fun b hb => (digit_spec (hds.digits b hb)).1
          have hdot : '.' ∉ ds.map latin := by
            intro hmem
            obtain ⟨b, hb, heq⟩ := List.mem_map.mp hmem
            exact (digit_spec (hds.digits b hb)).2.1 heq
          obtain rfl | ⟨after, rfl⟩ := hds.stop
          · -- the last octet
            simp only [readOctets, hread, Option.ite_none_right_eq_some, Option.some.injEq] at h
            obtain ⟨rfl, rfl⟩ := h
            have hbytes : bs = ds := by simpa using hds.bytes
            subst hbytes
            refine ⟨hgraphic, ?_⟩
            rw [octetsOf, List.splitOn_eq_singleton hdot]
            simp [hvalid, hvalue]
          · simp only [readOctets, hread, Option.map_eq_some_iff] at h
            obtain ⟨os', hrest, rfl⟩ := h
            obtain ⟨hgr, hlen, hall, hoct⟩ := ih hrest
            have hsplit : (bs.map latin).splitOn '.'
                = ds.map latin :: (after.map latin).splitOn '.' := by
              rw [hds.bytes, List.map_append, List.map_cons]
              exact List.splitOn_append_cons_self_of_not_mem hdot _
            refine ⟨?_, ?_, ?_, ?_⟩
            · intro b hb
              rw [hds.bytes, List.mem_append, List.mem_cons] at hb
              rcases hb with hb | rfl | hb
              · exact hgraphic b hb
              · exact ⟨by decide, by decide⟩
              · exact hgr b hb
            · rw [hsplit, List.length_cons, hlen]
            · intro p hp
              rw [hsplit] at hp
              rcases List.mem_cons.mp hp with rfl | hp
              · exact hvalid
              · exact hall p hp
            · rw [octetsOf, hsplit, List.map_cons, hvalue, ← hoct]
              rfl

theorem validateIp_some {v os : List Byte} (h : validateIp v = some os) :
    (∀ b ∈ v, Graphic b) ∧ Lint.validateIp (v.map latin) = true ∧ octetsOf (v.map latin) = os := by
  obtain ⟨hgraphic, hlen, hall, hoct⟩ := readOctets_some h
  refine ⟨hgraphic, ?_, hoct⟩
  simp only [Lint.validateIp, hlen, beq_self_eq_true, Bool.true_and, List.all_eq_true]
  exact hall

/-! ## MACs -/

theorem hexNibble_some {b : Byte} {x : Nat} (h : hexNibble b = some x) :
    (0x30 ≤ b.toNat ∧ b.toNat ≤ 0x39 ∧ x = b.toNat - 0x30) ∨
      (0x41 ≤ b.toNat ∧ b.toNat ≤ 0x46 ∧ x = b.toNat - 0x37) ∨
      (0x61 ≤ b.toNat ∧ b.toNat ≤ 0x66 ∧ x = b.toNat - 0x57) := by
  unfold hexNibble at h
  split at h
  next hd => exact .inl ⟨hd.1, hd.2, (Option.some.inj h).symm⟩
  next =>
    split at h
    next hd => exact .inr (.inl ⟨hd.1, hd.2, (Option.some.inj h).symm⟩)
    next =>
      split at h
      next hd => exact .inr (.inr ⟨hd.1, hd.2, (Option.some.inj h).symm⟩)
      next => cases h

theorem hexNibble_spec {b : Byte} {x : Nat} (h : hexNibble b = some x) :
    Graphic b ∧ latin b ≠ ':' ∧ Lint.isHexDigit (latin b) = true ∧ hexDigit (latin b) = x := by
  have h9 : '9'.toNat = 0x39 := rfl
  have hF : 'F'.toNat = 0x46 := rfl
  have hcolon : ':'.toNat = 0x3A := rfl
  have hrange := hexNibble_some h
  refine ⟨⟨?_, ?_⟩, latin_ne (by omega), ?_, ?_⟩
  · exact UInt8.le_iff_toNat_le.mpr (by simp; omega)
  · exact UInt8.le_iff_toNat_le.mpr (by simp; omega)
  · simp only [Lint.isHexDigit, Bool.or_eq_true, List.any_eq_true, Bool.and_eq_true,
      decide_eq_true_eq, latin_toNat, latin_le, le_latin]
    rcases hrange with hr | hr | hr
    · exact .inl (.inl ⟨0x30, List.mem_cons_self, by omega⟩)
    · exact .inl (.inr ⟨hr.1, hr.2.1⟩)
    · exact .inr ⟨hr.1, hr.2.1⟩
  · simp only [hexDigit, latin_le, latin_toNat]
    split
    next => omega
    next =>
      split
      next => omega
      next => omega

theorem nibbles_valid {h l : Byte} {hi lo : Nat} (hh : hexNibble h = some hi)
    (hl : hexNibble l = some lo) :
    Lint.isValidMacByte [latin h, latin l] = true ∧
      [latin h, latin l].foldl (fun v c => 16 * v + hexDigit c) 0 = 16 * hi + lo := by
  obtain ⟨_, _, hhex, hhv⟩ := hexNibble_spec hh
  obtain ⟨_, _, hlex, hlv⟩ := hexNibble_spec hl
  simp [Lint.isValidMacByte, hhex, hlex, hhv, hlv]

theorem macBytes_some : ∀ {left : Nat} {v ms : List Byte}, macBytes (left + 1) v = some ms →
    v.length = 3 * left + 2 →
    (∀ b ∈ v, Graphic b) ∧ ((v.map latin).splitOn ':').length = left + 1 ∧
      (∀ p ∈ (v.map latin).splitOn ':', Lint.isValidMacByte p = true) ∧
      macOf (v.map latin) = ms := by
  intro left
  induction left with
  | zero =>
      intro v ms h hlen
      match v, hlen with
      | [h', l'], _ =>
          cases hh : hexNibble h' with
          | none => simp [macBytes, hh] at h
          | some hi =>
              cases hl : hexNibble l' with
              | none => simp [macBytes, hh, hl] at h
              | some lo =>
                  obtain rfl : [UInt8.ofNat (16 * hi + lo)] = ms := by
                    simpa [macBytes, hh, hl] using h
                  obtain ⟨hvalid, hvalue⟩ := nibbles_valid hh hl
                  obtain ⟨hgh, hch, _⟩ := hexNibble_spec hh
                  obtain ⟨hgl, hcl, _⟩ := hexNibble_spec hl
                  have hcolon : ':' ∉ [latin h', latin l'] := by
                    simp [hch.symm, hcl.symm]
                  refine ⟨by simp [hgh, hgl], ?_⟩
                  rw [macOf, List.map_cons, List.map_cons, List.map_nil,
                    List.splitOn_eq_singleton hcolon, List.map_singleton, hvalue]
                  simp [hvalid]
  | succ left ih =>
      intro v ms h hlen
      match v, hlen with
      | h' :: l' :: c :: bs, hlen =>
          have hlen' : bs.length = 3 * left + 2 := by
            simp only [List.length_cons] at hlen
            omega
          cases hh : hexNibble h' with
          | none => simp [macBytes, hh] at h
          | some hi =>
              cases hl : hexNibble l' with
              | none => simp [macBytes, hh, hl] at h
              | some lo =>
                  by_cases hc : c = 0x3A
                  · subst hc
                    simp only [macBytes, hh, hl, Nat.succ_ne_zero, if_false,
                      Option.map_eq_some_iff] at h
                    obtain ⟨ms', hrest, rfl⟩ := h
                    obtain ⟨hgr, hnum, hall, hmac⟩ := ih hrest hlen'
                    obtain ⟨hvalid, hvalue⟩ := nibbles_valid hh hl
                    obtain ⟨hgh, hch, _⟩ := hexNibble_spec hh
                    obtain ⟨hgl, hcl, _⟩ := hexNibble_spec hl
                    have hcolon : ':' ∉ [latin h', latin l'] := by
                      simp [hch.symm, hcl.symm]
                    have hsplit : ((h' :: l' :: 0x3A :: bs).map latin).splitOn ':'
                        = [latin h', latin l'] :: (bs.map latin).splitOn ':' :=
                      List.splitOn_append_cons_self_of_not_mem hcolon _
                    refine ⟨?_, ?_, ?_, ?_⟩
                    · have hg : Graphic 0x3A := ⟨by decide, by decide⟩
                      simpa [hgh, hgl, hg] using hgr
                    · rw [hsplit, List.length_cons, hnum]
                    · intro p hp
                      rw [hsplit] at hp
                      rcases List.mem_cons.mp hp with rfl | hp
                      · exact hvalid
                      · exact hall p hp
                    · rw [macOf, hsplit, List.map_cons, hvalue, ← hmac]
                      rfl
                  · simp only [macBytes, hh, hl, Nat.succ_ne_zero, if_false] at h
                    split at h
                    next heq => exact absurd (List.cons.inj heq).1 hc
                    next => cases h

theorem validateMac_some {v ms : List Byte} (h : validateMac v = some ms) :
    (∀ b ∈ v, Graphic b) ∧ Lint.validateMac (v.map latin) = true ∧ macOf (v.map latin) = ms := by
  simp only [validateMac, Option.ite_none_right_eq_some] at h
  obtain ⟨hlen, h⟩ := h
  obtain ⟨hgraphic, hnum, hall, hmac⟩ := macBytes_some h hlen
  refine ⟨hgraphic, ?_, hmac⟩
  simp only [Lint.validateMac, hnum, beq_self_eq_true, Bool.true_and, List.all_eq_true]
  exact hall

/-! ## Hostnames and flags -/

theorem isAlnum_spec {b : Byte} (h : isAlnum b = true) :
    Graphic b ∧ Lint.ldhFirst (latin b) = true := by
  simp only [isAlnum, Bool.or_eq_true, Bool.and_eq_true, decide_eq_true_eq,
    UInt8.le_iff_toNat_le, UInt8.reduceToNat] at h
  refine ⟨⟨?_, ?_⟩, ?_⟩
  · exact UInt8.le_iff_toNat_le.mpr (by simp; omega)
  · exact UInt8.le_iff_toNat_le.mpr (by simp; omega)
  · show ((decide ((latin b).val ≥ 65 ∧ (latin b).val ≤ 90)
      || decide ((latin b).val ≥ 97) && decide ((latin b).val ≤ 122))
      || decide ((latin b).val ≥ 48) && decide ((latin b).val ≤ 57)) = true
    have hval : (latin b).val.toNat = b.toNat := latin_toNat b
    simp only [ge_iff_le, Bool.or_eq_true, Bool.and_eq_true, decide_eq_true_eq,
      UInt32.le_iff_toNat_le, UInt32.reduceToNat, hval]
    omega

theorem validateHostname_spec {v : List Byte} (h : validateHostname v = true) :
    (∀ b ∈ v, Graphic b) ∧ Lint.validateHostname (v.map latin) = true := by
  simp only [validateHostname, Bool.and_eq_true, bne_iff_ne, ne_eq, decide_eq_true_eq,
    List.all_eq_true, Bool.or_eq_true, beq_iff_eq, Option.any_eq_true] at h
  obtain ⟨⟨⟨⟨hne, hlen⟩, first, hfirst, hf⟩, last, hlast, hl⟩, hall⟩ := h
  have hldh : ∀ b ∈ v, Graphic b ∧ Lint.ldh (latin b) = true := by
    intro b hb
    rcases hall b hb with rfl | halnum
    · exact ⟨⟨by decide, by decide⟩, by decide⟩
    · obtain ⟨hg, hfirst'⟩ := isAlnum_spec halnum
      exact ⟨hg, by simp [Lint.ldh, hfirst']⟩
  refine ⟨fun b hb => (hldh b hb).1, ?_⟩
  simp only [Lint.validateHostname, Bool.and_eq_true, Bool.not_eq_true', List.isEmpty_eq_false_iff,
    ne_eq, List.map_eq_nil_iff, List.length_map, decide_eq_true_eq, List.head?_map,
    List.getLast?_map, Option.any_map, Option.any_eq_true, List.all_eq_true, List.mem_map]
  refine ⟨⟨⟨⟨?_, hlen⟩, first, hfirst, (isAlnum_spec hf).2⟩, last, hlast, (isAlnum_spec hl).2⟩, ?_⟩
  · rintro rfl
    exact hne rfl
  · rintro c ⟨b, hb, rfl⟩
    exact (hldh b hb).2

theorem validateYesno_some {v : List Byte} {flag : W} (h : validateYesno v = some flag) :
    (∀ b ∈ v, Graphic b) ∧ Lint.validateYesno (v.map latin) = true ∧
      flag = if v.map latin = ['y', 'e', 's'] then 1 else 0 := by
  have hgraphic : ∀ b ∈ utf8 ['n', 'o'] ++ utf8 ['y', 'e', 's'], 0x21 ≤ b ∧ b ≤ 0x7E :=
    Lib.list_all (by decide)
  unfold validateYesno at h
  split at h
  next hno =>
    subst hno
    cases h
    exact ⟨fun b hb => hgraphic b (List.mem_append_left _ hb), by decide, by decide⟩
  next =>
    split at h
    next hyes =>
      subst hyes
      cases h
      exact ⟨fun b hb => hgraphic b (List.mem_append_right _ hb), by decide, by decide⟩
    next => cases h

/-! ## All seven keys -/

/-- **A value that the parser takes** is printable, the linter takes it, and the label holds what
the new entry of the dictionary means. -/
theorem validate_ok {k : ConfKey} {v : List Byte} {value : Value} (h : validate k v = .ok value) :
    (∀ b ∈ v, Graphic b) ∧ (∀ i, Lint.validateValue i k (v.map latin) = none) ∧
      ∀ (net : NetLabels) (config : Lint.Config), store k value (loaded net config)
        = loaded net (Function.update config k (some (v.map latin))) := by
  cases k with
  | hostname =>
      simp only [validate] at h
      split at h
      next hname =>
        cases h
        obtain ⟨hg, hok⟩ := validateHostname_spec hname
        refine ⟨hg, fun i => ?_, fun net config => ?_⟩
        · simp [Lint.validateValue, Lint.validators, hok]
        · have hbytes : utf8 (v.map latin) = v := utf8_latin fun b hb => (hg b hb).lt
          simp [store, storeHostname, loaded, Function.update, hbytes]
      next => cases h
  | mac =>
      simp only [validate] at h
      split at h
      next bytes hmac =>
        cases h
        obtain ⟨hg, hok, hval⟩ := validateMac_some hmac
        refine ⟨hg, fun i => ?_, fun net config => ?_⟩
        · simp [Lint.validateValue, Lint.validators, hok]
        · simp [store, loaded, Function.update, hval]
      next => cases h
  | dhcp =>
      simp only [validate] at h
      split at h
      next flag hflag =>
        cases h
        obtain ⟨hg, hok, hval⟩ := validateYesno_some hflag
        refine ⟨hg, fun i => ?_, fun net config => ?_⟩
        · simp [Lint.validateValue, Lint.validators, hok]
        · simp [store, loaded, Function.update, hval]
      next => cases h
  | ip | netmask | gateway | ntpServer =>
      simp only [validate] at h
      split at h
      next octets hip =>
        cases h
        obtain ⟨hg, hok, hval⟩ := validateIp_some hip
        refine ⟨hg, fun i => ?_, fun net config => ?_⟩
        · simp [Lint.validateValue, Lint.validators, hok]
        · simp [store, storeIp, loaded, Function.update, hval]
      next => cases h

end ConfigParser

end WsPi5

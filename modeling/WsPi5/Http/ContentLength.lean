/-
# `WsPi5.Http.ContentLength` — which values of Content-Length are read for what they are

A value is a decimal number with spaces and tabs around it.  `.Lhdr_cl_match` is to "skip leading
OWS, accumulate digits", and stops at the first byte that is no digit:

    the value        is stored as
    "5", "  5 "      5
    "1025", "99…"    a number above 1024, which is refused later
    tab, "5"         0: only spaces are skipped
    "5 6", "5abc"    5
    "", "-5"         0

A second field of the name is an error, for the sake of RFC 7230 §3.3.3; a value that is no number
is none, and the request is accepted with what was accumulated.

**Proved here** (`content_length_law_iff`), for every request whose head is buffered as a whole: the
stored value depends on the value of the field alone (`clValue`), and it is what the law asks for
exactly where the value is a number with nothing but spaces in front, or a number that is 0.
-/
import WsPi5.Http.HeadRun

namespace WsPi5

open Lib

/-! ## The law -/

def IsOws (b : Byte) : Prop := b = 0x20 ∨ b = 0x09

instance (b : Byte) : Decidable (IsOws b) := inferInstanceAs (Decidable (_ ∨ _))

/-- The number that the digits spell, behind a number. -/
def decimalFrom (n : Nat) (ds : List Byte) : Nat :=
  ds.foldl (fun n b => n * 10 + (b - 0x30).toNat) n

def decimal (ds : List Byte) : Nat := decimalFrom 0 ds

/-- A value: white space, digits, white space. -/
structure LengthForm (v ws ds ws' : List Byte) : Prop where
  eq : v = ws ++ (ds ++ ws')
  lead : ∀ b ∈ ws, IsOws b
  some : ds ≠ []
  digits : ∀ b ∈ ds, IsDecDigit b
  trail : ∀ b ∈ ws', IsOws b

/-- What may be stored for a value in an accepted request: the number, or any number above the limit
for a number above the limit; and nothing for another value. -/
def ContentLengthLaw (v : List Byte) (stored : Nat) : Prop :=
  ∃ ws ds ws', LengthForm v ws ds ws' ∧ (decimal ds ≤ httpMaxRecvBody → stored = decimal ds) ∧
    (httpMaxRecvBody < decimal ds → httpMaxRecvBody < stored)

/-- A number with nothing but spaces in front, or the number 0. -/
def LengthReadable (v : List Byte) : Prop :=
  ∃ ws ds ws', LengthForm v ws ds ws' ∧ ((∀ b ∈ ws, b = 0x20) ∨ decimal ds = 0)

/-! ## The parser on a value -/

theorem ows_not_digit {b : Byte} (h : IsOws b) : ¬ IsDecDigit b := by
  rcases h with rfl | rfl <;> decide

theorem decimalFrom_ge (ds : List Byte) : ∀ n, n ≤ decimalFrom n ds := by
  induction ds with
  | nil => exact fun n => Nat.le_refl n
  | cons b ds ih =>
      intro n
      calc n ≤ n * 10 + (b - 0x30).toNat := by omega
        _ ≤ decimalFrom (n * 10 + (b - 0x30).toNat) ds := ih _

theorem capDigits_digits {ws' : List Byte} (hws' : ∀ b ∈ ws', IsOws b) :
    ∀ {ds : List Byte} {n : Nat}, (∀ b ∈ ds, IsDecDigit b) → n ≤ httpMaxRecvBody →
    (decimalFrom n ds ≤ httpMaxRecvBody → capDigits (ds ++ ws') n = decimalFrom n ds) ∧
      (httpMaxRecvBody < decimalFrom n ds → httpMaxRecvBody < capDigits (ds ++ ws') n) := by
  intro ds
  induction ds with
  | nil =>
      intro n _ hn
      have hstop : capDigits ws' n = n := by
        cases ws' with
        | nil => rfl
        | cons b ws' => exact if_neg (ows_not_digit (hws' b (List.mem_cons_self ..)))
      exact ⟨fun _ => hstop, fun hlt => absurd hn (Nat.not_le.mpr hlt)⟩
  | cons b ds ih =>
      intro n hds hn
      have hdigit : capDigits (b :: ds ++ ws') n =
          if httpMaxRecvBody < n * 10 + (b - 0x30).toNat then n * 10 + (b - 0x30).toNat
          else capDigits (ds ++ ws') (n * 10 + (b - 0x30).toNat) :=
        if_pos (hds b (List.mem_cons_self ..))
      have hfold : decimalFrom n (b :: ds) = decimalFrom (n * 10 + (b - 0x30).toNat) ds := rfl
      rw [hdigit, hfold]
      by_cases hbig : httpMaxRecvBody < n * 10 + (b - 0x30).toNat
      · rw [if_pos hbig]
        have hge := decimalFrom_ge ds (n * 10 + (b - 0x30).toNat)
        exact ⟨fun hle => absurd hle (by omega), fun _ => hbig⟩
      · rw [if_neg hbig]
        exact ih (fun x hx => hds x (List.mem_cons_of_mem _ hx)) (Nat.not_lt.mp hbig)

theorem clValue_spaces {ws ds ws' : List Byte} (hws : ∀ b ∈ ws, b = 0x20) (hne : ds ≠ [])
    (hds : ∀ b ∈ ds, IsDecDigit b) : clValue (ws ++ (ds ++ ws')) = capDigits (ds ++ ws') 0 := by
  obtain ⟨d, ds, rfl⟩ := List.exists_cons_of_ne_nil hne
  have hd : d ≠ 0x20 := by
    rintro rfl
    exact absurd (hds 0x20 (List.mem_cons_self ..)) (by decide)
  rw [clValue, List.dropWhile_append_of_pos fun b hb => decide_eq_true (hws b hb), List.cons_append,
    List.dropWhile_cons_of_neg (by simpa using hd)]

theorem clValue_tab {rest : List Byte} : ∀ {ws : List Byte}, (∀ b ∈ ws, IsOws b) →
    ¬ (∀ b ∈ ws, b = 0x20) → clValue (ws ++ rest) = 0 := by
  intro ws
  induction ws with
  | nil => intro _ h; exact absurd (fun _ hb => nomatch hb) h
  | cons b ws ih =>
      intro hows hsp
      rcases hows b (List.mem_cons_self ..) with rfl | rfl
      · have hrest : clValue (ws ++ rest) = 0 := by
          refine ih (fun x hx => hows x (List.mem_cons_of_mem _ hx)) fun hall => hsp fun x hx => ?_
          rcases List.mem_cons.mp hx with rfl | hx
          · rfl
          · exact hall x hx
        exact hrest
      · rfl

/-- **The law on a value.** -/
theorem lengthLaw_iff (v : List Byte) : ContentLengthLaw v (clValue v) ↔ LengthReadable v := by
  constructor
  · rintro ⟨ws, ds, ws', hform, hsmall, hbig⟩
    refine ⟨ws, ds, ws', hform, ?_⟩
    by_cases hsp : ∀ b ∈ ws, b = 0x20
    · exact .inl hsp
    · have hzero : clValue v = 0 := by
        rw [hform.eq]
        exact clValue_tab hform.lead hsp
      rw [hzero] at hsmall hbig
      right
      by_cases hle : decimal ds ≤ httpMaxRecvBody
      · exact (hsmall hle).symm
      · exact absurd (hbig (Nat.not_le.mp hle)) (Nat.not_lt_zero _)
  · rintro ⟨ws, ds, ws', hform, hlead⟩
    refine ⟨ws, ds, ws', hform, ?_⟩
    by_cases hsp : ∀ b ∈ ws, b = 0x20
    · rw [hform.eq, clValue_spaces hsp hform.some hform.digits]
      exact capDigits_digits hform.trail hform.digits (Nat.zero_le _)
    · have hzero : clValue v = 0 := by
        rw [hform.eq]
        exact clValue_tab hform.lead hsp
      have hdec := hlead.resolve_left hsp
      rw [hzero, hdec]
      exact ⟨fun _ => rfl, fun h => absurd h (Nat.not_lt_zero _)⟩

/-- **Content-Length**, in one call on a buffer that begins with a head: what is stored for the
field is read off its value, and meets the law exactly for the values that are readable. -/
theorem content_length_law_iff {buf : Nat → Byte} {len : Nat} {p : Parser} {h : RequestHead}
    {f : List Byte × List Byte} (hp : Fresh p) (hv : h.Valid) (hb : BufHolds buf 0 h.bytes)
    (hlen : h.bytes.length ≤ len) (hf : f ∈ h.fields) (hcl : isName contentLengthName f.1 = true) :
    (httpParseRequest buf len p).state = .done ∧ (httpParseRequest buf len p).clSeen = true ∧
    (httpParseRequest buf len p).contentLen = clValue f.2 ∧
    (ContentLengthLaw f.2 (httpParseRequest buf len p).contentLen ↔ LengthReadable f.2) := by
  obtain ⟨q, hq, hparsed⟩ := head_parsed hv hp hb hlen
  have hcall : httpParseRequest buf len p = q := parse_of_after hp hlen hq hparsed.terminal
  have hlength := hparsed.length f hf hcl
  rw [hcall, hlength]
  refine ⟨hparsed.state, ?_, rfl, lengthLaw_iff f.2⟩
  rw [hparsed.seen]
  exact List.any_eq_true.mpr ⟨f, hf, hcl⟩

/-! ## Requests -/

/-- A POST with this Content-Length. -/
def lengthRequest (v : List Byte) : RequestHead where
  method := ascii "POST"
  uri := ascii "/"
  version := ascii "HTTP"
  major := 0x31
  minor := 0x31
  fields := [(ascii "Content-Length", v)]

theorem lengthRequest_valid {v : List Byte} (hv : ∀ b ∈ v, InValue b) :
    (lengthRequest v).Valid where
  method := (list_all (by decide +kernel) : ∀ b ∈ ascii "POST", IsLetter b)
  uri := ⟨List.cons_ne_nil _ _, (list_all (by decide +kernel) : ∀ b ∈ ascii "/", InUri b)⟩
  version := ⟨rfl, (list_all (by decide +kernel) : ∀ b ∈ ascii "HTTP", IsLetter b)⟩
  major := (by decide : IsDecDigit 0x31)
  minor := (by decide : IsDecDigit 0x31)
  fields := by
    intro f hf
    rw [List.mem_singleton.mp hf]
    have hname : ∀ b ∈ ascii "Content-Length", InName b := list_all (by decide +kernel)
    exact ⟨⟨0x43, _, rfl, by decide⟩, hname, hv⟩
  once := Nat.le_refl 1

theorem content_length_law_demo :
    (httpParseRequest (bytesOf (lengthRequest (ascii " 5\t")).bytes) 64 {}).contentLen = 5 ∧
    ContentLengthLaw (ascii " 5\t") 5 := by
  obtain ⟨-, -, hstored, hlaw⟩ :=
    @content_length_law_iff _ 64 {} _ (ascii "Content-Length", ascii " 5\t")
      ⟨rfl, rfl, rfl, rfl⟩ (lengthRequest_valid (list_all (by decide +kernel)))
      (bytesOf_holds (lengthRequest (ascii " 5\t")).bytes) (by decide +kernel)
      (List.mem_singleton.mpr rfl) (by decide +kernel)
  have hfive : clValue (ascii " 5\t") = 5 := by decide +kernel
  rw [hstored, hfive] at hlaw
  have hspace : ∀ b ∈ [(0x20 : Byte)], b = 0x20 := list_all (by decide +kernel)
  refine ⟨hstored.trans hfive, hlaw.mpr ⟨[0x20], [0x35], [0x09], ?_, .inl hspace⟩⟩
  exact ⟨by decide +kernel, list_all (by decide +kernel), by decide, list_all (by decide +kernel),
    list_all (by decide +kernel)⟩

theorem LengthForm.filter {v ws ds ws' : List Byte} (h : LengthForm v ws ds ws') :
    v.filter (fun b => decide (IsDecDigit b)) = ds := by
  have hows : ∀ xs : List Byte, (∀ b ∈ xs, IsOws b) →
      xs.filter (fun b => decide (IsDecDigit b)) = [] := fun xs hxs =>
    List.filter_eq_nil_iff.mpr fun b hb => by simpa using ows_not_digit (hxs b hb)
  have hds : ds.filter (fun b => decide (IsDecDigit b)) = ds :=
    List.filter_eq_self.mpr fun b hb => decide_eq_true (h.digits b hb)
  rw [h.eq, List.filter_append, List.filter_append, hows ws h.lead, hows ws' h.trail, hds,
    List.nil_append, List.append_nil]

theorem LengthForm.byte {v ws ds ws' : List Byte} (h : LengthForm v ws ds ws') :
    ∀ b ∈ v, IsOws b ∨ IsDecDigit b := by
  intro b hb
  rw [h.eq] at hb
  rcases List.mem_append.mp hb with hb | hb
  · exact .inl (h.lead b hb)
  rcases List.mem_append.mp hb with hb | hb
  · exact .inr (h.digits b hb)
  · exact .inl (h.trail b hb)

/-- A tab in front of `5` makes it 0, and `5abc` is accepted as 5. -/
theorem content_length_slips :
    (let p := httpParseRequest (bytesOf (lengthRequest (ascii "\t5")).bytes) 64 {}
     p.state = .done ∧ p.clSeen = true ∧ p.contentLen = 0 ∧
       LengthForm (ascii "\t5") [0x09] [0x35] [] ∧ ¬ ContentLengthLaw (ascii "\t5") p.contentLen) ∧
    (let p := httpParseRequest (bytesOf (lengthRequest (ascii "5abc")).bytes) 64 {}
     p.state = .done ∧ p.clSeen = true ∧ p.contentLen = 5 ∧
       ¬ ContentLengthLaw (ascii "5abc") p.contentLen) := by
  refine ⟨⟨by decide +kernel, by decide +kernel, by decide +kernel, ?_, ?_⟩,
    ⟨by decide +kernel, by decide +kernel, by decide +kernel, ?_⟩⟩
  · exact ⟨by decide +kernel, list_all (by decide +kernel), by decide, list_all (by decide +kernel),
      fun _ hb => nomatch hb⟩
  · rintro ⟨ws, ds, ws', hform, hsmall, -⟩
    have hds : ds = [0x35] := hform.filter.symm.trans (by decide +kernel)
    rw [hds] at hsmall
    exact absurd (hsmall (by decide)) (by decide +kernel)
  · rintro ⟨ws, ds, ws', hform, -, -⟩
    have hletter := hform.byte 0x61 (by decide +kernel)
    exact absurd hletter (by decide)

end WsPi5

/-
# `WsPi5.Http.Date` — the date of `lib/http_date.S`

`http_format_date` splits the seconds since 1970 by division, and then finds the year by taking
off the lengths of the years from 1970 on, and the month by taking off those of the months.

    day of the week   (days + 4) mod 7, by division
    year              .Ldate_year_loop, a year a turn
    month             .Ldate_month_loop, from a table that has February with 28 days

The tables are read through memory that has their bytes and no others, so that a name or a length
beyond the end of its table has no result; nor has a loop that goes on for longer than there are
days.

**Proved here** (`http_date_correct`), for every second up to the end of the year 9999: the 29 bytes
are the text of the instant that is so many seconds after the beginning of 1970, by the calendar of
`Lib.Calendar`.  From the year loop: each turn keeps the day's number, and it ends in the year in
which the number lies.
-/
import Mathlib.Tactic.IntervalCases
import WsPi5.Lib.Calendar
import WsPi5.Lib.Region
import WsPi5.Tcp.Types

namespace WsPi5

open Lib

/-! ## Tables -/

def httpDowNames : List Byte := ascii "Sun\x00Mon\x00Tue\x00Wed\x00Thu\x00Fri\x00Sat\x00"

def httpMonthNames : List Byte :=
  ascii "Jan\x00Feb\x00Mar\x00Apr\x00May\x00Jun\x00Jul\x00Aug\x00Sep\x00Oct\x00Nov\x00Dec\x00"

def httpMonthDays : List Nat := [31, 28, 31, 30, 31, 30, 31, 31, 30, 31, 30, 31]

/-- Three bytes of entry `i`; an entry has four. -/
def nameEntry (table : List Byte) (i : Nat) : Option (List Byte) :=
  loadCells (region 0 table) 3 (4 * i)

/-! ## The formatter -/

/-- `http_is_leap_year`, w0. -/
def httpIsLeapYear (w5 : Nat) : Nat :=
  if w5 &&& 3 ≠ 0 then 0
  else if w5 - w5 / 100 * 100 ≠ 0 then 1
  else if w5 - w5 / 400 * 400 = 0 then 1
  else 0

/-- `.Ldate_year_loop`, at most `n` turns: the year, the day in it, and whether it is a leap year. -/
def dateYearLoop : Nat → Nat → Nat → Option (Nat × Nat × Nat)
  | 0, _, _ => none
  | n + 1, w5, w6 =>
      let w0 := httpIsLeapYear w5
      let w1 := w0 + 365
      if w6 < w1 then some (w5, w6, w0) else dateYearLoop n (w5 + 1) (w6 - w1)

/-- `.Ldate_month_loop`, at most `n` turns: the month and the day in it, both from 0. -/
def dateMonthLoop (w7 : Nat) : Nat → Nat → Nat → Option (Nat × Nat)
  | 0, _, _ => none
  | n + 1, w3, w6 =>
      httpMonthDays[w3]?.bind fun days =>
        let w4 := if w3 = 1 then days + w7 else days
        if w6 < w4 then some (w3, w6) else dateMonthLoop w7 n (w3 + 1) (w6 - w4)

def httpWrite2digits (w0 : Nat) : List Byte :=
  let w3 := w0 / 10
  [UInt8.ofNat (w3 + 0x30), UInt8.ofNat (w0 - w3 * 10 + 0x30)]

def httpWrite4digits (w0 : Nat) : List Byte :=
  let r₁ := w0 - w0 / 1000 * 1000
  let r₂ := r₁ - r₁ / 100 * 100
  let r₃ := r₂ - r₂ / 10 * 10
  [UInt8.ofNat (w0 / 1000 + 0x30), UInt8.ofNat (r₁ / 100 + 0x30), UInt8.ofNat (r₂ / 10 + 0x30),
    UInt8.ofNat (r₃ + 0x30)]

/-- `http_format_date`: the bytes written from the start of the output buffer on. -/
def httpFormatDate (x0 : Nat) : Option (List Byte) :=
  let x2 := x0 / 86400
  let x3 := x0 - x2 * 86400
  let w21 := x2 % 2 ^ 32
  let w22 := x3 / 3600
  let w3 := x3 - w22 * 3600
  let w23 := w3 / 60
  let w24 := w3 - w23 * 60
  let w0 := (w21 + 4) % 2 ^ 32
  (nameEntry httpDowNames (w0 - w0 / 7 * 7)).bind fun dow =>
    (dateYearLoop (w21 + 1) 1970 w21).bind fun (w5, w6, w7) =>
      (dateMonthLoop w7 12 0 w6).bind fun (w3, w6) =>
        (nameEntry httpMonthNames w3).map fun month =>
          dow ++ ascii ", " ++ httpWrite2digits (w6 + 1) ++ ascii " " ++ month ++ ascii " " ++
          httpWrite4digits w5 ++ ascii " " ++
          httpWrite2digits w22 ++ ascii ":" ++ httpWrite2digits w23 ++ ascii ":" ++
          httpWrite2digits w24 ++ ascii " GMT"

/-! ## Names and digits -/

theorem dowEntry {i : Nat} (h : i < 7) : nameEntry httpDowNames i = some (nameOf dayNames i) := by
  have hall : ∀ i < 7, nameEntry httpDowNames i = some (nameOf dayNames i) := by decide +kernel
  exact hall i h

theorem monthEntry {i : Nat} (h : i < 12) :
    nameEntry httpMonthNames i = some (nameOf monthNames i) := by
  have hall : ∀ i < 12, nameEntry httpMonthNames i = some (nameOf monthNames i) := by
    decide +kernel
  exact hall i h

theorem httpWrite2digits_eq {n : Nat} (h : n < 100) : httpWrite2digits n = padded 2 n := by
  have htens : n / 10 % 10 = n / 10 := by omega
  have hones : n - n / 10 * 10 = n % 10 := by omega
  simp only [httpWrite2digits, padded, List.nil_append, List.cons_append, htens, hones,
    Nat.add_comm 0x30]

theorem httpWrite4digits_eq {n : Nat} (h : n < 10000) : httpWrite4digits n = padded 4 n := by
  have h₁ : n / 10 / 10 / 10 % 10 = n / 1000 := by omega
  have h₂ : n / 10 / 10 % 10 = (n - n / 1000 * 1000) / 100 := by omega
  have h₃ : n / 10 % 10 = (n - n / 1000 * 1000 - (n - n / 1000 * 1000) / 100 * 100) / 10 := by
    omega
  have h₄ : n % 10 = n - n / 1000 * 1000 - (n - n / 1000 * 1000) / 100 * 100 -
      (n - n / 1000 * 1000 - (n - n / 1000 * 1000) / 100 * 100) / 10 * 10 := by omega
  simp only [padded, List.nil_append, List.cons_append, h₁, h₂, h₃, h₄]
  simp only [httpWrite4digits, Nat.add_comm 0x30]

/-! ## The loops -/

theorem httpIsLeapYear_eq (y : Nat) : httpIsLeapYear y = if LeapYear y then 1 else 0 := by
  have hmask : y &&& 3 = y % 4 := Nat.and_two_pow_sub_one_eq_mod y 2
  have hcent : y - y / 100 * 100 = y % 100 := by omega
  have hquad : y - y / 400 * 400 = y % 400 := by omega
  rw [httpIsLeapYear, hmask, hcent, hquad]
  by_cases h₄ : y % 4 = 0
  · by_cases h₁ : y % 100 = 0
    · by_cases h₂ : y % 400 = 0
      · simp [LeapYear, h₄, h₁, h₂]
      · simp [LeapYear, h₄, h₁, h₂]
    · simp [LeapYear, h₄, h₁]
  · simp [LeapYear, h₄]

theorem yearLength_eq (y : Nat) : httpIsLeapYear y + 365 = yearLength y := by
  rw [httpIsLeapYear_eq, yearLength]
  split
  · rfl
  · rfl

/-- **The year loop** ends in the year of the day. -/
theorem dateYearLoop_spec {n y r : Nat} (h : r < n) : ∃ y' r',
    dateYearLoop n y r = some (y', r', httpIsLeapYear y') ∧
      yearStart y + r = yearStart y' + r' ∧ r' < yearLength y' := by
  induction n generalizing y r with
  | zero => exact absurd h (Nat.not_lt_zero r)
  | succ n ih =>
      rw [dateYearLoop, yearLength_eq]
      by_cases hin : r < yearLength y
      · rw [if_pos hin]
        exact ⟨y, r, rfl, rfl, hin⟩
      · have hpos : 365 ≤ yearLength y := by
          rw [← yearLength_eq]
          exact Nat.le_add_left _ _
        obtain ⟨y', r', hloop, hnumber, hlt⟩ := @ih (y + 1) (r - yearLength y) (by omega)
        rw [yearStart_succ] at hnumber
        rw [if_neg hin]
        exact ⟨y', r', hloop, by omega, hlt⟩

theorem monthDays_eq (y : Nat) {m : Nat} (h : m < 12) : ∃ days, httpMonthDays[m]? = some days ∧
    (if m = 1 then days + httpIsLeapYear y else days) = monthLength y m := by
  rw [httpIsLeapYear_eq]
  have hall : ∀ m < 12, m ≠ 1 → httpMonthDays[m]? = some (monthLength y m) := by
    intro m hm hne
    interval_cases m <;> first | rfl | exact absurd rfl hne
  by_cases hfeb : m = 1
  · subst hfeb
    refine ⟨28, rfl, ?_⟩
    rw [if_pos rfl, monthLength]
    split
    · rfl
    · rfl
  · exact ⟨_, hall m h hfeb, if_neg hfeb⟩

/-- **The month loop** ends in the month of the day, within the table. -/
theorem dateMonthLoop_spec {y n m r : Nat} (hn : m + n = 12)
    (h : monthStart y m + r < yearLength y) : ∃ m' r',
    dateMonthLoop (httpIsLeapYear y) n m r = some (m', r') ∧
      monthStart y m + r = monthStart y m' + r' ∧ r' < monthLength y m' ∧ m' < 12 := by
  induction n generalizing m r with
  | zero =>
      have hm : m = 12 := hn
      rw [hm, monthStart_year] at h
      omega
  | succ n ih =>
      have hm : m < 12 := by omega
      obtain ⟨days, hdays, hlen⟩ := monthDays_eq y hm
      rw [dateMonthLoop, hdays, Option.bind_some]
      dsimp only
      rw [hlen]
      by_cases hin : r < monthLength y m
      · rw [if_pos hin]
        exact ⟨m, r, rfl, rfl, hin, hm⟩
      · have hnext : monthStart y (m + 1) + (r - monthLength y m) < yearLength y := by
          rw [monthStart]
          omega
        obtain ⟨m', r', hloop, hnumber, hlt, hm'⟩ := ih (by omega) hnext
        rw [monthStart] at hnumber
        rw [if_neg hin]
        exact ⟨m', r', hloop, by omega, hlt, hm'⟩

/-! ## The date -/

/-- The end of the year 9999. -/
def lastSecond : Nat := 253402300799

theorem dayTime_lt {t : Nat} : (t - t / 86400 * 86400) / 3600 < 24 ∧
    ((t - t / 86400 * 86400) - (t - t / 86400 * 86400) / 3600 * 3600) / 60 < 60 := by
  have hday : t - t / 86400 * 86400 < 86400 := by omega
  generalize t - t / 86400 * 86400 = s at hday ⊢
  omega

theorem httpFormatDate_instant {t : Nat} (h : t ≤ lastSecond) : ∃ i : Instant,
    i.date.year < 10000 ∧ httpFormatDate t = some i.text ∧ i.unix = t ∧
      i.date.number = epochDate.number + t / 86400 := by
  have hlast : lastSecond = 253402300799 := rfl
  have hdays : t / 86400 % 2 ^ 32 = t / 86400 := Nat.mod_eq_of_lt (by omega)
  have hdow : (t / 86400 + 4) % 2 ^ 32 = t / 86400 + 4 := Nat.mod_eq_of_lt (by omega)
  obtain ⟨hhour, hminute⟩ := @dayTime_lt t
  obtain ⟨y, r, hyears, hy, hr⟩ := @dateYearLoop_spec (t / 86400 + 1) 1970 (t / 86400) (by omega)
  have hin : monthStart y 0 + r < yearLength y := by
    rw [monthStart]
    omega
  obtain ⟨m, d, hmonths, hm, hd, hm12⟩ := @dateMonthLoop_spec y 12 0 r rfl hin
  rw [monthStart, Nat.zero_add] at hm
  have hyear : y < 10000 := by
    by_contra hge
    have hmono := @yearStart_mono 10000 y (by omega)
    have htenth : yearStart 10000 = 3652425 := rfl
    have hepoch : yearStart 1970 = 719528 := rfl
    omega
  let date : Date := ⟨y, m, d + 1, hm12, Nat.succ_pos d, hd⟩
  have hnumber : date.number = epochDate.number + t / 86400 := by
    have hepoch : yearStart 1970 = epochDate.number := rfl
    show yearStart y + monthStart y m + (d + 1 - 1) = _
    omega
  have hsecond : t - t / 86400 * 86400 - (t - t / 86400 * 86400) / 3600 * 3600 -
      (t - t / 86400 * 86400 - (t - t / 86400 * 86400) / 3600 * 3600) / 60 * 60 < 60 := by
    generalize t - t / 86400 * 86400 - (t - t / 86400 * 86400) / 3600 * 3600 = s
    omega
  let i : Instant := ⟨date, _, _, _, hhour, hminute, hsecond⟩
  have hweekday : t / 86400 + 4 - (t / 86400 + 4) / 7 * 7 = date.weekday := by
    rw [Date.weekday, hnumber, epochDate_number]
    omega
  have hday : d + 1 < 100 := by
    have hmax := monthLength_le y m
    omega
  refine ⟨i, hyear, ?_, ?_, hnumber⟩
  · unfold httpFormatDate
    dsimp only
    rw [hdays, hdow, hweekday, dowEntry date.weekday_lt, hyears, Option.bind_some, Option.bind_some,
      hmonths, Option.bind_some, monthEntry hm12, Option.map_some, httpWrite2digits_eq hday,
      httpWrite4digits_eq hyear, httpWrite2digits_eq (Nat.lt_trans hhour (by decide)),
      httpWrite2digits_eq (Nat.lt_trans hminute (by decide)),
      httpWrite2digits_eq (Nat.lt_trans hsecond (by decide))]
    rfl
  · show 86400 * (date.number - epochDate.number) + 3600 * _ + 60 * _ + _ = t
    rw [hnumber, Nat.add_sub_cancel_left]
    generalize hs : t - t / 86400 * 86400 = s at hhour hminute hsecond ⊢
    show 86400 * (t / 86400) + 3600 * (s / 3600) + 60 * ((s - s / 3600 * 3600) / 60) +
      (s - s / 3600 * 3600 - (s - s / 3600 * 3600) / 60 * 60) = t
    omega

/-- **The date is right.**  For every second up to the end of the year 9999 `http_format_date` writes
29 bytes, the IMF-fixdate of the instant that is so many seconds after 1 January 1970 on the
calendar, with its weekday; and any instant up to the year 9999 whose text these bytes are is that
one. -/
theorem http_date_correct {t : Nat} (h : t ≤ lastSecond) : ∃ i : Instant,
    httpFormatDate t = some i.text ∧ i.text.length = 29 ∧ i.date.year ≤ 9999 ∧ i.unix = t ∧
      i.date = Date.next^[t / 86400] epochDate ∧
      ∀ j : Instant, j.date.year ≤ 9999 → j.text = i.text → j.unix = t ∧ j = i := by
  obtain ⟨i, hyear, htext, hunix, hnumber⟩ := httpFormatDate_instant h
  refine ⟨i, htext, i.text_length, Nat.le_of_lt_succ hyear, hunix, ?_, ?_⟩
  · apply number_injective
    rw [number_iterate, hnumber]
  · intro j hj heq
    have hsame := text_injective (Nat.lt_succ_of_le hj) hyear heq
    rw [hsame]
    exact ⟨hunix, rfl⟩

/-- The last day of February 2000. -/
theorem http_date_correct_demo : ∃ i : Instant, httpFormatDate 951782400 = some i.text ∧
    i.unix = 951782400 := by
  obtain ⟨i, htext, -, -, hunix, -⟩ := @http_date_correct 951782400 (by decide)
  exact ⟨i, htext, hunix⟩

example : nameOf dayNames (Date.weekday ⟨2000, 1, 29, by decide, by decide, by decide⟩)
    = ascii "Tue" := by decide +kernel

end WsPi5

/-
# `Lib.Calendar` — the Gregorian calendar, carried back, and the date text of HTTP

A date is a year, a month and a day of it; `Date.next` is the day after.  `Date.number` counts the
days from 1 January of year 0 on.  The count of the years before `y` is a formula,

    365 y  +  years divisible by 4  -  those divisible by 100  +  those divisible by 400

and that it counts days is `number_next`: from a day to the next it goes up by one.  Hence a number
names at most one date (`number_injective`), and `n` days after a date is the date with the number
`n` higher (`number_iterate`).

An `Instant` is a date with a time of day.  `Instant.text` is its IMF-fixdate (RFC 9110, section
5.6.7), from which the instant can be read back up to the year 9999 (`text_injective`).
-/
import Mathlib.Algebra.GroupWithZero.Nat
import Mathlib.Logic.Function.Iterate
import WsPi5.Lib.Utf8

namespace Lib

/-! ## Dates -/

def LeapYear (y : Nat) : Prop := y % 4 = 0 ∧ (y % 100 ≠ 0 ∨ y % 400 = 0)

instance (y : Nat) : Decidable (LeapYear y) := inferInstanceAs (Decidable (_ ∧ _))

def yearLength (y : Nat) : Nat := if LeapYear y then 366 else 365

/-- The days of a month; 0 is January. -/
def monthLength (y : Nat) : Nat → Nat
  | 1 => if LeapYear y then 29 else 28
  | 3 | 5 | 8 | 10 => 30
  | _ => 31

/-- A day of the calendar, its month counted from 0 and its day from 1. -/
@[ext]
structure Date where
  year : Nat
  month : Nat
  day : Nat
  month_lt : month < 12
  day_pos : 0 < day
  day_le : day ≤ monthLength year month
  deriving DecidableEq

theorem monthLength_pos (y m : Nat) : 0 < monthLength y m := by
  unfold monthLength
  split
  · split <;> decide
  all_goals decide

def Date.next (d : Date) : Date :=
  if h : d.day < monthLength d.year d.month then
    { d with day := d.day + 1, day_pos := Nat.succ_pos _, day_le := h }
  else if hm : d.month + 1 < 12 then
    ⟨d.year, d.month + 1, 1, hm, Nat.one_pos, monthLength_pos _ _⟩
  else ⟨d.year + 1, 0, 1, by decide, Nat.one_pos, monthLength_pos _ _⟩

/-! ## Counting days -/

/-- The days of the years before `y`. -/
def yearStart (y : Nat) : Nat := 365 * y + (y + 3) / 4 - (y + 99) / 100 + (y + 399) / 400

/-- The days of the months before `m`. -/
def monthStart (y : Nat) : Nat → Nat
  | 0 => 0
  | m + 1 => monthStart y m + monthLength y m

def Date.number (d : Date) : Nat := yearStart d.year + monthStart d.year d.month + (d.day - 1)

theorem yearStart_succ (y : Nat) : yearStart (y + 1) = yearStart y + yearLength y := by
  -- the multiples of each number below `y + 1`
  have h₄ : (y + 1 + 3) / 4 = (y + 3) / 4 + if y % 4 = 0 then 1 else 0 := by split <;> omega
  have h₁ : (y + 1 + 99) / 100 = (y + 99) / 100 + if y % 100 = 0 then 1 else 0 := by
    split <;> omega
  have h₂ : (y + 1 + 399) / 400 = (y + 399) / 400 + if y % 400 = 0 then 1 else 0 := by
    split <;> omega
  have hle : (y + 99) / 100 ≤ (y + 3) / 4 := by omega
  have hquad : y % 400 = 0 → y % 100 = 0 := by omega
  have hcent : y % 100 = 0 → y % 4 = 0 := by omega
  unfold yearStart
  rw [h₄, h₁, h₂]
  generalize (y + 3) / 4 = a at hle ⊢
  generalize (y + 99) / 100 = b at hle ⊢
  generalize (y + 399) / 400 = c
  by_cases hy₄ : y % 4 = 0
  · by_cases hy₁ : y % 100 = 0
    · by_cases hy₂ : y % 400 = 0
      · have hyes : LeapYear y := ⟨hy₄, .inr hy₂⟩
        rw [if_pos hy₄, if_pos hy₁, if_pos hy₂, yearLength, if_pos hyes]
        omega
      · have hno : ¬ LeapYear y := fun h => h.2.elim (fun h => h hy₁) hy₂
        rw [if_pos hy₄, if_pos hy₁, if_neg hy₂, yearLength, if_neg hno]
        omega
    · have hy₂ := mt hquad hy₁
      have hyes : LeapYear y := ⟨hy₄, .inl hy₁⟩
      rw [if_pos hy₄, if_neg hy₁, if_neg hy₂, yearLength, if_pos hyes]
      omega
  · have hy₁ := mt hcent hy₄
    have hy₂ := mt hquad hy₁
    have hno : ¬ LeapYear y := fun h => hy₄ h.1
    rw [if_neg hy₄, if_neg hy₁, if_neg hy₂, yearLength, if_neg hno]
    omega

theorem yearStart_mono {y y' : Nat} (h : y ≤ y') : yearStart y ≤ yearStart y' := by
  induction h with
  | refl => exact Nat.le_refl _
  | step _ ih =>
      rw [yearStart_succ]
      omega

theorem monthStart_year (y : Nat) : monthStart y 12 = yearLength y := by
  unfold yearLength
  split
  next h => simp [monthStart, monthLength, h]
  next h => simp [monthStart, monthLength, h]

theorem monthStart_mono {y m m' : Nat} (h : m ≤ m') : monthStart y m ≤ monthStart y m' := by
  induction h with
  | refl => exact Nat.le_refl _
  | step _ ih => exact Nat.le_trans ih (Nat.le_add_right _ _)

theorem Date.inYear (d : Date) :
    monthStart d.year d.month + (d.day - 1) < yearLength d.year := by
  have hlast : monthStart d.year (d.month + 1) ≤ monthStart d.year 12 :=
    monthStart_mono d.month_lt
  have hpos := d.day_pos
  have hle := d.day_le
  rw [monthStart_year, monthStart] at hlast
  omega

/-- **The number counts days.** -/
theorem number_next (d : Date) : d.next.number = d.number + 1 := by
  have hpos := d.day_pos
  have hle := d.day_le
  unfold Date.next
  split
  · simp only [Date.number]
    omega
  next hlast =>
    split
    · simp only [Date.number, monthStart]
      omega
    next hdec =>
      have hm : d.month + 1 = 12 := by
        have := d.month_lt
        omega
      have hyear := monthStart_year d.year
      rw [← hm, monthStart] at hyear
      simp only [Date.number, monthStart, yearStart_succ]
      omega

theorem number_iterate (n : Nat) (d : Date) : (Date.next^[n] d).number = d.number + n := by
  induction n generalizing d with
  | zero => rfl
  | succ n ih =>
      rw [Function.iterate_succ_apply, ih, number_next]
      omega

theorem number_lt_of_year {d d' : Date} (h : d.year < d'.year) : d.number < d'.number := by
  have hin := d.inYear
  have hstart := yearStart_mono h
  rw [Nat.succ_eq_add_one, yearStart_succ] at hstart
  unfold Date.number
  omega

theorem number_lt_of_month {d d' : Date} (hy : d.year = d'.year) (h : d.month < d'.month) :
    d.number < d'.number := by
  have hstart : monthStart d'.year (d.month + 1) ≤ monthStart d'.year d'.month := monthStart_mono h
  have hpos := d.day_pos
  have hle := d.day_le
  rw [monthStart, ← hy] at hstart
  unfold Date.number
  rw [← hy]
  omega

theorem number_injective : Function.Injective Date.number := by
  intro d d' h
  have hyear : d.year = d'.year := by
    rcases Nat.lt_trichotomy d.year d'.year with hlt | heq | hlt
    · exact absurd h (Nat.ne_of_lt (number_lt_of_year hlt))
    · exact heq
    · exact absurd h.symm (Nat.ne_of_lt (number_lt_of_year hlt))
  have hmonth : d.month = d'.month := by
    rcases Nat.lt_trichotomy d.month d'.month with hlt | heq | hlt
    · exact absurd h (Nat.ne_of_lt (number_lt_of_month hyear hlt))
    · exact heq
    · exact absurd h.symm (Nat.ne_of_lt (number_lt_of_month hyear.symm hlt))
  have hpos := d.day_pos
  have hpos' := d'.day_pos
  refine Date.ext hyear hmonth ?_
  unfold Date.number at h
  rw [hyear, hmonth] at h
  omega

/-- 1 January 1970. -/
def epochDate : Date := ⟨1970, 0, 1, by decide, by decide, by decide⟩

theorem epochDate_number : epochDate.number = 719528 := rfl

/-- The day of the week; 0 is Sunday.  Year 0 begins with a Saturday, and 1970 with a Thursday. -/
def Date.weekday (d : Date) : Nat := (d.number + 6) % 7

/-! ## Instants and their text -/

/-- A second of a day. -/
@[ext]
structure Instant where
  date : Date
  hour : Nat
  minute : Nat
  second : Nat
  hour_lt : hour < 24
  minute_lt : minute < 60
  second_lt : second < 60
  deriving DecidableEq

/-- The seconds since 1 January 1970; before it, 0. -/
def Instant.unix (i : Instant) : Nat :=
  86400 * (i.date.number - epochDate.number) + 3600 * i.hour + 60 * i.minute + i.second

def dayNames : List String := ["Sun", "Mon", "Tue", "Wed", "Thu", "Fri", "Sat"]

def monthNames : List String :=
  ["Jan", "Feb", "Mar", "Apr", "May", "Jun", "Jul", "Aug", "Sep", "Oct", "Nov", "Dec"]

def nameOf (names : List String) (i : Nat) : List UInt8 := utf8 (names.getD i "").toList

/-- `n` in `k` decimal digits. -/
def padded : Nat → Nat → List UInt8
  | 0, _ => []
  | k + 1, n => padded k (n / 10) ++ [UInt8.ofNat (0x30 + n % 10)]

/-- `IMF-fixdate`: day-name "," SP day SP month SP year SP hour ":" minute ":" second SP GMT. -/
def Instant.text (i : Instant) : List UInt8 :=
  nameOf dayNames i.date.weekday ++ utf8 ", ".toList ++
  padded 2 i.date.day ++ utf8 " ".toList ++ nameOf monthNames i.date.month ++ utf8 " ".toList ++
  padded 4 i.date.year ++ utf8 " ".toList ++
  padded 2 i.hour ++ utf8 ":".toList ++ padded 2 i.minute ++ utf8 ":".toList ++
  padded 2 i.second ++ utf8 " GMT".toList

@[simp] theorem padded_length (k n : Nat) : (padded k n).length = k := by
  induction k generalizing n with
  | zero => rfl
  | succ k ih => rw [padded, List.length_append, ih, List.length_singleton]

theorem digit_inj {a b : Nat} (ha : a < 10) (hb : b < 10)
    (h : UInt8.ofNat (0x30 + a) = UInt8.ofNat (0x30 + b)) : a = b := by
  have hnat := congrArg UInt8.toNat h
  rw [UInt8.toNat_ofNat', UInt8.toNat_ofNat'] at hnat
  omega

theorem padded_inj {k n m : Nat} (hn : n < 10 ^ k) (hm : m < 10 ^ k)
    (h : padded k n = padded k m) : n = m := by
  induction k generalizing n m with
  | zero => omega
  | succ k ih =>
      rw [Nat.pow_succ] at hn hm
      obtain ⟨hrest, hlast⟩ := List.append_inj h (by simp)
      have hdiv := ih (by omega) (by omega) hrest
      have hmod := digit_inj (Nat.mod_lt n (by decide)) (Nat.mod_lt m (by decide))
        (List.cons.inj hlast).1
      omega

theorem dayName_length {i : Nat} (h : i < 7) : (nameOf dayNames i).length = 3 := by
  have hall : ∀ i < 7, (nameOf dayNames i).length = 3 := by decide +kernel
  exact hall i h

theorem monthName_length {i : Nat} (h : i < 12) : (nameOf monthNames i).length = 3 := by
  have hall : ∀ i < 12, (nameOf monthNames i).length = 3 := by decide +kernel
  exact hall i h

theorem monthName_inj {i j : Nat} (hi : i < 12) (hj : j < 12)
    (h : nameOf monthNames i = nameOf monthNames j) : i = j := by
  have hall : ∀ i < 12, ∀ j < 12, nameOf monthNames i = nameOf monthNames j → i = j := by
    decide +kernel
  exact hall i hi j hj h

theorem Date.weekday_lt (d : Date) : d.weekday < 7 := Nat.mod_lt _ (by decide)

theorem Instant.text_length (i : Instant) : i.text.length = 29 := by
  have hday := dayName_length i.date.weekday_lt
  have hmonth := monthName_length i.date.month_lt
  simp only [text, List.length_append, padded_length, hday, hmonth]
  decide

theorem padded_line (k n : Nat) : 0x0A ∉ padded k n := by
  induction k generalizing n with
  | zero => exact List.not_mem_nil
  | succ k ih =>
      rw [padded, List.mem_append, List.mem_singleton, not_or]
      refine ⟨ih _, fun h => ?_⟩
      have hnat := congrArg UInt8.toNat h
      rw [UInt8.toNat_ofNat'] at hnat
      have hline : (0x0A : UInt8).toNat = 10 := rfl
      omega

theorem Instant.text_line (i : Instant) : 0x0A ∉ i.text := by
  have hday : ∀ k < 7, 0x0A ∉ nameOf dayNames k := by decide +kernel
  have hmonth : ∀ k < 12, 0x0A ∉ nameOf monthNames k := by decide +kernel
  have hday' := hday _ i.date.weekday_lt
  have hmonth' := hmonth _ i.date.month_lt
  have hblanks : 0x0A ∉ utf8 ", ".toList ∧ 0x0A ∉ utf8 " ".toList ∧ 0x0A ∉ utf8 ":".toList ∧
      0x0A ∉ utf8 " GMT".toList := by decide +kernel
  simp only [text, List.mem_append, not_or]
  exact ⟨⟨⟨⟨⟨⟨⟨⟨⟨⟨⟨⟨⟨hday', hblanks.1⟩, padded_line _ _⟩, hblanks.2.1⟩, hmonth'⟩, hblanks.2.1⟩,
    padded_line _ _⟩, hblanks.2.1⟩, padded_line _ _⟩, hblanks.2.2.1⟩, padded_line _ _⟩,
    hblanks.2.2.1⟩, padded_line _ _⟩, hblanks.2.2.2⟩

theorem monthLength_le (y m : Nat) : monthLength y m ≤ 31 := by
  unfold monthLength
  split
  · split <;> decide
  all_goals decide

/-- **A date text is that of one instant.** -/
theorem text_injective {i j : Instant} (hi : i.date.year < 10000) (hj : j.date.year < 10000)
    (h : i.text = j.text) : i = j := by
  have hlen : ∀ {x : Instant}, (nameOf dayNames x.date.weekday).length = 3 ∧
      (nameOf monthNames x.date.month).length = 3 := fun {x} =>
    ⟨dayName_length x.date.weekday_lt, monthName_length x.date.month_lt⟩
  have hday : ∀ x : Instant, x.date.day < 10 ^ 2 := fun x =>
    Nat.lt_of_le_of_lt (Nat.le_trans x.date.day_le (monthLength_le _ _)) (by decide)
  have hhour := fun x : Instant => Nat.lt_trans x.hour_lt (show 24 < 10 ^ 2 by decide)
  have hminute := fun x : Instant => Nat.lt_trans x.minute_lt (show 60 < 10 ^ 2 by decide)
  have hsecond := fun x : Instant => Nat.lt_trans x.second_lt (show 60 < 10 ^ 2 by decide)
  -- the parts, from the right
  obtain ⟨h, -⟩ := List.append_inj' h rfl
  obtain ⟨h, hs⟩ := List.append_inj' h (by simp)
  obtain ⟨h, -⟩ := List.append_inj' h rfl
  obtain ⟨h, hmin⟩ := List.append_inj' h (by simp)
  obtain ⟨h, -⟩ := List.append_inj' h rfl
  obtain ⟨h, hh⟩ := List.append_inj' h (by simp)
  obtain ⟨h, -⟩ := List.append_inj' h rfl
  obtain ⟨h, hy⟩ := List.append_inj' h (by simp)
  obtain ⟨h, -⟩ := List.append_inj' h rfl
  obtain ⟨h, hmon⟩ := List.append_inj' h (by rw [hlen.2, hlen.2])
  obtain ⟨h, -⟩ := List.append_inj' h rfl
  obtain ⟨-, hd⟩ := List.append_inj' h (by simp)
  refine Instant.ext (Date.ext ?_ ?_ ?_) ?_ ?_ ?_
  · exact padded_inj hi hj hy
  · exact monthName_inj i.date.month_lt j.date.month_lt hmon
  · exact padded_inj (hday i) (hday j) hd
  · exact padded_inj (hhour i) (hhour j) hh
  · exact padded_inj (hminute i) (hminute j) hmin
  · exact padded_inj (hsecond i) (hsecond j) hs

end Lib

import Deltaship.Lib.Text
import Mathlib.Algebra.Group.Nat.Defs
import Mathlib.Data.List.Induction

/-!
# Deltaship.Lib.Calendar

Civil times: dates of the Gregorian calendar, times of day, and their texts of fixed width.

Years, months, hours and minutes are blocks of days or seconds, so that one fact about blocks
(`offset_add_lt_iff`) gives the order of dates and of times.  Numbers of a fixed width are ordered
like their texts (`digits_lt_iff`), and so a text of a fixed width is ordered like the time it
denotes (`Stamp.text_append_lt_iff`), and it can be read again (`Stamp.parse_text`).  Every second
is denoted (`exists_stamp`).
-/

namespace Deltaship.Calendar

/-! ## blocks -/

section Blocks

variable {w : Nat → Nat} {i j x y : Nat}

/-- Where a block begins, if block `i` is `w i` wide. -/
def offset (w : Nat → Nat) : Nat → Nat
  | 0 => 0
  | i + 1 => offset w i + w i

theorem offset_mono (h : i ≤ j) : offset w i ≤ offset w j := by
  induction h with
  | refl => exact Nat.le_refl _
  | step _ ih => exact Nat.le_trans ih (Nat.le_add_right _ _)

/-- What lies in an earlier unit comes before what lies in a later one. -/
theorem offset_add_lt_of_lt (hx : x < w i) (h : i < j) : offset w i + x < offset w j + y := by
  have hnext : offset w i + w i ≤ offset w j := offset_mono (i := i + 1) h
  omega

/-- Positions are ordered by block, and then within the block. -/
theorem offset_add_lt_iff (hx : x < w i) (hy : y < w j) :
    offset w i + x < offset w j + y ↔ i < j ∨ i = j ∧ x < y := by
  rcases Nat.lt_trichotomy i j with hlt | rfl | hgt
  · simp [offset_add_lt_of_lt hx hlt, hlt]
  · simp
  · have hback := offset_add_lt_of_lt hy hgt (y := x)
    omega

end Blocks

/-! ## dates -/

/-- Whether a year has a 29th of February. -/
def isLeap (year : Nat) : Bool := year % 4 == 0 && (year % 100 != 0 || year % 400 == 0)

/-- The days of a month, from 1. -/
def daysInMonth (year month : Nat) : Nat :=
  if month = 2 then if isLeap year then 29 else 28
  else if month = 4 ∨ month = 6 ∨ month = 9 ∨ month = 11 then 30
  else 31

/-- The days of a year. -/
def daysInYear (year : Nat) : Nat := if isLeap year then 366 else 365

theorem daysInMonth_le (year month : Nat) : daysInMonth year month ≤ 31 := by
  unfold daysInMonth
  split
  · split <;> omega
  · split <;> omega

/-- The months of a year are its days. -/
theorem offset_months (year : Nat) :
    offset (fun m => daysInMonth year (m + 1)) 12 = daysInYear year := by
  cases hleap : isLeap year <;> simp [offset, daysInMonth, daysInYear, hleap]

/-- A date that exists. -/
structure Date where
  year : Nat
  month : Nat
  day : Nat
  month_pos : 1 ≤ month
  month_le : month ≤ 12
  day_pos : 1 ≤ day
  day_le : day ≤ daysInMonth year month
deriving DecidableEq, Repr

namespace Date

variable {a b : Date}

/-- The days of the year before the date. -/
def dayOfYear (d : Date) : Nat :=
  offset (fun m => daysInMonth d.year (m + 1)) (d.month - 1) + (d.day - 1)

/-- The number of the day, from the first day of the year 0. -/
def number (d : Date) : Nat := offset daysInYear d.year + d.dayOfYear

/-- The day of a date lies within its month. -/
theorem day_lt (d : Date) : d.day - 1 < daysInMonth d.year (d.month - 1 + 1) := by
  have hpos := d.day_pos
  have hle := d.day_le
  rw [Nat.sub_add_cancel d.month_pos]
  omega

/-- The day of a date lies within its year. -/
theorem dayOfYear_lt (d : Date) : d.dayOfYear < daysInYear d.year := by
  have hmonth := d.month_pos
  have hlast := d.month_le
  have hbefore := offset_add_lt_of_lt (w := fun m => daysInMonth d.year (m + 1)) (y := 0) d.day_lt
    (show d.month - 1 < 12 by omega)
  rw [offset_months] at hbefore
  exact hbefore

/-- Dates are ordered by year, month and day. -/
theorem number_lt_iff : a.number < b.number ↔
    a.year < b.year ∨ a.year = b.year ∧
      (a.month < b.month ∨ a.month = b.month ∧ a.day < b.day) := by
  unfold number
  rw [offset_add_lt_iff a.dayOfYear_lt b.dayOfYear_lt]
  refine or_congr_right (and_congr_right fun hyear => ?_)
  have hday := a.day_lt
  have ha := a.month_pos
  have hb := b.month_pos
  have ha' := a.day_pos
  have hb' := b.day_pos
  unfold dayOfYear
  rw [hyear] at hday ⊢
  rw [offset_add_lt_iff (w := fun m => daysInMonth b.year (m + 1)) hday b.day_lt]
  omega

theorem number_inj (h : a.number = b.number) : a = b := by
  have hlt := mt number_lt_iff.mpr (Nat.not_lt.mpr (Nat.le_of_eq h.symm))
  have hgt := mt number_lt_iff.mpr (Nat.not_lt.mpr (Nat.le_of_eq h))
  obtain ⟨year, month, day⟩ := a
  obtain ⟨year', month', day'⟩ := b
  dsimp only at hlt hgt
  have hyear : year = year' := by omega
  have hmonth : month = month' := by omega
  have hday : day = day' := by omega
  subst hyear hmonth hday
  rfl

end Date

/-! ## times of day -/

/-- A time of day. -/
structure Time where
  hour : Nat
  minute : Nat
  second : Nat
  hour_lt : hour < 24
  minute_lt : minute < 60
  second_lt : second < 60
deriving DecidableEq, Repr

namespace Time

variable {a b : Time}

/-- The seconds since midnight. -/
def number (t : Time) : Nat := 3600 * t.hour + 60 * t.minute + t.second

theorem number_lt (t : Time) : t.number < 86400 := by
  have hhour := t.hour_lt
  have hminute := t.minute_lt
  have hsecond := t.second_lt
  unfold number
  omega

/-- Times are ordered by hour, minute and second. -/
theorem number_lt_iff : a.number < b.number ↔ a.hour < b.hour ∨
    a.hour = b.hour ∧ (a.minute < b.minute ∨ a.minute = b.minute ∧ a.second < b.second) := by
  have ha := a.minute_lt
  have ha' := a.second_lt
  have hb := b.minute_lt
  have hb' := b.second_lt
  unfold number
  omega

theorem number_inj (h : a.number = b.number) : a = b := by
  have ha := a.minute_lt
  have ha' := a.second_lt
  have hb := b.minute_lt
  have hb' := b.second_lt
  obtain ⟨hour, minute, second⟩ := a
  obtain ⟨hour', minute', second'⟩ := b
  unfold number at h
  dsimp only at *
  have hhour : hour = hour' := by omega
  have hminute : minute = minute' := by omega
  have hsecond : second = second' := by omega
  subst hhour hminute hsecond
  rfl

end Time

/-! ## numbers of a fixed width -/

/-- The last `w` decimal digits of a number. -/
def digits : Nat → Nat → List Char
  | 0, _ => []
  | w + 1, n => digits w (n / 10) ++ [Nat.digitChar (n % 10)]

section Digits

variable {w n n' : Nat}

/-- A number is written with as many digits as asked for. -/
@[simp] theorem length_digits (w n : Nat) : (digits w n).length = w := by
  induction w generalizing n with
  | zero => rfl
  | succ w ih => simp [digits, ih]

theorem digitChar_lt_iff : ∀ a < 10, ∀ b < 10, Nat.digitChar a < Nat.digitChar b ↔ a < b := by
  decide

theorem digitChar_inj : ∀ a < 10, ∀ b < 10, Nat.digitChar a = Nat.digitChar b → a = b := by
  decide

/-- Texts that begin with texts of the same length are ordered by these first. -/
theorem append_lt_append_iff {α : Type} [LT α] [Std.Irrefl (α := α) (· < ·)] {a b r r' : List α}
    (h : a.length = b.length) : a ++ r < b ++ r' ↔ a < b ∨ a = b ∧ r < r' := by
  induction a generalizing b with
  | nil =>
      obtain rfl := List.eq_nil_of_length_eq_zero h.symm
      simp
  | cons x a ih =>
      cases b with
      | nil => contradiction
      | cons y b =>
          rw [List.cons_append, List.cons_append, List.cons_lt_cons_iff, List.cons_lt_cons_iff,
            ih (Nat.succ.inj h), List.cons.injEq]
          tauto

/-- Without its last digit a number has one digit less. -/
theorem div_lt_of_lt (h : n < 10 ^ (w + 1)) : n / 10 < 10 ^ w := by
  rw [Nat.pow_succ] at h
  omega

/-- A number of a fixed width is its text. -/
theorem digits_inj (h : n < 10 ^ w) (h' : n' < 10 ^ w) : digits w n = digits w n' ↔ n = n' := by
  refine ⟨fun heq => ?_, fun heq => by rw [heq]⟩
  induction w generalizing n n' with
  | zero =>
      simp at h h'
      omega
  | succ w ih =>
      obtain ⟨hfront, hlast⟩ := List.append_inj heq (by simp)
      have hdiv := ih (div_lt_of_lt h) (div_lt_of_lt h') hfront
      have hmod := digitChar_inj _ (Nat.mod_lt n (by decide)) _ (Nat.mod_lt n' (by decide))
        (List.cons.inj hlast).1
      omega

/-- Numbers of a fixed width are ordered like their texts. -/
theorem digits_lt_iff (h : n < 10 ^ w) (h' : n' < 10 ^ w) : digits w n < digits w n' ↔ n < n' := by
  induction w generalizing n n' with
  | zero =>
      have hzero : ¬ n < n' := by simp at h h'; omega
      simp [digits, hzero]
  | succ w ih =>
      rw [digits, digits, append_lt_append_iff (by simp), ih (div_lt_of_lt h) (div_lt_of_lt h'),
        digits_inj (div_lt_of_lt h) (div_lt_of_lt h'), List.cons_lt_cons_iff,
        digitChar_lt_iff _ (Nat.mod_lt _ (by decide)) _ (Nat.mod_lt _ (by decide))]
      simp only [List.not_lt_nil, and_false, or_false]
      omega

/-- The character of a digit lies that far behind zero. -/
theorem toNat_digitChar : ∀ k < 10, (Nat.digitChar k).toNat = 48 + k := by decide

/-- A digit is the character that lies that far behind zero. -/
theorem digitChar_eq : ∀ k < 10, Nat.digitChar k = Char.ofNat (48 + k) := by decide

/-- A digit is the digit of its value. -/
theorem digitChar_toNat_sub {c : Char} (hc : c.isDigit = true) :
    Nat.digitChar (c.toNat - 48) = c := by
  have hc := Text.isDigit_iff.mp hc
  rw [digitChar_eq _ (by omega), Nat.add_sub_cancel' hc.1, Char.ofNat_toNat]

/-- A number is written in digits. -/
theorem isDigit_of_mem_digits {c : Char} (hc : c ∈ digits w n) : c.isDigit = true := by
  induction w generalizing n with
  | zero => contradiction
  | succ w ih =>
      rcases List.mem_append.mp hc with hc | hc
      · exact ih hc
      · rw [List.mem_singleton.mp hc, Nat.isDigit_digitChar]
        exact decide_eq_true (Nat.mod_lt _ (by decide))

/-- So it does not begin with anything else. -/
theorem digits_ne_cons {c : Char} (hc : c.isDigit = false) (l : List Char) :
    digits w n ≠ c :: l := by
  intro heq
  have hmem : c ∈ digits w n := by
    rw [heq]
    exact List.mem_cons_self
  rw [isDigit_of_mem_digits hmem] at hc
  contradiction

/-- What digits are read as. -/
theorem foldl_digits (h : n < 10 ^ w) :
    (digits w n).foldl (fun n c => 10 * n + (c.toNat - 48)) 0 = n := by
  induction w generalizing n with
  | zero =>
      simp at h
      exact h.symm
  | succ w ih =>
      rw [digits, List.foldl_append, ih (div_lt_of_lt h), List.foldl_cons, List.foldl_nil,
        toNat_digitChar _ (Nat.mod_lt _ (by decide))]
      omega

/-- Digits are the text of fixed width of what they are read as. -/
theorem digits_foldl {l : List Char} (hl : ∀ c ∈ l, c.isDigit = true) :
    l.foldl (fun n c => 10 * n + (c.toNat - 48)) 0 < 10 ^ l.length ∧
      digits l.length (l.foldl (fun n c => 10 * n + (c.toNat - 48)) 0) = l := by
  induction l using List.reverseRecOn with
  | nil => exact ⟨by simp, rfl⟩
  | append_singleton l c ih =>
      obtain ⟨hlt, hdigits⟩ := ih fun d hd => hl d (List.mem_append_left _ hd)
      have hc := hl c (by simp)
      have hvalue := Text.isDigit_iff.mp hc
      rw [List.foldl_append, List.foldl_cons, List.foldl_nil, List.length_append,
        List.length_singleton, Nat.pow_succ, digits]
      refine ⟨by omega, ?_⟩
      rw [show (10 * l.foldl (fun n c => 10 * n + (c.toNat - 48)) 0 + (c.toNat - 48)) / 10 =
          l.foldl (fun n c => 10 * n + (c.toNat - 48)) 0 from by omega, hdigits,
        show (10 * l.foldl (fun n c => 10 * n + (c.toNat - 48)) 0 + (c.toNat - 48)) % 10 =
          c.toNat - 48 from by omega, digitChar_toNat_sub hc]

/-- Parsing reads exactly the texts of fixed width. -/
theorem parseDigits_eq_some_iff {l : List Char} : Text.parseDigits l = some n ↔
    l ≠ [] ∧ n < 10 ^ l.length ∧ l = digits l.length n := by
  unfold Text.parseDigits
  constructor
  · intro h
    split at h
    · next hall =>
        rw [Bool.and_eq_true, List.all_eq_true] at hall
        obtain ⟨hlt, hdigits⟩ := digits_foldl hall.2
        rw [Option.some.inj h] at hlt hdigits
        exact ⟨by simpa using hall.1, hlt, hdigits.symm⟩
    · contradiction
  · rintro ⟨hne, hlt, hl⟩
    have hall : l.all Char.isDigit = true := by
      rw [List.all_eq_true]
      intro c hc
      rw [hl] at hc
      exact isDigit_of_mem_digits hc
    rw [if_pos (by simp [hall, hne])]
    have hvalue := foldl_digits hlt
    rw [← hl] at hvalue
    rw [hvalue]

end Digits

/-! ## points in time -/

/-- A date and a time of day. -/
structure Stamp where
  date : Date
  time : Time
deriving DecidableEq, Repr

namespace Stamp

variable {a b : Stamp} {sep sep' : Char} {rest rest' : List Char}

/-- The seconds since the beginning of the year 0. -/
def seconds (s : Stamp) : Nat := 86400 * s.date.number + s.time.number

/-- Instants are ordered by the date, and on one date by the time. -/
theorem seconds_lt_iff : a.seconds < b.seconds ↔
    a.date.number < b.date.number ∨ a.date.number = b.date.number ∧ a.time.number < b.time.number
    := by
  have ha := a.time.number_lt
  have hb := b.time.number_lt
  unfold seconds
  omega

/-- `YYYY-MM-DD`. -/
def dateText (d : Date) : List Char :=
  digits 4 d.year ++ '-' :: (digits 2 d.month ++ '-' :: digits 2 d.day)

/-- `HH:MM:SS`. -/
def timeText (t : Time) : List Char :=
  digits 2 t.hour ++ ':' :: (digits 2 t.minute ++ ':' :: digits 2 t.second)

/-- `YYYY-MM-DD`, a separator and `HH:MM:SS`. -/
def text (s : Stamp) (sep : Char) : List Char := dateText s.date ++ sep :: timeText s.time

@[simp] theorem length_dateText (d : Date) : (dateText d).length = 10 := by simp [dateText]

@[simp] theorem length_timeText (t : Time) : (timeText t).length = 8 := by simp [timeText]

@[simp] theorem length_text (s : Stamp) (sep : Char) : (s.text sep).length = 19 := by simp [text]

/-- Behind the same mark the rest decides. -/
theorem cons_self_lt_iff {c : Char} {l l' : List Char} : c :: l < c :: l' ↔ l < l' := by
  rw [List.cons_lt_cons_iff]
  simp

/-- Three numbers with marks between them are ordered by the first one that differs. -/
theorem three_lt_iff {w x y z x' y' z' : Nat} {c : Char} (hx : x < 10 ^ w) (hx' : x' < 10 ^ w)
    (hy : y < 10 ^ 2) (hy' : y' < 10 ^ 2) (hz : z < 10 ^ 2) (hz' : z' < 10 ^ 2) :
    digits w x ++ c :: (digits 2 y ++ c :: digits 2 z) <
      digits w x' ++ c :: (digits 2 y' ++ c :: digits 2 z') ↔
      x < x' ∨ x = x' ∧ (y < y' ∨ y = y' ∧ z < z') := by
  rw [append_lt_append_iff (by simp), digits_lt_iff hx hx', digits_inj hx hx', cons_self_lt_iff,
    append_lt_append_iff (by simp), digits_lt_iff hy hy', digits_inj hy hy', cons_self_lt_iff,
    digits_lt_iff hz hz']

theorem day_lt_hundred (d : Date) : d.day < 10 ^ 2 := by
  have hday := d.day_le
  have hmonth := daysInMonth_le d.year d.month
  omega

/-- Dates are ordered as their texts, as long as the year has four digits. -/
theorem dateText_lt_iff {d d' : Date} (h : d.year < 10000) (h' : d'.year < 10000) :
    dateText d < dateText d' ↔ d.number < d'.number := by
  have hmonth := d.month_le
  have hmonth' := d'.month_le
  rw [Date.number_lt_iff]
  exact three_lt_iff h h' (by omega) (by omega) (day_lt_hundred d) (day_lt_hundred d')

theorem timeText_lt_iff {t t' : Time} : timeText t < timeText t' ↔ t.number < t'.number := by
  have hbounds : ∀ t : Time, t.hour < 10 ^ 2 ∧ t.minute < 10 ^ 2 ∧ t.second < 10 ^ 2 := by
    intro t
    have hhour := t.hour_lt
    have hminute := t.minute_lt
    have hsecond := t.second_lt
    omega
  rw [Time.number_lt_iff]
  exact three_lt_iff (hbounds t).1 (hbounds t').1 (hbounds t).2.1 (hbounds t').2.1 (hbounds t).2.2
    (hbounds t').2.2

/-- Dates with the same text are the same day. -/
theorem dateText_inj {d d' : Date} (h : d.year < 10000) (h' : d'.year < 10000) :
    dateText d = dateText d' ↔ d.number = d'.number := by
  constructor
  · intro heq
    have hlt := (dateText_lt_iff h h').symm.trans (by rw [heq])
    have hgt := (dateText_lt_iff h' h).symm.trans (by rw [heq])
    simp only [List.lt_irrefl, iff_false] at hlt hgt
    omega
  · intro heq
    rw [Date.number_inj heq]

/-- Times with the same text are the same. -/
theorem timeText_inj {t t' : Time} : timeText t = timeText t' ↔ t.number = t'.number := by
  constructor
  · intro heq
    have hlt := (@timeText_lt_iff t t').symm.trans (by rw [heq])
    have hgt := (@timeText_lt_iff t' t).symm.trans (by rw [heq])
    simp only [List.lt_irrefl, iff_false] at hlt hgt
    omega
  · intro heq
    rw [Time.number_inj heq]

/-- Texts that begin with a time are ordered by the day, the separator, the time of day and what
follows. -/
theorem text_append_lt_iff (ha : a.date.year < 10000) (hb : b.date.year < 10000) :
    a.text sep ++ rest < b.text sep' ++ rest' ↔ a.date.number < b.date.number ∨
      a.date.number = b.date.number ∧ (sep < sep' ∨ sep = sep' ∧
        (a.time.number < b.time.number ∨ a.time.number = b.time.number ∧ rest < rest')) := by
  rw [text, text, List.append_assoc, List.append_assoc, append_lt_append_iff (by simp),
    dateText_lt_iff ha hb, dateText_inj ha hb, List.cons_append, List.cons_append,
    List.cons_lt_cons_iff, append_lt_append_iff (by simp), timeText_lt_iff, timeText_inj]

end Stamp

/-! ## offsets from UTC -/

/-- What may stand behind a time: nothing, `Z` or an offset. -/
inductive Zone where
  | none
  | utc
  | offset (negative : Bool) (hour minute : Nat) (hour_lt : hour < 24) (minute_lt : minute < 60)
deriving DecidableEq, Repr

namespace Zone

def text : Zone → List Char
  | none => []
  | utc => ['Z']
  | offset negative hour minute _ _ =>
      (if negative then '-' else '+') :: (digits 2 hour ++ ':' :: digits 2 minute)

/-- How far the local time is ahead of UTC. -/
def seconds : Zone → Int
  | none => 0
  | utc => 0
  | offset negative hour minute _ _ =>
      if negative then -(3600 * hour + 60 * minute) else 3600 * hour + 60 * minute

end Zone

/-- The second that a time with this zone denotes. -/
def Stamp.instant (s : Stamp) (zone : Zone) : Int := s.seconds - zone.seconds

/-! ## Unix time -/

/-- The beginning of 1970. -/
def epoch : Stamp :=
  ⟨⟨1970, 1, 1, by decide, by decide, by decide, by decide⟩,
    ⟨0, 0, 0, by decide, by decide, by decide⟩⟩

namespace Stamp

variable {a b : Stamp}

/-- The seconds since the beginning of 1970. -/
def unix (s : Stamp) : Nat := s.seconds - epoch.seconds

/-- From 1970 on nothing lies before the epoch. -/
theorem epoch_le (h : 1970 ≤ a.date.year) : epoch.seconds ≤ a.seconds := by
  have hmonth := a.date.month_pos
  have hday := a.date.day_pos
  have hlate : ¬ a.date.number < epoch.date.number := by
    rw [Date.number_lt_iff]
    dsimp only [epoch]
    omega
  have hmidnight : epoch.time.number = 0 := rfl
  unfold seconds
  omega

/-- From 1970 on, Unix time is time. -/
theorem unix_lt_iff (ha : 1970 ≤ a.date.year) (hb : 1970 ≤ b.date.year) :
    a.unix < b.unix ↔ a.seconds < b.seconds := by
  have hle := epoch_le ha
  have hle' := epoch_le hb
  unfold unix
  omega

end Stamp

/-! ## reading times -/

/-- The date with these numbers, if it exists. -/
def Date.ofNumbers (year month day : Nat) : Option Date :=
  if h : 1 ≤ month ∧ month ≤ 12 ∧ 1 ≤ day ∧ day ≤ daysInMonth year month then
    some ⟨year, month, day, h.1, h.2.1, h.2.2.1, h.2.2.2⟩
  else none

/-- The time of day with these numbers, if it exists. -/
def Time.ofNumbers (hour minute second : Nat) : Option Time :=
  if h : hour < 24 ∧ minute < 60 ∧ second < 60 then
    some ⟨hour, minute, second, h.1, h.2.1, h.2.2⟩
  else none

/-- The number at a position. -/
def field (l : List Char) (start width : Nat) : Option Nat :=
  Text.parseDigits ((l.drop start).take width)

/-- Read a time: the numbers at their positions, if what they denote has this text. -/
def Stamp.parse (sep : Char) (l : List Char) : Option Stamp := do
  let date ← Date.ofNumbers (← field l 0 4) (← field l 5 2) (← field l 8 2)
  let time ← Time.ofNumbers (← field l 11 2) (← field l 14 2) (← field l 17 2)
  if Stamp.text ⟨date, time⟩ sep = l then some ⟨date, time⟩ else none

/-- The numbers of a date make that date. -/
theorem Date.ofNumbers_self (d : Date) : Date.ofNumbers d.year d.month d.day = some d :=
  dif_pos ⟨d.month_pos, d.month_le, d.day_pos, d.day_le⟩

/-- The numbers of a time make that time. -/
theorem Time.ofNumbers_self (t : Time) : Time.ofNumbers t.hour t.minute t.second = some t :=
  dif_pos ⟨t.hour_lt, t.minute_lt, t.second_lt⟩

/-- A number of fixed width is found at its position. -/
theorem field_append {w n : Nat} (hw : 0 < w) (hn : n < 10 ^ w) (a b : List Char) :
    field (a ++ (digits w n ++ b)) a.length w = some n := by
  unfold field
  rw [List.drop_left, List.take_left' (length_digits w n), parseDigits_eq_some_iff, length_digits]
  refine ⟨fun hnil => ?_, hn, rfl⟩
  have hlength := length_digits w n
  rw [hnil] at hlength
  exact absurd hlength.symm (Nat.ne_of_gt hw)

namespace Stamp

variable {s : Stamp} {sep : Char} {l : List Char}

/-- What is written is read again. -/
theorem parse_text (h : s.date.year < 10000) (sep : Char) : parse sep (s.text sep) = some s := by
  obtain ⟨date, time⟩ := s
  have hmonth := date.month_le
  have hhour := time.hour_lt
  have hminute := time.minute_lt
  have hsecond := time.second_lt
  have hyear : field (text ⟨date, time⟩ sep) 0 4 = some date.year := by
    simpa [text, dateText] using field_append (by decide) h [] _
  have hmonth : field (text ⟨date, time⟩ sep) 5 2 = some date.month := by
    simpa [text, dateText] using field_append (w := 2) (n := date.month) (by decide) (by omega)
      (digits 4 date.year ++ ['-']) _
  have hday : field (text ⟨date, time⟩ sep) 8 2 = some date.day := by
    simpa [text, dateText] using field_append (by decide) (day_lt_hundred date)
      (digits 4 date.year ++ '-' :: (digits 2 date.month ++ ['-'])) _
  have hhour : field (text ⟨date, time⟩ sep) 11 2 = some time.hour := by
    simpa [text, timeText] using field_append (w := 2) (n := time.hour) (by decide) (by omega)
      (dateText date ++ [sep]) _
  have hminute : field (text ⟨date, time⟩ sep) 14 2 = some time.minute := by
    simpa [text, timeText] using field_append (w := 2) (n := time.minute) (by decide) (by omega)
      (dateText date ++ sep :: (digits 2 time.hour ++ [':'])) _
  have hsecond : field (text ⟨date, time⟩ sep) 17 2 = some time.second := by
    simpa [text, timeText] using field_append (w := 2) (n := time.second) (by decide) (by omega)
      (dateText date ++ sep :: (digits 2 time.hour ++ ':' :: (digits 2 time.minute ++ [':']))) []
  unfold parse
  rw [hyear, hmonth, hday, hhour, hminute, hsecond]
  simp [Date.ofNumbers_self, Time.ofNumbers_self]

/-- What is read has the text of a time. -/
theorem eq_text_of_parse (h : parse sep l = some s) : l = s.text sep := by
  unfold parse at h
  simp only [Option.bind_eq_bind, Option.bind_eq_some_iff] at h
  obtain ⟨year, -, month, -, day, -, date, -, hour, -, minute, -, second, -, time, -, h⟩ := h
  split at h
  · next htext =>
      rw [← Option.some.inj h]
      exact htext.symm
  · contradiction

end Stamp

end Deltaship.Calendar

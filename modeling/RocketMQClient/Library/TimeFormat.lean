import RocketMQClient.Library.Text
import Mathlib.Algebra.Ring.Int.Defs

/-!
# Reading a time with a format

A format is a list of directives: each takes its characters from the front of the input and
sets a field, where a later directive for the same field overrides an earlier one. A field that
the format does not mention keeps its default, out of the start of 1970. `Reading` says so for
numbers with all their digits, and a `TimeLibrary` is any pair of functions that reads times in
that way and turns them into ticks of a clock.

`parseTime` is one such function. In it `%Y` takes all the digits there are and the other
numbers at most two; a field out of its range is an error, and so is a day that the month does
not have. The second 60 is the first of the next minute. White space around the time is skipped
and nothing else may follow it.

A `DateTime` is a time of the form `YYYY-MM-DDThh:mm:ssZ`.
-/

namespace TimeFormat
open Text

def isLeap (year : ℤ) : Bool := year % 4 = 0 ∧ (year % 100 ≠ 0 ∨ year % 400 = 0)

def daysInMonth (year : ℤ) (month : ℕ) : ℕ :=
  if month = 2 then (if isLeap year then 29 else 28)
  else if month ∈ [4, 6, 9, 11] then 30 else 31

def daysBeforeMonth (year : ℤ) : ℕ → ℕ
  | 0 => 0
  | 1 => 0
  | month + 2 => daysBeforeMonth year (month + 1) + daysInMonth year (month + 1)

/-- The leap years from year 1 up to the year before this one; below zero for an earlier year. -/
def leapsBefore (year : ℤ) : ℤ := (year - 1) / 4 - (year - 1) / 100 + (year - 1) / 400

def civilDays (year : ℤ) (month day : ℕ) : ℤ :=
  365 * (year - 1970) + (leapsBefore year - leapsBefore 1970) +
    daysBeforeMonth year month + (day - 1)

def civilSeconds (year : ℤ) (month day hour minute second : ℕ) : ℤ :=
  86400 * civilDays year month day + 3600 * hour + 60 * minute + second

example : civilSeconds 2017 11 1 5 20 1 = 1509513601 := by decide

theorem daysInMonth_le (year : ℤ) (month : ℕ) : daysInMonth year month ≤ 31 := by
  unfold daysInMonth
  split_ifs <;> omega

theorem daysBeforeMonth_le (year : ℤ) (month : ℕ) : daysBeforeMonth year month ≤ 31 * month := by
  induction month using daysBeforeMonth.induct with
  | case1 => exact Nat.zero_le _
  | case2 => exact Nat.zero_le _
  | case3 month ih =>
    have hlast := daysInMonth_le year (month + 1)
    rw [daysBeforeMonth]
    omega

inductive Directive
  | literal (c : Char)
  | year
  | month
  | day
  | hour
  | minute
  | second
  | dateTimeSeparator
  | offset
  deriving DecidableEq

/-- The directives of a format, in which `%ET` is the separator and `%Ez` the offset; there
are none if it has white space or another specifier. -/
def directives : List Char → Option (List Directive)
  | [] => some []
  | '%' :: 'Y' :: format => (directives format).map (.year :: ·)
  | '%' :: 'm' :: format => (directives format).map (.month :: ·)
  | '%' :: 'd' :: format => (directives format).map (.day :: ·)
  | '%' :: 'H' :: format => (directives format).map (.hour :: ·)
  | '%' :: 'M' :: format => (directives format).map (.minute :: ·)
  | '%' :: 'S' :: format => (directives format).map (.second :: ·)
  | '%' :: 'E' :: 'T' :: format => (directives format).map (.dateTimeSeparator :: ·)
  | '%' :: 'E' :: 'z' :: format => (directives format).map (.offset :: ·)
  | c :: format =>
    if c = '%' ∨ isSpace c then none else (directives format).map (.literal c :: ·)

structure Fields where
  year : ℤ := 1970
  month : ℕ := 1
  day : ℕ := 1
  hour : ℕ := 0
  minute : ℕ := 0
  second : ℕ := 0
  offset : ℤ := 0
  deriving DecidableEq, Repr

def Directive.range : Directive → Option (ℕ × ℕ)
  | .month => some (1, 12)
  | .day => some (1, 31)
  | .hour => some (0, 23)
  | .minute => some (0, 59)
  | .second => some (0, 60)
  | _ => none

def Fields.set (f : Fields) (n : ℕ) : Directive → Fields
  | .year => { f with year := n }
  | .month => { f with month := n }
  | .day => { f with day := n }
  | .hour => { f with hour := n }
  | .minute => { f with minute := n }
  | .second => { f with second := n }
  | _ => f

/-- The directives take the characters one after the other and leave the fields, or none if a
number is out of its range. -/
inductive Reading : List Directive → List Char → Fields → Option Fields → Prop
  | nil (f : Fields) : Reading [] [] f (some f)
  | literal {c : Char} {ds : List Directive} {s : List Char} {f : Fields} {r : Option Fields}
      (h : Reading ds s f r) : Reading (.literal c :: ds) (c :: s) f r
  | year {n : ℕ} {ds : List Directive} {c : Char} {s : List Char} {f : Fields} {r : Option Fields}
      (hn : n < 10000) (hc : c.isDigit = false) (h : Reading ds (c :: s) (f.set n .year) r) :
      Reading (.year :: ds) (padded 4 n ++ c :: s) f r
  | number {x : Directive} {low high n : ℕ} {ds : List Directive} {s : List Char} {f : Fields}
      {r : Option Fields} (hrange : x.range = some (low, high)) (hlow : low ≤ n) (hhigh : n ≤ high)
      (h : Reading ds s (f.set n x) r) : Reading (x :: ds) (padded 2 n ++ s) f r
  | outOfRange {x : Directive} {low high n : ℕ} {ds : List Directive} {s : List Char}
      {f : Fields} (hrange : x.range = some (low, high)) (hhigh : high < n) (hn : n < 100) :
      Reading (x :: ds) (padded 2 n ++ s) f none
  | separator {ds : List Directive} {s : List Char} {f : Fields} {r : Option Fields}
      (h : Reading ds s f r) : Reading (.dateTimeSeparator :: ds) ('T' :: s) f r
  | utc {ds : List Directive} {s : List Char} {f : Fields} {r : Option Fields}
      (h : Reading ds s { f with offset := 0 } r) : Reading (.offset :: ds) ('Z' :: s) f r

def Fields.instant (f : Fields) : ℤ :=
  civilSeconds f.year f.month f.day f.hour f.minute f.second - f.offset

/-- The month has the day, and the seconds since 1970 are a 64-bit number. -/
structure Fields.Valid (f : Fields) : Prop where
  day : f.day ≤ daysInMonth f.year f.month
  fits : -2 ^ 63 ≤ f.instant ∧ f.instant < 2 ^ 63

/-- What is documented of `absl::ParseTime` in UTC, `absl::FromUnixSeconds` and
`absl::ToChronoTime`. The clock counts nanoseconds in 64 bits and a time that it does not have
becomes its first or its last one. -/
structure TimeLibrary where
  Time : Type
  fromUnixSeconds : ℤ → Time
  parseTime : List Char → List Char → Option Time
  toChronoTime : Time → ℤ
  parseTime_reading : ∀ {format input : List Char} {ds : List Directive} {r : Option Fields},
    directives format = some ds → Reading ds input {} r →
    (∃ c ∈ input.head?, c.isDigit = true) → (∀ f ∈ r, f.Valid) →
      parseTime format input = r.map fun f => fromUnixSeconds f.instant
  toChronoTime_seconds : ∀ t, toChronoTime (fromUnixSeconds t) =
    max (-2 ^ 63) (min (2 ^ 63 - 1) (t * 10 ^ 9))

def leadingDigits (limit : Option ℕ) (s : List Char) : List Char :=
  match limit with
  | none => s.takeWhile Char.isDigit
  | some width => (s.takeWhile Char.isDigit).take width

/-- A number in a range with what follows it. A limit is one for the characters, the minus
sign included; a negative zero is refused. -/
def parseInt (limit : Option ℕ) (low high : ℤ) (s : List Char) : Option (ℤ × List Char) :=
  let negative := s.head? = some '-'
  let body := if negative then s.tail else s
  let digits := leadingDigits (if negative then limit.map (· - 1) else limit) body
  let v : ℤ := if negative then -(value digits : ℤ) else value digits
  if digits = [] ∨ (negative ∧ v = 0) then none
  else if low ≤ v ∧ v ≤ high then some (v, body.drop digits.length)
  else none

/-- The minutes or the seconds of an offset, after a colon or not. There is no rest if they
are not two digits, but one digit counts in the offset all the same. -/
def offsetPart (s : List Char) : ℤ × Option (List Char) :=
  let body := if s.head? = some ':' then s.tail else s
  match parseInt (some 2) 0 59 body with
  | none => (0, none)
  | some (v, rest) => (v, if body.length = rest.length + 2 then some rest else none)

def parseOffset : List Char → Option (ℤ × List Char)
  | [] => none
  | c :: s =>
    if c = 'Z' ∨ c = 'z' then some (0, s)
    else if c = '+' ∨ c = '-' then
      match parseInt (some 2) 0 23 s with
      | none => none
      | some (hours, rest) =>
        if s.length = rest.length + 2 then
          let minutes := offsetPart rest
          let seconds := (minutes.2.map offsetPart).getD (0, none)
          let offset := (hours * 60 + minutes.1) * 60 + seconds.1
          some (if c = '-' then -offset else offset,
            (seconds.2.or minutes.2).getD rest)
        else none
    else none

def stepNumber (f : Fields) (s : List Char) (x : Directive) : Option (Fields × List Char) :=
  x.range.bind fun bounds =>
    (parseInt (some 2) bounds.1 bounds.2 s).map fun r => (f.set r.1.toNat x, r.2)

def step (read : Fields × List Char) (x : Directive) : Option (Fields × List Char) :=
  let (f, s) := read
  match x with
  | .literal c => if s.head? = some c then some (f, s.tail) else none
  | .year => (parseInt none (-2 ^ 63) (2 ^ 63 - 1) s).map fun r => ({ f with year := r.1 }, r.2)
  | .dateTimeSeparator =>
    if s.head? = some 'T' ∨ s.head? = some 't' then some (f, s.tail) else none
  | .offset => (parseOffset s).map fun r => ({ f with offset := r.1 }, r.2)
  | .month | .day | .hour | .minute | .second => stepNumber f s x

def Fields.toSeconds (f : Fields) : Option ℤ :=
  if daysInMonth f.year f.month < f.day then none
  else if -2 ^ 63 ≤ f.instant ∧ f.instant < 2 ^ 63 then some f.instant else none

inductive Time
  | infinitePast
  | seconds (t : ℤ)
  | infiniteFuture
  deriving DecidableEq, Repr

def Time.toChronoTime : Time → ℤ
  | .infinitePast => -2 ^ 63
  | .seconds t => max (-2 ^ 63) (min (2 ^ 63 - 1) (t * 10 ^ 9))
  | .infiniteFuture => 2 ^ 63 - 1

def isName (name s : List Char) : Bool :=
  name.isPrefixOf s && (s.drop name.length).all isSpace

def parseTime (format input : List Char) : Option Time :=
  let s := input.dropWhile isSpace
  if isName "infinite-future".toList s then some .infiniteFuture
  else if isName "infinite-past".toList s then some .infinitePast
  else do
    let r ← (← directives format).foldlM step ({}, s)
    if r.2.all isSpace then r.1.toSeconds.map .seconds else none

section Number
variable {low high : ℤ}

theorem leadingDigits_append {limit : Option ℕ} {ds rest : List Char} (hds : Digits ds)
    (hend : limit = some ds.length ∨ limit = none ∧ rest.takeWhile Char.isDigit = []) :
    leadingDigits limit (ds ++ rest) = ds := by
  rcases hend with hlimit | ⟨hlimit, hrest⟩
  · rw [hlimit, leadingDigits, List.takeWhile_append_of_pos hds.2]
    exact List.take_left
  · rw [hlimit, leadingDigits, List.takeWhile_append_of_pos hds.2, hrest, List.append_nil]

theorem parseInt_digits {limit : Option ℕ} {ds rest : List Char} (hds : Digits ds)
    (hend : limit = some ds.length ∨ limit = none ∧ rest.takeWhile Char.isDigit = []) :
    parseInt limit low high (ds ++ rest) =
      if low ≤ value ds ∧ value ds ≤ high then some ((value ds : ℤ), rest) else none := by
  have hsign : (ds ++ rest).head? ≠ some '-' := by
    obtain ⟨c, cs, rfl⟩ := List.exists_cons_of_ne_nil hds.1
    intro hc
    have hdigit := hds.2 c (by simp)
    rw [Option.some.inj hc] at hdigit
    exact absurd hdigit (by decide)
  simp only [parseInt, hsign, if_false, leadingDigits_append hds hend, hds.1, false_and,
    or_false, List.drop_left]

end Number

theorem step_year {n : ℕ} (hn : n < 10000) {c : Char} (hc : c.isDigit = false) (f : Fields)
    (s : List Char) :
    step (f, padded 4 n ++ c :: s) .year = some (f.set n .year, c :: s) := by
  have hstop : (c :: s).takeWhile Char.isDigit = [] := by simp [hc]
  rw [step, parseInt_digits (digits_padded (by omega) n) (.inr ⟨rfl, hstop⟩),
    value_padded (by omega), if_pos (by omega)]
  rfl

theorem step_number {x : Directive} {low high n : ℕ} (hrange : x.range = some (low, high))
    (hn : n < 100) (f : Fields) (s : List Char) :
    step (f, padded 2 n ++ s) x =
      if low ≤ n ∧ n ≤ high then some (f.set n x, s) else none := by
  have hparse : parseInt (some 2) low high (padded 2 n ++ s) =
      if low ≤ n ∧ n ≤ high then some ((n : ℤ), s) else none := by
    rw [parseInt_digits (digits_padded (by omega) n) (.inl (by rw [length_padded])),
      value_padded (by omega)]
    exact if_congr (by omega) rfl rfl
  have hstep : step (f, padded 2 n ++ s) x = x.range.bind fun bounds =>
      (parseInt (some 2) bounds.1 bounds.2 (padded 2 n ++ s)).map
        fun r => (f.set r.1.toNat x, r.2) := by
    cases x with
    | literal c => cases hrange
    | year => cases hrange
    | dateTimeSeparator => cases hrange
    | offset => cases hrange
    | _ => rfl
  rw [hstep, hrange, Option.bind_some, hparse]
  split_ifs <;> rfl

theorem range_lt {x : Directive} {low high : ℕ} (h : x.range = some (low, high)) : high < 100 := by
  cases x <;> cases h <;> decide

theorem foldlM_of_reading {ds : List Directive} {s : List Char} {f : Fields} {r : Option Fields}
    (h : Reading ds s f r) : ds.foldlM step (f, s) = r.map fun f' => (f', []) := by
  induction h with
  | nil f => rfl
  | literal _ ih => simpa [step] using ih
  | year hn hc _ ih =>
    rw [List.foldlM_cons, step_year hn hc]
    exact ih
  | number hrange hlow hhigh _ ih =>
    have hn := range_lt hrange
    rw [List.foldlM_cons, step_number hrange (by omega), if_pos ⟨hlow, hhigh⟩]
    exact ih
  | outOfRange hrange hhigh hn =>
    rw [List.foldlM_cons, step_number hrange hn, if_neg (by omega)]
    rfl
  | separator _ ih => simpa [step] using ih
  | utc _ ih => simpa [step, parseOffset] using ih

theorem toSeconds_of_valid {f : Fields} (h : f.Valid) : f.toSeconds = some f.instant := by
  rw [Fields.toSeconds, if_neg (not_lt.mpr h.day), if_pos h.fits]

theorem parseTime_of_digit {format input : List Char} {c : Char} (hhead : c ∈ input.head?)
    (hc : c.isDigit = true) :
    parseTime format input = (directives format).bind fun ds =>
      (ds.foldlM step ({}, input)).bind fun r =>
        if r.2.all isSpace then r.1.toSeconds.map .seconds else none := by
  obtain ⟨s, rfl⟩ : ∃ s, input = c :: s := List.head?_eq_some_iff.mp hhead
  have hspace : (c :: s).dropWhile isSpace = c :: s := by
    rw [List.dropWhile_cons_of_neg]
    simp [isSpace_of_isDigit hc]
  have hname : c ≠ 'i' := by
    rintro rfl
    exact absurd hc (by decide)
  have hfuture : isName "infinite-future".toList (c :: s) = false := by
    simp [isName, hname.symm]
  have hpast : isName "infinite-past".toList (c :: s) = false := by
    simp [isName, hname.symm]
  simp only [parseTime, hspace, hfuture, hpast, Bool.false_eq_true, if_false,
    Option.bind_eq_bind]

def library : TimeLibrary where
  Time := Time
  fromUnixSeconds := .seconds
  parseTime := parseTime
  toChronoTime := Time.toChronoTime
  parseTime_reading := by
    intro format input ds r hformat hreading hdigit hvalid
    obtain ⟨c, hhead, hc⟩ := hdigit
    rw [parseTime_of_digit hhead hc, hformat, Option.bind_some, foldlM_of_reading hreading]
    cases r with
    | none => rfl
    | some f =>
      simp only [Option.map_some, Option.bind_some, List.all_nil, if_true,
        toSeconds_of_valid (hvalid f rfl)]
  toChronoTime_seconds := fun _ => rfl

structure DateTime where
  year : ℕ
  month : ℕ
  day : ℕ
  hour : ℕ
  minute : ℕ
  second : ℕ
  year_lt : year < 10000
  month_range : 1 ≤ month ∧ month ≤ 12
  day_range : 1 ≤ day ∧ day ≤ daysInMonth year month
  hour_lt : hour < 24
  minute_lt : minute < 60
  second_lt : second < 60

namespace DateTime
variable (d : DateTime)

def text : List Char :=
  padded 4 d.year ++ '-' :: (padded 2 d.month ++ '-' :: (padded 2 d.day ++ 'T' ::
    (padded 2 d.hour ++ ':' :: (padded 2 d.minute ++ ':' :: (padded 2 d.second ++ ['Z'])))))

def instant : ℤ := civilSeconds d.year d.month d.day d.hour d.minute d.second

/-- The directives of this form, with any one in the place of the minute. -/
def form (x : Directive) : List Directive :=
  [.year, .literal '-', .month, .literal '-', .day, .dateTimeSeparator, .hour, .literal ':', x,
    .literal ':', .second, .offset]

def fields (hour minute second : ℕ) : Fields where
  year := d.year
  month := d.month
  day := d.day
  hour := hour
  minute := minute
  second := second

def secondsText : List Char := ':' :: (padded 2 d.second ++ ['Z'])

variable {d}

theorem text_head (d : DateTime) : ∃ c ∈ d.text.head?, c.isDigit = true := by
  obtain ⟨rest, htext⟩ : ∃ rest, d.text = padded 4 d.year ++ rest := ⟨_, rfl⟩
  have hdigits : Digits (padded 4 d.year) := digits_padded (by omega) d.year
  obtain ⟨c, cs, hyear⟩ := List.exists_cons_of_ne_nil hdigits.1
  refine ⟨c, ?_, hdigits.2 c (by simp [hyear])⟩
  rw [htext, hyear]
  rfl

theorem reading {x : Directive} {r : Option Fields}
    (h : Reading [x, .literal ':', .second, .offset] (padded 2 d.minute ++ d.secondsText)
      (d.fields d.hour 0 0) r) :
    Reading (form x) d.text {} r := by
  have hmonth := d.month_range
  have hday := d.day_range
  have hlength := daysInMonth_le d.year d.month
  have hhour := d.hour_lt
  refine .year d.year_lt (by decide) (.literal (.number rfl hmonth.1 hmonth.2 (.literal ?_)))
  refine .number rfl hday.1 (by omega) (.separator (.number rfl (by omega) (by omega) ?_))
  exact .literal h

theorem reading_seconds (hour minute : ℕ) :
    Reading [.literal ':', .second, .offset] d.secondsText (d.fields hour minute 0)
      (some (d.fields hour minute d.second)) := by
  have hsecond := d.second_lt
  exact .literal (.number rfl (by omega) (by omega) (.utc (.nil _)))

theorem valid_fields {hour minute : ℕ} (hhour : hour < 24) (hminute : minute < 60) :
    (d.fields hour minute d.second).Valid := by
  have hfirst := d.month_range
  have hlast := d.day_range
  have hlength := daysInMonth_le d.year d.month
  have hbefore := daysBeforeMonth_le d.year d.month
  have hbound := d.year_lt
  have hsecond := d.second_lt
  refine ⟨hlast.2, ?_⟩
  simp only [Fields.instant, fields, civilSeconds, civilDays, leapsBefore]
  omega

theorem parseTime_set (lib : TimeLibrary) {format : List Char} {x : Directive}
    {low high hour minute : ℕ} (hformat : directives format = some (form x))
    (hrange : x.range = some (low, high)) (hlow : low ≤ d.minute) (hhigh : d.minute ≤ high)
    (hset : (d.fields d.hour 0 0).set d.minute x = d.fields hour minute 0)
    (hhour : hour < 24) (hminute : minute < 60) :
    lib.parseTime format d.text = some (lib.fromUnixSeconds
      (civilSeconds d.year d.month d.day hour minute d.second)) := by
  have hreading : Reading (form x) d.text {} (some (d.fields hour minute d.second)) :=
    reading (.number hrange hlow hhigh (hset ▸ reading_seconds hour minute))
  have hvalid : ∀ f ∈ some (d.fields hour minute d.second), f.Valid := by
    intro f hf
    cases hf
    exact valid_fields hhour hminute
  rw [lib.parseTime_reading hformat hreading d.text_head hvalid]
  simp [Fields.instant, fields]

theorem parseTime_outOfRange (lib : TimeLibrary) {format : List Char} {x : Directive}
    {low high : ℕ} (hformat : directives format = some (form x))
    (hrange : x.range = some (low, high)) (hhigh : high < d.minute) :
    lib.parseTime format d.text = none := by
  have hminute := d.minute_lt
  have hreading : Reading (form x) d.text {} none :=
    reading (.outOfRange hrange hhigh (by omega))
  rw [lib.parseTime_reading hformat hreading d.text_head (fun f hf => by cases hf)]
  rfl

end DateTime

end TimeFormat

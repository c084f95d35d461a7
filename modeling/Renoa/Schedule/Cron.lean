import Renoa.Foundation.Fallible
import Renoa.Foundation.Text
import Mathlib

/-!
# Five-field cron expressions

The fields are minute, hour, day of month, month and weekday, each a bit set of the values it
allows. An expression whose minutes are less than five minutes apart is refused. The search walks
over the local dates from that of `now`, resolves every time of a date that runs in the zone, and
takes the least that is after `now`. A time that resolves outside the timestamps fails the whole
search.

Instants and offsets are in milliseconds, and dates are counted from 1 January 1970. A zone is its
first offset and the later ones with the instants they start at.
-/

namespace Renoa.Schedule

open Foundation

/-! ## Text -/

/-- The parts of a text between the separators, of which `current` is read so far. -/
def splitFrom (separator : Char → Bool) (current : List Char) : List Char → List String
  | [] => [String.ofList current]
  | c :: rest =>
    if separator c then String.ofList current :: splitFrom separator [] rest
    else splitFrom separator (current ++ [c]) rest

def splitWhitespace (text : String) : List String :=
  (splitFrom Text.isWhitespace [] text.toList).filter (· ≠ "")

/-- The text in front of the first separator and behind it. -/
def splitOnce (separator : Char) (text : String) : Option (String × String) :=
  let low := text.toList.takeWhile (· ≠ separator)
  match text.toList.dropWhile (· ≠ separator) with
  | [] => none
  | _ :: high => some (String.ofList low, String.ofList high)

/-- Decimal digits with an optional plus sign, below a limit. -/
def parseNat (limit : Nat) (text : String) : Option Nat :=
  let digits := match text.toList with
    | '+' :: rest => rest
    | digits => digits
  if digits ≠ [] ∧ digits.all Char.isDigit then
    some (digits.foldl (fun n c => 10 * n + (c.toNat - '0'.toNat)) 0) |>.filter (· < limit)
  else none

def lowercase (text : String) : List Char := text.toList.map Char.toLower

/-! ## Fields -/

inductive AutomationError where
  | invalid (message : String)
  /-- A date outside the calendar, or an instant outside the timestamps. -/
  | time
deriving DecidableEq

structure Field where
  name : String
  min : Nat
  max : Nat
  /-- Names for the values from `min`, in order. -/
  names : List String
  accepts : String

def minuteField : Field := ⟨"minute", 0, 59, [], "0-59"⟩

def hourField : Field := ⟨"hour", 0, 23, [], "0-23"⟩

def dayField : Field := ⟨"day-of-month", 1, 31, [], "1-31"⟩

def monthField : Field :=
  ⟨"month", 1, 12, ["JAN", "FEB", "MAR", "APR", "MAY", "JUN", "JUL", "AUG", "SEP", "OCT", "NOV",
    "DEC"], "1-12 or JAN-DEC"⟩

def weekdayField : Field :=
  ⟨"weekday", 0, 7, ["SUN", "MON", "TUE", "WED", "THU", "FRI", "SAT"],
    "0-7 or SUN-SAT, where 0 and 7 are Sunday"⟩

def value (text : String) (field : Field) : Except AutomationError Nat :=
  let named := (field.names.findIdx? fun name => lowercase name = lowercase text).map
    (· + field.min)
  require (.invalid
      ("cron " ++ field.name ++ " value \"" ++ text ++ "\" must be " ++ field.accepts))
    (((parseNat (2 ^ 32) text).or named).filter fun value => field.min ≤ value ∧ value ≤ field.max)

/-- The ends of a range. A single value with a step behind it goes on to the field's end. -/
def parseRange (range : String) (stepped : Bool) (field : Field) :
    Except AutomationError (Nat × Nat) :=
  if range = "*" then .ok (field.min, field.max)
  else
    match splitOnce '-' range with
    | some (low, high) => do return (← value low field, ← value high field)
    | none => do
      let single ← value range field
      return (single, if stepped then field.max else single)

/-- The values one item of a field's list allows. -/
def parseItem (item : String) (field : Field) : Except AutomationError (List Nat) := do
  let (range, step) := match splitOnce '/' item with
    | some (range, step) => (range, some step)
    | none => (item, none)
  let (low, high) ← parseRange range step.isSome field
  ensure (low ≤ high)
    (.invalid ("cron " ++ field.name ++ " range \"" ++ range ++
      "\" runs backwards; write the smaller value first"))
  let step ← match step with
    | none => pure 1
    | some text =>
      require (.invalid ("cron " ++ field.name ++ " step \"" ++ text ++
        "\" must be a whole number of at least 1")) ((parseNat (2 ^ 64) text).filter (0 < ·))
  return (List.range' low (high + 1 - low)).filter fun value => (value - low) % step = 0

def parseField (text : String) (field : Field) : Except AutomationError Nat :=
  (splitFrom (· = ',') [] text.toList).foldlM
    (fun set item => do
      return (← parseItem item field).foldl (fun set value => set ||| 1 <<< value) set) 0

/-! ## Expressions -/

/-- A parsed expression. Bit 0 of the weekdays is Sunday. -/
structure Cron where
  minutes : Nat
  hours : Nat
  days : Nat
  months : Nat
  weekdays : Nat
  daysRestricted : Bool
  weekdaysRestricted : Bool
deriving DecidableEq

/-- The values of a set below a limit, in ascending order. -/
def values (set limit : Nat) : List Nat := (List.range limit).filter set.testBit

def minGapMinutes : Nat := 5

/-- No two neighbours are less than five minutes apart. -/
def spaced : List Nat → Bool
  | first :: second :: rest => minGapMinutes ≤ second - first && spaced (second :: rest)
  | _ => true

/-- The minutes of an hour with the first one of the next hour. -/
def wrapped (minutes : List Nat) : List Nat := minutes ++ (minutes.head?.map (· + 60)).toList

def Cron.parse (expression : String) : Except AutomationError Cron := do
  ensure (expression.utf8ByteSize ≤ 128)
    (.invalid "cron expression is too long; use at most 128 characters")
  match splitWhitespace expression with
  | [minute, hour, day, month, weekday] =>
    let weekdays ← parseField weekday weekdayField
    let minutes ← parseField minute minuteField
    let hours ← parseField hour hourField
    let days ← parseField day dayField
    let months ← parseField month monthField
    ensure (spaced (wrapped (values minutes 60)))
      (.invalid ("cron minute field \"" ++ minute ++ "\" runs less than " ++
        toString minGapMinutes ++ " minutes apart; leave at least " ++ toString minGapMinutes ++
        " minutes between runs, e.g. \"*/5\" or \"0,30\""))
    return { minutes, hours, days, months
             weekdays := (weekdays ||| weekdays >>> 7) &&& 0x7f
             daysRestricted := !Text.startsWith "*" day
             weekdaysRestricted := !Text.startsWith "*" weekday }
  | fields =>
    .error (.invalid ("cron expression needs 5 fields \"minute hour day-of-month month weekday" ++
      "\", e.g. \"30 9 * * 1-5\" for 09:30 on weekdays; \"" ++ expression ++ "\" has " ++
      toString fields.length))

/-! ## Dates and zones -/

def minuteMs : Int := 60 * 1000

def hourMs : Int := 60 * minuteMs

def dayMs : Int := 24 * hourMs

/-- The last date, 31 December 9999. -/
def maxDate : Int := 2932896

/-- The month and the day of a date, by the Gregorian calendar in cycles of 400 years that start
in March. -/
def civil (date : Int) : Nat × Nat :=
  let cycle := ((date + 719468) % 146097).toNat
  let year := (cycle - cycle / 1460 + cycle / 36524 - cycle / 146096) / 365
  let day := cycle - (365 * year + year / 4 - year / 100)
  let month := (5 * day + 2) / 153
  (if month < 10 then month + 3 else month - 9, day - (153 * month + 2) / 5 + 1)

/-- The weekday of a date, from Sunday. -/
def weekday (date : Int) : Nat := ((date + 4) % 7).toNat

-- 29 February 2024, a Thursday, and the day after it
example : civil 19782 = (2, 29) ∧ weekday 19782 = 4 ∧ civil 19783 = (3, 1) := by decide

/-- The first instant, on 2 January of the year -9999. -/
def minTimestamp : Int := -377705023201000

/-- The last instant, at ten o'clock in the evening of 30 December 9999. -/
def maxTimestamp : Int := 253402207200999

abbrev Timestamp := Set.Icc minTimestamp maxTimestamp

/-- The largest offset, a second less than 26 hours. -/
def maxOffset : Int := 26 * hourMs - 1000

structure Zone where
  offset : Int
  /-- The later offsets, with the instants they start at. -/
  transitions : List (Int × Int)
  sorted : transitions.Pairwise (·.1 < ·.1) := by decide
  bounded : ∀ other ∈ offset :: transitions.map Prod.snd,
    -maxOffset ≤ other ∧ other ≤ maxOffset := by decide

/-- The offset at an instant, after the transitions up to it. -/
def offsetFrom (offset : Int) (instant : Int) : List (Int × Int) → Int
  | [] => offset
  | (start, next) :: rest => if instant < start then offset else offsetFrom next instant rest

/-- The offset a local time is resolved with. A time that two offsets give takes the first, and a
skipped time the one in front of the gap, so that it runs as far behind the gap. -/
def resolveFrom (offset : Int) (time : Int) : List (Int × Int) → Int
  | [] => offset
  | (start, next) :: rest =>
    if time - offset < start ∨ time - next < start then offset else resolveFrom next time rest

namespace Zone

/-- The local date of an instant. -/
def date (zone : Zone) (instant : Int) : Int :=
  (instant + offsetFrom zone.offset instant zone.transitions) / dayMs

/-- The offset a local time is resolved with. -/
def offsetFor (zone : Zone) (time : Int) : Int := resolveFrom zone.offset time zone.transitions

def resolve (zone : Zone) (time : Int) : Int := time - zone.offsetFor time

/-- The instant of a local time, which has to be a timestamp. -/
def toZoned (zone : Zone) (time : Int) : Except AutomationError Timestamp :=
  let instant := zone.resolve time
  if h : minTimestamp ≤ instant ∧ instant ≤ maxTimestamp then .ok ⟨instant, h⟩ else .error .time

end Zone

/-! ## The search -/

/-- 29 February recurs within eight years. -/
def searchDays : Nat := 8 * 366 + 1

/-- A time of a date, without an offset. -/
def localTime (date : Int) (hour minute : Nat) : Int :=
  date * dayMs + (60 * hour + minute) * minuteMs

namespace Cron

variable (cron : Cron) (zone : Zone)

def runsOn (date : Int) : Bool :=
  let (month, day) := civil date
  let day := cron.days.testBit day
  let weekday := cron.weekdays.testBit (weekday date)
  cron.months.testBit month &&
    if cron.daysRestricted && cron.weekdaysRestricted then day || weekday else day && weekday

/-- The local times of a date, in order. -/
def times (date : Int) : List Int :=
  (values cron.hours 24).flatMap fun hour => (values cron.minutes 60).map (localTime date hour)

/-- The least instant after `now`, starting from the best one so far. -/
def earliest (now : Timestamp) (best : Option Timestamp) (runs : List Timestamp) :
    Option Timestamp :=
  runs.foldl
    (fun best run => if now.val < run.val ∧ best.all (run.val < ·.val) then some run else best) best

/-- The first run of a date after `now`, if it has one. -/
def ofDate (now : Timestamp) (date : Int) : Except AutomationError (Option Timestamp) :=
  if cron.runsOn date then earliest now none <$> (cron.times date).mapM zone.toZoned else .ok none

/-- The search over the dates that are left. -/
def search (now : Timestamp) : Nat → Int → Except AutomationError Timestamp
  | 0, _ =>
    .error (.invalid
      "cron expression never runs; check that its day-of-month exists in its month")
  | left + 1, date => do
    match ← cron.ofDate zone now date with
    | some run => return run
    | none => if date < maxDate then search now left (date + 1) else .error .time

/-- The first run after `now`. -/
def nextAfter (now : Timestamp) : Except AutomationError Timestamp :=
  cron.search zone now searchDays (zone.date now)

end Cron

end Renoa.Schedule

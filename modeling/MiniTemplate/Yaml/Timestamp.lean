import MiniTemplate.Number.Decimal
import MiniTemplate.Text.Quoted
import MiniTemplate.Yaml.Fault

/-!
# Dates and times

A timestamp is a day, or a moment: a day with a time. It is written as `2001-12-14`, or as
`2001-12-14 21:59:43.10 -5`, with several spellings of the second form: a `T` or blanks between
date and time, a fraction or none, and behind it `Z`, a distance from universal time, or
nothing. The last part is the zone of the moment. A moment keeps the date and the time that are
written, and its zone keeps the distance together with the way it is written.

Two moments with a zone are the same if they are so in universal time. Days are counted from
the first day of the year zero for that. A moment without a zone is never the same as one with
a zone.

Microseconds are kept, and a longer fraction is rounded. If it rounds up to a whole second,
the next second is meant.
-/

namespace MiniTemplate.Yaml

/-- A day of the calendar. -/
structure Date where
  year : Nat
  month : Nat
  day : Nat
  deriving DecidableEq, Repr

/-- A time of day. -/
structure TimeOfDay where
  hour : Nat
  minute : Nat
  second : Nat
  microsecond : Nat
  deriving DecidableEq, Repr

/-- A distance from universal time, less than a day either way. -/
structure Zone where
  /-- By how many seconds the zone is ahead. -/
  ahead : Int
  /-- The distance as it is written. -/
  name : String
  deriving DecidableEq, Repr

/-- A day, or a moment of a day. -/
inductive Timestamp where
  | day (date : Date)
  | moment (date : Date) (time : TimeOfDay) (zone : Option Zone)
  deriving DecidableEq, Repr

/-! ### The calendar -/

namespace Date

/-- Has the year 366 days? -/
def isLeap (year : Nat) : Bool := year % 4 == 0 && (year % 100 != 0 || year % 400 == 0)

/-- The number of days of a month. -/
def monthLength (year month : Nat) : Nat :=
  if month = 2 then if isLeap year then 29 else 28
  else if month = 4 ∨ month = 6 ∨ month = 9 ∨ month = 11 then 30
  else 31

/-- Is there such a day? If not, the first part that is out of its range is given. -/
def check (d : Date) : Except StampPart Unit :=
  if d.year = 0 ∨ 9999 < d.year then .error (.year d.year)
  else if d.month = 0 ∨ 12 < d.month then .error .month
  else if d.day = 0 ∨ monthLength d.year d.month < d.day then .error .day
  else .ok ()

/-- The number of days before a year, from the year zero on. -/
def daysBeforeYear (year : Nat) : Nat :=
  365 * year + (year + 3) / 4 - (year + 99) / 100 + (year + 399) / 400

/-- The number of days before a month, in its year. -/
def daysBeforeMonth (year : Nat) : Nat → Nat
  | 0 | 1 => 0
  | month + 1 => daysBeforeMonth year month + monthLength year month

/-- The number of days from the first day of the year zero. -/
def toDays (d : Date) : Nat := daysBeforeYear d.year + daysBeforeMonth d.year d.month + (d.day - 1)

/-- The day after a day. -/
def next (d : Date) : Date :=
  if d.day < monthLength d.year d.month then ⟨d.year, d.month, d.day + 1⟩
  else if d.month < 12 then ⟨d.year, d.month + 1, 1⟩
  else ⟨d.year + 1, 1, 1⟩

end Date

namespace TimeOfDay

/-- Is there such a time? If not, the first part that is out of its range is given. -/
def check (t : TimeOfDay) : Except StampPart Unit :=
  if 23 < t.hour then .error .hour
  else if 59 < t.minute then .error .minute
  else if 59 < t.second then .error .second
  else .ok ()

/-- The seconds of the day before a time. -/
def toSeconds (t : TimeOfDay) : Nat := 3600 * t.hour + 60 * t.minute + t.second

end TimeOfDay

/-- The next second, if it is in the years to 9999. -/
def nextSecond? (d : Date) (t : TimeOfDay) : Option (Date × TimeOfDay) :=
  if t.second < 59 then some (d, ⟨t.hour, t.minute, t.second + 1, t.microsecond⟩)
  else if t.minute < 59 then some (d, ⟨t.hour, t.minute + 1, 0, t.microsecond⟩)
  else if t.hour < 23 then some (d, ⟨t.hour + 1, 0, 0, t.microsecond⟩)
  else if 9999 < d.next.year then none
  else some (d.next, ⟨0, 0, 0, t.microsecond⟩)

/-- The microseconds from the first day of the year zero, in universal time. -/
def instant (d : Date) (t : TimeOfDay) (z : Zone) : Int :=
  (86400 * d.toDays + t.toSeconds - z.ahead) * 1000000 + t.microsecond

/-- Are two timestamps the same? -/
def Timestamp.same : Timestamp → Timestamp → Bool
  | .day d, .day e => d == e
  | .moment d t none, .moment e u none => d == e && t == u
  | .moment d t (some y), .moment e u (some z) => instant d t y == instant e u z
  | _, _ => false

/-! ### Written timestamps -/

/-- The parts of a written zone. -/
inductive WrittenZone where
  /-- Universal time, written as `Z`. -/
  | universal
  /-- A distance: the sign, and the digits of its hours and minutes. The minutes may be
  missing. -/
  | distance (sign : Char) (hours : List Char) (minutes : Option (List Char))

/-- The parts of a written time, each as its digits. -/
structure WrittenTime where
  hour : List Char
  minute : List Char
  second : List Char
  fraction : List Char
  zone : Option WrittenZone

/-- The parts of a written timestamp, each as its digits. -/
structure WrittenStamp where
  year : List Char
  month : List Char
  day : List Char
  time : Option WrittenTime

/-- So many digits at least, and at most: as many as there are, with what follows. -/
def someDigits (least greatest : Nat) (cs : List Char) : Option (List Char × List Char) :=
  let ds := (cs.take greatest).takeWhile Char.isDigit
  if ds.length < least then none else some (ds, cs.drop ds.length)

/-- What follows a character. -/
def behind? (c : Char) : List Char → Option (List Char)
  | d :: cs => if d = c then some cs else none
  | [] => none

/-- The zone at the end of a timestamp, if there is one. -/
def writtenZone? (cs : List Char) : Option (Option WrittenZone) :=
  if cs.isEmpty then some none
  else
    match cs.dropWhile fun c => c == ' ' || c == '\t' with
    | ['Z'] => some (some .universal)
    | sign :: r =>
      if sign = '+' ∨ sign = '-' then do
        let (hours, r) ← someDigits 1 2 r
        if r.isEmpty then some (some (.distance sign hours none))
        else
          let r ← behind? ':' r
          let (minutes, r) ← someDigits 2 2 r
          if r.isEmpty then some (some (.distance sign hours (some minutes))) else none
      else none
    | [] => none

/-- The time behind a date: the separator, and everything after it. -/
def writtenTime? (cs : List Char) : Option WrittenTime := do
  let r ←
    match cs with
    | 'T' :: r | 't' :: r => some r
    | ' ' :: r | '\t' :: r => some (r.dropWhile fun c => c == ' ' || c == '\t')
    | _ => none
  let (hour, r) ← someDigits 1 2 r
  let r ← behind? ':' r
  let (minute, r) ← someDigits 2 2 r
  let r ← behind? ':' r
  let (second, r) ← someDigits 2 2 r
  let (fraction, r) :=
    match r with
    | '.' :: f => (f.takeWhile Char.isDigit, f.dropWhile Char.isDigit)
    | _ => ([], r)
  let zone ← writtenZone? r
  some ⟨hour, minute, second, fraction, zone⟩

/-- The parts of a written timestamp. -/
def writtenStamp? (cs : List Char) : Option WrittenStamp := do
  let (year, r) ← someDigits 4 4 cs
  let r ← behind? '-' r
  let (month, r) ← someDigits 1 2 r
  let r ← behind? '-' r
  let (day, r) ← someDigits 1 2 r
  if r.isEmpty then some ⟨year, month, day, none⟩
  else (writtenTime? r).map fun t => ⟨year, month, day, some t⟩

/-- Does a scalar look like a timestamp? Without a time, month and day have two digits. -/
def looksLikeTimestamp (cs : List Char) : Bool :=
  match writtenStamp? cs with
  | none => false
  | some w => w.time.isSome || (w.month.length == 2 && w.day.length == 2)

/-- The microseconds of a fraction: six digits of it, rounded by the seventh. -/
def microseconds (fraction : List Char) : Nat :=
  let n := Decimal.ofDigitChars (fraction.take 6 ++ List.replicate (6 - fraction.length) '0')
  if (fraction.drop 6).head?.any (fun c => '5' ≤ c) then n + 1 else n

namespace WrittenZone

/-- By how many seconds a written zone is ahead of universal time. -/
def ahead : WrittenZone → Int
  | universal => 0
  | distance sign hours minutes =>
    let seconds : Int :=
      3600 * Decimal.ofDigitChars hours + 60 * Decimal.ofDigitChars (minutes.getD [])
    if sign = '-' then -seconds else seconds

/-- The text of a written zone. -/
def name : WrittenZone → String
  | universal => "Z"
  | distance sign hours none => String.ofList (sign :: hours)
  | distance sign hours (some minutes) => String.ofList (sign :: (hours ++ ':' :: minutes))

/-- The zone of its written parts. -/
def zone (w : WrittenZone) : Except Fault Zone :=
  if w.ahead ≤ -86400 ∨ 86400 ≤ w.ahead then .error (.zoneBeyond w.ahead)
  else .ok ⟨w.ahead, w.name⟩

end WrittenZone

/-- The moment of a date and a time whose microseconds may come up to a second. -/
def roundedMoment (date : Date) (time : TimeOfDay) (zone : Option Zone) : Except Fault Timestamp :=
  let carries := 999999 < time.microsecond
  let time : TimeOfDay :=
    ⟨time.hour, time.minute, time.second, if carries then 0 else time.microsecond⟩
  match date.check, time.check with
  | .error part, _ | .ok (), .error part => .error (.noStamp part)
  | .ok (), .ok () =>
    if carries then
      match nextSecond? date time with
      | some (date, time) => .ok (.moment date time zone)
      | none => .error .stampBeyond
    else .ok (.moment date time zone)

/-- **The timestamp of its written parts.** A zone that is too far from universal time is found
before anything that is wrong with the date or the time. -/
def WrittenStamp.timestamp (w : WrittenStamp) : Except Fault Timestamp :=
  let number := Decimal.ofDigitChars
  let date : Date := ⟨number w.year, number w.month, number w.day⟩
  match w.time with
  | none =>
    match date.check with
    | .error part => .error (.noStamp part)
    | .ok () => .ok (.day date)
  | some t =>
    let time : TimeOfDay :=
      ⟨number t.hour, number t.minute, number t.second, microseconds t.fraction⟩
    match t.zone with
    | none => roundedMoment date time none
    | some z => z.zone.bind fun zone => roundedMoment date time (some zone)

/-! ### Showing a timestamp -/

/-- A number with as many digits as asked for, at least. -/
def padded (width n : Nat) : String :=
  let ds := Decimal.digitChars n
  String.ofList (List.replicate (width - ds.length) '0' ++ ds)

/-- A date by itself. -/
def dateText (d : Date) : String :=
  padded 4 d.year ++ "-" ++ padded 2 d.month ++ "-" ++ padded 2 d.day

/-- A number of seconds as it is shown: the days in it, counted downwards, and the seconds
above them. -/
def displaySeconds (seconds : Int) : String :=
  let days := seconds / 86400
  let rest := seconds % 86400
  let parts :=
    (if days = 0 then [] else ["days=" ++ toString days]) ++
      (if rest = 0 then [] else ["seconds=" ++ toString rest])
  "datetime.timedelta(" ++ (if parts.isEmpty then "0" else ", ".intercalate parts) ++ ")"

namespace Zone

/-- A zone as it is shown: its distance, and how it is written. -/
def display (z : Zone) : String :=
  "datetime.timezone(" ++ displaySeconds z.ahead ++ ", " ++ Text.quoted z.name ++ ")"

/-- The distance of a zone, in hours and minutes. -/
def text (z : Zone) : String :=
  let minutes := z.ahead.natAbs / 60
  (if z.ahead < 0 then "-" else "+") ++ padded 2 (minutes / 60) ++ ":" ++ padded 2 (minutes % 60)

end Zone

namespace Timestamp

/-- A timestamp as it is shown among other values: its parts in order, where seconds and
microseconds are left out if only zeros are left, and the zone at the end. -/
def display : Timestamp → String
  | day d => "datetime.date(" ++ ", ".intercalate ([d.year, d.month, d.day].map toString) ++ ")"
  | moment d t zone =>
    let least := [d.year, d.month, d.day, t.hour, t.minute]
    let parts :=
      if t.microsecond ≠ 0 then least ++ [t.second, t.microsecond]
      else if t.second ≠ 0 then least ++ [t.second]
      else least
    let shown := parts.map toString ++ (zone.map fun z => "tzinfo=" ++ z.display).toList
    "datetime.datetime(" ++ ", ".intercalate shown ++ ")"

/-- A timestamp by itself. -/
def text : Timestamp → String
  | day d => dateText d
  | moment d t zone =>
    dateText d ++ " " ++ padded 2 t.hour ++ ":" ++ padded 2 t.minute ++ ":" ++ padded 2 t.second ++
      (if t.microsecond = 0 then "" else "." ++ padded 6 t.microsecond) ++
      (match zone with
       | some z => z.text
       | none => "")

end Timestamp

end MiniTemplate.Yaml

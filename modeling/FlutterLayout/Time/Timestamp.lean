import FlutterLayout.Text.Basic

/-!
# Timestamps

A timestamp is an instant together with the offset of the clock that showed it.  It is written as a date, a
time of day and the offset, with as many places of a second as it needs.  Two forms are read: the strict
one that is written, and a loose one in which numbers need no leading zeros and the offset, or the whole
time of day, may be missing.
-/

namespace FlutterLayout

/-! ## Instants

An instant is a number of nanoseconds since the beginning of 1970.  A span of time is kept in 64 bits. -/

abbrev Instant := Int

namespace Instant

def second : Int := 1000000000

def hour : Int := 3600 * second

def hours (n : Int) : Int64 :=
  Int64.ofInt (n * hour)

/-- The span behind an instant; one that is too long is cut to the longest. -/
def since (now past : Instant) : Int64 :=
  Int64.ofIntClamp (now - past)

/-! ## Days -/

def daysFromDate (year : Int) (month day : Nat) : Int :=
  let y := if month ≤ 2 then year - 1 else year
  let era := y / 400
  let yearOfEra := y - era * 400
  let dayOfYear : Int := (153 * ((month + 9) % 12) + 2) / 5 + day - 1
  let dayOfEra := yearOfEra * 365 + yearOfEra / 4 - yearOfEra / 100 + dayOfYear
  era * 146097 + dayOfEra - 719468

def dateFromDays (days : Int) : Int × Nat × Nat :=
  let z := days + 719468
  let era := z / 146097
  let dayOfEra := z - era * 146097
  let yearOfEra := (dayOfEra - dayOfEra / 1460 + dayOfEra / 36524 - dayOfEra / 146096) / 365
  let dayOfYear := dayOfEra - (365 * yearOfEra + yearOfEra / 4 - yearOfEra / 100)
  let m := (5 * dayOfYear + 2) / 153
  let day := dayOfYear - (153 * m + 2) / 5 + 1
  let month := if m < 10 then m + 3 else m - 9
  let year := yearOfEra + era * 400 + (if month ≤ 2 then 1 else 0)
  (year, month.toNat, day.toNat)

def isLeap (year : Nat) : Bool :=
  year % 4 = 0 && (year % 100 ≠ 0 || year % 400 = 0)

def daysIn (year month : Nat) : Nat :=
  if month = 2 then (if isLeap year then 29 else 28)
  else if month = 4 || month = 6 || month = 9 || month = 11 then 30
  else 31

def unset : Instant := daysFromDate 1 1 1 * 24 * hour

end Instant

/-! ## Timestamps -/

/-- An instant and the offset of a clock in seconds. -/
structure Timestamp where
  instant : Instant
  offset : Int := 0
  deriving DecidableEq, Repr

namespace Timestamp

def unset : Timestamp := ⟨Instant.unset, 0⟩

/-! ## Writing -/

def digits (width n : Nat) : Text :=
  let t := Text.ofNat n
  List.replicate (width - t.length) (Text.byte '0') ++ t

def places (nanoseconds : Nat) : Text :=
  if nanoseconds = 0 then []
  else "." ++ ((digits 9 nanoseconds).reverse.dropWhile (· = Text.byte '0')).reverse

def reading (t : Timestamp) (between : Text) : Text :=
  let seconds := t.instant / Instant.second + t.offset
  let nanoseconds := (t.instant % Instant.second).toNat
  let ofDay := (seconds % 86400).toNat
  let (year, month, day) := Instant.dateFromDays (seconds / 86400)
  digits 4 year.toNat ++ "-" ++ digits 2 month ++ "-" ++ digits 2 day ++ between ++ digits 2 (ofDay / 3600)
    ++ ":" ++ digits 2 (ofDay / 60 % 60) ++ ":" ++ digits 2 (ofDay % 60) ++ places nanoseconds

def offsetText (t : Timestamp) (between : Text) : Text :=
  let minutes := t.offset.natAbs / 60
  let sign : Text := if t.offset < 0 then "-" else "+"
  sign ++ digits 2 (minutes / 60) ++ between ++ digits 2 (minutes % 60)

def isWritable (t : Timestamp) : Bool :=
  t.offset.natAbs < 86400

def write (t : Timestamp) : Text :=
  let zone : Text := if t.offset = 0 then "Z" else t.offsetText ":"
  t.reading "T" ++ zone

def shown (t : Timestamp) : Text :=
  let zone : Text := if t.offset = 0 then "UTC" else t.offsetText []
  t.reading " " ++ " " ++ t.offsetText [] ++ " " ++ zone

/-! ## Reading -/

/-- Reads a number of two digits, or of one if it needs no leading zero, up to `high`. -/
def number? (isPadded : Bool) (high : Nat) (t : Text) : Option (Nat × Text) :=
  let ds := (t.take 2).takeWhile Text.isAsciiDigit
  let n := ds.foldl (fun n b => 10 * n + (b.toNat - 48)) 0
  if ds.isEmpty || (isPadded && ds.length < 2) || high < n then none else some (n, t.drop ds.length)

def date? (isPadded : Bool) (t : Text) : Option (Int × Text) := do
  let ds := t.take 4
  if ds.length < 4 || !ds.all Text.isAsciiDigit then none
  let year := ds.foldl (fun n b => 10 * n + (b.toNat - 48)) 0
  let t ← Text.after? "-" (t.drop 4)
  let (month, t) ← number? isPadded 12 t
  let t ← Text.after? "-" t
  let (day, t) ← number? isPadded 31 t
  if month = 0 || day = 0 || Instant.daysIn year month < day then none
  else some (Instant.daysFromDate year month day, t)

/-- Reads the places of a second, which may be missing, as nanoseconds.  A comma or a point stands in front
of them. -/
def places? (t : Text) : Nat × Text :=
  match t with
  | [] => (0, [])
  | b :: rest =>
    let ds := rest.takeWhile Text.isAsciiDigit
    if (b = Text.byte '.' || b = Text.byte ',') && !ds.isEmpty then
      let nine := (ds ++ List.replicate 9 (Text.byte '0')).take 9
      (nine.foldl (fun n b => 10 * n + (b.toNat - 48)) 0, rest.drop ds.length)
    else (0, t)

def timeOfDay? (isPadded : Bool) (t : Text) : Option (Int × Text) := do
  let (hours, t) ← number? false 23 t
  let t ← Text.after? ":" t
  let (minutes, t) ← number? isPadded 59 t
  let t ← Text.after? ":" t
  let (seconds, t) ← number? isPadded 59 t
  let (nanoseconds, t) := places? t
  some ((hours * 3600 + minutes * 60 + seconds : Nat) * Instant.second + nanoseconds, t)

def offset? (t : Text) : Option Int :=
  match t with
  | [] => none
  | b :: rest =>
    if b = Text.byte 'Z' then if rest.isEmpty then some 0 else none
    else if b = Text.byte '+' || b = Text.byte '-' then do
      let (hours, rest) ← number? true 24 rest
      let rest ← Text.after? ":" rest
      let (minutes, rest) ← number? true 60 rest
      if rest.isEmpty then
        let seconds : Int := hours * 3600 + minutes * 60
        some (if b = Text.byte '-' then -seconds else seconds)
      else none
    else none

def ofReading (days ofDay offset : Int) : Timestamp :=
  ⟨(days * 86400 - offset) * Instant.second + ofDay, offset⟩

def full? (isPadded : Bool) (between : Text) (t : Text) : Option Timestamp := do
  let (days, t) ← date? isPadded t
  let t ← Text.after? between t
  let (ofDay, t) ← timeOfDay? isPadded t
  let offset ← offset? t
  some (ofReading days ofDay offset)

def read? (t : Text) : Option Timestamp :=
  full? true "T" t

def local? (t : Text) : Option Timestamp := do
  let (days, t) ← date? false t
  let t ← Text.after? " " t
  let (ofDay, t) ← timeOfDay? false (t.dropWhile (· = Text.space))
  if t.isEmpty then some (ofReading days ofDay 0) else none

def dateOnly? (t : Text) : Option Timestamp := do
  let (days, t) ← date? false t
  if t.isEmpty then some (ofReading days 0 0) else none

def readLoose? (t : Text) : Option Timestamp :=
  full? false "T" t <|> full? false "t" t <|> local? t <|> dateOnly? t

end Timestamp

end FlutterLayout

import Census.Toml.Reader
import Census.Toml.Value

/-!
# Reading TOML numbers, dates and truth values

- `wholeNumber`: whole numbers of 64 bits, to base ten, sixteen, eight or two.
- `fraction`: decimal fractions that a 64-bit float can hold, infinity and the like.
- `dateTime`: dates of the calendar and times of the clock.
- `scalar`: whichever of them stands at the front.
-/

namespace Census.Toml

open Reader

/-- Digits after a first one, each perhaps after an underscore. -/
def digitsAfter (isDigit : Char → Bool) : List Char → List Char × List Char
  | '_' :: c :: rest =>
    if isDigit c then push c (digitsAfter isDigit rest) else ([], '_' :: c :: rest)
  | c :: rest => if isDigit c then push c (digitsAfter isDigit rest) else ([], c :: rest)
  | [] => ([], [])

/-- One or more digits with single underscores between them, which do not count. -/
def digits (isDigit : Char → Bool) : Reader (List Char) := do
  let first ← one isDigit
  let others ← fun text => some (digitsAfter isDigit text)
  return first :: others

/-- The number that digits write to a base. -/
def digitsValue (base : Nat) (text : List Char) : Nat :=
  number base (text.filterMap hexDigit?)

/-- A sign in front of a number, whether it is a minus. -/
def sign : Reader Bool := do
  match ← maybe (one fun c => c == '+' || c == '-') with
  | some c => return c == '-'
  | none => return false

/-- The digits of a decimal whole number: no zero stands in front of others. -/
def decimalDigits : Reader (List Char) := fun text =>
  match text with
  | '0' :: rest => some (['0'], rest)
  | _ => digits Char.isDigit text

/-- Whole numbers are those of 64 bits with a sign. -/
def fitsWord (value : Int) : Bool :=
  -9223372036854775808 ≤ value && value ≤ 9223372036854775807

/-- A whole number that fits its size. -/
def bounded (value : Int) : Reader Value :=
  if fitsWord value then return .integer value else failure

/-- A whole number to a base other than ten, after the mark of that base. -/
def markedNumber (mark : String) (base : Nat) (isDigit : Char → Bool) : Reader Value := do
  word mark
  bounded (digitsValue base (← digits isDigit))

/-- A decimal whole number. -/
def decimalNumber : Reader Value := do
  let negative ← sign
  let size : Int := digitsValue 10 (← decimalDigits)
  bounded (if negative then -size else size)

/-- A whole number to any base. -/
def wholeNumber : Reader Value :=
  markedNumber "0x" 16 (fun c => (hexDigit? c).isSome)
    <|> markedNumber "0o" 8 (fun c => '0' ≤ c && c ≤ '7')
    <|> markedNumber "0b" 2 (fun c => c == '0' || c == '1')
    <|> decimalNumber

/-- The least number that rounds to infinity in 64-bit binary floating point: half a unit above the
largest finite one. -/
def overflowBound : Nat := Nat.pow 2 1024 - Nat.pow 2 970

/-- Whether the number that `mantissa` writes, times ten to the `exponent`, is at least
`overflowBound`. The number of digits decides all cases but those next to the bound. -/
def overflows (mantissa : List Char) (exponent : Int) : Bool :=
  let significant := mantissa.dropWhile (· == '0')
  let value := digitsValue 10 significant
  let size := (significant.length : Int) + exponent
  if significant.isEmpty then false
  else if size > 310 then true
  else if size < 300 then false
  else if 0 ≤ exponent then overflowBound ≤ value * Nat.pow 10 exponent.toNat
  else overflowBound * Nat.pow 10 (-exponent).toNat ≤ value

/-- The exponent of a fraction. -/
def exponent : Reader Int := do
  let _ ← one fun c => c == 'e' || c == 'E'
  let negative ← sign
  let size : Int := digitsValue 10 (← digits Char.isDigit)
  return if negative then -size else size

/-- The decimal places of a fraction. -/
def places : Reader (List Char) := do
  char '.'
  digits Char.isDigit

/-- A number with decimal places, an exponent, or both. One too large to be finite is refused if it
is positive. -/
def finiteFraction : Reader Unit := do
  let negative ← sign
  let whole ← decimalDigits
  let decimals ← maybe places
  let power ← maybe exponent
  if decimals.isNone && power.isNone then failure
  let decimals := decimals.getD []
  if !negative && overflows (whole ++ decimals) (power.getD 0 - decimals.length) then failure

/-- Infinity or the undefined number. -/
def specialFraction : Reader Unit := do
  let _ ← sign
  word "inf" <|> word "nan"

/-- A fraction of any kind. -/
def fraction : Reader Value := do
  return .fraction (String.ofList (← written (finiteFraction <|> specialFraction)))

/-- A number of exactly `count` digits that lies between two bounds. -/
def fixedDigits (count low high : Nat) : Reader Nat := fun text =>
  let taken := text.take count
  let value := digitsValue 10 taken
  if taken.length = count && taken.all Char.isDigit && low ≤ value && value ≤ high then
    some (value, text.drop count)
  else none

/-- How many days a month has. -/
def daysIn (year month : Nat) : Nat :=
  if month = 2 then
    if year % 4 = 0 && (year % 100 ≠ 0 || year % 400 = 0) then 29 else 28
  else if month ∈ [4, 6, 9, 11] then 30
  else 31

/-- A day of the calendar. -/
def date : Reader Unit := do
  let year ← fixedDigits 4 0 9999
  char '-'
  let month ← fixedDigits 2 1 12
  char '-'
  let _ ← fixedDigits 2 1 (daysIn year month)

/-- A time of the clock, leap seconds included. -/
def time : Reader Unit := do
  let _ ← fixedDigits 2 0 23
  char ':'
  let _ ← fixedDigits 2 0 59
  char ':'
  let _ ← fixedDigits 2 0 60
  let _ ← maybe do
    char '.'
    let _ ← one Char.isDigit
    skipWhile Char.isDigit

/-- The distance of a time from universal time. -/
def zone : Reader Unit :=
  (do let _ ← one fun c => c == 'Z' || c == 'z')
    <|> do
      let _ ← one fun c => c == '+' || c == '-'
      let _ ← fixedDigits 2 0 23
      char ':'
      let _ ← fixedDigits 2 0 59

/-- A time that follows a day. -/
def timeOfDay : Reader Unit := do
  let _ ← one fun c => c == 'T' || c == 't' || c == ' '
  time
  let _ ← maybe zone

/-- A day, perhaps with a time, or a time alone. -/
def dateTime : Reader Value := do
  let literal ← written ((do date; let _ ← maybe timeOfDay) <|> time)
  return .date (String.ofList literal)

/-- A truth value. -/
def truth : Reader Value :=
  (do word "true"; return .truth true) <|> (do word "false"; return .truth false)

/-- A value without parts that is no string. Longer forms are tried before those they start with. -/
def scalar : Reader Value := dateTime <|> fraction <|> wholeNumber <|> truth

end Census.Toml

import DataGrid.Calendar.Text
import DataGrid.Number.Power
import DataGrid.Text.Blank

/-!
# Patterns for dates and times

A pattern is literal text with directives: a percent sign, an optional padding
(`-` none, `0` zeros, `_` spaces) and a letter. `parse?` reads a pattern into a
list of items and refuses one with an unknown directive, and `format?` writes the
items for the parts that a value has, and refuses an item whose part is missing.
Padding belongs to a single number, so a directive that stands for a whole group
of items takes none.
-/

namespace DataGrid.Calendar.Pattern

open DataGrid.Number DataGrid.Text

/-- How a number fills its width. -/
inductive Padding where
  | none | zero | space
  deriving DecidableEq, Repr

/-- The numbers that a directive can stand for. -/
inductive NumberField where
  | year | century | yearOfCentury | isoYear | isoYearOfCentury | quarter | month | day
  | weekFromSunday | weekFromMonday | isoWeek | daysFromSunday | weekday | ordinal
  | hour | hour12 | minute | second | nano | timestamp
  deriving DecidableEq, Repr

/-- The texts that a directive can stand for. -/
inductive TextField where
  | monthName (short : Bool)
  | weekdayName (short : Bool)
  | halfDay (upper : Bool)
  | fraction
  | fractionDigits (places : Nat) (point : Bool)
  | zoneName
  | offset (style : OffsetStyle)
  | moment
  deriving DecidableEq, Repr

/-- A piece of a pattern. -/
inductive Item where
  | literal (s : List Char)
  | number (field : NumberField) (padding : Padding)
  | text (field : TextField)
  deriving DecidableEq, Repr

private def zeros (field : NumberField) : Item := .number field .zero

private def clockItems : List Item :=
  [zeros .hour, .literal [':'], zeros .minute, .literal [':'], zeros .second]

private def slashDateItems : List Item :=
  [zeros .month, .literal ['/'], zeros .day, .literal ['/'], zeros .yearOfCentury]

/-- The items that a letter stands for. -/
def itemsOf? : Char → Option (List Item)
  | 'A' => some [.text (.weekdayName false)]
  | 'a' => some [.text (.weekdayName true)]
  | 'B' => some [.text (.monthName false)]
  | 'b' | 'h' => some [.text (.monthName true)]
  | 'C' => some [zeros .century]
  | 'c' => some ([.text (.weekdayName true), .literal [' '], .text (.monthName true),
      .literal [' '], .number .day .space, .literal [' ']] ++ clockItems ++
      [.literal [' '], zeros .year])
  | 'D' | 'x' => some slashDateItems
  | 'd' => some [zeros .day]
  | 'e' => some [.number .day .space]
  | 'F' => some [zeros .year, .literal ['-'], zeros .month, .literal ['-'], zeros .day]
  | 'f' => some [zeros .nano]
  | 'G' => some [zeros .isoYear]
  | 'g' => some [zeros .isoYearOfCentury]
  | 'H' => some [zeros .hour]
  | 'I' => some [zeros .hour12]
  | 'j' => some [zeros .ordinal]
  | 'k' => some [.number .hour .space]
  | 'l' => some [.number .hour12 .space]
  | 'M' => some [zeros .minute]
  | 'm' => some [zeros .month]
  | 'n' => some [.literal ['\n']]
  | 'P' => some [.text (.halfDay false)]
  | 'p' => some [.text (.halfDay true)]
  | 'q' => some [.number .quarter .none]
  | 'R' => some [zeros .hour, .literal [':'], zeros .minute]
  | 'r' => some [zeros .hour12, .literal [':'], zeros .minute, .literal [':'], zeros .second,
      .literal [' '], .text (.halfDay true)]
  | 'S' => some [zeros .second]
  | 's' => some [.number .timestamp .none]
  | 'T' | 'X' => some clockItems
  | 't' => some [.literal ['\t']]
  | 'U' => some [zeros .weekFromSunday]
  | 'u' => some [.number .weekday .none]
  | 'V' => some [zeros .isoWeek]
  | 'v' => some [.number .day .space, .literal ['-'], .text (.monthName true), .literal ['-'],
      zeros .year]
  | 'W' => some [zeros .weekFromMonday]
  | 'w' => some [.number .daysFromSunday .none]
  | 'Y' => some [zeros .year]
  | 'y' => some [zeros .yearOfCentury]
  | 'Z' => some [.text .zoneName]
  | 'z' => some [.text (.offset .minutesJoined)]
  | '+' => some [.text .moment]
  | '%' => some [.literal ['%']]
  | _ => none

/-- The directive behind a percent sign, and what follows it. -/
def takeDirective? : List Char → Option (List Item × List Char)
  | '-' :: c :: rest => padded .none c rest
  | '0' :: c :: rest => padded .zero c rest
  | '_' :: c :: rest => padded .space c rest
  | ':' :: ':' :: ':' :: 'z' :: rest => some ([.text (.offset .hours)], rest)
  | ':' :: ':' :: 'z' :: rest => some ([.text (.offset .seconds)], rest)
  | ':' :: 'z' :: rest => some ([.text (.offset .minutes)], rest)
  | '.' :: '3' :: 'f' :: rest => some ([.text (.fractionDigits 3 true)], rest)
  | '.' :: '6' :: 'f' :: rest => some ([.text (.fractionDigits 6 true)], rest)
  | '.' :: '9' :: 'f' :: rest => some ([.text (.fractionDigits 9 true)], rest)
  | '.' :: 'f' :: rest => some ([.text .fraction], rest)
  | '3' :: 'f' :: rest => some ([.text (.fractionDigits 3 false)], rest)
  | '6' :: 'f' :: rest => some ([.text (.fractionDigits 6 false)], rest)
  | '9' :: 'f' :: rest => some ([.text (.fractionDigits 9 false)], rest)
  | c :: rest => (itemsOf? c).map (·, rest)
  | [] => none
where
  /-- A padded directive stands for exactly one number. -/
  padded (padding : Padding) (c : Char) (rest : List Char) : Option (List Item × List Char) :=
    match itemsOf? c with
    | some [.number field _] => some ([.number field padding], rest)
    | _ => none

/-- The items of a pattern. `fuel` is at least the length of the text. -/
private def parseWithin? : (fuel : Nat) → List Char → Option (List Item)
  | _, [] => some []
  | 0, _ :: _ => none
  | fuel + 1, '%' :: rest => do
    let (items, rest) ← takeDirective? rest
    return items ++ (← parseWithin? fuel rest)
  | fuel + 1, c :: rest => do return .literal [c] :: (← parseWithin? fuel rest)

/-- The items of a pattern, unless it has an unknown directive. -/
def parse? (pattern : List Char) : Option (List Item) := parseWithin? pattern.length pattern

/-- The parts of a temporal value that it has. -/
structure Parts where
  date : Option Date := none
  time : Option TimeOfDay := none
  offset : Option Int := none

def monthNames : List String :=
  ["January", "February", "March", "April", "May", "June", "July", "August", "September",
    "October", "November", "December"]

/-- The names of the days of the week, from Monday on. -/
def weekdayNames : List String :=
  ["Monday", "Tuesday", "Wednesday", "Thursday", "Friday", "Saturday", "Sunday"]

private def nameAt (names : List String) (short : Bool) (index : Nat) : List Char :=
  let name := ((names[index]?).getD "").toList
  if short then name.take 3 else name

/-- A number below 256 with two places. -/
private def twoPlaces (padding : Padding) (n : Nat) : List Char :=
  let ones := Char.ofNat (48 + n % 10)
  match n / 10, padding with
  | 0, .none => [ones]
  | 0, .space => [' ', ones]
  | tens, _ => [Char.ofNat (48 + tens), ones]

/-- A number that is not negative, or one with a sign, in `width` places besides the sign. -/
private def places (padding : Padding) (width : Nat) (signed : Bool) (n : Int) : List Char :=
  let sign : List Char := if n < 0 then ['-'] else if signed then ['+'] else []
  let digits := digitsOf n.natAbs
  let width := if signed then width + 1 else width
  match padding with
  | .none => sign ++ digits
  | .zero => sign ++ padStart '0' (width - sign.length) digits
  | .space => padStart ' ' width (sign ++ digits)

private def yearPlaces (padding : Padding) (year : Int) : List Char :=
  places padding 4 (year < 0 || 10000 ≤ year) year

/-- The week of the year when weeks start `daysSince` days ago. -/
private def weekFrom (d : Date) (daysSince : Nat) : Nat := (d.ordinal + 6 - daysSince) / 7

/-- The hour on a clock of twelve hours. -/
def hour12 (t : TimeOfDay) : Nat := if t.hour % 12 = 0 then 12 else t.hour % 12

private def dateNumber? (d : Date) (padding : Padding) : NumberField → Option (List Char)
  | .year => some (yearPlaces padding d.year)
  | .century => some (twoPlaces padding (d.year / 100 % 256).toNat)
  | .yearOfCentury => some (twoPlaces padding (d.year % 100).toNat)
  | .isoYear => some (yearPlaces padding d.isoWeek.1)
  | .isoYearOfCentury => some (twoPlaces padding (d.isoWeek.1 % 100).toNat)
  | .quarter => some (digitsOf ((d.month - 1) / 3 + 1))
  | .month => some (twoPlaces padding d.month)
  | .day => some (twoPlaces padding d.day)
  | .weekFromSunday => some (twoPlaces padding (weekFrom d d.daysFromSunday))
  | .weekFromMonday => some (twoPlaces padding (weekFrom d d.daysFromMonday))
  | .isoWeek => some (twoPlaces padding d.isoWeek.2)
  | .daysFromSunday => some (digitsOf d.daysFromSunday)
  | .weekday => some (digitsOf (d.daysFromMonday + 1))
  | .ordinal => some (places padding 3 false d.ordinal)
  | _ => none

private def timeNumber? (t : TimeOfDay) (padding : Padding) : NumberField → Option (List Char)
  | .hour => some (twoPlaces padding t.hour)
  | .hour12 => some (twoPlaces padding (hour12 t))
  | .minute => some (twoPlaces padding t.minute)
  | .second => some (twoPlaces padding t.secondOfMinute)
  | .nano => some (places padding 9 false t.fraction)
  | _ => none

/-- A number of a value. A timestamp reads a clock without an offset as universal time. -/
def number? (parts : Parts) (field : NumberField) (padding : Padding) : Option (List Char) :=
  (parts.date.bind fun d => dateNumber? d padding field)
    <|> (parts.time.bind fun t => timeNumber? t padding field)
    <|> match field, parts.date, parts.time with
      | .timestamp, some d, some t =>
        let seconds := LocalDateTime.epochSecond ⟨d, t⟩ - parts.offset.getD 0
        some (places padding 9 false seconds)
      | _, _, _ => none

/-- A text of a value. -/
def text? (parts : Parts) : TextField → Option (List Char)
  | .monthName short => parts.date.map fun d => nameAt monthNames short (d.month - 1)
  | .weekdayName short => parts.date.map fun d => nameAt weekdayNames short d.daysFromMonday
  | .halfDay upper => parts.time.map fun t =>
      let name := if t.hour < 12 then "am".toList else "pm".toList
      if upper then name.map Char.toUpper else name
  | .fraction => parts.time.map fun t => fractionChars t.fraction
  | .fractionDigits count point => parts.time.map fun t =>
      let digits := paddedDigits count (t.fraction / tenTo (9 - count))
      if point then '.' :: digits else digits
  | .zoneName => parts.offset.map (offsetChars .minutes)
  | .offset style => parts.offset.map (offsetChars style)
  | .moment => match parts.date, parts.time, parts.offset with
      | some d, some t, some offset => some (OffsetDateTime.chars ⟨⟨d, t⟩, offset⟩)
      | _, _, _ => none

def item? (parts : Parts) : Item → Option (List Char)
  | .literal s => some s
  | .number field padding => number? parts field padding
  | .text field => text? parts field

/-- The text of a value under a pattern, unless the pattern has an unknown directive or asks
for a part that the value does not have. -/
def format? (parts : Parts) (pattern : List Char) : Option (List Char) := do
  let items ← parse? pattern
  return (← items.mapM (item? parts)).flatten

end DataGrid.Calendar.Pattern

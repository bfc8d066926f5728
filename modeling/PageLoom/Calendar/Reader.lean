import PageLoom.Calendar.Instant
import PageLoom.Text.Blank
import PageLoom.Text.Digits

/-!
# Reading dates — the written forms of an instant

    Five written forms are understood, tried in order: a count of seconds,
    the internet timestamp `2024-03-05T14:07:09Z`, the mail date
    `Tue, 05 Mar 2024 14:07:09 +0000`, and `2024-03-05` with or without a
    time.  Stored timestamps have a form of their own, a lenient variant of
    the internet timestamp.  Each form is read into a `Stamp`, and
    `Stamp.instant?` checks the parts and places them on the calendar.
-/

namespace PageLoom

/-- The parts of a written date and time. -/
structure Stamp where
  year : Int
  month : Nat
  day : Nat
  hour : Nat := 0
  minute : Nat := 0
  second : Nat := 0
  nanos : Nat := 0
  /-- seconds ahead of UTC -/
  offset : Int := 0
  weekday : Option Nat := none

/-- The instant of a stamp.  A second of 60 is the leap second of its minute;
    a weekday must be the one of the date. -/
def Stamp.instant? (s : Stamp) : Option Instant :=
  let date : Date := ⟨s.year, s.month, s.day⟩
  let n := date.dayNumber
  if !date.isValid || 23 < s.hour || 59 < s.minute || 60 < s.second
      || s.offset ≤ -86400 || 86400 ≤ s.offset then none
  else if (s.weekday.getD (Date.weekday n)) != Date.weekday n then none
  else
    let second := if s.second = 60 then 59 else s.second
    let nanos := if s.second = 60 then s.nanos + 1000000000 else s.nanos
    let wall : Int := n * 86400 + (s.hour * 3600 + s.minute * 60 + second : Nat)
    let seconds := wall - s.offset
    if seconds < Instant.firstSecond || Instant.lastSecond < seconds then none
    else some ⟨seconds, nanos⟩

namespace Stamp

open Text

/-! ## Parts -/

/-- A number of at least `least` and at most `most` digits, taking as many as
    there are.  Numbers of more than 63 bits are refused. -/
def number (least most : Nat) (cs : List Char) : Option (Nat × List Char) :=
  let digits := (cs.take most).takeWhile Char.isDigit
  let n := decimalValue digits
  if digits.length < least || digits.isEmpty || Nat.pow 2 63 ≤ n then none
  else some (n, cs.drop digits.length)

/-- One given character. -/
def mark (x : Char) : List Char → Option (List Char)
  | [] => none
  | c :: cs => if c = x then some cs else none

/-- At least one white space. -/
def gap (cs : List Char) : Option (List Char) :=
  let rest := trimStart cs
  if rest.length < cs.length then some rest else none

/-- The fraction of a second after its point: up to nine digits count, further
    digits are skipped. -/
def fraction (cs : List Char) : Option (Nat × List Char) := do
  let (n, rest) ← number 1 9 cs
  let width := cs.length - rest.length
  return (n * Nat.pow 10 (9 - width), rest.dropWhile Char.isDigit)

/-- A fraction of a second with its point, if there is one. -/
def optionalFraction (cs : List Char) : Option (Nat × List Char) :=
  match cs with
  | '.' :: rest => fraction rest
  | _ => some (0, cs)

/-- Hours and minutes ahead of UTC.  `between` reads what may stand between
    hours and minutes; `longMinus` admits the mathematical minus sign. -/
def offsetDigits (between : List Char → Option (List Char)) (longMinus : Bool)
    (cs : List Char) : Option (Int × List Char) := do
  let (negative, rest) ←
    match cs with
    | '+' :: rest => some (false, rest)
    | '-' :: rest => some (true, rest)
    | '−' :: rest => if longMinus then some (true, rest) else none
    | _ => none
  let (hours, rest) ← number 2 2 rest
  let rest ← between rest
  let (minutes, rest) ← number 2 2 rest
  if 59 < minutes then none
  else
    let seconds : Int := (hours * 3600 + minutes * 60 : Nat)
    return (if negative then -seconds else seconds, rest)

/-- Hours and minutes ahead of UTC, or the letter `Z`. -/
def offsetOrZulu (between : List Char → Option (List Char)) (cs : List Char) :
    Option (Int × List Char) :=
  match cs with
  | 'Z' :: rest => some (0, rest)
  | 'z' :: rest => some (0, rest)
  | _ => offsetDigits between true cs

/-- A year with an explicit sign, or of up to four digits. -/
def signedYear (cs : List Char) : Option (Int × List Char) :=
  match cs with
  | '-' :: rest => (number 1 rest.length rest).map fun (n, rest) => (-(n : Int), rest)
  | '+' :: rest => (number 1 rest.length rest).map fun (n, rest) => ((n : Int), rest)
  | _ => (number 1 4 cs).map fun (n, rest) => ((n : Int), rest)

/-- The separator of date and time: a `T` of either case or a space. -/
def dateEnd : List Char → Option (List Char)
  | 'T' :: rest => some rest
  | 't' :: rest => some rest
  | ' ' :: rest => some rest
  | _ => none

/-- A name of three letters in any case; its place in the list. -/
def shortName (names : List String) (cs : List Char) : Option (Nat × List Char) := do
  let found := lowerLetters (cs.take 3)
  let place ← (names.map fun name => lowerLetters (name.toList.take 3)).idxOf? found
  return (place, cs.drop 3)
where
  /-- ASCII letters in lower case -/
  lowerLetters (cs : List Char) : List Char := cs.map Char.toLower

/-! ## Forms -/

/-- The internet timestamp, with all digits in place. -/
def internet (cs : List Char) : Option Stamp := do
  let (year, cs) ← number 4 4 cs
  let (month, cs) ← number 2 2 (← mark '-' cs)
  let (day, cs) ← number 2 2 (← mark '-' cs)
  let (hour, cs) ← number 2 2 (← dateEnd cs)
  let (minute, cs) ← number 2 2 (← mark ':' cs)
  let (second, cs) ← number 2 2 (← mark ':' cs)
  let (nanos, cs) ← optionalFraction cs
  let (offset, cs) ← offsetOrZulu (mark ':') cs
  if cs.isEmpty then some { year, month, day, hour, minute, second, nanos, offset } else none

/-- A date of the form year, month, day.  White space may stand before each
    number, and before each dash where `loose` says so. -/
def dashedDate (loose : Bool) (cs : List Char) : Option (Int × Nat × Nat × List Char) := do
  let skip := fun cs => if loose then trimStart cs else cs
  let (year, cs) ← signedYear (trimStart cs)
  let (month, cs) ← number 1 2 (trimStart (← mark '-' (skip cs)))
  let (day, cs) ← number 1 2 (trimStart (← mark '-' (skip cs)))
  return (year, month, day, cs)

/-- A time of the form hours, minutes, seconds; white space as for dates. -/
def colonTime (loose : Bool) (cs : List Char) : Option (Nat × Nat × Nat × List Char) := do
  let skip := fun cs => if loose then trimStart cs else cs
  let (hour, cs) ← number 1 2 (trimStart cs)
  let (minute, cs) ← number 1 2 (trimStart (← mark ':' (skip cs)))
  let (second, cs) ← number 1 2 (trimStart (← mark ':' (skip cs)))
  return (hour, minute, second, cs)

/-- Date and time separated by any white space. -/
def dateAndTime (cs : List Char) : Option Stamp := do
  let (year, month, day, cs) ← dashedDate false cs
  let (hour, minute, second, cs) ← colonTime false (trimStart cs)
  if cs.isEmpty then some { year, month, day, hour, minute, second } else none

/-- A date alone. -/
def dateOnly (cs : List Char) : Option Stamp := do
  let (year, month, day, cs) ← dashedDate false cs
  if cs.isEmpty then some { year, month, day } else none

/-- The name of an offset, in lower case. -/
def offsetName? (name : List Char) : Option Int :=
  match String.ofList name with
  | "gmt" => some 0
  | "ut" => some 0
  | "z" => some 0
  | "edt" => some (-4 * 3600)
  | "est" => some (-5 * 3600)
  | "cdt" => some (-5 * 3600)
  | "cst" => some (-6 * 3600)
  | "mdt" => some (-6 * 3600)
  | "mst" => some (-7 * 3600)
  | "pdt" => some (-7 * 3600)
  | "pst" => some (-8 * 3600)
  | _ =>
      match name with
      | [c] => if c == 'j' then none else some 0
      | _ => none

/-- The offset of a mail date: a name or four digits with a sign. -/
def mailOffset (cs : List Char) : Option (Int × List Char) :=
  let name := cs.takeWhile Char.isAlpha
  if name.isEmpty then offsetDigits some false cs
  else (offsetName? (name.map Char.toLower)).map (·, cs.dropWhile Char.isAlpha)

/-- A two-digit year from 0 to 49 lies in this century, other years of two or
    three digits count from 1900. -/
def mailYear (width year : Nat) : Nat :=
  if width = 2 && year ≤ 49 then year + 2000
  else if width = 2 || width = 3 then year + 1900
  else year

/-- What follows a comment in parentheses, which nest; a backslash takes the
    next character along.  `depth` parentheses are open. -/
def afterComment : Nat → List Char → Option (List Char)
  | _, [] => none
  | 0, c :: cs => if c = '(' then afterComment 1 cs else none
  | depth + 1, '\\' :: _ :: cs => afterComment (depth + 1) cs
  | depth + 1, c :: cs =>
      if c = '(' then afterComment (depth + 2) cs
      else if c = ')' then
        match depth with
        | 0 => some cs
        | depth + 1 => afterComment (depth + 1) cs
      else afterComment (depth + 1) cs

/-- The text after all comments; `fuel` bounds their number. -/
def skipComments : Nat → List Char → List Char
  | 0, cs => cs
  | fuel + 1, cs =>
      match afterComment 0 (trimStart cs) with
      | some rest => skipComments fuel rest
      | none => cs

/-- The weekday that may stand before a mail date. -/
def mailWeekday (cs : List Char) : Option (Option Nat × List Char) :=
  match shortName Date.weekdayNames cs with
  | none => some (none, cs)
  | some (weekday, rest) => (mark ',' rest).map (some weekday, ·)

/-- The seconds that may end the time of a mail date. -/
def mailSecond (cs : List Char) : Option (Nat × List Char) :=
  match mark ':' (trimStart cs) with
  | none => some (0, cs)
  | some rest => number 2 2 rest

/-- The mail date. -/
def mail (cs : List Char) : Option Stamp := do
  let (weekday, cs) ← mailWeekday (trimStart cs)
  let (day, cs) ← number 1 2 (trimStart cs)
  let (month, cs) ← shortName Date.monthNames (← gap cs)
  let cs ← gap cs
  let (year, rest) ← number 2 cs.length cs
  let year := mailYear (cs.length - rest.length) year
  let (hour, cs) ← number 2 2 (← gap rest)
  let (minute, cs) ← number 2 2 (trimStart (← mark ':' (trimStart cs)))
  let (second, cs) ← mailSecond cs
  let (offset, cs) ← mailOffset (← gap cs)
  if (skipComments cs.length cs).isEmpty then
    some { year, month := month + 1, day, hour, minute, second, offset, weekday }
  else none

/-- The offset of a stored timestamp: `Z`, `UTC`, or digits with any colons
    and white space between hours and minutes. -/
def storedOffset (cs : List Char) : Option (Int × List Char) :=
  if (cs.take 3).map Char.toLower == ['u', 't', 'c'] then some (0, cs.drop 3)
  else offsetOrZulu (fun cs => some (cs.dropWhile fun c => c == ':' || isBlank c)) cs

/-- The stored timestamp: the internet timestamp with white space and short
    numbers allowed. -/
def stored (cs : List Char) : Option Stamp := do
  let (year, month, day, cs) ← dashedDate true cs
  let (hour, minute, second, cs) ← colonTime true (← dateEnd cs)
  let (nanos, cs) ← optionalFraction cs
  let (offset, cs) ← storedOffset (trimStart cs)
  if (trimStart cs).isEmpty then
    some { year, month, day, hour, minute, second, nanos, offset }
  else none

/-- A count of seconds with an optional sign, of 64 bits. -/
def seconds? (cs : List Char) : Option Int := do
  let (negative, digits) :=
    match cs with
    | '-' :: rest => (true, rest)
    | '+' :: rest => (false, rest)
    | _ => (false, cs)
  let n ← decimal? digits
  if negative then (if n ≤ Nat.pow 2 63 then some (-(n : Int)) else none)
  else if n < Nat.pow 2 63 then some n else none

end Stamp

namespace Instant

/-- The first form that reads to an instant. -/
def firstOf (forms : List (List Char → Option Stamp)) (cs : List Char) : Option Instant :=
  forms.findSome? fun form => (form cs).bind Stamp.instant?

/-- **Reading dates**: the instant that a text denotes in one of the five
    forms, white space around it ignored. -/
def read? (text : String) : Option Instant :=
  let cs := Text.trim text.toList
  if cs.isEmpty then none
  else
    match Stamp.seconds? cs with
    | some seconds => ofTimestamp? seconds 0
    | none => firstOf [Stamp.internet, Stamp.mail, Stamp.dateAndTime, Stamp.dateOnly] cs

/-- The instant of a stored timestamp. -/
def ofStored? (text : String) : Option Instant :=
  (Stamp.stored text.toList).bind Stamp.instant?

end Instant

end PageLoom

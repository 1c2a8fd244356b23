/-!
# TOML dates and times

Dates, times of day and both together, of which only the form is checked: no setting takes one, but
a list may hold some behind the items that count. A date is one of the Gregorian calendar, carried
back to the year 0; a minute may have a leap second.
-/

namespace PeerCall.Toml

/-- A number of so many digits at the front, within bounds. -/
def takeNumber (width least greatest : Nat) (cs : List Char) : Option (Nat × List Char) :=
  let digits := cs.take width
  let n := digits.foldl (fun n c => n * 10 + (c.toNat - '0'.toNat)) 0
  if digits.length = width && digits.all Char.isDigit && least ≤ n && n ≤ greatest then
    some (n, cs.drop width)
  else none

/-- Behind a mark at the front. -/
def behindMark? (mark : Char) : List Char → Option (List Char)
  | c :: rest => if c = mark then some rest else none
  | [] => none

/-- Whether a year has a 29th of February. -/
def isLeapYear (year : Nat) : Bool := year % 4 = 0 && (year % 100 ≠ 0 || year % 400 = 0)

/-- How many days a month has. -/
def daysInMonth (year month : Nat) : Nat :=
  match month with
  | 2 => if isLeapYear year then 29 else 28
  | 4 | 6 | 9 | 11 => 30
  | _ => 31

/-- Behind a date such as `1979-05-27`. -/
def takeDate (cs : List Char) : Option (List Char) := do
  let (year, cs) ← takeNumber 4 0 9999 cs
  let (month, cs) ← takeNumber 2 1 12 (← behindMark? '-' cs)
  let (_, cs) ← takeNumber 2 1 (daysInMonth year month) (← behindMark? '-' cs)
  some cs

/-- Behind digits that follow a point, if there are any: the fraction of a second. -/
def behindSecondFraction (cs : List Char) : List Char :=
  match cs with
  | '.' :: rest =>
    let digits := rest.takeWhile Char.isDigit
    if digits.isEmpty then cs else rest.drop digits.length
  | cs => cs

/-- Behind a time of day such as `07:32:00.25`. -/
def takeTime (cs : List Char) : Option (List Char) := do
  let (_, cs) ← takeNumber 2 0 23 cs
  let (_, cs) ← takeNumber 2 0 59 (← behindMark? ':' cs)
  let (_, cs) ← takeNumber 2 0 60 (← behindMark? ':' cs)
  some (behindSecondFraction cs)

/-- Behind the offset of a time zone: `Z`, or hours and minutes with a sign. -/
def takeOffset : List Char → Option (List Char)
  | c :: rest =>
    if c = 'Z' || c = 'z' then some rest
    else if c = '+' || c = '-' then do
      let (_, cs) ← takeNumber 2 0 23 rest
      let (_, cs) ← takeNumber 2 0 59 (← behindMark? ':' cs)
      some cs
    else none
  | [] => none

/-- Behind a time of day that follows a date, with its offset if it has one. A blank may part it
from the date in place of the letter. -/
def takeTimeOfDate : List Char → Option (List Char)
  | c :: rest =>
    if c = 'T' || c = 't' || c = ' ' then
      (takeTime rest).map fun cs => (takeOffset cs).getD cs
    else none
  | [] => none

/-- Behind a date, a time of day, or a date with a time of day. Only the last may have an offset. -/
def takeMoment (cs : List Char) : Option (List Char) :=
  match takeDate cs with
  | some rest => some ((takeTimeOfDate rest).getD rest)
  | none => takeTime cs

end PeerCall.Toml

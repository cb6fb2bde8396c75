import Floorplan.Toml.Text

/-!
# Floorplan.Toml.Moment

Dates and times in TOML documents: a date, a time of day, or both with an offset from universal time
or without one. No document of this library holds any, so a moment is checked and not kept.
-/

namespace Floorplan
namespace Toml
namespace Moment

def number? (count : Nat) (cs : List Char) : Found Nat :=
  let digits := cs.take count
  if digits.length = count && digits.all Char.isDigit then
    some (Nat.ofDigitChars 10 digits 0, cs.drop count)
  else none

/-- Two numbers of two digits, with a mark between them. -/
def pair? (mark : Char) (cs : List Char) : Found (Nat × Nat) :=
  match number? 2 cs with
  | some (a, c :: rest) =>
    if c == mark then (number? 2 rest).map fun (b, rest) => ((a, b), rest) else none
  | _ => none

def isLeap (year : Nat) : Bool := year % 4 == 0 && (year % 100 != 0 || year % 400 == 0)

def days (year month : Nat) : Nat :=
  match month with
  | 2 => if isLeap year then 29 else 28
  | 4 | 6 | 9 | 11 => 30
  | _ => 31

def afterDate? (cs : List Char) : Option (List Char) :=
  match number? 4 cs with
  | some (year, '-' :: rest) =>
    match pair? '-' rest with
    | some ((month, day), rest) =>
      if 1 ≤ month && month ≤ 12 && 1 ≤ day && day ≤ days year month then some rest else none
    | none => none
  | _ => none

/-- What follows the part of a second, if there is one. -/
def afterFraction? : List Char → Option (List Char)
  | '.' :: rest =>
    if rest.head?.any Char.isDigit then some (rest.dropWhile Char.isDigit) else none
  | cs => some cs

/-- What follows a time of day. The second may be left out, and may be a leap second. -/
def afterTime? (cs : List Char) : Option (List Char) :=
  match pair? ':' cs with
  | some ((hour, minute), rest) =>
    if 23 < hour || 59 < minute then none
    else
      match rest with
      | ':' :: rest =>
        match number? 2 rest with
        | some (second, rest) => if 60 < second then none else afterFraction? rest
        | none => none
      | rest => some rest
  | none => none

/-- Whether a text is an offset from universal time, or empty. -/
def isOffset : List Char → Bool
  | [] => true
  | c :: rest =>
    if c == 'Z' || c == 'z' then rest.isEmpty
    else if c == '+' || c == '-' then
      match pair? ':' rest with
      | some ((hour, minute), rest) => hour ≤ 23 && minute ≤ 59 && rest.isEmpty
      | none => false
    else false

end Moment

def isDate (cs : List Char) : Bool := Moment.afterDate? cs == some []

def isMoment (cs : List Char) : Bool :=
  match Moment.afterDate? cs with
  | some [] => true
  | some (c :: rest) =>
    (c == 'T' || c == 't' || c == ' ') && (Moment.afterTime? rest).any Moment.isOffset
  | none => Moment.afterTime? cs == some []

end Toml
end Floorplan

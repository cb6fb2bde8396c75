import Floorplan.Toml.Names

/-!
# Floorplan.Toml

TOML documents: lines of `key = value` and headers of tables, with arrays and inline tables among the
values. A document is read as a whole, and then gives what its keys of one name are bound to. Texts
and numbers are kept; a value of another kind is `Value.other`, since no document of this library has
a use for one.
-/

namespace Floorplan
namespace Toml

/-- Key and value at the top of a document. -/
abbrev Item := String × Value

/-- How deep brackets may be nested, and of how many names a key may be. -/
def nestingLimit : Nat := 80

/-! ### Keys -/

def isBareKeyChar (c : Char) : Bool := c.isAlphanum || c == '_' || c == '-'

/-- One name of a key, bare or in quotes. -/
def name? (cs : List Char) : Found String :=
  match cs with
  | [] => none
  | c :: rest =>
    let quoted : Found (List Char) :=
      if c == quote then basicText rest else if c == apostrophe then literalText rest else none
    match quoted with
    | some (name, rest) => some (String.ofList name, rest)
    | none =>
      if isBareKeyChar c then
        some (String.ofList (cs.takeWhile isBareKeyChar), cs.dropWhile isBareKeyChar)
      else none

/-- A key of no more than `limit` names with points between them, and what follows the blanks behind
it. -/
def keyUpTo? : Nat → List Char → Found Path
  | 0, _ => none
  | limit + 1, cs =>
    match name? (skipGap cs) with
    | none => none
    | some (name, rest) =>
      match skipGap rest with
      | '.' :: rest => (keyUpTo? limit rest).map fun (names, rest) => (name :: names, rest)
      | rest => some ([name], rest)

def key? (cs : List Char) : Found Path := keyUpTo? nestingLimit cs

/-! ### Values -/

/-- A reader of values, for those of one line or within one bracket. -/
abbrev ValueReader := List Char → Found Value

/-- The characters that end a value which is neither in quotes nor in brackets. -/
def isDelimiter (c : Char) : Bool := "=,[]\x7b\x7d \t#\r\n".toList.contains c

/-- The characters of a value that is neither in quotes nor in brackets. They have one blank in them
if it stands between a date and a time. -/
def splitScalar (cs : List Char) : List Char × List Char :=
  let run := cs.takeWhile (!isDelimiter ·)
  let rest := cs.drop run.length
  match rest with
  | ' ' :: c :: tail =>
    if c.isDigit && isDate run then
      let time := (c :: tail).takeWhile (!isDelimiter ·)
      (run ++ ' ' :: time, (c :: tail).drop time.length)
    else (run, rest)
  | _ => (run, rest)

def plainValue? : ValueReader := fun cs =>
  match text? cs with
  | some (text, rest) => some (.text (String.ofList text), rest)
  | none =>
    let (scalar, rest) := splitScalar cs
    (scalar? scalar).map (·, rest)

def pair? (value? : ValueReader) (cs : List Char) : Found (Path × Value) :=
  match key? cs with
  | some (key, '=' :: rest) =>
    (value? (skipGap rest)).map fun (value, rest) => ((key, value), rest)
  | _ => none

/-- What follows an array, from behind its bracket or a comma in it. It has no more than `limit`
elements. -/
def afterArray? (value? : ValueReader) : Nat → List Char → Option (List Char)
  | 0, _ => none
  | limit + 1, cs =>
    match skipSpace false cs with
    | ']' :: rest => some rest
    | cs =>
      match value? cs with
      | none => none
      | some (_, rest) =>
        match skipSpace false rest with
        | ']' :: rest => some rest
        | ',' :: rest => afterArray? value? limit rest
        | _ => none

/-- What follows an inline table in which `names` are bound, from behind its bracket or a comma in
it. It has no more than `limit` keys. -/
def afterTable? (value? : ValueReader) : Nat → Names → List Char → Option (List Char)
  | 0, _, _ => none
  | limit + 1, names, cs =>
    match skipSpace false cs with
    | '}' :: rest => some rest
    | cs =>
      match pair? value? cs with
      | none => none
      | some ((key, value), rest) =>
        match names.bind [] key value with
        | none => none
        | some names =>
          match skipSpace false rest with
          | '}' :: rest => some rest
          | ',' :: rest => afterTable? value? limit names rest
          | _ => none

/-- A value within which brackets are nested up to a depth. No bracket holds more than `limit`
values. -/
def valueUpTo? (limit : Nat) : Nat → ValueReader
  | 0 => plainValue?
  | depth + 1 => fun cs =>
    match cs with
    | '[' :: rest => (afterArray? (valueUpTo? limit depth) limit rest).map (.other, ·)
    | '{' :: rest => (afterTable? (valueUpTo? limit depth) limit [] rest).map (.other, ·)
    | cs => plainValue? cs

/-! ### Lines -/

/-- What a line does to the names of a document: a header says where the keys behind it go. -/
inductive Line where
  | pair (key : Path) (value : Value)
  | table (path : Path)
  | row (path : Path)
  deriving DecidableEq

def line? (value? : ValueReader) (cs : List Char) : Found Line :=
  match cs with
  | '[' :: '[' :: rest =>
    match key? rest with
    | some (path, ']' :: ']' :: rest) => (restOfLine? rest).map (.row path, ·)
    | _ => none
  | '[' :: rest =>
    match key? rest with
    | some (path, ']' :: rest) => (restOfLine? rest).map (.table path, ·)
    | _ => none
  | cs =>
    match pair? value? cs with
    | some ((key, value), rest) => (restOfLine? rest).map (.pair key value, ·)
    | none => none

/-- The table that keys are bound in, and the names as they are with one line more. -/
def Names.take (base : Path) (names : Names) : Line → Option (Path × Names)
  | .pair key value => (names.bind base key value).map (base, ·)
  | .table path => (names.openTable path).map (path, ·)
  | .row path => (names.openRow path).map (path, ·)

/-- The names that the lines of a document bind, of which there are no more than `limit`. -/
def names? (value? : ValueReader) : Nat → Path → Names → List Char → Option Names
  | 0, _, _, _ => none
  | limit + 1, base, names, cs =>
    match skipSpace false cs with
    | [] => some names
    | cs =>
      match line? value? cs with
      | none => none
      | some (line, rest) =>
        match names.take base line with
        | none => none
        | some (base, names) => names? value? limit base names rest

/-- What the names at the top of a document are bound to, if the document is well formed. A mark of
byte order may stand in front. -/
def parse? (document : String) : Option (List Item) :=
  let cs := match document.toList with
    | '\ufeff' :: rest => rest
    | cs => cs
  let limit := cs.length + 1
  (names? (valueUpTo? limit nestingLimit) limit [] [] cs).map Names.top

end Toml
end Floorplan

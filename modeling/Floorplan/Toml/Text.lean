/-!
# Floorplan.Toml.Text

What TOML documents are spelled with: blanks, line ends, comments, and texts in their four forms. A
reader takes what it knows off the front of the characters and leaves the rest.
-/

namespace Floorplan
namespace Toml

/-- What a reader finds, and what follows it. -/
abbrev Found (α : Type) := Option (α × List Char)

def quote : Char := '\x22'
def apostrophe : Char := '\x27'
def backslash : Char := '\x5c'

/-! ### Characters -/

def isGap (c : Char) : Bool := c == ' ' || c == '\t'

/-- The characters that may stand in texts and comments as they are. -/
def isPlain (c : Char) : Bool := c == '\t' || (0x20 ≤ c.toNat && c.toNat != 0x7F)

def skipGap (cs : List Char) : List Char := cs.dropWhile isGap

/-- What follows the end of a line, if the line ends here. -/
def lineEnd? : List Char → Option (List Char)
  | [] => some []
  | '\n' :: rest => some rest
  | '\r' :: '\n' :: rest => some rest
  | _ => none

/-- What follows blanks, line ends and comments. A comment lasts to the end of its line. -/
def skipSpace (inComment : Bool) : List Char → List Char
  | [] => []
  | c :: rest =>
    if c == '\n' || c == '\r' && rest.head? == some '\n' then skipSpace false rest
    else if inComment && isPlain c then skipSpace true rest
    else if !inComment && isGap c then skipSpace false rest
    else if !inComment && c == '#' then skipSpace true rest
    else c :: rest

/-- What follows a line of which blanks and a comment are left. -/
def restOfLine? (cs : List Char) : Option (List Char) :=
  match skipGap cs with
  | '#' :: comment => lineEnd? (comment.dropWhile isPlain)
  | cs => lineEnd? cs

/-! ### Texts -/

def hexDigit? (c : Char) : Option Nat :=
  if c.isDigit then some (c.toNat - '0'.toNat)
  else if 'a' ≤ c && c ≤ 'f' then some (c.toNat - 'a'.toNat + 10)
  else if 'A' ≤ c && c ≤ 'F' then some (c.toNat - 'A'.toNat + 10)
  else none

def numbered? (digits : List Char) : Option Char :=
  match digits.mapM hexDigit? with
  | none => none
  | some values =>
    let n := values.foldl (fun n d => 16 * n + d) 0
    if n.isValidChar then some (Char.ofNat n) else none

/-- The character that a letter stands for behind a backslash. -/
def escaped? (c : Char) : Option Char :=
  match c with
  | 'b' => some '\x08'
  | 't' => some '\t'
  | 'n' => some '\n'
  | 'f' => some '\x0c'
  | 'r' => some '\r'
  | 'e' => some '\x1b'
  | c => if c == quote || c == backslash then some c else none

def withChar (c : Char) : Found (List Char) → Found (List Char)
  | some (cs, rest) => some (c :: cs, rest)
  | none => none

/-- Puts the character of an escape in front of what a reader finds behind it. -/
def withEscape (c : Option Char) (found : Found (List Char)) : Found (List Char) :=
  match c with
  | some c => withChar c found
  | none => none

/-- A text in double quotes, from behind the first. -/
def basicText : List Char → Found (List Char)
  | [] => none
  | c :: rest =>
    if c == quote then some ([], rest)
    else if c == backslash then
      match rest with
      | 'x' :: a :: b :: rest => withEscape (numbered? [a, b]) (basicText rest)
      | 'u' :: a :: b :: c :: d :: rest => withEscape (numbered? [a, b, c, d]) (basicText rest)
      | 'U' :: a :: b :: c :: d :: e :: f :: g :: h :: rest =>
        withEscape (numbered? [a, b, c, d, e, f, g, h]) (basicText rest)
      | c :: rest => withEscape (escaped? c) (basicText rest)
      | [] => none
    else if isPlain c then withChar c (basicText rest)
    else none

/-- A text in single quotes, from behind the first. -/
def literalText : List Char → Found (List Char)
  | [] => none
  | c :: rest =>
    if c == apostrophe then some ([], rest)
    else if isPlain c then withChar c (literalText rest)
    else none

/-- Three marks in a row close a long text; up to two more before them belong to it. -/
def closing? (mark : Char) (cs : List Char) : Found (List Char) :=
  let run := (cs.takeWhile (· == mark)).length
  if run < 3 then none
  else some (List.replicate (min (run - 3) 2) mark, cs.drop (min run 5))

/-- What a backslash at the end of a line leaves out: the rest of its line, then all blanks and
line ends before the next character. -/
inductive Fold where
  | none
  | line
  | blank
  deriving DecidableEq

/-- A long text in double quotes, from behind the first three. -/
def longText (fold : Fold) : List Char → Found (List Char)
  | [] => .none
  | c :: rest =>
    if fold == .line then
      if isGap c || c == '\r' && rest.head? == some '\n' then longText .line rest
      else if c == '\n' then longText .blank rest
      else .none
    else if fold == .blank && (isGap c || c == '\n' || c == '\r' && rest.head? == some '\n') then
      longText .blank rest
    else if c == quote then
      match closing? quote (c :: rest) with
      | some found => some found
      | .none => withChar c (longText .none rest)
    else if c == backslash then
      match rest with
      | 'x' :: a :: b :: rest => withEscape (numbered? [a, b]) (longText .none rest)
      | 'u' :: a :: b :: c :: d :: rest =>
        withEscape (numbered? [a, b, c, d]) (longText .none rest)
      | 'U' :: a :: b :: c :: d :: e :: f :: g :: h :: rest =>
        withEscape (numbered? [a, b, c, d, e, f, g, h]) (longText .none rest)
      | '\n' :: rest => longText .blank rest
      | '\r' :: rest => if rest.head? == some '\n' then longText .line rest else .none
      | c :: rest =>
        if isGap c then longText .line rest else withEscape (escaped? c) (longText .none rest)
      | [] => .none
    else if isPlain c || c == '\n' || c == '\r' && rest.head? == some '\n' then
      withChar c (longText .none rest)
    else .none

/-- A long text in single quotes, from behind the first three. -/
def longLiteralText : List Char → Found (List Char)
  | [] => none
  | c :: rest =>
    if c == apostrophe then
      match closing? apostrophe (c :: rest) with
      | some found => some found
      | none => withChar c (longLiteralText rest)
    else if isPlain c || c == '\n' || c == '\r' && rest.head? == some '\n' then
      withChar c (longLiteralText rest)
    else none

/-- A line end right behind the opening of a long text does not belong to it. -/
def skipFirstLineEnd : List Char → List Char
  | '\n' :: rest => rest
  | '\r' :: '\n' :: rest => rest
  | cs => cs

/-- The text of a value, if one starts here. -/
def text? (cs : List Char) : Found (List Char) :=
  match cs with
  | a :: b :: c :: rest =>
    if a == quote then
      if b == quote && c == quote then longText .none (skipFirstLineEnd rest)
      else basicText (b :: c :: rest)
    else if a == apostrophe then
      if b == apostrophe && c == apostrophe then longLiteralText (skipFirstLineEnd rest)
      else literalText (b :: c :: rest)
    else none
  | a :: rest =>
    if a == quote then basicText rest
    else if a == apostrophe then literalText rest
    else none
  | [] => none

end Toml
end Floorplan

import Floorplan.Text.Blank

/-!
# Floorplan.Script.Words

Splits a line into words as a command shell does. Blanks divide words. Single quotes keep what is
between them as it is; double quotes do too, but for an escaped quote or backslash; outside of
quotes a backslash keeps any character. The scanner is a fold over the line: `step` takes one
character, and `finish` says whether a quote is still open.
-/

namespace Floorplan
namespace Words

inductive Quoting where
  | bare
  | escaped
  | single
  | double
  | doubleEscaped
  deriving DecidableEq

/-- The words that are complete, the one that is begun, and the quoting it is in. A word can be
begun and still be empty. -/
structure Scan where
  words : List String
  word : Option String
  quoting : Quoting
  deriving DecidableEq

def singleQuote : Char := '\x27'
def doubleQuote : Char := '\x22'
def backslash : Char := '\x5c'

namespace Scan

def start : Scan := ⟨[], none, .bare⟩

def enter (s : Scan) (quoting : Quoting) : Scan :=
  { s with word := some (s.word.getD ""), quoting }

def put (s : Scan) (c : Char) (quoting : Quoting) : Scan :=
  { s with word := some ((s.word.getD "").push c), quoting }

def endWord (s : Scan) : Scan :=
  { s with words := s.words ++ s.word.toList, word := none }

def step (s : Scan) (c : Char) : Scan :=
  match s.quoting with
  | .bare =>
    if isBlank c then s.endWord
    else if c = singleQuote then s.enter .single
    else if c = doubleQuote then s.enter .double
    else if c = backslash then s.enter .escaped
    else s.put c .bare
  | .escaped => s.put c .bare
  | .single => if c = singleQuote then s.enter .bare else s.put c .single
  | .double =>
    if c = doubleQuote then s.enter .bare
    else if c = backslash then s.enter .doubleEscaped
    else s.put c .double
  | .doubleEscaped =>
    if c = doubleQuote ∨ c = backslash then s.put c .double
    else (s.put backslash .double).put c .double

/-- The words of a line that ends here, or the quote that is open. -/
def finish (s : Scan) : Except Char (List String) :=
  match s.quoting with
  | .single => .error singleQuote
  | .double | .doubleEscaped => .error doubleQuote
  | .bare | .escaped => .ok s.endWord.words

end Scan

structure UnclosedQuote where
  quote : Char
  line : String
  deriving DecidableEq

def UnclosedQuote.message (e : UnclosedQuote) : String :=
  "unterminated " ++ e.quote.toString ++ " quote in `" ++ e.line ++ "`"

def split (line : String) : Except UnclosedQuote (List String) :=
  match (line.toList.foldl Scan.step .start).finish with
  | .ok words => .ok words
  | .error quote => .error ⟨quote, line⟩

end Words
end Floorplan

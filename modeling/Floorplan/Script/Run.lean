import Floorplan.Script.Object

/-!
# Floorplan.Script.Run

Runs scripts against a draft. A script is read line by line and word by word; `=` is no word. A line
of less than two words that is no keyword goes on with the next one, so a value can stand below
its key. The mode carries over from one script to the next, so a block can be split over several
texts. All reading is done by two folds, of `Line.step` over the words of a line and of `Run.step`
over the lines of a text.
-/

namespace Floorplan
namespace Script

inductive Mode where
  | global
  | unique
  | object (kind : Option String) (fields : Fields)
  | adjust
  deriving DecidableEq

inductive Keyword where
  | object
  | unique
  | adjust
  | «end»
  deriving DecidableEq

namespace Keyword

def text : Keyword → String
  | object => "object"
  | unique => "unique"
  | adjust => "adjust"
  | «end» => "end"

def ofText? (text : String) : Option Keyword :=
  [object, unique, adjust, «end»].find? fun keyword => keyword.text == text

end Keyword

/-! ### Statements -/

def append (old new : String) : String :=
  if old = "" then new else old ++ " " ++ new

def setHeight (d : Draft) (key value : String) (set : Heights → Decimal → Heights) : Draft :=
  match Decimal.parse value with
  | .ok x => { d with heights := set d.heights x }
  | .error _ => d.report (.malformed (.invalidValue key value))

/-- A setting outside of all blocks. -/
def setting (d : Draft) (key value : String) : Draft :=
  match key with
  | "wa" => setHeight d key value fun h x => { h with lift := x }
  | "wallHeight" => setHeight d key value fun h x => { h with wall := x }
  | "baseHeight" => setHeight d key value fun h x => { h with base := x }
  | "designer" => { d with level := { d.level with author := value } }
  | "information" => { d with level := { d.level with tagline := append d.level.tagline value } }
  | "description" =>
    { d with level := { d.level with description := append d.level.description value } }
  | _ => d.report (.malformed (.unknownSetting key))

/-- A setting of an `adjust` block: a color of the sky or of the ground. -/
def adjustment (d : Draft) (key value : String) : Draft :=
  match Color.parse value with
  | .error cause => d.report (.malformed (.notColor key cause))
  | .ok color =>
    let sky := d.level.sky.getD .standard
    match key with
    | "skyColor" => { d with level := { d.level with sky := some { sky with color } } }
    | "horizonColor" =>
      { d with level := { d.level with sky := some { sky with horizon := color } } }
    | "groundColor" => { d with level := { d.level with ground := some ⟨color⟩ } }
    | _ => d.report (.malformed (.unknownAdjustment key))

/-! ### Words of a line -/

/-- A line as far as it is read: the mode, a key that waits for its value, and the draft. -/
structure Line where
  mode : Mode
  key : Option String
  draft : Draft
  deriving DecidableEq

namespace Line

def dropKey (l : Line) : Line :=
  match l.key with
  | none => l
  | some key => { l with key := none, draft := l.draft.report (.malformed (.noValue key)) }

/-- Opens a block, or complains that there is none to close. -/
def enter (l : Line) : Keyword → Line
  | .object => { l with mode := .object none .empty }
  | .unique => { l with mode := .unique }
  | .adjust => { l with mode := .adjust }
  | .end => { l with draft := l.draft.report (.malformed (.outsideBlock Keyword.end.text)) }

def close (l : Line) : Line :=
  let draft := match l.mode with
    | .object (some kind) fields => Object.close kind fields l.draft
    | .object none _ => l.draft.report (.malformed .untypedObject)
    | _ => l.draft
  { l with mode := .global, draft }

/-- A word that is a key, or else the value of the key that waits. -/
def pair (l : Line) (word : String) (use : Line → String → Line) : Line :=
  match l.key with
  | none => { l with key := some word }
  | some key => use { l with key := none } key

def stepGlobal (l : Line) (word : String) : Line :=
  match l.key, Keyword.ofText? word with
  | none, some keyword => l.enter keyword
  | _, _ => l.pair word fun l key => { l with draft := setting l.draft key word }

def stepInside (l : Line) (word : String) : Line :=
  match l.mode with
  | .object none fields => { l with mode := .object (some word) fields }
  | .object kind fields =>
    l.pair word fun l key => { l with mode := .object kind (fields.add key word) }
  | .adjust => l.pair word fun l key => { l with draft := adjustment l.draft key word }
  | _ => l

/-- Reads one word. Within a block the word `end` closes it wherever it stands. -/
def step (l : Line) (word : String) : Line :=
  if l.mode = .global then l.stepGlobal word
  else if word = Keyword.end.text then l.dropKey.close
  else l.stepInside word

end Line

def line (mode : Mode) (draft : Draft) (words : List String) : Mode × Draft :=
  let l := (words.foldl Line.step ⟨mode, none, draft⟩).dropKey
  (l.mode, l.draft)

/-! ### Lines of a text -/

/-- A text as far as it is read: the mode, the words of a line that is too short to end yet, and
the draft. -/
structure Run where
  mode : Mode
  held : List String
  draft : Draft
  deriving DecidableEq

def isWhole (mode : Mode) (words : List String) : Bool :=
  match mode, words with
  | .unique, _ => true
  | _, [] => false
  | _, [word] => (Keyword.ofText? word).isSome
  | _, _ => true

namespace Run

def flush (r : Run) : Run :=
  let (mode, draft) := line r.mode r.draft r.held
  ⟨mode, [], draft⟩

/-- Adds the words of one line, and reads all that are held if they make a logical line. -/
def feed (r : Run) (words : List String) : Run :=
  let r := { r with held := r.held ++ words }
  if isWhole r.mode r.held then r.flush else r

/-- Takes one line. A line with an open quote is reported and left out. -/
def step (r : Run) : Except Words.UnclosedQuote (List String) → Run
  | .ok words => r.feed words
  | .error quote => { r with draft := r.draft.report (.malformed (.unclosedQuote quote)) }

end Run

/-- The words of a line that count. -/
def words (text : String) : Except Words.UnclosedQuote (List String) :=
  match Words.split text with
  | .ok words => .ok (words.filter (· != "="))
  | .error quote => .error quote

/-- The lines of a text, each ended by a carriage return or a line feed. -/
def lines (text : String) : List String :=
  (text.toList.splitOnP fun c => c == '\r' || c == '\n').map String.ofList

/-- Runs a text and gives back the mode that it leaves. -/
def run (mode : Mode) (text : String) (draft : Draft) : Mode × Draft :=
  let r := (((lines text).map words).foldl Run.step ⟨mode, [], draft⟩).flush
  (r.mode, r.draft)

/-- Reports a block that is open where the scripts end, and leaves it. -/
def finish (mode : Mode) (draft : Draft) : Mode × Draft :=
  match mode with
  | .global | .unique => (.global, draft)
  | .object kind _ => (.global, draft.report (.malformed (.openObject (kind.getD ""))))
  | .adjust => (.global, draft.report (.malformed .openAdjust))

end Script
end Floorplan

import Mathlib.Data.List.DropRight
import Floorplan.Conversion
import Floorplan.Proofs.Drawing

/-!
# Floorplan.Proofs.Heights

The heights that blocks are raised by, from the history of a conversion. The history has the valid
statements that set a height and the blocks that were raised, in the order in which they came, and a
`Course` is a history in which every block was raised to the heights then in force. Words, lines and
operations each follow a course, and along one the heights in force are those last set, the lift
only if no block was raised since (`Course.inForce`).
-/

namespace Floorplan

/-- What bears on the heights of blocks: a statement that sets one, or a block that is raised. -/
inductive HeightEvent where
  | wall (x : Decimal)
  | base (x : Decimal)
  | lift (x : Decimal)
  | raised (b : Block)
  deriving DecidableEq

namespace HeightEvent

def wall? : HeightEvent → Option Decimal
  | wall x => some x
  | _ => none

def base? : HeightEvent → Option Decimal
  | base x => some x
  | _ => none

def lift? : HeightEvent → Option Decimal
  | lift x => some x
  | _ => none

def isRaised : HeightEvent → Bool
  | raised _ => true
  | _ => false

/-- The wall height that was set last, or else the one at the start. -/
def lastWall (start : Decimal) (history : List HeightEvent) : Decimal :=
  (history.filterMap wall?).getLast?.getD start

/-- The height of the floor that was set last, or else the one at the start. -/
def lastBase (start : Decimal) (history : List HeightEvent) : Decimal :=
  (history.filterMap base?).getLast?.getD start

/-- The lift that was set last since a block was raised, or else none. -/
def lastLift (history : List HeightEvent) : Decimal :=
  ((history.rtakeWhile fun event => !event.isRaised).filterMap lift?).getLast?.getD 0

/-- What an event makes of the heights in force. A block is raised to them and uses up the lift. -/
inductive Turns (h : Heights) : HeightEvent → Heights → Prop where
  | wall (x : Decimal) : Turns h (.wall x) { h with wall := x }
  | base (x : Decimal) : Turns h (.base x) { h with base := x }
  | lift (x : Decimal) : Turns h (.lift x) { h with lift := x }
  | raised {b : Block} : b.size.y = h.wall → b.center.y = h.base + h.lift + h.wall.half →
    Turns h (.raised b) { h with lift := 0 }

end HeightEvent

open HeightEvent

/-- From the first heights events lead to the second ones, one behind another. -/
inductive Course : Heights → List HeightEvent → Heights → Prop where
  | nil {h : Heights} : Course h [] h
  | cons {h i j : Heights} {event : HeightEvent} {events : List HeightEvent} :
    event.Turns h i → Course i events j → Course h (event :: events) j

namespace Course

variable {h i j : Heights} {event : HeightEvent} {events later : List HeightEvent}

theorem single (hevent : event.Turns h i) : Course h [event] i := .cons hevent .nil

theorem append (h₁ : Course h events i) (h₂ : Course i later j) :
    Course h (events ++ later) j := by
  induction h₁ with
  | nil => exact h₂
  | cons hevent _ ih => exact .cons hevent (ih h₂)

theorem of_append (hcourse : Course h (events ++ later) j) :
    ∃ i, Course h events i ∧ Course i later j := by
  induction events generalizing h with
  | nil => exact ⟨h, .nil, hcourse⟩
  | cons event events ih =>
    cases hcourse with
    | cons hevent hrest =>
      obtain ⟨i, hevents, hlater⟩ := ih hrest
      exact ⟨i, .cons hevent hevents, hlater⟩

theorem eq_of_nil (hcourse : Course h [] i) : i = h := by
  cases hcourse
  rfl

/-- The heights at the end of a course are told by its events. -/
theorem inForce (hcourse : Course h events i) (hlift : h.lift = 0) :
    i = ⟨lastWall h.wall events, lastBase h.base events, lastLift events⟩ := by
  -- from the right, where what was set last stands
  induction events using List.reverseRecOn generalizing i with
  | nil =>
    cases hcourse
    rw [lastLift, List.rtakeWhile_nil]
    exact congrArg (Heights.mk h.wall h.base) hlift
  | append_singleton events event ih =>
    obtain ⟨j, hbefore, hlast⟩ := hcourse.of_append
    have hj := ih hbefore
    subst hj
    cases hlast with
    | cons hevent hnil =>
      cases hnil
      cases hevent with
      | wall x => simp [lastWall, lastBase, lastLift, wall?, base?, lift?, isRaised]
      | base x => simp [lastWall, lastBase, lastLift, wall?, base?, lift?, isRaised]
      | lift x => simp [lastWall, lastBase, lastLift, wall?, base?, lift?, isRaised]
      | raised hsize hcenter =>
        simp [lastWall, lastBase, lastLift, wall?, base?, isRaised]

end Course

/-! ### Folds -/

/-- What happens along a fold: what each step brings about where it finds the state. -/
def chronicle {σ α ε : Type} (step : σ → α → σ) (brings : σ → α → List ε) (s : σ) (as : List α) :
    List ε :=
  ((as.scanl step s).zip as).flatMap fun found => brings found.1 found.2

/-- Steps that follow courses make a fold that does. -/
theorem Course.fold {σ α : Type} {step : σ → α → σ} {brings : σ → α → List HeightEvent}
    {heights : σ → Heights} (hstep : ∀ s a, Course (heights s) (brings s a) (heights (step s a)))
    (s : σ) (as : List α) :
    Course (heights s) (chronicle step brings s as) (heights (as.foldl step s)) := by
  induction as generalizing s with
  | nil => exact .nil
  | cons a as ih =>
    rw [chronicle, List.scanl_cons, List.zip_cons_cons, List.flatMap_cons, List.foldl_cons]
    exact (hstep s a).append (ih (step s a))

/-! ### Scripts -/

namespace Script

/-- What a statement sets, if it sets a height and its value is valid. -/
def heightEvent? (key value : String) : Option HeightEvent :=
  match key with
  | "wa" => (Decimal.parse value).toOption.map .lift
  | "wallHeight" => (Decimal.parse value).toOption.map .wall
  | "baseHeight" => (Decimal.parse value).toOption.map .base
  | _ => none

/-- The statement that a word completes: outside of all blocks, the key that waits takes it for its
value. -/
def Line.statement? (l : Line) (word : String) : Option (String × String) :=
  if l.mode = .global then l.key.map fun key => (key, word) else none

def Line.heightEvents (l : Line) (word : String) : List HeightEvent :=
  ((l.statement? word).bind fun statement => heightEvent? statement.1 statement.2).toList

def Run.flushEvents (r : Run) : List HeightEvent :=
  chronicle Line.step Line.heightEvents ⟨r.mode, none, r.draft⟩ r.held

def Run.heightEvents (r : Run) : Except Words.UnclosedQuote (List String) → List HeightEvent
  | .ok words =>
    let r := { r with held := r.held ++ words }
    if isWhole r.mode r.held then r.flushEvents else []
  | .error _ => []

/-- The events of a text that is run. -/
def heightEvents (mode : Mode) (text : String) (d : Draft) : List HeightEvent :=
  let said := (lines text).map words
  chronicle Run.step Run.heightEvents ⟨mode, [], d⟩ said ++
    (said.foldl Run.step ⟨mode, [], d⟩).flushEvents

theorem course_setHeight (d : Draft) (key value : String) {set : Heights → Decimal → Heights}
    {event : Decimal → HeightEvent} (hturns : ∀ x, (event x).Turns d.heights (set d.heights x)) :
    Course d.heights ((Decimal.parse value).toOption.map event).toList
      (setHeight d key value set).heights := by
  unfold setHeight
  cases Decimal.parse value with
  | error e => exact .nil
  | ok x => exact .single (hturns x)

theorem course_setting (d : Draft) (key value : String) :
    Course d.heights (heightEvent? key value).toList (setting d key value).heights := by
  unfold setting
  split
  · exact course_setHeight d _ value .lift
  · exact course_setHeight d _ value .wall
  · exact course_setHeight d _ value .base
  · exact .nil
  · exact .nil
  · exact .nil
  · have hnone : heightEvent? key value = none := by
      unfold heightEvent?
      split <;> first | rfl | contradiction
    rw [hnone]
    exact .nil

theorem heights_adjustment (d : Draft) (key value : String) :
    (adjustment d key value).heights = d.heights := by
  unfold adjustment
  split
  · rfl
  · dsimp only
    split <;> rfl

theorem heights_close (kind : String) (fields : Fields) (d : Draft) :
    (Object.close kind fields d).heights = d.heights :=
  (Object.placed_close kind fields d).heights

namespace Line

theorem heights_dropKey (l : Line) : l.dropKey.draft.heights = l.draft.heights := by
  unfold dropKey
  split <;> rfl

theorem heights_close (l : Line) : l.close.draft.heights = l.draft.heights := by
  unfold close
  dsimp only
  split
  · exact Script.heights_close ..
  · rfl
  · rfl

theorem heights_enter (l : Line) (keyword : Keyword) :
    (l.enter keyword).draft.heights = l.draft.heights := by
  cases keyword <;> rfl

theorem heights_stepInside (l : Line) (word : String) :
    (l.stepInside word).draft.heights = l.draft.heights := by
  unfold stepInside pair
  split
  · rfl
  · split <;> rfl
  · split
    · rfl
    · exact heights_adjustment ..
  · rfl

/-- A word follows the course of the statement that it completes. -/
theorem course_step (l : Line) (word : String) :
    Course l.draft.heights (l.heightEvents word) (l.step word).draft.heights := by
  unfold heightEvents statement? step
  by_cases hglobal : l.mode = .global
  · rw [if_pos hglobal, if_pos hglobal]
    unfold stepGlobal pair
    cases hkey : l.key with
    | none =>
      dsimp only
      split
      · rw [heights_enter]
        exact .nil
      · exact .nil
    | some key => exact course_setting l.draft key word
  · rw [if_neg hglobal, if_neg hglobal]
    split
    · rw [heights_close, heights_dropKey]
      exact .nil
    · rw [heights_stepInside]
      exact .nil

end Line

namespace Run

theorem course_flush (r : Run) : Course r.draft.heights r.flushEvents r.flush.draft.heights := by
  have hline := Course.fold Line.course_step ⟨r.mode, none, r.draft⟩ r.held
  rw [← Line.heights_dropKey (r.held.foldl Line.step _)] at hline
  exact hline

theorem course_step (r : Run) (said : Except Words.UnclosedQuote (List String)) :
    Course r.draft.heights (r.heightEvents said) (r.step said).draft.heights := by
  cases said with
  | error quote => exact .nil
  | ok words =>
    unfold heightEvents step feed
    dsimp only
    split
    · exact course_flush ⟨r.mode, r.held ++ words, r.draft⟩
    · exact .nil

end Run

theorem course_run (mode : Mode) (text : String) (d : Draft) :
    Course d.heights (heightEvents mode text d) (run mode text d).2.heights :=
  (Course.fold Run.course_step ⟨mode, [], d⟩ _).append (Run.course_flush _)

theorem heights_finish (mode : Mode) (d : Draft) : (finish mode d).2.heights = d.heights := by
  cases mode <;> rfl

end Script

/-! ### Drawings -/

namespace Drawing

variable (d : Drawing)

/-- The events of the texts that wait to be run. -/
def scriptEvents : List HeightEvent :=
  if d.texts.isEmpty then []
  else Script.heightEvents d.mode (String.intercalate " " d.texts) d.draft

/-- The events of one operation: first those of the texts before it, which a text only adds to. -/
def heightEvents : Operation → List HeightEvent
  | .text _ _ => []
  | operation => d.scriptEvents ++ (d.flush.raised? operation).toList.map .raised

theorem course_flush : Course d.draft.heights d.scriptEvents d.flush.draft.heights := by
  unfold scriptEvents flush
  split
  · exact .nil
  · exact Script.course_run ..

theorem course_draw (operation : Operation) :
    Course d.draft.heights ((d.raised? operation).toList.map .raised)
      (d.draw operation).draft.heights := by
  by_cases hraises : d.Raises operation
  · obtain ⟨r, b, hraised⟩ := d.raised_of_raises hraises
    obtain ⟨color, rounding, rfl⟩ := hraised.wall
    rw [d.raised?_of_raised hraised, hraised.heights]
    exact .single (.raised rfl rfl)
  · obtain ⟨-, hheights⟩ := (d.draws operation).of_not_raises hraises
    rw [d.raised?_of_not_raises hraises, hheights]
    exact .nil

theorem course_step (operation : Operation) :
    Course d.draft.heights (d.heightEvents operation) (d.step operation).draft.heights := by
  have hdraw := d.course_flush.append (d.flush.course_draw operation)
  cases operation with
  | text place text => exact .nil
  | _ => exact hdraw

/-- A whole drawing follows the course of its operations, and then of the texts that are left. -/
theorem course_finish (operations : List Operation) :
    Course d.draft.heights
      (chronicle step heightEvents d operations ++ (operations.foldl step d).scriptEvents)
      (operations.foldl step d).finish.heights := by
  unfold finish
  dsimp only
  rw [Script.heights_finish]
  exact (Course.fold course_step d operations).append (course_flush _)

end Drawing

namespace Conversion

/-- What bears on heights in a conversion, in the order in which it comes. -/
def heightHistory (options : Options) (operations : List Operation) : List HeightEvent :=
  let start := Drawing.start options.level options.heights
  chronicle Drawing.step Drawing.heightEvents start operations ++
    (operations.foldl Drawing.step start).scriptEvents

theorem course_heightHistory (options : Options) (operations : List Operation) :
    Course options.heights (heightHistory options operations)
      (operations.foldl Drawing.step (.start options.level options.heights)).finish.heights :=
  (Drawing.start options.level options.heights).course_finish operations

/-- A lift is used by one block. Every block is raised as high as was said last, over the floor that
was said last, and by the lift that was said since the block before it, if any was. A history tells
the heights in force at its end, and nothing else changes them: no operation that raises no block,
and no word of a script that does not complete a valid statement about a height. -/
theorem lift_used_once (options : Options) (operations : List Operation) :
    let history := heightHistory options operations
    (∀ before b after, history = before ++ .raised b :: after →
      b.size.y = lastWall options.wallHeight before ∧
        b.center.y = lastBase options.baseHeight before + lastLift before +
          (lastWall options.wallHeight before).half) ∧
      (operations.foldl Drawing.step (.start options.level options.heights)).finish.heights =
        ⟨lastWall options.wallHeight history, lastBase options.baseHeight history,
          lastLift history⟩ ∧
      (∀ (d : Drawing) (operation : Operation) (b : Block), d.raised? operation = some b ↔
        d.Raises operation ∧
          (d.draw operation).draft.level.blocks = d.draft.level.blocks ++ [b]) ∧
      (∀ (d : Drawing) (operation : Operation), ¬ d.Raises operation →
        (d.draw operation).draft.heights = d.draft.heights) ∧
      ∀ (l : Script.Line) (word : String), l.heightEvents word = [] →
        (l.step word).draft.heights = l.draft.heights := by
  intro history
  have hcourse := course_heightHistory options operations
  have hlift : options.heights.lift = 0 := rfl
  refine ⟨?_, hcourse.inForce hlift, fun d _ _ => d.raised?_eq_some_iff, ?_, ?_⟩
  · intro before b after hsplit
    rw [show heightHistory options operations = history from rfl, hsplit] at hcourse
    obtain ⟨h, hbefore, hafter⟩ := hcourse.of_append
    have hforce := hbefore.inForce hlift
    cases hafter with
    | cons hraised _ =>
      cases hraised with
      | raised hsize hcenter =>
        subst hforce
        exact ⟨hsize, hcenter⟩
  · intro d operation hraises
    exact ((d.draws operation).of_not_raises hraises).2
  · intro l word hnone
    have hstep := l.course_step word
    rw [hnone] at hstep
    exact hstep.eq_of_nil

/-- Of three walls the second one is lifted, and the floor is raised for it and the third. The last
lift counts, the slab that the first wall becomes uses none, and a value that is no number does not
count, nor does a paint. -/
theorem lift_used_once_walls :
    let options : Options := ⟨"", none, .ofInt 3, 0⟩
    let operations : List Operation :=
      [.rect .frame .square ⟨0, 0, 18, 18⟩,
        .text (.dh 0) "wa 1\nwa 2\nbaseHeight 5\nobject Ramp end",
        .rect .frame .square ⟨0, 0, 18, 18⟩, .text (.dv 9) "wa high",
        .rect .frame .square ⟨0, 0, 18, 18⟩]
    let wall (y : Int) : Block :=
      ⟨⟨⟨100⟩, ⟨300⟩, ⟨100⟩⟩, ⟨⟨50⟩, ⟨y⟩, ⟨50⟩⟩, .black, 0, .standard⟩
    let before : List HeightEvent :=
      [.raised (wall 150), .lift (.ofInt 1), .lift (.ofInt 2), .base (.ofInt 5)]
    let d := Drawing.start options.level options.heights
    let l : Script.Line := ⟨.global, some "wa", d.draft⟩
    (heightHistory options operations = before ++ .raised (wall 850) :: [.raised (wall 650)] ∧
      (wall 850).center.y = lastBase 0 before + lastLift before + (lastWall (.ofInt 3) before).half) ∧
      (¬ d.Raises (.rect .paint .square ⟨0, 0, 18, 18⟩) ∧
        (d.draw (.rect .paint .square ⟨0, 0, 18, 18⟩)).draft.heights = d.draft.heights) ∧
      l.heightEvents "high" = [] ∧ (l.step "high").draft.heights = l.draft.heights := by
  intro options operations wall before d l
  obtain ⟨hraised, -, -, hdraw, hword⟩ := lift_used_once options operations
  have hhistory : heightHistory options operations =
      before ++ .raised (wall 850) :: [.raised (wall 650)] := by
    decide +kernel
  have hpaint : ¬ d.Raises (.rect .paint .square ⟨0, 0, 18, 18⟩) := id
  have hhigh : l.heightEvents "high" = [] := by decide +kernel
  exact ⟨⟨hhistory, (hraised before (wall 850) _ hhistory).2⟩, ⟨hpaint, hdraw d _ hpaint⟩, hhigh,
    hword l "high" hhigh⟩

end Conversion
end Floorplan

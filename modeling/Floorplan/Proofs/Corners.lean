import Mathlib.Data.List.Forall2
import Floorplan.Conversion
import Floorplan.Proofs.Drawing

/-!
# Floorplan.Proofs.Corners

It does not matter by which two opposite corners a rectangle is named. A rectangle is upright if its
first corner is the upper left one, and a drawing if all rectangles that it remembers are. Blocks
and arcs are placed by the extents and the middle of a rectangle, which it shares with its upright
form, and scripts do not look at rectangles. So the upright form of a drawing takes the upright
forms of the operations step by step (`Drawing.upright_step`), to the same level.
-/

namespace Floorplan

namespace Rect

def lower (a b : Int16) : Int16 := if a ≤ b then a else b

def upper (a b : Int16) : Int16 := if a ≤ b then b else a

/-- The rectangle, named by its upper left corner and its lower right one. -/
def upright (r : Rect) : Rect :=
  ⟨lower r.top r.bottom, lower r.left r.right, upper r.top r.bottom, upper r.left r.right⟩

/-- The same rectangle, named by two opposite corners, whichever these are. -/
inductive Turned (r : Rect) : Rect → Prop where
  | same : Turned r r
  | sides : Turned r { r with left := r.right, right := r.left }
  | ends : Turned r { r with top := r.bottom, bottom := r.top }
  | both : Turned r ⟨r.bottom, r.right, r.top, r.left⟩

theorem lower_upper (a b : Int16) :
    (lower a b = a ∧ upper a b = b) ∨ (lower a b = b ∧ upper a b = a) := by
  unfold lower upper
  split
  · exact .inl ⟨rfl, rfl⟩
  · exact .inr ⟨rfl, rfl⟩

theorem lower_upper_comm (a b : Int16) : lower a b = lower b a ∧ upper a b = upper b a := by
  have hsame : a ≤ b → b ≤ a → a = b := by
    simp only [Int16.le_iff_toInt_le, ← Int16.toInt_inj]
    omega
  have hone : ¬ a ≤ b → b ≤ a := by
    simp only [Int16.le_iff_toInt_le]
    omega
  unfold lower upper
  by_cases hab : a ≤ b
  · by_cases hba : b ≤ a
    · simp [hsame hab hba]
    · simp [hab, hba]
  · simp [hab, hone hab]

theorem toInt_lower_add (a b : Int16) :
    (lower a b).toInt + (upper a b).toInt = a.toInt + b.toInt := by
  rcases lower_upper a b with ⟨hlower, hupper⟩ | ⟨hlower, hupper⟩
  · rw [hlower, hupper]
  · rw [hlower, hupper, Int.add_comm]

theorem Turned.upright {r s : Rect} (h : r.Turned s) : s.upright = r.upright := by
  obtain ⟨hlower, hupper⟩ := lower_upper_comm r.left r.right
  obtain ⟨hlower', hupper'⟩ := lower_upper_comm r.top r.bottom
  unfold Rect.upright
  cases h with
  | same => rfl
  | sides => rw [hlower, hupper]
  | ends => rw [hlower', hupper']
  | both => rw [hlower, hupper, hlower', hupper']

end Rect

/-! ### Places -/

namespace Placement

theorem span_lower_upper (a b : Int16) (pen : Int) :
    span (Rect.lower a b).toInt (Rect.upper a b).toInt pen = span a.toInt b.toInt pen := by
  rcases Rect.lower_upper a b with ⟨hlower, hupper⟩ | ⟨hlower, hupper⟩
  · rw [hlower, hupper]
  · have habs : (a.toInt - b.toInt).natAbs = (b.toInt - a.toInt).natAbs := by omega
    rw [hlower, hupper, span, span, habs]

theorem blockSize_upright (r : Rect) (pen : Offset) (heights : Heights) :
    blockSize r.upright pen heights = blockSize r pen heights := by
  simp only [blockSize, Rect.upright, span_lower_upper]

theorem blockCenter_upright (r : Rect) (origin : Offset) (heights : Heights) :
    blockCenter r.upright origin heights = blockCenter r origin heights := by
  simp only [blockCenter, Rect.upright, Rect.toInt_lower_add]

theorem arcCenter_upright (r : Rect) (origin : Offset) :
    arcCenter r.upright origin = arcCenter r origin := by
  simp only [arcCenter, Rect.upright, Rect.toInt_lower_add]

end Placement

/-! ### Drafts -/

def DrawnArc.upright (a : DrawnArc) : DrawnArc := { a with bounds := a.bounds.upright }

/-- A draft that remembers each rectangle in its upright form. -/
def Draft.upright (d : Draft) : Draft :=
  { d with
    shapes :=
      { d.shapes with
        arc := d.shapes.arc.map DrawnArc.upright
        lastRect := d.shapes.lastRect.map Rect.upright
        lastArc := d.shapes.lastArc.map Rect.upright } }

theorem Draft.upright_takeBlock (d : Draft) :
    d.upright.takeBlock = (d.takeBlock.1, d.takeBlock.2.upright) := by
  have hblock : d.upright.shapes.block = d.shapes.block := rfl
  unfold takeBlock
  rw [hblock]
  split <;> rfl

theorem Draft.upright_modifyBlock (d : Draft) (f : Block → Block) :
    d.upright.modifyBlock f = (d.modifyBlock f).upright := by
  have hblock : d.upright.shapes.block = d.shapes.block := rfl
  unfold modifyBlock
  rw [hblock]
  split <;> rfl

/-! ### Scripts -/

namespace Object

theorem upright_claimArc (d : Draft) (kind : ObjectKind) {use : DrawnArc → Draft → Draft}
    (huse : ∀ arc e, use (DrawnArc.upright arc) (Draft.upright e) = (use arc e).upright) :
    claimArc d.upright kind use = (claimArc d kind use).upright := by
  cases harc : d.shapes.arc with
  | none =>
    have hnone : d.upright.shapes.arc = none := by simp [Draft.upright, harc]
    rw [claimArc_of_none harc, claimArc_of_none hnone, Draft.upright, Draft.lack]
    rfl
  | some arc =>
    have hsome : d.upright.shapes.arc = some arc.upright := by simp [Draft.upright, harc]
    rw [claimArc_of_some harc, claimArc_of_some hsome]
    exact huse arc { d with shapes := { d.shapes with arc := none } }

theorem upright_placeRamp (d : Draft) (effects : Effects) (rise y : Decimal)
    (thickness : Option Decimal) :
    placeRamp d.upright effects rise y thickness =
      (placeRamp d effects rise y thickness).upright := by
  have hblock : d.upright.shapes.block = d.shapes.block := rfl
  unfold placeRamp
  rw [hblock]
  split
  · rfl
  · split
    · rw [Draft.upright_takeBlock]
      rcases d.takeBlock with ⟨_ | b, e⟩ <;> rfl
    · apply upright_claimArc
      intro arc e
      rw [Draft.upright_takeBlock]
      rcases e.takeBlock with ⟨_ | b, e'⟩ <;> rfl

/-- An object is put where its shapes are, whatever their corners are called. -/
theorem upright_place (object : Object) (d : Draft) :
    object.place d.upright = (object.place d).upright := by
  cases object with
  | incarnator y => exact upright_claimArc d .incarnator fun _ _ => rfl
  | goody effects y kind items spin => exact upright_claimArc d .goody fun _ _ => rfl
  | ramp effects rise y thickness => exact upright_placeRamp d effects rise y thickness
  | wall effects y height =>
    have hcurrent : d.upright.currentBlock? = d.currentBlock? := rfl
    unfold place
    dsimp only
    rw [hcurrent, Draft.upright_modifyBlock]
    split <;> rfl

theorem upright_close (kind : String) (fields : Fields) (d : Draft) :
    close kind fields d.upright = (close kind fields d).upright := by
  unfold close
  split
  · rfl
  · dsimp only
    rw [upright_place]
    rfl

end Object

namespace Script

theorem upright_setting (d : Draft) (key value : String) :
    setting d.upright key value = (setting d key value).upright := by
  have hheight : ∀ set : Heights → Decimal → Heights,
      setHeight d.upright key value set = (setHeight d key value set).upright := by
    intro set
    unfold setHeight
    split <;> rfl
  unfold setting
  split
  · exact hheight _
  · exact hheight _
  · exact hheight _
  all_goals rfl

theorem upright_adjustment (d : Draft) (key value : String) :
    adjustment d.upright key value = (adjustment d key value).upright := by
  unfold adjustment
  split
  · rfl
  · dsimp only
    split <;> rfl

/-- No statement looks at a rectangle. -/
theorem respects_upright : Respects fun d e => e = d.upright :=
  .of_image (fun _ _ => rfl) upright_setting upright_adjustment
    fun d kind fields => Object.upright_close kind fields d

end Script

/-! ### Drawings -/

namespace Operation

/-- The same operation on the upright form of its rectangle, if it draws one. -/
def upright : Operation → Operation
  | rect stroke corners r => rect stroke corners r.upright
  | arc stroke a => arc stroke { a with bounds := a.bounds.upright }
  | operation => operation

/-- The same operation, but for the corners by which it names a rectangle. -/
inductive Turned : Operation → Operation → Prop where
  | same (operation : Operation) : Turned operation operation
  | rect (stroke : Stroke) (corners : Corners) {r s : Rect} : r.Turned s →
    Turned (.rect stroke corners r) (.rect stroke corners s)
  | arc (stroke : Stroke) (start sweep : Int16) {r s : Rect} : r.Turned s →
    Turned (.arc stroke ⟨r, start, sweep⟩) (.arc stroke ⟨s, start, sweep⟩)

theorem Turned.upright {operation operation' : Operation} (h : Turned operation operation') :
    operation'.upright = operation.upright := by
  cases h with
  | same => rfl
  | rect stroke corners hr => rw [Operation.upright, hr.upright, Operation.upright]
  | arc stroke start sweep hr => rw [Operation.upright, hr.upright, Operation.upright]

end Operation

namespace Drawing

def upright (d : Drawing) : Drawing := { d with draft := d.draft.upright }

theorem upright_flush (d : Drawing) : d.upright.flush = d.flush.upright := by
  have hrun := Script.respects_upright.run_image d.mode (String.intercalate " " d.texts) d.draft
  have htexts : d.upright.texts = d.texts := rfl
  unfold flush
  rw [htexts]
  split
  · rfl
  · simp only [upright, hrun]

theorem upright_raise (d : Drawing) (r : Rect) (color : Color) (rounding : Decimal) :
    d.upright.raise r.upright color rounding = (d.raise r color rounding).upright := by
  simp only [raise, Placement.blockSize_upright, Placement.blockCenter_upright]
  rfl

theorem upright_newArc (d : Drawing) (stroke : Stroke) (r : Rect) (heading : Heading) :
    d.upright.newArc stroke r.upright heading = (d.newArc stroke r heading).upright := by
  simp only [newArc, Placement.arcCenter_upright]
  cases stroke <;> rfl

theorem upright_frameSameRect (d : Drawing) (corners : Corners) :
    d.upright.frameSameRect corners = (d.frameSameRect corners).upright := by
  have hlast : d.upright.draft.shapes.lastRect = d.draft.shapes.lastRect.map Rect.upright := rfl
  have hrounding : d.upright.rounding corners = d.rounding corners := by
    cases corners <;> rfl
  unfold frameSameRect
  rw [hlast, hrounding]
  cases d.draft.shapes.lastRect with
  | none => rfl
  | some r =>
    have hmoved : d.upright.pen.rectMoved = d.pen.rectMoved := rfl
    dsimp only [Option.map_some]
    rw [hmoved]
    split
    · exact upright_raise ..
    · have hmodify := d.draft.upright_modifyBlock fun b =>
        { b with color := d.draft.shapes.paint.getD d.pen.color }
      exact congrArg (fun draft => { d with draft }) hmodify

theorem upright_sameArc (d : Drawing) (stroke : Stroke) (start sweep : Int16) :
    d.upright.sameArc stroke start sweep = (d.sameArc stroke start sweep).upright := by
  have hlast : d.upright.draft.shapes.lastArc = d.draft.shapes.lastArc.map Rect.upright := rfl
  have harc : d.upright.draft.shapes.arc = d.draft.shapes.arc.map DrawnArc.upright := rfl
  have hmoved : d.upright.pen.arcMoved = d.pen.arcMoved := rfl
  unfold sameArc
  rw [hlast]
  cases d.draft.shapes.lastArc with
  | none => rfl
  | some r =>
    dsimp only [Option.map_some]
    rw [harc, hmoved]
    cases d.draft.shapes.arc with
    | none => exact upright_newArc ..
    | some current =>
      have hheading : current.upright.heading = current.heading := rfl
      dsimp only [Option.map_some]
      rw [hheading]
      split
      · cases stroke <;> rfl
      · exact upright_newArc ..

theorem upright_draw (d : Drawing) (operation : Operation) :
    d.upright.draw operation.upright = (d.draw operation).upright := by
  cases operation with
  | rect stroke corners r =>
    cases stroke with
    | frame =>
      have hraise := upright_raise
        (d.withShapes fun s => { s with lastRect := some r, paint := none }) r d.pen.color
        (d.rounding corners)
      cases corners <;> exact hraise
    | paint => rfl
  | sameRect stroke corners =>
    cases stroke with
    | frame => exact upright_frameSameRect d corners
    | paint => rfl
  | arc stroke a => exact upright_newArc ..
  | sameArc stroke start sweep => exact upright_sameArc d stroke start sweep
  | _ => rfl

theorem upright_step (d : Drawing) (operation : Operation) :
    d.upright.step operation.upright = (d.step operation).upright := by
  have hdraw := upright_draw d.flush operation
  rw [← upright_flush] at hdraw
  cases operation with
  | text place text => rfl
  | _ => exact hdraw

theorem upright_foldl (operations : List Operation) (d : Drawing) :
    (operations.map Operation.upright).foldl step d.upright =
      (operations.foldl step d).upright := by
  induction operations generalizing d with
  | nil => rfl
  | cons operation operations ih =>
    rw [List.map_cons, List.foldl_cons, upright_step, ih, List.foldl_cons]

theorem upright_finish (d : Drawing) : d.upright.finish = d.finish.upright := by
  unfold finish
  rw [upright_flush]
  exact Script.respects_upright.finish (d := d.flush.draft) rfl d.flush.mode

end Drawing

namespace Conversion

theorem ofOperations_upright (options : Options) (operations : List Operation) :
    ofOperations options (operations.map Operation.upright) = ofOperations options operations := by
  have hstart : (Drawing.start options.level options.heights).upright =
      .start options.level options.heights := rfl
  rw [ofOperations, ← hstart, Drawing.upright_foldl, Drawing.upright_finish]
  rfl

/-- A conversion is the same whichever opposite corners name the rectangles that are drawn, those of
arcs included. -/
theorem ofOperations_turned (options : Options) {operations operations' : List Operation}
    (h : List.Forall₂ Operation.Turned operations operations') :
    ofOperations options operations' = ofOperations options operations := by
  have hupright : operations'.map Operation.upright = operations.map Operation.upright := by
    induction h with
    | nil => rfl
    | cons hturned _ ih => rw [List.map_cons, List.map_cons, hturned.upright, ih]
  rw [← ofOperations_upright, hupright, ofOperations_upright]

/-- A wall that is framed again behind a shift of the origin, and a ramp over it towards an arc that
is drawn again. -/
theorem ofOperations_turned_ramp :
    let options : Options := ⟨"", none, .ofInt 3, 0⟩
    let rest : List Operation :=
      [.origin 0 36, .sameRect .frame .square, .sameArc .paint 90 90,
        .text (.dh 0) "object Ramp deltaY 2 end"]
    let operations : List Operation :=
      .rect .frame .square ⟨0, 0, 10, 25⟩ :: .arc .frame ⟨⟨-7, 0, 18, 18⟩, 0, 90⟩ :: rest
    let operations' : List Operation :=
      .rect .frame .square ⟨10, 25, 0, 0⟩ :: .arc .frame ⟨⟨-7, 18, 18, 0⟩, 0, 90⟩ :: rest
    List.Forall₂ Operation.Turned operations operations' ∧
      (ofOperations options operations').level.ramps.map Ramp.width = [⟨139⟩] ∧
      ofOperations options operations' = ofOperations options operations := by
  intro options rest operations operations'
  have hturned : List.Forall₂ Operation.Turned operations operations' :=
    .cons (.rect .frame .square .both) (.cons (.arc .frame 0 90 .sides)
      (List.forall₂_same.mpr fun operation _ => .same operation))
  exact ⟨hturned, by decide +kernel, ofOperations_turned options hturned⟩

end Conversion
end Floorplan

import Floorplan.Drawing
import Floorplan.Proofs.Script.Frame
import Floorplan.Proofs.Script.Growth

/-!
# Floorplan.Proofs.Drawing

What a step of a drawing can do. `Drawing.Draws` lists what becomes of a drawing by an operation
that is no text, with the conditions under which a shape that is repeated is drawn anew, and `draws`
says that there is nothing else. A flush runs the texts that were gathered: it leaves the pen alone
and what scripts cannot claim, and gathers nothing.
-/

namespace Floorplan

def Operation.isText : Operation → Bool
  | text _ _ => true
  | _ => false

namespace Drawing

/-- What an operation makes of a drawing. -/
inductive Draws (d : Drawing) : Operation → Drawing → Prop where
  /-- It sets something of the pen, or does nothing. -/
  | settle {operation : Operation} (pen : PenState) :
    pen.origin = d.pen.origin → pen.rectMoved = d.pen.rectMoved →
    pen.arcMoved = d.pen.arcMoved → Draws d operation { d with pen }
  | shift (dh dv : Int16) : Draws d (.origin dh dv) (d.shiftOrigin dh dv)
  | frame (corners : Corners) (r : Rect) : Draws d (.rect .frame corners r) (d.frameRect corners r)
  | paint (corners : Corners) (r : Rect) : Draws d (.rect .paint corners r) (d.paintRect r)
  | frameAgain (corners : Corners) {r : Rect} :
    d.draft.shapes.lastRect = some r → d.pen.rectMoved = true →
    Draws d (.sameRect .frame corners)
      (d.raise r (d.draft.shapes.paint.getD d.pen.color) (d.rounding corners))
  | recolor (corners : Corners) {r : Rect} :
    d.draft.shapes.lastRect = some r → d.pen.rectMoved = false →
    Draws d (.sameRect .frame corners)
      { d with
        draft := d.draft.modifyBlock fun b =>
          { b with color := d.draft.shapes.paint.getD d.pen.color } }
  | paintAgain (corners : Corners) : Draws d (.sameRect .paint corners) d.paintSameRect
  | arc (stroke : Stroke) (a : Arc) :
    Draws d (.arc stroke a) (d.newArc stroke a.bounds (.ofArc a.start a.sweep))
  | arcAgain (stroke : Stroke) (start sweep : Int16) {r : Rect} :
    d.draft.shapes.lastArc = some r →
    (∀ current, d.draft.shapes.arc = some current → d.pen.arcMoved = false →
      current.heading.same (.ofArc start sweep) = false) →
    Draws d (.sameArc stroke start sweep) (d.newArc stroke r (.ofArc start sweep))
  | keepArc (stroke : Stroke) (start sweep : Int16) {r : Rect} {current : DrawnArc} :
    d.draft.shapes.lastArc = some r → d.draft.shapes.arc = some current →
    d.pen.arcMoved = false → current.heading.same (.ofArc start sweep) = true →
    Draws d (.sameArc stroke start sweep)
      (d.withShapes fun s => { s with arc := some (applyStroke current d.pen.color stroke) })

variable (d : Drawing)

theorem Draws.nothing (operation : Operation) : d.Draws operation d := .settle d.pen rfl rfl rfl

theorem Draws.of_frameSameRect (corners : Corners) :
    d.Draws (.sameRect .frame corners) (d.frameSameRect corners) := by
  unfold frameSameRect
  cases hlast : d.draft.shapes.lastRect with
  | none => exact .nothing d _
  | some r =>
    dsimp only
    split
    · next hmoved => exact .frameAgain corners hlast hmoved
    · next hmoved => exact .recolor corners hlast (Bool.eq_false_iff.mpr hmoved)

variable {d} in
theorem sameArc_of_same {r : Rect} (hlast : d.draft.shapes.lastArc = some r) {kept : DrawnArc}
    (harc : d.draft.shapes.arc = some kept) (hmoved : d.pen.arcMoved = false)
    {start sweep : Int16} (hsame : kept.heading.same (.ofArc start sweep) = true)
    (stroke : Stroke) :
    d.sameArc stroke start sweep =
      d.withShapes fun s => { s with arc := some (applyStroke kept d.pen.color stroke) } := by
  simp [sameArc, hlast, harc, hmoved, hsame]

variable {d} in
theorem sameArc_of_differs {r : Rect} (hlast : d.draft.shapes.lastArc = some r)
    {start sweep : Int16}
    (hdiffers : ∀ kept, d.draft.shapes.arc = some kept → d.pen.arcMoved = false →
      kept.heading.same (.ofArc start sweep) = false) (stroke : Stroke) :
    d.sameArc stroke start sweep = d.newArc stroke r (.ofArc start sweep) := by
  unfold sameArc
  rw [hlast]
  cases harc : d.draft.shapes.arc with
  | none => rfl
  | some kept =>
    have hguard : ¬ (!d.pen.arcMoved && kept.heading.same (.ofArc start sweep)) = true := by
      intro hkeep
      simp only [Bool.and_eq_true, Bool.not_eq_true'] at hkeep
      simpa [hkeep.2] using hdiffers kept harc hkeep.1
    exact if_neg hguard

theorem Draws.of_sameArc (stroke : Stroke) (start sweep : Int16) :
    d.Draws (.sameArc stroke start sweep) (d.sameArc stroke start sweep) := by
  cases hlast : d.draft.shapes.lastArc with
  | none =>
    have hnothing : d.sameArc stroke start sweep = d := by
      simp [sameArc, hlast]
    rw [hnothing]
    exact .nothing d _
  | some r =>
    by_cases hkeep : ∃ kept, d.draft.shapes.arc = some kept ∧ d.pen.arcMoved = false ∧
        kept.heading.same (.ofArc start sweep) = true
    · obtain ⟨kept, harc, hmoved, hsame⟩ := hkeep
      rw [sameArc_of_same hlast harc hmoved hsame]
      exact .keepArc stroke start sweep hlast harc hmoved hsame
    · have hdiffers : ∀ kept, d.draft.shapes.arc = some kept → d.pen.arcMoved = false →
          kept.heading.same (.ofArc start sweep) = false := fun kept harc hmoved =>
        Bool.eq_false_iff.mpr fun hsame => hkeep ⟨kept, harc, hmoved, hsame⟩
      rw [sameArc_of_differs hlast hdiffers]
      exact .arcAgain stroke start sweep hlast hdiffers

theorem draws (operation : Operation) : d.Draws operation (d.draw operation) := by
  cases operation with
  | clip bounds region => exact .settle _ rfl rfl rfl
  | penSize size => exact .settle _ rfl rfl rfl
  | rgbFore color => exact .settle _ rfl rfl rfl
  | ovalSize size => exact .settle _ rfl rfl rfl
  | origin dh dv => exact .shift dh dv
  | rect stroke corners r =>
    cases stroke with
    | frame => exact .frame corners r
    | paint => exact .paint corners r
  | sameRect stroke corners =>
    cases stroke with
    | frame => exact .of_frameSameRect d corners
    | paint => exact .paintAgain corners
  | arc stroke a => exact .arc stroke a
  | sameArc stroke start sweep => exact .of_sameArc d stroke start sweep
  | _ => exact .nothing d _

variable {d} in
theorem step_of_not_text {operation : Operation} (h : operation.isText = false) :
    d.step operation = d.flush.draw operation := by
  cases operation with
  | text place text => cases h
  | _ => rfl

/-! ### Raised blocks -/

/-- The block that a rectangle is raised into. -/
def wall (r : Rect) (color : Color) (rounding : Decimal) : Block :=
  { size := Placement.blockSize r d.pen.size d.draft.heights
    center := Placement.blockCenter r d.pen.origin d.draft.heights
    color
    rounding
    effects := .standard }

/-- The operations that raise a block: every frame of a rectangle, and a frame of the last one if the
origin moved. -/
def Raises : Operation → Prop
  | .rect .frame _ _ => True
  | .sameRect .frame _ => d.draft.shapes.lastRect.isSome ∧ d.pen.rectMoved = true
  | _ => False

/-- The block by which an operation that is no text makes a level longer. -/
def raised? (operation : Operation) : Option Block :=
  (d.draw operation).draft.level.blocks[d.draft.level.blocks.length]?

/-- A rectangle was raised into a block, which is then the current one, at the origin that stands. -/
structure Raised (d e : Drawing) (r : Rect) (b : Block) : Prop where
  wall : ∃ color rounding, b = d.wall r color rounding
  blocks : e.draft.level.blocks = d.draft.level.blocks ++ [b]
  current : e.draft.shapes.block = some d.draft.level.blocks.length
  heights : e.draft.heights = { d.draft.heights with lift := 0 }
  lastRect : e.draft.shapes.lastRect = some r
  pen : e.pen = { d.pen with rectMoved := false }

theorem raised_of_raises {operation : Operation} (h : d.Raises operation) :
    ∃ r b, d.Raised (d.draw operation) r b := by
  cases operation with
  | rect stroke corners r =>
    cases stroke with
    | frame => exact ⟨r, _, ⟨_, _, rfl⟩, rfl, rfl, rfl, rfl, rfl⟩
    | paint => cases h
  | sameRect stroke corners =>
    cases stroke with
    | frame =>
      obtain ⟨hlast, hmoved⟩ := h
      obtain ⟨r, hr⟩ := Option.isSome_iff_exists.mp hlast
      have hdraw : d.draw (.sameRect .frame corners) =
          d.raise r (d.draft.shapes.paint.getD d.pen.color) (d.rounding corners) := by
        simp [draw, frameSameRect, hr, hmoved]
      rw [hdraw]
      exact ⟨r, _, ⟨_, _, rfl⟩, rfl, rfl, rfl, hr, rfl⟩
    | paint => cases h
  | _ => cases h

theorem Draft.length_modifyBlock (d : Draft) (f : Block → Block) :
    (d.modifyBlock f).level.blocks.length = d.level.blocks.length := by
  unfold Draft.modifyBlock
  split
  · rfl
  · exact List.length_modify ..

/-- An operation that raises no block leaves their number and the heights alone. -/
theorem Draws.of_not_raises {d e : Drawing} {operation : Operation} (h : d.Draws operation e)
    (hraises : ¬ d.Raises operation) :
    e.draft.level.blocks.length = d.draft.level.blocks.length ∧
      e.draft.heights = d.draft.heights := by
  cases h with
  | frame corners r => exact absurd trivial hraises
  | frameAgain corners hlast hmoved =>
    exact absurd ⟨Option.isSome_iff_exists.mpr ⟨_, hlast⟩, hmoved⟩ hraises
  | recolor corners hlast hmoved =>
    exact ⟨Draft.length_modifyBlock .., (Object.placed_modifyBlock ..).heights⟩
  | _ => exact ⟨rfl, rfl⟩

theorem raised?_of_raised {r : Rect} {b : Block} {operation : Operation}
    (h : d.Raised (d.draw operation) r b) : d.raised? operation = some b := by
  rw [raised?, h.blocks, List.getElem?_concat_length]

theorem raised?_of_not_raises {operation : Operation} (h : ¬ d.Raises operation) :
    d.raised? operation = none := by
  obtain ⟨hlength, -⟩ := (d.draws operation).of_not_raises h
  rw [raised?, List.getElem?_eq_none (Nat.le_of_eq hlength)]

theorem raised?_eq_some_iff {operation : Operation} {b : Block} :
    d.raised? operation = some b ↔
      d.Raises operation ∧ (d.draw operation).draft.level.blocks = d.draft.level.blocks ++ [b] := by
  by_cases hraises : d.Raises operation
  · obtain ⟨r, b', hraised⟩ := d.raised_of_raises hraises
    rw [d.raised?_of_raised hraised, hraised.blocks]
    simp [hraises]
  · rw [d.raised?_of_not_raises hraises]
    simp [hraises]

/-! ### Texts -/

theorem pen_flush : d.flush.pen = d.pen := by
  unfold flush
  split <;> rfl

theorem grows_flush (d : Drawing) : d.draft.Grows d.flush.draft := by
  unfold flush
  split
  · exact .refl _
  · exact Script.grows_run ..

theorem lastRect_flush : d.flush.draft.shapes.lastRect = d.draft.shapes.lastRect :=
  d.grows_flush.lastRect

theorem lastArc_flush : d.flush.draft.shapes.lastArc = d.draft.shapes.lastArc :=
  d.grows_flush.lastArc

theorem texts_flush : d.flush.texts = [] := by
  unfold flush
  split
  · next hnone => exact List.isEmpty_iff.mp hnone
  · rfl

theorem flush_of_texts {d : Drawing} (h : d.texts = []) : d.flush = d := by
  unfold flush
  rw [h]
  rfl

/-- An operation that is no text gathers nothing. -/
theorem Draws.texts {d e : Drawing} {operation : Operation} (h : d.Draws operation e) :
    e.texts = d.texts := by
  cases h <;> rfl

theorem gathered_draw (operation : Operation) : (d.draw operation).texts = d.texts :=
  (d.draws operation).texts

end Drawing
end Floorplan

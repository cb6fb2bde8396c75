import Mathlib.Data.List.InsertIdx
import Floorplan.Conversion
import Floorplan.Proofs.Decimal
import Floorplan.Proofs.Drawing
import Floorplan.Proofs.Rounding

/-!
# Floorplan.Proofs.Translation

A drawing whose origin is moved by whole units gives the same level, moved by those units. The plan
is scaled to hundredths of a unit, 100 to 18 pixels, and no doubled coordinate of it lies on a tie,
so what is rounded moves along exactly. Scripts read no position but to put something there, and
the flags that the move leaves behind say nothing before the first shape is drawn.
-/

namespace Floorplan

/-! ### Positions on the plan -/

namespace Placement

/-- Doubled coordinates lie on no tie: 100 divides by 4, and 18 does not. -/
theorem scaleDoubled_add (n k : Int) :
    scaleDoubled (n + 36 * k) = scaleDoubled n + Decimal.ofInt k := by
  have hdividend : (n + 36 * k) * 100 = n * 100 + k * 100 * 36 := by omega
  have haway : Rounding.away (n * 100 + k * 100 * 36) 36 =
      Rounding.away (n * 100) 36 + k * 100 := by
    apply Rounding.away_add_mul
    · decide
    · intro q
      omega
  have hratio : Rounding.away ((n + 36 * k) * 100) 36 = Rounding.away (n * 100) 36 + k * 100 := by
    rw [hdividend, haway]
  exact congrArg Decimal.mk hratio

end Placement

section Moved

variable (dx dz : Decimal)

def Vec3.moved (p : Vec3) : Vec3 := { p with x := p.x + dx, z := p.z + dz }

def Block.moved (b : Block) : Block := { b with center := b.center.moved dx dz }

def Ramp.moved (r : Ramp) : Ramp :=
  { r with base := r.base.moved dx dz, top := r.top.moved dx dz }

def Incarnator.moved (i : Incarnator) : Incarnator :=
  { i with location := i.location.moved dx dz }

def Goody.moved (g : Goody) : Goody := { g with location := g.location.moved dx dz }

/-- A level with every entity moved by `dx` and `dz`. -/
def Level.moved (level : Level) : Level :=
  { level with
    incarnators := level.incarnators.map (Incarnator.moved dx dz)
    blocks := level.blocks.map (Block.moved dx dz)
    ramps := level.ramps.map (Ramp.moved dx dz)
    goodies := level.goodies.map (Goody.moved dx dz) }

def Conversion.moved (c : Conversion) : Conversion := { c with level := c.level.moved dx dz }

def DrawnArc.moved (a : DrawnArc) : DrawnArc := { a with center := a.center.moved dx dz }

def Draft.moved (d : Draft) : Draft :=
  { d with
    level := d.level.moved dx dz
    shapes := { d.shapes with arc := d.shapes.arc.map (DrawnArc.moved dx dz) } }

namespace Placement

/-- The footprint of a ramp moves with its block. -/
theorem rampBounds_moved (b : Block) (quarter : Quarter) (y rise : Decimal) :
    rampBounds (b.moved dx dz) quarter y rise =
      { rampBounds b quarter y rise with
        base := (rampBounds b quarter y rise).base.moved dx dz
        top := (rampBounds b quarter y rise).top.moved dx dz } := by
  cases quarter with
  | north => simp only [rampBounds, Block.moved, Vec3.moved, Decimal.add_right_comm _ dz,
      Decimal.sub_add_comm _ _ dz]
  | east => simp only [rampBounds, Block.moved, Vec3.moved, Decimal.add_right_comm _ dx,
      Decimal.sub_add_comm _ _ dx]
  | south => simp only [rampBounds, Block.moved, Vec3.moved, Decimal.add_right_comm _ dz,
      Decimal.sub_add_comm _ _ dz]
  | west => simp only [rampBounds, Block.moved, Vec3.moved, Decimal.add_right_comm _ dx,
      Decimal.sub_add_comm _ _ dx]

end Placement

/-! ### Drafts -/

namespace Draft

theorem moved_addBlock (d : Draft) (b : Block) :
    (d.moved dx dz).addBlock (b.moved dx dz) = (d.addBlock b).moved dx dz := by
  simp only [addBlock, withBlocks, moved, Level.moved, List.map_append, List.map_singleton]

theorem moved_pushBlock (d : Draft) (b : Block) :
    (d.moved dx dz).pushBlock (b.moved dx dz) = (d.pushBlock b).moved dx dz := by
  simp only [pushBlock, addBlock, withBlocks, moved, Level.moved, List.map_append,
    List.map_singleton, List.length_map]

theorem moved_currentBlock? (d : Draft) :
    (d.moved dx dz).currentBlock? = d.currentBlock?.map (Block.moved dx dz) := by
  have hblock : (d.moved dx dz).shapes.block = d.shapes.block := rfl
  unfold currentBlock?
  rw [hblock]
  split
  · rfl
  · exact List.getElem?_map ..

/-- A change to the current block that the move does not meddle with. -/
theorem moved_modifyBlock (d : Draft) {f : Block → Block}
    (hf : ∀ b, f (b.moved dx dz) = (f b).moved dx dz) :
    (d.moved dx dz).modifyBlock f = (d.modifyBlock f).moved dx dz := by
  have hblock : (d.moved dx dz).shapes.block = d.shapes.block := rfl
  unfold modifyBlock
  rw [hblock]
  split
  · rfl
  · next i _ =>
    have hblocks : (d.level.blocks.map (Block.moved dx dz)).modify i f =
        (d.level.blocks.modify i f).map (Block.moved dx dz) := by
      apply List.ext_getElem?
      intro j
      simp only [List.getElem?_modify, List.getElem?_map]
      split <;> cases d.level.blocks[j]? <;> simp [hf]
    simp only [withBlocks, moved, Level.moved, hblocks]

theorem moved_takeBlock (d : Draft) :
    (d.moved dx dz).takeBlock =
      (d.takeBlock.1.map (Block.moved dx dz), d.takeBlock.2.moved dx dz) := by
  have hblock : (d.moved dx dz).shapes.block = d.shapes.block := rfl
  unfold takeBlock
  rw [hblock]
  split
  · rfl
  · simp only [withBlocks, forgetBlock, moved, Level.moved, List.getElem?_map, List.eraseIdx_map]

theorem moved_takeArc (d : Draft) :
    (d.moved dx dz).takeArc = (d.takeArc.1.map (DrawnArc.moved dx dz), d.takeArc.2.moved dx dz) :=
  rfl

end Draft

/-! ### Scripts -/

namespace Object

theorem moved_standing (b : Block) (effects : Effects) (y height : Option Decimal) :
    standing (b.moved dx dz) effects y height = (standing b effects y height).moved dx dz := rfl

theorem moved_rampOver (b : Block) (arc : DrawnArc) (effects : Effects) (rise y : Decimal)
    (thickness : Option Decimal) :
    rampOver (b.moved dx dz) (arc.moved dx dz) effects rise y thickness =
      (rampOver b arc effects rise y thickness).moved dx dz := by
  have hheading : (arc.moved dx dz).heading = arc.heading := rfl
  unfold rampOver
  rw [hheading, Placement.rampBounds_moved]
  rfl

theorem moved_addIncarnator (d : Draft) (i : Incarnator) :
    addIncarnator (d.moved dx dz) (i.moved dx dz) = (addIncarnator d i).moved dx dz := by
  simp only [addIncarnator, Draft.moved, Level.moved, List.map_append, List.map_singleton]

theorem moved_addGoody (d : Draft) (g : Goody) :
    addGoody (d.moved dx dz) (g.moved dx dz) = (addGoody d g).moved dx dz := by
  simp only [addGoody, Draft.moved, Level.moved, List.map_append, List.map_singleton]

theorem moved_addRamp (d : Draft) (r : Ramp) :
    addRamp (d.moved dx dz) (r.moved dx dz) = (addRamp d r).moved dx dz := by
  simp only [addRamp, Draft.moved, Level.moved, List.map_append, List.map_singleton]

theorem moved_claimArc (d : Draft) (kind : ObjectKind) {use : DrawnArc → Draft → Draft}
    (huse : ∀ arc e, use (arc.moved dx dz) (Draft.moved dx dz e) = (use arc e).moved dx dz) :
    claimArc (d.moved dx dz) kind use = (claimArc d kind use).moved dx dz := by
  unfold claimArc
  rw [Draft.moved_takeArc]
  rcases d.takeArc with ⟨_ | arc, e⟩
  · rfl
  · exact huse arc e

theorem moved_placeRamp (d : Draft) (effects : Effects) (rise y : Decimal)
    (thickness : Option Decimal) :
    placeRamp (d.moved dx dz) effects rise y thickness =
      (placeRamp d effects rise y thickness).moved dx dz := by
  have hblock : (d.moved dx dz).shapes.block = d.shapes.block := rfl
  unfold placeRamp
  rw [hblock]
  split
  · rfl
  · split
    · rw [Draft.moved_takeBlock]
      rcases d.takeBlock with ⟨_ | b, e⟩
      · rfl
      · exact Draft.moved_addBlock dx dz e (slab b effects y thickness)
    · apply moved_claimArc
      intro arc e
      rw [Draft.moved_takeBlock]
      rcases e.takeBlock with ⟨_ | b, e'⟩
      · rfl
      · have hramp := moved_rampOver dx dz b arc effects rise y thickness
        simp only [Option.map_some, hramp, moved_addRamp]

/-- An object is put where it would have been, only moved. -/
theorem moved_place (object : Object) (d : Draft) :
    object.place (d.moved dx dz) = (object.place d).moved dx dz := by
  cases object with
  | incarnator y =>
    apply moved_claimArc
    intro arc e
    exact moved_addIncarnator dx dz e
      ⟨arc.id, arc.center.raised y, Decimal.snap arc.heading.degrees⟩
  | goody effects y kind items spin =>
    apply moved_claimArc
    intro arc e
    exact moved_addGoody dx dz e
      ⟨arc.id, arc.center.raised y, kind, items, spin, arc.fillColor, effects⟩
  | ramp effects rise y thickness => exact moved_placeRamp dx dz d effects rise y thickness
  | wall effects y height =>
    have hmodify : (d.moved dx dz).modifyBlock (fun b => standing b effects y height) =
        (d.modifyBlock fun b => standing b effects y height).moved dx dz :=
      Draft.moved_modifyBlock dx dz d fun b => moved_standing dx dz b effects y height
    unfold place
    dsimp only
    rw [Draft.moved_currentBlock?, hmodify]
    cases d.currentBlock? with
    | none => rfl
    | some b => rfl

theorem moved_close (kind : String) (fields : Fields) (d : Draft) :
    close kind fields (d.moved dx dz) = (close kind fields d).moved dx dz := by
  unfold close
  split
  · rfl
  · next known _ =>
    rcases ofFields known fields with ⟨object, problems⟩
    dsimp only
    rw [moved_place]
    rfl

end Object

namespace Script

theorem moved_setHeight (d : Draft) (key value : String) (set : Heights → Decimal → Heights) :
    setHeight (d.moved dx dz) key value set = (setHeight d key value set).moved dx dz := by
  unfold setHeight
  split <;> rfl

theorem moved_setting (d : Draft) (key value : String) :
    setting (d.moved dx dz) key value = (setting d key value).moved dx dz := by
  unfold setting
  split
  · exact moved_setHeight ..
  · exact moved_setHeight ..
  · exact moved_setHeight ..
  all_goals rfl

theorem moved_adjustment (d : Draft) (key value : String) :
    adjustment (d.moved dx dz) key value = (adjustment d key value).moved dx dz := by
  unfold adjustment
  split
  · rfl
  · dsimp only
    split <;> rfl

/-- No statement tells a draft from one that is moved. -/
theorem respects_moved : Respects fun d e => e = d.moved dx dz :=
  .of_image (fun _ _ => rfl) (moved_setting dx dz) (moved_adjustment dx dz)
    fun d kind fields => Object.moved_close dx dz kind fields d

theorem moved_run (d : Draft) (mode : Mode) (text : String) :
    run mode text (d.moved dx dz) =
      ((run mode text d).1, (run mode text d).2.moved dx dz) :=
  (respects_moved dx dz).run_image mode text d

theorem moved_finish (d : Draft) (mode : Mode) :
    (finish mode (d.moved dx dz)).2 = (finish mode d).2.moved dx dz :=
  (respects_moved dx dz).finish (d := d) rfl mode

end Script

end Moved

/-! ### Drawings -/

namespace Placement

variable (k l : Int) (r : Rect) (origin : Offset)

theorem blockCenter_moved (heights : Heights) :
    blockCenter r ⟨origin.x + 18 * k, origin.y + 18 * l⟩ heights =
      (blockCenter r origin heights).moved (.ofInt k) (.ofInt l) := by
  have hx : r.left.toInt + r.right.toInt + 2 * (origin.x + 18 * k) =
      r.left.toInt + r.right.toInt + 2 * origin.x + 36 * k := by
    omega
  have hy : r.top.toInt + r.bottom.toInt + 2 * (origin.y + 18 * l) =
      r.top.toInt + r.bottom.toInt + 2 * origin.y + 36 * l := by
    omega
  simp only [blockCenter, Vec3.moved, hx, hy, scaleDoubled_add]

theorem arcCenter_moved :
    arcCenter r ⟨origin.x + 18 * k, origin.y + 18 * l⟩ =
      (arcCenter r origin).moved (.ofInt k) (.ofInt l) := by
  have hx : r.left.toInt + r.right.toInt + 2 * (origin.x + 18 * k) =
      r.left.toInt + r.right.toInt + 2 * origin.x + 36 * k := by
    omega
  have hy : r.top.toInt + r.bottom.toInt + 2 * (origin.y + 18 * l) =
      r.top.toInt + r.bottom.toInt + 2 * origin.y + 36 * l := by
    omega
  simp only [arcCenter, Vec3.moved, hx, hy, scaleDoubled_add]

end Placement

namespace Drawing

/-- A drawing whose origin is moved by whole units, with all that was drawn, and with other
flags. -/
def moved (k l : Int) (rectMoved arcMoved : Bool) (d : Drawing) : Drawing :=
  { d with
    draft := d.draft.moved (.ofInt k) (.ofInt l)
    pen :=
      { d.pen with
        origin := ⟨d.pen.origin.x + 18 * k, d.pen.origin.y + 18 * l⟩
        rectMoved
        arcMoved } }

/-- The second drawing is the first one, moved. A flag differs only as long as there is no shape
that it is about. -/
def Follows (k l : Int) (d e : Drawing) : Prop :=
  ∃ rectMoved arcMoved, e = d.moved k l rectMoved arcMoved ∧
    (rectMoved = d.pen.rectMoved ∨ d.draft.shapes.lastRect = none) ∧
    (arcMoved = d.pen.arcMoved ∨ d.draft.shapes.lastArc = none)

section Operations

variable (k l : Int) (rectMoved arcMoved : Bool) (d : Drawing)

theorem moved_raise (r : Rect) (color : Color) (rounding : Decimal) :
    (d.moved k l rectMoved arcMoved).raise r color rounding =
      (d.raise r color rounding).moved k l false arcMoved := by
  have hpush (b : Block) := Draft.moved_pushBlock (.ofInt k) (.ofInt l) d.draft b
  have hblock (heights : Heights) :
      ({ size := Placement.blockSize r d.pen.size heights
         center :=
           Placement.blockCenter r ⟨d.pen.origin.x + 18 * k, d.pen.origin.y + 18 * l⟩ heights
         color, rounding, effects := .standard } : Block) =
        Block.moved (.ofInt k) (.ofInt l)
          { size := Placement.blockSize r d.pen.size heights
            center := Placement.blockCenter r d.pen.origin heights
            color, rounding, effects := .standard } := by
    rw [Placement.blockCenter_moved]
    rfl
  simp only [raise, moved]
  rw [hblock, hpush]
  rfl

theorem moved_frameRect (corners : Corners) (r : Rect) :
    (d.moved k l rectMoved arcMoved).frameRect corners r =
      (d.frameRect corners r).moved k l false arcMoved := by
  have hraise := moved_raise k l rectMoved arcMoved
    (d.withShapes fun s => { s with lastRect := some r, paint := none }) r d.pen.color
    (d.rounding corners)
  cases corners <;> exact hraise

theorem moved_newArc (stroke : Stroke) (r : Rect) (heading : Heading) :
    (d.moved k l rectMoved arcMoved).newArc stroke r heading =
      (d.newArc stroke r heading).moved k l rectMoved false := by
  simp only [newArc, moved, Placement.arcCenter_moved]
  cases stroke <;> rfl

theorem moved_shiftOrigin (dh dv : Int16) :
    (d.moved k l rectMoved arcMoved).shiftOrigin dh dv =
      (d.shiftOrigin dh dv).moved k l true true := by
  have hx : d.pen.origin.x + 18 * k - dh.toInt = d.pen.origin.x - dh.toInt + 18 * k := by omega
  have hy : d.pen.origin.y + 18 * l - dv.toInt = d.pen.origin.y - dv.toInt + 18 * l := by omega
  simp only [shiftOrigin, moved, hx, hy]

theorem moved_flush :
    (d.moved k l rectMoved arcMoved).flush = d.flush.moved k l rectMoved arcMoved := by
  have hrun := Script.moved_run (.ofInt k) (.ofInt l) d.draft d.mode
    (String.intercalate " " d.texts)
  have htexts : (d.moved k l rectMoved arcMoved).texts = d.texts := rfl
  unfold flush
  rw [htexts]
  split
  · rfl
  · simp only [moved, hrun]

end Operations

namespace Follows

variable {k l : Int} {d e : Drawing}

theorem flush (h : Follows k l d e) : Follows k l d.flush e.flush := by
  obtain ⟨rectMoved, arcMoved, rfl, hrect, harc⟩ := h
  refine ⟨rectMoved, arcMoved, moved_flush .., ?_, ?_⟩
  · rw [pen_flush, lastRect_flush]
    exact hrect
  · rw [pen_flush, lastArc_flush]
    exact harc

theorem frameSameRect (h : Follows k l d e) (corners : Corners) :
    Follows k l (d.frameSameRect corners) (e.frameSameRect corners) := by
  obtain ⟨rectMoved, arcMoved, rfl, hrect, harc⟩ := h
  have hlast : (d.moved k l rectMoved arcMoved).draft.shapes.lastRect =
      d.draft.shapes.lastRect := rfl
  unfold Drawing.frameSameRect
  rw [hlast]
  cases hr : d.draft.shapes.lastRect with
  | none => exact ⟨rectMoved, arcMoved, rfl, .inr hr, harc⟩
  | some r =>
    -- there is a last rectangle, so the flags about it agree
    have hflag : rectMoved = d.pen.rectMoved := by
      rcases hrect with hflag | hnone
      · exact hflag
      · rw [hr] at hnone
        cases hnone
    subst hflag
    have hpaint : (d.moved k l d.pen.rectMoved arcMoved).draft.shapes.paint.getD
        (d.moved k l d.pen.rectMoved arcMoved).pen.color =
          d.draft.shapes.paint.getD d.pen.color := rfl
    have hmoved : (d.moved k l d.pen.rectMoved arcMoved).pen.rectMoved = d.pen.rectMoved := rfl
    have hrounding : (d.moved k l d.pen.rectMoved arcMoved).rounding corners =
        d.rounding corners := by
      cases corners <;> rfl
    dsimp only
    rw [hpaint, hmoved, hrounding]
    split
    · exact ⟨false, arcMoved, moved_raise .., .inl rfl, harc⟩
    · have hmodify := Draft.moved_modifyBlock (.ofInt k) (.ofInt l) d.draft
        (f := fun b => { b with color := d.draft.shapes.paint.getD d.pen.color }) fun _ => rfl
      have hshapes := d.draft.shapes_modifyBlock fun b =>
        { b with color := d.draft.shapes.paint.getD d.pen.color }
      refine ⟨d.pen.rectMoved, arcMoved, ?_, .inl rfl, ?_⟩
      · simp only [moved, hmodify]
      · rcases harc with harc | harc
        · exact .inl harc
        · exact .inr ((congrArg Shapes.lastArc hshapes).trans harc)

theorem sameArc (h : Follows k l d e) (stroke : Stroke) (start sweep : Int16) :
    Follows k l (d.sameArc stroke start sweep) (e.sameArc stroke start sweep) := by
  obtain ⟨rectMoved, arcMoved, rfl, hrect, harc⟩ := h
  have hlast : (d.moved k l rectMoved arcMoved).draft.shapes.lastArc =
      d.draft.shapes.lastArc := rfl
  have hcurrent : (d.moved k l rectMoved arcMoved).draft.shapes.arc =
      d.draft.shapes.arc.map (DrawnArc.moved (.ofInt k) (.ofInt l)) := rfl
  unfold Drawing.sameArc
  rw [hlast]
  cases hr : d.draft.shapes.lastArc with
  | none => exact ⟨rectMoved, arcMoved, rfl, hrect, .inr hr⟩
  | some r =>
    have hflag : arcMoved = d.pen.arcMoved := by
      rcases harc with hflag | hnone
      · exact hflag
      · rw [hr] at hnone
        cases hnone
    subst hflag
    have hmoved : (d.moved k l rectMoved d.pen.arcMoved).pen.arcMoved = d.pen.arcMoved := rfl
    dsimp only
    rw [hcurrent, hmoved]
    cases d.draft.shapes.arc with
    | none => exact ⟨rectMoved, false, moved_newArc .., hrect, .inl rfl⟩
    | some current =>
      have hheading : (current.moved (.ofInt k) (.ofInt l)).heading = current.heading := rfl
      dsimp only [Option.map_some]
      rw [hheading]
      split
      · refine ⟨rectMoved, d.pen.arcMoved, ?_, hrect, .inl rfl⟩
        cases stroke <;> rfl
      · exact ⟨rectMoved, false, moved_newArc .., hrect, .inl rfl⟩

theorem draw (h : Follows k l d e) (operation : Operation) :
    Follows k l (d.draw operation) (e.draw operation) := by
  cases operation with
  | sameRect stroke corners =>
    cases stroke with
    | frame => exact h.frameSameRect corners
    | paint =>
      obtain ⟨rectMoved, arcMoved, rfl, hrect, harc⟩ := h
      exact ⟨rectMoved, arcMoved, rfl, hrect, harc⟩
  | sameArc stroke start sweep => exact h.sameArc stroke start sweep
  | rect stroke corners r =>
    obtain ⟨rectMoved, arcMoved, rfl, hrect, harc⟩ := h
    cases stroke with
    | frame => exact ⟨false, arcMoved, moved_frameRect .., .inl rfl, harc⟩
    | paint => exact ⟨false, arcMoved, rfl, .inl rfl, harc⟩
  | arc stroke a =>
    obtain ⟨rectMoved, arcMoved, rfl, hrect, harc⟩ := h
    exact ⟨rectMoved, false, moved_newArc .., hrect, .inl rfl⟩
  | origin dh dv =>
    obtain ⟨rectMoved, arcMoved, rfl, hrect, harc⟩ := h
    exact ⟨true, true, moved_shiftOrigin .., .inl rfl, .inl rfl⟩
  | _ =>
    obtain ⟨rectMoved, arcMoved, rfl, hrect, harc⟩ := h
    exact ⟨rectMoved, arcMoved, rfl, hrect, harc⟩

theorem step (h : Follows k l d e) (operation : Operation) :
    Follows k l (d.step operation) (e.step operation) := by
  have hdraw := h.flush.draw operation
  cases operation with
  | text place text =>
    obtain ⟨rectMoved, arcMoved, rfl, hrect, harc⟩ := h
    exact ⟨rectMoved, arcMoved, rfl, hrect, harc⟩
  | _ => exact hdraw

theorem run (h : Follows k l d e) (operations : List Operation) :
    Follows k l (operations.foldl Drawing.step d) (operations.foldl Drawing.step e) := by
  induction operations generalizing d e with
  | nil => exact h
  | cons operation rest ih => exact ih (h.step operation)

theorem finish (h : Follows k l d e) :
    e.finish = d.finish.moved (.ofInt k) (.ofInt l) := by
  obtain ⟨rectMoved, arcMoved, hflush, -, -⟩ := h.flush
  unfold Drawing.finish
  rw [hflush]
  exact Script.moved_finish ..

end Follows

/-- What a conversion starts from has no entities that could move. -/
theorem follows_start (options : Options) {k l : Int} {dh dv : Int16}
    (hdh : dh.toInt = -(18 * k)) (hdv : dv.toInt = -(18 * l)) :
    Follows k l (start options.level options.heights)
      ((start options.level options.heights).step (.origin dh dv)) := by
  have hx : (0 : Int) - dh.toInt = 0 + 18 * k := by omega
  have hy : (0 : Int) - dv.toInt = 0 + 18 * l := by omega
  have hstep : (start options.level options.heights).step (.origin dh dv) =
      (start options.level options.heights).shiftOrigin dh dv := rfl
  have hzero : (start options.level options.heights).pen.origin = ⟨0, 0⟩ := rfl
  refine ⟨true, true, ?_, .inr rfl, .inr rfl⟩
  rw [hstep]
  simp only [shiftOrigin, moved, hzero, hx, hy]
  rfl

end Drawing

namespace Conversion

/-- Moving the origin first, by whole units, moves the level the other way and does nothing
else. -/
theorem ofOperations_origin (options : Options) (operations : List Operation) (dh dv : Int16)
    (hdh : 18 ∣ dh.toInt) (hdv : 18 ∣ dv.toInt) :
    ofOperations options (.origin dh dv :: operations) =
      (ofOperations options operations).moved (.ofInt (-(dh.toInt / 18)))
        (.ofInt (-(dv.toInt / 18))) := by
  have hx : dh.toInt = -(18 * -(dh.toInt / 18)) := by omega
  have hy : dv.toInt = -(18 * -(dv.toInt / 18)) := by omega
  have hfinish := ((Drawing.follows_start options hx hy).run operations).finish
  rw [ofOperations, List.foldl_cons, hfinish]
  rfl

/-- A wall and an incarnator, two units to the left and one down. -/
theorem ofOperations_origin_wall :
    let operations : List Operation :=
      [.rect .frame .square ⟨0, 0, 10, 25⟩, .arc .frame ⟨⟨-7, 0, 18, 18⟩, 0, 90⟩,
        .text (.dh 0) "object Incarnator end"]
    let c := ofOperations ⟨"", none, .ofInt 3, 0⟩ operations
    let c' := ofOperations ⟨"", none, .ofInt 3, 0⟩ (.origin 36 (-18) :: operations)
    c.level.blocks.map Block.center = [⟨⟨69⟩, ⟨150⟩, ⟨28⟩⟩] ∧
      c'.level.blocks.map Block.center = [⟨⟨-131⟩, ⟨150⟩, ⟨128⟩⟩] ∧
      c' = c.moved (.ofInt (-2)) (.ofInt 1) := by
  intro operations c c'
  have hmoved := ofOperations_origin ⟨"", none, .ofInt 3, 0⟩ operations 36 (-18) (by decide)
    (by decide)
  exact ⟨by decide +kernel, by decide +kernel, hmoved⟩

end Conversion
end Floorplan

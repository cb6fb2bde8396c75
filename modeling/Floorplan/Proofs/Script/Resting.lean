import Floorplan.Proofs.Decimal
import Floorplan.Proofs.Script.Fields
import Floorplan.Proofs.Script.Outcome

/-!
# Floorplan.Proofs.Script.Resting

Walls and slabs rest where their script says. The middle of a block is half its height above its
bottom, so a bottom that is told is one that is found again, to the hundredth, whichever way the half
was rounded (`Object.bottom_standing`, `Object.bottom_slab`). Nothing else of the block moves but its
height, and it is the last block still if it was (`Object.close_rests`).
-/

namespace Floorplan

/-- The last value of a key, if it is a decimal. -/
def Fields.number? (fields : Fields) (key : String) : Option Decimal :=
  (fields.values key).getLast?.bind fun text => (Decimal.parse text).toOption

theorem Fields.decimal_eq_number? (fields : Fields) (key : String) :
    (fields.decimal key).1 = fields.number? key := by
  unfold decimal read number? valid
  rw [last?_eq]
  cases (fields.values key).getLast? with
  | none => rfl
  | some text =>
    cases h : Decimal.parse text with
    | error e => simp [h, Except.toOption]
    | ok x => simp [h, Except.toOption]

/-- What becomes of a block that is moved to a bottom and made as high as told: nothing else of its
form, place and color changes. -/
structure Block.Rests (b b' : Block) (bottom height : Decimal) : Prop where
  bottom : b'.bottom = bottom
  height : b'.size.y = height
  width : b'.size.x = b.size.x
  depth : b'.size.z = b.size.z
  x : b'.center.x = b.center.x
  z : b'.center.z = b.center.z
  color : b'.color = b.color
  rounding : b'.rounding = b.rounding

/-- A block stands for the one at an index: there are as many blocks, and what was last is last. -/
structure StandsFor (b' : Block) (i : Nat) (blocks blocks' : List Block) : Prop where
  count : blocks'.length = blocks.length
  last : i + 1 = blocks.length → blocks'.getLast? = some b'

section Lists

variable {blocks : List Block} {i : Nat}

theorem standsFor_set (b' : Block) (h : i < blocks.length) :
    StandsFor b' i blocks (blocks.set i b') where
  count := List.length_set
  last hlast := by
    rw [List.getLast?_eq_getElem?, List.length_set, ← hlast, Nat.add_sub_cancel,
      List.getElem?_set_self h]

theorem standsFor_concat (b' : Block) (h : i < blocks.length) :
    StandsFor b' i blocks (blocks.eraseIdx i ++ [b']) where
  count := by
    rw [List.length_append, List.length_eraseIdx_of_lt h, List.length_singleton]
    omega
  last _ := List.getLast?_concat

end Lists

namespace Object

/-! ### Blocks that are moved -/

theorem bottom_standing (b : Block) (effects : Effects) (y height : Option Decimal) :
    (standing b effects y height).bottom = y.getD b.bottom :=
  Decimal.add_sub_cancel ..

theorem rests_standing (b : Block) (effects : Effects) (y height : Option Decimal) :
    b.Rests (standing b effects y height) (y.getD b.bottom) (height.getD b.size.y) :=
  ⟨bottom_standing b effects y height, rfl, rfl, rfl, rfl, rfl, rfl, rfl⟩

/-- How thick a slab is: as told or as its corners are round, unless that is nothing. -/
def slabHeight (b : Block) (thickness : Option Decimal) : Decimal :=
  if thickness.getD b.rounding = 0 then b.size.y else thickness.getD b.rounding

theorem bottom_slab (b : Block) (effects : Effects) (y : Decimal) (thickness : Option Decimal) :
    (slab b effects y thickness).bottom = y :=
  Decimal.add_sub_cancel ..

theorem rests_slab (b : Block) (effects : Effects) (y : Decimal) (thickness : Option Decimal) :
    b.Rests (slab b effects y thickness) y (slabHeight b thickness) :=
  ⟨bottom_slab b effects y thickness, rfl, rfl, rfl, rfl, rfl, rfl, rfl⟩

/-! ### Objects that need the block only -/

variable {d : Draft} {i : Nat} {b : Block}

theorem made_of_rectangle (hcurrent : d.shapes.block = some i) (hb : d.level.blocks[i]? = some b)
    (object : Object) (hneeds : object.needs = [.rectangle]) : Made d object (object.place d) := by
  have hstands : d.BlockStands := by
    intro j hj
    rw [hcurrent] at hj
    cases hj
    exact (List.getElem?_eq_some_iff.mp hb).1
  refine (made_or_lacks hstands object).resolve_right ?_
  rintro ⟨shape, hshape, hlacks, -⟩
  rw [hneeds, List.mem_singleton] at hshape
  subst hshape
  rw [Draft.Lacks, Draft.currentBlock?_of_some hcurrent, hb] at hlacks
  cases hlacks

theorem level_close (kind : ObjectKind) (fields : Fields) (d : Draft) :
    (close kind.text fields d).level = ((ofFields kind fields).1.place d).level := by
  obtain ⟨faults, hclose⟩ := close_text kind fields
  rw [hclose]
  rfl

theorem ofFields_wall (fields : Fields) :
    (ofFields .wall fields).1 =
      .wall fields.effects.1 (fields.number? "y") (fields.number? "height") := by
  rw [← Fields.decimal_eq_number?, ← Fields.decimal_eq_number?]
  rfl

theorem ofFields_ramp (fields : Fields) :
    (ofFields .ramp fields).1 =
      .ramp fields.effects.1 ((fields.number? "deltaY").getD 0) ((fields.number? "y").getD 0)
        (fields.number? "thickness") := by
  rw [← Fields.decimal_eq_number?, ← Fields.decimal_eq_number?, ← Fields.decimal_eq_number?]
  rfl

theorem blocks_close_wall (hcurrent : d.shapes.block = some i) (hb : d.level.blocks[i]? = some b)
    (fields : Fields) :
    (close "Wall" fields d).level.blocks =
      d.level.blocks.set i
        (standing b fields.effects.1 (fields.number? "y") (fields.number? "height")) := by
  have hmade := made_of_rectangle hcurrent hb
    (.wall fields.effects.1 (fields.number? "y") (fields.number? "height")) rfl
  rw [show "Wall" = ObjectKind.wall.text from rfl, level_close, ofFields_wall]
  generalize place _ d = e at hmade ⊢
  cases hmade with
  | wall effects y height hcurrent' hb' =>
    rw [hcurrent] at hcurrent'
    cases hcurrent'
    rw [hb] at hb'
    cases hb'
    rfl

theorem blocks_close_flat (hcurrent : d.shapes.block = some i) (hb : d.level.blocks[i]? = some b)
    {fields : Fields} (hflat : (fields.number? "deltaY").getD 0 = 0) :
    (close "Ramp" fields d).level.blocks =
      d.level.blocks.eraseIdx i ++
        [slab b fields.effects.1 ((fields.number? "y").getD 0) (fields.number? "thickness")] := by
  have hmade := made_of_rectangle hcurrent hb
    (.ramp fields.effects.1 0 ((fields.number? "y").getD 0) (fields.number? "thickness"))
    (by rw [needs, if_pos rfl])
  rw [show "Ramp" = ObjectKind.ramp.text from rfl, level_close, ofFields_ramp, hflat]
  generalize place _ d = e at hmade ⊢
  cases hmade with
  | slab effects y thickness hcurrent' hb' =>
    rw [hcurrent] at hcurrent'
    cases hcurrent'
    rw [hb] at hb'
    cases hb'
    rfl
  | ramp effects y thickness hrise => exact absurd rfl hrise

/-- A wall rests where its script says, or where it did, and is as high as said, or as it was. A ramp
that does not rise, because it is told to rise by nothing, or by what is no number, or is not told,
rests where its script says, or on the ground; it is as thick as said, or as its corners are round,
or as high as it was if that comes to nothing. Of all else of the block nothing changes. A wall stays
where it is among the blocks and a slab becomes the last one. -/
theorem close_rests (hcurrent : d.shapes.block = some i) (hb : d.level.blocks[i]? = some b)
    (fields : Fields) :
    (∃ b' : Block,
      b.Rests b' ((fields.number? "y").getD b.bottom) ((fields.number? "height").getD b.size.y) ∧
        (close "Wall" fields d).level.blocks = d.level.blocks.set i b' ∧
        StandsFor b' i d.level.blocks (close "Wall" fields d).level.blocks) ∧
      (fields.number? "deltaY" = none ∨ fields.number? "deltaY" = some 0 →
        ∃ b' : Block,
          b.Rests b' ((fields.number? "y").getD 0) (slabHeight b (fields.number? "thickness")) ∧
            (close "Ramp" fields d).level.blocks = d.level.blocks.eraseIdx i ++ [b'] ∧
            StandsFor b' i d.level.blocks (close "Ramp" fields d).level.blocks) := by
  have hi := (List.getElem?_eq_some_iff.mp hb).1
  constructor
  · refine ⟨_, rests_standing .., blocks_close_wall hcurrent hb fields, ?_⟩
    rw [blocks_close_wall hcurrent hb fields]
    exact standsFor_set _ hi
  · intro hrise
    have hflat : (fields.number? "deltaY").getD 0 = 0 := by
      rcases hrise with hnone | hzero
      · rw [hnone]
        rfl
      · rw [hzero]
        rfl
    refine ⟨_, rests_slab .., blocks_close_flat hcurrent hb hflat, ?_⟩
    rw [blocks_close_flat hcurrent hb hflat]
    exact standsFor_concat _ hi

/-- The second of two blocks is an odd number of hundredths high and is told to rest below the ground.
The ramp is told to rise by no number, and how thick it is by the corners of the block. -/
theorem close_rests_odd :
    let other : Block := ⟨⟨⟨100⟩, ⟨300⟩, ⟨100⟩⟩, ⟨⟨50⟩, ⟨150⟩, ⟨50⟩⟩, .black, 0, .standard⟩
    let b : Block := ⟨⟨⟨100⟩, ⟨301⟩, ⟨100⟩⟩, ⟨⟨250⟩, ⟨151⟩, ⟨50⟩⟩, .black, ⟨5⟩, .standard⟩
    let d := ((Draft.start (.named "") ⟨.ofInt 3, 0, 0⟩).pushBlock other).pushBlock b
    let fields : Fields := ⟨[("y", "-1.01"), ("deltaY", "high")]⟩
    (d.shapes.block = some 1 ∧ d.level.blocks[1]? = some b) ∧
      (∃ b', b.Rests b' ⟨-101⟩ ⟨301⟩ ∧ (close "Wall" fields d).level.blocks = [other, b'] ∧
        1 + 1 = d.level.blocks.length ∧
        (close "Wall" fields d).level.blocks.getLast? = some b') ∧
      fields.number? "deltaY" = none ∧
        ∃ b', b.Rests b' ⟨-101⟩ ⟨5⟩ ∧ (close "Ramp" fields d).level.blocks = [other, b'] ∧
          1 + 1 = d.level.blocks.length ∧
          (close "Ramp" fields d).level.blocks.getLast? = some b' := by
  intro other b d fields
  have hcurrent : d.shapes.block = some 1 := rfl
  have hb : d.level.blocks[1]? = some b := rfl
  have hy : fields.number? "y" = some ⟨-101⟩ := by decide +kernel
  have hheight : fields.number? "height" = none := by decide +kernel
  have hthickness : fields.number? "thickness" = none := by decide +kernel
  have hrise : fields.number? "deltaY" = none := by decide +kernel
  obtain ⟨⟨wall, hwall, hblocks, hlast⟩, hramp⟩ := close_rests hcurrent hb fields
  obtain ⟨flat, hflat, hblocks', hlast'⟩ := hramp (.inl hrise)
  rw [hy, hheight] at hwall
  rw [hy, hthickness] at hflat
  exact ⟨⟨hcurrent, hb⟩, ⟨wall, hwall, hblocks, rfl, hlast.last rfl⟩, hrise,
    flat, hflat, hblocks', rfl, hlast'.last rfl⟩

end Object
end Floorplan

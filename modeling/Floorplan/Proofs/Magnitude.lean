import Floorplan.Conversion
import Floorplan.Proofs.Decimal
import Floorplan.Proofs.Placement
import Floorplan.Proofs.Rounding
import Floorplan.Proofs.Script.Frame

/-!
# Floorplan.Proofs.Magnitude

How large the coordinates of a level get. The origin moves by a word with each operation and is
never clamped, so what is drawn at it is bounded by the number of operations only; the numbers of a
script are bounded by `Decimal.limit`. A block keeps its bottom in reach whatever scripts do to it
(`Block.Fits`), and its middle is half a height above that, so heights do not add up from one
script to the next.

`Drawing.Fits n k` is what holds after `k` of `n` operations. All bounds are on hundredths, of which
`limit` has 2147483647.
-/

namespace Floorplan

/-! ### Numbers -/

namespace Rounding

theorem natAbs_away (n : Int) (d : Nat) :
    (away n d).natAbs = (2 * n.natAbs + d) / (2 * d) := by
  rcases Int.eq_nat_or_neg n with ⟨m, rfl | rfl⟩
  · rw [away_natCast, Int.natAbs_natCast, Int.natAbs_natCast]
  · rw [away_neg, away_natCast, Int.natAbs_neg, Int.natAbs_neg, Int.natAbs_natCast,
      Int.natAbs_natCast]

end Rounding

namespace Decimal

/-- At most so many hundredths from zero. -/
def Within (bound : Nat) (x : Decimal) : Prop := x.hundredths.natAbs ≤ bound

variable {x y : Decimal} {a b : Nat}

theorem within_zero (bound : Nat) : Within bound 0 := Nat.zero_le bound

theorem Within.mono (h : x.Within a) (hab : a ≤ b) : x.Within b := Nat.le_trans h hab

theorem Within.add (hx : x.Within a) (hy : y.Within b) : (x + y).Within (a + b) := by
  unfold Within at *
  rw [hundredths_add]
  omega

theorem Within.sub (hx : x.Within a) (hy : y.Within b) : (x - y).Within (a + b) := by
  unfold Within at *
  rw [hundredths_sub]
  omega

theorem Within.half (h : x.Within a) : x.half.Within ((a + 1) / 2) := by
  have hhalf : x.half.hundredths.natAbs = (2 * x.hundredths.natAbs + 2) / (2 * 2) :=
    Rounding.natAbs_away x.hundredths 2
  unfold Within at *
  omega

theorem Within.getD {o : Option Decimal} (ho : ∀ z ∈ o, z.Within a) (hx : x.Within a) :
    (o.getD x).Within a := by
  cases o with
  | none => exact hx
  | some z => exact ho z rfl

theorem within_of_inRange (h : x.inRange = true) : x.Within 2147483647 := by
  have hle : x.hundredths.natAbs ≤ limit.hundredths.natAbs := of_decide_eq_true h
  exact hle

/-- A number in text is in range. -/
theorem within_of_parse {text : String} (h : parse text = .ok x) : x.Within 2147483647 := by
  unfold parse at h
  dsimp only at h
  split at h
  · cases h
  · split at h
    · cases h
    · next hmagnitude =>
      have hlimit : limit.hundredths.natAbs = 2147483647 := rfl
      cases h
      unfold Within
      dsimp only
      split <;> omega

end Decimal

namespace Vec3

/-- A place not further than this from the middle across, and not higher or lower than that. -/
structure Within (across up : Nat) (p : Vec3) : Prop where
  x : p.x.Within across
  y : p.y.Within up
  z : p.z.Within across

theorem Within.mono {across up across' up' : Nat} {p : Vec3} (h : p.Within across up)
    (hacross : across ≤ across') (hup : up ≤ up') : p.Within across' up' :=
  ⟨h.x.mono hacross, h.y.mono hup, h.z.mono hacross⟩

theorem Within.raised {across up more : Nat} {p : Vec3} (h : p.Within across up) {dy : Decimal}
    (hdy : dy.Within more) : (p.raised dy).Within across (up + more) :=
  ⟨h.x, h.y.add hdy, h.z⟩

end Vec3

/-! ### Placement -/

namespace Placement

theorem within_scale {raw : Int} (h : raw.natAbs ≤ 98303) : (scale raw).Within 600000 := by
  have haway : (scale raw).hundredths.natAbs = (2 * (raw * 100).natAbs + 18) / (2 * 18) :=
    Rounding.natAbs_away (raw * 100) 18
  unfold Decimal.Within
  omega

theorem within_scaleDoubled {doubled : Int} {n : Nat} (h : doubled.natAbs ≤ 65536 * n) :
    (scaleDoubled doubled).Within (200000 * n) := by
  have haway : (scaleDoubled doubled).hundredths.natAbs =
      (2 * (doubled * 100).natAbs + 36) / (2 * 36) :=
    Rounding.natAbs_away (doubled * 100) 36
  unfold Decimal.Within
  omega

/-- An offset that is the sum of so many of one operation. -/
structure Near (k : Nat) (o : Offset) : Prop where
  x : o.x.natAbs ≤ 32768 * k
  y : o.y.natAbs ≤ 32768 * k

theorem Near.mono {k l : Nat} {o : Offset} (h : Near k o) (hkl : k ≤ l) : Near l o := by
  obtain ⟨hx, hy⟩ := h
  exact ⟨by omega, by omega⟩

theorem near_ofPoint (p : Point) : Near 1 (.ofPoint p) :=
  ⟨natAbs_toInt_le p.h, natAbs_toInt_le p.v⟩

theorem natAbs_doubled_le {k n : Nat} (hkn : k < n) {shift : Int} (h : shift.natAbs ≤ 32768 * k)
    (a b : Int16) : (a.toInt + b.toInt + 2 * shift).natAbs ≤ 65536 * n := by
  have ha := natAbs_toInt_le a
  have hb := natAbs_toInt_le b
  omega

theorem natAbs_span_le (a b : Int16) {pen : Int} (hpen : pen.natAbs ≤ 32768 * 1) :
    (span a.toInt b.toInt pen).natAbs ≤ 98303 := by
  have ha := Int16.le_toInt a
  have ha' := Int16.toInt_lt a
  have hb := Int16.le_toInt b
  have hb' := Int16.toInt_lt b
  unfold span
  omega

theorem within_arcCenter {k n : Nat} (hkn : k < n) {origin : Offset} (h : Near k origin)
    (r : Rect) : (arcCenter r origin).Within (200000 * n) 0 where
  x := within_scaleDoubled (natAbs_doubled_le hkn h.x ..)
  y := Decimal.within_zero 0
  z := within_scaleDoubled (natAbs_doubled_le hkn h.y ..)

end Placement

/-! ### Blocks and ramps -/

/-- How large a block gets in a drawing of `n` operations, and how far away. -/
structure Block.Fits (n : Nat) (b : Block) : Prop where
  size : b.size.Within (300000 * (n + 1)) 2147483647
  x : b.center.x.Within (200000 * n)
  z : b.center.z.Within (200000 * n)
  bottom : b.bottom.Within 4294967294
  rounding : b.rounding.Within 2147483647

theorem Block.Fits.center {n : Nat} {b : Block} (h : b.Fits n) :
    b.center.Within (200000 * n) 6442450941 where
  x := h.x
  y := by
    have hsum := h.bottom.add h.size.y.half
    rw [Block.bottom, Decimal.sub_add_cancel] at hsum
    exact hsum.mono (by omega)
  z := h.z

structure Ramp.Fits (n : Nat) (r : Ramp) : Prop where
  base : r.base.Within (500000 * (n + 1)) 4294967294
  top : r.top.Within (500000 * (n + 1)) 4294967294
  width : r.width.Within (500000 * (n + 1))

structure Heights.Fits (h : Heights) : Prop where
  wall : h.wall.Within 2147483647
  base : h.base.Within 2147483647
  lift : h.lift.Within 2147483647

namespace Object

/-- All numbers of the object are in range. -/
def Fits : Object → Prop
  | incarnator y => y.Within 2147483647
  | goody _ y _ _ _ => y.Within 2147483647
  | ramp _ rise y thickness =>
    rise.Within 2147483647 ∧ y.Within 2147483647 ∧ ∀ t ∈ thickness, t.Within 2147483647
  | wall _ y height => (∀ z ∈ y, z.Within 2147483647) ∧ ∀ t ∈ height, t.Within 2147483647

theorem within_decimal (fields : Fields) (key : String) :
    ∀ x ∈ (fields.decimal key).1, x.Within 2147483647 := by
  intro x hx
  unfold Fields.decimal Fields.read Fields.valid at hx
  split at hx
  · cases hx
  · next text _ =>
    dsimp only at hx
    cases hparse : Decimal.parse text with
    | error e =>
      rw [hparse] at hx
      cases hx
    | ok y =>
      rw [hparse] at hx
      cases hx
      exact Decimal.within_of_parse hparse

theorem fits_ofFields (kind : ObjectKind) (fields : Fields) : (ofFields kind fields).1.Fits := by
  have hgetD : ∀ key, ((fields.decimal key).1.getD 0).Within 2147483647 := fun key =>
    .getD (within_decimal fields key) (Decimal.within_zero _)
  cases kind with
  | incarnator => exact hgetD "y"
  | goody => exact hgetD "y"
  | ramp => exact ⟨hgetD "deltaY", hgetD "y", within_decimal fields "thickness"⟩
  | wall => exact ⟨within_decimal fields "y", within_decimal fields "height"⟩

variable {n : Nat} {b : Block}

theorem fits_slab (h : b.Fits n) (effects : Effects) {y : Decimal} (hy : y.Within 2147483647)
    {thickness : Option Decimal} (hthickness : ∀ t ∈ thickness, t.Within 2147483647) :
    (slab b effects y thickness).Fits n := by
  have hwanted : (thickness.getD b.rounding).Within 2147483647 := .getD hthickness h.rounding
  unfold slab
  dsimp only
  split
  · refine ⟨h.size, h.x, h.z, ?_, h.rounding⟩
    rw [Block.bottom, Decimal.add_sub_cancel]
    exact hy.mono (by omega)
  · refine ⟨⟨h.size.x, hwanted, h.size.z⟩, h.x, h.z, ?_, h.rounding⟩
    rw [Block.bottom, Decimal.add_sub_cancel]
    exact hy.mono (by omega)

theorem fits_standing (h : b.Fits n) (effects : Effects) {y height : Option Decimal}
    (hy : ∀ z ∈ y, z.Within 2147483647) (hheight : ∀ t ∈ height, t.Within 2147483647) :
    (standing b effects y height).Fits n where
  size := ⟨h.size.x, .getD hheight h.size.y, h.size.z⟩
  x := h.x
  z := h.z
  bottom := by
    have hbottom : (y.getD b.bottom).Within 4294967294 :=
      .getD (fun z hz => (hy z hz).mono (by omega)) h.bottom
    rw [Block.bottom, standing, Decimal.add_sub_cancel]
    exact hbottom
  rounding := h.rounding

theorem fits_rampOver (h : b.Fits n) (arc : DrawnArc) (effects : Effects) {rise y : Decimal}
    (hrise : rise.Within 2147483647) (hy : y.Within 2147483647) (thickness : Option Decimal) :
    (rampOver b arc effects rise y thickness).Fits n := by
  have hbase : y.Within 4294967294 := hy.mono (by omega)
  have htop : (y + rise).Within 4294967294 := hy.add hrise
  have hcenter : ∀ {c : Decimal}, c.Within (200000 * n) → c.Within (500000 * (n + 1)) :=
    fun hc => hc.mono (by omega)
  have hlow : ∀ {c size : Decimal}, c.Within (200000 * n) → size.Within (300000 * (n + 1)) →
      (c - size.half).Within (500000 * (n + 1)) := fun hc hsize =>
    (hc.sub hsize.half).mono (by omega)
  have hhigh : ∀ {c size : Decimal}, c.Within (200000 * n) → size.Within (300000 * (n + 1)) →
      (c + size.half).Within (500000 * (n + 1)) := fun hc hsize =>
    (hc.add hsize.half).mono (by omega)
  have hwidth : ∀ {size : Decimal}, size.Within (300000 * (n + 1)) →
      size.Within (500000 * (n + 1)) := fun hsize => hsize.mono (by omega)
  have hx := hcenter h.x
  have hz := hcenter h.z
  have hwest := hlow h.x h.size.x
  have heast := hhigh h.x h.size.x
  have hnorth := hlow h.z h.size.z
  have hsouth := hhigh h.z h.size.z
  unfold rampOver Placement.rampBounds
  cases arc.heading.quarter with
  | north => exact ⟨⟨hx, hbase, hsouth⟩, ⟨hx, htop, hnorth⟩, hwidth h.size.x⟩
  | east => exact ⟨⟨hwest, hbase, hz⟩, ⟨heast, htop, hz⟩, hwidth h.size.z⟩
  | south => exact ⟨⟨hx, hbase, hnorth⟩, ⟨hx, htop, hsouth⟩, hwidth h.size.x⟩
  | west => exact ⟨⟨heast, hbase, hz⟩, ⟨hwest, htop, hz⟩, hwidth h.size.z⟩

end Object

/-! ### Drafts -/

structure Level.Fits (n : Nat) (level : Level) : Prop where
  incarnators : ∀ i ∈ level.incarnators, i.location.Within (200000 * n) 2147483647
  blocks : ∀ b ∈ level.blocks, b.Fits n
  ramps : ∀ r ∈ level.ramps, r.Fits n
  goodies : ∀ g ∈ level.goodies, g.location.Within (200000 * n) 2147483647

structure Draft.Fits (n : Nat) (d : Draft) : Prop where
  level : d.level.Fits n
  arc : ∀ a ∈ d.shapes.arc, a.center.Within (200000 * n) 0
  heights : d.heights.Fits

namespace Draft.Fits

variable {n : Nat} {d : Draft}

theorem withBlocks (h : d.Fits n) {blocks : List Block} (hblocks : ∀ b ∈ blocks, b.Fits n) :
    (d.withBlocks blocks).Fits n :=
  ⟨⟨h.level.incarnators, hblocks, h.level.ramps, h.level.goodies⟩, h.arc, h.heights⟩

theorem block (h : d.Fits n) {i : Nat} {b : Block} (hb : d.level.blocks[i]? = some b) : b.Fits n :=
  h.level.blocks b (List.mem_of_getElem? hb)

theorem eraseIdx (h : d.Fits n) (i : Nat) : ∀ b ∈ d.level.blocks.eraseIdx i, b.Fits n :=
  fun b hb => h.level.blocks b (List.mem_of_mem_eraseIdx hb)

theorem addBlock (h : d.Fits n) {b : Block} (hb : b.Fits n) : (d.addBlock b).Fits n := by
  apply h.withBlocks
  rw [List.forall_mem_append, List.forall_mem_singleton]
  exact ⟨h.level.blocks, hb⟩

theorem modifyBlock (h : d.Fits n) {f : Block → Block} (hf : ∀ b, b.Fits n → (f b).Fits n) :
    (d.modifyBlock f).Fits n := by
  have hblocks := Draft.forall_mem_modifyBlock h.level.blocks hf
  unfold Draft.modifyBlock at hblocks ⊢
  split at hblocks
  · exact h
  · exact h.withBlocks hblocks

theorem made {e : Draft} {object : Object} (h : d.Fits n) (hobject : object.Fits)
    (hmade : Object.Made d object e) : e.Fits n := by
  have hgone : ∀ a ∈ (none : Option DrawnArc), a.center.Within (200000 * n) 0 := by
    intro a ha
    cases ha
  cases hmade with
  | @incarnator arc y harc =>
    have hplace : (arc.center.raised y).Within (200000 * n) 2147483647 :=
      ((h.arc arc harc).raised hobject).mono (Nat.le_refl _) (by omega)
    refine ⟨⟨?_, h.level.blocks, h.level.ramps, h.level.goodies⟩, hgone, h.heights⟩
    rw [List.forall_mem_append, List.forall_mem_singleton]
    exact ⟨h.level.incarnators, hplace⟩
  | @goody arc effects y kind items spin harc =>
    have hplace : (arc.center.raised y).Within (200000 * n) 2147483647 :=
      ((h.arc arc harc).raised hobject).mono (Nat.le_refl _) (by omega)
    refine ⟨⟨h.level.incarnators, h.level.blocks, h.level.ramps, ?_⟩, hgone, h.heights⟩
    rw [List.forall_mem_append, List.forall_mem_singleton]
    exact ⟨h.level.goodies, hplace⟩
  | @slab i b effects y thickness hi hb =>
    obtain ⟨-, hy, hthickness⟩ := hobject
    have hslab := Object.fits_slab (h.block hb) effects hy hthickness
    refine ⟨⟨h.level.incarnators, ?_, h.level.ramps, h.level.goodies⟩, h.arc, h.heights⟩
    rw [List.forall_mem_append, List.forall_mem_singleton]
    exact ⟨h.eraseIdx i, hslab⟩
  | @ramp i b arc effects rise y thickness hrise hi hb harc =>
    obtain ⟨hin, hy, hthickness⟩ := hobject
    have hramp := Object.fits_rampOver (h.block hb) arc effects hin hy thickness
    refine ⟨⟨h.level.incarnators, h.eraseIdx i, ?_, h.level.goodies⟩, hgone, h.heights⟩
    rw [List.forall_mem_append, List.forall_mem_singleton]
    exact ⟨h.level.ramps, hramp⟩
  | @wall i b effects y height hi hb =>
    obtain ⟨hy, hheight⟩ := hobject
    have hwall := Object.fits_standing (h.block hb) effects hy hheight
    refine ⟨⟨h.level.incarnators, ?_, h.level.ramps, h.level.goodies⟩, h.arc, h.heights⟩
    intro b' hb'
    rcases List.mem_or_eq_of_mem_set hb' with hb' | rfl
    · exact h.level.blocks b' hb'
    · exact hwall

theorem outcome {e : Draft} {object : Object} (h : d.Fits n) (hobject : object.Fits)
    (houtcome : Object.Outcome d object e) : e.Fits n := by
  cases houtcome with
  | made hmade => exact h.made hobject hmade
  | lack => exact ⟨h.level, by simp [Draft.lack, Draft.clearShapes, Shapes.clear], h.heights⟩
  | strayFlat => exact ⟨h.level, h.arc, h.heights⟩
  | strayRamp => exact ⟨h.level, by simp [Draft.clearShapes, Shapes.clear], h.heights⟩

theorem close (h : d.Fits n) (kind : String) (fields : Fields) :
    (Object.close kind fields d).Fits n := by
  unfold Object.close
  split
  · exact ⟨h.level, h.arc, h.heights⟩
  · next known _ =>
    have hplace := h.outcome (Object.fits_ofFields known fields) (Object.outcome_place _ d)
    exact ⟨hplace.level, hplace.arc, hplace.heights⟩

theorem setHeight (h : d.Fits n) (key value : String) {set : Heights → Decimal → Heights}
    (hset : ∀ {x}, x.Within 2147483647 → (set d.heights x).Fits) :
    (Script.setHeight d key value set).Fits n := by
  unfold Script.setHeight
  split
  · next x hx => exact ⟨h.level, h.arc, hset (Decimal.within_of_parse hx)⟩
  · exact ⟨h.level, h.arc, h.heights⟩

theorem setting (h : d.Fits n) (key value : String) : (Script.setting d key value).Fits n := by
  have htexts : ∀ author tagline description : String,
      ({ d.level with author, tagline, description } : Level).Fits n := fun _ _ _ =>
    ⟨h.level.incarnators, h.level.blocks, h.level.ramps, h.level.goodies⟩
  unfold Script.setting
  split
  · exact h.setHeight _ _ fun hx => ⟨h.heights.wall, h.heights.base, hx⟩
  · exact h.setHeight _ _ fun hx => ⟨hx, h.heights.base, h.heights.lift⟩
  · exact h.setHeight _ _ fun hx => ⟨h.heights.wall, hx, h.heights.lift⟩
  · exact ⟨htexts _ _ _, h.arc, h.heights⟩
  · exact ⟨htexts _ _ _, h.arc, h.heights⟩
  · exact ⟨htexts _ _ _, h.arc, h.heights⟩
  · exact ⟨h.level, h.arc, h.heights⟩

theorem adjustment (h : d.Fits n) (key value : String) :
    (Script.adjustment d key value).Fits n := by
  have hcolors : ∀ (sky : Option Sky) (ground : Option Ground),
      ({ d.level with sky, ground } : Level).Fits n := fun _ _ =>
    ⟨h.level.incarnators, h.level.blocks, h.level.ramps, h.level.goodies⟩
  unfold Script.adjustment
  split
  · exact ⟨h.level, h.arc, h.heights⟩
  · dsimp only
    split
    · exact ⟨hcolors _ _, h.arc, h.heights⟩
    · exact ⟨hcolors _ _, h.arc, h.heights⟩
    · exact ⟨hcolors _ _, h.arc, h.heights⟩
    · exact ⟨h.level, h.arc, h.heights⟩

end Draft.Fits

theorem Script.keeps_fits (n : Nat) : Keeps (Draft.Fits n) where
  report _ h := ⟨h.level, h.arc, h.heights⟩
  setting key value h := h.setting key value
  adjustment key value h := h.adjustment key value
  close kind fields h := h.close kind fields

/-! ### Drawings -/

/-- What holds after `k` of `n` operations. -/
structure Drawing.Fits (n k : Nat) (d : Drawing) : Prop where
  origin : Placement.Near k d.pen.origin
  pen : Placement.Near 1 d.pen.size
  draft : d.draft.Fits n

namespace Drawing.Fits

open Placement

variable {n k : Nat} {d : Drawing}

theorem flush (h : d.Fits n k) : d.flush.Fits n k := by
  unfold Drawing.flush
  split
  · exact h
  · exact ⟨h.origin, h.pen, (Script.keeps_fits n).run h.draft d.mode _⟩

theorem withShapes (h : d.Fits n k) {f : Shapes → Shapes}
    (harc : (f d.draft.shapes).arc = d.draft.shapes.arc) : (d.withShapes f).Fits n k := by
  refine ⟨h.origin, h.pen, h.draft.level, ?_, h.draft.heights⟩
  intro a ha
  exact h.draft.arc a (harc ▸ ha)

theorem within_rounding (d : Drawing) (corners : Corners) :
    (d.rounding corners).Within 2147483647 := by
  cases corners with
  | square => exact Decimal.within_zero _
  | round =>
    have hoval := natAbs_toInt_le d.pen.oval.h
    exact (within_scale (by omega)).mono (by omega)

theorem raise (h : d.Fits n k) (hkn : k < n) (r : Rect) (color : Color) {rounding : Decimal}
    (hrounding : rounding.Within 2147483647) : (d.raise r color rounding).Fits n k := by
  have hheights := h.draft.heights
  have hblock : Block.Fits n
      { size := blockSize r d.pen.size d.draft.heights
        center := blockCenter r d.pen.origin d.draft.heights
        color
        rounding
        effects := .standard } := by
    refine ⟨⟨?_, hheights.wall, ?_⟩, ?_, ?_, ?_, hrounding⟩
    · exact (within_scale (natAbs_span_le _ _ h.pen.x)).mono (by omega)
    · exact (within_scale (natAbs_span_le _ _ h.pen.y)).mono (by omega)
    · exact within_scaleDoubled (natAbs_doubled_le hkn h.origin.x ..)
    · exact within_scaleDoubled (natAbs_doubled_le hkn h.origin.y ..)
    · rw [Block.bottom, blockSize, blockCenter, Decimal.add_sub_cancel]
      exact hheights.base.add hheights.lift
  have hpush := h.draft.addBlock hblock
  exact ⟨h.origin, h.pen, hpush.level, hpush.arc,
    hheights.wall, hheights.base, Decimal.within_zero _⟩

theorem frameSameRect (h : d.Fits n k) (hkn : k < n) (corners : Corners) :
    (d.frameSameRect corners).Fits n k := by
  unfold Drawing.frameSameRect
  split
  · exact h
  · dsimp only
    split
    · exact h.raise hkn _ _ (within_rounding d corners)
    · refine ⟨h.origin, h.pen, h.draft.modifyBlock ?_⟩
      intro b hb
      exact ⟨hb.size, hb.x, hb.z, hb.bottom, hb.rounding⟩

theorem applyStroke {a : DrawnArc} {bound : Nat} (h : a.center.Within bound 0) (color : Color)
    (stroke : Stroke) : (applyStroke a color stroke).center.Within bound 0 := by
  cases stroke <;> exact h

theorem newArc (h : d.Fits n k) (hkn : k < n) (stroke : Stroke) (r : Rect) (heading : Heading) :
    (d.newArc stroke r heading).Fits n k := by
  refine ⟨h.origin, h.pen, h.draft.level, ?_, h.draft.heights⟩
  rintro a ⟨⟩
  exact applyStroke (within_arcCenter hkn h.origin r) ..

theorem sameArc (h : d.Fits n k) (hkn : k < n) (stroke : Stroke) (start sweep : Int16) :
    (d.sameArc stroke start sweep).Fits n k := by
  unfold Drawing.sameArc
  split
  · exact h
  · dsimp only
    split
    · exact h.newArc hkn ..
    · next current hcurrent =>
      split
      · refine ⟨h.origin, h.pen, h.draft.level, ?_, h.draft.heights⟩
        rintro a ⟨⟩
        exact applyStroke (h.draft.arc current hcurrent) ..
      · exact h.newArc hkn ..

theorem shiftOrigin (h : d.Fits n k) (dh dv : Int16) : (d.shiftOrigin dh dv).Fits n (k + 1) := by
  have hx := natAbs_toInt_le dh
  have hy := natAbs_toInt_le dv
  obtain ⟨hox, hoy⟩ := h.origin
  refine ⟨⟨?_, ?_⟩, h.pen, h.draft⟩
  · unfold Drawing.shiftOrigin
    dsimp only
    omega
  · unfold Drawing.shiftOrigin
    dsimp only
    omega

theorem draw (h : d.Fits n k) (hkn : k < n) (operation : Operation) :
    (d.draw operation).Fits n (k + 1) := by
  have hmore : ∀ {e : Drawing}, e.Fits n k → e.Fits n (k + 1) := fun he =>
    ⟨he.origin.mono (Nat.le_succ k), he.pen, he.draft⟩
  unfold Drawing.draw
  split
  · exact hmore ⟨h.origin, h.pen, h.draft⟩
  · exact h.shiftOrigin ..
  · exact hmore ⟨h.origin, near_ofPoint _, h.draft⟩
  · exact hmore ⟨h.origin, h.pen, h.draft⟩
  · exact hmore ⟨h.origin, h.pen, h.draft⟩
  · next corners r =>
    have hshapes := h.withShapes (f := fun s => { s with lastRect := some r, paint := none }) rfl
    exact hmore (hshapes.raise hkn r _ (within_rounding d corners))
  · next r =>
    have hshapes := h.withShapes
      (f := fun s => { s with lastRect := some r, paint := some d.pen.color }) rfl
    exact hmore ⟨h.origin, h.pen, hshapes.draft⟩
  · exact hmore (h.frameSameRect hkn _)
  · exact hmore (h.withShapes rfl)
  · exact hmore (h.newArc hkn ..)
  · exact hmore (h.sameArc hkn ..)
  · exact hmore h

theorem step (h : d.Fits n k) (hkn : k < n) (operation : Operation) :
    (d.step operation).Fits n (k + 1) := by
  unfold Drawing.step
  split
  · exact ⟨h.origin.mono (Nat.le_succ k), h.pen, h.draft⟩
  · exact h.flush.draw hkn operation

theorem foldl (h : d.Fits n k) (operations : List Operation) (hn : k + operations.length ≤ n) :
    (operations.foldl Drawing.step d).Fits n (k + operations.length) := by
  induction operations generalizing d k with
  | nil => exact h
  | cons operation operations ih =>
    rw [List.length_cons] at hn ⊢
    have hrest := ih (h.step (by omega) operation) (by omega)
    rwa [show k + (operations.length + 1) = k + 1 + operations.length by omega]

theorem finish (h : d.Fits n k) : d.finish.Fits n :=
  (Script.keeps_fits n).finish h.flush.draft _

theorem start (n : Nat) (level : Level) (hlevel : level.Fits n) {heights : Heights}
    (hheights : heights.Fits) : (Drawing.start level heights).Fits n 0 where
  origin := ⟨Nat.le_refl 0, Nat.le_refl 0⟩
  pen := ⟨Nat.zero_le _, Nat.zero_le _⟩
  draft := ⟨hlevel, by simp [Drawing.start, Draft.start, Shapes.none], hheights⟩

end Drawing.Fits

namespace Options

theorem fits_level (n : Nat) (options : Options) : options.level.Fits n := by
  refine ⟨?_, ?_, ?_, ?_⟩ <;> simp [level, Level.named]

theorem fits_heights {options : Options} (hwall : options.wallHeight.inRange = true)
    (hbase : options.baseHeight.inRange = true) : options.heights.Fits :=
  ⟨Decimal.within_of_inRange hwall, Decimal.within_of_inRange hbase, Decimal.within_zero _⟩

end Options
end Floorplan

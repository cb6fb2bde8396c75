import Floorplan.Conversion
import Floorplan.Proofs.Drawing
import Floorplan.Proofs.Script.Frame

/-!
# Floorplan.Proofs.Integers

The integers of a conversion. `Conversion.integers` lists those that a conversion computes on its way,
in the order of its steps: the sums that shift the origin, what goes into a block or an arc where it
is drawn, and what an object of a script computes where its block is closed. The list leaves nothing
out of the level: where an entity is, and how far it reaches across, is among these integers
(`Conversion.from_integers`). Headings and colors are binary floating point and have no part in this,
and the reader of decimals checks each number on its own.
-/

namespace Floorplan

/-! ### What is computed -/

/-- What the steps of a fold compute, one step behind another. -/
def tracedFold {σ α : Type} (step : σ → α → σ) (computed : σ → α → List Int) : σ → List α → List Int
  | _, [] => []
  | s, a :: as => computed s a ++ tracedFold step computed (step s a) as

/-- A rounded quotient: by truncation, with the remainder doubled to tell a half, and as `away` has
it, from the dividend and the divisor doubled. -/
def Rounding.integers (n d : Int) : List Int :=
  [n, n.tdiv d, n.tmod d, 2 * (n.tmod d).natAbs, 2 * n.natAbs + d.natAbs, 2 * d.natAbs, away n d]

def Decimal.ratioIntegers (n d : Int) : List Int := n :: Rounding.integers (n * 100) d

def Decimal.halfIntegers (x : Decimal) : List Int := Rounding.integers x.hundredths 2

namespace Placement

/-- The middle between two edges with a shift, doubled and then scaled. -/
def middleIntegers (a b shift : Int) : List Int :=
  [a + shift, b + shift, a + b, 2 * shift] ++ Decimal.ratioIntegers (a + b + 2 * shift) 36

def spanIntegers (a b pen : Int) : List Int :=
  [b - a, (b - a).natAbs - pen] ++ Decimal.ratioIntegers (span a b pen) 18

def arcIntegers (r : Rect) (origin : Offset) : List Int :=
  middleIntegers r.left.toInt r.right.toInt origin.x ++
    middleIntegers r.top.toInt r.bottom.toInt origin.y

def blockIntegers (r : Rect) (origin pen : Offset) (heights : Heights) : List Int :=
  arcIntegers r origin ++ spanIntegers r.left.toInt r.right.toInt pen.x ++
    spanIntegers r.top.toInt r.bottom.toInt pen.y ++ heights.wall.halfIntegers ++
    [(heights.base + heights.lift).hundredths, (blockCenter r origin heights).y.hundredths]

end Placement

def Vec3.integers (p : Vec3) : List Int := [p.x.hundredths, p.y.hundredths, p.z.hundredths]

namespace Object

def slabIntegers (b : Block) : List Int := b.size.y.halfIntegers ++ b.center.integers

def standingIntegers (old new : Block) : List Int :=
  old.size.y.halfIntegers ++ [old.bottom.hundredths] ++ new.size.y.halfIntegers ++
    new.center.integers

def rampIntegers (b : Block) (r : Ramp) : List Int :=
  b.size.x.halfIntegers ++ b.size.z.halfIntegers ++ r.base.integers ++ r.top.integers

/-- What an object computes from the shapes at hand, whichever of them it then takes. -/
def integers (d : Draft) : Object → List Int
  | incarnator y => d.shapes.arc.toList.flatMap fun arc => (arc.center.raised y).integers
  | goody _ y _ _ _ => d.shapes.arc.toList.flatMap fun arc => (arc.center.raised y).integers
  | ramp effects rise y thickness =>
    d.currentBlock?.toList.flatMap fun b =>
      slabIntegers (slab b effects y thickness) ++
        d.shapes.arc.toList.flatMap fun arc =>
          rampIntegers b (rampOver b arc effects rise y thickness)
  | wall effects y height =>
    d.currentBlock?.toList.flatMap fun b => standingIntegers b (standing b effects y height)

end Object

namespace Script

/-- A word computes something only if it closes the block of an object. -/
def Line.integers (l : Line) (word : String) : List Int :=
  match l.mode with
  | .object (some kind) fields =>
    if word = Keyword.end.text then
      (ObjectKind.ofText? kind).toList.flatMap fun known =>
        (Object.ofFields known fields).1.integers l.dropKey.draft
    else []
  | _ => []

def Run.flushIntegers (r : Run) : List Int :=
  tracedFold Line.step Line.integers ⟨r.mode, none, r.draft⟩ r.held

def Run.integers (r : Run) : Except Words.UnclosedQuote (List String) → List Int
  | .ok words =>
    let r := { r with held := r.held ++ words }
    if isWhole r.mode r.held then r.flushIntegers else []
  | .error _ => []

def integers (mode : Mode) (text : String) (d : Draft) : List Int :=
  let said := (lines text).map words
  tracedFold Run.step Run.integers ⟨mode, [], d⟩ said ++
    (said.foldl Run.step ⟨mode, [], d⟩).flushIntegers

end Script

namespace Drawing

def flushIntegers (d : Drawing) : List Int :=
  if d.texts.isEmpty then []
  else Script.integers d.mode (String.intercalate " " d.texts) d.draft

def roundingIntegers (d : Drawing) : Corners → List Int
  | .square => []
  | .round => Decimal.ratioIntegers d.pen.oval.h.toInt 18

def raiseIntegers (d : Drawing) (r : Rect) : List Int :=
  Placement.blockIntegers r d.pen.origin d.pen.size d.draft.heights

/-- What an operation that is no text computes. One that repeats a shape is taken to draw it. -/
def drawIntegers (d : Drawing) : Operation → List Int
  | .origin dh dv =>
    [(d.shiftOrigin dh dv).pen.origin.x, (d.shiftOrigin dh dv).pen.origin.y]
  | .rect .frame corners r => d.roundingIntegers corners ++ d.raiseIntegers r
  | .sameRect .frame corners =>
    d.roundingIntegers corners ++ d.draft.shapes.lastRect.toList.flatMap d.raiseIntegers
  | .arc _ a => Placement.arcIntegers a.bounds d.pen.origin
  | .sameArc _ _ _ =>
    d.draft.shapes.lastArc.toList.flatMap fun r => Placement.arcIntegers r d.pen.origin
  | _ => []

def stepIntegers (d : Drawing) : Operation → List Int
  | .text _ _ => []
  | operation => d.flushIntegers ++ d.flush.drawIntegers operation

end Drawing

/-- The integers that a conversion computes on its way. -/
def Conversion.integers (options : Options) (operations : List Operation) : List Int :=
  let start := Drawing.start options.level options.heights
  tracedFold Drawing.step Drawing.stepIntegers start operations ++
    (operations.foldl Drawing.step start).flushIntegers

/-! ### Nothing is left out -/

/-- Where the block is, and how far it reaches across, is among these integers. -/
structure Block.From (zs : List Int) (b : Block) : Prop where
  center : b.center.integers ⊆ zs
  width : b.size.x.hundredths ∈ zs
  depth : b.size.z.hundredths ∈ zs

structure Ramp.From (zs : List Int) (r : Ramp) : Prop where
  base : r.base.integers ⊆ zs
  top : r.top.integers ⊆ zs
  width : r.width.hundredths ∈ zs

structure Level.From (zs : List Int) (level : Level) : Prop where
  incarnators : ∀ i ∈ level.incarnators, i.location.integers ⊆ zs
  blocks : ∀ b ∈ level.blocks, b.From zs
  ramps : ∀ r ∈ level.ramps, r.From zs
  goodies : ∀ g ∈ level.goodies, g.location.integers ⊆ zs

theorem Decimal.ofRatio_mem_ratioIntegers (n d : Int) :
    (ofRatio n d).hundredths ∈ ratioIntegers n d := by
  simp [ofRatio, ratioIntegers, Rounding.integers]

theorem subset_of_flatMap {α : Type} {zs : List Int} {o : Option α} {f : α → List Int} {a : α}
    (ha : o = some a) (h : o.toList.flatMap f ⊆ zs) : f a ⊆ zs := by
  subst ha
  simpa using h

/-- What each step keeps, if what it computes is among these integers, the whole fold keeps. -/
theorem foldl_of_tracedFold {σ α : Type} {step : σ → α → σ} {computed : σ → α → List Int}
    {zs : List Int} {P : σ → Prop}
    (hstep : ∀ {s} (a : α), computed s a ⊆ zs → P s → P (step s a)) {s : σ} {as : List α}
    (hsub : tracedFold step computed s as ⊆ zs) (hs : P s) : P (as.foldl step s) := by
  induction as generalizing s with
  | nil => exact hs
  | cons a as ih =>
    obtain ⟨hfirst, hrest⟩ := List.append_subset.mp hsub
    exact ih hrest (hstep a hfirst hs)

variable {zs : List Int}

namespace Object

variable {d e : Draft} {b : Block}

theorem from_slab (h : b.From zs) (effects : Effects) (y : Decimal) (thickness : Option Decimal)
    (hsub : slabIntegers (slab b effects y thickness) ⊆ zs) :
    (slab b effects y thickness).From zs :=
  ⟨(List.append_subset.mp hsub).2, h.width, h.depth⟩

theorem from_standing (h : b.From zs) (effects : Effects) (y height : Option Decimal)
    (hsub : standingIntegers b (standing b effects y height) ⊆ zs) :
    (standing b effects y height).From zs :=
  ⟨(List.append_subset.mp hsub).2, h.width, h.depth⟩

theorem from_rampOver (h : b.From zs) (arc : DrawnArc) (effects : Effects) (rise y : Decimal)
    (thickness : Option Decimal)
    (hsub : rampIntegers b (rampOver b arc effects rise y thickness) ⊆ zs) :
    (rampOver b arc effects rise y thickness).From zs := by
  obtain ⟨hbase, htop⟩ := List.append_subset.mp hsub
  refine ⟨(List.append_subset.mp hbase).2, htop, ?_⟩
  unfold rampOver Placement.rampBounds
  cases arc.heading.quarter with
  | north => exact h.width
  | east => exact h.depth
  | south => exact h.width
  | west => exact h.depth

theorem from_made {object : Object} (h : d.level.From zs) (hsub : object.integers d ⊆ zs)
    (hmade : Made d object e) : e.level.From zs := by
  have hcurrent {i : Nat} {b : Block} (hi : d.shapes.block = some i)
      (hb : d.level.blocks[i]? = some b) : d.currentBlock? = some b ∧ b.From zs :=
    ⟨(Draft.currentBlock?_of_some hi).trans hb, h.blocks b (List.mem_of_getElem? hb)⟩
  cases hmade with
  | incarnator y harc =>
    have hplace := subset_of_flatMap harc hsub
    refine ⟨?_, h.blocks, h.ramps, h.goodies⟩
    rw [List.forall_mem_append, List.forall_mem_singleton]
    exact ⟨h.incarnators, hplace⟩
  | goody effects y kind items spin harc =>
    have hplace := subset_of_flatMap harc hsub
    refine ⟨h.incarnators, h.blocks, h.ramps, ?_⟩
    rw [List.forall_mem_append, List.forall_mem_singleton]
    exact ⟨h.goodies, hplace⟩
  | slab effects y thickness hi hb =>
    obtain ⟨hblock, hfrom⟩ := hcurrent hi hb
    have hparts := subset_of_flatMap hblock hsub
    obtain ⟨hslab, -⟩ := List.append_subset.mp hparts
    refine ⟨h.incarnators, ?_, h.ramps, h.goodies⟩
    rw [List.forall_mem_append, List.forall_mem_singleton]
    exact ⟨fun b hb => h.blocks b (List.mem_of_mem_eraseIdx hb), from_slab hfrom _ _ _ hslab⟩
  | ramp effects y thickness hrise hi hb harc =>
    obtain ⟨hblock, hfrom⟩ := hcurrent hi hb
    have hparts := subset_of_flatMap hblock hsub
    obtain ⟨-, hramps⟩ := List.append_subset.mp hparts
    have hramp := subset_of_flatMap harc hramps
    refine ⟨h.incarnators, fun b hb => h.blocks b (List.mem_of_mem_eraseIdx hb), ?_, h.goodies⟩
    rw [List.forall_mem_append, List.forall_mem_singleton]
    exact ⟨h.ramps, from_rampOver hfrom _ _ _ _ _ hramp⟩
  | wall effects y height hi hb =>
    obtain ⟨hblock, hfrom⟩ := hcurrent hi hb
    have hparts := subset_of_flatMap hblock hsub
    have hwall := from_standing hfrom effects y height hparts
    refine ⟨h.incarnators, ?_, h.ramps, h.goodies⟩
    intro b' hb'
    rcases List.mem_or_eq_of_mem_set hb' with hb' | rfl
    · exact h.blocks b' hb'
    · exact hwall

theorem from_outcome {object : Object} (h : d.level.From zs) (hsub : object.integers d ⊆ zs)
    (houtcome : Outcome d object e) : e.level.From zs := by
  cases houtcome with
  | made hmade => exact from_made h hsub hmade
  | lack => exact h
  | strayFlat => exact h
  | strayRamp => exact h

theorem from_close (h : d.level.From zs) (kind : String) (fields : Fields)
    (hsub : (ObjectKind.ofText? kind).toList.flatMap (fun known =>
      (ofFields known fields).1.integers d) ⊆ zs) : (close kind fields d).level.From zs := by
  unfold close
  split
  · exact h
  · next known hknown =>
    have hobject := subset_of_flatMap hknown hsub
    have hplace := from_outcome h hobject (outcome_place _ d)
    exact hplace

end Object

namespace Script

theorem from_told {d e : Draft} (h : d.level.From zs) (htold : Told d e) : e.level.From zs := by
  cases htold
  exact ⟨h.incarnators, h.blocks, h.ramps, h.goodies⟩

theorem Line.from_step {l : Line} (word : String) (hsub : l.integers word ⊆ zs)
    (h : l.draft.level.From zs) : (l.step word).draft.level.From zs := by
  rcases l.told_or_close word with htold | ⟨kind, fields, hmode, hend, hclose⟩
  · exact from_told h htold
  · rw [hclose]
    simp only [Line.integers, hmode, if_pos hend] at hsub
    exact Object.from_close (from_told h l.told_dropKey) kind fields hsub

theorem Run.from_flush {r : Run} (hsub : r.flushIntegers ⊆ zs) (h : r.draft.level.From zs) :
    r.flush.draft.level.From zs :=
  from_told (foldl_of_tracedFold (P := fun l => l.draft.level.From zs) Line.from_step hsub h)
    (Line.told_dropKey _)

theorem Run.from_step {r : Run} (said : Except Words.UnclosedQuote (List String))
    (hsub : r.integers said ⊆ zs) (h : r.draft.level.From zs) :
    (r.step said).draft.level.From zs := by
  cases said with
  | error quote => exact h
  | ok words =>
    unfold Run.integers at hsub
    unfold step feed
    dsimp only at hsub ⊢
    split at hsub
    · next hwhole =>
      rw [if_pos hwhole]
      exact Run.from_flush hsub h
    · next hheld =>
      rw [if_neg hheld]
      exact h

theorem from_run {d : Draft} (mode : Mode) (text : String) (hsub : integers mode text d ⊆ zs)
    (h : d.level.From zs) : (run mode text d).2.level.From zs := by
  obtain ⟨hlines, hlast⟩ := List.append_subset.mp hsub
  exact Run.from_flush hlast
    (foldl_of_tracedFold (P := fun r => r.draft.level.From zs) Run.from_step hlines h)

end Script

/-! ### Drawings -/

namespace Placement

theorem scale_mem_spanIntegers (a b pen : Int) :
    (scale (span a b pen)).hundredths ∈ spanIntegers a b pen :=
  List.mem_append_right _ (Decimal.ofRatio_mem_ratioIntegers _ 18)

theorem scaleDoubled_mem_middleIntegers (a b shift : Int) :
    (scaleDoubled (a + b + 2 * shift)).hundredths ∈ middleIntegers a b shift :=
  List.mem_append_right _ (Decimal.ofRatio_mem_ratioIntegers _ 36)

end Placement

namespace Drawing

open Placement

variable {d e : Drawing} {operation : Operation}

theorem from_wall {r : Rect} (hsub : d.raiseIntegers r ⊆ zs) (color : Color) (rounding : Decimal) :
    (d.wall r color rounding).From zs := by
  simp only [raiseIntegers, blockIntegers, arcIntegers, List.append_subset, List.cons_subset] at hsub
  obtain ⟨⟨⟨⟨⟨hx, hz⟩, hwidth⟩, hdepth⟩, -⟩, -, hy, -⟩ := hsub
  refine ⟨?_, hwidth (scale_mem_spanIntegers ..), hdepth (scale_mem_spanIntegers ..)⟩
  simp only [Vec3.integers, List.cons_subset]
  exact ⟨hx (scaleDoubled_mem_middleIntegers ..), hy, hz (scaleDoubled_mem_middleIntegers ..),
    List.nil_subset _⟩

theorem from_raise (h : d.draft.level.From zs) {r : Rect} (hsub : d.raiseIntegers r ⊆ zs)
    (color : Color) (rounding : Decimal) : (d.raise r color rounding).draft.level.From zs := by
  refine ⟨h.incarnators, ?_, h.ramps, h.goodies⟩
  show ∀ b ∈ d.draft.level.blocks ++ [d.wall r color rounding], b.From zs
  rw [List.forall_mem_append, List.forall_mem_singleton]
  exact ⟨h.blocks, from_wall hsub color rounding⟩

theorem from_recolor {d : Draft} (h : d.level.From zs) (color : Color) :
    (d.modifyBlock fun b => { b with color }).level.From zs := by
  have hblocks := Draft.forall_mem_modifyBlock h.blocks (f := fun b => { b with color })
    fun b hb => ⟨hb.center, hb.width, hb.depth⟩
  unfold Draft.modifyBlock at hblocks ⊢
  split at hblocks
  · exact h
  · exact ⟨h.incarnators, hblocks, h.ramps, h.goodies⟩

theorem from_draws (h : d.draft.level.From zs) (hsub : d.drawIntegers operation ⊆ zs)
    (hdraws : d.Draws operation e) : e.draft.level.From zs := by
  cases hdraws with
  | frame corners r =>
    obtain ⟨-, hraise⟩ := List.append_subset.mp hsub
    exact from_raise h hraise ..
  | frameAgain corners hlast hmoved =>
    obtain ⟨-, hraises⟩ := List.append_subset.mp hsub
    exact from_raise h (subset_of_flatMap hlast hraises) ..
  | recolor corners hlast hmoved => exact from_recolor h _
  | _ => exact h

theorem from_flush (h : d.draft.level.From zs) (hsub : d.flushIntegers ⊆ zs) :
    d.flush.draft.level.From zs := by
  unfold flush
  unfold flushIntegers at hsub
  split
  · exact h
  · next htexts =>
    rw [if_neg htexts] at hsub
    exact Script.from_run d.mode _ hsub h

theorem from_step (operation : Operation) (hsub : d.stepIntegers operation ⊆ zs)
    (h : d.draft.level.From zs) : (d.step operation).draft.level.From zs := by
  cases htext : operation.isText with
  | true =>
    cases operation with
    | text place text => exact h
    | _ => cases htext
  | false =>
    have hparts : d.flushIntegers ++ d.flush.drawIntegers operation ⊆ zs := by
      cases operation with
      | text place text => cases htext
      | _ => exact hsub
    obtain ⟨hflush, hdraw⟩ := List.append_subset.mp hparts
    rw [step_of_not_text htext]
    exact from_draws (from_flush h hflush) hdraw (d.flush.draws operation)

theorem from_finish (h : d.draft.level.From zs) (hsub : d.flushIntegers ⊆ zs) :
    d.finish.level.From zs := by
  have hflush := from_flush h hsub
  unfold finish Script.finish
  dsimp only
  split <;> exact hflush

end Drawing

/-- All that a level says of places and of extents across was computed on the way to it. -/
theorem Conversion.from_integers (options : Options) (operations : List Operation) :
    (ofOperations options operations).level.From (integers options operations) := by
  have hstart : (Drawing.start options.level options.heights).draft.level.From
      (integers options operations) := by
    constructor <;> simp [Drawing.start, Draft.start, Options.level, Level.named]
  obtain ⟨hsteps, hlast⟩ := List.append_subset.mp (List.Subset.refl (integers options operations))
  have hend := foldl_of_tracedFold (P := fun d => d.draft.level.From (integers options operations))
    Drawing.from_step hsteps hstart
  exact Drawing.from_finish hend hlast

end Floorplan

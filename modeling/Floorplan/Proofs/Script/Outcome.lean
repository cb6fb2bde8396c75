import Mathlib.Data.List.Basic
import Floorplan.Script.Object

/-!
# Floorplan.Proofs.Script.Outcome

What comes of an object. It takes the shapes that it needs and is made of them (`Object.Made`), or
one of them is missing, and then that is reported and no shape is at hand any more. Only where the
current block is said to be at an index that has none can an object come to nothing without a word
(`Object.outcome_place`).
-/

namespace Floorplan

/-- The current block, if any, is one of the level. -/
def Draft.BlockStands (d : Draft) : Prop :=
  ∀ i, d.shapes.block = some i → i < d.level.blocks.length

/-- A shape that an object could claim is not there. -/
def Draft.Lacks (d : Draft) : ShapeKind → Prop
  | .rectangle => d.currentBlock? = none
  | .arc => d.shapes.arc = none

namespace Object

def kind : Object → ObjectKind
  | incarnator _ => .incarnator
  | goody .. => .goody
  | ramp .. => .ramp
  | wall .. => .wall

/-- The shapes that an object cannot do without. -/
def needs : Object → List ShapeKind
  | incarnator _ => [.arc]
  | goody .. => [.arc]
  | ramp _ rise _ _ => if rise = 0 then [.rectangle] else [.rectangle, .arc]
  | wall .. => [.rectangle]

/-- What becomes of a draft with an object that has the shapes that it needs. -/
inductive Made (d : Draft) : Object → Draft → Prop where
  | incarnator {arc : DrawnArc} (y : Decimal) : d.shapes.arc = some arc →
    Made d (.incarnator y)
      { d with
        level := { d.level with
          incarnators := d.level.incarnators ++
            [⟨arc.id, arc.center.raised y, Decimal.snap arc.heading.degrees⟩] }
        shapes := { d.shapes with arc := none } }
  | goody {arc : DrawnArc} (effects : Effects) (y : Decimal) (kind : GoodyKind)
      (items : ItemCounts) (spin : Decimal) : d.shapes.arc = some arc →
    Made d (.goody effects y kind items spin)
      { d with
        level := { d.level with
          goodies := d.level.goodies ++
            [⟨arc.id, arc.center.raised y, kind, items, spin, arc.fillColor, effects⟩] }
        shapes := { d.shapes with arc := none } }
  | slab {i : Nat} {b : Block} (effects : Effects) (y : Decimal) (thickness : Option Decimal) :
    d.shapes.block = some i → d.level.blocks[i]? = some b →
    Made d (.ramp effects 0 y thickness)
      { d with
        level := { d.level with
          blocks := d.level.blocks.eraseIdx i ++ [Object.slab b effects y thickness] }
        shapes := { d.shapes with block := none } }
  | ramp {i : Nat} {b : Block} {arc : DrawnArc} (effects : Effects) {rise : Decimal} (y : Decimal)
      (thickness : Option Decimal) : rise ≠ 0 →
    d.shapes.block = some i → d.level.blocks[i]? = some b → d.shapes.arc = some arc →
    Made d (.ramp effects rise y thickness)
      { d with
        level := { d.level with
          blocks := d.level.blocks.eraseIdx i
          ramps := d.level.ramps ++ [rampOver b arc effects rise y thickness] }
        shapes := { d.shapes with block := none, arc := none } }
  | wall {i : Nat} {b : Block} (effects : Effects) (y height : Option Decimal) :
    d.shapes.block = some i → d.level.blocks[i]? = some b →
    Made d (.wall effects y height)
      { d with
        level := { d.level with blocks := d.level.blocks.set i (standing b effects y height) }
        shapes := { d.shapes with block := none } }

/-- All that can come of an object. -/
inductive Outcome (d : Draft) : Object → Draft → Prop where
  | made {object : Object} {e : Draft} : Made d object e → Outcome d object e
  | lack (object : Object) {shape : ShapeKind} : shape ∈ object.needs → d.Lacks shape →
    Outcome d object (d.lack object.kind.text shape)
  | strayFlat {i : Nat} (effects : Effects) (y : Decimal) (thickness : Option Decimal) :
    d.shapes.block = some i → d.level.blocks[i]? = none →
    Outcome d (.ramp effects 0 y thickness) d.forgetBlock
  | strayRamp {i : Nat} (effects : Effects) (rise y : Decimal) (thickness : Option Decimal) :
    d.shapes.block = some i → d.level.blocks[i]? = none →
    Outcome d (.ramp effects rise y thickness) d.clearShapes

end Object

/-! ### Shapes that are claimed -/

namespace Draft

variable {d : Draft} {i : Nat} {b : Block}

theorem currentBlock?_of_none (h : d.shapes.block = none) : d.currentBlock? = none := by
  unfold currentBlock?
  rw [h]

theorem currentBlock?_of_some (h : d.shapes.block = some i) :
    d.currentBlock? = d.level.blocks[i]? := by
  unfold currentBlock?
  rw [h]

theorem takeBlock_of_none (h : d.shapes.block = some i) (hstray : d.level.blocks[i]? = none) :
    d.takeBlock = (none, d.forgetBlock) := by
  have herase : d.level.blocks.eraseIdx i = d.level.blocks :=
    List.eraseIdx_of_length_le (List.getElem?_eq_none_iff.mp hstray)
  unfold takeBlock
  simp only [h, hstray, herase]
  rfl

theorem takeBlock_of_some (h : d.shapes.block = some i) (hb : d.level.blocks[i]? = some b) :
    d.takeBlock = (some b, (d.withBlocks (d.level.blocks.eraseIdx i)).forgetBlock) := by
  unfold takeBlock
  simp only [h, hb]

theorem modifyBlock_of_some (h : d.shapes.block = some i) (hb : d.level.blocks[i]? = some b)
    (f : Block → Block) : d.modifyBlock f = d.withBlocks (d.level.blocks.set i (f b)) := by
  have hset : d.level.blocks.modify i f = d.level.blocks.set i (f b) := by
    rw [List.modify_eq_set_getElem?, hb]
    rfl
  simp only [modifyBlock, h, hset]

end Draft

namespace Object

variable {d : Draft}

theorem claimArc_of_none (h : d.shapes.arc = none) (kind : ObjectKind)
    (use : DrawnArc → Draft → Draft) : claimArc d kind use = d.lack kind.text .arc := by
  unfold claimArc Draft.takeArc
  rw [h]
  rfl

theorem claimArc_of_some {arc : DrawnArc} (h : d.shapes.arc = some arc) (kind : ObjectKind)
    (use : DrawnArc → Draft → Draft) :
    claimArc d kind use = use arc { d with shapes := { d.shapes with arc := none } } := by
  unfold claimArc Draft.takeArc
  rw [h]

/-! ### Objects -/

theorem outcome_placeRamp (d : Draft) (effects : Effects) (rise y : Decimal)
    (thickness : Option Decimal) :
    Outcome d (.ramp effects rise y thickness) (placeRamp d effects rise y thickness) := by
  unfold placeRamp
  cases hblock : d.shapes.block with
  | none =>
    have hneeds : ShapeKind.rectangle ∈ (Object.ramp effects rise y thickness).needs := by
      rw [needs]
      split <;> exact List.mem_cons_self
    exact .lack (.ramp effects rise y thickness) hneeds (Draft.currentBlock?_of_none hblock)
  | some i =>
    dsimp only
    by_cases hflat : rise = 0
    · rw [if_pos hflat, hflat]
      cases hb : d.level.blocks[i]? with
      | none =>
        rw [Draft.takeBlock_of_none hblock hb]
        exact .strayFlat effects y thickness hblock hb
      | some b =>
        rw [Draft.takeBlock_of_some hblock hb]
        exact .made (.slab effects y thickness hblock hb)
    · rw [if_neg hflat]
      cases harc : d.shapes.arc with
      | none =>
        have hneeds : ShapeKind.arc ∈ (Object.ramp effects rise y thickness).needs := by
          rw [needs, if_neg hflat]
          exact List.mem_cons_of_mem _ List.mem_cons_self
        rw [claimArc_of_none harc]
        exact .lack (.ramp effects rise y thickness) hneeds harc
      | some arc =>
        rw [claimArc_of_some harc]
        let e : Draft := { d with shapes := { d.shapes with arc := none } }
        cases hb : d.level.blocks[i]? with
        | none =>
          rw [Draft.takeBlock_of_none (d := e) hblock hb]
          exact .strayRamp effects rise y thickness hblock hb
        | some b =>
          rw [Draft.takeBlock_of_some (d := e) hblock hb]
          exact .made (.ramp effects y thickness hflat hblock hb harc)

theorem outcome_place (object : Object) (d : Draft) : Outcome d object (object.place d) := by
  unfold place
  cases object with
  | incarnator y =>
    dsimp only
    cases harc : d.shapes.arc with
    | none =>
      rw [claimArc_of_none harc]
      exact .lack (.incarnator y) List.mem_cons_self harc
    | some arc =>
      rw [claimArc_of_some harc]
      exact .made (.incarnator y harc)
  | goody effects y kind items spin =>
    dsimp only
    cases harc : d.shapes.arc with
    | none =>
      rw [claimArc_of_none harc]
      exact .lack (.goody effects y kind items spin) List.mem_cons_self harc
    | some arc =>
      rw [claimArc_of_some harc]
      exact .made (.goody effects y kind items spin harc)
  | ramp effects rise y thickness => exact outcome_placeRamp d effects rise y thickness
  | wall effects y height =>
    dsimp only
    cases hb : d.currentBlock? with
    | none => exact .lack (.wall effects y height) List.mem_cons_self hb
    | some b =>
      cases hblock : d.shapes.block with
      | none =>
        rw [Draft.currentBlock?_of_none hblock] at hb
        cases hb
      | some i =>
        rw [Draft.currentBlock?_of_some hblock] at hb
        dsimp only
        rw [Draft.modifyBlock_of_some hblock hb]
        exact .made (.wall effects y height hblock hb)

theorem Made.problems {object : Object} {e : Draft} (h : Made d object e) :
    e.problems = d.problems := by
  cases h <;> rfl

/-- Where the current block stands, an object is made or lacks a shape. -/
theorem made_or_lacks (h : d.BlockStands) (object : Object) :
    Made d object (object.place d) ∨
      ∃ shape ∈ object.needs, d.Lacks shape ∧ object.place d = d.lack object.kind.text shape := by
  have hstands : ∀ {i : Nat}, d.shapes.block = some i → d.level.blocks[i]? ≠ none := by
    intro i hblock hnone
    exact Nat.not_lt_of_le (List.getElem?_eq_none_iff.mp hnone) (h i hblock)
  have houtcome := outcome_place object d
  generalize object.place d = e at houtcome ⊢
  cases houtcome with
  | made hmade => exact .inl hmade
  | lack object hneeds hlacks => exact .inr ⟨_, hneeds, hlacks, rfl⟩
  | strayFlat effects y thickness hblock hnone => exact absurd hnone (hstands hblock)
  | strayRamp effects rise y thickness hblock hnone => exact absurd hnone (hstands hblock)

/-! ### Fields -/

/-- Problems that are all faults of the script. -/
def Complaints (ps : List Problem) : Prop :=
  ∃ faults : List SyntaxFault, ps = faults.map .malformed

theorem Complaints.append {ps qs : List Problem} (hp : Complaints ps) (hq : Complaints qs) :
    Complaints (ps ++ qs) := by
  obtain ⟨faults, rfl⟩ := hp
  obtain ⟨others, rfl⟩ := hq
  exact ⟨faults ++ others, List.map_append.symm⟩

theorem complaints_read {α : Type} (fields : Fields) (key : String)
    (parse : String → Except SyntaxFault α) : Complaints (fields.read key parse).2 := by
  unfold Fields.read
  split
  · exact ⟨[], rfl⟩
  · split
    · exact ⟨[], rfl⟩
    · next fault _ => exact ⟨[fault], rfl⟩

theorem complaints_effects (fields : Fields) : Complaints fields.effects.2 :=
  (((complaints_read fields _ _).append (complaints_read fields _ _)).append
    (complaints_read fields _ _)).append (complaints_read fields _ _)

theorem complaints_ofFields (kind : ObjectKind) (fields : Fields) :
    Complaints (ofFields kind fields).2 := by
  have heffects := complaints_effects fields
  cases kind with
  | incarnator => exact complaints_read fields _ _
  | goody =>
    exact ((((heffects.append (complaints_read fields _ _)).append
      (complaints_read fields _ _)).append (complaints_read fields _ _)).append
      (complaints_read fields _ _)).append (complaints_read fields _ _)
  | ramp =>
    exact ((heffects.append (complaints_read fields _ _)).append
      (complaints_read fields _ _)).append (complaints_read fields _ _)
  | wall => exact (heffects.append (complaints_read fields _ _)).append (complaints_read fields _ _)

theorem kind_ofFields (kind : ObjectKind) (fields : Fields) :
    (ofFields kind fields).1.kind = kind := by
  cases kind <;> rfl

theorem ofText?_text (kind : ObjectKind) : ObjectKind.ofText? kind.text = some kind := by
  cases kind <;> rfl

/-- An object block places its object, and complains of its fields whether that is made or not. -/
theorem close_text (kind : ObjectKind) (fields : Fields) :
    ∃ faults : List SyntaxFault, ∀ d : Draft, close kind.text fields d =
      ((ofFields kind fields).1.place d).reportAll (faults.map .malformed) := by
  obtain ⟨faults, hfaults⟩ := complaints_ofFields kind fields
  refine ⟨faults ++ (fields.others kind.keys).map fun pair => .unknownField kind.text pair.1, ?_⟩
  intro d
  unfold close
  rw [ofText?_text]
  simp only [hfaults, Draft.reportAll, List.append_assoc, List.map_append, List.map_map]
  rfl

theorem close_unknown (name : String) (fields : Fields) (d : Draft)
    (h : ∀ kind : ObjectKind, name ≠ kind.text) :
    close name fields d = d.report (.malformed (.unknownKind name)) := by
  have hnone : ObjectKind.ofText? name = none := by
    rw [ObjectKind.ofText?, List.find?_eq_none]
    intro kind _ heq
    exact h kind (beq_iff_eq.mp heq).symm
  unfold close
  rw [hnone]

/-- What closing an object block comes to, with good fields or bad ones. Either the object is made
and only faults of the script are reported, or a shape that it needs is missing: that is reported
first, all entities stay, and no block or arc is current any more. An unknown kind is a fault of the
script. -/
theorem close_makes_or_lacks (fields : Fields) :
    (∀ kind : ObjectKind, ∃ faults : List SyntaxFault, ∀ d : Draft, d.BlockStands →
      Xor
        (∃ e, Made d (ofFields kind fields).1 e ∧
          close kind.text fields d = { e with problems := d.problems ++ faults.map .malformed })
        (∃ shape ∈ (ofFields kind fields).1.needs, d.Lacks shape ∧
          close kind.text fields d =
            { d with
              shapes := { d.shapes with block := none, arc := none }
              problems :=
                d.problems ++ .missingShape kind.text shape :: faults.map .malformed })) ∧
    ∀ (name : String) (d : Draft), (∀ kind : ObjectKind, name ≠ kind.text) →
      close name fields d =
        { d with problems := d.problems ++ [.malformed (.unknownKind name)] } := by
  refine ⟨?_, fun name d h => close_unknown name fields d h⟩
  intro kind
  obtain ⟨faults, hclose⟩ := close_text kind fields
  refine ⟨faults, fun d hstands => ?_⟩
  rw [xor_iff_or_and_not_and]
  constructor
  · rw [hclose d]
    rcases made_or_lacks hstands (ofFields kind fields).1 with
      hmade | ⟨shape, hneeds, hlacks, hplace⟩
    · refine .inl ⟨_, hmade, ?_⟩
      rw [← hmade.problems]
      rfl
    · refine .inr ⟨shape, hneeds, hlacks, ?_⟩
      rw [hplace, kind_ofFields]
      simp only [Draft.lack, Draft.reportAll, Draft.report, Draft.clearShapes, Shapes.clear,
        List.append_assoc, List.singleton_append]
  · -- the two would report a different number of problems
    rintro ⟨⟨e, -, hmade⟩, shape, -, -, hlack⟩
    have hcount := congrArg (fun e : Draft => e.problems.length) (hmade.symm.trans hlack)
    simp only [List.length_append, List.length_cons] at hcount
    omega

/-- A wall at hand and no arc, and fields that say of what mass it is, but not in digits. A wall is made
of them and the key that walls do not have is reported too. For a ramp that rises there is no arc:
that is reported first, and the wall stays. -/
theorem close_makes_or_lacks_ramp :
    let wall : Block := ⟨⟨.ofInt 1, .ofInt 3, .ofInt 1⟩, 0, .black, 0, .standard⟩
    let d := (Draft.start (.named "") ⟨.ofInt 3, 0, 0⟩).pushBlock wall
    let fields : Fields := ⟨[("deltaY", "2"), ("mass", "heavy")]⟩
    d.BlockStands ∧
      (∃ (faults : List SyntaxFault) (e : Draft),
        faults = [.invalidValue "mass" "heavy", .unknownField "Wall" "deltaY"] ∧
        Made d (ofFields .wall fields).1 e ∧
        close "Wall" fields d = { e with problems := faults.map .malformed }) ∧
      (∃ faults : List SyntaxFault,
        faults = [.invalidValue "mass" "heavy"] ∧ d.Lacks .arc ∧
        close "Ramp" fields d =
          { d with
            shapes := { d.shapes with block := none, arc := none }
            problems := .missingShape "Ramp" .arc :: faults.map .malformed }) ∧
      (∀ kind : ObjectKind, "Boulder" ≠ kind.text) ∧
      close "Boulder" fields d = { d with problems := [.malformed (.unknownKind "Boulder")] } := by
  intro wall d fields
  have hstands : d.BlockStands := by
    intro i hi
    cases hi
    exact Nat.zero_lt_one
  have hwall : (close "Wall" fields d).problems =
      [.malformed (.invalidValue "mass" "heavy"), .malformed (.unknownField "Wall" "deltaY")] := by
    decide +kernel
  have hramp : (close "Ramp" fields d).problems =
      [.missingShape "Ramp" .arc, .malformed (.invalidValue "mass" "heavy")] := by
    decide +kernel
  have hunknown : ∀ kind : ObjectKind, "Boulder" ≠ kind.text := by
    intro kind
    cases kind <;> decide
  have hfaults : Function.Injective (List.map Problem.malformed) :=
    List.map_injective_iff.mpr fun _ _ => Problem.malformed.inj
  obtain ⟨hknown, hother⟩ := close_makes_or_lacks fields
  refine ⟨hstands, ?_, ?_, hunknown, hother "Boulder" d hunknown⟩
  · obtain ⟨faults, hclose⟩ := hknown .wall
    rcases hclose d hstands with ⟨⟨e, hmade, hclosed⟩, -⟩ | ⟨⟨shape, -, -, hlack⟩, -⟩
    · rw [show close "Wall" fields d = _ from hclosed] at hwall
      exact ⟨faults, e, hfaults hwall, hmade, hclosed⟩
    · rw [show close "Wall" fields d = _ from hlack] at hwall
      cases hwall
  · obtain ⟨faults, hclose⟩ := hknown .ramp
    rcases hclose d hstands with ⟨⟨e, -, hmade⟩, -⟩ | ⟨⟨shape, -, hlacks, hlack⟩, -⟩
    · rw [show close "Ramp" fields d = _ from hmade] at hramp
      cases faults with
      | nil => cases hramp
      | cons fault faults => cases hramp
    · rw [show close "Ramp" fields d = _ from hlack] at hramp
      injection hramp with hshape hrest
      injection hshape with _ hshape
      subst hshape
      exact ⟨faults, hfaults hrest, hlacks, hlack⟩

end Object
end Floorplan

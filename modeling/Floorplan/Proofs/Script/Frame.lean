import Floorplan.Proofs.Script.Outcome
import Floorplan.Proofs.Script.Run

/-!
# Floorplan.Proofs.Script.Frame

What scripts leave alone. A statement that closes no object is `Told`: it changes texts, the sky,
the ground, heights and problems only, so a property of anything else is kept by a script if objects
keep it (`Keeps.of_told`). An object is `Placed`: it changes entities, problems, and which block and
arc are current, but not the ids, nor what the drawing operations remember of their last shapes. An
arc that it does not leave is gone.
-/

namespace Floorplan

namespace Script

/-- What a statement can change that closes no object. -/
inductive Told (d : Draft) : Draft → Prop where
  | mk (author tagline description : String) (sky : Option Sky) (ground : Option Ground)
      (heights : Heights) (problems : List Problem) :
    Told d
      { d with
        level := { d.level with author, tagline, description, sky, ground }
        heights
        problems }

theorem told_report (d : Draft) (p : Problem) : Told d (d.report p) := .mk ..

theorem told_setHeight (d : Draft) (key value : String) (set : Heights → Decimal → Heights) :
    Told d (setHeight d key value set) := by
  unfold setHeight
  split
  · exact .mk ..
  · exact told_report ..

theorem told_setting (d : Draft) (key value : String) : Told d (setting d key value) := by
  unfold setting
  split
  · exact told_setHeight ..
  · exact told_setHeight ..
  · exact told_setHeight ..
  · exact .mk ..
  · exact .mk ..
  · exact .mk ..
  · exact told_report ..

theorem told_adjustment (d : Draft) (key value : String) : Told d (adjustment d key value) := by
  unfold adjustment
  split
  · exact told_report ..
  · dsimp only
    split
    · exact .mk ..
    · exact .mk ..
    · exact .mk ..
    · exact told_report ..

theorem Told.refl (d : Draft) : Told d d := .mk ..

theorem Told.trans {d e f : Draft} (h₁ : Told d e) (h₂ : Told e f) : Told d f := by
  cases h₁
  cases h₂
  exact .mk ..

namespace Line

theorem told_dropKey (l : Line) : Told l.draft l.dropKey.draft := by
  unfold dropKey
  split
  · exact .refl _
  · exact told_report ..

theorem told_pair (l : Line) (word : String) {use : Line → String → Line}
    (huse : ∀ key, Told l.draft (use { l with key := none } key).draft) :
    Told l.draft (l.pair word use).draft := by
  unfold pair
  split
  · exact .refl _
  · exact huse _

theorem told_stepGlobal (l : Line) (word : String) : Told l.draft (l.stepGlobal word).draft := by
  unfold stepGlobal
  split
  · next keyword _ _ =>
    cases keyword with
    | «end» => exact told_report ..
    | _ => exact .refl _
  · exact told_pair l word fun key => told_setting ..

theorem told_stepInside (l : Line) (word : String) : Told l.draft (l.stepInside word).draft := by
  unfold stepInside
  split
  · exact .refl _
  · exact told_pair l word fun _ => .refl _
  · exact told_pair l word fun key => told_adjustment ..
  · exact .refl _

/-- A word that does not close the block of an object is told. -/
theorem told_or_close (l : Line) (word : String) :
    Told l.draft (l.step word).draft ∨
      ∃ kind fields, l.mode = .object (some kind) fields ∧ word = Keyword.end.text ∧
        (l.step word).draft = Object.close kind fields l.dropKey.draft := by
  unfold step
  split
  · exact .inl (told_stepGlobal l word)
  · split
    · next hglobal hend =>
      have hmode : l.dropKey.mode = l.mode := by
        unfold dropKey
        split <;> rfl
      unfold close
      rw [hmode]
      split
      · next kind fields hkind => exact .inr ⟨kind, fields, hkind, hend, rfl⟩
      · exact .inl ((told_dropKey l).trans (told_report ..))
      · exact .inl (told_dropKey l)
    · exact .inl (told_stepInside l word)

end Line

theorem Keeps.of_told {P : Draft → Prop} (htold : ∀ {d e : Draft}, Told d e → P d → P e)
    (hclose : ∀ {d : Draft} (kind : String) (fields : Fields),
      P d → P (Object.close kind fields d)) : Keeps P where
  report p := htold (told_report _ p)
  setting key value := htold (told_setting _ key value)
  adjustment key value := htold (told_adjustment _ key value)
  close := hclose

end Script

namespace Object

/-- What an object can change: entities, problems, and which shapes are at hand. The arc can only be
left or taken away. -/
inductive Placed (d : Draft) : Draft → Prop where
  | keepArc (incarnators : List Incarnator) (blocks : List Block) (ramps : List Ramp)
      (goodies : List Goody) (block : Option Nat) (problems : List Problem) :
    Placed d
      { d with
        level := { d.level with incarnators, blocks, ramps, goodies }
        shapes := { d.shapes with block }
        problems }
  | dropArc (incarnators : List Incarnator) (blocks : List Block) (ramps : List Ramp)
      (goodies : List Goody) (block : Option Nat) (problems : List Problem) :
    Placed d
      { d with
        level := { d.level with incarnators, blocks, ramps, goodies }
        shapes := { d.shapes with block, arc := none }
        problems }

variable {d e f : Draft}

theorem Placed.trans (h₁ : Placed d e) (h₂ : Placed e f) : Placed d f := by
  cases h₁ with
  | keepArc =>
    cases h₂ with
    | keepArc => exact .keepArc ..
    | dropArc => exact .dropArc ..
  | dropArc =>
    cases h₂ with
    | keepArc => exact .dropArc ..
    | dropArc => exact .dropArc ..

theorem placed_modifyBlock (d : Draft) (f : Block → Block) : Placed d (d.modifyBlock f) := by
  unfold Draft.modifyBlock
  split <;> exact .keepArc ..

theorem Made.placed {object : Object} (h : Made d object e) : Placed d e := by
  cases h with
  | incarnator => exact .dropArc ..
  | goody => exact .dropArc ..
  | slab => exact .keepArc ..
  | ramp => exact .dropArc ..
  | wall => exact .keepArc ..

theorem Outcome.placed {object : Object} (h : Outcome d object e) : Placed d e := by
  cases h with
  | made hmade => exact hmade.placed
  | lack => exact .dropArc ..
  | strayFlat => exact .keepArc ..
  | strayRamp => exact .dropArc ..

theorem placed_close (kind : String) (fields : Fields) (d : Draft) :
    Placed d (close kind fields d) := by
  unfold close
  split
  · exact .keepArc ..
  · exact (outcome_place _ d).placed.trans (.keepArc ..)

end Object

theorem Draft.forall_mem_modifyBlock {d : Draft} {P : Block → Prop}
    (h : ∀ b ∈ d.level.blocks, P b) {f : Block → Block} (hf : ∀ b, P b → P (f b)) :
    ∀ b ∈ (d.modifyBlock f).level.blocks, P b := by
  unfold Draft.modifyBlock
  split
  · exact h
  · next i _ =>
    show ∀ b ∈ d.level.blocks.modify i f, P b
    intro b hb
    obtain ⟨j, hj⟩ := List.getElem?_of_mem hb
    rw [List.getElem?_modify, Option.map_eq_map, Option.map_eq_some_iff] at hj
    obtain ⟨old, hold, rfl⟩ := hj
    have hP := h old (List.mem_of_getElem? hold)
    split
    · exact hf old hP
    · exact hP

theorem Draft.shapes_modifyBlock (d : Draft) (f : Block → Block) :
    (d.modifyBlock f).shapes = d.shapes := by
  unfold Draft.modifyBlock
  split <;> rfl

theorem Object.Placed.heights {d e : Draft} (h : Placed d e) : e.heights = d.heights := by
  cases h <;> rfl

end Floorplan

import Mathlib.Data.List.Infix
import Floorplan.Proofs.Script.Outcome
import Floorplan.Proofs.Script.Run

/-!
# Floorplan.Proofs.Script.Growth

A script adds to a draft and uses up the shapes at hand (`Draft.Grows`). An arc that is at hand is
counted like an entity that is still to come: an object that makes one gives the arc for it, and no
statement brings an arc back. So a whole run makes at most one entity, and none without an arc.
-/

namespace Floorplan

namespace Draft

/-- The number of entities that come from arcs. -/
def claimed (d : Draft) : Nat :=
  d.level.incarnators.length + d.level.goodies.length + d.level.ramps.length

/-- One draft is what the other has become by adding to it and using up its shapes. -/
structure Grows (d e : Draft) : Prop where
  ids : e.ids = d.ids
  name : e.level.name = d.level.name
  lastRect : e.shapes.lastRect = d.shapes.lastRect
  lastArc : e.shapes.lastArc = d.shapes.lastArc
  paint : e.shapes.paint = d.shapes.paint
  incarnators : d.level.incarnators <+: e.level.incarnators
  ramps : d.level.ramps <+: e.level.ramps
  goodies : d.level.goodies <+: e.level.goodies
  problems : d.problems <+: e.problems
  tagline : d.level.tagline.toList <+: e.level.tagline.toList
  description : d.level.description.toList <+: e.level.description.toList
  sky : d.level.sky.isSome → e.level.sky.isSome
  ground : d.level.ground.isSome → e.level.ground.isSome
  arc : e.shapes.arc = d.shapes.arc ∨ e.shapes.arc = none
  block : e.shapes.block = d.shapes.block ∨ e.shapes.block = none
  claims : e.claimed + e.shapes.arc.toList.length ≤ d.claimed + d.shapes.arc.toList.length

namespace Grows

variable {d e f : Draft}

theorem refl (d : Draft) : d.Grows d where
  ids := rfl
  name := rfl
  lastRect := rfl
  lastArc := rfl
  paint := rfl
  incarnators := List.prefix_rfl
  ramps := List.prefix_rfl
  goodies := List.prefix_rfl
  problems := List.prefix_rfl
  tagline := List.prefix_rfl
  description := List.prefix_rfl
  sky := id
  ground := id
  arc := .inl rfl
  block := .inl rfl
  claims := Nat.le_refl _

theorem trans (h₁ : d.Grows e) (h₂ : e.Grows f) : d.Grows f where
  ids := h₂.ids.trans h₁.ids
  name := h₂.name.trans h₁.name
  lastRect := h₂.lastRect.trans h₁.lastRect
  lastArc := h₂.lastArc.trans h₁.lastArc
  paint := h₂.paint.trans h₁.paint
  incarnators := h₁.incarnators.trans h₂.incarnators
  ramps := h₁.ramps.trans h₂.ramps
  goodies := h₁.goodies.trans h₂.goodies
  problems := h₁.problems.trans h₂.problems
  tagline := h₁.tagline.trans h₂.tagline
  description := h₁.description.trans h₂.description
  sky := h₂.sky ∘ h₁.sky
  ground := h₂.ground ∘ h₁.ground
  arc := h₂.arc.elim (fun h => h.symm ▸ h₁.arc) .inr
  block := h₂.block.elim (fun h => h.symm ▸ h₁.block) .inr
  claims := h₂.claims.trans h₁.claims

theorem claimed_le (h : d.Grows e) : e.claimed ≤ d.claimed + d.shapes.arc.toList.length :=
  (Nat.le_add_right _ _).trans h.claims

theorem le_claimed (h : d.Grows e) : d.claimed ≤ e.claimed :=
  Nat.add_le_add (Nat.add_le_add h.incarnators.length_le h.goodies.length_le) h.ramps.length_le

end Grows

/-- The arc was there to be counted for the entity that came of it. -/
theorem claims_of_arc {d e : Draft} {arc : DrawnArc} (harc : d.shapes.arc = some arc)
    (hgone : e.shapes.arc = none) (hone : e.claimed = d.claimed + 1) :
    e.claimed + e.shapes.arc.toList.length ≤ d.claimed + d.shapes.arc.toList.length := by
  rw [harc, hgone, hone]
  exact Nat.le_refl _

theorem grows_reportAll (d : Draft) (ps : List Problem) : d.Grows (d.reportAll ps) :=
  { Grows.refl d with problems := List.prefix_append _ _ }

end Draft

namespace Object

/-- An object that is made takes the arc for the entity that it adds, if it adds one. -/
theorem Made.grows {d e : Draft} {object : Object} (h : Made d object e) : d.Grows e := by
  cases h with
  | incarnator y harc =>
    refine { Draft.Grows.refl d with
      incarnators := List.prefix_append _ _, arc := .inr rfl,
      claims := Draft.claims_of_arc harc rfl ?_ }
    simp only [Draft.claimed, List.length_append, List.length_singleton]
    omega
  | goody effects y kind items spin harc =>
    refine { Draft.Grows.refl d with
      goodies := List.prefix_append _ _, arc := .inr rfl,
      claims := Draft.claims_of_arc harc rfl ?_ }
    simp only [Draft.claimed, List.length_append, List.length_singleton]
    omega
  | slab effects y thickness hblock hb => exact { Draft.Grows.refl d with block := .inr rfl }
  | ramp effects y thickness hrise hblock hb harc =>
    refine { Draft.Grows.refl d with
      ramps := List.prefix_append _ _, arc := .inr rfl, block := .inr rfl,
      claims := Draft.claims_of_arc harc rfl ?_ }
    simp only [Draft.claimed, List.length_append, List.length_singleton]
    omega
  | wall effects y height hblock hb => exact { Draft.Grows.refl d with block := .inr rfl }

theorem grows_clearShapes (d : Draft) : d.Grows d.clearShapes :=
  { Draft.Grows.refl d with
    arc := .inr rfl
    block := .inr rfl
    claims := Nat.add_le_add_left (Nat.zero_le _) _ }

theorem Outcome.grows {d e : Draft} {object : Object} (h : Outcome d object e) : d.Grows e := by
  cases h with
  | made hmade => exact hmade.grows
  | lack => exact (d.grows_reportAll [_]).trans (grows_clearShapes _)
  | strayFlat => exact { Draft.Grows.refl d with block := .inr rfl }
  | strayRamp => exact grows_clearShapes d

theorem grows_close (kind : String) (fields : Fields) (d : Draft) :
    d.Grows (close kind fields d) := by
  unfold close
  split
  · exact d.grows_reportAll [_]
  · exact ((outcome_place _ d).grows.trans (Draft.grows_reportAll _ _)).trans
      (Draft.grows_reportAll _ _)

end Object

namespace Script

theorem prefix_append (old new : String) : old.toList <+: (append old new).toList := by
  unfold append
  split
  · next h =>
    subst h
    exact List.nil_prefix
  · rw [String.toList_append, String.toList_append, List.append_assoc]
    exact List.prefix_append _ _

theorem grows_setHeight (d : Draft) (key value : String) (set : Heights → Decimal → Heights) :
    d.Grows (setHeight d key value set) := by
  unfold setHeight
  split
  · exact { Draft.Grows.refl d with }
  · exact d.grows_reportAll [_]

theorem grows_setting (d : Draft) (key value : String) : d.Grows (setting d key value) := by
  unfold setting
  split
  · exact grows_setHeight ..
  · exact grows_setHeight ..
  · exact grows_setHeight ..
  · exact { Draft.Grows.refl d with }
  · exact { Draft.Grows.refl d with tagline := prefix_append _ _ }
  · exact { Draft.Grows.refl d with description := prefix_append _ _ }
  · exact d.grows_reportAll [_]

theorem grows_adjustment (d : Draft) (key value : String) : d.Grows (adjustment d key value) := by
  unfold adjustment
  split
  · exact d.grows_reportAll [_]
  · dsimp only
    split
    · exact { Draft.Grows.refl d with sky := fun _ => rfl }
    · exact { Draft.Grows.refl d with sky := fun _ => rfl }
    · exact { Draft.Grows.refl d with ground := fun _ => rfl }
    · exact d.grows_reportAll [_]

theorem keeps_grows (d : Draft) : Keeps d.Grows where
  report p h := h.trans (Draft.grows_reportAll _ [p])
  setting key value h := h.trans (grows_setting _ key value)
  adjustment key value h := h.trans (grows_adjustment _ key value)
  close kind fields h := h.trans (Object.grows_close kind fields _)

theorem grows_run (mode : Mode) (text : String) (d : Draft) : d.Grows (run mode text d).2 :=
  (keeps_grows d).run (.refl d) mode text

theorem grows_finish (mode : Mode) (d : Draft) : d.Grows (finish mode d).2 :=
  (keeps_grows d).finish (.refl d) mode

/-- A script adds to a draft and uses up its shapes, whatever its text and the mode it starts in. It
makes at most one entity of an arc, and none if no arc is at hand. The same holds of the end of all
scripts. -/
theorem run_grows (mode : Mode) (text : String) (d : Draft) :
    ∀ e ∈ [(run mode text d).2, (finish mode d).2],
      d.Grows e ∧ e.claimed ≤ d.claimed + 1 ∧ (d.shapes.arc = none → e.claimed = d.claimed) := by
  have hgrows : ∀ e ∈ [(run mode text d).2, (finish mode d).2], d.Grows e := by
    rw [List.forall_mem_cons, List.forall_mem_singleton]
    exact ⟨grows_run mode text d, grows_finish mode d⟩
  intro e he
  have hle := (hgrows e he).claimed_le
  refine ⟨hgrows e he, ?_, ?_⟩
  · have harc : d.shapes.arc.toList.length ≤ 1 := by
      cases d.shapes.arc <;> simp
    omega
  · intro hnone
    rw [hnone] at hle
    exact Nat.le_antisymm hle (hgrows e he).le_claimed

/-- An arc at hand makes an incarnator. For the goody after it there is none left, nor for the
objects of the same script run again. -/
theorem run_grows_spent :
    let text := "object Incarnator end information Hail\nobject Goody end"
    let arc : DrawnArc := ⟨⟨1⟩, ⟨0, 0, 18, 18⟩, 0, .ofArc 0 90, .black, none⟩
    let start : Draft := .start (.named "") ⟨.ofInt 3, 0, 0⟩
    let d := { start with shapes := { start.shapes with arc := some arc } }
    let e := (run .global text d).2
    let f := (run .global text e).2
    (d.Grows e ∧ d.claimed = 0 ∧ e.claimed = 1) ∧
      e.shapes.arc = none ∧ e.Grows f ∧ f.claimed = e.claimed := by
  intro text arc start d e f
  have hmade : e.claimed = 1 := by decide +kernel
  have hspent : e.shapes.arc = none := by decide +kernel
  obtain ⟨hgrows, -, -⟩ := run_grows .global text d e List.mem_cons_self
  obtain ⟨hgrows', -, hnone⟩ := run_grows .global text e f List.mem_cons_self
  exact ⟨⟨hgrows, rfl, hmade⟩, hspent, hgrows', hnone hspent⟩

end Script
end Floorplan

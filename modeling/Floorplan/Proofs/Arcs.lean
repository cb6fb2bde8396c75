import Floorplan.Proofs.Drawing
import Floorplan.Proofs.Heading

/-!
# Floorplan.Proofs.Arcs

The arc that is current is the last one that was drawn (`Drawing.ArcStands`): it keeps the bounds that
are remembered, and as long as the origin stands it is where an arc of these bounds is drawn. So an
arc that is drawn again with angles that point the same way can be the current one
(`Drawing.sameArc_agrees`).
-/

namespace Floorplan

/-- An arc is what another one would be, but for its id and its colors. -/
structure DrawnArc.Agrees (a b : DrawnArc) : Prop where
  bounds : a.bounds = b.bounds
  center : a.center = b.center
  heading : ∃ n, n < 720 ∧ a.heading.IsHalves n ∧ b.heading.IsHalves n
  angle : Decimal.snap a.heading.degrees = Decimal.snap b.heading.degrees
  quarter : a.heading.quarter = b.heading.quarter

namespace Drawing

/-- An arc fits what is remembered of the last one, and where the origin is unless it moved. -/
structure ArcStands (d : Drawing) (a : DrawnArc) : Prop where
  last : d.draft.shapes.lastArc = some a.bounds
  heading : ∃ halves, a.heading = .ofHalves halves
  center : d.pen.arcMoved = false → a.center = Placement.arcCenter a.bounds d.pen.origin

def ArcsStand (d : Drawing) : Prop := ∀ a, d.draft.shapes.arc = some a → d.ArcStands a

variable {d e : Drawing}

theorem arcsStand_start (level : Level) (heights : Heights) :
    (start level heights).ArcsStand := by
  intro a ha
  have hnone : (start level heights).draft.shapes.arc = none := rfl
  rw [hnone] at ha
  cases ha

theorem ArcsStand.flush (h : d.ArcsStand) : d.flush.ArcsStand := by
  intro a ha
  rcases d.grows_flush.arc with hsame | hnone
  · obtain ⟨hlast, hheading, hcenter⟩ := h a (hsame.symm.trans ha)
    refine ⟨d.lastArc_flush.trans hlast, hheading, ?_⟩
    rw [pen_flush]
    exact hcenter
  · rw [hnone] at ha
    cases ha

/-- A script, a rectangle or a setting has no part in what an arc is. -/
theorem ArcsStand.of_eq (h : d.ArcsStand) (harc : e.draft.shapes.arc = d.draft.shapes.arc)
    (hlast : e.draft.shapes.lastArc = d.draft.shapes.lastArc)
    (hmoved : e.pen.arcMoved = d.pen.arcMoved) (horigin : e.pen.origin = d.pen.origin) :
    e.ArcsStand := by
  intro a ha
  obtain ⟨hstands, hheading, hcenter⟩ := h a (harc.symm.trans ha)
  refine ⟨hlast.trans hstands, hheading, ?_⟩
  rw [hmoved, horigin]
  exact hcenter

theorem arcsStand_newArc (d : Drawing) (stroke : Stroke) (r : Rect) (halves : Int) :
    (d.newArc stroke r (.ofHalves halves)).ArcsStand := by
  intro a ha
  obtain rfl := Option.some.inj ha
  cases stroke <;> exact ⟨rfl, ⟨halves, rfl⟩, fun _ => rfl⟩

theorem Draws.arcsStand {operation : Operation} (hdraws : d.Draws operation e)
    (h : d.ArcsStand) : e.ArcsStand := by
  cases hdraws with
  | settle pen horigin hrect harc => exact h.of_eq rfl rfl harc horigin
  | shift dh dv =>
    intro a ha
    obtain ⟨hlast, hheading, -⟩ := h a ha
    exact ⟨hlast, hheading, nofun⟩
  | frame corners r => exact h.of_eq rfl rfl rfl rfl
  | paint corners r => exact h.of_eq rfl rfl rfl rfl
  | frameAgain corners hlast hmoved => exact h.of_eq rfl rfl rfl rfl
  | recolor corners hlast hmoved =>
    have hshapes := d.draft.shapes_modifyBlock fun b =>
      { b with color := d.draft.shapes.paint.getD d.pen.color }
    exact h.of_eq (congrArg Shapes.arc hshapes) (congrArg Shapes.lastArc hshapes) rfl rfl
  | paintAgain corners => exact h.of_eq rfl rfl rfl rfl
  | arc stroke a => exact arcsStand_newArc d stroke _ _
  | arcAgain stroke start sweep hlast hdiffers => exact arcsStand_newArc d stroke _ _
  | keepArc stroke start sweep hlast hcurrent hmoved hsame =>
    obtain ⟨hlast', hheading, hcenter⟩ := h _ hcurrent
    intro a ha
    obtain rfl := Option.some.inj ha
    cases stroke <;> exact ⟨hlast', hheading, hcenter⟩

theorem ArcsStand.step (h : d.ArcsStand) (operation : Operation) : (d.step operation).ArcsStand := by
  cases operation with
  | text place text => exact h.of_eq rfl rfl rfl rfl
  | _ => exact (d.flush.draws _).arcsStand h.flush

theorem ArcsStand.foldl (h : d.ArcsStand) (operations : List Operation) :
    (operations.foldl Drawing.step d).ArcsStand := by
  induction operations generalizing d with
  | nil => exact h
  | cons operation operations ih => exact ih (h.step operation)

/-- The current arc, as long as the origin stands and the angles point the same way, is the arc that
would be drawn. -/
theorem ArcStands.agrees {kept : DrawnArc} (h : d.ArcStands kept) (hmoved : d.pen.arcMoved = false)
    {start sweep : Int16} (hsame : kept.heading.same (.ofArc start sweep) = true) {r : Rect}
    (hlast : d.draft.shapes.lastArc = some r) (stroke : Stroke) :
    ∃ made, (d.newArc stroke r (.ofArc start sweep)).draft.shapes.arc = some made ∧
      kept.Agrees made := by
  obtain ⟨hbounds, ⟨halves, hheading⟩, hcenter⟩ := h
  obtain rfl : kept.bounds = r := Option.some.inj (hbounds.symm.trans hlast)
  rw [hheading] at hsame
  have hrest := (Heading.same_ofHalves_iff _ _).mp hsame
  obtain ⟨hangle, hquarter⟩ := Heading.reading_of_same hsame
  have hhalves := Heading.isHalves_ofHalves (2 * start.toInt + sweep.toInt + 360)
  rw [← hrest] at hhalves
  have hkept := Heading.isHalves_ofHalves halves
  rw [← hheading] at hangle hquarter hkept
  refine ⟨_, rfl, ?_⟩
  cases stroke <;>
    exact ⟨rfl, hcenter hmoved, ⟨_, Heading.lt_of_halves halves, hkept, hhalves⟩, hangle, hquarter⟩

/-- Drawing the last arc again comes to the same as drawing a new one. Whatever was drawn so far, the
current arc has the bounds of the last one, a whole number of half degrees below a full turn, and the
place that its bounds have at the origin unless that moved. So where it is kept it is what a new
arc would be, it keeps its id, and a color is all that changes; in all other cases a new arc with an
id of its own is made. -/
theorem sameArc_agrees (level : Level) (heights : Heights) (operations : List Operation) :
    let d := operations.foldl step (.start level heights)
    (∀ a, d.draft.shapes.arc = some a →
      d.draft.shapes.lastArc = some a.bounds ∧ (∃ n, n < 720 ∧ a.heading.IsHalves n) ∧
        (d.pen.arcMoved = false → a.center = Placement.arcCenter a.bounds d.pen.origin)) ∧
      ∀ (stroke : Stroke) (start sweep : Int16) (r : Rect), d.draft.shapes.lastArc = some r →
        let e := d.flush
        let again := d.step (.sameArc stroke start sweep)
        let fresh := e.newArc stroke r (.ofArc start sweep)
        (∀ kept, e.draft.shapes.arc = some kept → e.pen.arcMoved = false →
          kept.heading.same (.ofArc start sweep) = true →
          (again = e.withShapes fun s =>
            { s with
              arc := some (match stroke with
                | .frame => { kept with stroke := e.pen.color }
                | .paint => { kept with fill := some e.pen.color }) }) ∧
            ∃ made, fresh.draft.shapes.arc = some made ∧ kept.Agrees made) ∧
          ((∀ kept, e.draft.shapes.arc = some kept → e.pen.arcMoved = false →
            kept.heading.same (.ofArc start sweep) = false) →
            again = fresh ∧ again.draft.ids.allocated = e.draft.ids.allocated + 1) := by
  intro d
  have hstand : d.ArcsStand := (arcsStand_start level heights).foldl operations
  constructor
  · intro a ha
    obtain ⟨hlast, ⟨halves, hheading⟩, hcenter⟩ := hstand a ha
    refine ⟨hlast, ⟨_, Heading.lt_of_halves halves, ?_⟩, hcenter⟩
    rw [hheading]
    exact Heading.isHalves_ofHalves halves
  · intro stroke start sweep r hlast e again fresh
    have hlast' : e.draft.shapes.lastArc = some r := d.lastArc_flush.trans hlast
    constructor
    · intro kept harc hmoved hsame
      refine ⟨(sameArc_of_same hlast' harc hmoved hsame stroke).trans ?_,
        (hstand.flush kept harc).agrees hmoved hsame hlast' stroke⟩
      cases stroke <;> rfl
    · intro hdiffers
      have hagain : again = fresh := sameArc_of_differs hlast' hdiffers stroke
      exact ⟨hagain, congrArg (fun d => d.draft.ids.allocated) hagain⟩

/-- A paint over the same angles, told with a whole turn more, keeps an arc. Once an incarnator has
claimed it, the next paint makes another. -/
theorem sameArc_agrees_incarnator :
    let r : Rect := ⟨0, 0, 36, 36⟩
    let heights : Heights := ⟨.ofInt 3, 0, 0⟩
    let drawn : List Operation := [.arc .frame ⟨r, 0, 90⟩]
    let claimed : List Operation :=
      [.arc .frame ⟨r, 0, 90⟩, .text (.dh 0) "object Incarnator end"]
    let d := drawn.foldl step (.start (.named "") heights)
    let d' := claimed.foldl step (.start (.named "") heights)
    let kept : DrawnArc := ⟨⟨1⟩, r, ⟨⟨100⟩, 0, ⟨100⟩⟩, .ofArc 0 90, .black, none⟩
    (d.draft.shapes.arc = some kept ∧ d.draft.shapes.lastArc = some kept.bounds) ∧
      (d.flush.draft.shapes.arc = some kept ∧ d.flush.pen.arcMoved = false ∧
        kept.heading.same (.ofArc 360 90) = true ∧
        d.step (.sameArc .paint 360 90) =
          d.flush.withShapes fun s =>
            { s with arc := some { kept with fill := some d.flush.pen.color } }) ∧
      (d'.draft.shapes.lastArc = some r ∧ d'.flush.draft.shapes.arc = none ∧
        (d'.step (.sameArc .paint 360 90)).draft.ids.allocated = 2) := by
  intro r heights drawn claimed d d' kept
  have harc : d.draft.shapes.arc = some kept := by decide +kernel
  have hflush : d.flush.draft.shapes.arc = some kept := by decide +kernel
  have hmoved : d.flush.pen.arcMoved = false := by decide +kernel
  have hsame : kept.heading.same (.ofArc 360 90) = true := by decide +kernel
  have hlast' : d'.draft.shapes.lastArc = some r := by decide +kernel
  have hgone : d'.flush.draft.shapes.arc = none := by decide +kernel
  have hids : d'.flush.draft.ids.allocated = 1 := by decide +kernel
  have hagrees := sameArc_agrees (.named "") heights drawn
  have hagrees' := sameArc_agrees (.named "") heights claimed
  rw [show drawn.foldl step (.start (.named "") heights) = d from rfl] at hagrees
  rw [show claimed.foldl step (.start (.named "") heights) = d' from rfl] at hagrees'
  obtain ⟨hcurrent, hagain⟩ := hagrees
  obtain ⟨-, hagain'⟩ := hagrees'
  have hlast := (hcurrent kept harc).1
  have hkept := ((hagain .paint 360 90 r hlast).1 kept hflush hmoved hsame).1
  have hmade := ((hagain' .paint 360 90 r hlast').2 fun other hother => by
    rw [hgone] at hother
    cases hother).2
  rw [hids] at hmade
  exact ⟨⟨harc, hlast⟩, ⟨hflush, hmoved, hsame, hkept⟩, hlast', hgone, hmade⟩

end Drawing
end Floorplan

import Mathlib.Data.List.Nodup
import Floorplan.Proofs.Drawing

/-!
# Floorplan.Proofs.Numbering

The ids of entities. Every arc gets a fresh id, and a script turns the current arc into at most one
incarnator, goody or ramp. A ledger is the part of a draft that this rests on. What a draft goes
through is a `Claim` of its ledger or a fresh arc (`Ledger.draw`), and both keep it `Sound`.
-/

namespace Floorplan

/-- The ids of the entities that have one, the number of ramps, the id of the current arc, and the
number of ids given out. -/
structure Ledger where
  incarnators : List Nat
  goodies : List Nat
  ramps : Nat
  arc : Option Nat
  allocated : Nat

namespace Ledger

def ids (l : Ledger) : List Nat := l.incarnators ++ l.goodies

structure Sound (l : Ledger) : Prop where
  incarnators : l.incarnators.Pairwise (· < ·)
  goodies : l.goodies.Pairwise (· < ·)
  apart : l.incarnators.Disjoint l.goodies
  given : ∀ n ∈ l.ids, 1 ≤ n ∧ n ≤ l.allocated
  current : ∀ n, l.arc = some n → 1 ≤ n ∧ n ≤ l.allocated ∧ ∀ m ∈ l.ids, m < n
  count : l.ids.length + l.ramps + l.arc.toList.length ≤ l.allocated

/-- What an object of a script can do: nothing, drop the arc, or turn it into an entity. -/
inductive Claim (l : Ledger) : Ledger → Prop where
  | keep : Claim l l
  | drop : Claim l { l with arc := none }
  | incarnator {n : Nat} : l.arc = some n →
    Claim l { l with incarnators := l.incarnators ++ [n], arc := none }
  | goody {n : Nat} : l.arc = some n →
    Claim l { l with goodies := l.goodies ++ [n], arc := none }
  | ramp {n : Nat} : l.arc = some n →
    Claim l { l with ramps := l.ramps + 1, arc := none }

/-- A fresh arc takes the place of the current one. -/
def draw (l : Ledger) : Ledger :=
  { l with arc := some (l.allocated + 1), allocated := l.allocated + 1 }

/-! ### The two steps keep a ledger sound -/

theorem sound_empty : Sound ⟨[], [], 0, none, 0⟩ where
  incarnators := List.Pairwise.nil
  goodies := List.Pairwise.nil
  apart := List.disjoint_nil_left []
  given := by
    intro n hn
    cases hn
  current := by
    intro n hn
    cases hn
  count := Nat.le_refl 0

theorem pairwise_concat {ids : List Nat} {n : Nat} (h : ids.Pairwise (· < ·))
    (hlast : ∀ m ∈ ids, m < n) : (ids ++ [n]).Pairwise (· < ·) := by
  rw [List.pairwise_append]
  refine ⟨h, List.pairwise_singleton _ n, ?_⟩
  intro m hm k hk
  rw [List.mem_singleton.mp hk]
  exact hlast m hm

theorem Sound.nodup {l : Ledger} (h : l.Sound) : l.ids.Nodup := by
  rw [ids, List.nodup_append']
  exact ⟨h.incarnators.imp Nat.ne_of_lt, h.goodies.imp Nat.ne_of_lt, h.apart⟩

theorem Claim.allocated {l m : Ledger} (h : Claim l m) : m.allocated = l.allocated := by
  cases h <;> rfl

/-- An arc that is used up leaves the ledger sound, whichever list its id went to, if any. -/
theorem Sound.use {l m : Ledger} {n : Nat} (h : l.Sound) (harc : l.arc = some n)
    (hincarnators : m.incarnators.Pairwise (· < ·)) (hgoodies : m.goodies.Pairwise (· < ·))
    (hapart : m.incarnators.Disjoint m.goodies) (hids : ∀ k ∈ m.ids, k ∈ l.ids ∨ k = n)
    (hcount : m.ids.length + m.ramps = l.ids.length + l.ramps + 1) (hused : m.arc = none)
    (hallocated : m.allocated = l.allocated) : m.Sound := by
  obtain ⟨hpos, hle, -⟩ := h.current n harc
  refine ⟨hincarnators, hgoodies, hapart, ?_, ?_, ?_⟩
  · intro k hk
    rw [hallocated]
    rcases hids k hk with hold | rfl
    · exact h.given k hold
    · exact ⟨hpos, hle⟩
  · intro k hk
    rw [hused] at hk
    cases hk
  · have hbound := h.count
    rw [harc, Option.toList_some, List.length_singleton] at hbound
    rw [hcount, hused, hallocated]
    exact hbound

theorem Sound.claim {l m : Ledger} (h : l.Sound) (hstep : Claim l m) : m.Sound := by
  cases hstep with
  | keep => exact h
  | drop =>
    refine ⟨h.incarnators, h.goodies, h.apart, h.given, ?_, ?_⟩
    · intro n hn
      cases hn
    · exact Nat.le_trans (Nat.le_add_right _ _) h.count
  | @incarnator n harc =>
    obtain ⟨-, -, hlast⟩ := h.current n harc
    have hnew : ∀ m ∈ l.incarnators, m < n := fun m hm => hlast m (List.mem_append_left _ hm)
    have hother : n ∉ l.goodies := by
      intro hn
      exact Nat.lt_irrefl n (hlast n (List.mem_append_right _ hn))
    refine h.use harc (pairwise_concat h.incarnators hnew) h.goodies ?_ ?_ ?_ rfl rfl
    · rw [List.disjoint_append_left, List.singleton_disjoint]
      exact ⟨h.apart, hother⟩
    · intro k hk
      simp only [ids, List.mem_append, List.mem_singleton] at hk ⊢
      tauto
    · simp only [ids, List.length_append, List.length_singleton]
      omega
  | @goody n harc =>
    obtain ⟨-, -, hlast⟩ := h.current n harc
    have hnew : ∀ m ∈ l.goodies, m < n := fun m hm => hlast m (List.mem_append_right _ hm)
    have hother : n ∉ l.incarnators := by
      intro hn
      exact Nat.lt_irrefl n (hlast n (List.mem_append_left _ hn))
    refine h.use harc h.incarnators (pairwise_concat h.goodies hnew) ?_ ?_ ?_ rfl rfl
    · rw [List.disjoint_append_right, List.disjoint_singleton]
      exact ⟨h.apart, hother⟩
    · intro k hk
      simp only [ids, List.mem_append, List.mem_singleton] at hk ⊢
      tauto
    · simp only [ids, List.length_append, List.length_singleton]
      omega
  | ramp harc =>
    refine h.use harc h.incarnators h.goodies h.apart ?_ ?_ rfl rfl
    · intro k hk
      exact .inl hk
    · exact (Nat.add_assoc _ _ _).symm

theorem Sound.draw {l : Ledger} (h : l.Sound) : l.draw.Sound where
  incarnators := h.incarnators
  goodies := h.goodies
  apart := h.apart
  given n hn := by
    obtain ⟨hpos, hle⟩ := h.given n hn
    exact ⟨hpos, Nat.le_succ_of_le hle⟩
  current n hn := by
    cases hn
    refine ⟨Nat.succ_pos _, Nat.le_refl _, ?_⟩
    intro m hm
    exact Nat.lt_succ_of_le (h.given m hm).2
  count := by
    -- the arc before this one may have counted, and does no more
    have hcount := h.count
    simp only [Ledger.draw, ids, Option.toList_some, List.length_singleton] at hcount ⊢
    omega

end Ledger

/-! ### What scripts do to the ledger -/

namespace Draft

def ledger (d : Draft) : Ledger :=
  { incarnators := d.level.incarnators.map fun i => i.id.number
    goodies := d.level.goodies.map fun g => g.id.number
    ramps := d.level.ramps.length
    arc := d.shapes.arc.map fun arc => arc.id.number
    allocated := d.ids.allocated }

theorem ids_ledger (d : Draft) :
    d.ledger.ids = (d.level.incarnators.map Incarnator.id ++ d.level.goodies.map Goody.id).map
      EntityId.number := by
  rw [List.map_append, List.map_map, List.map_map]
  rfl

theorem ledger_modifyBlock (d : Draft) (f : Block → Block) :
    (d.modifyBlock f).ledger = d.ledger := by
  unfold modifyBlock
  split <;> rfl

theorem arc_ledger {d : Draft} {arc : DrawnArc} (h : d.shapes.arc = some arc) :
    d.ledger.arc = some arc.id.number := by
  rw [ledger, h]
  rfl

end Draft

namespace Object

variable {d e : Draft} {object : Object}

theorem Made.claim (h : Made d object e) : d.ledger.Claim e.ledger := by
  cases h with
  | incarnator y harc =>
    have hclaim := Ledger.Claim.incarnator (Draft.arc_ledger harc)
    simpa [Draft.ledger] using hclaim
  | goody effects y kind items spin harc =>
    have hclaim := Ledger.Claim.goody (Draft.arc_ledger harc)
    simpa [Draft.ledger] using hclaim
  | slab => exact .keep
  | ramp effects y thickness hrise hblock hb harc =>
    have hclaim := Ledger.Claim.ramp (Draft.arc_ledger harc)
    simpa [Draft.ledger] using hclaim
  | wall => exact .keep

theorem Outcome.claim (h : Outcome d object e) : d.ledger.Claim e.ledger := by
  cases h with
  | made hmade => exact hmade.claim
  | lack => exact .drop
  | strayFlat => exact .keep
  | strayRamp => exact .drop

theorem claim_close (kind : String) (fields : Fields) (d : Draft) :
    d.ledger.Claim (close kind fields d).ledger := by
  unfold close
  split
  · exact .keep
  · exact (outcome_place _ d).claim

end Object

namespace Script

/-- A script leaves the ledger sound and gives out no ids. -/
theorem keeps_sound (n : Nat) : Keeps fun d => d.ledger.Sound ∧ d.ledger.allocated = n := by
  apply Keeps.of_told
  · intro d e htold h
    cases htold
    exact h
  · intro d kind fields h
    obtain ⟨hsound, hallocated⟩ := h
    have hclaim := Object.claim_close kind fields d
    exact ⟨hsound.claim hclaim, hclaim.allocated.trans hallocated⟩

end Script

/-! ### What a drawing does to the ledger -/

/-- The operations that draw an arc. -/
def Operation.drawsArc : Operation → Bool
  | .arc .. => true
  | .sameArc .. => true
  | _ => false

namespace Drawing

theorem id_applyStroke (arc : DrawnArc) (color : Color) (stroke : Stroke) :
    (applyStroke arc color stroke).id = arc.id := by
  cases stroke <;> rfl

theorem ledger_newArc (d : Drawing) (stroke : Stroke) (r : Rect) (heading : Heading) :
    (d.newArc stroke r heading).draft.ledger = d.draft.ledger.draw := by
  cases stroke <;> rfl

/-- An operation that draws an arc can draw a fresh one; no other one touches the ledger. -/
theorem Draws.ledger {d e : Drawing} {operation : Operation} (h : d.Draws operation e) :
    e.draft.ledger = d.draft.ledger ∨
      (operation.drawsArc ∧ e.draft.ledger = d.draft.ledger.draw) := by
  cases h with
  | recolor corners hlast hmoved => exact .inl (Draft.ledger_modifyBlock ..)
  | arc stroke a => exact .inr ⟨rfl, ledger_newArc ..⟩
  | arcAgain stroke start sweep hlast hdiffers => exact .inr ⟨rfl, ledger_newArc ..⟩
  | keepArc stroke start sweep hlast harc hmoved hsame =>
    left
    simp only [withShapes, Draft.ledger, Option.map_some, id_applyStroke, harc]
  | _ => exact .inl rfl

theorem sound_flush {d : Drawing} (h : d.draft.ledger.Sound) :
    d.flush.draft.ledger.Sound ∧ d.flush.draft.ledger.allocated = d.draft.ledger.allocated := by
  unfold flush
  split
  · exact ⟨h, rfl⟩
  · exact (Script.keeps_sound _).run ⟨h, rfl⟩ ..

theorem sound_step {d : Drawing} (h : d.draft.ledger.Sound) (operation : Operation) :
    (d.step operation).draft.ledger.Sound ∧
      (d.step operation).draft.ledger.allocated ≤
        d.draft.ledger.allocated + if operation.drawsArc then 1 else 0 := by
  have hdraw : (d.flush.draw operation).draft.ledger.Sound ∧
      (d.flush.draw operation).draft.ledger.allocated ≤
        d.draft.ledger.allocated + if operation.drawsArc then 1 else 0 := by
    obtain ⟨hsound, hsame⟩ := sound_flush h
    rcases (d.flush.draws operation).ledger with hledger | ⟨hdraws, hledger⟩
    · rw [hledger, hsame]
      exact ⟨hsound, Nat.le_add_right _ _⟩
    · rw [hledger, if_pos hdraws, ← hsame]
      exact ⟨hsound.draw, Nat.le_refl _⟩
  cases operation with
  | text pos text => exact ⟨h, Nat.le_refl _⟩
  | _ => exact hdraw

theorem sound_run (operations : List Operation) {d : Drawing} (h : d.draft.ledger.Sound) :
    (operations.foldl step d).draft.ledger.Sound ∧
      (operations.foldl step d).draft.ledger.allocated ≤
        d.draft.ledger.allocated + operations.countP Operation.drawsArc := by
  induction operations generalizing d with
  | nil => exact ⟨h, Nat.le_refl _⟩
  | cons operation rest ih =>
    obtain ⟨hsound, hle⟩ := sound_step h operation
    obtain ⟨hrest, hcount⟩ := ih hsound
    refine ⟨hrest, ?_⟩
    rw [List.foldl_cons, List.countP_cons]
    omega

theorem sound_finish {d : Drawing} (h : d.draft.ledger.Sound) :
    d.finish.ledger.Sound ∧ d.finish.ledger.allocated = d.draft.ledger.allocated := by
  obtain ⟨hsound, hsame⟩ := sound_flush h
  exact (Script.keeps_sound _).finish ⟨hsound, hsame⟩ _

theorem sound_start {level : Level} (heights : Heights) (hincarnators : level.incarnators = [])
    (hgoodies : level.goodies = []) (hramps : level.ramps = []) :
    (start level heights).draft.ledger = ⟨[], [], 0, none, 0⟩ := by
  simp [start, Draft.start, Draft.ledger, Shapes.none, Ids.none, hincarnators, hgoodies, hramps]

/-- The ids of a drawing that starts from a level without entities. Every arc becomes at most one
entity, and no two entities share an id. -/
theorem ids_distinct (level : Level) (heights : Heights) (operations : List Operation)
    (hincarnators : level.incarnators = []) (hgoodies : level.goodies = [])
    (hramps : level.ramps = []) :
    let d := (operations.foldl step (start level heights)).finish
    let ids := d.level.incarnators.map Incarnator.id ++ d.level.goodies.map Goody.id
    ids.Nodup ∧
      (∀ id ∈ ids, 1 ≤ id.number ∧ id.number ≤ d.ids.allocated) ∧
      (d.level.incarnators.Pairwise fun i j => i.id.number < j.id.number) ∧
      (d.level.goodies.Pairwise fun g h => g.id.number < h.id.number) ∧
      (∀ arc, d.shapes.arc = some arc → arc.id ∉ ids) ∧
      d.level.incarnators.length + d.level.goodies.length + d.level.ramps.length +
        (if d.shapes.arc.isSome then 1 else 0) ≤ d.ids.allocated ∧
      d.ids.allocated ≤ operations.countP Operation.drawsArc := by
  intro d ids
  have hledger := sound_start heights hincarnators hgoodies hramps
  have hstart : (start level heights).draft.ledger.Sound := by
    rw [hledger]
    exact Ledger.sound_empty
  obtain ⟨hrun, hle⟩ := sound_run operations hstart
  obtain ⟨hsound, hsame⟩ := sound_finish hrun
  have hids : d.ledger.ids = ids.map EntityId.number := d.ids_ledger
  refine ⟨?_, ?_, ?_, ?_, ?_, ?_, ?_⟩
  · have hnodup := hsound.nodup
    rw [hids] at hnodup
    exact hnodup.of_map
  · intro id hid
    apply hsound.given
    rw [hids]
    exact List.mem_map_of_mem hid
  · exact List.pairwise_map.mp hsound.incarnators
  · exact List.pairwise_map.mp hsound.goodies
  · intro arc harc hmem
    obtain ⟨-, -, hlast⟩ := hsound.current _ (Draft.arc_ledger harc)
    have hnumber : arc.id.number ∈ d.ledger.ids := by
      rw [hids]
      exact List.mem_map_of_mem hmem
    exact Nat.lt_irrefl _ (hlast _ hnumber)
  · have hcount := hsound.count
    have harc : d.ledger.arc.toList.length = if d.shapes.arc.isSome then 1 else 0 := by
      rw [Draft.ledger]
      cases d.shapes.arc <;> rfl
    rw [hids, harc, List.length_map, List.length_append, List.length_map, List.length_map] at hcount
    exact hcount
  · have hallocated := Nat.le_trans (Nat.le_of_eq hsame) hle
    rw [hledger, Nat.zero_add] at hallocated
    exact hallocated

/-- Two arcs, the first of which becomes a goody, while the second one stays at hand. -/
theorem ids_distinct_goody :
    let operations : List Operation :=
      [.arc .frame ⟨⟨0, 0, 18, 18⟩, 0, 90⟩, .text (.dh 0) "object Goody end",
        .arc .paint ⟨⟨0, 36, 18, 54⟩, 0, 90⟩]
    let d := (operations.foldl step (start (Level.named "") ⟨0, 0, 0⟩)).finish
    (d.level.goodies.map Goody.id = [⟨1⟩] ∧ d.shapes.arc.map DrawnArc.id = some ⟨2⟩) ∧
      (d.level.incarnators.map Incarnator.id ++ d.level.goodies.map Goody.id).Nodup ∧
      d.ids.allocated ≤ 2 := by
  intro operations d
  obtain ⟨hnodup, -, -, -, -, -, hallocated⟩ :=
    ids_distinct (Level.named "") ⟨0, 0, 0⟩ operations rfl rfl rfl
  exact ⟨by decide +kernel, hnodup, hallocated⟩

end Drawing
end Floorplan

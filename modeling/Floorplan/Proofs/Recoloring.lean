import Floorplan.Proofs.Drawing
import Floorplan.Proofs.Walls

/-!
# Floorplan.Proofs.Recoloring

Which wall takes a color. The current block comes from the last rectangle that was raised
(`Drawing.Stems`): since then it was recolored at most. It is the wall of the rectangle that is
remembered, where the origin is, unless the last paint since then was of another rectangle or at
another origin (`Drawing.recolored_wall`). A paint of another one is remembered, but it takes the
current block from no one, so the color goes to a wall that it was not made for.
-/

namespace Floorplan

def Operation.isPaint : Operation → Bool
  | rect .paint _ _ => true
  | _ => false

/-- Where one more item stands at the end of a list: it is the one that is looked at, or behind it. -/
theorem eq_of_concat {α : Type} {as before after : List α} {a b : α}
    (h : as ++ [a] = before ++ b :: after) :
    (after = [] ∧ as = before ∧ a = b) ∨ ∃ rest, after = rest ++ [a] ∧ as = before ++ b :: rest := by
  rcases List.eq_nil_or_concat' after with rfl | ⟨rest, last, rfl⟩
  · obtain ⟨has, ha⟩ := List.append_inj' h rfl
    exact .inl ⟨rfl, has, List.head_eq_of_cons_eq ha⟩
  · rw [← List.cons_append, ← List.append_assoc] at h
    obtain ⟨has, ha⟩ := List.append_inj' h rfl
    obtain rfl := List.head_eq_of_cons_eq ha
    exact .inr ⟨rest, rfl, has⟩

theorem Draft.currentBlock?_modifyBlock (d : Draft) (f : Block → Block) :
    (d.modifyBlock f).currentBlock? = d.currentBlock?.map f := by
  cases h : d.shapes.block with
  | none => simp [modifyBlock, currentBlock?, h]
  | some i => simp [modifyBlock, currentBlock?, withBlocks, h]

/-- The current block is the last one, so it is there that it is changed. -/
theorem Draft.blocks_modifyBlock {d : Draft} (h : d.walls.Newest) {b : Block}
    (hb : d.currentBlock? = some b) (f : Block → Block) :
    (d.modifyBlock f).level.blocks = d.level.blocks.dropLast ++ [f b] := by
  cases hi : d.shapes.block with
  | none =>
    rw [currentBlock?_of_none hi] at hb
    cases hb
  | some i =>
    rw [currentBlock?_of_some hi] at hb
    exact congrArg Walls.blocks (walls_modifyBlock h hi hb f)

theorem Draft.currentBlock?_of_walls {d e : Draft} (h : e.walls = d.walls) :
    e.currentBlock? = d.currentBlock? := by
  have hblocks : e.level.blocks = d.level.blocks := congrArg Walls.blocks h
  have hcurrent : e.shapes.block = d.shapes.block := congrArg Walls.current h
  unfold currentBlock?
  rw [hblocks, hcurrent]

namespace Drawing

/-- The last rectangle that is painted along a run, if any, is this one, at this origin. -/
def LastPainted (d : Drawing) (r : Rect) (origin : Offset) (operations : List Operation) : Prop :=
  ∀ before corners s after, operations = before ++ .rect .paint corners s :: after →
    (∀ operation ∈ after, operation.isPaint = false) →
    s = r ∧ (before.foldl step d).pen.origin = origin

/-- No operation along a run raises a block. -/
def RaisesNone (d : Drawing) (operations : List Operation) : Prop :=
  ∀ before operation after, operations = before ++ operation :: after →
    ¬ (before.foldl step d).flush.Raises operation

/-- An operation raises a rectangle into a block, but for its color. -/
def RaisesInto (d : Drawing) (operation : Operation) (r : Rect) (b : Block) : Prop :=
  ∃ b₀, d.Raised (d.draw operation) r b₀ ∧ b = { b₀ with color := b.color }

/-- Where a block comes from in a run: an operation raised it and none raised another one behind it.
If the last paint behind it was of its rectangle at its origin, or there was none, then this rectangle
is the one that is remembered, and this origin stands if none moved. -/
inductive Stems (d₀ : Drawing) (b : Block) : List Operation → Prop where
  | mk (front : List Operation) (operation : Operation) (back : List Operation) {r : Rect}
    {origin : Offset} :
    (front.foldl step d₀).flush.pen.origin = origin →
    (front.foldl step d₀).flush.RaisesInto operation r b →
    RaisesNone ((front ++ [operation]).foldl step d₀) back →
    (LastPainted ((front ++ [operation]).foldl step d₀) r origin back →
      let d := (front ++ operation :: back).foldl step d₀
      d.draft.shapes.lastRect = some r ∧ (d.pen.rectMoved = false → d.pen.origin = origin)) →
    Stems d₀ b (front ++ operation :: back)

/-- What one more operation makes of the rectangle that is remembered: a paint puts another there,
or it stays, and the origin with it unless it is said that it moved. -/
inductive Remembers (d e : Drawing) : Operation → Prop where
  | paint (corners : Corners) {s : Rect} :
    e.draft.shapes.lastRect = some s → e.pen.origin = d.pen.origin →
    Remembers d e (.rect .paint corners s)
  | keep {operation : Operation} : operation.isPaint = false →
    e.draft.shapes.lastRect = d.draft.shapes.lastRect →
    (e.pen.rectMoved = false → d.pen.rectMoved = false ∧ e.pen.origin = d.pen.origin) →
    Remembers d e operation

variable {d d₀ : Drawing} {operations : List Operation} {operation : Operation} {b b' : Block}

theorem RaisesInto.raises {r : Rect} (h : d.RaisesInto operation r b) : d.Raises operation := by
  obtain ⟨b₀, hraised, -⟩ := h
  exact (d.raised?_eq_some_iff.mp (d.raised?_of_raised hraised)).1

theorem LastPainted.of_concat {r : Rect} {origin : Offset}
    (h : d.LastPainted r origin (operations ++ [operation])) (hpaint : operation.isPaint = false) :
    d.LastPainted r origin operations := by
  rintro before corners s after rfl hafter
  apply h before corners s (after ++ [operation])
  · rw [List.append_assoc, List.cons_append]
  · rw [List.forall_mem_append, List.forall_mem_singleton]
    exact ⟨hafter, hpaint⟩

theorem RaisesNone.concat (h : d.RaisesNone operations)
    (hraises : ¬ (operations.foldl step d).flush.Raises operation) :
    d.RaisesNone (operations ++ [operation]) := by
  intro before other after hsplit
  rcases eq_of_concat hsplit with ⟨-, rfl, rfl⟩ | ⟨rest, -, hfirst⟩
  · exact hraises
  · exact h before other rest hfirst

theorem Stems.concat (h : Stems d₀ b operations) (hcolor : b' = { b with color := b'.color })
    (hraises : ¬ (operations.foldl step d₀).flush.Raises operation)
    (hremembers : (operations.foldl step d₀).Remembers
      ((operations ++ [operation]).foldl step d₀) operation) :
    Stems d₀ b' (operations ++ [operation]) := by
  cases h with
  | @mk front first back r origin horigin hinto hnone hlast =>
    have hinto' : (front.foldl step d₀).flush.RaisesInto first r b' := by
      obtain ⟨b₀, hraised, hb⟩ := hinto
      refine ⟨b₀, hraised, ?_⟩
      rw [hb] at hcolor
      exact hcolor
    have hsplit : front ++ first :: back = front ++ [first] ++ back := by
      rw [List.append_assoc, List.singleton_append]
    have hnone' : RaisesNone ((front ++ [first]).foldl step d₀) (back ++ [operation]) := by
      rw [hsplit, List.foldl_append] at hraises
      exact hnone.concat hraises
    rw [List.append_assoc, List.cons_append] at hremembers ⊢
    refine .mk front first (back ++ [operation]) horigin hinto' hnone' ?_
    intro hpainted
    cases hremembers with
    | paint corners hs horigin' =>
      obtain ⟨rfl, hat⟩ := hpainted back corners _ [] rfl nofun
      rw [← List.foldl_append, ← hsplit] at hat
      exact ⟨hs, fun _ => horigin'.trans hat⟩
    | keep hpaint hs hmoved =>
      obtain ⟨hrect, hstands⟩ := hlast (hpainted.of_concat hpaint)
      refine ⟨hs.trans hrect, ?_⟩
      intro hnot
      obtain ⟨hnot', horigin'⟩ := hmoved hnot
      exact horigin'.trans (hstands hnot')

/-! ### One operation more -/

theorem currentBlock?_flush (h : d.walls.Newest) :
    d.flush.draft.currentBlock? = d.draft.currentBlock? ∨ d.flush.draft.currentBlock? = none := by
  have hforgets (hnone : d.flush.walls.current = none) :
      d.flush.draft.currentBlock? = none := by
    unfold Draft.currentBlock?
    rw [show d.flush.draft.shapes.block = none from hnone]
  obtain ⟨-, hclaim⟩ := claims_flush h
  generalize hflush : d.flush.walls = w at hclaim
  cases hclaim with
  | keep => exact .inl (Draft.currentBlock?_of_walls hflush)
  | forget => exact .inr (hforgets (congrArg Walls.current hflush))
  | rebuild b hcurrent => exact .inr (hforgets (congrArg Walls.current hflush))
  | take hcurrent => exact .inr (hforgets (congrArg Walls.current hflush))

theorem Raised.currentBlock? {e : Drawing} {r : Rect} (h : d.Raised e r b) :
    e.draft.currentBlock? = some b := by
  unfold Draft.currentBlock?
  rw [h.current, h.blocks]
  exact List.getElem?_concat_length ..

theorem Draws.remembers {e : Drawing} (hdraws : d.Draws operation e)
    (hraises : ¬ d.Raises operation) (hpaint : operation.isPaint = false) :
    d.Remembers e operation := by
  cases hdraws with
  | settle pen horigin hmoved harc => exact .keep hpaint rfl fun h => ⟨hmoved.symm.trans h, horigin⟩
  | shift dh dv => exact .keep hpaint rfl nofun
  | frame corners r => exact absurd trivial hraises
  | paint corners r => cases hpaint
  | frameAgain corners hlast hmoved =>
    exact absurd ⟨Option.isSome_iff_exists.mpr ⟨_, hlast⟩, hmoved⟩ hraises
  | recolor corners hlast hmoved =>
    have hshapes := d.draft.shapes_modifyBlock fun b =>
      { b with color := d.draft.shapes.paint.getD d.pen.color }
    exact .keep hpaint (congrArg Shapes.lastRect hshapes) fun h => ⟨h, rfl⟩
  | _ => exact .keep hpaint rfl fun h => ⟨h, rfl⟩

theorem remembers_draw (hraises : ¬ d.Raises operation) :
    d.Remembers (d.draw operation) operation := by
  cases hpaint : operation.isPaint with
  | false => exact (d.draws operation).remembers hraises hpaint
  | true =>
    unfold Operation.isPaint at hpaint
    split at hpaint
    · exact .paint _ rfl rfl
    · cases hpaint

/-- An operation that raises nothing recolors the current block at most. -/
theorem Draws.recolors {e : Drawing} (hdraws : d.Draws operation e)
    (hraises : ¬ d.Raises operation) (hb : e.draft.currentBlock? = some b') :
    ∃ b, d.draft.currentBlock? = some b ∧ b' = { b with color := b'.color } := by
  cases hdraws with
  | frame corners r => exact absurd trivial hraises
  | frameAgain corners hlast hmoved =>
    exact absurd ⟨Option.isSome_iff_exists.mpr ⟨_, hlast⟩, hmoved⟩ hraises
  | recolor corners hlast hmoved =>
    rw [Draft.currentBlock?_modifyBlock, Option.map_eq_some_iff] at hb
    obtain ⟨b, hb, rfl⟩ := hb
    exact ⟨b, hb, rfl⟩
  | _ => exact ⟨b', hb, rfl⟩

theorem Remembers.of_flush {e : Drawing} (h : d.flush.Remembers e operation) :
    d.Remembers e operation := by
  cases h with
  | paint corners hs horigin =>
    rw [pen_flush] at horigin
    exact .paint corners hs horigin
  | keep hpaint hs hmoved =>
    rw [pen_flush] at hmoved
    exact .keep hpaint (hs.trans d.lastRect_flush) hmoved

theorem stems_step (hnewest : (operations.foldl step d₀).walls.Newest)
    (h : ∀ b, (operations.foldl step d₀).draft.currentBlock? = some b → Stems d₀ b operations)
    (hb : ((operations ++ [operation]).foldl step d₀).draft.currentBlock? = some b) :
    Stems d₀ b (operations ++ [operation]) := by
  have hstep : (operations ++ [operation]).foldl step d₀ =
      (operations.foldl step d₀).step operation := by
    rw [List.foldl_append, List.foldl_cons, List.foldl_nil]
  cases htext : operation.isText with
  | true =>
    cases operation with
    | text place text =>
      rw [hstep] at hb
      refine (h b hb).concat rfl id (.keep rfl ?_ ?_)
      · rw [hstep]
        rfl
      · rw [hstep]
        exact fun h => ⟨h, rfl⟩
    | _ => cases htext
  | false =>
    rw [step_of_not_text htext] at hstep
    by_cases hraises : (operations.foldl step d₀).flush.Raises operation
    · obtain ⟨r, b₀, hraised⟩ := raised_of_raises _ hraises
      rw [hstep, hraised.currentBlock?] at hb
      obtain rfl := Option.some.inj hb
      refine .mk operations operation [] rfl ⟨b₀, hraised, rfl⟩ ?_ ?_
      · intro before other after hsplit
        simp at hsplit
      · intro _
        dsimp only
        rw [hstep, hraised.pen]
        exact ⟨hraised.lastRect, fun _ => rfl⟩
    · have hdraws := (operations.foldl step d₀).flush.draws operation
      rw [hstep] at hb
      obtain ⟨b', hcurrent, hcolor⟩ := hdraws.recolors hraises hb
      rcases currentBlock?_flush hnewest with hsame | hnone
      · apply (h b' (hsame.symm.trans hcurrent)).concat hcolor hraises
        rw [hstep]
        exact (remembers_draw hraises).of_flush
      · rw [hnone] at hcurrent
        cases hcurrent

theorem stems_run (operations : List Operation) {first : List Operation}
    (hnewest : (first.foldl step d₀).walls.Newest)
    (h : ∀ b, (first.foldl step d₀).draft.currentBlock? = some b → Stems d₀ b first)
    (hb : ((first ++ operations).foldl step d₀).draft.currentBlock? = some b) :
    Stems d₀ b (first ++ operations) := by
  -- what is done so far grows at its end, where a stem is told
  induction operations generalizing first with
  | nil =>
    rw [List.append_nil] at hb ⊢
    exact h b hb
  | cons operation operations ih =>
    rw [List.append_cons] at hb ⊢
    refine ih ?_ (fun b hb => stems_step hnewest h hb) hb
    rw [List.foldl_append, List.foldl_cons, List.foldl_nil]
    exact (next_step hnewest operation).newest

/-- A frame of the last rectangle that raises no block gives the current block the color of the last
paint. That block is the last one that was raised, but for its color. It is the wall of the rectangle
that is remembered, at the origin that stands, if the last paint since it was raised, if any, was of
its own rectangle, where it was raised. -/
theorem recolored_wall (level : Level) (heights : Heights) (operations : List Operation)
    (corners : Corners) {r : Rect} {b : Block} :
    let d₀ := start level heights
    let d := (operations.foldl step d₀).flush
    d.draft.shapes.lastRect = some r → d.pen.rectMoved = false →
    d.draft.currentBlock? = some b →
    ((operations.foldl step d₀).step (.sameRect .frame corners)).draft.level.blocks =
        d.draft.level.blocks.dropLast ++
          [{ b with color := d.draft.shapes.paint.getD d.pen.color }] ∧
      ∃ front operation back r₀, operations = front ++ operation :: back ∧
        (front.foldl step d₀).flush.RaisesInto operation r₀ b ∧
        RaisesNone ((front ++ [operation]).foldl step d₀) back ∧
        (LastPainted ((front ++ [operation]).foldl step d₀) r₀
            (front.foldl step d₀).flush.pen.origin back →
          b.center.x = (Placement.blockCenter r d.pen.origin d.draft.heights).x ∧
            b.center.z = (Placement.blockCenter r d.pen.origin d.draft.heights).z) := by
  intro d₀ d hlast hmoved hb
  have hstart : d₀.walls.Newest := by
    intro i hi
    cases hi
  have hnewest : (operations.foldl step d₀).walls.Newest := (settled_run operations hstart).1
  constructor
  · have hdraw : d.draw (.sameRect .frame corners) =
        { d with
          draft := d.draft.modifyBlock fun b =>
            { b with color := d.draft.shapes.paint.getD d.pen.color } } := by
      simp [draw, frameSameRect, hlast, hmoved]
    show (d.draw (.sameRect .frame corners)).draft.level.blocks = _
    rw [hdraw]
    exact Draft.blocks_modifyBlock (claims_flush hnewest).1 hb _
  · have hbefore : (operations.foldl step d₀).draft.currentBlock? = some b := by
      rcases currentBlock?_flush hnewest with hsame | hnone
      · exact hsame.symm.trans hb
      · rw [hnone] at hb
        cases hb
    have hnone : ∀ b, d₀.draft.currentBlock? = some b → Stems d₀ b [] := by
      intro b hb
      cases hb
    have hstems : Stems d₀ b ([] ++ operations) := stems_run operations hstart hnone hbefore
    rw [List.nil_append] at hstems
    cases hstems with
    | @mk front operation back r₀ origin horigin hinto hnone hremembered =>
      refine ⟨front, operation, back, r₀, rfl, hinto, hnone, ?_⟩
      intro hpainted
      rw [horigin] at hpainted
      obtain ⟨hrect, hstands⟩ := hremembered hpainted
      have hlast' := (lastRect_flush _).trans hrect
      obtain rfl : r = r₀ := Option.some.inj (hlast.symm.trans hlast')
      rw [pen_flush] at hmoved
      have hat : d.pen.origin = origin := by
        rw [pen_flush]
        exact hstands hmoved
      obtain ⟨b₀, hraised, hb₀⟩ := hinto
      obtain ⟨color, rounding, rfl⟩ := hraised.wall
      rw [hb₀, hat, ← horigin]
      exact ⟨rfl, rfl⟩

/-- A red paint of another wall in between and then a green one of the wall that was framed: the last
one is for this wall, so it is there that its color goes. -/
theorem recolored_wall_green :
    let r : Rect := ⟨0, 0, 18, 18⟩
    let operations : List Operation :=
      [.rect .frame .square r, .rect .paint .square ⟨36, 36, 54, 54⟩, .rgbFore ⟨0, 65535, 0⟩,
        .rect .paint .square r]
    let b : Block := ⟨⟨⟨100⟩, ⟨300⟩, ⟨100⟩⟩, ⟨⟨50⟩, ⟨150⟩, ⟨50⟩⟩, .black, 0, .standard⟩
    let d₀ := start (.named "") ⟨.ofInt 3, 0, 0⟩
    let d := (operations.foldl step d₀).flush
    (d.draft.shapes.lastRect = some r ∧ d.pen.rectMoved = false ∧
        d.draft.currentBlock? = some b) ∧
      ((operations.foldl step d₀).step (.sameRect .frame .square)).draft.level.blocks =
        d.draft.level.blocks.dropLast ++
          [{ b with color := d.draft.shapes.paint.getD d.pen.color }] ∧
      d.draft.shapes.paint = some (.ofRgb ⟨0, 65535, 0⟩) ∧
      b.center.x = (Placement.blockCenter r d.pen.origin d.draft.heights).x ∧
      b.center.z = (Placement.blockCenter r d.pen.origin d.draft.heights).z := by
  intro r operations b d₀ d
  have hlast : d.draft.shapes.lastRect = some r := by decide +kernel
  have hmoved : d.pen.rectMoved = false := by decide +kernel
  have hb : d.draft.currentBlock? = some b := by decide +kernel
  obtain ⟨hblocks, front, operation, back, r₀, hsplit, hinto, hnone, hcenter⟩ :=
    recolored_wall (.named "") ⟨.ofInt 3, 0, 0⟩ operations .square hlast hmoved hb
  -- of the four operations only the first one raises a block
  have hquiet (d : Drawing) : ∀ operation ∈ operations.tail, ¬ d.Raises operation := by
    intro operation hmem hraises
    simp only [operations, List.tail_cons, List.mem_cons, List.not_mem_nil, or_false] at hmem
    rcases hmem with rfl | rfl | rfl <;> cases hraises
  have hfirst : front = [] ∧ operation = .rect .frame .square r ∧ back = operations.tail := by
    cases front with
    | nil =>
      exact ⟨rfl, (List.head_eq_of_cons_eq hsplit).symm, (List.tail_eq_of_cons_eq hsplit).symm⟩
    | cons first front =>
      have htail : operations.tail = front ++ operation :: back := List.tail_eq_of_cons_eq hsplit
      have hmem : operation ∈ operations.tail := by
        rw [htail]
        exact List.mem_append_right _ List.mem_cons_self
      exact absurd hinto.raises (hquiet _ operation hmem)
  obtain ⟨rfl, rfl, rfl⟩ := hfirst
  obtain ⟨b₀, hraised, -⟩ := hinto
  obtain rfl : r = r₀ := Option.some.inj hraised.lastRect
  refine ⟨⟨hlast, hmoved, hb⟩, hblocks, by decide +kernel, hcenter ?_⟩
  intro before corners s after hback hafter
  have hback' : [.rect .paint .square ⟨36, 36, 54, 54⟩, .rgbFore ⟨0, 65535, 0⟩] ++
      [.rect .paint .square r] = before ++ .rect .paint corners s :: after := hback
  rcases eq_of_concat hback' with ⟨-, rfl, hpaint⟩ | ⟨rest, rfl, -⟩
  · obtain ⟨-, -, hrect⟩ := Operation.rect.inj hpaint
    exact ⟨hrect.symm, by decide +kernel⟩
  · have hmem : .rect .paint .square r ∈ rest ++ [.rect .paint .square r] :=
      List.mem_append_right _ List.mem_cons_self
    exact absurd (hafter _ hmem) (by decide)

/-- The block need not be the wall of the rectangle that is remembered: a paint of another one is
given to it. -/
theorem not_recolored_wall_other :
    ¬ ∀ (level : Level) (heights : Heights) (operations : List Operation) (r : Rect) (b : Block),
      let d := (operations.foldl step (start level heights)).flush
      d.draft.shapes.lastRect = some r → d.pen.rectMoved = false →
      d.draft.currentBlock? = some b →
      b.center.x = (Placement.blockCenter r d.pen.origin d.draft.heights).x ∧
        b.center.z = (Placement.blockCenter r d.pen.origin d.draft.heights).z := by
  intro hall
  have hother := hall (.named "") ⟨.ofInt 3, 0, 0⟩
    [.rect .frame .square ⟨0, 0, 18, 18⟩, .rect .paint .square ⟨36, 36, 54, 54⟩]
    ⟨36, 36, 54, 54⟩ ⟨⟨⟨100⟩, ⟨300⟩, ⟨100⟩⟩, ⟨⟨50⟩, ⟨150⟩, ⟨50⟩⟩, .black, 0, .standard⟩
    (by decide +kernel) (by decide +kernel) (by decide +kernel)
  exact absurd hother.1 (by decide +kernel)

end Drawing
end Floorplan

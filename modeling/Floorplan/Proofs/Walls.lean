import Floorplan.Proofs.Drawing

/-!
# Floorplan.Proofs.Walls

Which blocks of a level can still change. The current block, if there is one, is the newest
(`Walls.Newest`), so a script that takes it or rebuilds it works at the end of the list
(`Walls.Claim`), and so does an operation that paints it or adds another (`Walls.Draw`). All other
blocks are settled: they stand in front of whatever is drawn later (`Drawing.blocks_settled`).
-/

namespace Floorplan

/-- The blocks so far, and where the current one is said to be. -/
structure Walls where
  blocks : List Block
  current : Option Nat

namespace Walls

/-- There is no current block, or it is the last one. -/
def Newest (w : Walls) : Prop := ∀ i, w.current = some i → i + 1 = w.blocks.length

/-- All blocks but the current one. -/
def settled (w : Walls) : List Block :=
  match w.current with
  | none => w.blocks
  | some _ => w.blocks.dropLast

/-- What a script can do to the blocks: nothing, forget the current one, put another in its place or
take it away. -/
inductive Claim (w : Walls) : Walls → Prop where
  | keep : Claim w w
  | forget : Claim w ⟨w.blocks, none⟩
  | rebuild {i : Nat} (b : Block) : w.current = some i → Claim w ⟨w.blocks.dropLast ++ [b], none⟩
  | take {i : Nat} : w.current = some i → Claim w ⟨w.blocks.dropLast, none⟩

/-- What an operation can do to the blocks: nothing, add one, or paint the current one. -/
inductive Draw (w : Walls) : Walls → Prop where
  | keep : Draw w w
  | raise (b : Block) : Draw w ⟨w.blocks ++ [b], some w.blocks.length⟩
  | paint {i : Nat} (b : Block) : w.current = some i → Draw w ⟨w.blocks.dropLast ++ [b], w.current⟩

/-- What a whole step can do to the blocks, first by a script and then by an operation. -/
structure Next (w v : Walls) : Prop where
  newest : v.Newest
  settled : w.settled <+: v.settled
  grows : v.blocks.length ≤ w.blocks.length + 1
  shrinks : w.blocks.length ≤ v.blocks.length + 1

/-! ### The two halves of a step -/

theorem settled_prefix (w : Walls) : w.settled <+: w.blocks := by
  unfold settled
  split
  · exact List.prefix_rfl
  · exact List.dropLast_prefix w.blocks

theorem length_dropLast_concat {w : Walls} (h : w.Newest) {i : Nat} (hi : w.current = some i)
    (b : Block) : (w.blocks.dropLast ++ [b]).length = w.blocks.length := by
  have hlength := h i hi
  simp
  omega

theorem Claim.trans {u v w : Walls} (h₁ : Claim u v) (h₂ : Claim v w) : Claim u w := by
  -- after any claim but `keep` there is no current block that a second one could change
  cases h₁ with
  | keep => exact h₂
  | forget =>
    cases h₂ with
    | keep => exact .forget
    | forget => exact .forget
    | rebuild b h => cases h
    | take h => cases h
  | rebuild b hu =>
    cases h₂ with
    | keep => exact .rebuild b hu
    | forget => exact .rebuild b hu
    | rebuild b' h => cases h
    | take h => cases h
  | take hu =>
    cases h₂ with
    | keep => exact .take hu
    | forget => exact .take hu
    | rebuild b h => cases h
    | take h => cases h

theorem Claim.newest {w v : Walls} (h : w.Newest) (hclaim : Claim w v) : v.Newest := by
  cases hclaim with
  | keep => exact h
  | forget => intro i hi; cases hi
  | rebuild b hw => intro i hi; cases hi
  | take hw => intro i hi; cases hi

theorem Claim.settled {w v : Walls} (hclaim : Claim w v) : w.settled <+: v.settled := by
  cases hclaim with
  | keep => exact List.prefix_rfl
  | forget => exact settled_prefix w
  | rebuild b hw =>
    rw [Walls.settled, hw]
    exact List.prefix_append _ [b]
  | take hw =>
    rw [Walls.settled, hw]
    exact List.prefix_rfl

theorem Claim.length {w v : Walls} (h : w.Newest) (hclaim : Claim w v) :
    v.blocks.length ≤ w.blocks.length ∧ w.blocks.length ≤ v.blocks.length + 1 := by
  cases hclaim with
  | keep => exact ⟨Nat.le_refl _, Nat.le_succ _⟩
  | forget => exact ⟨Nat.le_refl _, Nat.le_succ _⟩
  | rebuild b hw =>
    have hlength := length_dropLast_concat h hw b
    dsimp only
    omega
  | take hw =>
    simp
    omega

theorem Draw.newest {w v : Walls} (h : w.Newest) (hdraw : Draw w v) : v.Newest := by
  cases hdraw with
  | keep => exact h
  | raise b => intro i hi; cases hi; simp
  | paint b hw =>
    intro i hi
    rw [length_dropLast_concat h hw b]
    exact h i hi

theorem Draw.settled {w v : Walls} (hdraw : Draw w v) : w.settled <+: v.settled := by
  cases hdraw with
  | keep => exact List.prefix_rfl
  | raise b =>
    simp only [Walls.settled, List.dropLast_concat]
    exact settled_prefix w
  | paint b hw =>
    simp only [Walls.settled, hw, List.dropLast_concat]
    exact List.prefix_rfl

theorem Draw.length {w v : Walls} (h : w.Newest) (hdraw : Draw w v) :
    v.blocks.length = w.blocks.length ∨ v.blocks.length = w.blocks.length + 1 := by
  cases hdraw with
  | keep => exact .inl rfl
  | raise b => simp
  | paint b hw => exact .inl (length_dropLast_concat h hw b)

theorem Claim.next {w v : Walls} (h : w.Newest) (hclaim : Claim w v) : Next w v where
  newest := hclaim.newest h
  settled := hclaim.settled
  grows := Nat.le_succ_of_le (hclaim.length h).1
  shrinks := (hclaim.length h).2

theorem Draw.next {w u v : Walls} (h : w.Newest) (hclaim : Claim w u) (hdraw : Draw u v) :
    Next w v := by
  have hu := hclaim.newest h
  obtain ⟨hle, hge⟩ := hclaim.length h
  have hlength := hdraw.length hu
  exact ⟨hdraw.newest hu, hclaim.settled.trans hdraw.settled, by omega, by omega⟩

theorem getElem?_settled {w : Walls} (h : w.Newest) {i : Nat} {b : Block}
    (hb : w.blocks[i]? = some b) (hi : w.current ≠ some i) : w.settled[i]? = some b := by
  obtain ⟨hlt, heq⟩ := List.getElem?_eq_some_iff.mp hb
  unfold settled
  split
  · exact hb
  · next j hj =>
    have hlength := h j hj
    have hne : j ≠ i := by
      rintro rfl
      exact hi hj
    rw [List.getElem?_dropLast, if_pos (by omega)]
    exact hb

theorem getElem?_of_settled {w v : Walls} (h : w.settled <+: v.settled) {i : Nat} {b : Block}
    (hb : w.settled[i]? = some b) : v.blocks[i]? = some b := by
  have hlt := (List.getElem?_eq_some_iff.mp hb).1
  obtain ⟨rest, hrest⟩ := h.trans v.settled_prefix
  rw [← hrest, List.getElem?_append_left hlt]
  exact hb

end Walls

/-! ### What scripts do to the blocks -/

namespace Draft

def walls (d : Draft) : Walls := ⟨d.level.blocks, d.shapes.block⟩

variable {d : Draft}

theorem eraseIdx_newest (h : d.walls.Newest) {i : Nat} (hi : d.shapes.block = some i) :
    d.level.blocks.eraseIdx i = d.level.blocks.dropLast := by
  have hlength : i + 1 = d.level.blocks.length := h i hi
  rw [← List.eraseIdx_length_sub_one, ← hlength, Nat.add_sub_cancel]

theorem set_newest (h : d.walls.Newest) {i : Nat} (hi : d.shapes.block = some i) (b : Block) :
    d.level.blocks.set i b = d.level.blocks.dropLast ++ [b] := by
  have hlength : i + 1 = d.level.blocks.length := h i hi
  rw [List.set_eq_take_append_cons_drop, if_pos (by omega), List.drop_eq_nil_of_le (by omega),
    List.dropLast_eq_take, ← hlength, Nat.add_sub_cancel]

theorem walls_modifyBlock (h : d.walls.Newest) {i : Nat} (hi : d.shapes.block = some i) {b : Block}
    (hb : d.level.blocks[i]? = some b) (f : Block → Block) :
    (d.modifyBlock f).walls = ⟨d.level.blocks.dropLast ++ [f b], d.shapes.block⟩ := by
  rw [modifyBlock_of_some hi hb, ← set_newest h hi]
  rfl

end Draft

namespace Object

variable {d e : Draft}

theorem Made.claim_walls {object : Object} (hmade : Made d object e) (h : d.walls.Newest) :
    d.walls.Claim e.walls := by
  cases hmade with
  | incarnator => exact .keep
  | goody => exact .keep
  | slab effects y thickness hi hb =>
    rw [Draft.walls, Draft.eraseIdx_newest h hi]
    exact .rebuild _ hi
  | ramp effects y thickness hrise hi hb harc =>
    rw [Draft.walls, Draft.eraseIdx_newest h hi]
    exact .take hi
  | wall effects y height hi hb =>
    rw [Draft.walls, Draft.set_newest h hi]
    exact .rebuild _ hi

theorem Outcome.claim_walls {object : Object} (houtcome : Outcome d object e)
    (h : d.walls.Newest) : d.walls.Claim e.walls := by
  cases houtcome with
  | made hmade => exact hmade.claim_walls h
  | lack => exact .forget
  | strayFlat => exact .forget
  | strayRamp => exact .forget

theorem walls_close (h : d.walls.Newest) (kind : String) (fields : Fields) :
    d.walls.Claim (close kind fields d).walls := by
  unfold close
  split
  · exact .keep
  · exact (outcome_place _ d).claim_walls h

end Object

namespace Script

/-- All objects of a script together claim the block once at most. -/
theorem keeps_claim (w : Walls) : Keeps fun d => d.walls.Newest ∧ w.Claim d.walls := by
  apply Keeps.of_told
  · intro d e htold h
    cases htold
    exact h
  · intro d kind fields h
    obtain ⟨hnewest, hclaim⟩ := h
    have hclose := Object.walls_close hnewest kind fields
    exact ⟨hclose.newest hnewest, hclaim.trans hclose⟩

end Script

/-! ### What a drawing does to the blocks -/

namespace Drawing

def walls (d : Drawing) : Walls := d.draft.walls

variable {d : Drawing}

theorem claims_flush (h : d.walls.Newest) : d.flush.walls.Newest ∧ d.walls.Claim d.flush.walls := by
  unfold flush
  split
  · exact ⟨h, .keep⟩
  · exact (Script.keeps_claim d.walls).run ⟨h, .keep⟩ ..

theorem Draws.walls {e : Drawing} {operation : Operation} (hdraws : d.Draws operation e)
    (h : d.walls.Newest) : d.walls.Draw e.walls := by
  cases hdraws with
  | frame corners r => exact .raise _
  | frameAgain corners hlast hmoved => exact .raise _
  | recolor corners hlast hmoved =>
    cases hi : d.draft.shapes.block with
    | none =>
      simp only [Draft.modifyBlock, hi]
      exact .keep
    | some i =>
      have hlength : i + 1 = d.draft.level.blocks.length := h i hi
      have hb := List.getElem?_eq_getElem (show i < d.draft.level.blocks.length by omega)
      simp only [Drawing.walls, Draft.walls_modifyBlock h hi hb]
      exact .paint _ hi
  | _ => exact .keep

theorem next_step (h : d.walls.Newest) (operation : Operation) :
    d.walls.Next (d.step operation).walls := by
  obtain ⟨hnewest, hclaim⟩ := claims_flush h
  have hdraw := Walls.Draw.next h hclaim ((d.flush.draws operation).walls hnewest)
  cases operation with
  | text place text => exact Walls.Claim.next h .keep
  | _ => exact hdraw

theorem next_finish (h : d.walls.Newest) : d.walls.Next d.finish.walls := by
  obtain ⟨hnewest, hclaim⟩ := (Script.keeps_claim d.walls).finish (claims_flush h) d.flush.mode
  exact hclaim.next h

theorem settled_run (operations : List Operation) {d : Drawing} (h : d.walls.Newest) :
    (operations.foldl step d).walls.Newest ∧
      d.walls.settled <+: (operations.foldl step d).walls.settled := by
  -- prefixes of what is settled compose, those of all blocks would not
  induction operations generalizing d with
  | nil => exact ⟨h, List.prefix_rfl⟩
  | cons operation rest ih =>
    have hnext := next_step h operation
    obtain ⟨hnewest, hsettled⟩ := ih hnext.newest
    exact ⟨hnewest, hnext.settled.trans hsettled⟩

/-- The blocks after one more operation, or after the end of the drawing. -/
inductive After (d : Drawing) : Walls → Prop where
  | step (operation : Operation) : After d (d.step operation).walls
  | finish : After d d.finish.walls

theorem next_after (h : d.walls.Newest) {w : Walls} (hafter : d.After w) : d.walls.Next w := by
  cases hafter with
  | step operation => exact next_step h operation
  | finish => exact next_finish h

/-- Only the newest wall can be touched. In every state of a drawing the current block is the last
one, what comes after leaves all others in front of what it makes of it, and a block that is not
current stays what it is to the end. -/
theorem blocks_settled (level : Level) (heights : Heights) (operations : List Operation) :
    let d := operations.foldl step (start level heights)
    d.walls.Newest ∧
      (∀ w, d.After w → w.Newest ∧ d.walls.settled <+: w.blocks ∧
        w.blocks.length ≤ d.walls.blocks.length + 1 ∧
        d.walls.blocks.length ≤ w.blocks.length + 1) ∧
      ∀ (i : Nat) (b : Block), d.walls.blocks[i]? = some b → d.walls.current ≠ some i →
        ∀ later : List Operation,
          (later.foldl step d).walls.blocks[i]? = some b ∧
            (later.foldl step d).finish.walls.blocks[i]? = some b := by
  intro d
  have hstart : (start level heights).walls.Newest := by
    intro i hi
    cases hi
  obtain ⟨hnewest, -⟩ := settled_run operations hstart
  refine ⟨hnewest, ?_, ?_⟩
  · intro w hafter
    have hnext := next_after hnewest hafter
    exact ⟨hnext.newest, hnext.settled.trans w.settled_prefix, hnext.grows, hnext.shrinks⟩
  · intro i b hb hi later
    have hsettled := Walls.getElem?_settled hnewest hb hi
    obtain ⟨hlater, hrun⟩ := settled_run later hnewest
    have hfinish := hrun.trans (next_finish hlater).settled
    exact ⟨Walls.getElem?_of_settled hrun hsettled, Walls.getElem?_of_settled hfinish hsettled⟩

/-- Of two walls the second becomes a ramp, and what is meant for it later on misses the first. -/
theorem blocks_settled_ramp :
    let operations : List Operation :=
      [.rect .frame .square ⟨0, 0, 18, 18⟩, .rect .frame .square ⟨0, 36, 18, 54⟩]
    let later : List Operation :=
      [.arc .frame ⟨⟨0, 36, 18, 54⟩, 0, 90⟩,
        .text (.dh 0) "object Ramp deltaY = 2 end object Wall y = 7 end",
        .rgbFore ⟨65535, 0, 0⟩, .sameRect .frame .square]
    let b : Block := ⟨⟨⟨100⟩, ⟨300⟩, ⟨100⟩⟩, ⟨⟨50⟩, ⟨150⟩, ⟨50⟩⟩, .black, 0, .standard⟩
    let d := operations.foldl step (start (Level.named "") ⟨.ofInt 3, 0, 0⟩)
    (d.walls.blocks[0]? = some b ∧ d.walls.current = some 1) ∧
      (later.foldl step d).finish.walls.blocks[0]? = some b ∧
      (later.foldl step d).finish.walls.blocks.length = 1 := by
  intro operations later b d
  have hfirst : d.walls.blocks[0]? = some b := by decide +kernel
  have hcurrent : d.walls.current = some 1 := by decide +kernel
  have hother : d.walls.current ≠ some 0 := by
    rw [hcurrent]
    decide
  obtain ⟨-, -, hsettled⟩ := blocks_settled (Level.named "") ⟨.ofInt 3, 0, 0⟩ operations
  exact ⟨⟨hfirst, hcurrent⟩, (hsettled 0 b hfirst hother later).2, by decide +kernel⟩

end Drawing
end Floorplan

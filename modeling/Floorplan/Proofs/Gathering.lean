import Floorplan.Conversion
import Floorplan.Proofs.Drawing

/-!
# Floorplan.Proofs.Gathering

Texts are gathered until something else is drawn. How a text was cut up is forgotten when it is run,
and the clip is never looked at, so drawings that differ in no more are `Alike` and stay so. It
does not matter either when a text is run, as long as nothing is drawn in between: whatever is drawn
next would run it first (`finish_foldl_flush`). So an operation that is inert can stand anywhere but
between two texts, which it would keep apart.
-/

namespace Floorplan

namespace Operation

/-- Whether an operation draws no shape, sets nothing that shapes are drawn with, and is no text. -/
def isInert : Operation → Bool
  | text _ _ | origin _ _ | penSize _ | rgbFore _ | ovalSize _ => false
  | rect _ _ _ | sameRect _ _ | arc _ _ | sameArc _ _ _ => false
  | _ => true

/-- Each text on its own, where it belongs. -/
def ofTexts (texts : List (TextPlace × String)) : List Operation :=
  texts.map fun t => .text t.1 t.2

end Operation

namespace Drawing

/-- The second drawing differs in the clip and in how the gathered text was cut up, if in
anything. -/
inductive Alike (d : Drawing) : Drawing → Prop where
  | mk (clip : Option Rect) {texts : List String} :
    (texts = [] ↔ d.texts = []) → String.intercalate " " texts = String.intercalate " " d.texts →
    Alike d { d with pen := { d.pen with clip }, texts }

namespace Alike

variable {d e : Drawing}

theorem refl (d : Drawing) : d.Alike d := .mk d.pen.clip Iff.rfl rfl

theorem flush (h : d.Alike e) : d.flush.Alike e.flush := by
  cases h with
  | @mk clip texts hnone hjoined =>
    have hsame : texts.isEmpty = d.texts.isEmpty := by
      rw [Bool.eq_iff_iff, List.isEmpty_iff, List.isEmpty_iff, hnone]
    unfold Drawing.flush
    dsimp only
    rw [hsame, hjoined]
    split
    · exact .mk clip hnone hjoined
    · exact .mk clip Iff.rfl rfl

/-- Nothing that is drawn hangs on the clip or on texts. -/
theorem draw (h : d.Alike e) (operation : Operation) :
    (d.draw operation).Alike (e.draw operation) := by
  cases h with
  | @mk clip texts hnone hjoined =>
    cases operation with
    | clip bounds region => exact .mk (some bounds) hnone hjoined
    | rect stroke corners r =>
      cases stroke with
      | frame => cases corners <;> exact .mk clip hnone hjoined
      | paint => exact .mk clip hnone hjoined
    | sameRect stroke corners =>
      cases stroke with
      | frame =>
        unfold Drawing.draw frameSameRect
        cases d.draft.shapes.lastRect with
        | none => exact .mk clip hnone hjoined
        | some r =>
          dsimp only
          split
          · cases corners <;> exact .mk clip hnone hjoined
          · exact .mk clip hnone hjoined
      | paint => exact .mk clip hnone hjoined
    | sameArc stroke start sweep =>
      unfold Drawing.draw sameArc
      cases d.draft.shapes.lastArc with
      | none => exact .mk clip hnone hjoined
      | some r =>
        cases d.draft.shapes.arc with
        | none => exact .mk clip hnone hjoined
        | some current =>
          dsimp only
          split
          · exact .mk clip hnone hjoined
          · exact .mk clip hnone hjoined
    | _ => exact .mk clip hnone hjoined

/-- Texts that join to the same are gathered. -/
theorem gather (h : d.Alike e) {more more' : List String} (hmore : more ≠ []) (hmore' : more' ≠ [])
    (hjoin : String.intercalate " " more' = String.intercalate " " more) :
    Alike { d with texts := d.texts ++ more } { e with texts := e.texts ++ more' } := by
  cases h with
  | @mk clip texts hnone hjoined =>
    have htexts : String.intercalate " " (texts ++ more') =
        String.intercalate " " (d.texts ++ more) := by
      by_cases hempty : d.texts = []
      · rw [hnone.mpr hempty, hempty]
        exact hjoin
      · rw [String.intercalate_append_of_ne_nil (hempty ∘ hnone.mp) hmore',
          String.intercalate_append_of_ne_nil hempty hmore, hjoined, hjoin]
    have hnot : texts ++ more' = [] ↔ d.texts ++ more = [] := by
      simp [hmore, hmore']
    exact .mk clip hnot htexts

theorem step (h : d.Alike e) (operation : Operation) :
    (d.step operation).Alike (e.step operation) := by
  have hdraw := h.flush.draw operation
  cases operation with
  | text place text => exact h.gather (List.cons_ne_nil _ _) (List.cons_ne_nil _ _) rfl
  | _ => exact hdraw

theorem foldl (h : d.Alike e) (operations : List Operation) :
    (operations.foldl Drawing.step d).Alike (operations.foldl Drawing.step e) := by
  induction operations generalizing d e with
  | nil => exact h
  | cons operation operations ih => exact ih (h.step operation)

theorem finish (h : d.Alike e) : e.finish = d.finish := by
  have hflush := h.flush
  unfold Drawing.finish
  generalize d.flush = d' at hflush
  generalize e.flush = e' at hflush
  cases hflush
  rfl

/-- An operation that is inert does no more than run the texts before it. -/
theorem of_isInert {operation : Operation} (h : operation.isInert = true) (d : Drawing) :
    d.flush.Alike (d.step operation) := by
  cases operation with
  | clip bounds region => exact .mk (some bounds) Iff.rfl rfl
  | text _ _ => cases h
  | origin _ _ => cases h
  | penSize _ => cases h
  | rgbFore _ => cases h
  | ovalSize _ => cases h
  | rect _ _ _ => cases h
  | sameRect _ _ => cases h
  | arc _ _ => cases h
  | sameArc _ _ _ => cases h
  | _ => exact .refl _

end Alike

/-! ### When texts are run -/

theorem step_ofTexts (texts : List (TextPlace × String)) (d : Drawing) :
    (Operation.ofTexts texts).foldl step d = { d with texts := d.texts ++ texts.map Prod.snd } := by
  induction texts generalizing d with
  | nil => simp [Operation.ofTexts]
  | cons text texts ih =>
    have hstep := ih (d.step (.text text.1 text.2))
    rw [Operation.ofTexts, List.map_cons, List.foldl_cons, ← Operation.ofTexts, hstep]
    simp [step]

theorem flush_flush (d : Drawing) : d.flush.flush = d.flush := flush_of_texts d.texts_flush

/-- What is drawn first runs the texts, and finds nothing to do if they were run. -/
theorem step_flush {operation : Operation} (h : operation.isText = false) (d : Drawing) :
    d.flush.step operation = d.step operation := by
  rw [step_of_not_text h, step_of_not_text h, flush_flush]

theorem finish_foldl_flush {operations : List Operation} {d : Drawing}
    (h : d.texts = [] ∨ operations.head?.any Operation.isText = false) :
    (operations.foldl step d.flush).finish = (operations.foldl step d).finish := by
  rcases h with hnone | hhead
  · rw [flush_of_texts hnone]
  · cases operations with
    | nil =>
      rw [List.foldl_nil, List.foldl_nil, finish, finish, flush_flush]
    | cons operation operations =>
      rw [List.foldl_cons, List.foldl_cons, step_flush hhead]

/-- Texts are waiting only behind a text. -/
theorem texts_foldl {operations : List Operation} {d : Drawing} (hd : d.texts = [])
    (h : operations.getLast?.any Operation.isText = false) :
    (operations.foldl step d).texts = [] := by
  rcases List.eq_nil_or_concat operations with rfl | ⟨front, operation, rfl⟩
  · exact hd
  · rw [List.concat_eq_append, List.getLast?_concat, Option.any_some] at h
    rw [List.concat_eq_append, List.foldl_append, List.foldl_cons, List.foldl_nil,
      step_of_not_text h, gathered_draw, texts_flush]

/-- An operation that is inert can be left out unless it keeps two texts apart. -/
theorem finish_foldl_inert {operation : Operation} (hinert : operation.isInert = true)
    {operations : List Operation} {d : Drawing}
    (h : d.texts = [] ∨ operations.head?.any Operation.isText = false) :
    ((operation :: operations).foldl step d).finish = (operations.foldl step d).finish := by
  rw [List.foldl_cons, ← finish_foldl_flush h]
  exact ((Alike.of_isInert hinert d).foldl operations).finish

/-- A run of texts counts by what it joins to. -/
theorem finish_foldl_ofTexts {run run' : List (TextPlace × String)} (hrun : run ≠ [])
    (hrun' : run' ≠ [])
    (hjoin : String.intercalate " " (run.map Prod.snd) =
      String.intercalate " " (run'.map Prod.snd))
    (operations : List Operation) (d : Drawing) :
    ((Operation.ofTexts run ++ operations).foldl step d).finish =
      ((Operation.ofTexts run' ++ operations).foldl step d).finish := by
  have hgather : Alike { d with texts := d.texts ++ run'.map Prod.snd }
      { d with texts := d.texts ++ run.map Prod.snd } :=
    (Alike.refl d).gather (mt List.map_eq_nil_iff.mp hrun') (mt List.map_eq_nil_iff.mp hrun) hjoin
  rw [List.foldl_append, List.foldl_append, step_ofTexts, step_ofTexts]
  exact (hgather.foldl operations).finish

end Drawing

namespace Conversion

/-- It does not matter how a text was cut up, nor what inert operations stand around it. A
conversion stays the same if a run of texts is replaced by another one that joins to the same, and
if an inert operation is put anywhere but between two texts, or taken from there. -/
theorem ofOperations_gathering (options : Options) (front back : List Operation) :
    (∀ run run' : List (TextPlace × String), run ≠ [] → run' ≠ [] →
      String.intercalate " " (run.map Prod.snd) = String.intercalate " " (run'.map Prod.snd) →
      ofOperations options (front ++ Operation.ofTexts run ++ back) =
        ofOperations options (front ++ Operation.ofTexts run' ++ back)) ∧
      ∀ operation : Operation, operation.isInert = true →
        ¬ (front.getLast?.any Operation.isText = true ∧
          back.head?.any Operation.isText = true) →
        ofOperations options (front ++ operation :: back) =
          ofOperations options (front ++ back) := by
  constructor
  · intro run run' hrun hrun' hjoin
    have hfinish := Drawing.finish_foldl_ofTexts hrun hrun' hjoin back
      (front.foldl Drawing.step (.start options.level options.heights))
    rw [← List.foldl_append, ← List.foldl_append, ← List.append_assoc, ← List.append_assoc]
      at hfinish
    simp only [ofOperations, hfinish]
  · intro operation hinert hbetween
    have hwaits : (front.foldl Drawing.step (.start options.level options.heights)).texts = [] ∨
        back.head?.any Operation.isText = false := by
      rcases Decidable.not_and_iff_not_or_not.mp hbetween with hfront | hback
      · exact .inl (Drawing.texts_foldl rfl (Bool.eq_false_iff.mpr hfront))
      · exact .inr (Bool.eq_false_iff.mpr hback)
    have hfinish := Drawing.finish_foldl_inert hinert hwaits
    rw [← List.foldl_append, ← List.foldl_append] at hfinish
    simp only [ofOperations, hfinish]

/-- A goody that claims an arc, in three texts or in one, and a font that is set between the arc and
the goody. -/
theorem ofOperations_gathering_goody :
    let options : Options := ⟨"", none, .ofInt 3, 0⟩
    let front : List Operation :=
      [.arc .frame ⟨⟨0, 0, 18, 18⟩, 0, 90⟩]
    let back : List Operation := [.rect .frame .square ⟨0, 0, 18, 18⟩]
    let run : List (TextPlace × String) :=
      [(.dh 0, "object Goody"), (.dv 9, "grenades"), (.dhdv 1 2, "3 end wa 2")]
    let run' : List (TextPlace × String) :=
      [(.point ⟨5, 5⟩, "object Goody grenades 3 end wa 2")]
    (String.intercalate " " (run.map Prod.snd) = String.intercalate " " (run'.map Prod.snd) ∧
      ofOperations options (front ++ Operation.ofTexts run ++ back) =
        ofOperations options (front ++ Operation.ofTexts run' ++ back)) ∧
      (Operation.isInert (.textFont 3) = true ∧
        ofOperations options (front ++ .textFont 3 :: (Operation.ofTexts run' ++ back)) =
          ofOperations options (front ++ (Operation.ofTexts run' ++ back))) ∧
      (ofOperations options (front ++ Operation.ofTexts run ++ back)).level.blocks.map
        (fun b => b.center.y) = [⟨350⟩] := by
  intro options front back run run'
  have hjoin : String.intercalate " " (run.map Prod.snd) =
      String.intercalate " " (run'.map Prod.snd) := by
    decide +kernel
  refine ⟨⟨hjoin, ?_⟩, ⟨rfl, ?_⟩, by decide +kernel⟩
  · exact (ofOperations_gathering options front back).1 run run' (List.cons_ne_nil _ _)
      (List.cons_ne_nil _ _) hjoin
  · apply (ofOperations_gathering options front (Operation.ofTexts run' ++ back)).2 _ rfl
    decide

/-- Between two texts a font keeps a word from its value. -/
example :
    let options : Options := ⟨"", none, .ofInt 3, 0⟩
    let wall : Operation := .rect .frame .square ⟨0, 0, 18, 18⟩
    ofOperations options [.text (.dh 0) "wa", .textFont 3, .text (.dh 0) "2", wall] ≠
      ofOperations options [.text (.dh 0) "wa", .text (.dh 0) "2", wall] := by
  decide +kernel

end Conversion
end Floorplan

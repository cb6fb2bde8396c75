import Floorplan.Conversion
import Floorplan.Proofs.Drawing
import Floorplan.Proofs.Level.Characters
import Floorplan.Proofs.Picture.Texts
import Floorplan.Proofs.Script.Statements

/-!
# Floorplan.Proofs.Characters

Where the characters of a converted level come from. A script puts nothing into the texts of a
level but its own characters and spaces (`Draft.WrittenIn`), and a text of a picture is made of
characters of the Mac OS Roman set, of which XML forbids control characters only. So a document can
hold nothing forbidden but control characters that some text of the picture has, and those do get
through.
-/

namespace Floorplan

/-! ### Texts of a level -/

/-- The texts of the level are written in such characters. -/
structure Draft.WrittenIn (P : Char → Prop) (d : Draft) : Prop where
  texts : ∀ text ∈ d.level.texts, ∀ c ∈ text.toList, P c

namespace Draft.WrittenIn

variable {P : Char → Prop} {d e : Draft}

theorem of_texts (h : d.WrittenIn P) (htexts : e.level.texts = d.level.texts) : e.WrittenIn P := by
  constructor
  rw [htexts]
  exact h.texts

theorem append {old new : String} (hspace : P ' ') (hold : ∀ c ∈ old.toList, P c)
    (hnew : ∀ c ∈ new.toList, P c) : ∀ c ∈ (Script.append old new).toList, P c := by
  have hseparator : ∀ c ∈ " ".toList, P c := by simpa using hspace
  unfold Script.append
  split
  · exact hnew
  · simp only [String.toList_append, List.forall_mem_append]
    exact ⟨⟨hold, hseparator⟩, hnew⟩

theorem setHeight (h : d.WrittenIn P) (key value : String) (set : Heights → Decimal → Heights) :
    (Script.setHeight d key value set).WrittenIn P := by
  unfold Script.setHeight
  split
  · exact ⟨h.texts⟩
  · exact ⟨h.texts⟩

theorem setting (h : d.WrittenIn P) (hspace : P ' ') (key : String) {value : String}
    (hvalue : ∀ c ∈ value.toList, P c) : (Script.setting d key value).WrittenIn P := by
  have htexts := h.texts
  simp only [Level.texts, List.forall_mem_cons] at htexts
  obtain ⟨hname, hauthor, htagline, hdescription, hnil⟩ := htexts
  unfold Script.setting
  split
  · exact h.setHeight ..
  · exact h.setHeight ..
  · exact h.setHeight ..
  · constructor
    simp only [Level.texts, List.forall_mem_cons]
    exact ⟨hname, hvalue, htagline, hdescription, hnil⟩
  · constructor
    simp only [Level.texts, List.forall_mem_cons]
    exact ⟨hname, hauthor, append hspace htagline hvalue, hdescription, hnil⟩
  · constructor
    simp only [Level.texts, List.forall_mem_cons]
    exact ⟨hname, hauthor, htagline, append hspace hdescription hvalue, hnil⟩
  · exact ⟨h.texts⟩

theorem adjustment (h : d.WrittenIn P) (key value : String) :
    (Script.adjustment d key value).WrittenIn P := by
  unfold Script.adjustment
  split
  · exact ⟨h.texts⟩
  · dsimp only
    split <;> exact ⟨h.texts⟩

theorem close (h : d.WrittenIn P) (kind : String) (fields : Fields) :
    (Object.close kind fields d).WrittenIn P := by
  refine h.of_texts ?_
  have hplaced := Object.placed_close kind fields d
  generalize Object.close kind fields d = e at hplaced
  cases hplaced <;> rfl

theorem does (h : d.WrittenIn P) (hspace : P ' ') {W : String → Prop}
    (hword : ∀ word, W word → ∀ c ∈ word.toList, P c) (hdoes : Script.Does W d e) :
    e.WrittenIn P := by
  induction hdoes with
  | nothing => exact h
  | report p _ ih => exact ⟨ih.texts⟩
  | setting key hvalue _ ih => exact ih.setting hspace key (hword _ hvalue)
  | adjustment key hvalue _ ih => exact ih.adjustment key _
  | close kind fields _ ih => exact ih.close kind fields

theorem run (h : d.WrittenIn P) (hspace : P ' ') (mode : Script.Mode) {text : String}
    (htext : ∀ c ∈ text.toList, P c) : (Script.run mode text d).2.WrittenIn P :=
  h.does hspace (fun _ hword c hc => htext c (hword c hc)) (Script.does_run mode text d)

end Draft.WrittenIn

/-! ### Texts of a drawing -/

theorem mem_intercalate {separator : String} {texts : List String} {c : Char}
    (h : c ∈ (String.intercalate separator texts).toList) :
    c ∈ separator.toList ∨ ∃ text ∈ texts, c ∈ text.toList := by
  induction texts with
  | nil => cases h
  | cons text texts ih =>
    by_cases hlast : texts = []
    · subst hlast
      exact Or.inr ⟨text, List.mem_cons_self, h⟩
    · rw [String.intercalate_cons_of_ne_nil hlast, String.toList_append, String.toList_append,
        List.mem_append, List.mem_append] at h
      rcases h with (h | h) | h
      · exact Or.inr ⟨text, List.mem_cons_self, h⟩
      · exact Or.inl h
      · refine (ih h).imp_right ?_
        rintro ⟨other, hother, hc⟩
        exact ⟨other, List.mem_cons_of_mem _ hother, hc⟩

/-- Other operations than texts leave the texts of the level alone. -/
theorem Drawing.Draws.levelTexts {d e : Drawing} {operation : Operation}
    (h : d.Draws operation e) : e.draft.level.texts = d.draft.level.texts := by
  cases h with
  | recolor corners hlast hmoved =>
    unfold Draft.modifyBlock
    split <;> rfl
  | _ => rfl

/-- The texts of the level, and those that are gathered, are written in such characters. -/
structure Drawing.WrittenIn (P : Char → Prop) (d : Drawing) : Prop where
  draft : d.draft.WrittenIn P
  texts : ∀ text ∈ d.texts, ∀ c ∈ text.toList, P c

namespace Drawing.WrittenIn

variable {P : Char → Prop} {d : Drawing}

theorem flush (h : d.WrittenIn P) (hspace : P ' ') : d.flush.WrittenIn P := by
  unfold Drawing.flush
  split
  · exact h
  · refine ⟨h.draft.run hspace d.mode ?_, by simp⟩
    intro c hc
    rcases mem_intercalate hc with hc | ⟨text, htext, hc⟩
    · rw [List.mem_singleton.mp hc]
      exact hspace
    · exact h.texts text htext c hc

theorem draw (h : d.WrittenIn P) (operation : Operation) : (d.draw operation).WrittenIn P := by
  have hlevel := (d.draws operation).levelTexts
  exact ⟨h.draft.of_texts hlevel, d.gathered_draw operation ▸ h.texts⟩

theorem step (h : d.WrittenIn P) (hspace : P ' ') {operation : Operation}
    (htext : ∀ text ∈ operation.text?, ∀ c ∈ text.toList, P c) :
    (d.step operation).WrittenIn P := by
  unfold Drawing.step
  split
  · next place text =>
    refine ⟨h.draft, ?_⟩
    rw [List.forall_mem_append, List.forall_mem_singleton]
    exact ⟨h.texts, htext text rfl⟩
  · exact (h.flush hspace).draw operation

theorem foldl (h : d.WrittenIn P) (hspace : P ' ') (operations : List Operation)
    (htexts : ∀ text ∈ operations.filterMap Operation.text?, ∀ c ∈ text.toList, P c) :
    (operations.foldl Drawing.step d).WrittenIn P := by
  induction operations generalizing d with
  | nil => exact h
  | cons operation operations ih =>
    have hfirst : ∀ text ∈ operation.text?, ∀ c ∈ text.toList, P c := fun text htext =>
      htexts text (List.mem_filterMap.mpr ⟨operation, List.mem_cons_self, htext⟩)
    refine ih (h.step hspace hfirst) ?_
    intro text htext
    obtain ⟨other, hother, heq⟩ := List.mem_filterMap.mp htext
    exact htexts text (List.mem_filterMap.mpr ⟨other, List.mem_cons_of_mem _ hother, heq⟩)

theorem finish (h : d.WrittenIn P) (hspace : P ' ') : d.finish.WrittenIn P := by
  have hdraft := (h.flush hspace).draft
  unfold Drawing.finish Script.finish
  dsimp only
  split <;> exact ⟨hdraft.texts⟩

end Drawing.WrittenIn

/-! ### Decoded texts -/

namespace MacRoman

theorem isXmlChar_of_mem_upperHalf : ∀ c ∈ upperHalf, IsXmlChar c :=
  forall_mem_rows (by decide +kernel)

/-- Of the Mac OS Roman set XML forbids control characters only. -/
theorem isXmlChar_decodeByte (b : UInt8) :
    IsXmlChar (decodeByte b) ∨ (decodeByte b).toNat < 0x20 := by
  have hlower : ∀ n < 0x80, IsXmlChar (Char.ofNat n) ∨ (Char.ofNat n).toNat < 0x20 := by decide
  unfold decodeByte
  split
  · next hlow => exact hlower b.toNat hlow
  · left
    rw [List.getD_eq_getElem?_getD]
    cases hc : upperHalf[b.toNat - 0x80]? with
    | none => decide
    | some c => exact isXmlChar_of_mem_upperHalf c (List.mem_of_getElem? hc)

theorem isXmlChar_of_mem_decode {bytes : List UInt8} {c : Char}
    (h : c ∈ (decode bytes).toList) : IsXmlChar c ∨ c.toNat < 0x20 := by
  rw [decode, String.toList_ofList, List.mem_map] at h
  obtain ⟨b, -, rfl⟩ := h
  exact isXmlChar_decodeByte b

end MacRoman

/-! ### Documents of pictures -/

namespace Conversion

theorem writtenIn_start {P : Char → Prop} {options : Options}
    (hname : ∀ c ∈ options.name.toList, P c)
    (hauthor : ∀ author ∈ options.author, ∀ c ∈ author.toList, P c) :
    (Drawing.start options.level options.heights).WrittenIn P where
  draft := by
    constructor
    have hauthor' : ∀ c ∈ (options.author.getD "").toList, P c := by
      intro c hc
      cases hoption : options.author with
      | none =>
        rw [hoption] at hc
        cases hc
      | some author =>
        rw [hoption] at hc
        exact hauthor author hoption c hc
    simpa [Drawing.start, Draft.start, Options.level, Level.named, Level.texts] using
      ⟨hname, hauthor'⟩
  texts text htext := by cases htext

/-- What XML forbids in a document is in some text of the drawing. -/
theorem mem_of_forbidden {options : Options} (hname : IsXml options.name)
    (hauthor : ∀ author ∈ options.author, IsXml author) (operations : List Operation) {c : Char}
    (hforbidden : ¬ IsXmlChar c)
    (hc : c ∈ (ofOperations options operations).level.document.toList) :
    ∃ text ∈ operations.filterMap Operation.text?, c ∈ text.toList := by
  let P : Char → Prop := fun c =>
    IsXmlChar c ∨ ∃ text ∈ operations.filterMap Operation.text?, c ∈ text.toList
  have hspace : P ' ' := Or.inl (by decide)
  have hstart : (Drawing.start options.level options.heights).WrittenIn P :=
    writtenIn_start (fun c hc => Or.inl (hname c hc))
      fun author hauthor' c hc => Or.inl (hauthor author hauthor' c hc)
  have hfinish := (hstart.foldl hspace operations
    fun text htext c hc => Or.inr ⟨text, htext, hc⟩).finish hspace
  obtain ⟨text, htext, hmem⟩ := (Level.mem_document_iff _ hforbidden).mp hc
  exact (hfinish.texts text htext c hmem).resolve_left hforbidden

theorem ofPicture_eq_ok_iff {options : Options} {bytes : List UInt8} {conversion : Conversion} :
    ofPicture options bytes = .ok conversion ↔
      ∃ picture, Picture.decode bytes = .ok picture ∧
        ofOperations options picture.operations = conversion := by
  unfold ofPicture
  split
  · next herror => simp [herror]
  · next picture hpicture => simp [hpicture]

/-- XML allows the document of a picture exactly if it allows the texts of the level, and it does so
whenever it allows the texts of the picture. All that it can forbid is a control character that a
text of the picture has. -/
theorem isXml_document_ofPicture {options : Options} {bytes : List UInt8} {picture : Picture}
    {conversion : Conversion} (hname : IsXml options.name)
    (hauthor : ∀ author ∈ options.author, IsXml author)
    (hpicture : Picture.decode bytes = .ok picture)
    (h : ofPicture options bytes = .ok conversion) :
    ((∀ text ∈ picture.texts, IsXml text) → IsXml conversion.level.document) ∧
      (IsXml conversion.level.document ↔ ∀ text ∈ conversion.level.texts, IsXml text) ∧
      ∀ c ∈ conversion.level.document.toList, ¬ IsXmlChar c →
        c.toNat < 0x20 ∧ ∃ text ∈ picture.texts, c ∈ text.toList := by
  obtain ⟨picture', hpicture', rfl⟩ := ofPicture_eq_ok_iff.mp h
  obtain rfl : picture = picture' := Except.ok.inj (hpicture.symm.trans hpicture')
  have hfrom := fun {c} => mem_of_forbidden hname hauthor picture.operations (c := c)
  refine ⟨?_, Level.isXml_document_iff _, ?_⟩
  · intro htexts c hc
    by_contra hforbidden
    obtain ⟨text, htext, hmem⟩ := hfrom hforbidden hc
    exact hforbidden (htexts text htext c hmem)
  · intro c hc hforbidden
    obtain ⟨text, htext, hmem⟩ := hfrom hforbidden hc
    refine ⟨?_, text, htext, hmem⟩
    obtain ⟨op, hop, hshown⟩ := List.mem_filterMap.mp htext
    obtain ⟨written, rfl⟩ := (Picture.decoded_of_decode hpicture op hop).text text hshown
    exact (MacRoman.isXmlChar_of_mem_decode hmem).resolve_left hforbidden

/-- A designer whose name XML allows. -/
theorem isXml_document_designer :
    IsXml "Crater" ∧
      Picture.decode (Picture.encode ⟨⟨0, 0, 0, 0⟩, [.text (.dh 0) "designer Ann"]⟩) =
        .ok ⟨⟨0, 0, 0, 0⟩, [.text (.dh 0) "designer Ann"]⟩ ∧
      IsXml (ofOperations ⟨"Crater", none, .ofInt 3, 0⟩
        [.text (.dh 0) "designer Ann"]).level.document := by
  have hdecode : Picture.decode (Picture.encode ⟨⟨0, 0, 0, 0⟩, [.text (.dh 0) "designer Ann"]⟩) =
      .ok ⟨⟨0, 0, 0, 0⟩, [.text (.dh 0) "designer Ann"]⟩ := by
    rw [Picture.decode_encode_of_fits (by decide)]
    decide +kernel
  have hconverts := ofPicture_eq_ok_iff.mpr
    ⟨_, hdecode, rfl (a := ofOperations ⟨"Crater", none, .ofInt 3, 0⟩ _)⟩
  refine ⟨by decide, hdecode, ?_⟩
  exact (isXml_document_ofPicture (by decide) (by decide) hdecode hconverts).1 (by decide +kernel)

/-- A control character that a designer has in the name gets through. -/
theorem not_isXml_document_control :
    IsXml "Crater" ∧
      ofPicture ⟨"Crater", none, .ofInt 3, 0⟩
          (Picture.encode ⟨⟨0, 0, 0, 0⟩, [.text (.dh 0) "designer \x01"]⟩) =
        .ok (ofOperations ⟨"Crater", none, .ofInt 3, 0⟩ [.text (.dh 0) "designer \x01"]) ∧
      ¬ IsXml (ofOperations ⟨"Crater", none, .ofInt 3, 0⟩
        [.text (.dh 0) "designer \x01"]).level.document := by
  have hdecode : Picture.decode (Picture.encode ⟨⟨0, 0, 0, 0⟩, [.text (.dh 0) "designer \x01"]⟩) =
      .ok ⟨⟨0, 0, 0, 0⟩, [.text (.dh 0) "designer \x01"]⟩ := by
    rw [Picture.decode_encode_of_fits (by decide)]
    decide +kernel
  refine ⟨by decide, ofPicture_eq_ok_iff.mpr ⟨_, hdecode, rfl⟩, ?_⟩
  rw [Level.isXml_document_iff]
  decide +kernel

end Conversion
end Floorplan

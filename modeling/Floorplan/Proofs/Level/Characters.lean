import Floorplan.Proofs.Level.Document

/-!
# Floorplan.Proofs.Level.Characters

The characters of a document. Tags, names and values are plain text, so all else comes from the four
texts of the level (`mem_document`), and a character that is not escaped is passed on as it is. In
particular XML allows all characters of a document exactly if it allows those of the texts
(`isXml_document_iff`): no character is kept out by how a document is written.
-/

namespace Floorplan

/-- A character that XML 1.0 allows. -/
def IsXmlChar (c : Char) : Prop :=
  c = '\t' ∨ c = '\n' ∨ c = '\r' ∨ 0x20 ≤ c.toNat ∧ c.toNat ≤ 0xD7FF ∨
    0xE000 ≤ c.toNat ∧ c.toNat ≤ 0xFFFD ∨ 0x10000 ≤ c.toNat

instance : DecidablePred IsXmlChar := fun _ => inferInstanceAs (Decidable (_ ∨ _))

/-- XML 1.0 allows all characters of a text. -/
def IsXml (text : String) : Prop := ∀ c ∈ text.toList, IsXmlChar c

-- By the list of characters. All characters there are can be tried as well, and must not be.
instance : DecidablePred IsXml := fun text => List.decidableBAll _ text.toList

/-- A character of printable ASCII. -/
def IsPlainChar (c : Char) : Prop := 0x20 ≤ c.toNat ∧ c.toNat < 0x7F

instance : DecidablePred IsPlainChar := fun _ => inferInstanceAs (Decidable (_ ∧ _))

def IsPlain (text : String) : Prop := ∀ c ∈ text.toList, IsPlainChar c

instance : DecidablePred IsPlain := fun text => List.decidableBAll _ text.toList

/-- Printable ASCII and line feeds. -/
def IsPlainLines (text : String) : Prop := ∀ c ∈ text.toList, IsPlainChar c ∨ c = '\n'

instance : DecidablePred IsPlainLines := fun text => List.decidableBAll _ text.toList

theorem IsPlainChar.isXmlChar {c : Char} (h : IsPlainChar c) : IsXmlChar c := by
  unfold IsPlainChar at h
  unfold IsXmlChar
  omega

theorem isPlainChar_of_range {c low high : Char} (hlow : 0x20 ≤ low.toNat)
    (hhigh : high.toNat < 0x7F) (h : low.val ≤ c.val ∧ c.val ≤ high.val) : IsPlainChar c := by
  have hle : low.toNat ≤ c.toNat := UInt32.le_iff_toNat_le.mp h.1
  have hge : c.toNat ≤ high.toNat := UInt32.le_iff_toNat_le.mp h.2
  unfold IsPlainChar
  omega

theorem isPlainChar_of_isDigit {c : Char} (h : c.isDigit = true) : IsPlainChar c := by
  have hrange : decide ('0'.val ≤ c.val) = true ∧ decide (c.val ≤ '9'.val) = true :=
    Bool.and_eq_true_iff.mp h
  rw [decide_eq_true_eq, decide_eq_true_eq] at hrange
  exact isPlainChar_of_range (by decide) (by decide) hrange

theorem isPlainChar_of_isAlpha {c : Char} (h : c.isAlpha = true) : IsPlainChar c := by
  have hcase : c.isUpper = true ∨ c.isLower = true := Bool.or_eq_true_iff.mp h
  rcases hcase with hupper | hlower
  · have hrange : 'A'.val ≤ c.val ∧ c.val ≤ 'Z'.val := of_decide_eq_true hupper
    exact isPlainChar_of_range (by decide) (by decide) hrange
  · have hrange : decide ('a'.val ≤ c.val) = true ∧ decide (c.val ≤ 'z'.val) = true :=
      Bool.and_eq_true_iff.mp hlower
    rw [decide_eq_true_eq, decide_eq_true_eq] at hrange
    exact isPlainChar_of_range (by decide) (by decide) hrange

theorem isPlain_append {a b : String} : IsPlain (a ++ b) ↔ IsPlain a ∧ IsPlain b := by
  unfold IsPlain
  rw [String.toList_append, List.forall_mem_append]

/-! ### Values -/

theorem isPlain_repr (n : Nat) : IsPlain (Nat.repr n) := by
  intro c hc
  rw [Nat.toList_repr] at hc
  exact isPlainChar_of_isDigit (Nat.isDigit_of_mem_toDigits (by decide) (by decide) hc)

theorem Decimal.isPlain_text (x : Decimal) : IsPlain x.text := by
  intro c hc
  rcases mem_text hc with hdigit | rfl | rfl
  · exact isPlainChar_of_isDigit hdigit
  · decide
  · decide

theorem Vec3.isPlain_text (p : Vec3) : IsPlain p.text := by
  have hcomma : IsPlain "," := by decide
  simp only [Vec3.text, isPlain_append]
  exact ⟨⟨⟨⟨p.x.isPlain_text, hcomma⟩, p.y.isPlain_text⟩, hcomma⟩, p.z.isPlain_text⟩

theorem GoodyKind.isPlain_text (kind : GoodyKind) : IsPlain kind.text := by
  cases kind <;> decide

theorem Binary.isPlain_placesText (places : Nat) (x : Binary) : IsPlain (x.placesText places) := by
  have hsign : ∀ negative, IsPlain (signText negative) := by decide
  have hnan : IsPlain "NaN" := by decide
  cases x with
  | nan => exact hnan
  | infinite negative => exact isPlain_append.mpr ⟨hsign negative, by decide⟩
  | finite negative m e =>
    have hpoint : IsPlain "." := by decide
    unfold placesText
    simp only [isPlain_append]
    refine ⟨⟨⟨hsign negative, isPlain_repr _⟩, hpoint⟩, ?_⟩
    intro c hc
    rw [String.toList_ofList, List.mem_append] at hc
    rcases hc with hzero | hdigit
    · rw [List.eq_of_mem_replicate hzero]
      decide
    · exact isPlainChar_of_isDigit (Nat.isDigit_of_mem_toDigits (by decide) (by decide) hdigit)

theorem Color.isPlain_channelText (x : Binary) : IsPlain (channelText x) := by
  unfold channelText
  dsimp only
  split
  · decide
  · intro c hc
    rw [String.toList_ofList, List.mem_reverse] at hc
    have hkept := (List.dropWhile_sublist _).mem ((List.dropWhile_sublist _).mem hc)
    exact Binary.isPlain_placesText 3 x c (List.mem_reverse.mp hkept)

theorem Color.isPlain_text (color : Color) : IsPlain color.text := by
  have hcomma : IsPlain "," := by decide
  simp only [Color.text, isPlain_append]
  exact ⟨⟨⟨⟨isPlain_channelText _, hcomma⟩, isPlain_channelText _⟩, hcomma⟩,
    isPlain_channelText _⟩

/-! ### Elements -/

namespace Element

/-- All attributes have values of this kind. -/
def Values (P : String → Prop) (as : List (String × String)) : Prop := ∀ p ∈ as, P p.2

theorem values_cons {P : String → Prop} {name value : String} {as : List (String × String)} :
    Values P ((name, value) :: as) ↔ P value ∧ Values P as :=
  List.forall_mem_cons

theorem values_append {P : String → Prop} {as bs : List (String × String)} :
    Values P (as ++ bs) ↔ Values P as ∧ Values P bs :=
  List.forall_mem_append

theorem values_nil {P : String → Prop} : Values P [] := by
  intro p hp
  cases hp

theorem mem_escape {text : String} {c : Char} (h : c ∈ (escape text).toList) :
    IsPlainChar c ∨ c ∈ text.toList := by
  rw [escape, String.toList_ofList, List.mem_flatMap] at h
  obtain ⟨d, hd, hc⟩ := h
  rcases escapeChar_cases d with ⟨r, hr, heq⟩ | ⟨-, heq⟩
  · have hplain : ∀ p ∈ references, IsPlain p.2 := by decide
    exact Or.inl (hplain _ hr c (heq ▸ hc))
  · rw [heq, List.mem_singleton] at hc
    exact Or.inr (hc ▸ hd)

/-- A character that has no reference is written as it is. -/
theorem mem_escape_of_mem {text : String} {c : Char} (h : c ∈ text.toList)
    (hplain : c ∉ references.map Prod.fst) : c ∈ (escape text).toList := by
  rw [escape, String.toList_ofList, List.mem_flatMap]
  refine ⟨c, h, ?_⟩
  rcases escapeChar_cases c with ⟨r, hr, -⟩ | ⟨-, heq⟩
  · exact absurd (List.mem_map_of_mem hr) hplain
  · rw [heq]
    exact List.mem_cons_self

theorem mem_openText {e : Element} (he : e.Named) {c : Char} (h : c ∈ e.openText.toList) :
    IsPlainChar c ∨ ∃ p ∈ e.attributes, c ∈ p.2.toList := by
  have hname : ∀ {name}, IsWord name → c ∈ name.toList → IsPlainChar c :=
    fun hword hc => isPlainChar_of_isAlpha (hword.isAlpha c hc)
  simp only [toList_openText, List.mem_cons, List.mem_append, List.mem_flatMap] at h
  rcases h with rfl | h | ⟨p, hp, h⟩
  · exact Or.inl (by decide)
  · exact Or.inl (hname he.name h)
  · simp only [toList_attributeText, List.mem_cons, List.mem_append, List.not_mem_nil,
      or_false] at h
    rcases h with rfl | h | rfl | rfl | h | rfl
    · exact Or.inl (by decide)
    · exact Or.inl (hname (he.attributes p hp) h)
    · exact Or.inl (by decide)
    · exact Or.inl (by decide)
    · rcases mem_escape h with hplain | hvalue
      · exact Or.inl hplain
      · exact Or.inr ⟨p, hp, hvalue⟩
    · exact Or.inl (by decide)

theorem mem_openText_of_mem {e : Element} {p : String × String} (hp : p ∈ e.attributes)
    {c : Char} (hc : c ∈ p.2.toList) (hplain : c ∉ references.map Prod.fst) :
    c ∈ e.openText.toList := by
  have hattribute : c ∈ (attributeText p).toList := by
    simp [toList_attributeText, mem_escape_of_mem hc hplain]
  rw [toList_openText]
  refine List.mem_cons_of_mem _ (List.mem_append_right _ ?_)
  exact List.mem_flatMap.mpr ⟨p, hp, hattribute⟩

/-- A line is plain text if the values in it are. -/
theorem mem_line {e : Element} (he : e.Named) (hvalues : Values IsPlain e.attributes) {c : Char}
    (h : c ∈ e.line.toList) : IsPlainChar c ∨ c = '\n' := by
  have hend : IsPlainLines " />\n" := by decide
  simp only [toList_line, List.mem_cons, List.mem_append] at h
  rcases h with rfl | rfl | h | h
  · exact Or.inl (by decide)
  · exact Or.inl (by decide)
  · rcases mem_openText he h with hplain | ⟨p, hp, hc⟩
    · exact Or.inl hplain
    · exact Or.inl (hvalues p hp c hc)
  · exact hend c h

end Element

/-! ### The document -/

namespace Level

open Element (Values values_cons values_append values_nil)

/-- The texts of a level, which scripts and options give it. -/
def texts (level : Level) : List String :=
  [level.name, level.author, level.tagline, level.description]

theorem values_given {P : String → Prop} {name : String} {value : Option String}
    (h : ∀ v ∈ value, P v) : Values P (given name value) := by
  cases value with
  | none => exact values_nil
  | some v => exact values_cons.mpr ⟨h v rfl, values_nil⟩

theorem values_shown {name : String} {p : Prop} [Decidable p] {text : String} (h : IsPlain text) :
    Values IsPlain (given name (if p then some text else none)) := by
  apply values_given
  split <;> simp [h]

theorem values_effectsAttributes (e : Effects) : Values IsPlain (effectsAttributes e) := by
  have htrue : IsPlain "true" := by decide
  rw [effectsAttributes_eq]
  simp only [values_append]
  refine ⟨values_shown (isPlain_repr _), values_given ?_, values_shown htrue, values_shown htrue⟩
  simp [Decimal.isPlain_text]

theorem values_of_mem_elements {level : Level} {e : Element} (h : e ∈ level.elements) :
    Values IsPlain e.attributes := by
  simp only [elements, Option.toList_map, List.mem_append, List.mem_map] at h
  rcases h with (((((⟨sky, -, rfl⟩ | ⟨ground, -, rfl⟩) | ⟨i, -, rfl⟩) | ⟨b, -, rfl⟩) |
    ⟨r, -, rfl⟩) | ⟨g, -, rfl⟩)
  · simp [skyElement, values_cons, values_nil, Color.isPlain_text]
  · simp [groundElement, values_cons, values_nil, Color.isPlain_text]
  · simp [incarnatorElement, values_cons, values_nil, Vec3.isPlain_text, Decimal.isPlain_text]
  · simp [blockElement, values_cons, Vec3.isPlain_text, Color.isPlain_text,
      values_effectsAttributes]
  · simp only [rampElement_eq, values_cons, values_append]
    exact ⟨Vec3.isPlain_text _, Vec3.isPlain_text _, Decimal.isPlain_text _, Color.isPlain_text _,
      values_shown (Decimal.isPlain_text _), values_effectsAttributes _⟩
  · simp only [goodyElement_eq, values_cons, values_append]
    exact ⟨Vec3.isPlain_text _, GoodyKind.isPlain_text _, isPlain_repr _, isPlain_repr _,
      isPlain_repr _, values_shown (Decimal.isPlain_text _), Color.isPlain_text _,
      values_effectsAttributes _⟩

/-- What is not plain in a document comes from the texts of the level. -/
theorem mem_document {level : Level} {c : Char} (h : c ∈ level.document.toList) :
    IsPlainChar c ∨ c = '\n' ∨ ∃ text ∈ level.texts, c ∈ text.toList := by
  have hprolog : IsPlainLines "<?xml version=\"1.0\" encoding=\"UTF-8\"?>\n" := by decide
  have hend : IsPlainLines "/map>\n" := by decide
  rw [toList_document] at h
  simp only [List.mem_append, List.mem_cons, List.mem_flatMap] at h
  rcases h with h | h | rfl | rfl | ⟨e, he, h⟩ | rfl | h
  · exact (hprolog c h).imp_right Or.inl
  · rcases Element.mem_openText (named_root level) h with hplain | ⟨p, hp, hc⟩
    · exact Or.inl hplain
    · refine Or.inr (Or.inr ⟨p.2, ?_, hc⟩)
      exact List.mem_map_of_mem (f := Prod.snd) hp
  · exact Or.inl (by decide)
  · exact Or.inr (Or.inl rfl)
  · exact (Element.mem_line (named_of_mem_elements he) (values_of_mem_elements he) h).imp_right
      Or.inl
  · exact Or.inl (by decide)
  · exact (hend c h).imp_right Or.inl

theorem mem_document_of_mem_texts {level : Level} {text : String} (h : text ∈ level.texts)
    {c : Char} (hc : c ∈ text.toList) (hplain : c ∉ Element.references.map Prod.fst) :
    c ∈ level.document.toList := by
  have hvalue : text ∈ level.root.attributes.map Prod.snd := h
  obtain ⟨p, hp, rfl⟩ := List.mem_map.mp hvalue
  have hroot := Element.mem_openText_of_mem hp hc hplain
  rw [toList_document]
  simp only [List.mem_append]
  exact Or.inr (Or.inl hroot)

/-- A character that XML does not allow is in a document exactly if it is in a text of the
level. -/
theorem mem_document_iff (level : Level) {c : Char} (h : ¬ IsXmlChar c) :
    c ∈ level.document.toList ↔ ∃ text ∈ level.texts, c ∈ text.toList := by
  constructor
  · intro hc
    rcases mem_document hc with hplain | rfl | htext
    · exact absurd hplain.isXmlChar h
    · exact absurd (by decide) h
    · exact htext
  · rintro ⟨text, htext, hc⟩
    refine mem_document_of_mem_texts htext hc ?_
    have hallowed : ∀ p ∈ Element.references, IsXmlChar p.1 := by decide
    intro hreference
    obtain ⟨p, hp, rfl⟩ := List.mem_map.mp hreference
    exact h (hallowed p hp)

theorem isXml_document_iff (level : Level) :
    IsXml level.document ↔ ∀ text ∈ level.texts, IsXml text := by
  constructor
  · intro h text htext c hc
    by_contra hnot
    exact hnot (h c ((mem_document_iff level hnot).mpr ⟨text, htext, hc⟩))
  · intro h c hc
    by_contra hnot
    obtain ⟨text, htext, hmem⟩ := (mem_document_iff level hnot).mp hc
    exact hnot (h text htext c hmem)

end Level
end Floorplan

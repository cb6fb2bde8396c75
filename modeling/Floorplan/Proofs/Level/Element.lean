import Floorplan.Level.Document

/-!
# Floorplan.Proofs.Level.Element

The text of an element and what can be told from it. No value can end its quotes, since what it
says is escaped and `unescape` brings it back; no attribute can be taken for the end of an element.
So a text that begins with an element begins with no other (`openText_append_inj`), and lines one
behind another are those of one list of elements only (`lines_append_inj`).

Texts are compared as lists of characters, each with any rest behind it.
-/

namespace Floorplan
namespace Element

/-! ### Escaped text -/

/-- The characters that a value does not hold as they are, each with its reference. -/
def references : List (Char × String) :=
  [('&', "&amp;"), ('<', "&lt;"), ('>', "&gt;"), ('\x22', "&quot;"), ('\n', "&#10;"),
    ('\r', "&#13;"), ('\t', "&#9;")]

theorem escapeChar_cases (c : Char) :
    (∃ r, (c, r) ∈ references ∧ escapeChar c = r.toList) ∨
      c ∉ references.map Prod.fst ∧ escapeChar c = [c] := by
  unfold escapeChar
  repeat' split
  all_goals simp_all [references]

/-- Reads references as the characters that they stand for. -/
def unescape : List Char → List Char
  | '&' :: 'a' :: 'm' :: 'p' :: ';' :: cs => '&' :: unescape cs
  | '&' :: 'l' :: 't' :: ';' :: cs => '<' :: unescape cs
  | '&' :: 'g' :: 't' :: ';' :: cs => '>' :: unescape cs
  | '&' :: 'q' :: 'u' :: 'o' :: 't' :: ';' :: cs => '\x22' :: unescape cs
  | '&' :: '#' :: '1' :: '0' :: ';' :: cs => '\n' :: unescape cs
  | '&' :: '#' :: '1' :: '3' :: ';' :: cs => '\r' :: unescape cs
  | '&' :: '#' :: '9' :: ';' :: cs => '\t' :: unescape cs
  | c :: cs => c :: unescape cs
  | [] => []

theorem unescape_cons {c : Char} (h : c ≠ '&') (cs : List Char) :
    unescape (c :: cs) = c :: unescape cs := by
  simp [unescape, h]

theorem unescape_reference {c : Char} {r : String} (h : (c, r) ∈ references) (cs : List Char) :
    unescape (r.toList ++ cs) = c :: unescape cs := by
  simp only [references, List.mem_cons, Prod.mk.injEq, List.not_mem_nil, or_false] at h
  rcases h with ⟨rfl, rfl⟩ | ⟨rfl, rfl⟩ | ⟨rfl, rfl⟩ | ⟨rfl, rfl⟩ | ⟨rfl, rfl⟩ | ⟨rfl, rfl⟩ |
    ⟨rfl, rfl⟩
  all_goals rfl

theorem unescape_escapeChar (c : Char) (cs : List Char) :
    unescape (escapeChar c ++ cs) = c :: unescape cs := by
  rcases escapeChar_cases c with ⟨r, hr, heq⟩ | ⟨hplain, heq⟩
  · rw [heq, unescape_reference hr]
  · have hamp : c ≠ '&' := by
      rintro rfl
      exact hplain (by decide)
    rw [heq, List.singleton_append, unescape_cons hamp]

theorem unescape_escape (text : String) : unescape (escape text).toList = text.toList := by
  rw [escape, String.toList_ofList]
  induction text.toList with
  | nil => rfl
  | cons c cs ih => rw [List.flatMap_cons, unescape_escapeChar, ih]

theorem escape_injective : Function.Injective escape := by
  intro a b h
  apply String.toList_injective
  rw [← unescape_escape a, h, unescape_escape b]

/-- Of the characters that have references only the `&` of these is in a value. -/
theorem notMem_escape {c : Char} (h : c ∈ references.map Prod.fst) (hamp : c ≠ '&')
    (text : String) : c ∉ (escape text).toList := by
  rw [escape, String.toList_ofList, List.mem_flatMap]
  rintro ⟨d, -, hc⟩
  rcases escapeChar_cases d with ⟨r, hr, heq⟩ | ⟨hplain, heq⟩
  · have hnone : ∀ p ∈ references, ∀ q ∈ references, p.1 ≠ '&' → p.1 ∉ q.2.toList := by decide
    obtain ⟨p, hp, rfl⟩ := List.mem_map.mp h
    exact hnone p hp _ hr hamp (heq ▸ hc)
  · rw [heq, List.mem_singleton] at hc
    subst hc
    exact hplain h

theorem quote_notMem_escape (text : String) : '\x22' ∉ (escape text).toList :=
  notMem_escape (by decide) (by decide) text

/-! ### Texts one behind another -/

/-- Words of one class of characters, each with something else behind it, end at the same place. -/
theorem span_append_inj {p : Char → Bool} {x y r s : List Char} (hx : ∀ c ∈ x, p c = true)
    (hy : ∀ c ∈ y, p c = true) (hr : ∀ c ∈ r.head?, p c = false)
    (hs : ∀ c ∈ s.head?, p c = false) (h : x ++ r = y ++ s) : x = y ∧ r = s := by
  have hnone : ∀ {t : List Char}, (∀ c ∈ t.head?, p c = false) → t.takeWhile p = [] := by
    intro t ht
    cases t with
    | nil => rfl
    | cons c cs => rw [List.takeWhile_cons, ht c rfl]; rfl
  have htake := congrArg (List.takeWhile p) h
  rw [List.takeWhile_append_of_pos hx, List.takeWhile_append_of_pos hy, hnone hr, hnone hs,
    List.append_nil, List.append_nil] at htake
  subst htake
  exact ⟨rfl, List.append_cancel_left h⟩

/-- If the text of an item can be told from any text behind it and is never the front of an end,
then so can the texts of a list of items with an end behind them. -/
theorem flatMap_append_inj {α : Type} (text : α → List Char) {Good : α → Prop}
    (End : List Char → Prop)
    (item : ∀ {a b r s}, Good a → Good b → text a ++ r = text b ++ s → a = b ∧ r = s)
    (stop : ∀ {a r}, Good a → ¬ End (text a ++ r)) {as bs : List α} {r s : List Char}
    (has : ∀ a ∈ as, Good a) (hbs : ∀ b ∈ bs, Good b) (hr : End r) (hs : End s)
    (h : as.flatMap text ++ r = bs.flatMap text ++ s) : as = bs ∧ r = s := by
  induction as generalizing bs with
  | nil =>
    cases bs with
    | nil => exact ⟨rfl, h⟩
    | cons b bs =>
      rw [List.flatMap_nil, List.nil_append, List.flatMap_cons, List.append_assoc] at h
      exact absurd (h ▸ hr) (stop (hbs b List.mem_cons_self))
  | cons a as ih =>
    have ha := has a List.mem_cons_self
    rw [List.flatMap_cons, List.append_assoc] at h
    cases bs with
    | nil =>
      rw [List.flatMap_nil, List.nil_append] at h
      exact absurd (h ▸ hs) (stop ha)
    | cons b bs =>
      rw [List.flatMap_cons, List.append_assoc] at h
      obtain ⟨hhead, htail⟩ := item ha (hbs b List.mem_cons_self) h
      obtain ⟨hrest, hend⟩ := ih (fun a ha => has a (List.mem_cons_of_mem _ ha))
        (fun b hb => hbs b (List.mem_cons_of_mem _ hb)) htail
      exact ⟨by rw [hhead, hrest], hend⟩

/-! ### Attributes and elements -/

/-- A name of letters. -/
def IsWord (name : String) : Prop := name.toList.all Char.isAlpha = true

instance (name : String) : Decidable (IsWord name) :=
  inferInstanceAs (Decidable (name.toList.all Char.isAlpha = true))

theorem IsWord.isAlpha {name : String} (h : IsWord name) : ∀ c ∈ name.toList, c.isAlpha = true :=
  List.all_eq_true.mp h

/-- All attributes have names of this kind. -/
def Keys (P : String → Prop) (as : List (String × String)) : Prop := ∀ p ∈ as, P p.1

theorem keys_cons {P : String → Prop} {name value : String} {as : List (String × String)} :
    Keys P ((name, value) :: as) ↔ P name ∧ Keys P as :=
  List.forall_mem_cons

theorem keys_append {P : String → Prop} {as bs : List (String × String)} :
    Keys P (as ++ bs) ↔ Keys P as ∧ Keys P bs :=
  List.forall_mem_append

theorem keys_nil {P : String → Prop} : Keys P [] := by
  intro p hp
  cases hp

/-- An element whose own name and those of its attributes are words. -/
structure Named (e : Element) : Prop where
  name : IsWord e.name
  attributes : Keys IsWord e.attributes

/-- What stands behind the last attribute, `>` or the `/>` of an element without content. -/
def Closes (cs : List Char) : Prop := ∃ rest, cs = '>' :: rest ∨ cs = ' ' :: '/' :: rest

theorem toList_attributeText (p : String × String) :
    (attributeText p).toList =
      ' ' :: (p.1.toList ++ '=' :: '\x22' :: ((escape p.2).toList ++ ['\x22'])) := by
  simp [attributeText, String.toList_append]

theorem toList_openText (e : Element) :
    e.openText.toList =
      '<' :: (e.name.toList ++ e.attributes.flatMap fun p => (attributeText p).toList) := by
  simp [openText, String.toList_append, String.toList_join, List.flatMap_map]

theorem toList_line (e : Element) :
    e.line.toList = ' ' :: ' ' :: (e.openText.toList ++ " />\n".toList) := by
  simp [line, String.toList_append]

theorem attributeText_append_inj {p q : String × String} {r s : List Char} (hp : IsWord p.1)
    (hq : IsWord q.1) (h : (attributeText p).toList ++ r = (attributeText q).toList ++ s) :
    p = q ∧ r = s := by
  simp only [toList_attributeText, List.cons_append, List.append_assoc, List.cons.injEq,
    true_and, List.nil_append] at h
  have hstop : ∀ {t : List Char}, ∀ c ∈ ('=' :: t).head?, c.isAlpha = false := by
    rintro t c ⟨⟩
    rfl
  obtain ⟨hname, hvalue⟩ := span_append_inj hp.isAlpha hq.isAlpha hstop hstop h
  simp only [List.cons.injEq, true_and] at hvalue
  have hbody : ∀ text, ∀ c ∈ (escape text).toList, (c != '\x22') = true := by
    intro text c hc
    exact bne_iff_ne.mpr fun hquote => quote_notMem_escape text (hquote ▸ hc)
  have hquote : ∀ {t : List Char}, ∀ c ∈ ('\x22' :: t).head?, (c != '\x22') = false := by
    rintro t c ⟨⟩
    rfl
  obtain ⟨htext, hrest⟩ := span_append_inj (hbody p.2) (hbody q.2) hquote hquote hvalue
  refine ⟨Prod.ext (String.toList_injective hname) ?_, (List.cons.inj hrest).2⟩
  exact escape_injective (String.toList_injective htext)

theorem not_closes_attributeText {p : String × String} {r : List Char} (hp : IsWord p.1) :
    ¬ Closes ((attributeText p).toList ++ r) := by
  rw [toList_attributeText, List.cons_append]
  rintro ⟨rest, h | h⟩
  · exact absurd (List.cons.inj h).1 (by decide)
  · have htail := (List.cons.inj h).2
    cases hname : p.1.toList with
    | nil => simp [hname] at htail
    | cons c cs =>
      have hc : c.isAlpha = true := hp.isAlpha c (hname ▸ List.mem_cons_self)
      simp only [hname, List.cons_append, List.cons.injEq] at htail
      rw [htail.1] at hc
      exact absurd hc (by decide)

theorem head_attributes {as : List (String × String)} {r : List Char} (hr : Closes r) :
    ∀ c ∈ ((as.flatMap fun p => (attributeText p).toList) ++ r).head?, c.isAlpha = false := by
  cases as with
  | nil =>
    obtain ⟨rest, rfl | rfl⟩ := hr
    all_goals
      rintro c ⟨⟩
      rfl
  | cons p ps =>
    rw [List.flatMap_cons, toList_attributeText]
    rintro c ⟨⟩
    rfl

theorem openText_append_inj {e f : Element} {r s : List Char} (he : e.Named) (hf : f.Named)
    (hr : Closes r) (hs : Closes s) (h : e.openText.toList ++ r = f.openText.toList ++ s) :
    e = f ∧ r = s := by
  simp only [toList_openText, List.cons_append, List.append_assoc, List.cons.injEq,
    true_and] at h
  obtain ⟨hname, hrest⟩ :=
    span_append_inj he.name.isAlpha hf.name.isAlpha (head_attributes hr) (head_attributes hs) h
  obtain ⟨hattributes, hend⟩ :=
    flatMap_append_inj (fun p => (attributeText p).toList) Closes attributeText_append_inj
      not_closes_attributeText he.attributes hf.attributes hr hs hrest
  cases e
  cases f
  cases String.toList_injective hname
  cases hattributes
  exact ⟨rfl, hend⟩

theorem line_append_inj {e f : Element} {r s : List Char} (he : e.Named) (hf : f.Named)
    (h : e.line.toList ++ r = f.line.toList ++ s) : e = f ∧ r = s := by
  have hcloses : ∀ t, Closes (" />\n".toList ++ t) := fun t => ⟨_, Or.inr rfl⟩
  simp only [toList_line, List.cons_append, List.append_assoc, List.cons.injEq, true_and] at h
  obtain ⟨heq, hrest⟩ := openText_append_inj he hf (hcloses r) (hcloses s) h
  exact ⟨heq, List.append_cancel_left hrest⟩

/-- Lines with a tag behind them are those of one list of elements. -/
theorem lines_append_inj {es fs : List Element} {r s : List Char} (hes : ∀ e ∈ es, e.Named)
    (hfs : ∀ f ∈ fs, f.Named)
    (h : (es.flatMap fun e => e.line.toList) ++ '<' :: r =
      (fs.flatMap fun e => e.line.toList) ++ '<' :: s) :
    es = fs ∧ r = s := by
  have hstop : ∀ {e : Element} {t : List Char}, e.Named →
      ¬ (e.line.toList ++ t).head? = some '<' := by
    intro e t _
    simp [toList_line]
  obtain ⟨heq, hrest⟩ := flatMap_append_inj (fun e : Element => e.line.toList)
    (fun t => t.head? = some '<') line_append_inj hstop hes hfs rfl rfl h
  exact ⟨heq, (List.cons.inj hrest).2⟩

end Element
end Floorplan

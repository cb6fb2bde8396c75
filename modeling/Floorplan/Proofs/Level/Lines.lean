import Floorplan.Proofs.Level.Document

/-!
# Floorplan.Proofs.Level.Lines

The lines of a document. What a text is written as holds nothing that ends its quotes, its tag or
its line, and says the text again (`Element.Quotes`), so every line has its one tag, whatever the
texts are (`Element.Tagged`), and a document has a line for each thing that it tells and no more
(`Level.document_lines`).
-/

namespace Floorplan
namespace Element

/-! ### Values -/

/-- A value between quotes stands for a text: it holds no bracket, quote, tab or break as it is, each
`&` in it starts a reference, and with its references read from left to right it is the text. -/
structure Quotes (text : String) (value : List Char) : Prop where
  raw : ∀ c ∈ value, c ∉ ['<', '>', '\x22', '\t', '\n', '\r']
  reference : ∀ {front rest : List Char}, value = front ++ '&' :: rest →
    ∃ p ∈ references, p.2.toList <+: '&' :: rest
  decoded : unescape value = text.toList

/-- Of one character a `&` is written only as the front of its reference. -/
theorem reference_of_escapeChar {c : Char} {front back : List Char}
    (h : escapeChar c = front ++ '&' :: back) : ∃ p ∈ references, p.2.toList = '&' :: back := by
  have hmem : '&' ∈ front ++ '&' :: back := List.mem_append_right front List.mem_cons_self
  rcases escapeChar_cases c with ⟨r, hr, heq⟩ | ⟨hplain, heq⟩
  · rw [heq] at h
    cases front with
    | nil => exact ⟨(c, r), hr, h⟩
    | cons x front =>
      have hno : ∀ p ∈ references, '&' ∉ p.2.toList.tail := by decide
      refine absurd ?_ (hno _ hr)
      rw [h]
      exact List.mem_append_right front List.mem_cons_self
  · rw [← h, heq, List.mem_singleton] at hmem
    subst hmem
    exact absurd (by decide) hplain

/-- Where a `&` is written, a reference is. -/
theorem reference_of_escape {text front rest : List Char}
    (h : text.flatMap escapeChar = front ++ '&' :: rest) :
    ∃ p ∈ references, p.2.toList <+: '&' :: rest := by
  induction text generalizing front with
  | nil => simp at h
  | cons c text ih =>
    rw [List.flatMap_cons, List.append_eq_append_iff] at h
    rcases h with ⟨front', -, htail⟩ | ⟨back, hback, hrest⟩
    · exact ih htail
    · cases back with
      | nil =>
        have hhead : text.flatMap escapeChar = [] ++ '&' :: rest := hrest.symm
        exact ih hhead
      | cons d back =>
        obtain ⟨rfl, hrest⟩ := List.cons.inj hrest
        obtain ⟨p, hp, heq⟩ := reference_of_escapeChar hback
        refine ⟨p, hp, text.flatMap escapeChar, ?_⟩
        rw [heq, hrest, List.cons_append]

theorem quotes_escape (text : String) : Quotes text (escape text).toList where
  raw := by
    intro c hc hraw
    simp only [List.mem_cons, List.not_mem_nil, or_false] at hraw
    rcases hraw with rfl | rfl | rfl | rfl | rfl | rfl
    all_goals exact notMem_escape (by decide) (by decide) text hc
  reference := by
    intro front rest h
    rw [escape, String.toList_ofList] at h
    exact reference_of_escape h
  decoded := unescape_escape text

/-! ### Lines -/

/-- A line with one tag, which nothing but spaces stands in front of. -/
structure Tagged (line : List Char) : Prop where
  unbroken : '\n' ∉ line
  tag : ∃ indent rest, line = List.replicate indent ' ' ++ '<' :: rest ∧ '<' ∉ rest

theorem notMem_indent {c : Char} (h : c ≠ ' ') (indent : Nat) : c ∉ List.replicate indent ' ' :=
  fun hc => h (List.eq_of_mem_replicate hc)

theorem Tagged.count_tag {line : List Char} (h : Tagged line) :
    (line ++ ['\n']).count '<' = 1 := by
  obtain ⟨indent, rest, rfl, hrest⟩ := h.tag
  have hindent := notMem_indent (show '<' ≠ ' ' by decide) indent
  rw [List.count_append, List.count_append, List.count_cons_self, List.count_eq_zero.mpr hindent,
    List.count_eq_zero.mpr hrest]
  rfl

theorem Tagged.count_break {line : List Char} (h : Tagged line) :
    (line ++ ['\n']).count '\n' = 1 := by
  rw [List.count_append, List.count_eq_zero.mpr h.unbroken]
  rfl

/-- What is in each line once is there as often as there are lines. -/
theorem count_lines {c : Char} {lines : List (List Char)}
    (h : ∀ line ∈ lines, (line ++ ['\n']).count c = 1) :
    (lines.flatMap (· ++ ['\n'])).count c = lines.length := by
  induction lines with
  | nil => rfl
  | cons line lines ih =>
    obtain ⟨hline, hlines⟩ := List.forall_mem_cons.mp h
    rw [List.flatMap_cons, List.count_append, hline, ih hlines, List.length_cons, Nat.add_comm]

/-- A character that attributes cannot hold: it has a reference, and it is none of those that names,
quotes and references are made of. -/
structure Barred (c : Char) : Prop where
  escaped : c ∈ references.map Prod.fst
  name : c.isAlpha = false
  others : c ∉ ['&', ' ', '=', '\x22']

theorem barred_tag : Barred '<' := ⟨by decide, by decide, by decide⟩

theorem barred_break : Barred '\n' := ⟨by decide, by decide, by decide⟩

theorem Barred.notMem_word {c : Char} (h : Barred c) {name : String} (hname : IsWord name) :
    c ∉ name.toList := by
  intro hc
  have halpha := hname.isAlpha c hc
  rw [h.name] at halpha
  cases halpha

theorem Barred.notMem_attributeText {c : Char} (h : Barred c) {p : String × String}
    (hp : IsWord p.1) : c ∉ (attributeText p).toList := by
  have hothers := h.others
  simp only [List.mem_cons, List.not_mem_nil, or_false, not_or] at hothers
  obtain ⟨hamp, hspace, hequals, hquote⟩ := hothers
  simp only [toList_attributeText, List.mem_cons, List.mem_append, List.not_mem_nil, or_false,
    not_or]
  exact ⟨hspace, h.notMem_word hp, hequals, hquote, notMem_escape h.escaped hamp p.2, hquote⟩

theorem exists_openText {e : Element} (he : e.Named) :
    ∃ rest, e.openText.toList = '<' :: rest ∧ ∀ c, Barred c → c ∉ rest := by
  refine ⟨_, toList_openText e, ?_⟩
  intro c hc
  rw [List.mem_append, List.mem_flatMap]
  rintro (hname | ⟨p, hp, hattribute⟩)
  · exact hc.notMem_word he.name hname
  · exact hc.notMem_attributeText (he.attributes p hp) hattribute

/-- An element makes a line with one tag, indented or not and however it is closed. -/
theorem tagged_openText {e : Element} (he : e.Named) (indent : Nat) {close : List Char}
    (htag : '<' ∉ close) (hbreak : '\n' ∉ close) :
    Tagged (List.replicate indent ' ' ++ (e.openText.toList ++ close)) := by
  obtain ⟨rest, hrest, hbarred⟩ := exists_openText he
  rw [hrest, List.cons_append]
  refine ⟨?_, indent, rest ++ close, rfl, ?_⟩
  · simp only [List.mem_append, List.mem_cons, not_or]
    exact ⟨notMem_indent (by decide) indent, by decide, hbarred _ barred_break, hbreak⟩
  · simp only [List.mem_append, not_or]
    exact ⟨hbarred _ barred_tag, htag⟩

end Element

namespace Level

open Element (Quotes Tagged)

/-- The first line, the tags of the root, and a line for the sky, the ground and each entity. -/
def lineCount (level : Level) : Nat :=
  3 + level.sky.isSome.toNat + level.ground.isSome.toNat + level.entityCount

theorem length_elements (level : Level) :
    level.elements.length =
      level.sky.isSome.toNat + level.ground.isSome.toNat + level.entityCount := by
  have hoption : ∀ {α : Type} (x : Option α), x.toList.length = x.isSome.toNat := by
    intro α x
    cases x <;> rfl
  simp only [elements, entityCount, List.length_append, List.length_map, Option.toList_map, hoption]
  omega

/-- The lines of a document, without the breaks behind them. -/
def lines (level : Level) : List (List Char) :=
  "<?xml version=\"1.0\" encoding=\"UTF-8\"?>".toList :: (level.root.openText.toList ++ ['>']) ::
    (level.elements.map (fun e => List.replicate 2 ' ' ++ (e.openText.toList ++ " />".toList)) ++
      ["</map>".toList])

theorem length_lines (level : Level) : level.lines.length = level.lineCount := by
  simp only [lines, lineCount, List.length_cons, List.length_append, List.length_map,
    length_elements, List.length_nil]
  omega

theorem flatMap_lines (level : Level) :
    level.document.toList = level.lines.flatMap (· ++ ['\n']) := by
  have hprolog : "<?xml version=\"1.0\" encoding=\"UTF-8\"?>\n".toList =
      "<?xml version=\"1.0\" encoding=\"UTF-8\"?>".toList ++ ['\n'] := rfl
  have hend : '<' :: "/map>\n".toList = "</map>".toList ++ ['\n'] := rfl
  have hclose : " />\n".toList = " />".toList ++ ['\n'] := rfl
  have hindent : List.replicate 2 ' ' = [' ', ' '] := rfl
  rw [toList_document, lines, hprolog, hend]
  simp only [Element.toList_line, hclose, hindent, List.flatMap_cons, List.flatMap_append,
    List.flatMap_map, List.flatMap_nil, List.append_assoc, List.cons_append, List.nil_append,
    List.append_nil]

theorem tagged_lines (level : Level) : ∀ line ∈ level.lines, Tagged line := by
  have hprolog : Tagged "<?xml version=\"1.0\" encoding=\"UTF-8\"?>".toList :=
    ⟨by decide, 0, _, rfl, by decide⟩
  have hend : Tagged "</map>".toList := ⟨by decide, 0, _, rfl, by decide⟩
  have hroot : Tagged (List.replicate 0 ' ' ++ (level.root.openText.toList ++ ['>'])) :=
    Element.tagged_openText (named_root level) 0 (by decide) (by decide)
  rw [List.replicate_zero, List.nil_append] at hroot
  simp only [lines, List.forall_mem_cons, List.forall_mem_append, List.forall_mem_map]
  refine ⟨hprolog, hroot, ?_, hend, List.forall_mem_nil _⟩
  intro e he
  exact Element.tagged_openText (named_of_mem_elements he) 2 (by decide) (by decide)

/-- The second line is the tag of the root, with the texts in it. -/
theorem root_line (level : Level) :
    level.lines[1]? =
      some ("<map name=\"".toList ++ (Element.escape level.name).toList ++
        "\" author=\"".toList ++ (Element.escape level.author).toList ++
        "\" tagline=\"".toList ++ (Element.escape level.tagline).toList ++
        "\" description=\"".toList ++ (Element.escape level.description).toList ++
        "\">".toList) := by
  have hname : "<map name=\"".toList =
      '<' :: ("map".toList ++ ' ' :: ("name".toList ++ ['=', '\x22'])) := rfl
  have hauthor : "\" author=\"".toList =
      '\x22' :: ' ' :: ("author".toList ++ ['=', '\x22']) := rfl
  have htagline : "\" tagline=\"".toList =
      '\x22' :: ' ' :: ("tagline".toList ++ ['=', '\x22']) := rfl
  have hdescription : "\" description=\"".toList =
      '\x22' :: ' ' :: ("description".toList ++ ['=', '\x22']) := rfl
  have hclose : "\">".toList = ['\x22', '>'] := rfl
  have hsecond : level.lines[1]? = some (level.root.openText.toList ++ ['>']) := rfl
  rw [hsecond, Element.toList_openText]
  simp only [root, Element.toList_attributeText, hname, hauthor, htagline, hdescription, hclose,
    List.flatMap_cons, List.flatMap_nil, List.append_assoc, List.cons_append, List.nil_append,
    List.append_nil]

/-- Whatever the texts of a level are, its document has no line, no break and no tag but those of
the things that it tells, and the second line has each text in a value of its own. -/
theorem document_lines (level : Level) :
    ∃ lines : List (List Char), level.document.toList = lines.flatMap (· ++ ['\n']) ∧
      lines.length = level.lineCount ∧ (∀ line ∈ lines, Tagged line) ∧
      level.document.toList.count '\n' = level.lineCount ∧
      level.document.toList.count '<' = level.lineCount ∧
      ∃ name author tagline description : List Char,
        lines[1]? = some ("<map name=\"".toList ++ name ++ "\" author=\"".toList ++ author ++
          "\" tagline=\"".toList ++ tagline ++ "\" description=\"".toList ++ description ++
          "\">".toList) ∧
        Quotes level.name name ∧ Quotes level.author author ∧ Quotes level.tagline tagline ∧
          Quotes level.description description := by
  refine ⟨level.lines, flatMap_lines level, length_lines level, tagged_lines level, ?_, ?_, ?_⟩
  · rw [flatMap_lines, Element.count_lines fun line h => (tagged_lines level line h).count_break,
      length_lines]
  · rw [flatMap_lines, Element.count_lines fun line h => (tagged_lines level line h).count_tag,
      length_lines]
  · exact ⟨_, _, _, _, root_line level, Element.quotes_escape _, Element.quotes_escape _,
      Element.quotes_escape _, Element.quotes_escape _⟩

/-- A name that looks like markup, references and a line of its own. -/
example : (named "\"/>\n<block>&lt;&amp;").document =
    "<?xml version=\"1.0\" encoding=\"UTF-8\"?>\n" ++
      "<map name=\"&quot;/&gt;&#10;&lt;block&gt;&amp;lt;&amp;amp;\" author=\"\" tagline=\"\"" ++
      " description=\"\">\n</map>\n" := by
  decide +kernel

end Level
end Floorplan

import Floorplan.Script.Words

/-!
# Floorplan.Proofs.Script.Quoting

The ways to write words into a line. A word is spelled in pieces: a character on its own or behind a
backslash, or any text in single or double quotes (`Words.Spells`). Words are laid out with blanks
between them (`Words.Spelled`). Behind each piece the scanner is outside of quotes again, with the
text of the piece at the end of its word, so it reads from a line the words that were written into
it (`Words.split_spelled`).
-/

namespace Floorplan
namespace Words

/-- A character that does not stand for itself outside of quotes. -/
def isSpecial (c : Char) : Bool :=
  isBlank c || c == singleQuote || c == doubleQuote || c == backslash

/-- A character between double quotes. -/
def escapeDouble (c : Char) : List Char :=
  if c = doubleQuote ∨ c = backslash then [backslash, c] else [c]

/-- The ways to write a word. The empty one has to be quoted. -/
inductive Spells : List Char → List Char → Prop where
  | plain {c : Char} : isSpecial c = false → Spells [c] [c]
  | escaped (c : Char) : Spells [c] [backslash, c]
  | single {text : List Char} : singleQuote ∉ text →
    Spells text (singleQuote :: (text ++ [singleQuote]))
  | double (text : List Char) :
    Spells text (doubleQuote :: (text.flatMap escapeDouble ++ [doubleQuote]))
  | append {text text' spelling spelling' : List Char} : Spells text spelling →
    Spells text' spelling' → Spells (text ++ text') (spelling ++ spelling')

def IsGap (gap : List Char) : Prop := ∀ c ∈ gap, isBlank c = true

/-- Words with a gap behind each, which only behind the last one can be empty. -/
inductive SpelledFrom : List String → List Char → Prop where
  | nil : SpelledFrom [] []
  | cons {word : String} {words : List String} {spelling gap rest : List Char} :
    Spells word.toList spelling → IsGap gap → (words ≠ [] → gap ≠ []) → SpelledFrom words rest →
    SpelledFrom (word :: words) (spelling ++ (gap ++ rest))

/-- The ways to write words into a line. -/
inductive Spelled : List String → List Char → Prop where
  | mk {gap rest : List Char} {words : List String} : IsGap gap → SpelledFrom words rest →
    Spelled words (gap ++ rest)

/-! ### The scanner behind a piece -/

namespace Scan

/-- A scan with more text in the word that is begun, and the quoting it is then in. -/
def extend (s : Scan) (text : List Char) (quoting : Quoting) : Scan :=
  { s with word := some (s.word.getD "" ++ String.ofList text), quoting }

theorem enter_eq (s : Scan) (quoting : Quoting) : s.enter quoting = s.extend [] quoting := by
  simp [enter, extend]

theorem put_eq (s : Scan) (c : Char) (quoting : Quoting) :
    s.put c quoting = s.extend [c] quoting := by
  simp [put, extend]

theorem extend_extend (s : Scan) (text text' : List Char) (quoting quoting' : Quoting) :
    (s.extend text quoting).extend text' quoting' = s.extend (text ++ text') quoting' := by
  simp [extend, String.append_assoc]

theorem enter_extend (s : Scan) (text : List Char) (quoting quoting' : Quoting) :
    (s.extend text quoting).enter quoting' = s.extend text quoting' := by
  rw [enter_eq, extend_extend, List.append_nil]

/-- Between single quotes every other character is kept. -/
theorem foldl_single {text : List Char} (h : singleQuote ∉ text) (s : Scan) (front : List Char) :
    text.foldl step (s.extend front .single) = s.extend (front ++ text) .single := by
  induction text generalizing front with
  | nil => simp
  | cons c text ih =>
    rw [List.mem_cons, not_or] at h
    have hstep : (s.extend front .single).step c = s.extend (front ++ [c]) .single := by
      rw [← extend_extend s front [c] .single, ← put_eq]
      exact if_neg (Ne.symm h.1)
    rw [List.foldl_cons, hstep, ih h.2, List.append_assoc, List.singleton_append]

/-- Between double quotes the escape of a character stands for it. -/
theorem foldl_escapeDouble (s : Scan) (front : List Char) (c : Char) :
    (escapeDouble c).foldl step (s.extend front .double) = s.extend (front ++ [c]) .double := by
  rw [← extend_extend s front [c] .double, ← put_eq]
  unfold escapeDouble
  split
  · next hescape =>
    have hkept : ∀ s : Scan, s.quoting = .doubleEscaped → s.step c = s.put c .double := by
      intro s hquoting
      unfold step
      rw [hquoting]
      exact if_pos hescape
    have hslash : (s.extend front .double).step backslash =
        (s.extend front .double).enter .doubleEscaped := rfl
    rw [List.foldl_cons, List.foldl_cons, List.foldl_nil, hslash, hkept _ rfl]
    rfl
  · next hplain =>
    rw [not_or] at hplain
    have hstep : (s.extend front .double).step c = (s.extend front .double).put c .double := by
      unfold step
      exact (if_neg hplain.1).trans (if_neg hplain.2)
    rw [List.foldl_cons, List.foldl_nil, hstep]

theorem foldl_double (text : List Char) (s : Scan) (front : List Char) :
    (text.flatMap escapeDouble).foldl step (s.extend front .double) =
      s.extend (front ++ text) .double := by
  induction text generalizing front with
  | nil => simp
  | cons c text ih =>
    rw [List.flatMap_cons, List.foldl_append, foldl_escapeDouble, ih, List.append_assoc,
      List.singleton_append]

/-- A word is read as its text, from wherever the scanner is outside of quotes. -/
theorem foldl_spells {text spelling : List Char} (h : Spells text spelling) {s : Scan}
    (hbare : s.quoting = .bare) : spelling.foldl step s = s.extend text .bare := by
  have hquote : ∀ {s : Scan}, s.quoting = .bare →
      s.step singleQuote = s.extend [] .single ∧ s.step doubleQuote = s.extend [] .double := by
    intro s hbare
    rw [← enter_eq, ← enter_eq]
    constructor <;> (unfold step; rw [hbare]; rfl)
  induction h generalizing s with
  | @plain c hplain =>
    simp only [isSpecial, Bool.or_eq_false_iff, beq_eq_false_iff_ne] at hplain
    obtain ⟨⟨⟨hblank, hsingle⟩, hdouble⟩, hslash⟩ := hplain
    rw [List.foldl_cons, List.foldl_nil, ← put_eq]
    simp [step, hbare, hblank, hsingle, hdouble, hslash]
  | escaped c =>
    have hslash : s.step backslash = s.enter .escaped := by
      unfold step
      rw [hbare]
      rfl
    rw [List.foldl_cons, List.foldl_cons, List.foldl_nil, hslash, ← put_eq]
    rfl
  | @single text hclosed =>
    rw [List.foldl_cons, List.foldl_append, (hquote hbare).1, foldl_single hclosed,
      List.nil_append, ← enter_extend s text .single .bare]
    rfl
  | double text =>
    rw [List.foldl_cons, List.foldl_append, (hquote hbare).2, foldl_double, List.nil_append,
      ← enter_extend s text .double .bare]
    rfl
  | append _ _ ih ih' => rw [List.foldl_append, ih hbare, ih' rfl, extend_extend]

/-! ### The scanner behind a word -/

/-- A gap ends the word that is begun, if one is. -/
theorem foldl_gap {gap : List Char} (hgap : IsGap gap) {s : Scan} (hbare : s.quoting = .bare)
    (h : s.word = none ∨ gap ≠ []) : gap.foldl step s = s.endWord := by
  induction gap generalizing s with
  | nil =>
    have hnone := h.resolve_right fun hne => hne rfl
    obtain ⟨words, word, quoting⟩ := s
    dsimp only at hnone
    subst hnone
    simp [endWord]
  | cons c gap ih =>
    have hstep : s.step c = s.endWord := by
      simp [step, hbare, hgap c List.mem_cons_self]
    have hrest := ih (fun d hd => hgap d (List.mem_cons_of_mem c hd)) (s := s.endWord) hbare
      (.inl rfl)
    rw [List.foldl_cons, hstep, hrest]
    simp [endWord]

theorem finish_foldl_spelledFrom {words : List String} {rest : List Char}
    (h : SpelledFrom words rest) (found : List String) :
    (rest.foldl step ⟨found, none, .bare⟩).finish = .ok (found ++ words) := by
  induction h generalizing found with
  | nil => simp [finish, endWord]
  | @cons word words spelling gap rest hspells hgap hparts hrest ih =>
    have hword : (Scan.mk found none .bare).extend word.toList .bare =
        ⟨found, some word, .bare⟩ := by
      simp [extend]
    rw [List.foldl_append, List.foldl_append, foldl_spells hspells rfl, hword]
    by_cases hempty : gap = []
    · -- only the last word has nothing behind it
      have hlast : words = [] := Decidable.byContradiction fun hne => hparts hne hempty
      subst hempty hlast
      cases hrest
      rfl
    · have hended : (Scan.mk found (some word) .bare).endWord =
          ⟨found ++ [word], none, .bare⟩ := rfl
      rw [foldl_gap hgap rfl (.inr hempty), hended, ih, List.append_assoc, List.singleton_append]

end Scan

/-- All words can be written into a line, in quotes if need be. -/
theorem exists_spelledFrom (words : List String) : ∃ rest, SpelledFrom words rest := by
  induction words with
  | nil => exact ⟨[], .nil⟩
  | cons word words ih =>
    obtain ⟨rest, hrest⟩ := ih
    have hgap : IsGap [' '] := List.forall_mem_singleton.mpr rfl
    exact ⟨_, .cons (.double word.toList) hgap (fun _ => List.cons_ne_nil _ _) hrest⟩

/-- A line is split into the words that were written into it, however that was done. And it can be
done for all words. -/
theorem split_spelled :
    (∀ (words : List String) (line : String), Spelled words line.toList →
      split line = .ok words) ∧
    ∀ words : List String, ∃ line : String, Spelled words line.toList := by
  constructor
  · intro words line h
    generalize hcs : line.toList = cs at h
    cases h with
    | @mk gap rest words hgap hrest =>
      have hscan := Scan.finish_foldl_spelledFrom hrest []
      have hstart : gap.foldl Scan.step .start = .start := Scan.foldl_gap hgap rfl (.inl rfl)
      unfold split
      rw [hcs, List.foldl_append, hstart, Scan.start, hscan, List.nil_append]
  · intro words
    obtain ⟨rest, hrest⟩ := exists_spelledFrom words
    refine ⟨String.ofList rest, ?_⟩
    rw [String.toList_ofList]
    have hgap : IsGap [] := by simp [IsGap]
    exact .mk hgap hrest

/-- Two words of two pieces each, and an empty one between them. -/
theorem split_spelled_pieces :
    Spelled ["a b", "", "say \"hi\""] " a\\ b\t'' say\" \\\"hi\\\"\"".toList ∧
      split " a\\ b\t'' say\" \\\"hi\\\"\"" = .ok ["a b", "", "say \"hi\""] := by
  have hspelled : Spelled ["a b", "", "say \"hi\""] " a\\ b\t'' say\" \\\"hi\\\"\"".toList := by
    have hfirst : Spells "a b".toList "a\\ b".toList :=
      .append (.plain (c := 'a') rfl) (.append (.escaped ' ') (.plain (c := 'b') rfl))
    have hsecond : Spells "".toList "''".toList := .single List.not_mem_nil
    have hthird : Spells "say \"hi\"".toList "say\" \\\"hi\\\"\"".toList :=
      .append (.plain (c := 's') rfl) (.append (.plain (c := 'a') rfl)
        (.append (.plain (c := 'y') rfl) (.double " \"hi\"".toList)))
    have hblank : IsGap [' '] := List.forall_mem_singleton.mpr rfl
    have htab : IsGap ['\t'] := List.forall_mem_singleton.mpr rfl
    have hend : IsGap [] := by simp [IsGap]
    exact .mk hblank (.cons hfirst htab (by simp) (.cons hsecond hblank (by simp)
      (.cons hthird hend (by simp) .nil)))
  exact ⟨hspelled, split_spelled.1 _ _ hspelled⟩

end Words
end Floorplan

import Floorplan.Proofs.Script.Lines

/-!
# Floorplan.Proofs.Script.Statements

A script as the statements that it makes. `Does W` is what statements can make of a draft whose
values are words of `W`, and `does_run` says that a text does no more than that with its own words.
The words of a line are made of the characters of the line (`mem_of_words`), those of a text of
characters of the text.
-/

namespace Floorplan

/-! ### Words and their characters -/

namespace Words

/-- Every character of what was scanned so far is one of these. -/
structure Scan.Within (P : Char → Prop) (s : Scan) : Prop where
  words : ∀ word ∈ s.words, ∀ c ∈ word.toList, P c
  word : ∀ word ∈ s.word, ∀ c ∈ word.toList, P c
  escape : s.quoting = .doubleEscaped → P backslash

namespace Scan.Within

variable {P : Char → Prop} {s : Scan}

theorem word_getD (h : s.Within P) : ∀ c ∈ (s.word.getD "").toList, P c := by
  intro c hc
  cases hword : s.word with
  | none =>
    rw [hword] at hc
    cases hc
  | some word =>
    rw [hword] at hc
    exact h.word word hword c hc

theorem enter (h : s.Within P) {quoting : Quoting}
    (hquoting : quoting = .doubleEscaped → P backslash) :
    (s.enter quoting).Within P where
  words := h.words
  word word hword c hc := by
    cases hword
    exact h.word_getD c hc
  escape := hquoting

theorem put (h : s.Within P) {c : Char} (hc : P c) {quoting : Quoting}
    (hquoting : quoting ≠ .doubleEscaped) : (s.put c quoting).Within P where
  words := h.words
  word word hword d hd := by
    cases hword
    rw [String.toList_push, List.mem_append, List.mem_singleton] at hd
    rcases hd with hd | rfl
    · exact h.word_getD d hd
    · exact hc
  escape hescaped := absurd hescaped hquoting

theorem endWord (h : s.Within P) : s.endWord.Within P where
  words word hword := by
    simp only [Scan.endWord, List.mem_append, Option.mem_toList] at hword
    rcases hword with hword | hword
    · exact h.words word hword
    · exact h.word word hword
  word word hword := by cases hword
  escape := h.escape

theorem step (h : s.Within P) {c : Char} (hc : P c) : (s.step c).Within P := by
  unfold Scan.step
  split
  · split
    · exact h.endWord
    · split
      · exact h.enter (by simp)
      · split
        · exact h.enter (by simp)
        · split
          · exact h.enter (by simp)
          · exact h.put hc (by simp)
  · exact h.put hc (by simp)
  · split
    · exact h.enter (by simp)
    · exact h.put hc (by simp)
  · split
    · exact h.enter (by simp)
    · split
      · next hslash =>
        rw [hslash] at hc
        exact h.enter fun _ => hc
      · exact h.put hc (by simp)
  · next hquoting =>
    split
    · exact h.put hc (by simp)
    · exact (h.put (h.escape hquoting) (by simp)).put hc (by simp)

theorem foldl (h : s.Within P) (cs : List Char) (hcs : ∀ c ∈ cs, P c) :
    (cs.foldl Scan.step s).Within P := by
  induction cs generalizing s with
  | nil => exact h
  | cons c cs ih =>
    rw [List.forall_mem_cons] at hcs
    exact ih (h.step hcs.1) hcs.2

end Scan.Within

theorem mem_of_split {line : String} {found : List String} (h : split line = .ok found) :
    ∀ word ∈ found, ∀ c ∈ word.toList, c ∈ line.toList := by
  have hstart : Scan.start.Within (· ∈ line.toList) := by
    refine ⟨?_, ?_, ?_⟩ <;> simp [Scan.start]
  have hscan := hstart.foldl line.toList fun c hc => hc
  unfold split at h
  generalize line.toList.foldl Scan.step Scan.start = s at h hscan
  unfold Scan.finish at h
  cases hquoting : s.quoting <;> simp only [hquoting] at h <;> cases h
  · exact hscan.endWord.words
  · exact hscan.endWord.words

end Words

namespace Script

theorem mem_of_words {line : String} {found : List String} (h : words line = .ok found) :
    ∀ word ∈ found, ∀ c ∈ word.toList, c ∈ line.toList := by
  unfold words at h
  split at h
  · next all hall =>
    cases h
    intro word hword
    exact Words.mem_of_split hall word (List.mem_filter.mp hword).1
  · cases h

theorem mem_of_splitOnP {α : Type} {p : α → Bool} {as piece : List α} (h : piece ∈ as.splitOnP p) :
    ∀ a ∈ piece, a ∈ as := by
  induction as generalizing piece with
  | nil =>
    rw [List.splitOnP_nil, List.mem_singleton] at h
    subst h
    intro a ha
    exact ha
  | cons b as ih =>
    rw [List.splitOnP_cons_eq_if_modifyHead] at h
    obtain ⟨first, others, hpieces⟩ := List.exists_cons_of_ne_nil (List.splitOnP_ne_nil p as)
    rw [hpieces] at h ih
    intro a ha
    split at h
    · rcases List.mem_cons.mp h with rfl | h
      · cases ha
      · exact List.mem_cons_of_mem b (ih h a ha)
    · rcases List.mem_cons.mp h with rfl | h
      · rcases List.mem_cons.mp ha with rfl | ha
        · exact List.mem_cons_self
        · exact List.mem_cons_of_mem b (ih List.mem_cons_self a ha)
      · exact List.mem_cons_of_mem b (ih (List.mem_cons_of_mem first h) a ha)

theorem mem_of_lines {text line : String} (h : line ∈ lines text) :
    ∀ c ∈ line.toList, c ∈ text.toList := by
  obtain ⟨piece, hpiece, rfl⟩ := List.mem_map.mp h
  rw [String.toList_ofList]
  exact mem_of_splitOnP hpiece

/-! ### Statements -/

/-- What a draft can become by statements whose values are words of `W`. -/
inductive Does (W : String → Prop) (d : Draft) : Draft → Prop where
  | nothing : Does W d d
  | report {e : Draft} (p : Problem) : Does W d e → Does W d (e.report p)
  | setting {e : Draft} (key : String) {value : String} : W value → Does W d e →
    Does W d (Script.setting e key value)
  | adjustment {e : Draft} (key : String) {value : String} : W value → Does W d e →
    Does W d (Script.adjustment e key value)
  | close {e : Draft} (kind : String) (fields : Fields) : Does W d e →
    Does W d (Object.close kind fields e)

namespace Does

variable {W : String → Prop} {d : Draft} {l : Line}

theorem dropKey (h : Does W d l.draft) : Does W d l.dropKey.draft := by
  unfold Line.dropKey
  split
  · exact h
  · exact .report _ h

theorem closeBlock (h : Does W d l.draft) : Does W d l.close.draft := by
  unfold Line.close
  dsimp only
  split
  · exact .close _ _ h
  · exact .report _ h
  · exact h

theorem pair (h : Does W d l.draft) (word : String) {use : Line → String → Line}
    (huse : ∀ key, Does W d (use { l with key := none } key).draft) :
    Does W d (l.pair word use).draft := by
  unfold Line.pair
  split
  · exact h
  · exact huse _

theorem stepGlobal (h : Does W d l.draft) {word : String} (hword : W word) :
    Does W d (l.stepGlobal word).draft := by
  unfold Line.stepGlobal
  split
  · next keyword _ _ =>
    cases keyword with
    | «end» => exact .report _ h
    | _ => exact h
  · exact pair h word fun key => .setting key hword h

theorem stepInside (h : Does W d l.draft) {word : String} (hword : W word) :
    Does W d (l.stepInside word).draft := by
  unfold Line.stepInside
  split
  · exact h
  · exact pair h word fun _ => h
  · exact pair h word fun key => .adjustment key hword h
  · exact h

theorem step (h : Does W d l.draft) {word : String} (hword : W word) :
    Does W d (l.step word).draft := by
  unfold Line.step
  split
  · exact h.stepGlobal hword
  · split
    · exact h.dropKey.closeBlock
    · exact h.stepInside hword

theorem line (h : Does W d l.draft) (words : List String) (hwords : ∀ word ∈ words, W word) :
    Does W d (words.foldl Line.step l).draft := by
  induction words generalizing l with
  | nil => exact h
  | cons word words ih =>
    rw [List.forall_mem_cons] at hwords
    exact ih (h.step hwords.1) hwords.2

end Does

/-- A run that has done what words of `W` can do, and holds words of `W`. -/
structure Run.Doing (W : String → Prop) (d : Draft) (r : Run) : Prop where
  held : ∀ word ∈ r.held, W word
  draft : Does W d r.draft

namespace Run.Doing

variable {W : String → Prop} {d : Draft} {r : Run}

theorem flush (h : r.Doing W d) : r.flush.Doing W d where
  held word hword := by cases hword
  draft := (Does.line (l := ⟨r.mode, none, r.draft⟩) h.draft r.held h.held).dropKey

theorem step (h : r.Doing W d) {said : Except Words.UnclosedQuote (List String)}
    (hsaid : ∀ words, said = .ok words → ∀ word ∈ words, W word) : (r.step said).Doing W d := by
  cases said with
  | error quote => exact ⟨h.held, .report _ h.draft⟩
  | ok words =>
    have hheld : Run.Doing W d { r with held := r.held ++ words } := by
      refine ⟨?_, h.draft⟩
      rw [List.forall_mem_append]
      exact ⟨h.held, hsaid words rfl⟩
    unfold Run.step Run.feed
    dsimp only
    split
    · exact hheld.flush
    · exact hheld

theorem foldl (h : r.Doing W d) (said : List (Except Words.UnclosedQuote (List String)))
    (hsaid : ∀ words, .ok words ∈ said → ∀ word ∈ words, W word) :
    (said.foldl Run.step r).Doing W d := by
  induction said generalizing r with
  | nil => exact h
  | cons first rest ih =>
    have hfirst : ∀ words, first = .ok words → ∀ word ∈ words, W word :=
      fun words hwords => hsaid words (hwords ▸ List.mem_cons_self)
    exact ih (h.step hfirst) fun words hwords => hsaid words (List.mem_cons_of_mem _ hwords)

end Run.Doing

/-- A text does what statements can do with words that are made of its own characters. -/
theorem does_run (mode : Mode) (text : String) (d : Draft) :
    Does (fun word => ∀ c ∈ word.toList, c ∈ text.toList) d (run mode text d).2 := by
  have hstart : Run.Doing (fun word => ∀ c ∈ word.toList, c ∈ text.toList) d ⟨mode, [], d⟩ := by
    refine ⟨?_, .nothing⟩
    simp
  rw [run_eq]
  refine (hstart.foldl _ ?_).flush.draft
  intro words hwords word hword c hc
  obtain ⟨line, hline, hsaid⟩ := List.mem_map.mp hwords
  exact mem_of_lines hline c (mem_of_words hsaid word hword c hc)

end Script
end Floorplan

import Floorplan.Script.Run

/-!
# Floorplan.Proofs.Script.Lines

What the layout of a text is to a script. Between two lines a run holds nothing, or one word that
waits for its value (`Run.Pending`), so a line without words changes nothing wherever it stands
(`step_silent`). A text is therefore run for what its lines say (`run_eq`): two texts that say the
same do the same, and a text can be cut in two at a break where no word waits.
-/

namespace Floorplan
namespace Script

/-- A line break in any of the three fashions. -/
inductive Break where
  | cr
  | lf
  | crlf
  deriving DecidableEq

def Break.text : Break → String
  | cr => "\r"
  | lf => "\n"
  | crlf => "\r\n"

/-- Whether a line says anything: it has words, or a quote that is open. -/
def isSaying : Except Words.UnclosedQuote (List String) → Bool
  | .ok [] => false
  | _ => true

/-- What the lines of a text say, in order, with those left out that say nothing. -/
def sayings (text : String) : List (Except Words.UnclosedQuote (List String)) :=
  ((lines text).map words).filter isSaying

/-! ### Joined texts -/

theorem lines_append_mark {c : Char} (hc : c = '\r' ∨ c = '\n') (a b : String) :
    lines (a ++ String.ofList (c :: b.toList)) = lines a ++ lines b := by
  have hmark : (c == '\r' || c == '\n') = true := by
    rcases hc with rfl | rfl <;> rfl
  have hsplit := List.splitOnP_append_cons (p := fun c => c == '\r' || c == '\n')
    a.toList b.toList hmark
  rw [lines, String.toList_append, String.toList_ofList, hsplit, List.map_append]
  rfl

theorem sayings_append_mark {c : Char} (hc : c = '\r' ∨ c = '\n') (a b : String) :
    sayings (a ++ String.ofList (c :: b.toList)) = sayings a ++ sayings b := by
  simp only [sayings, lines_append_mark hc, List.map_append, List.filter_append]

theorem sayings_empty : sayings "" = [] := rfl

/-- A break says nothing, not even the empty line inside of the long one. -/
theorem sayings_append_break (a b : String) (r : Break) :
    sayings (a ++ r.text ++ b) = sayings a ++ sayings b := by
  have hcons : ∀ (c : Char) (b : String),
      String.singleton c ++ b = String.ofList (c :: b.toList) := by
    intro c b
    apply String.toList_injective
    simp
  cases r with
  | cr =>
    have hjoin : Break.cr.text ++ b = String.ofList ('\r' :: b.toList) := hcons '\r' b
    rw [String.append_assoc, hjoin, sayings_append_mark (.inl rfl)]
  | lf =>
    have hjoin : Break.lf.text ++ b = String.ofList ('\n' :: b.toList) := hcons '\n' b
    rw [String.append_assoc, hjoin, sayings_append_mark (.inr rfl)]
  | crlf =>
    have hjoin : Break.crlf.text ++ b =
        String.ofList ('\r' :: ("" ++ String.ofList ('\n' :: b.toList)).toList) := by
      apply String.toList_injective
      simp [Break.text]
    rw [String.append_assoc, hjoin, sayings_append_mark (.inl rfl),
      sayings_append_mark (.inr rfl), sayings_empty, List.nil_append]

/-! ### Lines that say nothing -/

/-- Text of blanks, and of `=` with a blank or the end behind it. -/
inductive Idle : List Char → Prop where
  | nil : Idle []
  | blank {c : Char} {cs : List Char} : isBlank c = true → Idle cs → Idle (c :: cs)
  | last : Idle ['=']
  | equals {c : Char} {cs : List Char} : isBlank c = true → Idle cs → Idle ('=' :: c :: cs)

theorem scan_idle {cs : List Char} (h : Idle cs) (found : List String) :
    ∃ n, (cs.foldl Words.Scan.step ⟨found, none, .bare⟩).finish =
      .ok (found ++ List.replicate n "=") := by
  induction h generalizing found with
  | nil => exact ⟨0, by simp [Words.Scan.finish, Words.Scan.endWord]⟩
  | @blank c cs hblank _ ih =>
    obtain ⟨n, hn⟩ := ih found
    refine ⟨n, ?_⟩
    rw [List.foldl_cons, ← hn]
    simp [Words.Scan.step, hblank, Words.Scan.endWord]
  | last => exact ⟨1, rfl⟩
  | @equals c cs hblank _ ih =>
    have hequals : Words.Scan.step ⟨found, none, .bare⟩ '=' = ⟨found, some "=", .bare⟩ := rfl
    obtain ⟨n, hn⟩ := ih (found ++ ["="])
    refine ⟨n + 1, ?_⟩
    rw [List.replicate_succ, List.append_cons, List.foldl_cons, List.foldl_cons, ← hn, hequals]
    simp [Words.Scan.step, hblank, Words.Scan.endWord]

theorem words_idle {line : String} (h : Idle line.toList) : words line = .ok [] := by
  obtain ⟨n, hn⟩ := scan_idle h []
  have hsplit : Words.split line = .ok (List.replicate n "=") := by
    unfold Words.split
    rw [Words.Scan.start, hn]
    rfl
  simp [words, hsplit]

/-- The lines of idle text are idle. -/
theorem idle_pieces {p : Char → Bool} (hp : p '=' = false) {cs : List Char} (h : Idle cs) :
    ∀ piece ∈ cs.splitOnP p, Idle piece := by
  induction h with
  | nil => simpa using Idle.nil
  | @blank c cs hblank _ ih =>
    obtain ⟨piece, pieces, hpieces⟩ := List.exists_cons_of_ne_nil (List.splitOnP_ne_nil p cs)
    rw [List.splitOnP_cons_eq_if_modifyHead]
    rw [hpieces, List.forall_mem_cons] at ih
    split
    · rw [hpieces, List.forall_mem_cons, List.forall_mem_cons]
      exact ⟨.nil, ih⟩
    · rw [hpieces, List.modifyHead_cons, List.forall_mem_cons]
      exact ⟨.blank hblank ih.1, ih.2⟩
  | last => simpa [List.splitOnP_cons_eq_if_modifyHead, hp] using Idle.last
  | @equals c cs hblank _ ih =>
    obtain ⟨piece, pieces, hpieces⟩ := List.exists_cons_of_ne_nil (List.splitOnP_ne_nil p cs)
    have hsplit : ('=' :: c :: cs).splitOnP p = ((c :: cs).splitOnP p).modifyHead ('=' :: ·) := by
      rw [List.splitOnP_cons_eq_if_modifyHead, hp]
      rfl
    rw [hsplit, List.splitOnP_cons_eq_if_modifyHead]
    rw [hpieces, List.forall_mem_cons] at ih
    split
    · rw [hpieces, List.modifyHead_cons, List.forall_mem_cons, List.forall_mem_cons]
      exact ⟨.last, ih⟩
    · rw [hpieces, List.modifyHead_cons, List.modifyHead_cons, List.forall_mem_cons]
      exact ⟨.equals hblank ih.1, ih.2⟩

theorem sayings_idle {text : String} (h : Idle text.toList) : sayings text = [] := by
  have hmark : ('=' == '\r' || '=' == '\n') = false := rfl
  rw [sayings, List.filter_eq_nil_iff]
  intro said hsaid
  obtain ⟨line, hline, rfl⟩ := List.mem_map.mp hsaid
  obtain ⟨piece, hpiece, rfl⟩ := List.mem_map.mp hline
  have hidle : Idle (String.ofList piece).toList := by
    rw [String.toList_ofList]
    exact idle_pieces (p := fun c => c == '\r' || c == '\n') hmark h piece hpiece
  rw [words_idle hidle]
  decide

/-! ### What a run holds between lines -/

/-- What is held makes no logical line. -/
def Run.Pending (r : Run) : Prop := r.held = [] ∨ isWhole r.mode r.held = false

theorem Run.pending_flush (r : Run) : r.flush.Pending := .inl rfl

theorem Run.Pending.step {r : Run} (h : r.Pending)
    (said : Except Words.UnclosedQuote (List String)) : (r.step said).Pending := by
  cases said with
  | error quote => exact h
  | ok words =>
    unfold Run.step Run.feed
    dsimp only
    split
    · exact Run.pending_flush _
    · next hwhole => exact .inr (Bool.eq_false_iff.mpr hwhole)

theorem Run.Pending.foldl {r : Run} (h : r.Pending)
    (said : List (Except Words.UnclosedQuote (List String))) : (said.foldl Run.step r).Pending := by
  induction said generalizing r with
  | nil => exact h
  | cons first rest ih => exact ih (h.step first)

/-- What is pending is nothing, or a word that is no keyword, outside of `unique`. -/
theorem Run.Pending.cases {r : Run} (h : r.Pending) :
    r.held = [] ∨ ∃ word, r.held = [word] ∧ Keyword.ofText? word = none ∧ r.mode ≠ .unique := by
  rcases h with h | h
  · exact .inl h
  · unfold isWhole at h
    split at h
    · cases h
    · next hheld _ => exact .inl hheld
    · next word hheld hmode =>
      exact .inr ⟨word, hheld, Option.isNone_iff_eq_none.mp (by simpa using h), hmode⟩
    · cases h

/-- A line that says nothing does nothing, wherever it stands. -/
theorem step_silent {r : Run} (h : r.Pending) {said : Except Words.UnclosedQuote (List String)}
    (hsaid : isSaying said = false) : r.step said = r := by
  obtain ⟨mode, held, draft⟩ := r
  match said, hsaid with
  | .ok [], _ =>
    unfold Run.step Run.feed
    simp only [List.append_nil]
    split
    · next hwhole =>
      -- only `unique` takes no words for a line, and then none are held
      rcases h with hheld | hheld
      · dsimp only at hheld
        subst hheld
        rfl
      · rw [hheld] at hwhole
        cases hwhole
    · rfl

theorem foldl_filter_isSaying (said : List (Except Words.UnclosedQuote (List String))) {r : Run}
    (h : r.Pending) : (said.filter isSaying).foldl Run.step r = said.foldl Run.step r := by
  induction said generalizing r with
  | nil => rfl
  | cons first rest ih =>
    rw [List.filter_cons]
    split
    · exact ih (h.step first)
    · next hsilent =>
      rw [List.foldl_cons, step_silent h (Bool.eq_false_iff.mpr hsilent)]
      exact ih h

/-! ### Running a text -/

/-- A text as far as its lines are read, with what is then held for a line that does not come. -/
def reading (mode : Mode) (text : String) (draft : Draft) : Run :=
  ((lines text).map words).foldl Run.step ⟨mode, [], draft⟩

theorem pending_start (mode : Mode) (draft : Draft) : Run.Pending ⟨mode, [], draft⟩ := .inl rfl

theorem pending_reading (mode : Mode) (text : String) (draft : Draft) :
    (reading mode text draft).Pending :=
  (pending_start mode draft).foldl _

theorem reading_eq (mode : Mode) (text : String) (draft : Draft) :
    reading mode text draft = (sayings text).foldl Run.step ⟨mode, [], draft⟩ :=
  (foldl_filter_isSaying _ (pending_start mode draft)).symm

theorem run_eq (mode : Mode) (text : String) (draft : Draft) :
    run mode text draft =
      ((reading mode text draft).flush.mode, (reading mode text draft).flush.draft) := rfl

/-- Texts that say the same are read alike. -/
theorem reading_congr {a b : String} (h : sayings a = sayings b) (mode : Mode) (draft : Draft) :
    reading mode a draft = reading mode b draft := by
  rw [reading_eq, h, reading_eq]

theorem run_congr {a b : String} (h : sayings a = sayings b) (mode : Mode) (draft : Draft) :
    run mode a draft = run mode b draft := by
  rw [run_eq, reading_congr h, run_eq]

/-- Reading goes on behind a break with what the lines in front of it left. -/
theorem reading_append_break (a b : String) (r : Break) (mode : Mode) (draft : Draft) :
    reading mode (a ++ r.text ++ b) draft = (sayings b).foldl Run.step (reading mode a draft) := by
  rw [reading_eq, sayings_append_break, List.foldl_append, ← reading_eq]

/-- The last logical line of a text is one word that is no keyword, so that it goes on in what comes
next. In `unique` no line goes on. -/
def LeavesWord (mode : Mode) (text : String) (draft : Draft) : Prop :=
  ∃ word, (reading mode text draft).held = [word] ∧ Keyword.ofText? word = none ∧
    (reading mode text draft).mode ≠ .unique

/-- A text can be cut in two at a break, unless a word in front of it waits for its value. -/
theorem run_append_break (a b : String) (r : Break) (mode : Mode) (draft : Draft)
    (h : ¬ LeavesWord mode a draft) :
    run mode (a ++ r.text ++ b) draft = run (run mode a draft).1 b (run mode a draft).2 := by
  have hheld : (reading mode a draft).held = [] := by
    rcases (pending_reading mode a draft).cases with hnone | hword
    · exact hnone
    · exact absurd hword h
  have hread : ⟨(run mode a draft).1, [], (run mode a draft).2⟩ = reading mode a draft := by
    rw [run_eq]
    generalize reading mode a draft = read at hheld
    obtain ⟨mode', held, draft'⟩ := read
    dsimp only at hheld
    subst hheld
    rfl
  rw [run_eq, reading_append_break, run_eq _ b, reading_eq _ b, hread]

/-- Behind a keyword that stands alone. -/
theorem run_append_break_keyword :
    let d := Draft.start (Level.named "") ⟨0, 0, 0⟩
    ¬ LeavesWord .global "wa 2\nobject" d ∧
      run .global ("wa 2\nobject" ++ Break.crlf.text ++ "Wall\nend it's") d =
        run (.object none .empty) "Wall\nend it's" { d with heights := ⟨0, 0, .ofInt 2⟩ } := by
  intro d
  have hleft : ¬ LeavesWord .global "wa 2\nobject" d := by
    rintro ⟨word, hword, -⟩
    have hheld : (reading .global "wa 2\nobject" d).held = [] := by decide +kernel
    rw [hheld] at hword
    cases hword
  have hfirst : run .global "wa 2\nobject" d =
      (.object none .empty, { d with heights := ⟨0, 0, .ofInt 2⟩ }) := by
    decide +kernel
  have hrun := run_append_break "wa 2\nobject" "Wall\nend it's" .crlf .global d hleft
  rw [hfirst] at hrun
  exact ⟨hleft, hrun⟩

/-- The layout of a text never matters: what its lines say decides what it does. So all breaks are
as good as each other, and idle lines can stand anywhere, also between a key and its value. -/
theorem run_of_sayings :
    (∀ a b : String, sayings a = sayings b →
      ∀ mode draft, run mode a draft = run mode b draft) ∧
    (∀ (a b : String) (r r' : Break) mode draft,
      run mode (a ++ r.text ++ b) draft = run mode (a ++ r'.text ++ b) draft) ∧
    ∀ idle : String, Idle idle.toList → ∀ (a b : String) (r r' : Break) mode draft,
      run mode (a ++ r.text ++ idle ++ r'.text ++ b) draft = run mode (a ++ r.text ++ b) draft ∧
        run mode (idle ++ r.text ++ b) draft = run mode b draft ∧
        run mode (a ++ r.text ++ idle) draft = run mode a draft := by
  refine ⟨?_, ?_, ?_⟩
  · intro a b h mode draft
    exact run_congr h mode draft
  · intro a b r r' mode draft
    apply run_congr
    rw [sayings_append_break, sayings_append_break]
  · intro idle hidle a b r r' mode draft
    have hnothing := sayings_idle hidle
    refine ⟨?_, ?_, ?_⟩
    · apply run_congr
      rw [sayings_append_break, sayings_append_break, sayings_append_break, hnothing,
        List.append_nil]
    · apply run_congr
      rw [sayings_append_break, hnothing, List.nil_append]
    · apply run_congr
      rw [sayings_append_break, hnothing, List.append_nil]

/-- A key, an open quote and a value, laid out in two ways, and an idle line below a key. -/
theorem run_of_sayings_value :
    let d := Draft.start (Level.named "") ⟨0, 0, 0⟩
    (sayings "wa\n'\n2" = sayings "wa\r=\r'\r\n\t\r2" ∧ Idle " = ".toList) ∧
      run .global "wa\n'\n2" d = run .global "wa\r=\r'\r\n\t\r2" d ∧
      run .global ("wa" ++ Break.lf.text ++ " = " ++ Break.cr.text ++ "2") d =
        run .global ("wa" ++ Break.lf.text ++ "2") d := by
  intro d
  obtain ⟨hsame, -, hidle⟩ := run_of_sayings
  have hsayings : sayings "wa\n'\n2" = sayings "wa\r=\r'\r\n\t\r2" := by cbv
  have hequals : Idle " = ".toList := .blank rfl (.equals rfl .nil)
  exact ⟨⟨hsayings, hequals⟩, hsame _ _ hsayings .global d,
    (hidle " = " hequals "wa" "2" .lf .cr .global d).1⟩

end Script
end Floorplan

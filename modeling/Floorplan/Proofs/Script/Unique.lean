import Floorplan.Proofs.Script.Lines

/-!
# Floorplan.Proofs.Script.Unique

What stands in a `unique` block does nothing. While the block is open each line is a logical line of
its own, so none can borrow words from the next one, and no word but `end` does anything. All that
is left of the block is a problem for each line whose quote is open (`run_unique`).
-/

namespace Floorplan
namespace Script

/-- The problem with a line, if its quote is open. -/
def openQuote? : Except Words.UnclosedQuote (List String) → Option Problem
  | .ok _ => none
  | .error quote => some (.malformed (.unclosedQuote quote))

/-- A line does not have the word that would close the block. -/
def Stays (said : Except Words.UnclosedQuote (List String)) : Prop :=
  ∀ words, said = .ok words → Keyword.end.text ∉ words

theorem Line.foldl_unique {words : List String} (h : Keyword.end.text ∉ words) (d : Draft) :
    words.foldl Line.step ⟨.unique, none, d⟩ = ⟨.unique, none, d⟩ := by
  induction words with
  | nil => rfl
  | cons word words ih =>
    rw [List.mem_cons, not_or] at h
    have hstep : Line.step ⟨.unique, none, d⟩ word = ⟨.unique, none, d⟩ :=
      (if_neg nofun).trans (if_neg (Ne.symm h.1))
    rw [List.foldl_cons, hstep, ih h.2]

theorem Run.step_unique {said : Except Words.UnclosedQuote (List String)} (h : Stays said)
    (d : Draft) :
    Run.step ⟨.unique, [], d⟩ said = ⟨.unique, [], d.reportAll (openQuote? said).toList⟩ := by
  cases said with
  | error quote => rfl
  | ok words =>
    have hnone : d.reportAll (openQuote? (.ok words)).toList = d := by
      simp [openQuote?, Draft.reportAll]
    rw [hnone]
    unfold Run.step Run.feed
    simp only [List.nil_append, isWhole, if_true, Run.flush, line]
    rw [Line.foldl_unique (h words rfl)]
    rfl

theorem Run.foldl_unique {said : List (Except Words.UnclosedQuote (List String))}
    (h : ∀ s ∈ said, Stays s) (d : Draft) :
    said.foldl Run.step ⟨.unique, [], d⟩ =
      ⟨.unique, [], d.reportAll (said.filterMap openQuote?)⟩ := by
  induction said generalizing d with
  | nil => simp [Draft.reportAll]
  | cons first rest ih =>
    rw [List.forall_mem_cons] at h
    have hjoin : (d.reportAll (openQuote? first).toList).reportAll (rest.filterMap openQuote?) =
        d.reportAll ((first :: rest).filterMap openQuote?) := by
      cases hfirst : openQuote? first <;>
        simp [Draft.reportAll, hfirst]
    rw [List.foldl_cons, Run.step_unique h.1, ih h.2, hjoin]

/-- A line that says nothing has no open quote. -/
theorem filterMap_sayings (text : String) :
    (sayings text).filterMap openQuote? =
      (lines text).filterMap fun line => openQuote? (words line) := by
  have hsilent : ∀ said : Except Words.UnclosedQuote (List String),
      (if isSaying said then openQuote? said else none) = openQuote? said := by
    intro said
    cases said with
    | error quote => rfl
    | ok words => cases words <;> rfl
  rw [sayings, List.filterMap_filter, List.filterMap_map]
  exact congrArg (List.filterMap · (lines text)) (funext fun line => hsilent (words line))

/-- A `unique` block leaves all as it was, whatever it holds, and the script outside of blocks. Of
each of its lines that leaves a quote open that is reported, in order. -/
theorem run_unique (body : String) (r r' : Break) (d : Draft)
    (h : ∀ line ∈ lines body, ∀ found, words line = .ok found → Keyword.end.text ∉ found) :
    run .global (Keyword.unique.text ++ r.text ++ body ++ r'.text ++ Keyword.end.text) d =
      (.global,
        { d with
          problems :=
            d.problems ++ (lines body).filterMap fun line => openQuote? (words line) }) := by
  have hopen : reading .global Keyword.unique.text d = ⟨.unique, [], d⟩ := by rfl
  have hclose : ∀ e : Draft,
      (sayings Keyword.end.text).foldl Run.step ⟨.unique, [], e⟩ = ⟨.global, [], e⟩ := fun e => rfl
  have hstays : ∀ said ∈ sayings body, Stays said := by
    intro said hsaid
    obtain ⟨line, hline, rfl⟩ := List.mem_map.mp (List.mem_filter.mp hsaid).1
    exact h line hline
  rw [run_eq, reading_append_break, reading_append_break, hopen, Run.foldl_unique hstays, hclose,
    filterMap_sayings]
  rfl

/-- An object, a setting that lacks its value and an open quote, in front of the setting that
counts. -/
theorem run_unique_quote :
    let d := Draft.start (Level.named "") ⟨0, 0, 0⟩
    let body := "object Wall\nwa\n\"end\r=\nadjust"
    (∀ line ∈ lines body, ∀ found, words line = .ok found → Keyword.end.text ∉ found) ∧
      run .global ("unique" ++ Break.lf.text ++ body ++ Break.crlf.text ++ "end") d =
        (.global, { d with problems := [.malformed (.unclosedQuote ⟨'"', "\"end"⟩)] }) := by
  intro d body
  have hstays : ∀ line ∈ lines body, ∀ found, words line = .ok found →
      Keyword.end.text ∉ found := by
    have hall : ∀ line ∈ lines body, ∀ found ∈ (words line).toOption, Keyword.end.text ∉ found := by
      decide +kernel
    intro line hline found hfound
    apply hall line hline
    rw [hfound]
    rfl
  have hproblems : ((lines body).filterMap fun line => openQuote? (words line)) =
      [.malformed (.unclosedQuote ⟨'"', "\"end"⟩)] := by
    decide +kernel
  have hrun := run_unique body .lf .crlf d hstays
  rw [hproblems] at hrun
  exact ⟨hstays, hrun⟩

end Script
end Floorplan

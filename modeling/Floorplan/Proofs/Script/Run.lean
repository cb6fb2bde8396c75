import Floorplan.Script.Run

/-!
# Floorplan.Proofs.Script.Run

What a script does to a draft, from what one statement does. A relation between two drafts that
every statement keeps is kept by every script, and both runs end in the same mode
(`Respects.run`). A property of one draft is the case of equal drafts (`Keeps.run`).
-/

namespace Floorplan
namespace Script

/-- Any statement, made in two related drafts, leaves them related. -/
structure Respects (R : Draft → Draft → Prop) : Prop where
  report : ∀ {d e : Draft} (p : Problem), R d e → R (d.report p) (e.report p)
  setting : ∀ {d e : Draft} (key value : String),
    R d e → R (Script.setting d key value) (Script.setting e key value)
  adjustment : ∀ {d e : Draft} (key value : String),
    R d e → R (Script.adjustment d key value) (Script.adjustment e key value)
  close : ∀ {d e : Draft} (kind : String) (fields : Fields),
    R d e → R (Object.close kind fields d) (Object.close kind fields e)

/-- Two lines that differ in their drafts only, and those are related. -/
inductive Line.Alike (R : Draft → Draft → Prop) : Line → Line → Prop where
  | mk {mode : Mode} {key : Option String} {d e : Draft} :
    R d e → Line.Alike R ⟨mode, key, d⟩ ⟨mode, key, e⟩

theorem Line.Alike.mode {R : Draft → Draft → Prop} {l m : Line} (h : l.Alike R m) :
    l.mode = m.mode := by
  cases h with
  | mk hd => rfl

theorem Line.Alike.key {R : Draft → Draft → Prop} {l m : Line} (h : l.Alike R m) :
    l.key = m.key := by
  cases h with
  | mk hd => rfl

theorem Line.Alike.draft {R : Draft → Draft → Prop} {l m : Line} (h : l.Alike R m) :
    R l.draft m.draft := by
  cases h with
  | mk hd => exact hd

/-- Two runs that differ in their drafts only, and those are related. -/
inductive Run.Alike (R : Draft → Draft → Prop) : Run → Run → Prop where
  | mk {mode : Mode} {held : List String} {d e : Draft} :
    R d e → Run.Alike R ⟨mode, held, d⟩ ⟨mode, held, e⟩

theorem Run.Alike.mode {R : Draft → Draft → Prop} {r s : Run} (h : r.Alike R s) :
    r.mode = s.mode := by
  cases h with
  | mk hd => rfl

theorem Run.Alike.draft {R : Draft → Draft → Prop} {r s : Run} (h : r.Alike R s) :
    R r.draft s.draft := by
  cases h with
  | mk hd => exact hd

namespace Respects

variable {R : Draft → Draft → Prop}

/-! ### Words of a line -/

theorem dropKey (h : Respects R) {l m : Line} (hl : l.Alike R m) :
    l.dropKey.Alike R m.dropKey := by
  cases hl with
  | @mk mode key d e hd =>
    cases key with
    | none => exact .mk hd
    | some key => exact .mk (h.report _ hd)

theorem enter (h : Respects R) {l m : Line} (hl : l.Alike R m) (keyword : Keyword) :
    (l.enter keyword).Alike R (m.enter keyword) := by
  cases hl with
  | mk hd =>
    cases keyword with
    | object => exact .mk hd
    | unique => exact .mk hd
    | adjust => exact .mk hd
    | «end» => exact .mk (h.report _ hd)

theorem closeBlock (h : Respects R) {l m : Line} (hl : l.Alike R m) :
    l.close.Alike R m.close := by
  cases hl with
  | @mk mode key d e hd =>
    cases mode with
    | global => exact .mk hd
    | unique => exact .mk hd
    | adjust => exact .mk hd
    | object kind fields =>
      cases kind with
      | none => exact .mk (h.report _ hd)
      | some kind => exact .mk (h.close kind fields hd)

theorem pair {l m : Line} (hl : l.Alike R m) (word : String) {use : Line → String → Line}
    (huse : ∀ {l m : Line} (key : String), l.Alike R m → (use l key).Alike R (use m key)) :
    (l.pair word use).Alike R (m.pair word use) := by
  cases hl with
  | @mk mode key d e hd =>
    cases key with
    | none => exact .mk hd
    | some key => exact huse key (.mk hd)

theorem stepGlobal (h : Respects R) {l m : Line} (hl : l.Alike R m) (word : String) :
    (l.stepGlobal word).Alike R (m.stepGlobal word) := by
  have hpair : (l.pair word fun l key => { l with draft := Script.setting l.draft key word }).Alike R
      (m.pair word fun l key => { l with draft := Script.setting l.draft key word }) := by
    apply pair hl
    intro l m key hl
    cases hl with
    | mk hd => exact .mk (h.setting key word hd)
  unfold Line.stepGlobal
  rw [hl.key]
  split
  · exact h.enter hl _
  · exact hpair

theorem stepInside (h : Respects R) {l m : Line} (hl : l.Alike R m) (word : String) :
    (l.stepInside word).Alike R (m.stepInside word) := by
  unfold Line.stepInside
  rw [hl.mode]
  split
  · cases hl with
    | mk hd => exact .mk hd
  · apply pair hl
    intro l m key hl
    cases hl with
    | mk hd => exact .mk hd
  · apply pair hl
    intro l m key hl
    cases hl with
    | mk hd => exact .mk (h.adjustment key word hd)
  · exact hl

theorem stepLine (h : Respects R) {l m : Line} (hl : l.Alike R m) (word : String) :
    (l.step word).Alike R (m.step word) := by
  unfold Line.step
  rw [hl.mode]
  split
  · exact h.stepGlobal hl word
  · split
    · exact h.closeBlock (h.dropKey hl)
    · exact h.stepInside hl word

theorem foldLine (h : Respects R) (words : List String) {l m : Line} (hl : l.Alike R m) :
    (words.foldl Line.step l).Alike R (words.foldl Line.step m) := by
  induction words generalizing l m with
  | nil => exact hl
  | cons word words ih => exact ih (h.stepLine hl word)

theorem line (h : Respects R) {d e : Draft} (hd : R d e) (mode : Mode) (words : List String) :
    (Script.line mode d words).1 = (Script.line mode e words).1 ∧
      R (Script.line mode d words).2 (Script.line mode e words).2 := by
  have hline := h.dropKey (h.foldLine words (l := ⟨mode, none, d⟩) (.mk hd))
  exact ⟨hline.mode, hline.draft⟩

/-! ### Lines of a text -/

theorem flush (h : Respects R) {r s : Run} (hr : r.Alike R s) : r.flush.Alike R s.flush := by
  cases hr with
  | @mk mode held d e hd =>
    obtain ⟨hmode, hdraft⟩ := h.line hd mode held
    unfold Run.flush
    rw [← Prod.eta (Script.line mode d held), hmode]
    exact .mk hdraft

theorem feed (h : Respects R) {r s : Run} (hr : r.Alike R s) (words : List String) :
    (r.feed words).Alike R (s.feed words) := by
  cases hr with
  | @mk mode held d e hd =>
    unfold Run.feed
    dsimp only
    split
    · exact h.flush (.mk hd)
    · exact .mk hd

theorem stepRun (h : Respects R) {r s : Run} (hr : r.Alike R s)
    (words : Except Words.UnclosedQuote (List String)) : (r.step words).Alike R (s.step words) := by
  cases words with
  | ok words => exact h.feed hr words
  | error quote =>
    cases hr with
    | mk hd => exact .mk (h.report _ hd)

theorem foldRun (h : Respects R) (lines : List (Except Words.UnclosedQuote (List String)))
    {r s : Run} (hr : r.Alike R s) :
    (lines.foldl Run.step r).Alike R (lines.foldl Run.step s) := by
  induction lines generalizing r s with
  | nil => exact hr
  | cons words lines ih => exact ih (h.stepRun hr words)

/-- One text, run in two related drafts. -/
theorem run (h : Respects R) {d e : Draft} (hd : R d e) (mode : Mode) (text : String) :
    (Script.run mode text d).1 = (Script.run mode text e).1 ∧
      R (Script.run mode text d).2 (Script.run mode text e).2 := by
  have hrun := h.flush (h.foldRun ((lines text).map words) (r := ⟨mode, [], d⟩) (.mk hd))
  exact ⟨hrun.mode, hrun.draft⟩

theorem finish (h : Respects R) {d e : Draft} (hd : R d e) (mode : Mode) :
    R (Script.finish mode d).2 (Script.finish mode e).2 := by
  cases mode with
  | global => exact hd
  | unique => exact hd
  | object kind fields => exact h.report _ hd
  | adjust => exact h.report _ hd

/-- A change to a draft that no statement notices. -/
theorem of_image {f : Draft → Draft} (hreport : ∀ d p, (f d).report p = f (d.report p))
    (hsetting : ∀ d key value, Script.setting (f d) key value = f (Script.setting d key value))
    (hadjustment : ∀ d key value,
      Script.adjustment (f d) key value = f (Script.adjustment d key value))
    (hclose : ∀ d kind fields, Object.close kind fields (f d) = f (Object.close kind fields d)) :
    Respects fun d e => e = f d where
  report p := by
    rintro rfl
    exact hreport _ p
  setting key value := by
    rintro rfl
    exact hsetting _ key value
  adjustment key value := by
    rintro rfl
    exact hadjustment _ key value
  close kind fields := by
    rintro rfl
    exact hclose _ kind fields

/-- A change that no statement notices is there behind a text as it was in front of it. -/
theorem run_image {f : Draft → Draft} (h : Respects fun d e => e = f d) (mode : Mode)
    (text : String) (d : Draft) :
    Script.run mode text (f d) =
      ((Script.run mode text d).1, f (Script.run mode text d).2) := by
  obtain ⟨hmode, hdraft⟩ := h.run (d := d) rfl mode text
  exact Prod.ext hmode.symm hdraft

end Respects

/-- No statement takes the property from a draft. -/
structure Keeps (P : Draft → Prop) : Prop where
  report : ∀ {d : Draft} (p : Problem), P d → P (d.report p)
  setting : ∀ {d : Draft} (key value : String), P d → P (Script.setting d key value)
  adjustment : ∀ {d : Draft} (key value : String), P d → P (Script.adjustment d key value)
  close : ∀ {d : Draft} (kind : String) (fields : Fields), P d → P (Object.close kind fields d)

namespace Keeps

variable {P : Draft → Prop}

theorem respects (h : Keeps P) : Respects fun d e => P d ∧ d = e where
  report p := by
    rintro ⟨hd, rfl⟩
    exact ⟨h.report p hd, rfl⟩
  setting key value := by
    rintro ⟨hd, rfl⟩
    exact ⟨h.setting key value hd, rfl⟩
  adjustment key value := by
    rintro ⟨hd, rfl⟩
    exact ⟨h.adjustment key value hd, rfl⟩
  close kind fields := by
    rintro ⟨hd, rfl⟩
    exact ⟨h.close kind fields hd, rfl⟩

theorem dropKey (h : Keeps P) {l : Line} (hl : P l.draft) : P l.dropKey.draft :=
  (h.respects.dropKey (l := l) (.mk ⟨hl, rfl⟩)).draft.1

theorem stepLine (h : Keeps P) {l : Line} (hl : P l.draft) (word : String) :
    P (l.step word).draft :=
  (h.respects.stepLine (l := l) (.mk ⟨hl, rfl⟩) word).draft.1

theorem stepRun (h : Keeps P) {r : Run} (hr : P r.draft)
    (words : Except Words.UnclosedQuote (List String)) : P (r.step words).draft :=
  (h.respects.stepRun (r := r) (.mk ⟨hr, rfl⟩) words).draft.1

theorem foldRun (h : Keeps P) {r : Run} (hr : P r.draft)
    (lines : List (Except Words.UnclosedQuote (List String))) :
    P (lines.foldl Run.step r).draft :=
  (h.respects.foldRun lines (r := r) (.mk ⟨hr, rfl⟩)).draft.1

theorem run (h : Keeps P) {d : Draft} (hd : P d) (mode : Mode) (text : String) :
    P (Script.run mode text d).2 :=
  (h.respects.run ⟨hd, rfl⟩ mode text).2.1

theorem finish (h : Keeps P) {d : Draft} (hd : P d) (mode : Mode) :
    P (Script.finish mode d).2 :=
  (h.respects.finish ⟨hd, rfl⟩ mode).1

end Keeps
end Script
end Floorplan

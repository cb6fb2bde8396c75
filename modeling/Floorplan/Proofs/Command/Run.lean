import Floorplan.Proofs.Command.Files
import Floorplan.Proofs.Command.Input

/-!
# Floorplan.Proofs.Command.Run

What a run leaves behind. A conversion hangs on the settings, the input and the picture in it, each of
which may fail (`Command.Converts`). A run that fails or only lists leaves all files as they were, and
one that converts changes the file of the output and no other: it holds the document of the level then.
This is so for every request that has an output and a name, as those of the command line have, and
however settings are read (`Command.run_files`).
-/

namespace Floorplan
namespace Command

/-- The settings that a request asks for: those of its file, or the standard ones. -/
inductive Configured (parse : SettingsReader) (read : Reader) (r : Request) : Settings → Prop where
  | standard : r.config = none → Configured parse read r .standard
  | file {path text : String} {bytes : List UInt8} {s : Settings} : r.config = some path →
    read path = .ok bytes → utf8Text bytes = .ok text → parse text = .ok s →
    Configured parse read r s

/-- What a request converts to. -/
inductive Converts (parse : SettingsReader) (read : Reader) (r : Request) (name : String) :
    Conversion → Prop where
  | intro {s : Settings} {type : TypeCode} {input picture : List UInt8} {c : Conversion} :
    Configured parse read r s → s.typeCode = .ok type → read r.input = .ok input →
    Pictured r type name input picture →
    Conversion.ofPicture (s.options name) picture = .ok c → Converts parse read r name c

/-! ### Plans -/

section Plans

variable {parse : SettingsReader} {read : Reader} {r : Request} {s : Settings} {action : Action}
  {output name : String}

theorem settings_eq_ok_iff : settings parse read r = .ok s ↔ Configured parse read r s := by
  unfold settings
  cases hconfig : r.config with
  | none =>
    constructor
    · intro h
      cases h
      exact .standard hconfig
    · intro h
      cases h with
      | standard _ => rfl
      | file hpath => exact absurd (hconfig.symm.trans hpath) (Option.some_ne_none _).symm
  | some path =>
    simp only [bind_eq_ok_iff, within_eq_ok_iff]
    constructor
    · rintro ⟨bytes, hbytes, text, htext, h⟩
      exact .file hconfig hbytes htext h
    · intro h
      cases h with
      | standard hnone => exact absurd (hconfig.symm.trans hnone) (Option.some_ne_none _)
      | file hpath hbytes htext hparse =>
        cases hconfig.symm.trans hpath
        exact ⟨_, hbytes, _, htext, hparse⟩

/-- A request that lists prints at most. -/
theorem plan_of_list (hlist : r.list = true) (h : planWith parse read r = .ok action) :
    ∃ text, action = .print text := by
  unfold planWith at h
  simp only [bind_eq_ok_iff, within_eq_ok_iff] at h
  obtain ⟨s, -, type, -, input, -, h⟩ := h
  rw [if_pos hlist, bind_eq_ok_iff] at h
  obtain ⟨fork, -, h⟩ := h
  cases h
  exact ⟨_, rfl⟩

/-- A request that does not list writes the level that it converts to. -/
theorem plan_eq_ok_iff (hlist : r.list = false) (houtput : r.output = some output)
    (hname : r.name = some name) : planWith parse read r = .ok action ↔
      ∃ c, Converts parse read r name c ∧ action = .write output c.level.document := by
  unfold planWith
  simp only [bind_eq_ok_iff, within_eq_ok_iff, hlist, houtput, hname, Bool.false_eq_true, if_false]
  constructor
  · rintro ⟨s, hs, type, htype, input, hinput, picture, hpicture, c, hc, h⟩
    cases h
    exact ⟨c, .intro (settings_eq_ok_iff.mp hs) htype hinput (pictureBytes_eq_ok_iff.mp hpicture) hc,
      rfl⟩
  · rintro ⟨c, hconverts, rfl⟩
    cases hconverts with
    | intro hs htype hinput hpicture hc =>
      exact ⟨_, settings_eq_ok_iff.mpr hs, _, htype, _, hinput, _,
        pictureBytes_eq_ok_iff.mpr hpicture, c, hc, rfl⟩

end Plans

/-! ### Command lines -/

/-- A command line that does not ask for a list names an output and a level. -/
theorem exists_of_parse {arguments : List String} {r : Request}
    (h : Request.parse arguments = .ok r) (hlist : r.list = false) :
    ∃ output name, r.output = some output ∧ r.name = some name := by
  unfold Request.parse at h
  obtain ⟨reading, -, h⟩ := bind_eq_ok h
  unfold Reading.finish at h
  obtain ⟨settled, -, h⟩ := bind_eq_ok h
  split at h
  · cases h
  · split at h
    · cases h
    · next hgiven =>
      split at h
      · cases h
      · cases h
        change settled.list = false at hlist
        rw [hlist, Bool.not_false, Bool.true_and, Bool.or_eq_true, not_or, Bool.not_eq_true,
          Bool.not_eq_true, Option.isNone_eq_false_iff, Option.isNone_eq_false_iff,
          Option.isSome_iff_exists, Option.isSome_iff_exists] at hgiven
        obtain ⟨⟨output, houtput⟩, ⟨name, hname⟩⟩ := hgiven
        exact ⟨output, name, houtput, hname⟩

/-! ### Runs -/

section Runs

variable {parse : SettingsReader} {files files' : Files} {r : Request}
  {output name printed : String} {failure : Failure}

/-- The plan is made without touching a file, and a file that cannot be made is the last thing that can
fail. -/
theorem run_of_error (h : (runWith parse files r).printed = .error failure) :
    (runWith parse files r).files = files := by
  unfold runWith at h ⊢
  cases hplan : planWith parse files.read r with
  | error failure => rfl
  | ok action =>
    rw [hplan] at h
    cases action with
    | print text => rfl
    | write path text =>
      dsimp only at h ⊢
      cases hwrite : files.write path text.toUTF8.toList with
      | error cause => rfl
      | ok written =>
        rw [hwrite] at h
        cases h

theorem run_of_list (hlist : r.list = true) : (runWith parse files r).files = files := by
  unfold runWith
  cases hplan : planWith parse files.read r with
  | error failure => rfl
  | ok action =>
    obtain ⟨text, rfl⟩ := plan_of_list hlist hplan
    rfl

/-- A run that succeeds without listing prints nothing and has written the level. -/
theorem run_eq_ok_iff (hlist : r.list = false) (houtput : r.output = some output)
    (hname : r.name = some name) : runWith parse files r = ⟨.ok printed, files'⟩ ↔
      printed = "" ∧ ∃ c, Converts parse files.read r name c ∧
        files.write output c.level.document.toUTF8.toList = .ok files' := by
  unfold runWith
  constructor
  · intro h
    cases hplan : planWith parse files.read r with
    | error failure =>
      rw [hplan] at h
      cases h
    | ok action =>
      obtain ⟨c, hconverts, rfl⟩ := (plan_eq_ok_iff hlist houtput hname).mp hplan
      rw [hplan] at h
      dsimp only at h
      cases hwrite : files.write output c.level.document.toUTF8.toList with
      | error cause =>
        rw [hwrite] at h
        cases h
      | ok written =>
        rw [hwrite] at h
        cases h
        exact ⟨rfl, c, hconverts, hwrite⟩
  · rintro ⟨rfl, c, hconverts, hwrite⟩
    have hplan := (plan_eq_ok_iff hlist houtput hname).mpr ⟨c, hconverts, rfl⟩
    rw [hplan]
    dsimp only
    rw [hwrite]

theorem written_of_printed (hlist : r.list = false) (houtput : r.output = some output)
    (hname : r.name = some name) (hprinted : (runWith parse files r).printed = .ok printed) :
    ∃ c, Converts parse files.read r name c ∧
      files.write output c.level.document.toUTF8.toList = .ok (runWith parse files r).files := by
  have hrun : runWith parse files r = ⟨.ok printed, (runWith parse files r).files⟩ := by
    rw [← hprinted]
  exact ((run_eq_ok_iff hlist houtput hname).mp hrun).2

theorem exists_printed_iff (hlist : r.list = false) (houtput : r.output = some output)
    (hname : r.name = some name) : (∃ printed, (runWith parse files r).printed = .ok printed) ↔
      ∃ c, Converts parse files.read r name c ∧
        ∃ files', files.write output c.level.document.toUTF8.toList = .ok files' := by
  constructor
  · rintro ⟨printed, hprinted⟩
    obtain ⟨c, hconverts, hwrite⟩ := written_of_printed hlist houtput hname hprinted
    exact ⟨c, hconverts, _, hwrite⟩
  · rintro ⟨c, hconverts, files', hwrite⟩
    have hrun := (run_eq_ok_iff hlist houtput hname).mpr ⟨rfl, c, hconverts, hwrite⟩
    exact ⟨"", congrArg Outcome.printed hrun⟩

end Runs

/-- A run that fails, and one that lists, leaves every file as it was. Any other with an output and a
name succeeds just when the request converts to something, with its settings and from the picture that
it finds, and the output can be written; then the output holds the document of the level, and nothing
else is changed. This is so however settings are read. A command line that does not ask for a list
names an output and a level. -/
theorem run_files (parse : SettingsReader) (files : Files) (r : Request) :
    (r.list = true ∨ (∃ failure, (runWith parse files r).printed = .error failure) →
      (runWith parse files r).files = files) ∧
      (∀ output name, r.list = false → r.output = some output → r.name = some name →
        ((∃ printed, (runWith parse files r).printed = .ok printed) ↔
          ∃ c, Converts parse files.read r name c ∧
            ∃ files', files.write output c.level.document.toUTF8.toList = .ok files') ∧
        ∀ printed, (runWith parse files r).printed = .ok printed →
          ∃ c, Converts parse files.read r name c ∧
            Files.Changed files (runWith parse files r).files output
              c.level.document.toUTF8.toList) ∧
      ∀ arguments, Request.parse arguments = .ok r → r.list = false →
        ∃ output name, r.output = some output ∧ r.name = some name := by
  refine ⟨?_, ?_, fun _ hparse hlist => exists_of_parse hparse hlist⟩
  · rintro (hlist | ⟨failure, hfailed⟩)
    · exact run_of_list hlist
    · exact run_of_error hfailed
  · intro output name hlist houtput hname
    refine ⟨exists_printed_iff hlist houtput hname, ?_⟩
    intro printed hprinted
    obtain ⟨c, hconverts, hwrite⟩ := written_of_printed hlist houtput hname hprinted
    exact ⟨c, hconverts, Files.changed_of_write hwrite⟩

/-- A container that a conversion replaces by the level out of it, that is no picture in itself, and
that can be listed. -/
theorem run_files_in_place :
    let p : Picture := ⟨⟨0, 0, 480, 640⟩, []⟩
    let fork : Fork := ⟨[⟨.pict, ⟨128, some "Crater", 0, p.encode⟩⟩]⟩
    let files : Files := ⟨[(["levels"], Container.encode fork), (["notes"], [10])]⟩
    let inPlace : Request :=
      ⟨"levels", some "levels", some "Crater", none, false, none, false, 0, 0⟩
    let bare : Request := { inPlace with raw := true }
    let listing : Request := { inPlace with list := true }
    (Request.parse ["levels", "levels", "Crater"] = .ok inPlace ∧
        (run files inPlace).printed = .ok "" ∧
        ∃ c, Converts Settings.parse files.read inPlace "Crater" c ∧
          Files.Changed files (run files inPlace).files "levels"
            c.level.document.toUTF8.toList) ∧
      (Request.parse ["levels", "levels", "Crater", "--raw"] = .ok bare ∧
        (∃ failure, (run files bare).printed = .error failure) ∧ (run files bare).files = files) ∧
      (Request.parse ["levels", "levels", "Crater", "--list"] = .ok listing ∧
        (run files listing).printed = .ok fork.listing ∧ (run files listing).files = files) := by
  intro p fork files inPlace bare listing
  have hinPlace : Request.parse ["levels", "levels", "Crater"] = .ok inPlace := by decide +kernel
  have hbare : Request.parse ["levels", "levels", "Crater", "--raw"] = .ok bare := by decide +kernel
  have hlisting : Request.parse ["levels", "levels", "Crater", "--list"] = .ok listing := by
    decide +kernel
  have hprinted : (run files inPlace).printed = .ok "" := by decide +kernel
  have hlisted : (run files listing).printed = .ok fork.listing := by decide +kernel
  have hfailed : (run files bare).printed = .error (.picture (.unsupportedVersion 0x2C0000)) := by
    decide +kernel
  obtain ⟨-, hwritten, hgiven⟩ := run_files Settings.parse files inPlace
  obtain ⟨output, name, houtput, hname⟩ := hgiven _ hinPlace rfl
  obtain ⟨-, hchanged⟩ := hwritten output name rfl houtput hname
  cases houtput
  cases hname
  exact ⟨⟨hinPlace, hprinted, hchanged "" hprinted⟩,
    ⟨hbare, ⟨_, hfailed⟩, (run_files Settings.parse files bare).1 (.inr ⟨_, hfailed⟩)⟩,
    ⟨hlisting, hlisted, (run_files Settings.parse files listing).1 (.inl rfl)⟩⟩

end Command
end Floorplan

import Mathlib.Data.List.Infix
import Floorplan.Command.Files
import Floorplan.Proofs.Reading

/-!
# Floorplan.Proofs.Command.Files

What writing does to the files. A read gives what is stored where its path leads
(`Files.read_eq_ok_iff`). After a write the file reads as what was written, and at every other path
there is what was there before (`Files.changed_of_write`): the directories on the way to the file were
passed through to reach it, so none of them is new.
-/

namespace Floorplan
namespace Command
namespace Files

variable {files files' : Files} {text : String} {bytes : List UInt8} {path target : Path}

/-! ### Nodes -/

theorem enter_eq_ok_iff : files.enter path = .ok () ↔ files.node path = .directory := by
  unfold enter
  cases files.node path <;> simp

theorem node_eq_file_iff :
    files.node path = .file bytes ↔ path.isOuter = false ∧ files.get? path = some bytes := by
  unfold node
  cases path.isOuter with
  | true => simp
  | false =>
    cases files.get? path with
    | some found => simp
    | none =>
      simp only [Bool.false_eq_true, if_false, reduceCtorEq, and_false, iff_false]
      split <;> exact Node.noConfusion

theorem node_eq_directory_iff : files.node path = .directory ↔
    path.isOuter = true ∨ files.get? path = none ∧ ∃ entry ∈ files.entries, path <+: entry.1 := by
  unfold node
  cases path.isOuter with
  | true => simp
  | false =>
    cases files.get? path with
    | some found => simp
    | none => simp

theorem isOuter_of_node_ne (h : files.node path ≠ .directory) : path.isOuter = false := by
  by_contra houter
  exact h (if_pos (by simpa using houter))

/-! ### Reads and writes -/

theorem walk_cons {name : String} {names : List String} :
    files.walk path (name :: names) = .ok target ↔
      files.node path = .directory ∧ name.utf8ByteSize ≤ Path.nameLimit ∧
        files.walk (path.step name) names = .ok target := by
  rw [walk, bind_eq_ok_iff, Unique.exists_iff, ← enter_eq_ok_iff]
  refine and_congr_right fun _ => ?_
  split
  · next hlong => simp [Nat.not_le.mpr hlong]
  · next hlong => simp [Nat.not_lt.mp hlong]

theorem read_eq_ok_iff : files.read text = .ok bytes ↔
    Path.fault? text = none ∧ Path.namesDirectory text = false ∧
      files.walk (Path.start text) (Path.names text) = .ok (Path.ofText text) ∧
      files.node (Path.ofText text) = .file bytes := by
  unfold read
  cases hfault : Path.fault? text with
  | some fault => simp
  | none =>
    dsimp only
    rw [bind_eq_ok_iff]
    constructor
    · rintro ⟨path, hwalk, h⟩
      obtain rfl : path = Path.ofText text := eq_foldl_of_walk hwalk
      split at h
      · cases h
      · cases h
      · next hnode =>
        split at h
        · cases h
        · next hdirectory =>
          cases h
          exact ⟨rfl, Bool.eq_false_iff.mpr hdirectory, hwalk, hnode⟩
    · rintro ⟨-, hdirectory, hwalk, hnode⟩
      refine ⟨_, hwalk, ?_⟩
      rw [hnode, hdirectory]
      rfl

theorem write_eq_ok_iff : files.write text bytes = .ok files' ↔
    Path.fault? text = none ∧ Path.namesDirectory text = false ∧
      files.walk (Path.start text) (Path.names text) = .ok (Path.ofText text) ∧
      files.node (Path.ofText text) ≠ .directory ∧ files.put (Path.ofText text) bytes = files' := by
  unfold write
  dsimp only
  cases hfault : Path.fault? text with
  | some fault => simp
  | none =>
    dsimp only
    split
    · next hdirectory =>
      rw [hdirectory]
      refine iff_of_false (fun h => ?_) (fun h => Bool.noConfusion h.2.1)
      obtain ⟨path, -, h⟩ := bind_eq_ok h
      obtain ⟨u, -, h⟩ := bind_eq_ok h
      cases h
    · next hdirectory =>
      rw [bind_eq_ok_iff]
      constructor
      · rintro ⟨path, hwalk, h⟩
        obtain rfl : path = Path.ofText text := eq_foldl_of_walk hwalk
        split at h
        · cases h
        · next hnode =>
          cases h
          exact ⟨rfl, Bool.eq_false_iff.mpr hdirectory, hwalk, hnode, rfl⟩
      · rintro ⟨-, -, hwalk, hnode, rfl⟩
        exact ⟨_, hwalk, if_neg hnode⟩

/-! ### Directories on the way -/

/-- Every path that leads on to this one is a directory. -/
def Reached (files : Files) (path : Path) : Prop :=
  ∀ way : Path, way <+: path → way ≠ path → files.node way = .directory

theorem node_of_all (h : path.all (· == "..") = true) : files.node path = .directory := by
  have houter : path.isOuter = true := by
    rw [Path.isOuter, h, Bool.or_true]
  exact if_pos houter

theorem reached_of_all (h : path.all (· == "..") = true) : files.Reached path := by
  intro way hway _
  apply node_of_all
  rw [List.all_eq_true] at h ⊢
  exact fun name hname => h name (hway.subset hname)

theorem reached_root : files.Reached Path.root := by
  intro way hway hne
  rcases List.prefix_cons_iff.mp hway with rfl | ⟨rest, rfl, hrest⟩
  · exact node_of_all rfl
  · rw [List.prefix_nil] at hrest
    rw [hrest] at hne
    exact absurd rfl hne

theorem reached_start (files : Files) (text : String) : files.Reached (Path.start text) := by
  unfold Path.start
  split
  · exact reached_root
  · exact reached_of_all rfl

theorem Reached.up (h : files.Reached path) : files.Reached path.up := by
  unfold Path.up
  split
  · exact h
  · next hroot =>
    split
    · next houter =>
      rw [Path.isOuter, Bool.or_eq_true] at houter
      apply reached_of_all
      rw [List.all_cons, houter.resolve_left hroot]
      rfl
    · have hshorter : path.dropLast <+: path := List.dropLast_prefix path
      intro way hway hne
      refine h way (hway.trans hshorter) ?_
      rintro rfl
      exact hne (hway.eq_of_length_le hshorter.length_le)

/-- From a directory that was reached, every name leads to what is reached. -/
theorem Reached.step (h : files.Reached path) (hdirectory : files.node path = .directory)
    (name : String) : files.Reached (path.step name) := by
  unfold Path.step
  split
  · exact h
  · split
    · exact h.up
    · intro way hway hne
      have hbefore := (List.prefix_concat_iff.mp hway).resolve_left hne
      by_cases heq : way = path
      · rw [heq]
        exact hdirectory
      · exact h way hbefore heq

theorem Reached.walk {names : List String} (h : files.Reached path)
    (hwalk : files.walk path names = .ok target) : files.Reached target := by
  induction names generalizing path with
  | nil =>
    cases hwalk
    exact h
  | cons name names ih =>
    obtain ⟨hdirectory, -, hwalk⟩ := walk_cons.mp hwalk
    exact ih (h.step hdirectory name) hwalk

/-! ### What is put -/

theorem get?_put_self (files : Files) (path : Path) (bytes : List UInt8) :
    (files.put path bytes).get? path = some bytes := by
  have hnone : (files.entries.filter fun entry => entry.1 != path).find?
      (fun entry => entry.1 == path) = none := by
    simp [List.find?_eq_none]
  simp only [get?, put, List.find?_append, hnone]
  simp

theorem get?_put_of_ne (files : Files) (bytes : List UInt8) (h : target ≠ path) :
    (files.put path bytes).get? target = files.get? target := by
  have hkept : ∀ entry : Path × List UInt8,
      (decide ((entry.1 != path) = true ∧ (entry.1 == target) = true)) = (entry.1 == target) := by
    intro entry
    by_cases heq : entry.1 = target
    · simp [heq, h]
    · simp [heq]
  have hnone : [(path, bytes)].find? (fun entry => entry.1 == target) = none := by
    simp [h.symm]
  simp only [get?, put, List.find?_append, List.find?_filter, hkept, hnone, Option.or_none]

theorem node_put_self (files : Files) (bytes : List UInt8) (h : path.isOuter = false) :
    (files.put path bytes).node path = .file bytes :=
  node_eq_file_iff.mpr ⟨h, get?_put_self ..⟩

theorem mem_put {entry : Path × List UInt8} : entry ∈ (files.put path bytes).entries ↔
    entry ∈ files.entries ∧ entry.1 ≠ path ∨ entry = (path, bytes) := by
  simp [put]

/-- A file that is put where a path was reached makes no other directory. -/
theorem directory_put_iff (bytes : List UInt8) (hreached : files.Reached path)
    (h : target ≠ path) :
    (files.put path bytes).node target = .directory ↔ files.node target = .directory := by
  constructor
  · intro hnode
    by_cases hway : target <+: path
    · exact hreached target hway h
    · rw [node_eq_directory_iff, get?_put_of_ne files bytes h] at hnode
      refine node_eq_directory_iff.mpr (hnode.imp_right ?_)
      rintro ⟨hnone, entry, hentry, hbelow⟩
      rcases mem_put.mp hentry with ⟨hold, -⟩ | rfl
      · exact ⟨hnone, entry, hold, hbelow⟩
      · exact absurd hbelow hway
  · intro hnode
    rw [node_eq_directory_iff, get?_put_of_ne files bytes h]
    refine (node_eq_directory_iff.mp hnode).imp_right ?_
    rintro ⟨hnone, entry, hentry, hbelow⟩
    refine ⟨hnone, ?_⟩
    by_cases heq : entry.1 = path
    · exact ⟨(path, bytes), mem_put.mpr (.inr rfl), heq ▸ hbelow⟩
    · exact ⟨entry, mem_put.mpr (.inl ⟨hentry, heq⟩), hbelow⟩

theorem node_put_of_ne (hreached : files.Reached path) (h : target ≠ path) :
    (files.put path bytes).node target = files.node target := by
  have hdirectory := directory_put_iff bytes hreached h
  have hfile : ∀ found, (files.put path bytes).node target = .file found ↔
      files.node target = .file found := by
    intro found
    rw [node_eq_file_iff, node_eq_file_iff, get?_put_of_ne files bytes h]
  cases hnode : files.node target with
  | directory => exact hdirectory.mpr hnode
  | file found => exact (hfile found).mpr hnode
  | missing =>
    cases hput : (files.put path bytes).node target with
    | directory => exact absurd (hnode.symm.trans (hdirectory.mp hput)) Node.noConfusion
    | file found => exact absurd (hnode.symm.trans ((hfile found).mp hput)) Node.noConfusion
    | missing => rfl

theorem walk_congr {names : List String}
    (h : ∀ path, files'.node path = .directory ↔ files.node path = .directory) :
    files'.walk path names = .ok target ↔ files.walk path names = .ok target := by
  induction names generalizing path with
  | nil => rfl
  | cons name names ih => rw [walk_cons, walk_cons, h, ih]

/-- One file is changed, or made: it reads as these bytes, and at every other path there is what was
there, and every other file reads as it did. -/
structure Changed (files files' : Files) (text : String) (bytes : List UInt8) : Prop where
  content : files'.read text = .ok bytes
  others : ∀ path, path ≠ Path.ofText text → files'.node path = files.node path
  reads : ∀ other found, Path.ofText other ≠ Path.ofText text →
    (files'.read other = .ok found ↔ files.read other = .ok found)

theorem changed_of_write (h : files.write text bytes = .ok files') :
    Changed files files' text bytes := by
  obtain ⟨hfault, hname, hwalk, hnode, rfl⟩ := write_eq_ok_iff.mp h
  have hself := node_put_self files bytes (isOuter_of_node_ne hnode)
  have hothers : ∀ path, path ≠ Path.ofText text →
      (files.put (Path.ofText text) bytes).node path = files.node path :=
    fun path hne => node_put_of_ne ((reached_start files text).walk hwalk) hne
  have hdirectories : ∀ path, (files.put (Path.ofText text) bytes).node path = .directory ↔
      files.node path = .directory := by
    intro path
    by_cases heq : path = Path.ofText text
    · rw [heq, hself]
      exact iff_of_false Node.noConfusion hnode
    · rw [hothers path heq]
  refine ⟨?_, hothers, fun other found hne => ?_⟩
  · rw [read_eq_ok_iff, walk_congr hdirectories]
    exact ⟨hfault, hname, hwalk, hself⟩
  · rw [read_eq_ok_iff, read_eq_ok_iff, walk_congr hdirectories, hothers _ hne]

end Files
end Command
end Floorplan

import Mathlib.Data.List.Basic
import Floorplan.Resource.Fork

/-!
# Floorplan.Proofs.Resource.Fork

A fork that is filled by insertion. Its entries stand in their order without a second one of a type
and id (`Fork.sorted_ofEntries`), a look-up gives the last entry that was put in under them
(`Fork.get?_ofEntries`), and the types are those put in (`Fork.mem_types_ofEntries`), each once and
in their order (`Fork.pairwise_types`). The resources of the types, one type after the other, are
all entries in their order (`Fork.flatMap_types`).
-/

namespace Floorplan
namespace Entry

/-- `a` stands in front of `b` in a fork. -/
def Before (a b : Entry) : Prop :=
  a.type.code < b.type.code ∨ a.type.code = b.type.code ∧ a.resource.id < b.resource.id

theorem order_eq_lt_iff (a b : Entry) : order a b = .lt ↔ Before a b := by
  simp only [order, Before, Ordering.then_eq_lt, Std.compare_eq_lt, Std.compare_eq_iff_eq]

theorem order_eq_gt_iff (a b : Entry) : order a b = .gt ↔ Before b a := by
  simp only [order, Before, Ordering.then_eq_gt, Std.compare_eq_gt, Std.compare_eq_iff_eq,
    eq_comm (a := a.type.code)]

theorem order_eq_eq_iff (a b : Entry) :
    order a b = .eq ↔ a.type = b.type ∧ a.resource.id = b.resource.id := by
  have htype : a.type.code = b.type.code ↔ a.type = b.type :=
    ⟨fun h => by cases ha : a.type; cases hb : b.type; simp_all, congrArg TypeCode.code⟩
  simp only [order, Ordering.then_eq_eq, Std.compare_eq_iff_eq, htype]

theorem Before.trans {a b c : Entry} (h₁ : Before a b) (h₂ : Before b c) : Before a c := by
  unfold Before at *
  simp only [UInt32.lt_iff_toNat_lt, ← UInt32.toNat_inj, Int16.lt_iff_toInt_lt] at *
  omega

/-- Whether an entry is the one of a type and an id. -/
def answers (type : TypeCode) (id : Int16) (e : Entry) : Bool :=
  e.type == type && e.resource.id == id

theorem answers_congr {a b : Entry} (h : order a b = .eq) (type : TypeCode) (id : Int16) :
    answers type id a = answers type id b := by
  obtain ⟨htype, hid⟩ := (order_eq_eq_iff a b).mp h
  rw [answers, answers, htype, hid]

theorem order_eq_eq_of_answers {a b : Entry} {type : TypeCode} {id : Int16}
    (ha : answers type id a = true) (hb : answers type id b = true) : order a b = .eq := by
  simp only [answers, Bool.and_eq_true, beq_iff_eq] at ha hb
  rw [order_eq_eq_iff, ha.1, hb.1, ha.2, hb.2]
  exact ⟨rfl, rfl⟩

theorem mem_insert {x e : Entry} {l : List Entry} (h : x ∈ e.insert l) : x = e ∨ x ∈ l := by
  induction l with
  | nil => exact Or.inl (List.mem_singleton.mp h)
  | cons y rest ih =>
    simp only [insert] at h
    split at h
    · exact List.mem_cons.mp h
    · rcases List.mem_cons.mp h with h | h
      · exact Or.inl h
      · exact Or.inr (List.mem_cons_of_mem _ h)
    · rcases List.mem_cons.mp h with h | h
      · exact Or.inr (h ▸ List.mem_cons_self ..)
      · exact (ih h).imp id (List.mem_cons_of_mem _)

theorem sorted_insert (e : Entry) {l : List Entry} (h : l.Pairwise Before) :
    (e.insert l).Pairwise Before := by
  induction l with
  | nil => exact List.pairwise_singleton ..
  | cons y rest ih =>
    obtain ⟨hy, hrest⟩ := List.pairwise_cons.mp h
    simp only [insert]
    split
    · rename_i hlt
      have hey := (order_eq_lt_iff e y).mp hlt
      refine List.pairwise_cons.mpr ⟨fun z hz => ?_, h⟩
      rcases List.mem_cons.mp hz with rfl | hz
      · exact hey
      · exact hey.trans (hy z hz)
    · rename_i heq
      obtain ⟨htype, hid⟩ := (order_eq_eq_iff e y).mp heq
      refine List.pairwise_cons.mpr ⟨fun z hz => ?_, hrest⟩
      have hyz := hy z hz
      rwa [Before, ← htype, ← hid] at hyz
    · rename_i hgt
      refine List.pairwise_cons.mpr ⟨fun z hz => ?_, ih hrest⟩
      rcases mem_insert hz with rfl | hz
      · exact (order_eq_gt_iff _ _).mp hgt
      · exact hy z hz

theorem find?_insert (e : Entry) (l : List Entry) (type : TypeCode) (id : Int16) :
    (e.insert l).find? (answers type id) =
      if answers type id e then some e else l.find? (answers type id) := by
  induction l with
  | nil => cases h : answers type id e <;> simp [insert, h]
  | cons y rest ih =>
    simp only [insert]
    split
    · cases h : answers type id e <;> simp [List.find?_cons, h]
    · rename_i heq
      have hy := answers_congr heq type id
      cases h : answers type id e <;> simp [← hy, h]
    · rename_i hgt
      cases hy : answers type id y with
      | false => simp [hy, ih]
      | true =>
        have he : answers type id e = false := by
          cases he : answers type id e with
          | false => rfl
          | true => rw [order_eq_eq_of_answers he hy] at hgt; cases hgt
        simp [hy, he]

theorem mem_types_insert (e : Entry) (l : List Entry) (type : TypeCode) :
    type ∈ (e.insert l).map Entry.type ↔ type = e.type ∨ type ∈ l.map Entry.type := by
  induction l with
  | nil => simp [insert]
  | cons y rest ih =>
    simp only [insert]
    split
    · simp
    · rename_i heq
      have htype := ((order_eq_eq_iff e y).mp heq).1
      simp [htype]
    · rw [List.map_cons, List.mem_cons, ih, List.map_cons, List.mem_cons]
      exact or_left_comm

end Entry

namespace Fork

/-! ### Look-up -/

theorem get?_eq (fork : Fork) (type : TypeCode) (id : Int16) :
    fork.get? type id = (fork.entries.find? (Entry.answers type id)).map Entry.resource := by
  rw [get?, resources, List.find?_map, List.find?_filter]
  congr 2
  funext e
  simp only [Entry.answers, Bool.decide_and, Bool.decide_eq_true, Function.comp_apply]

theorem get?_insert (fork : Fork) (e : Entry) (type : TypeCode) (id : Int16) :
    (fork.insert e).get? type id =
      if e.answers type id then some e.resource else fork.get? type id := by
  rw [get?_eq, get?_eq, insert, Entry.find?_insert]
  cases e.answers type id <;> rfl

/-- The resource that was put in last under a type and id. -/
def last? (l : List Entry) (type : TypeCode) (id : Int16) : Option Resource :=
  (l.filter (Entry.answers type id)).getLast?.map Entry.resource

theorem get?_foldl_insert (l : List Entry) (type : TypeCode) (id : Int16) :
    ∀ fork : Fork, (l.foldl insert fork).get? type id =
      (last? l type id).or (fork.get? type id) := by
  induction l with
  | nil => intro fork; rfl
  | cons e rest ih =>
    intro fork
    rw [List.foldl_cons, ih, get?_insert]
    cases he : e.answers type id with
    | false => simp [last?, he]
    | true =>
      simp only [last?, List.filter_cons, he, if_true, List.getLast?_cons]
      cases (rest.filter (Entry.answers type id)).getLast? <;> rfl

theorem get?_ofEntries (l : List Entry) (type : TypeCode) (id : Int16) :
    (ofEntries l).get? type id = last? l type id := by
  rw [ofEntries, get?_foldl_insert]
  exact Option.or_none

/-! ### Order -/

theorem sorted_foldl_insert (l : List Entry) :
    ∀ fork : Fork, fork.entries.Pairwise Entry.Before →
      (l.foldl insert fork).entries.Pairwise Entry.Before := by
  induction l with
  | nil => intro fork h; exact h
  | cons e rest ih => intro fork h; exact ih _ (Entry.sorted_insert e h)

theorem sorted_ofEntries (l : List Entry) : (ofEntries l).entries.Pairwise Entry.Before :=
  sorted_foldl_insert l empty List.Pairwise.nil

theorem insert_eq_append {e : Entry} {l : List Entry} (h : ∀ x ∈ l, Entry.Before x e) :
    e.insert l = l ++ [e] := by
  induction l with
  | nil => rfl
  | cons y rest ih =>
    have hgt := (Entry.order_eq_gt_iff e y).mpr (h y (List.mem_cons_self ..))
    simp only [Entry.insert, hgt, ih fun x hx => h x (List.mem_cons_of_mem _ hx),
      List.cons_append]

theorem entries_foldl_insert (l : List Entry) :
    ∀ fork : Fork, (fork.entries ++ l).Pairwise Entry.Before →
      (l.foldl insert fork).entries = fork.entries ++ l := by
  induction l with
  | nil => intro fork _; exact (List.append_nil _).symm
  | cons e rest ih =>
    intro fork h
    have hinsert : (fork.insert e).entries = fork.entries ++ [e] :=
      insert_eq_append fun x hx => (List.pairwise_append.mp h).2.2 x hx e (List.mem_cons_self ..)
    rw [List.foldl_cons, ih, hinsert, List.append_assoc, List.singleton_append]
    rwa [hinsert, List.append_assoc, List.singleton_append]

/-- What is in order already stays as it is. -/
theorem ofEntries_of_sorted {l : List Entry} (h : l.Pairwise Entry.Before) : ofEntries l = ⟨l⟩ := by
  have hentries := entries_foldl_insert l empty h
  rw [ofEntries]
  exact congrArg Fork.mk hentries

theorem mem_types (fork : Fork) (type : TypeCode) :
    type ∈ fork.types ↔ type ∈ fork.entries.map Entry.type := List.mem_eraseDups

theorem mem_types_foldl_insert (l : List Entry) (type : TypeCode) :
    ∀ fork : Fork, type ∈ (l.foldl insert fork).types ↔
      type ∈ l.map Entry.type ∨ type ∈ fork.types := by
  induction l with
  | nil => intro fork; simp
  | cons e rest ih =>
    intro fork
    rw [List.foldl_cons, ih, mem_types (fork.insert e), mem_types fork, insert,
      Entry.mem_types_insert, List.map_cons, List.mem_cons]
    exact or_left_comm.trans or_assoc.symm

theorem mem_types_ofEntries (l : List Entry) (type : TypeCode) :
    type ∈ (ofEntries l).types ↔ type ∈ l.map Entry.type := by
  rw [ofEntries, mem_types_foldl_insert]
  simp [types, empty]

/-! ### Resources by their types -/

/-- The entries of a type. -/
def ofType (l : List Entry) (type : TypeCode) : List Entry := l.filter fun e => e.type == type

/-- The entries of all other types. -/
def butType (l : List Entry) (type : TypeCode) : List Entry := l.filter fun e => e.type != type

theorem code_le_of_before {a b : Entry} (h : Entry.Before a b) : a.type.code ≤ b.type.code := by
  rcases h with h | ⟨h, -⟩
  · exact UInt32.le_of_lt h
  · exact UInt32.le_of_eq h

theorem code_lt_of_le_of_ne {s t : TypeCode} (h : s.code ≤ t.code) (hne : t ≠ s) :
    s.code < t.code := by
  refine UInt32.lt_of_le_of_ne h fun heq => hne ?_
  cases s
  cases t
  simp_all

/-- Where no type is smaller, the entries of a type stand in front. -/
theorem ofType_append_butType {type : TypeCode} {l : List Entry} (h : l.Pairwise Entry.Before)
    (hle : ∀ x ∈ l, type.code ≤ x.type.code) : ofType l type ++ butType l type = l := by
  induction l with
  | nil => rfl
  | cons x rest ih =>
    obtain ⟨hx, hrest⟩ := List.pairwise_cons.mp h
    by_cases heq : x.type = type
    · have htail := ih hrest fun y hy => hle y (List.mem_cons_of_mem _ hy)
      simp only [ofType, butType] at htail
      simp [ofType, butType, heq, htail]
    · have hlt := code_lt_of_le_of_ne (hle x (List.mem_cons_self ..)) heq
      have hall : ∀ y ∈ x :: rest, y.type ≠ type := by
        intro y hy
        rcases List.mem_cons.mp hy with rfl | hy
        · exact heq
        · rintro rfl
          exact UInt32.not_lt.mpr (code_le_of_before (hx y hy)) hlt
      have hnone : ofType (x :: rest) type = [] := by
        simpa [ofType] using hall
      have hself : butType (x :: rest) type = x :: rest := by
        simpa [butType] using hall
      rw [hnone, hself, List.nil_append]

theorem eraseDups_types_cons (e : Entry) (rest : List Entry) :
    ((e :: rest).map Entry.type).eraseDups =
      e.type :: ((butType rest e.type).map Entry.type).eraseDups := by
  rw [List.map_cons, List.eraseDups_cons, List.filter_map]
  rfl

theorem length_butType_le (l : List Entry) (type : TypeCode) : (butType l type).length ≤ l.length :=
  List.length_filter_le ..

theorem pairwise_eraseDups_types (l : List Entry) (h : l.Pairwise Entry.Before) :
    (l.map Entry.type).eraseDups.Pairwise fun s t => s.code < t.code := by
  match l with
  | [] => exact List.Pairwise.nil
  | e :: rest =>
    obtain ⟨he, hrest⟩ := List.pairwise_cons.mp h
    rw [eraseDups_types_cons]
    refine List.pairwise_cons.mpr
      ⟨fun type hmem => ?_, pairwise_eraseDups_types _ (hrest.sublist List.filter_sublist)⟩
    obtain ⟨x, hx, rfl⟩ := List.mem_map.mp (List.mem_eraseDups.mp hmem)
    obtain ⟨hx, hne⟩ := List.mem_filter.mp hx
    exact code_lt_of_le_of_ne (code_le_of_before (he x hx)) (by simpa using hne)
termination_by l.length
decreasing_by
  exact Nat.lt_succ_of_le (length_butType_le ..)

theorem pairwise_types {fork : Fork} (h : fork.entries.Pairwise Entry.Before) :
    fork.types.Pairwise fun s t => s.code < t.code := pairwise_eraseDups_types _ h

theorem ofType_cons_of_ne {e : Entry} {type : TypeCode} (rest : List Entry) (h : type ≠ e.type) :
    ofType (e :: rest) type = ofType (butType rest e.type) type := by
  simp only [ofType, butType, List.filter_filter, List.filter_cons,
    beq_eq_false_iff_ne.mpr h.symm, Bool.false_eq_true, if_false]
  apply List.filter_congr
  intro x _
  by_cases hx : x.type = type
  · simp [hx, h]
  · simp [hx]

/-- The entries of one type after the other are all of them. -/
theorem flatMap_ofType (l : List Entry) (h : l.Pairwise Entry.Before) :
    (l.map Entry.type).eraseDups.flatMap (ofType l) = l := by
  match l with
  | [] => rfl
  | e :: rest =>
    obtain ⟨he, hrest⟩ := List.pairwise_cons.mp h
    have hself : ofType (e :: rest) e.type = e :: ofType rest e.type := by simp [ofType]
    have hothers : ((butType rest e.type).map Entry.type).eraseDups.flatMap (ofType (e :: rest)) =
        butType rest e.type := by
      refine Eq.trans (List.flatMap_congr fun type hmem => ofType_cons_of_ne rest ?_)
        (flatMap_ofType _ (hrest.sublist List.filter_sublist))
      obtain ⟨x, hx, rfl⟩ := List.mem_map.mp (List.mem_eraseDups.mp hmem)
      simpa using (List.mem_filter.mp hx).2
    rw [eraseDups_types_cons, List.flatMap_cons, hself, hothers, List.cons_append,
      ofType_append_butType hrest fun x hx => code_le_of_before (he x hx)]
termination_by l.length
decreasing_by
  exact Nat.lt_succ_of_le (length_butType_le ..)

end Fork
end Floorplan

import Floorplan.Proofs.Reading
import Floorplan.Proofs.Resource.Container

/-!
# Floorplan.Proofs.Resource.Meaning

What a fork says that is read from any bytes. A frame says where the entries of types and their
references stand in the map (`Frame.typeEntry`, `Frame.reference`), and each reference means one
resource (`Frame.Means`). Reading goes through all of them in order, so under a type and an id the
last of the references that answer counts (`Container.get?_decode`).
-/

namespace Floorplan
namespace Container

/-- The `length` bytes at `offset`. -/
def slice (bytes : List UInt8) (offset length : Nat) : List UInt8 :=
  (bytes.drop offset).take length

namespace Frame

/-- The frame cuts the bytes up as their header says, and all that it is read from lies in them. -/
structure Outlines (f : Frame) (bytes : List UInt8) : Prop where
  header : 16 ≤ bytes.length
  data_le : (Bytes.longAt bytes 0).toNat + (Bytes.longAt bytes 8).toNat ≤ bytes.length
  data : f.data = slice bytes (Bytes.longAt bytes 0).toNat (Bytes.longAt bytes 8).toNat
  map_le : (Bytes.longAt bytes 4).toNat + (Bytes.longAt bytes 12).toNat ≤ bytes.length
  map : f.map = slice bytes (Bytes.longAt bytes 4).toNat (Bytes.longAt bytes 12).toNat
  lists_le : 28 ≤ f.map.length
  typeList : f.typeList = (Bytes.wordAt f.map 24).toNat
  nameList : f.nameList = (Bytes.wordAt f.map 26).toNat

variable (f : Frame)

/-- The number of type entries, which is stored less one. -/
def types : Nat := ((Bytes.wordAt f.map f.typeList).toNat + 1) % 65536

/-- Where a type entry stands in the map. -/
def typeEntry (i : Nat) : Nat := f.typeList + 2 + 8 * i

def typeOf (i : Nat) : TypeCode := ⟨Bytes.longAt f.map (f.typeEntry i)⟩

/-- The number of references of a type entry, which is stored less one. -/
def references (i : Nat) : Nat := (Bytes.wordAt f.map (f.typeEntry i + 4)).toNat + 1

/-- Where a reference of a type entry stands in the map. -/
def reference (i j : Nat) : Nat :=
  f.typeList + (Bytes.wordAt f.map (f.typeEntry i + 6)).toNat + 12 * j

def idOf (r : Nat) : Int16 := (Bytes.wordAt f.map r).toInt16

/-- Where the data of a reference starts, of 24 bits, and with the length in front. -/
def dataOffset (r : Nat) : Nat :=
  (Bytes.long 0 (f.map.getD (r + 5) 0) (f.map.getD (r + 6) 0) (f.map.getD (r + 7) 0)).toNat

def dataLength (r : Nat) : Nat := (Bytes.longAt f.data (f.dataOffset r)).toNat

/-- Where the name of a reference starts, with the length in front. -/
def nameOffset (r : Nat) : Nat := f.nameList + (Bytes.wordAt f.map (r + 2)).toNat

def nameLength (r : Nat) : Nat := (f.map.getD (f.nameOffset r) 0).toNat

/-- The resource is what the reference at an offset of the map stands for. -/
structure Means (r : Nat) (x : Resource) : Prop where
  id : x.id = f.idOf r
  attributes : x.attributes = f.map.getD (r + 4) 0
  data_le : f.dataOffset r + 4 + f.dataLength r ≤ f.data.length
  data : x.data = slice f.data (f.dataOffset r + 4) (f.dataLength r)
  unnamed : x.name = none ↔ Bytes.wordAt f.map (r + 2) = 0xFFFF
  name : ∀ name, x.name = some name →
    f.nameOffset r + 1 + f.nameLength r ≤ f.map.length ∧
      name = MacRoman.decode (slice f.map (f.nameOffset r + 1) (f.nameLength r))

/-- A reference of a type entry is one for a type and an id. -/
structure Answers (type : TypeCode) (id : Int16) (i j : Nat) : Prop where
  entry_lt : i < f.types
  entry_le : f.typeEntry i + 8 ≤ f.map.length
  type : f.typeOf i = type
  reference_lt : j < f.references i
  reference_le : f.reference i j + 12 ≤ f.map.length
  id : f.idOf (f.reference i j) = id

end Frame

/-! ### Single parts -/

theorem of_region {part : Part} {bytes x : List UInt8} {offset length : Nat}
    (h : region part bytes offset length = .ok x) :
    offset + length ≤ bytes.length ∧ x = slice bytes offset length := by
  unfold region at h
  split at h
  · next hle =>
    cases h
    exact ⟨hle, rfl⟩
  · cases h

theorem getD_slice {bytes : List UInt8} {offset length i : Nat} (h : i < length) :
    (slice bytes offset length).getD i 0 = bytes.getD (offset + i) 0 := by
  simp [slice, List.getD_eq_getElem?_getD, h]

theorem wordAt_slice {bytes : List UInt8} {offset length i : Nat} (h : i + 2 ≤ length) :
    Bytes.wordAt (slice bytes offset length) i = Bytes.wordAt bytes (offset + i) := by
  unfold Bytes.wordAt
  rw [getD_slice (by omega), getD_slice (by omega)]
  rfl

theorem longAt_slice {bytes : List UInt8} {offset length i : Nat} (h : i + 4 ≤ length) :
    Bytes.longAt (slice bytes offset length) i = Bytes.longAt bytes (offset + i) := by
  unfold Bytes.longAt
  rw [getD_slice (by omega), getD_slice (by omega), getD_slice (by omega),
    getD_slice (by omega)]
  rfl

theorem of_wordIn {part : Part} {bytes : List UInt8} {offset n : Nat}
    (h : wordIn part bytes offset = .ok n) :
    offset + 2 ≤ bytes.length ∧ n = (Bytes.wordAt bytes offset).toNat := by
  obtain ⟨found, hfound, hn⟩ := bind_eq_ok h
  obtain ⟨hle, rfl⟩ := of_region hfound
  cases hn
  exact ⟨hle, by rw [wordAt_slice (by omega)]; rfl⟩

theorem outlines_of_frame {bytes : List UInt8} {f : Frame} (h : frame bytes = .ok f) :
    f.Outlines bytes := by
  unfold frame at h
  obtain ⟨header, hheader, h⟩ := bind_eq_ok h
  obtain ⟨hlength, rfl⟩ := of_region hheader
  obtain ⟨data, hdata, h⟩ := bind_eq_ok h
  obtain ⟨map, hmap, h⟩ := bind_eq_ok h
  obtain ⟨typeList, htypeList, h⟩ := bind_eq_ok h
  obtain ⟨nameList, hnameList, h⟩ := bind_eq_ok h
  obtain ⟨hdataLe, rfl⟩ := of_region hdata
  obtain ⟨hmapLe, rfl⟩ := of_region hmap
  obtain ⟨-, rfl⟩ := of_wordIn htypeList
  obtain ⟨hlists, rfl⟩ := of_wordIn hnameList
  cases h
  simp only [longAt_slice (show 0 + 4 ≤ 16 by decide), longAt_slice (show 4 + 4 ≤ 16 by decide),
    longAt_slice (show 8 + 4 ≤ 16 by decide), longAt_slice (show 12 + 4 ≤ 16 by decide),
    Nat.zero_add] at *
  exact ⟨hlength, hdataLe, rfl, hmapLe, rfl, hlists, rfl, rfl⟩

/-! ### A reference -/

section Reference

variable {f : Frame} {r : Nat}

theorem of_nameAt {offset : Nat} {name : String} (h : nameAt f offset = .ok name) :
    offset + 1 + (f.map.getD offset 0).toNat ≤ f.map.length ∧
      name = MacRoman.decode (slice f.map (offset + 1) (f.map.getD offset 0).toNat) := by
  unfold nameAt at h
  obtain ⟨length, hlength, h⟩ := bind_eq_ok h
  obtain ⟨letters, hletters, h⟩ := bind_eq_ok h
  obtain ⟨-, rfl⟩ := of_region hlength
  obtain ⟨hle, rfl⟩ := of_region hletters
  cases h
  rw [getD_slice (by omega), Nat.add_zero] at hle
  rw [getD_slice (by omega), Nat.add_zero]
  exact ⟨hle, rfl⟩

theorem of_referenceName {name : Option String}
    (h : referenceName f (Bytes.wordAt f.map (r + 2)) = .ok name) :
    (name = none ↔ Bytes.wordAt f.map (r + 2) = 0xFFFF) ∧
      ∀ text, name = some text →
        f.nameOffset r + 1 + f.nameLength r ≤ f.map.length ∧
          text = MacRoman.decode (slice f.map (f.nameOffset r + 1) (f.nameLength r)) := by
  unfold referenceName at h
  split at h
  · next hunnamed =>
    cases h
    refine ⟨⟨fun _ => hunnamed, fun _ => rfl⟩, ?_⟩
    intro text htext
    cases htext
  · next hnamed =>
    split at h
    · cases h
    · next text hname =>
      cases h
      refine ⟨⟨?_, fun hword => absurd hword hnamed⟩, ?_⟩
      · intro hnone
        cases hnone
      · intro text' htext
        cases htext
        exact of_nameAt hname

theorem of_dataAt {offset : Nat} {data : List UInt8} (h : dataAt f offset = .ok data) :
    offset + 4 + (Bytes.longAt f.data offset).toNat ≤ f.data.length ∧
      data = slice f.data (offset + 4) (Bytes.longAt f.data offset).toNat := by
  unfold dataAt at h
  obtain ⟨length, hlength, h⟩ := bind_eq_ok h
  obtain ⟨-, rfl⟩ := of_region hlength
  obtain ⟨hle, rfl⟩ := of_region h
  rw [longAt_slice (by omega), Nat.add_zero] at hle
  rw [longAt_slice (by omega), Nat.add_zero]
  exact ⟨hle, rfl⟩

theorem means_of_resourceOf {x : Resource} (h : resourceOf f (slice f.map r 12) = .ok x) :
    f.Means r x := by
  unfold resourceOf at h
  obtain ⟨name, hname, h⟩ := bind_eq_ok h
  obtain ⟨data, hdata, h⟩ := bind_eq_ok h
  rw [wordAt_slice (by omega)] at hname
  simp only [getD_slice (show 5 < 12 by decide), getD_slice (show 6 < 12 by decide),
    getD_slice (show 7 < 12 by decide)] at hdata
  obtain ⟨hunnamed, hname⟩ := of_referenceName hname
  obtain ⟨hle, rfl⟩ := of_dataAt hdata
  cases h
  refine ⟨?_, ?_, hle, rfl, hunnamed, hname⟩
  · rw [wordAt_slice (by omega)]
    rfl
  · exact getD_slice (by omega)

end Reference

/-! ### All references -/

theorem forall₂_of_mapM {ε α β : Type} {f : α → Except ε β} {l : List α} :
    ∀ {m : List β}, l.mapM f = .ok m → List.Forall₂ (fun a b => f a = .ok b) l m := by
  induction l with
  | nil =>
    intro m h
    cases h
    exact .nil
  | cons a rest ih =>
    intro m h
    rw [List.mapM_cons] at h
    obtain ⟨b, hb, h⟩ := bind_eq_ok h
    obtain ⟨tail, htail, h⟩ := bind_eq_ok h
    cases h
    exact .cons hb (ih htail)

/-- The references of a map in the order in which they are read: the index of the type entry and
the index among its references. -/
def Frame.slots (f : Frame) : List (Nat × Nat) :=
  (List.range f.types).flatMap fun i => (List.range (f.references i)).map fun j => (i, j)

/-- An entry of a fork is read from a reference. -/
structure Frame.Gives (f : Frame) (s : Nat × Nat) (e : Entry) : Prop where
  entry_le : f.typeEntry s.1 + 8 ≤ f.map.length
  type : e.type = f.typeOf s.1
  reference_le : f.reference s.1 s.2 + 12 ≤ f.map.length
  means : f.Means (f.reference s.1 s.2) e.resource

theorem gives_of_entriesOf {f : Frame} {i : Nat} {entries : List Entry}
    (hle : f.typeEntry i + 8 ≤ f.map.length)
    (h : entriesOf f (slice f.map (f.typeEntry i) 8) = .ok entries) :
    List.Forall₂ f.Gives ((List.range (f.references i)).map fun j => (i, j)) entries := by
  have hcount : (Bytes.wordAt (slice f.map (f.typeEntry i) 8) 4).toNat + 1 = f.references i := by
    rw [wordAt_slice (by omega)]
    rfl
  have hlist (j : Nat) : f.typeList + (Bytes.wordAt (slice f.map (f.typeEntry i) 8) 6).toNat +
      j * referenceSize = f.reference i j := by
    rw [wordAt_slice (by omega), Nat.mul_comm]
    rfl
  have htype : (⟨Bytes.longAt (slice f.map (f.typeEntry i) 8) 0⟩ : TypeCode) = f.typeOf i := by
    rw [longAt_slice (by omega)]
    rfl
  unfold entriesOf at h
  simp only [hcount, hlist, htype] at h
  rw [List.forall₂_map_left_iff]
  refine (forall₂_of_mapM h).imp ?_
  intro j e hread
  obtain ⟨bytes, hbytes, hread⟩ := bind_eq_ok hread
  obtain ⟨hreference, rfl⟩ := of_region hbytes
  obtain ⟨x, hx, hread⟩ := bind_eq_ok hread
  cases hread
  exact ⟨hle, rfl, hreference, means_of_resourceOf hx⟩

theorem gives_of_entries {f : Frame} {entries : List (List Entry)}
    (h : (List.range f.types).mapM (fun i => do
      let entry ← region .typeEntry f.map (f.typeList + 2 + i * typeEntrySize) typeEntrySize
      entriesOf f entry) = .ok entries) : List.Forall₂ f.Gives f.slots entries.flatten := by
  have hrows : List.Forall₂ (List.Forall₂ f.Gives)
      ((List.range f.types).map fun i => (List.range (f.references i)).map fun j => (i, j))
      entries := by
    rw [List.forall₂_map_left_iff]
    refine (forall₂_of_mapM h).imp ?_
    intro i row hread
    obtain ⟨bytes, hbytes, hread⟩ := bind_eq_ok hread
    obtain ⟨hle, rfl⟩ := of_region hbytes
    rw [Nat.mul_comm] at hle hread
    exact gives_of_entriesOf hle hread
  exact List.rel_flatten hrows

theorem mem_slots {f : Frame} {i j : Nat} :
    (i, j) ∈ f.slots ↔ i < f.types ∧ j < f.references i := by
  simp [Frame.slots]

/-- Of two references the second is read later. -/
def Later (s t : Nat × Nat) : Prop := s.1 < t.1 ∨ s.1 = t.1 ∧ s.2 < t.2

theorem pairwise_slots (f : Frame) : f.slots.Pairwise Later := by
  rw [Frame.slots, List.pairwise_flatMap]
  constructor
  · intro i _
    refine List.pairwise_map.mpr (List.pairwise_lt_range.imp ?_)
    intro j j' hlt
    exact .inr ⟨rfl, hlt⟩
  · refine List.pairwise_lt_range.imp ?_
    intro i i' hlt s hs t ht
    obtain ⟨j, -, rfl⟩ := List.mem_map.mp hs
    obtain ⟨j', -, rfl⟩ := List.mem_map.mp ht
    exact .inl hlt

theorem not_of_getLast?_filter {α : Type} {r : α → α → Prop} {l : List α} {p : α → Bool} {a : α}
    (hl : l.Pairwise r) (h : (l.filter p).getLast? = some a) :
    ∀ b ∈ l, p b → b = a ∨ r b a := by
  intro b hb hp
  obtain ⟨front, hfront⟩ := List.getLast?_eq_some_iff.mp h
  have hpairwise := hl.filter p
  have hmem : b ∈ l.filter p := List.mem_filter.mpr ⟨hb, hp⟩
  rw [hfront] at hpairwise hmem
  rcases List.mem_append.mp hmem with hbefore | hlast
  · exact .inr ((List.pairwise_append.mp hpairwise).2.2 b hbefore a (List.mem_singleton_self a))
  · exact .inl (List.mem_singleton.mp hlast)

/-- Whether a reference is one for a type and an id. -/
def Frame.isFor (f : Frame) (type : TypeCode) (id : Int16) (s : Nat × Nat) : Bool :=
  f.typeOf s.1 == type && f.idOf (f.reference s.1 s.2) == id

section Decoded

variable {f : Frame} {entries : List Entry} (h : List.Forall₂ f.Gives f.slots entries)

theorem Frame.Gives.answers {s : Nat × Nat} {e : Entry} (hs : f.Gives s e) (type : TypeCode)
    (id : Int16) : f.isFor type id s = e.answers type id := by
  rw [isFor, Entry.answers, hs.type, hs.means.id]

include h

theorem exists_gives {i j : Nat} (hi : i < f.types) (hj : j < f.references i) :
    ∃ e, f.Gives (i, j) e := by
  obtain ⟨k, hk, hget⟩ := List.mem_iff_getElem.mp (mem_slots.mpr ⟨hi, hj⟩)
  have hgives := h.get hk (h.length_eq ▸ hk)
  rw [List.get_eq_getElem, hget] at hgives
  exact ⟨_, hgives⟩

theorem answers_iff {type : TypeCode} {id : Int16} {i j : Nat} :
    f.Answers type id i j ↔ (i, j) ∈ f.slots.filter (f.isFor type id) := by
  rw [List.mem_filter, mem_slots]
  constructor
  · intro hanswers
    refine ⟨⟨hanswers.entry_lt, hanswers.reference_lt⟩, ?_⟩
    simp [Frame.isFor, hanswers.type, hanswers.id]
  · rintro ⟨⟨hi, hj⟩, hfor⟩
    obtain ⟨e, hgives⟩ := exists_gives h hi hj
    simp only [Frame.isFor, Bool.and_eq_true, beq_iff_eq] at hfor
    exact ⟨hi, hgives.entry_le, hfor.1, hj, hgives.reference_le, hfor.2⟩

/-- What is found under a type and an id is what the last reference for them gives. -/
theorem rel_last? (type : TypeCode) (id : Int16) :
    Option.Rel (fun s r => f.Means (f.reference s.1 s.2) r)
      (f.slots.filter (f.isFor type id)).getLast? (Fork.last? entries type id) := by
  have hfilter : List.Forall₂ f.Gives (f.slots.filter (f.isFor type id))
      (entries.filter (Entry.answers type id)) := by
    refine List.rel_filter ?_ h
    intro s e hgives
    dsimp only
    rw [hgives.answers]
  have hlast := forall₂_getLast? hfilter
  unfold Fork.last?
  generalize (f.slots.filter (f.isFor type id)).getLast? = s at hlast ⊢
  generalize (entries.filter (Entry.answers type id)).getLast? = e at hlast ⊢
  cases hlast with
  | none => exact .none
  | some hgives => exact .some hgives.means

theorem isSome_last?_iff (type : TypeCode) (id : Int16) :
    (Fork.last? entries type id).isSome ↔ ∃ i j, f.Answers type id i j := by
  have hrel := rel_last? h type id
  generalize hslot : (f.slots.filter (f.isFor type id)).getLast? = s at hrel
  generalize Fork.last? entries type id = r at hrel ⊢
  cases hrel with
  | none =>
    have hnil := List.getLast?_eq_none_iff.mp hslot
    constructor
    · intro hsome
      cases hsome
    · rintro ⟨i, j, hanswers⟩
      rw [answers_iff h, hnil] at hanswers
      cases hanswers
  | @some s r hmeans =>
    have hanswers := (answers_iff h).mpr (List.mem_of_getLast? hslot)
    exact ⟨fun _ => ⟨s.1, s.2, hanswers⟩, fun _ => rfl⟩

theorem means_last? {type : TypeCode} {id : Int16} {r : Resource}
    (hr : Fork.last? entries type id = some r) :
    r.id = id ∧ ∃ i j, f.Answers type id i j ∧ f.Means (f.reference i j) r ∧
      ∀ i' j', f.Answers type id i' j' → i' < i ∨ i' = i ∧ j' ≤ j := by
  have hrel := rel_last? h type id
  rw [hr] at hrel
  generalize hslot : (f.slots.filter (f.isFor type id)).getLast? = s at hrel
  cases hrel with
  | @some s r hmeans =>
    have hanswers := (answers_iff h).mpr (List.mem_of_getLast? hslot)
    refine ⟨hmeans.id.trans hanswers.id, s.1, s.2, hanswers, hmeans, ?_⟩
    intro i' j' hother
    obtain ⟨hmem, hfor⟩ := List.mem_filter.mp ((answers_iff h).mp hother)
    rcases not_of_getLast?_filter (pairwise_slots f) hslot _ hmem hfor with rfl | hlt | ⟨heq, hlt⟩
    · exact .inr ⟨rfl, Nat.le_refl _⟩
    · exact .inl hlt
    · exact .inr ⟨heq, Nat.le_of_lt hlt⟩

end Decoded

theorem resources_pairwise {fork : Fork} (h : fork.entries.Pairwise Entry.Before)
    (type : TypeCode) : (fork.resources type).Pairwise fun r s => r.id < s.id := by
  refine List.pairwise_map.mpr ((h.filter _).imp_of_mem ?_)
  intro a b ha hb hbefore
  have hatype : a.type = type := by simpa using (List.mem_filter.mp ha).2
  have hbtype : b.type = type := by simpa using (List.mem_filter.mp hb).2
  rcases hbefore with hlt | ⟨-, hid⟩
  · rw [hatype, hbtype] at hlt
    exact absurd hlt (UInt32.lt_irrefl _)
  · exact hid

/-- What a fork says that is read without complaint. Under a type and an id something is found
exactly if a reference answers, and it is what the last of these means; every type that is listed
has resources, in the order of their ids. -/
theorem get?_decode {bytes : List UInt8} {fork : Fork} (h : decode bytes = .ok fork) :
    ∃ f : Frame, f.Outlines bytes ∧
      (∀ type id, (fork.get? type id).isSome ↔ ∃ i j, f.Answers type id i j) ∧
      (∀ type id r, fork.get? type id = some r →
        r.id = id ∧ ∃ i j, f.Answers type id i j ∧ f.Means (f.reference i j) r ∧
          ∀ i' j', f.Answers type id i' j' → i' < i ∨ i' = i ∧ j' ≤ j) ∧
      (∀ type ∈ fork.types, fork.resources type ≠ []) ∧
      ∀ type, (fork.resources type).Pairwise fun r s => r.id < s.id := by
  unfold decode at h
  obtain ⟨f, hframe, hrest⟩ := bind_eq_ok h
  obtain ⟨count, hcount, hrest⟩ := bind_eq_ok hrest
  obtain ⟨stored, hstored, hcount⟩ := bind_eq_ok hcount
  obtain ⟨-, rfl⟩ := of_wordIn hstored
  cases hcount
  obtain ⟨entries, hentries, hfork⟩ := bind_eq_ok hrest
  cases hfork
  have hgives := gives_of_entries hentries
  refine ⟨f, outlines_of_frame hframe, ?_, ?_, ?_, ?_⟩
  · intro type id
    rw [Fork.get?_ofEntries]
    exact isSome_last?_iff hgives type id
  · intro type id r hr
    rw [Fork.get?_ofEntries] at hr
    exact means_last? hgives hr
  · intro type htype
    exact List.length_pos_iff.mp (resources_length_pos htype)
  · exact resources_pairwise (Fork.sorted_ofEntries _)

/-- Two entries of one type that share a list, in which an id comes twice. -/
theorem get?_decode_shared :
    let bytes : List UInt8 :=
      [0, 0, 0, 16, 0, 0, 0, 27, 0, 0, 0, 11, 0, 0, 0, 73] ++
        [0, 0, 0, 1, 9, 0, 0, 0, 2, 7, 8] ++
        List.replicate 24 0 ++ [0, 28, 0, 70] ++
        [0, 1, 80, 73, 67, 84, 0, 0, 0, 18, 80, 73, 67, 84, 0, 1, 0, 18] ++
        [0, 128, 255, 255, 0, 0, 0, 0, 0, 0, 0, 0, 0, 128, 0, 0, 4, 0, 0, 5, 0, 0, 0, 0] ++
        [2, 104, 105]
    let fork : Fork := ⟨[⟨.pict, ⟨128, some "hi", 4, [7, 8]⟩⟩]⟩
    decode bytes = .ok fork ∧ fork.get? .pict 128 = some ⟨128, some "hi", 4, [7, 8]⟩ ∧
      ∃ f : Frame, f.Outlines bytes ∧ ∃ i j, f.Answers .pict 128 i j ∧
        f.Means (f.reference i j) ⟨128, some "hi", 4, [7, 8]⟩ := by
  intro bytes fork
  have hdecode : decode bytes = .ok fork := by decide +kernel
  have hfound : fork.get? .pict 128 = some ⟨128, some "hi", 4, [7, 8]⟩ := by decide
  obtain ⟨f, houtlines, -, hmeans, -, -⟩ := get?_decode hdecode
  obtain ⟨-, i, j, hanswers, hresource, -⟩ := hmeans _ _ _ hfound
  exact ⟨hdecode, hfound, f, houtlines, i, j, hanswers, hresource⟩

end Container
end Floorplan

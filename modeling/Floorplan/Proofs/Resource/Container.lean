import Floorplan.Proofs.MacRoman
import Floorplan.Proofs.Resource.Sections

/-!
# Floorplan.Proofs.Resource.Container

A fork, written and read back. The offsets in a written map point to what they are meant for: those
of a type entry to its references (`entriesOf_typeEntry`), those of a reference to its name and its
data (`resourceOf_reference`). `Container.decode_encode_of_fits` puts this together for a fork that
fits its fields (`Fits`). What is found under a type and an id is then the last resource that was
added there (`Container.get?_forkOf`).
-/

namespace Floorplan

/-- What is left of a resource that is written and read back: all but the characters of its
name that are outside the set. -/
def Resource.legible (r : Resource) : Resource := { r with name := r.name.map MacRoman.legible }

def Entry.legible (e : Entry) : Entry := ⟨e.type, e.resource.legible⟩

namespace Container

theorem ok_bind {ε α β : Type} (a : α) (f : α → Except ε β) : (Except.ok a >>= f) = f a := rfl

theorem mapM_range_eq {ε α : Type} {l : List α} : ∀ {f : Nat → Except ε α},
    (∀ (i : Nat) (h : i < l.length), f i = .ok l[i]) → (List.range l.length).mapM f = .ok l := by
  induction l with
  | nil => intro f _; rfl
  | cons a rest ih =>
    intro f h
    have hhead : f 0 = .ok a := h 0 (Nat.succ_pos _)
    have hrest := ih (f := f ∘ Nat.succ) fun i hi => h (i + 1) (Nat.succ_lt_succ hi)
    rw [List.length_cons, List.range_succ_eq_map, List.mapM_cons, List.mapM_map, hhead, ok_bind,
      hrest]
    rfl

/-! ### Parts of a run of bytes -/

theorem region_of_eq {part : Part} {bytes p x q : List UInt8} {offset length : Nat}
    (h : bytes = p ++ x ++ q) (hp : p.length = offset) (hx : x.length = length) :
    region part bytes offset length = .ok x := by
  subst hp hx h
  rw [region, if_pos (by simp only [List.length_append]; omega), List.append_assoc,
    List.drop_left, List.take_left]

theorem wordIn_of_eq {part : Part} {bytes p q : List UInt8} {offset : Nat} {w : UInt16}
    (h : bytes = p ++ Bytes.ofWord w ++ q) (hp : p.length = offset) :
    wordIn part bytes offset = .ok w.toNat := by
  have hword : Bytes.wordAt (Bytes.ofWord w) 0 = w :=
    Bytes.wordAt_append (p := []) (q := []) w rfl
  rw [wordIn, region_of_eq h hp (Bytes.length_ofWord w), ok_bind, hword]
  rfl

theorem nameAt_of_eq {f : Frame} {name : String} {p q : List UInt8} {offset : Nat}
    (h : f.map = p ++ nameBytes name ++ q) (hp : p.length = offset) :
    nameAt f offset = .ok (MacRoman.legible name) := by
  let encoded := (MacRoman.encode name).take 255
  have hle : encoded.length ≤ 255 := List.length_take_le ..
  have hcount : (UInt8.ofNat encoded.length).toNat = encoded.length := by
    rw [UInt8.toNat_ofNat']; omega
  have hfirst : ([UInt8.ofNat encoded.length].getD 0 0).toNat = encoded.length := hcount
  have hlength : region .nameLength f.map offset 1 = .ok [UInt8.ofNat encoded.length] :=
    region_of_eq (p := p) (q := encoded ++ q) (by rw [h]; simp [nameBytes, encoded]) hp rfl
  have hname : region .name f.map (offset + 1) encoded.length = .ok encoded :=
    region_of_eq (p := p ++ [UInt8.ofNat encoded.length]) (q := q)
      (by rw [h]; simp [nameBytes, encoded]) (by simp [hp]) rfl
  rw [nameAt, hlength, ok_bind, hfirst, hname, ok_bind, MacRoman.decode_take_encode]
  rfl

theorem dataAt_of_eq {f : Frame} {r : Resource} {p q : List UInt8} {offset : Nat}
    (h : f.data = p ++ dataText r ++ q) (hp : p.length = offset)
    (hlen : r.data.length < 4294967296) : dataAt f offset = .ok r.data := by
  have hlong : Bytes.longAt (Bytes.ofLong (UInt32.ofNat r.data.length)) 0 =
      UInt32.ofNat r.data.length := Bytes.longAt_append (p := []) (q := []) _ rfl
  have hcount : (UInt32.ofNat r.data.length).toNat = r.data.length := by
    rw [UInt32.toNat_ofNat', Nat.mod_eq_of_lt hlen]
  have hlength : region .dataLength f.data offset 4 =
      .ok (Bytes.ofLong (UInt32.ofNat r.data.length)) :=
    region_of_eq (p := p) (q := r.data ++ q) (by rw [h]; simp [dataText]) hp rfl
  have hdata : region .resourceData f.data (offset + 4) r.data.length = .ok r.data :=
    region_of_eq (p := p ++ Bytes.ofLong (UInt32.ofNat r.data.length)) (q := q)
      (by rw [h]; simp [dataText]) (by simp [hp]) rfl
  rw [dataAt, hlength, ok_bind, hlong, hcount, hdata]

/-! ### A reference -/

theorem nameWord_toNat {s : Sections} {r : Resource} (hsome : r.name.isSome = true)
    (h : s.names.length ≤ 65534) :
    nameWord s r ≠ unnamed ∧ (nameWord s r).toNat = s.names.length := by
  have hnat : (nameWord s r).toNat = s.names.length := by
    rw [nameWord, if_pos hsome, UInt16.toNat_ofNat', Nat.mod_eq_of_lt (by omega)]
  refine ⟨fun heq => ?_, hnat⟩
  rw [heq] at hnat
  have hunnamed : unnamed.toNat = 65535 := rfl
  omega

theorem dataOffset_toNat {s : Sections} (h : s.data.length < 16777216) :
    (Bytes.long 0 (UInt8.ofNat ((UInt32.ofNat s.data.length).toNat / 65536))
      (UInt8.ofNat ((UInt32.ofNat s.data.length).toNat / 256))
      (UInt8.ofNat (UInt32.ofNat s.data.length).toNat)).toNat = s.data.length := by
  have hnat : (UInt32.ofNat s.data.length).toNat = s.data.length := by
    rw [UInt32.toNat_ofNat', Nat.mod_eq_of_lt (by omega)]
  simp only [Bytes.long, hnat, UInt8.toNat_ofNat', UInt32.toNat_ofNat', UInt8.toNat_zero]
  omega

theorem resourceOf_reference {f : Frame} {s : Sections} {r : Resource} {p q p' q' : List UInt8}
    (hmap : f.map = p ++ nameText r ++ q) (hp : p.length = f.nameList + s.names.length)
    (hdata : f.data = p' ++ dataText r ++ q') (hp' : p'.length = s.data.length)
    (hname : r.name.isSome = true → s.names.length ≤ 65534) (hoffset : s.data.length < 16777216)
    (hlen : r.data.length < 4294967296) :
    resourceOf f (referenceBytes s r) = .ok r.legible := by
  have hid : Bytes.wordAt (referenceBytes s r) 0 = r.id.toUInt16 := Bytes.word_ofNat _
  have hword : Bytes.wordAt (referenceBytes s r) 2 = nameWord s r := Bytes.word_ofNat _
  have hreferenceName : referenceName f (nameWord s r) = .ok (r.name.map MacRoman.legible) := by
    cases hr : r.name with
    | none =>
      rw [nameWord, hr]
      rfl
    | some name =>
      have hsome : r.name.isSome = true := by rw [hr]; rfl
      obtain ⟨hne, hnat⟩ := nameWord_toNat hsome (hname hsome)
      have htext : nameText r = nameBytes name := by rw [nameText, hr]; rfl
      rw [htext] at hmap
      rw [referenceName, if_neg hne, hnat, nameAt_of_eq hmap hp]
      rfl
  have hdataOffset : (Bytes.long 0 ((referenceBytes s r).getD 5 0)
      ((referenceBytes s r).getD 6 0) ((referenceBytes s r).getD 7 0)).toNat = s.data.length :=
    dataOffset_toNat hoffset
  have hdataAt := dataAt_of_eq hdata hp' hlen
  simp only [resourceOf, hword, hreferenceName, ok_bind, hdataOffset, hdataAt, hid]
  rfl

/-! ### What fits -/

/-- A fork that fits the fields that hold its offsets and sizes. Where a name or the data of a
resource starts is the sum over the resources in front of it. -/
structure Fits (fork : Fork) : Prop where
  map : 30 + 8 * fork.types.length + 12 * (all fork).length ≤ 65535
  names : ∀ (i : Nat) (h : i < (all fork).length), (all fork)[i].name.isSome = true →
    (((all fork).take i).map nameSize).sum ≤ 65534
  data : ∀ i : Nat, i < (all fork).length →
    (((all fork).take i).map dataSize).sum < 16777216
  whole : (encode fork).length < 4294967296

/-- The frame of a fork that is written. -/
def written (fork : Fork) : Frame :=
  ⟨(sections fork).data, mapBytes fork (sections fork), typeListStart,
    typeListStart + referencesStart fork + (sections fork).references.length⟩

/-- What stands in a map in front of the list of types. -/
def mapHead (fork : Fork) : List UInt8 :=
  List.replicate 24 0 ++ Bytes.ofWord (UInt16.ofNat typeListStart) ++
    Bytes.ofWord
      (UInt16.ofNat
        (typeListStart + referencesStart fork + (sections fork).references.length)) ++
    Bytes.ofWord (UInt16.ofNat fork.types.length - 1)

theorem length_mapHead (fork : Fork) : (mapHead fork).length = typeListStart + 2 := rfl

theorem map_written (fork : Fork) :
    (written fork).map =
      mapHead fork ++ (sections fork).types ++ (sections fork).references ++
        (sections fork).names := rfl

theorem length_front (fork : Fork) :
    (mapHead fork ++ (sections fork).types).length = typeListStart + referencesStart fork := by
  rw [List.length_append, length_mapHead, length_types_sections, referencesStart, typeEntrySize]
  omega

section Written

variable {fork : Fork} (hsorted : fork.entries.Pairwise Entry.Before)

include hsorted

theorem region_reference {i : Nat} (hi : i < (all fork).length) :
    region .referenceEntry (written fork).map
        (typeListStart + referencesStart fork + 12 * i) referenceSize =
      .ok (referenceBytes (sectionsAt fork i) (all fork)[i]) := by
  obtain ⟨references, -, -, href, -, -⟩ := sections_at hsorted hi
  have hmap : (written fork).map =
      mapHead fork ++ (sections fork).types ++ (sectionsAt fork i).references ++
        referenceBytes (sectionsAt fork i) (all fork)[i] ++
        (references ++ (sections fork).names) := by
    rw [map_written, href]
    simp only [List.append_assoc]
  refine region_of_eq hmap ?_ rfl
  rw [List.length_append, length_front, length_references_sectionsAt (Nat.le_of_lt hi)]

variable (hfits : Fits fork)

include hfits

theorem resourceOf_written {i : Nat} (hi : i < (all fork).length) :
    resourceOf (written fork) (referenceBytes (sectionsAt fork i) (all fork)[i]) =
      .ok (all fork)[i].legible := by
  obtain ⟨-, names, data, -, hnames, hdata⟩ := sections_at hsorted hi
  have hmap : (written fork).map =
      mapHead fork ++ (sections fork).types ++ (sections fork).references ++
        (sectionsAt fork i).names ++ nameText (all fork)[i] ++ names := by
    rw [map_written, hnames]
    simp only [List.append_assoc]
  refine resourceOf_reference hmap ?_ hdata rfl ?_ ?_ ?_
  · rw [List.length_append, List.length_append, length_front]
    rfl
  · rw [length_names_sectionsAt]
    exact hfits.names i hi
  · rw [length_data_sectionsAt]
    exact hfits.data i hi
  · have hwhole := hfits.whole
    have hlength := congrArg List.length hdata
    simp only [encode, List.length_append, dataText] at hwhole hlength
    omega

omit hfits in
theorem getElem_all {before after : List TypeCode} {type : TypeCode}
    (h : fork.types = before ++ type :: after) {i : Nat} (hi : i < (fork.resources type).length) :
    ∃ hk : (before.flatMap fork.resources).length + i < (all fork).length,
      (all fork)[(before.flatMap fork.resources).length + i] = (fork.resources type)[i] := by
  have hall : all fork = before.flatMap fork.resources ++
      (fork.resources type ++ after.flatMap fork.resources) := by
    rw [← flatMap_resources hsorted, h, List.flatMap_append, List.flatMap_cons]
  have hget : (all fork)[(before.flatMap fork.resources).length + i]? =
      some (fork.resources type)[i] := by
    rw [hall, List.getElem?_append_right (Nat.le_add_right _ _), Nat.add_sub_cancel_left,
      List.getElem?_append_left hi, List.getElem?_eq_getElem hi]
  exact List.getElem?_eq_some_iff.mp hget

omit hsorted hfits in
theorem resources_length_pos {type : TypeCode} (h : type ∈ fork.types) :
    0 < (fork.resources type).length := by
  obtain ⟨e, he, htype⟩ := List.mem_map.mp ((Fork.mem_types fork type).mp h)
  have hmem : e ∈ fork.entries.filter fun e => e.type == type :=
    List.mem_filter.mpr ⟨he, by simpa using htype⟩
  rw [Fork.resources, List.length_map]
  exact List.length_pos_of_mem hmem

/-- The references of a type entry give the resources of the type. -/
theorem entriesOf_typeEntry {before after : List TypeCode} {type : TypeCode}
    (h : fork.types = before ++ type :: after) :
    entriesOf (written fork) (typeEntry type (fork.resources type).length
        (referencesStart fork + 12 * (before.flatMap fork.resources).length)) =
      .ok ((fork.resources type).map fun r => ⟨type, r.legible⟩) := by
  let count := (fork.resources type).length
  let first := (before.flatMap fork.resources).length
  let entry := typeEntry type count (referencesStart fork + 12 * first)
  have hpos : 0 < count := resources_length_pos (by rw [h]; simp)
  obtain ⟨hlast, -⟩ := getElem_all hsorted h (Nat.sub_one_lt (Nat.ne_of_gt hpos))
  have hfields := hfits.map
  have hstart : referencesStart fork = 2 + 8 * fork.types.length := by
    rw [referencesStart, typeEntrySize, Nat.mul_comm]
  have htype : Bytes.longAt entry 0 = type.code := Bytes.long_ofNat _
  have hcount : (Bytes.wordAt entry 4).toNat + 1 = count := by
    have hword : Bytes.wordAt entry 4 = UInt16.ofNat count - 1 := Bytes.word_ofNat _
    rw [hword, UInt16.toNat_sub, UInt16.toNat_ofNat', UInt16.toNat_one]
    omega
  have hlist : (Bytes.wordAt entry 6).toNat = referencesStart fork + 12 * first := by
    have hword : Bytes.wordAt entry 6 = UInt16.ofNat (referencesStart fork + 12 * first) :=
      Bytes.word_ofNat _
    rw [hword, UInt16.toNat_ofNat', Nat.mod_eq_of_lt (by omega)]
  have hlength : ((fork.resources type).map fun r => (⟨type, r.legible⟩ : Entry)).length = count :=
    List.length_map ..
  simp only [entriesOf]
  rw [hcount, hlist, htype, ← hlength]
  apply mapM_range_eq
  intro i hi
  obtain ⟨hk, hget⟩ := getElem_all hsorted h (hlength ▸ hi)
  have hregion := region_reference hsorted hk
  have hresource := resourceOf_written hsorted hfits hk
  have hoffset : (written fork).typeList + (referencesStart fork + 12 * first) + i * referenceSize =
      typeListStart + referencesStart fork + 12 * (first + i) := by
    rw [show (written fork).typeList = typeListStart from rfl, referenceSize]
    omega
  rw [hoffset, hregion, ok_bind, hresource, ok_bind, List.getElem_map, hget]
  rfl

/-- The words of a map that are read before the list of types. -/
theorem words_mapHead :
    wordIn .typeListOffset (mapBytes fork (sections fork)) 24 = .ok typeListStart ∧
      wordIn .nameListOffset (mapBytes fork (sections fork)) 26 = .ok (written fork).nameList ∧
      wordIn .typeCount (mapBytes fork (sections fork)) typeListStart =
        .ok (UInt16.ofNat fork.types.length - 1).toNat := by
  have hfields := hfits.map
  have hstart : referencesStart fork = 2 + 8 * fork.types.length := by
    rw [referencesStart, typeEntrySize, Nat.mul_comm]
  have hreferences := length_references_sections hsorted
  have hnameList : (written fork).nameList =
      28 + (2 + 8 * fork.types.length) + 12 * (all fork).length := by
    rw [← hreferences, ← hstart]
    rfl
  have hnames : (UInt16.ofNat (written fork).nameList).toNat = (written fork).nameList := by
    rw [UInt16.toNat_ofNat', Nat.mod_eq_of_lt (by omega)]
  refine ⟨?_, ?_, ?_⟩
  · exact wordIn_of_eq (p := List.replicate 24 0) (w := UInt16.ofNat typeListStart)
      (by simp only [mapBytes, List.append_assoc]; rfl) rfl
  · rw [← hnames]
    exact wordIn_of_eq
      (p := List.replicate 24 0 ++ Bytes.ofWord (UInt16.ofNat typeListStart))
      (by simp only [mapBytes, written, List.append_assoc]; rfl) rfl
  · exact wordIn_of_eq
      (p := List.replicate 24 0 ++ Bytes.ofWord (UInt16.ofNat typeListStart) ++
        Bytes.ofWord (UInt16.ofNat (written fork).nameList))
      (by simp only [mapBytes, written, List.append_assoc]; rfl) rfl

omit hsorted hfits in
theorem longs_header (a b c d : UInt32) :
    Bytes.longAt (Bytes.ofLong a ++ Bytes.ofLong b ++ Bytes.ofLong c ++ Bytes.ofLong d) 0 = a ∧
      Bytes.longAt (Bytes.ofLong a ++ Bytes.ofLong b ++ Bytes.ofLong c ++ Bytes.ofLong d) 4 = b ∧
      Bytes.longAt (Bytes.ofLong a ++ Bytes.ofLong b ++ Bytes.ofLong c ++ Bytes.ofLong d) 8 = c ∧
      Bytes.longAt (Bytes.ofLong a ++ Bytes.ofLong b ++ Bytes.ofLong c ++ Bytes.ofLong d) 12 = d :=
  ⟨Bytes.long_ofNat a, Bytes.long_ofNat b, Bytes.long_ofNat c, Bytes.long_ofNat d⟩

omit hsorted hfits in
theorem frame_of_header {bytes header : List UInt8}
    (h : region .header bytes 0 16 = .ok header) :
    frame bytes = (do
      let data ← region .dataSection bytes (Bytes.longAt header 0).toNat
        (Bytes.longAt header 8).toNat
      let map ← region .resourceMap bytes (Bytes.longAt header 4).toNat
        (Bytes.longAt header 12).toNat
      let typeList ← wordIn .typeListOffset map 24
      let nameList ← wordIn .nameListOffset map 26
      return ⟨data, map, typeList, nameList⟩) := by
  rw [frame, h, ok_bind]

theorem frame_encode : frame (encode fork) = .ok (written fork) := by
  let s := sections fork
  let map := mapBytes fork s
  let header := Bytes.ofLong (UInt32.ofNat dataStart) ++
    Bytes.ofLong (UInt32.ofNat (dataStart + s.data.length)) ++
    Bytes.ofLong (UInt32.ofNat s.data.length) ++ Bytes.ofLong (UInt32.ofNat map.length)
  let gap : List UInt8 := List.replicate (dataStart - header.length) 0
  have hbytes : encode fork = header ++ gap ++ s.data ++ map := rfl
  have hheader : header.length = 16 := rfl
  have hstart : (header ++ gap).length = dataStart := by
    rw [List.length_append, List.length_replicate, hheader]
    rfl
  have hwhole := hfits.whole
  rw [hbytes, List.length_append, List.length_append, hstart, dataStart] at hwhole
  have hfields := hfits.map
  have hnat {n : Nat} (h : n < 4294967296) : (UInt32.ofNat n).toNat = n := by
    rw [UInt32.toNat_ofNat', Nat.mod_eq_of_lt h]
  obtain ⟨h₀, h₄, h₈, h₁₂⟩ := longs_header (UInt32.ofNat dataStart)
    (UInt32.ofNat (dataStart + s.data.length)) (UInt32.ofNat s.data.length)
    (UInt32.ofNat map.length)
  have hdataOffset : (Bytes.longAt header 0).toNat = dataStart := by
    rw [h₀, hnat (by decide)]
  have hmapOffset : (Bytes.longAt header 4).toNat = dataStart + s.data.length := by
    rw [h₄, hnat (by rw [dataStart]; omega)]
  have hdataLength : (Bytes.longAt header 8).toNat = s.data.length := by
    rw [h₈, hnat (by omega)]
  have hmapLength : (Bytes.longAt header 12).toNat = map.length := by
    rw [h₁₂, hnat (by omega)]
  have hregion : region .header (encode fork) 0 16 = .ok header :=
    region_of_eq (p := []) (q := gap ++ s.data ++ map) (by rw [hbytes]; simp) rfl hheader
  have hdata : region .dataSection (encode fork) dataStart s.data.length = .ok s.data :=
    region_of_eq hbytes hstart rfl
  have hmap : region .resourceMap (encode fork) (dataStart + s.data.length) map.length = .ok map :=
    region_of_eq (p := header ++ gap ++ s.data) (q := []) (by rw [hbytes, List.append_nil])
      (by rw [List.length_append, hstart]) rfl
  obtain ⟨htypeList, hnameList, -⟩ := words_mapHead hsorted hfits
  rw [frame_of_header hregion, hdataOffset, hmapOffset, hdataLength, hmapLength, hdata, ok_bind,
    hmap, ok_bind, htypeList, ok_bind, hnameList, ok_bind]
  rfl

theorem typeCount_written : typeCount (written fork) = .ok fork.types.length := by
  obtain ⟨-, -, hcount⟩ := words_mapHead hsorted hfits
  have hfields := hfits.map
  have hword : ((UInt16.ofNat fork.types.length - 1).toNat + 1) % 65536 = fork.types.length := by
    rw [UInt16.toNat_sub, UInt16.toNat_ofNat', UInt16.toNat_one]
    omega
  have hstored : wordIn .typeCount (written fork).map (written fork).typeList =
      .ok (UInt16.ofNat fork.types.length - 1).toNat := hcount
  rw [typeCount, hstored, ok_bind, hword]
  rfl

theorem region_typeEntry {i : Nat} (hi : i < fork.types.length) :
    (do
      let entry ← region .typeEntry (written fork).map
        ((written fork).typeList + 2 + i * typeEntrySize) typeEntrySize
      entriesOf (written fork) entry) =
      .ok ((fork.resources fork.types[i]).map fun r => ⟨fork.types[i], r.legible⟩) := by
  have htypes : fork.types =
      fork.types.take i ++ fork.types[i] :: fork.types.drop (i + 1) := by
    rw [List.getElem_cons_drop, List.take_append_drop]
  obtain ⟨front, back, hentry, hfront⟩ := types_sections htypes
  rw [List.length_take, Nat.min_eq_left (Nat.le_of_lt hi)] at hfront
  have hmap : (written fork).map = mapHead fork ++ front ++
      typeEntry fork.types[i] (fork.resources fork.types[i]).length
        (referencesStart fork + 12 * ((fork.types.take i).flatMap fork.resources).length) ++
      (back ++ (sections fork).references ++ (sections fork).names) := by
    rw [map_written, hentry]
    simp only [List.append_assoc]
  have hoffset : (mapHead fork ++ front).length =
      (written fork).typeList + 2 + i * typeEntrySize := by
    rw [List.length_append, length_mapHead, hfront, typeEntrySize, Nat.mul_comm]
    rfl
  have hregion : region .typeEntry (written fork).map
      ((written fork).typeList + 2 + i * typeEntrySize) typeEntrySize =
        .ok (typeEntry fork.types[i] (fork.resources fork.types[i]).length
          (referencesStart fork + 12 * ((fork.types.take i).flatMap fork.resources).length)) :=
    region_of_eq hmap hoffset (length_typeEntry ..)
  rw [hregion, ok_bind, entriesOf_typeEntry hsorted hfits htypes]

omit hfits hsorted in
theorem map_ofType_legible (l : List Entry) (type : TypeCode) :
    ((Fork.ofType l type).map Entry.resource).map (fun r => (⟨type, r.legible⟩ : Entry)) =
      (Fork.ofType l type).map Entry.legible := by
  rw [List.map_map]
  apply List.map_congr_left
  intro e he
  have htype : e.type = type := by simpa using (List.mem_filter.mp he).2
  rw [Function.comp_apply, Entry.legible, htype]

theorem decode_encode_of_fits :
    decode (encode fork) = .ok ⟨fork.entries.map Entry.legible⟩ := by
  have hentries : (fork.types.map fun type =>
      (fork.resources type).map fun r => (⟨type, r.legible⟩ : Entry)).flatten =
        fork.entries.map Entry.legible := by
    conv => rhs; rw [← Fork.flatMap_ofType fork.entries hsorted]
    rw [List.map_flatMap, List.flatMap_def]
    congr 1
    apply List.map_congr_left
    intro type _
    exact map_ofType_legible fork.entries type
  have hread := mapM_range_eq
    (l := fork.types.map fun type =>
      (fork.resources type).map fun r => (⟨type, r.legible⟩ : Entry))
    (f := fun i => do
      let entry ← region .typeEntry (written fork).map
        ((written fork).typeList + 2 + i * typeEntrySize) typeEntrySize
      entriesOf (written fork) entry)
    fun i hi => by
      rw [List.getElem_map]
      exact region_typeEntry hsorted hfits (by simpa using hi)
  have hlegible : (fork.entries.map Entry.legible).Pairwise Entry.Before :=
    List.pairwise_map.mpr hsorted
  rw [List.length_map] at hread
  rw [decode, frame_encode hsorted hfits, ok_bind, typeCount_written hsorted hfits, ok_bind, hread,
    ok_bind, hentries, Fork.ofEntries_of_sorted hlegible]
  rfl

end Written

/-! ### Resources added one by one -/

/-- A resource as it is added to a fork that is to be written. -/
structure Addition where
  type : TypeCode
  id : Int16
  name : Option String
  data : List UInt8
  deriving DecidableEq

def Addition.entry (a : Addition) : Entry := ⟨a.type, ⟨a.id, a.name, 0, a.data⟩⟩

def forkOf (additions : List Addition) : Fork := .ofEntries (additions.map Addition.entry)

/-- The last addition under a type and id. -/
def lastAdded (additions : List Addition) (type : TypeCode) (id : Int16) : Option Addition :=
  (additions.filter fun a => a.type == type && a.id == id).getLast?

theorem get?_forkOf (additions : List Addition) (type : TypeCode) (id : Int16) :
    (forkOf additions).get? type id =
      (lastAdded additions type id).map fun a => ⟨id, a.name, 0, a.data⟩ := by
  have hfilter : (additions.map Addition.entry).filter (Entry.answers type id) =
      (additions.filter fun a => a.type == type && a.id == id).map Addition.entry := by
    rw [List.filter_map]
    rfl
  rw [forkOf, Fork.get?_ofEntries, Fork.last?, hfilter, List.getLast?_map, Option.map_map,
    lastAdded]
  cases hlast : (additions.filter fun a => a.type == type && a.id == id).getLast? with
  | none => rfl
  | some a =>
    have hid : a.id = id := by
      have hmem := (List.mem_filter.mp (List.mem_of_getLast? hlast)).2
      simp only [Bool.and_eq_true, beq_iff_eq] at hmem
      exact hmem.2
    rw [← hid]
    rfl

theorem get?_map_legible (fork : Fork) (type : TypeCode) (id : Int16) :
    (⟨fork.entries.map Entry.legible⟩ : Fork).get? type id =
      (fork.get? type id).map Resource.legible := by
  rw [Fork.get?_eq, Fork.get?_eq, List.find?_map, Option.map_map, Option.map_map]
  rfl

theorem types_map_legible (fork : Fork) :
    (⟨fork.entries.map Entry.legible⟩ : Fork).types = fork.types := by
  rw [Fork.types, Fork.types, List.map_map]
  rfl

/-- The round trip of a fork. Under each type and id the last addition is found, with its data and
what is left of its name, and the types are those of the additions, in their order. -/
theorem get?_decode_encode (additions : List Addition) (h : Fits (forkOf additions)) :
    ∃ fork, decode (encode (forkOf additions)) = .ok fork ∧
      (∀ (type : TypeCode) (id : Int16), fork.get? type id =
        (lastAdded additions type id).map fun a =>
          ⟨id, a.name.map MacRoman.legible, 0, a.data⟩) ∧
      (∀ type : TypeCode, type ∈ fork.types ↔ ∃ a ∈ additions, a.type = type) ∧
      fork.types.Pairwise fun s t => s.code < t.code := by
  have hsorted := Fork.sorted_ofEntries (additions.map Addition.entry)
  refine ⟨_, decode_encode_of_fits hsorted h, fun type id => ?_, fun type => ?_, ?_⟩
  · rw [get?_map_legible, get?_forkOf, Option.map_map]
    rfl
  · rw [types_map_legible, forkOf, Fork.mem_types_ofEntries, List.map_map, List.mem_map]
    rfl
  · rw [types_map_legible]
    exact Fork.pairwise_types hsorted

/-- A resource that is replaced, and one of another type that has a name. -/
theorem get?_decode_encode_replaced :
    Fits (forkOf [⟨.pict, 128, none, [1, 2]⟩, ⟨⟨7⟩, -1, some "wall", []⟩,
        ⟨.pict, 128, none, [3]⟩]) ∧
      ∃ fork, decode (encode (forkOf [⟨.pict, 128, none, [1, 2]⟩, ⟨⟨7⟩, -1, some "wall", []⟩,
          ⟨.pict, 128, none, [3]⟩])) = .ok fork ∧
        fork.get? .pict 128 = some ⟨128, none, 0, [3]⟩ ∧
        fork.get? ⟨7⟩ (-1) = some ⟨-1, some "wall", 0, []⟩ ∧
        fork.get? ⟨7⟩ 128 = none := by
  have hfits : Fits (forkOf [⟨.pict, 128, none, [1, 2]⟩, ⟨⟨7⟩, -1, some "wall", []⟩,
      ⟨.pict, 128, none, [3]⟩]) :=
    ⟨by decide, by decide, by decide, by decide +kernel⟩
  refine ⟨hfits, ?_⟩
  obtain ⟨fork, hread, hget, -, -⟩ := get?_decode_encode _ hfits
  refine ⟨fork, hread, ?_, ?_, ?_⟩
  · rw [hget]
    decide
  · rw [hget]
    decide
  · rw [hget]
    decide

end Container
end Floorplan

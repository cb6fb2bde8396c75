import Mathlib.Data.List.Nodup
import Mathlib.Data.List.Perm.Basic
import Floorplan.Proofs.Script.Growth
import Floorplan.Proofs.Script.Outcome

/-!
# Floorplan.Proofs.Script.Fields

What the fields of an object block come to. An object reads of each of its keys the last value, and
nothing if that is malformed (`Fields.accepted?`); of each of its keys a malformed last value is
reported (`Object.problems_ofFields`), and then each key that it does not have. So neither the order
of the keys matters nor the values that another one of the same key follows
(`Object.close_of_values`).
-/

namespace Floorplan

namespace Fields

/-! ### Values of a key -/

/-- The values of a key, in order. -/
def values (fields : Fields) (key : String) : List String :=
  (fields.pairs.filter fun pair => pair.1 == key).map Prod.snd

def without (fields : Fields) (key : String) : Fields :=
  ⟨fields.pairs.filter fun pair => pair.1 != key⟩

/-- The pairs without those of a key that another one of it follows. -/
def keepLastPair (key : String) : List (String × String) → List (String × String)
  | [] => []
  | pair :: pairs =>
    if pair.1 = key ∧ ∃ other ∈ pairs, other.1 = key then keepLastPair key pairs
    else pair :: keepLastPair key pairs

/-- The fields with the last value of a key only, where it stands. -/
def keepLast (fields : Fields) (key : String) : Fields := ⟨keepLastPair key fields.pairs⟩

theorem last?_eq (fields : Fields) (key : String) :
    fields.last? key = (fields.values key).getLast? := by
  simp [last?, values, List.getLast?_map]

/-- Pairs are in the same order but for those of different keys. -/
theorem perm_of_values {fields fields' : Fields}
    (h : ∀ key, fields.values key = fields'.values key) : fields.pairs.Perm fields'.pairs := by
  have hcount : ∀ (fields : Fields) (key value : String),
      fields.pairs.count (key, value) = (fields.values key).count value := by
    intro fields key value
    simp only [values, List.count, List.countP_map, List.countP_filter]
    apply List.countP_congr
    rintro ⟨key', value'⟩ -
    simp [and_comm]
  rw [List.perm_iff_count]
  rintro ⟨key, value⟩
  rw [hcount, hcount, h]

theorem last?_without (fields : Fields) (key : String) : (fields.without key).last? key = none := by
  simp [last?, without]

theorem last?_without_of_ne (fields : Fields) {key other : String} (h : other ≠ key) :
    (fields.without key).last? other = fields.last? other := by
  have hfilter : ∀ pair : String × String,
      (pair.1 == other && pair.1 != key) = (pair.1 == other) := by
    intro pair
    by_cases heq : pair.1 = other
    · simp [heq, h]
    · simp [heq]
  simp only [last?, without, List.filter_filter, hfilter]

theorem others_without (fields : Fields) {key : String} {keys : List String} (h : key ∈ keys) :
    (fields.without key).others keys = fields.others keys := by
  have hfilter : ∀ pair : String × String,
      (!keys.contains pair.1 && pair.1 != key) = !keys.contains pair.1 := by
    intro pair
    by_cases heq : pair.1 = key
    · simp [heq, h]
    · simp [heq]
  simp only [others, without, List.filter_filter, hfilter]

/-- The pairs of other keys stay. -/
theorem filter_keepLastPair {key : String} {p : String × String → Bool}
    (hp : ∀ pair, pair.1 = key → p pair = false) (pairs : List (String × String)) :
    (keepLastPair key pairs).filter p = pairs.filter p := by
  induction pairs with
  | nil => rfl
  | cons pair pairs ih =>
    unfold keepLastPair
    split
    · next hdrop =>
      rw [ih, List.filter_cons, hp pair hdrop.1]
      rfl
    · rw [List.filter_cons, List.filter_cons, ih]

/-- Of the pairs of the key only the last one stays. -/
theorem filter_keepLastPair_self (key : String) (pairs : List (String × String)) :
    (keepLastPair key pairs).filter (fun pair => pair.1 == key) =
      (pairs.filter fun pair => pair.1 == key).getLast?.toList := by
  induction pairs with
  | nil => rfl
  | cons pair pairs ih =>
    by_cases hkey : pair.1 = key
    · have hself : (pair.1 == key) = true := by simpa using hkey
      by_cases hmore : ∃ other ∈ pairs, other.1 = key
      · -- the last one is among the others, so this one can go
        have hsome : pairs.filter (fun pair => pair.1 == key) ≠ [] := by
          simpa [List.filter_eq_nil_iff] using hmore
        rw [keepLastPair, if_pos ⟨hkey, hmore⟩, ih, List.filter_cons, if_pos hself,
          List.getLast?_cons_of_ne_nil hsome]
      · have hnone : pairs.filter (fun pair => pair.1 == key) = [] := by
          rw [List.filter_eq_nil_iff]
          intro other hother hsame
          exact hmore ⟨other, hother, beq_iff_eq.mp hsame⟩
        rw [hnone] at ih
        rw [keepLastPair, if_neg (fun h => hmore h.2), List.filter_cons, if_pos hself, ih,
          List.filter_cons, if_pos hself, hnone]
        rfl
    · have hother : ¬ (pair.1 == key) = true := by simpa using hkey
      rw [keepLastPair, if_neg (fun h => hkey h.1), List.filter_cons, if_neg hother, ih,
        List.filter_cons, if_neg hother]

theorem last?_keepLast (fields : Fields) (key other : String) :
    (fields.keepLast key).last? other = fields.last? other := by
  unfold last? keepLast
  by_cases h : other = key
  · subst h
    rw [filter_keepLastPair_self]
    cases (fields.pairs.filter fun pair => pair.1 == other).getLast? <;> rfl
  · rw [filter_keepLastPair]
    intro pair hpair
    rw [hpair]
    simpa using Ne.symm h

theorem others_keepLast (fields : Fields) {key : String} {keys : List String} (h : key ∈ keys) :
    (fields.keepLast key).others keys = fields.others keys := by
  apply filter_keepLastPair
  intro pair hpair
  simp [hpair, h]

/-! ### Values that are read -/

/-- What the value of a key has to be. -/
inductive Form where
  | decimal
  | count
  | flag
  | shape
  deriving DecidableEq

def Form.ofKey (key : String) : Form :=
  if key ∈ ["mask", "grenades", "missiles", "boosters"] then .count
  else if key ∈ ["transparent", "hostile"] then .flag
  else if key = "shape" then .shape
  else .decimal

/-- Whether a text can be read as a value of the form. Any text names a shape. -/
def Form.admits (form : Form) (text : String) : Bool :=
  match form with
  | decimal => (Decimal.parse text).toOption.isSome
  | count => (Numeral.unsigned? 4294967295 text).isSome
  | flag => ["1", "true", "yes", "0", "false", "no"].contains
      (String.ofList (text.toList.map Char.toLower))
  | shape => true

/-- What is wrong with a value of a key that is not of its form. -/
def malformed (key value : String) : SyntaxFault :=
  match Form.ofKey key with
  | .flag => .notFlag key value
  | _ => .invalidValue key value

/-- The last value of a key, if it can be read. -/
def accepted? (fields : Fields) (key : String) : Option String :=
  (fields.last? key).filter (Form.ofKey key).admits

/-- What is reported of the last value of a key: nothing if there is none, or if it can be read. -/
def complaints (fields : Fields) (key : String) : List Problem :=
  ((fields.last? key).filter fun value => !(Form.ofKey key).admits value).toList.map fun value =>
    .malformed (malformed key value)

/-- A reader takes the values of a key that are of its form, and complains of the others. -/
structure Reads {α : Type} (key : String) (parse : String → Except SyntaxFault α) : Prop where
  admitted : ∀ {text}, (Form.ofKey key).admits text = true → ∃ value, parse text = .ok value
  refused : ∀ {text}, (Form.ofKey key).admits text = false →
    parse text = .error (malformed key text)

theorem read_eq {α : Type} {key : String} {parse : String → Except SyntaxFault α}
    (h : Reads key parse) (fields : Fields) :
    fields.read key parse =
      ((fields.accepted? key).bind fun text => (parse text).toOption, fields.complaints key) := by
  unfold read accepted? complaints
  cases fields.last? key with
  | none => rfl
  | some text =>
    cases hadmits : (Form.ofKey key).admits text with
    | true =>
      obtain ⟨value, hvalue⟩ := h.admitted hadmits
      simp [Option.filter, hadmits, hvalue, Except.toOption]
    | false => simp [Option.filter, hadmits, h.refused hadmits]

/-- A value that is there or not: what is malformed is so because it has no value. -/
theorem reads_valid {α : Type} {key : String} {parse : String → Option α}
    (hadmits : ∀ text, (Form.ofKey key).admits text = (parse text).isSome)
    (hflag : Form.ofKey key ≠ .flag) : Reads key (valid key parse) where
  admitted {text} h := by
    rw [hadmits] at h
    obtain ⟨value, hvalue⟩ := Option.isSome_iff_exists.mp h
    exact ⟨value, by simp [valid, hvalue]⟩
  refused {text} h := by
    rw [hadmits] at h
    have hmalformed : malformed key text = .invalidValue key text := by
      unfold malformed
      split
      · next hform => exact absurd hform hflag
      · rfl
    have hnone : parse text = none := by simpa using h
    rw [hmalformed, valid, hnone]

theorem reads_flag {key : String} (h : Form.ofKey key = .flag) : Reads key (parseFlag key) where
  admitted {text} hadmits := by
    unfold parseFlag
    dsimp only
    split
    · exact ⟨_, rfl⟩
    · split
      · exact ⟨_, rfl⟩
      · simp_all [Form.admits]
  refused {text} hadmits := by
    rw [h, Form.admits, List.contains_eq_mem, decide_eq_false_iff_not] at hadmits
    have htrue : ¬ ["1", "true", "yes"].contains
        (String.ofList (text.toList.map Char.toLower)) = true := by
      simp_all
    have hfalse : ¬ ["0", "false", "no"].contains
        (String.ofList (text.toList.map Char.toLower)) = true := by
      simp_all
    rw [malformed, h, parseFlag]
    exact (if_neg htrue).trans (if_neg hfalse)

theorem decimal_eq (fields : Fields) (key : String) (h : Form.ofKey key = .decimal) :
    fields.decimal key =
      ((fields.accepted? key).bind fun text =>
        (valid key (fun text => (Decimal.parse text).toOption) text).toOption,
        fields.complaints key) :=
  read_eq (reads_valid (fun text => by rw [h]; rfl) (by simp [h])) fields

theorem count_eq (fields : Fields) (key : String) (h : Form.ofKey key = .count) :
    fields.count key =
      ((fields.accepted? key).bind fun text =>
        (valid key (Numeral.unsigned? 4294967295) text).toOption,
        fields.complaints key) :=
  read_eq (reads_valid (fun text => by rw [h]; rfl) (by simp [h])) fields

theorem flag_eq (fields : Fields) (key : String) (h : Form.ofKey key = .flag) :
    fields.flag key =
      ((fields.accepted? key).bind fun text => (parseFlag key text).toOption,
        fields.complaints key) :=
  read_eq (reads_flag h) fields

theorem last?_shape (fields : Fields) : fields.last? "shape" = fields.accepted? "shape" := by
  unfold accepted?
  cases fields.last? "shape" <;> rfl

theorem complaints_shape (fields : Fields) : fields.complaints "shape" = [] := by
  unfold complaints
  cases fields.last? "shape" <;> rfl

theorem complaints_congr {fields fields' : Fields} {key : String}
    (h : fields.last? key = fields'.last? key) :
    fields.complaints key = fields'.complaints key := by
  unfold complaints
  rw [h]

theorem accepted?_congr {fields fields' : Fields} {key : String}
    (h : fields.last? key = fields'.last? key) :
    fields.accepted? key = fields'.accepted? key := by
  unfold accepted?
  rw [h]

theorem effects_congr {fields fields' : Fields}
    (h : ∀ key ∈ effectsKeys, fields.accepted? key = fields'.accepted? key) :
    fields.effects.1 = fields'.effects.1 := by
  simp only [effectsKeys, List.forall_mem_cons] at h
  obtain ⟨hmask, hmass, htransparent, hhostile, -⟩ := h
  simp only [effects, count_eq _ "mask" rfl, decimal_eq _ "mass" rfl, flag_eq _ "transparent" rfl,
    flag_eq _ "hostile" rfl, hmask, hmass, htransparent, hhostile]

theorem problems_effects (fields : Fields) :
    fields.effects.2 = effectsKeys.flatMap fields.complaints := by
  simp only [effects, count_eq _ "mask" rfl, decimal_eq _ "mass" rfl, flag_eq _ "transparent" rfl,
    flag_eq _ "hostile" rfl, effectsKeys, List.flatMap_cons, List.flatMap_nil, List.append_nil,
    List.append_assoc]

end Fields

namespace Object

open Fields

/-- An object is made of the values that can be read, of its own keys. -/
theorem ofFields_congr (kind : ObjectKind) {fields fields' : Fields}
    (h : ∀ key ∈ kind.keys, fields.accepted? key = fields'.accepted? key) :
    (ofFields kind fields).1 = (ofFields kind fields').1 := by
  cases kind with
  | incarnator =>
    simp only [ObjectKind.keys, List.forall_mem_cons] at h
    obtain ⟨hy, -⟩ := h
    simp only [ofFields, decimal_eq _ "y" rfl, hy]
  | goody =>
    simp only [ObjectKind.keys, List.forall_mem_append, List.forall_mem_cons] at h
    obtain ⟨heffects, hy, hshape, hgrenades, hmissiles, hboosters, hspeed, -⟩ := h
    simp only [ofFields, effects_congr heffects, decimal_eq _ "y" rfl, last?_shape,
      count_eq _ "grenades" rfl, count_eq _ "missiles" rfl, count_eq _ "boosters" rfl,
      decimal_eq _ "speed" rfl, hy, hshape, hgrenades, hmissiles, hboosters, hspeed]
  | ramp =>
    simp only [ObjectKind.keys, List.forall_mem_append, List.forall_mem_cons] at h
    obtain ⟨heffects, hrise, hy, hthickness, -⟩ := h
    simp only [ofFields, effects_congr heffects, decimal_eq _ "deltaY" rfl, decimal_eq _ "y" rfl,
      decimal_eq _ "thickness" rfl, hrise, hy, hthickness]
  | wall =>
    simp only [ObjectKind.keys, List.forall_mem_append, List.forall_mem_cons] at h
    obtain ⟨heffects, hy, hheight, -⟩ := h
    simp only [ofFields, effects_congr heffects, decimal_eq _ "y" rfl, decimal_eq _ "height" rfl,
      hy, hheight]

/-- An object complains of its keys in turn. -/
theorem problems_ofFields (kind : ObjectKind) (fields : Fields) :
    (ofFields kind fields).2 = kind.keys.flatMap fields.complaints := by
  cases kind with
  | incarnator =>
    simp only [ofFields, decimal_eq _ "y" rfl, ObjectKind.keys, List.flatMap_cons,
      List.flatMap_nil, List.append_nil]
  | goody =>
    simp only [ofFields, Fields.problems_effects, decimal_eq _ "y" rfl, count_eq _ "grenades" rfl,
      count_eq _ "missiles" rfl, count_eq _ "boosters" rfl, decimal_eq _ "speed" rfl,
      ObjectKind.keys, List.flatMap_append, List.flatMap_cons, List.flatMap_nil, complaints_shape,
      List.nil_append, List.append_nil, List.append_assoc]
  | ramp =>
    simp only [ofFields, Fields.problems_effects, decimal_eq _ "deltaY" rfl, decimal_eq _ "y" rfl,
      decimal_eq _ "thickness" rfl, ObjectKind.keys, List.flatMap_append, List.flatMap_cons,
      List.flatMap_nil, List.append_nil, List.append_assoc]
  | wall =>
    simp only [ofFields, Fields.problems_effects, decimal_eq _ "y" rfl, decimal_eq _ "height" rfl,
      ObjectKind.keys, List.flatMap_append, List.flatMap_cons, List.flatMap_nil, List.append_nil,
      List.append_assoc]

/-- Nothing but the last values of its keys counts for an object. -/
theorem ofFields_of_last? (kind : ObjectKind) {fields fields' : Fields}
    (h : ∀ key ∈ kind.keys, fields'.last? key = fields.last? key) :
    ofFields kind fields' = ofFields kind fields := by
  apply Prod.ext
  · exact ofFields_congr kind fun key hkey => accepted?_congr (h key hkey)
  · rw [problems_ofFields, problems_ofFields]
    exact List.flatMap_congr fun key hkey => complaints_congr (h key hkey)

/-- What is reported of a key that objects of a kind do not have. -/
def stray (kind : ObjectKind) (pair : String × String) : Problem :=
  .malformed (.unknownField kind.text pair.1)

/-- An object block places its object, and complains of the values of its keys and then of each
other key. -/
theorem close_text_eq (kind : ObjectKind) (fields : Fields) (d : Draft) :
    close kind.text fields d =
      ((ofFields kind fields).1.place d).reportAll
        ((ofFields kind fields).2 ++ (fields.others kind.keys).map (stray kind)) := by
  unfold close
  rw [ofText?_text]
  simp only [Draft.reportAll, List.append_assoc]
  rfl

theorem nodup_keys (kind : ObjectKind) : kind.keys.Nodup := by
  cases kind <;> decide

end Object

/-- The second draft is the first one with one more problem, somewhere among the others. -/
def Draft.Adds (p : Problem) (d e : Draft) : Prop :=
  ∃ before after, d.problems = before ++ after ∧ e = { d with problems := before ++ p :: after }

theorem Draft.adds_reportAll (d : Draft) (before : List Problem) (p : Problem)
    (after : List Problem) :
    Adds p (d.reportAll (before ++ after)) (d.reportAll (before ++ p :: after)) := by
  refine ⟨d.problems ++ before, after, ?_, ?_⟩
  · simp only [reportAll, List.append_assoc]
  · simp only [reportAll, List.append_assoc]

namespace Object

open Fields

/-! ### Objects with other fields -/

/-- In another order of its keys an object is the same, and so are its complaints but for the order
of those about keys that it does not have. -/
theorem close_reordered {fields fields' : Fields}
    (h : ∀ key, fields.values key = fields'.values key) (kind : String) (d : Draft) :
    ∃ (e : Draft) (ps ps' : List Problem), ps.Perm ps' ∧ d.problems <+: e.problems ∧
      close kind fields d = e.reportAll ps ∧ close kind fields' d = e.reportAll ps' := by
  have hlast : ∀ key, fields'.last? key = fields.last? key := by
    intro key
    rw [last?_eq, last?_eq, h]
  by_cases hknown : ∃ known : ObjectKind, kind = known.text
  · obtain ⟨known, rfl⟩ := hknown
    have hobject := ofFields_of_last? known fun key _ => hlast key
    have hothers : (fields.others known.keys).Perm (fields'.others known.keys) :=
      (perm_of_values h).filter _
    refine ⟨(ofFields known fields).1.place d, _,
      (ofFields known fields).2 ++ (fields'.others known.keys).map (stray known), ?_,
      (outcome_place _ d).grows.problems, close_text_eq known fields d, ?_⟩
    · exact (hothers.map (stray known)).append_left (ofFields known fields).2
    · rw [close_text_eq, hobject]
  · have hunknown : ∀ known : ObjectKind, kind ≠ known.text :=
      fun known heq => hknown ⟨known, heq⟩
    exact ⟨d, [.malformed (.unknownKind kind)], _, .refl _, List.prefix_rfl,
      close_unknown kind fields d hunknown, close_unknown kind fields' d hunknown⟩

/-- Of the values of a key only the last one counts. -/
theorem close_keepLast {kind : ObjectKind} {key : String} (h : key ∈ kind.keys) (fields : Fields)
    (d : Draft) : close kind.text (fields.keepLast key) d = close kind.text fields d := by
  have hobject := ofFields_of_last? kind fun other _ => last?_keepLast fields key other
  rw [close_text_eq, close_text_eq, hobject, others_keepLast fields h]

/-- A malformed value is reported, and that is all that comes of its key. -/
theorem close_malformed {kind : ObjectKind} {key value : String} (h : key ∈ kind.keys)
    {fields : Fields} (hlast : fields.last? key = some value)
    (hvalue : (Form.ofKey key).admits value = false) (d : Draft) :
    (close kind.text (fields.without key) d).Adds (.malformed (malformed key value))
      (close kind.text fields d) := by
  have hsame : ∀ {other}, other ≠ key →
      (fields.without key).last? other = fields.last? other :=
    fun hne => last?_without_of_ne fields hne
  have hobject : (ofFields kind (fields.without key)).1 = (ofFields kind fields).1 := by
    apply ofFields_congr
    intro other _
    by_cases hne : other = key
    · subst hne
      simp [accepted?, last?_without, hlast, hvalue, Option.filter]
    · exact accepted?_congr (hsame hne)
  obtain ⟨before, after, hkeys⟩ := List.append_of_mem h
  have hnodup := nodup_keys kind
  rw [hkeys, List.nodup_middle, List.nodup_cons, List.mem_append, not_or] at hnodup
  obtain ⟨⟨hbefore, hafter⟩, -⟩ := hnodup
  have hrest : ∀ keys : List String, key ∉ keys →
      keys.flatMap (fields.without key).complaints = keys.flatMap fields.complaints := by
    intro keys hkey
    apply List.flatMap_congr
    intro other hother
    exact complaints_congr (hsame fun heq => hkey (heq ▸ hother))
  have hnone : (fields.without key).complaints key = [] := by
    simp [complaints, last?_without]
  have hone : fields.complaints key = [.malformed (malformed key value)] := by
    simp [complaints, hlast, hvalue, Option.filter]
  rw [close_text_eq, close_text_eq, hobject, others_without fields h, problems_ofFields,
    problems_ofFields, hkeys]
  simp only [List.flatMap_append, List.flatMap_cons, hrest before hbefore, hrest after hafter,
    hnone, hone, List.nil_append, List.append_assoc, List.singleton_append]
  exact Draft.adds_reportAll ..

/-- A key that objects of the kind do not have is reported, and that is all that comes of it. -/
theorem close_stray {kind : ObjectKind} {key : String} (h : key ∉ kind.keys)
    (front back : List (String × String)) (value : String) (d : Draft) :
    (close kind.text ⟨front ++ back⟩ d).Adds (.malformed (.unknownField kind.text key))
      (close kind.text ⟨front ++ (key, value) :: back⟩ d) := by
  have hsame : ∀ other ∈ kind.keys,
      last? ⟨front ++ (key, value) :: back⟩ other = last? ⟨front ++ back⟩ other := by
    intro other hother
    have hne : key ≠ other := fun heq => h (heq ▸ hother)
    simp [last?, hne]
  have hothers : others ⟨front ++ (key, value) :: back⟩ kind.keys =
      others ⟨front⟩ kind.keys ++ (key, value) :: others ⟨back⟩ kind.keys := by
    simp [others, h]
  have hothers' : others ⟨front ++ back⟩ kind.keys =
      others ⟨front⟩ kind.keys ++ others ⟨back⟩ kind.keys := by
    simp [others]
  rw [close_text_eq, close_text_eq, ofFields_of_last? kind hsame, hothers, hothers']
  simp only [List.map_append, List.map_cons, ← List.append_assoc]
  exact Draft.adds_reportAll ..

/-- Only the values that each key has in turn count for an object. In another order of the keys the
object is the same, and what is reported of it too but for the order. Of the values of a key that
objects of the kind have only the last one counts; if that is malformed, this is reported, once, and
the key counts as absent. Each pair of another key is reported, once, and does nothing else. -/
theorem close_of_values :
    (∀ (kind : String) (fields fields' : Fields),
      (∀ key, fields.values key = fields'.values key) → ∀ d : Draft,
        ∃ added added' : List Problem, added.Perm added' ∧
          (close kind fields d).problems = d.problems ++ added ∧
          close kind fields' d =
            { close kind fields d with problems := d.problems ++ added' }) ∧
    ∀ (kind : ObjectKind) (fields : Fields) (key : String) (d : Draft),
      (key ∈ kind.keys →
        close kind.text (fields.keepLast key) d = close kind.text fields d ∧
        ∀ value, (fields.values key).getLast? = some value →
          (Form.ofKey key).admits value = false →
          (close kind.text (fields.without key) d).Adds (.malformed (malformed key value))
            (close kind.text fields d)) ∧
      (key ∉ kind.keys → ∀ front value back, fields.pairs = front ++ (key, value) :: back →
        (close kind.text ⟨front ++ back⟩ d).Adds (.malformed (.unknownField kind.text key))
          (close kind.text fields d)) := by
  constructor
  · intro kind fields fields' h d
    obtain ⟨e, ps, ps', hperm, ⟨qs, hqs⟩, hclose, hclose'⟩ := close_reordered h kind d
    refine ⟨qs ++ ps, qs ++ ps', hperm.append_left qs, ?_, ?_⟩
    · rw [hclose, Draft.reportAll, ← hqs, List.append_assoc]
    · rw [hclose, hclose', ← List.append_assoc, hqs]
      rfl
  · intro kind fields key d
    refine ⟨fun hkey => ⟨close_keepLast hkey fields d, ?_⟩, ?_⟩
    · intro value hlast hvalue
      rw [← last?_eq] at hlast
      exact close_malformed hkey hlast hvalue d
    · intro hkey front value back hpairs
      obtain ⟨pairs⟩ := fields
      obtain rfl : pairs = front ++ (key, value) :: back := hpairs
      exact close_stray hkey front back value d

/-- A wall with two heights, the last of which is malformed, and with two keys that walls do not
have. -/
theorem close_of_values_wall :
    let wall : Block := ⟨⟨.ofInt 1, .ofInt 3, .ofInt 1⟩, 0, .black, 0, .standard⟩
    let d := (Draft.start (.named "") ⟨.ofInt 3, 0, 0⟩).pushBlock wall
    let fields : Fields := ⟨[("height", "2"), ("color", "red"), ("height", "tall"), ("spin", "1")]⟩
    let fields' : Fields :=
      ⟨[("spin", "1"), ("height", "2"), ("height", "tall"), ("color", "red")]⟩
    ((∀ key, fields.values key = fields'.values key) ∧
      ∃ added added' : List Problem, added.Perm added' ∧
        (close "Wall" fields d).problems = d.problems ++ added ∧
        close "Wall" fields' d = { close "Wall" fields d with problems := d.problems ++ added' }) ∧
      ("height" ∈ ObjectKind.wall.keys ∧
        close "Wall" (fields.keepLast "height") d = close "Wall" fields d ∧
        (fields.values "height").getLast? = some "tall" ∧
        (Form.ofKey "height").admits "tall" = false ∧
        (close "Wall" (fields.without "height") d).Adds
          (.malformed (.invalidValue "height" "tall")) (close "Wall" fields d)) ∧
      ("color" ∉ ObjectKind.wall.keys ∧
        (close "Wall" ⟨[("height", "2"), ("height", "tall"), ("spin", "1")]⟩ d).Adds
          (.malformed (.unknownField "Wall" "color")) (close "Wall" fields d)) := by
  intro wall d fields fields'
  have hvalues : ∀ key, fields.values key = fields'.values key := by
    have hnamed : ∀ key ∈ ["height", "color", "spin"], fields.values key = fields'.values key := by
      decide +kernel
    intro key
    by_cases hkey : key ∈ ["height", "color", "spin"]
    · exact hnamed key hkey
    · simp only [List.mem_cons, List.not_mem_nil, or_false, not_or] at hkey
      simp [fields, fields', values, Ne.symm hkey.1, Ne.symm hkey.2.1, Ne.symm hkey.2.2]
  have hlast : (fields.values "height").getLast? = some "tall" := by decide +kernel
  have hmalformed : (Form.ofKey "height").admits "tall" = false := by decide +kernel
  obtain ⟨hreordered, hkeys⟩ := close_of_values
  obtain ⟨hkept, hreported⟩ := (hkeys .wall fields "height" d).1 (by decide)
  exact ⟨⟨hvalues, hreordered "Wall" fields fields' hvalues d⟩,
    ⟨by decide, hkept, hlast, hmalformed, hreported "tall" hlast hmalformed⟩,
    by decide, (hkeys .wall fields "color" d).2 (by decide) [("height", "2")] "red" _ rfl⟩

end Object
end Floorplan

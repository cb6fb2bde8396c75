import Floorplan.Proofs.Decimal
import Floorplan.Proofs.Level.Element
import Mathlib.Data.List.Forall2

/-!
# Floorplan.Proofs.Level.Document

How much of a level its document tells. Levels with the same document are `Alike`: the same texts
and the same entities in the same order, each with the same values in all that is written of it. The
other way round, levels that are `Alike` have the same document, so that nothing else is told: not
the ids, not the rounding of a block, not a color beyond its text, and of a thickness that is not
positive only that it is none.
-/

namespace Floorplan

/-! ### Levels that cannot be told apart -/

/-- The same colors, as far as they are written. -/
structure Sky.Alike (a b : Sky) : Prop where
  color : a.color.text = b.color.text
  horizon : a.horizon.text = b.horizon.text

structure Ground.Alike (a b : Ground) : Prop where
  color : a.color.text = b.color.text

structure Incarnator.Alike (a b : Incarnator) : Prop where
  location : a.location = b.location
  heading : a.heading = b.heading

structure Block.Alike (a b : Block) : Prop where
  size : a.size = b.size
  center : a.center = b.center
  color : a.color.text = b.color.text
  effects : a.effects = b.effects

structure Ramp.Alike (a b : Ramp) : Prop where
  base : a.base = b.base
  top : a.top = b.top
  width : a.width = b.width
  color : a.color.text = b.color.text
  thickness : a.thickness = b.thickness ∨ a.thickness ≤ 0 ∧ b.thickness ≤ 0
  effects : a.effects = b.effects

structure Goody.Alike (a b : Goody) : Prop where
  location : a.location = b.location
  kind : a.kind = b.kind
  items : a.items = b.items
  spin : a.spin = b.spin
  color : a.color.text = b.color.text
  effects : a.effects = b.effects

structure Level.Alike (l m : Level) : Prop where
  name : l.name = m.name
  author : l.author = m.author
  tagline : l.tagline = m.tagline
  description : l.description = m.description
  sky : Option.Rel Sky.Alike l.sky m.sky
  ground : Option.Rel Ground.Alike l.ground m.ground
  incarnators : List.Forall₂ Incarnator.Alike l.incarnators m.incarnators
  blocks : List.Forall₂ Block.Alike l.blocks m.blocks
  ramps : List.Forall₂ Ramp.Alike l.ramps m.ramps
  goodies : List.Forall₂ Goody.Alike l.goodies m.goodies

/-! ### Values -/

theorem Vec3.toList_text (p : Vec3) :
    p.text.toList =
      p.x.text.toList ++ ',' :: (p.y.text.toList ++ ',' :: p.z.text.toList) := by
  simp [Vec3.text, String.toList_append]

theorem Vec3.text_injective : Function.Injective Vec3.text := by
  intro p q h
  have hstop : ∀ {t : List Char}, ∀ c ∈ (',' :: t).head?, (c != ',') = false := by
    rintro t c ⟨⟩
    rfl
  have hword : ∀ x : Decimal, ∀ c ∈ x.text.toList, (c != ',') = true := by
    intro x c hc
    exact bne_iff_ne.mpr fun hcomma => Decimal.comma_notMem_text x (hcomma ▸ hc)
  have htext := congrArg String.toList h
  rw [Vec3.toList_text, Vec3.toList_text] at htext
  obtain ⟨hx, hrest⟩ := Element.span_append_inj (hword p.x) (hword q.x) hstop hstop htext
  obtain ⟨hy, hend⟩ := Element.span_append_inj (hword p.y) (hword q.y) hstop hstop
    (List.cons.inj hrest).2
  have hz := (List.cons.inj hend).2
  cases p
  cases q
  simp only [String.toList_inj, Decimal.text_injective.eq_iff] at hx hy hz
  rw [hx, hy, hz]

theorem GoodyKind.text_injective : Function.Injective GoodyKind.text := by
  intro a b h
  cases a <;> cases b <;> first | rfl | exact absurd h (by decide)

namespace Level

open Element (IsWord Keys keys_cons keys_append keys_nil)

/-! ### Attributes that may be left out -/

/-- An attribute that is there only if it has a value. -/
def given (name : String) (value : Option String) : List (String × String) :=
  (value.map fun v => (name, v)).toList

theorem keys_given {P : String → Prop} {name : String} (h : P name) (value : Option String) :
    Keys P (given name value) := by
  cases value with
  | none => exact keys_nil
  | some v => exact keys_cons.mpr ⟨h, keys_nil⟩

theorem given_inj {name : String} {v w : Option String} :
    given name v = given name w ↔ v = w := by
  cases v <;> cases w <;> simp [given]

theorem given_append_inj {name : String} {v w : Option String} {as bs : List (String × String)}
    (has : Keys (· ≠ name) as) (hbs : Keys (· ≠ name) bs) :
    given name v ++ as = given name w ++ bs ↔ v = w ∧ as = bs := by
  cases v with
  | none =>
    cases w with
    | none => simp [given]
    | some w =>
      constructor
      · intro h
        have hfirst : as = (name, w) :: bs := h
        exact absurd rfl (has (name, w) (hfirst ▸ List.mem_cons_self))
      · rintro ⟨hvalue, -⟩
        cases hvalue
  | some v =>
    cases w with
    | none =>
      constructor
      · intro h
        have hfirst : (name, v) :: as = bs := h
        exact absurd rfl (hbs (name, v) (hfirst ▸ List.mem_cons_self))
      · rintro ⟨hvalue, -⟩
        cases hvalue
    | some w => simp [given]

theorem effectsAttributes_eq (e : Effects) :
    effectsAttributes e =
      given "mask"
          (if e.mask ≠ Effects.standard.mask then some (Nat.repr e.mask.toNat) else none) ++
        (given "mass" (e.mass.map Decimal.text) ++
          (given "transparent" (if e.transparent then some "true" else none) ++
            given "hostile" (if e.hostile then some "true" else none))) := by
  obtain ⟨mask, mass, transparent, hostile⟩ := e
  unfold effectsAttributes given
  simp only [List.append_assoc]
  congr 1
  · by_cases h : mask = Effects.standard.mask <;> simp [h]
  congr 1
  · cases mass <;> rfl
  congr 1
  · cases transparent <;> rfl
  · cases hostile <;> rfl

theorem shown_inj {α : Type} (Shown : α → Prop) [DecidablePred Shown] {text : α → String}
    (htext : Function.Injective text) (a b : α) :
    (if Shown a then some (text a) else none) = (if Shown b then some (text b) else none) ↔
      a = b ∨ ¬ Shown a ∧ ¬ Shown b := by
  by_cases ha : Shown a
  · by_cases hb : Shown b
    · simp [ha, hb, htext.eq_iff]
    · have hne : a ≠ b := by
        rintro rfl
        exact hb ha
      simp [ha, hb, hne]
  · by_cases hb : Shown b
    · have hne : a ≠ b := by
        rintro rfl
        exact ha hb
      simp [ha, hb, hne]
    · simp [ha, hb]

theorem shown_ne_inj {α : Type} [DecidableEq α] {text : α → String}
    (htext : Function.Injective text) (standard a b : α) :
    (if a ≠ standard then some (text a) else none) =
      (if b ≠ standard then some (text b) else none) ↔ a = b := by
  refine (shown_inj (· ≠ standard) htext a b).trans ?_
  rw [Decidable.not_not, Decidable.not_not]
  constructor
  · rintro (heq | ⟨ha, hb⟩)
    · exact heq
    · rw [ha, hb]
  · exact Or.inl

theorem flag_inj (a b : Bool) :
    (if a then some "true" else none) = (if b then some "true" else none) ↔ a = b := by
  cases a <;> cases b <;> simp

theorem thickness_inj (a b : Decimal) :
    (if 0 < a then some a.text else none) = (if 0 < b then some b.text else none) ↔
      a = b ∨ a ≤ 0 ∧ b ≤ 0 := by
  have hle : ∀ x : Decimal, ¬ 0 < x ↔ x ≤ 0 := fun x => Int.not_lt
  rw [shown_inj (0 < ·) Decimal.text_injective, hle, hle]

theorem effectsAttributes_inj (a b : Effects) :
    effectsAttributes a = effectsAttributes b ↔ a = b := by
  have hmask : Function.Injective fun mask : CollisionMask => Nat.repr mask.toNat := by
    intro m n h
    exact BitVec.eq_of_toNat_eq (Decimal.repr_injective h)
  simp only [effectsAttributes_eq]
  rw [given_append_inj (by simp [keys_append, keys_given]) (by simp [keys_append, keys_given]),
    given_append_inj (by simp [keys_append, keys_given]) (by simp [keys_append, keys_given]),
    given_append_inj (by simp [keys_given]) (by simp [keys_given]), given_inj,
    shown_ne_inj hmask, flag_inj, flag_inj, (Option.map_injective Decimal.text_injective).eq_iff]
  cases a
  cases b
  simp

theorem keys_effectsAttributes {P : String → Prop}
    (h : ∀ name ∈ ["mask", "mass", "transparent", "hostile"], P name) (e : Effects) :
    Keys P (effectsAttributes e) := by
  rw [effectsAttributes_eq]
  simp only [keys_append]
  exact ⟨keys_given (h _ (by simp)) _, keys_given (h _ (by simp)) _,
    keys_given (h _ (by simp)) _, keys_given (h _ (by simp)) _⟩

/-! ### Elements -/

theorem skyElement_inj (a b : Sky) : skyElement a = skyElement b ↔ a.Alike b := by
  simp only [skyElement, Element.mk.injEq, List.cons.injEq, Prod.mk.injEq, true_and, and_true]
  exact ⟨fun ⟨hcolor, hhorizon⟩ => ⟨hcolor, hhorizon⟩, fun h => ⟨h.color, h.horizon⟩⟩

theorem groundElement_inj (a b : Ground) : groundElement a = groundElement b ↔ a.Alike b := by
  simp only [groundElement, Element.mk.injEq, List.cons.injEq, Prod.mk.injEq, true_and, and_true]
  exact ⟨fun hcolor => ⟨hcolor⟩, fun h => h.color⟩

theorem incarnatorElement_inj (a b : Incarnator) :
    incarnatorElement a = incarnatorElement b ↔ a.Alike b := by
  simp only [incarnatorElement, Element.mk.injEq, List.cons.injEq, Prod.mk.injEq, true_and,
    and_true, Vec3.text_injective.eq_iff, Decimal.text_injective.eq_iff]
  exact ⟨fun ⟨hlocation, hheading⟩ => ⟨hlocation, hheading⟩,
    fun h => ⟨h.location, h.heading⟩⟩

theorem blockElement_inj (a b : Block) : blockElement a = blockElement b ↔ a.Alike b := by
  simp only [blockElement, Element.mk.injEq, List.cons_append, List.nil_append, List.cons.injEq,
    Prod.mk.injEq, true_and, Vec3.text_injective.eq_iff, effectsAttributes_inj]
  exact ⟨fun ⟨hsize, hcenter, hcolor, heffects⟩ => ⟨hsize, hcenter, hcolor, heffects⟩,
    fun h => ⟨h.size, h.center, h.color, h.effects⟩⟩

theorem rampElement_eq (r : Ramp) :
    rampElement r = ⟨"ramp", ("base", r.base.text) :: ("top", r.top.text) ::
      ("width", r.width.text) :: ("color", r.color.text) ::
        (given "thickness" (if 0 < r.thickness then some r.thickness.text else none) ++
          effectsAttributes r.effects)⟩ := by
  unfold rampElement given
  split <;> rfl

theorem rampElement_inj (a b : Ramp) : rampElement a = rampElement b ↔ a.Alike b := by
  have hfresh : ∀ e, Keys (· ≠ "thickness") (effectsAttributes e) :=
    keys_effectsAttributes (by decide)
  simp only [rampElement_eq, Element.mk.injEq, List.cons.injEq, Prod.mk.injEq, true_and,
    Vec3.text_injective.eq_iff, Decimal.text_injective.eq_iff,
    given_append_inj (hfresh a.effects) (hfresh b.effects), thickness_inj, effectsAttributes_inj]
  constructor
  · rintro ⟨hbase, htop, hwidth, hcolor, hthickness, heffects⟩
    exact ⟨hbase, htop, hwidth, hcolor, hthickness, heffects⟩
  · intro h
    exact ⟨h.base, h.top, h.width, h.color, h.thickness, h.effects⟩

theorem goodyElement_eq (g : Goody) :
    goodyElement g = ⟨"goody", ("location", g.location.text) :: ("shape", g.kind.text) ::
      ("grenades", Nat.repr g.items.grenades) :: ("missiles", Nat.repr g.items.missiles) ::
        ("boosters", Nat.repr g.items.boosters) ::
          (given "speed" (if g.spin ≠ 0 then some g.spin.text else none) ++
            ("color", g.color.text) :: effectsAttributes g.effects)⟩ := by
  unfold goodyElement given
  by_cases h : g.spin = 0 <;> simp [h]

theorem goodyElement_inj (a b : Goody) : goodyElement a = goodyElement b ↔ a.Alike b := by
  have hfresh : ∀ g : Goody,
      Keys (· ≠ "speed") (("color", g.color.text) :: effectsAttributes g.effects) :=
    fun g => keys_cons.mpr ⟨by decide, keys_effectsAttributes (by decide) g.effects⟩
  simp only [goodyElement_eq, Element.mk.injEq, List.cons.injEq, Prod.mk.injEq, true_and,
    Vec3.text_injective.eq_iff, GoodyKind.text_injective.eq_iff, Decimal.repr_injective.eq_iff,
    given_append_inj (hfresh a) (hfresh b), shown_ne_inj Decimal.text_injective,
    effectsAttributes_inj]
  constructor
  · rintro ⟨hlocation, hkind, hgrenades, hmissiles, hboosters, hspin, hcolor, heffects⟩
    have hitems : a.items = b.items := by
      cases ha : a.items
      cases hb : b.items
      simp_all
    exact ⟨hlocation, hkind, hitems, hspin, hcolor, heffects⟩
  · intro h
    exact ⟨h.location, h.kind, congrArg _ h.items, congrArg _ h.items, congrArg _ h.items, h.spin,
      h.color, h.effects⟩

/-! ### The elements of a kind -/

/-- What a line of a document is about. -/
inductive Kind where
  | sky
  | ground
  | incarnator
  | block
  | ramp
  | goody
  deriving DecidableEq

def Kind.name : Kind → String
  | sky => "sky"
  | ground => "ground"
  | incarnator => "incarnator"
  | block => "block"
  | ramp => "ramp"
  | goody => "goody"

theorem Kind.name_injective : Function.Injective Kind.name := by
  intro j k h
  cases j <;> cases k <;> first | rfl | exact absurd h (by decide)

def elementsOf (level : Level) : Kind → List Element
  | .sky => level.sky.toList.map skyElement
  | .ground => level.ground.toList.map groundElement
  | .incarnator => level.incarnators.map incarnatorElement
  | .block => level.blocks.map blockElement
  | .ramp => level.ramps.map rampElement
  | .goody => level.goodies.map goodyElement

theorem elements_eq (level : Level) :
    level.elements =
      level.elementsOf .sky ++ level.elementsOf .ground ++ level.elementsOf .incarnator ++
        level.elementsOf .block ++ level.elementsOf .ramp ++ level.elementsOf .goody := by
  simp only [elements, elementsOf, Option.toList_map]

theorem name_of_mem_elementsOf {level : Level} {k : Kind} {e : Element}
    (h : e ∈ level.elementsOf k) : e.name = k.name := by
  cases k
  all_goals
    obtain ⟨entity, -, rfl⟩ := List.mem_map.mp h
    rfl

theorem filter_elementsOf (level : Level) (j k : Kind) :
    (level.elementsOf j).filter (fun e => e.name == k.name) =
      if j = k then level.elementsOf k else [] := by
  by_cases h : j = k
  · subst h
    rw [if_pos rfl, List.filter_eq_self]
    intro e he
    exact beq_iff_eq.mpr (name_of_mem_elementsOf he)
  · rw [if_neg h, List.filter_eq_nil_iff]
    intro e he hname
    rw [beq_iff_eq, name_of_mem_elementsOf he] at hname
    exact h (Kind.name_injective hname)

theorem filter_elements (level : Level) (k : Kind) :
    level.elements.filter (fun e => e.name == k.name) = level.elementsOf k := by
  rw [elements_eq]
  simp only [List.filter_append, filter_elementsOf]
  cases k <;> simp

theorem elements_eq_iff (l m : Level) :
    l.elements = m.elements ↔ ∀ k, l.elementsOf k = m.elementsOf k := by
  constructor
  · intro h k
    rw [← filter_elements, h, filter_elements]
  · intro h
    rw [elements_eq, elements_eq]
    simp only [h]

theorem map_eq_map_iff {α : Type} {Alike : α → α → Prop} {element : α → Element}
    (h : ∀ a b, element a = element b ↔ Alike a b) (as bs : List α) :
    as.map element = bs.map element ↔ List.Forall₂ Alike as bs := by
  rw [← List.forall₂_eq_eq_eq, List.forall₂_map_left_iff, List.forall₂_map_right_iff]
  simp only [h]

theorem toList_map_eq_iff {α : Type} {Alike : α → α → Prop} {element : α → Element}
    (h : ∀ a b, element a = element b ↔ Alike a b) (a b : Option α) :
    a.toList.map element = b.toList.map element ↔ Option.Rel Alike a b := by
  cases a <;> cases b <;> simp [h]

theorem forall_elementsOf_iff (l m : Level) :
    (∀ k, l.elementsOf k = m.elementsOf k) ↔
      Option.Rel Sky.Alike l.sky m.sky ∧ Option.Rel Ground.Alike l.ground m.ground ∧
        List.Forall₂ Incarnator.Alike l.incarnators m.incarnators ∧
        List.Forall₂ Block.Alike l.blocks m.blocks ∧ List.Forall₂ Ramp.Alike l.ramps m.ramps ∧
        List.Forall₂ Goody.Alike l.goodies m.goodies := by
  rw [← toList_map_eq_iff skyElement_inj, ← toList_map_eq_iff groundElement_inj,
    ← map_eq_map_iff incarnatorElement_inj, ← map_eq_map_iff blockElement_inj,
    ← map_eq_map_iff rampElement_inj, ← map_eq_map_iff goodyElement_inj]
  constructor
  · intro h
    exact ⟨h .sky, h .ground, h .incarnator, h .block, h .ramp, h .goody⟩
  · rintro ⟨hsky, hground, hincarnators, hblocks, hramps, hgoodies⟩ k
    cases k
    · exact hsky
    · exact hground
    · exact hincarnators
    · exact hblocks
    · exact hramps
    · exact hgoodies

/-! ### The document -/

theorem words_effectsAttributes (e : Effects) : Keys IsWord (effectsAttributes e) :=
  keys_effectsAttributes (by decide) e

theorem named_of_mem_elementsOf {level : Level} {k : Kind} {e : Element}
    (h : e ∈ level.elementsOf k) : e.Named := by
  have hname : IsWord e.name := by
    rw [name_of_mem_elementsOf h]
    cases k <;> decide
  refine ⟨hname, ?_⟩
  cases k with
  | sky =>
    obtain ⟨sky, -, rfl⟩ := List.mem_map.mp h
    simp only [skyElement, keys_cons]
    refine ⟨?_, ?_, keys_nil⟩ <;> decide
  | ground =>
    obtain ⟨ground, -, rfl⟩ := List.mem_map.mp h
    simp only [groundElement, keys_cons]
    refine ⟨?_, keys_nil⟩
    decide
  | incarnator =>
    obtain ⟨i, -, rfl⟩ := List.mem_map.mp h
    simp only [incarnatorElement, keys_cons]
    refine ⟨?_, ?_, keys_nil⟩ <;> decide
  | block =>
    obtain ⟨b, -, rfl⟩ := List.mem_map.mp h
    simp only [blockElement, keys_append, keys_cons]
    refine ⟨⟨?_, ?_, ?_, keys_nil⟩, words_effectsAttributes b.effects⟩ <;> decide
  | ramp =>
    obtain ⟨r, -, rfl⟩ := List.mem_map.mp h
    simp only [rampElement_eq, keys_append, keys_cons]
    refine ⟨?_, ?_, ?_, ?_, keys_given ?_ _, words_effectsAttributes r.effects⟩ <;> decide
  | goody =>
    obtain ⟨g, -, rfl⟩ := List.mem_map.mp h
    simp only [goodyElement_eq, keys_append, keys_cons]
    refine ⟨?_, ?_, ?_, ?_, ?_, keys_given ?_ _, ?_, words_effectsAttributes g.effects⟩
    all_goals decide

theorem named_of_mem_elements {level : Level} {e : Element} (h : e ∈ level.elements) :
    e.Named := by
  rw [elements_eq] at h
  simp only [List.mem_append] at h
  rcases h with ((((h | h) | h) | h) | h) | h
  all_goals exact named_of_mem_elementsOf h

theorem named_root (level : Level) : level.root.Named := by
  have hname : IsWord "map" := by decide
  refine ⟨hname, ?_⟩
  simp only [root, keys_cons]
  refine ⟨?_, ?_, ?_, ?_, keys_nil⟩ <;> decide

theorem root_inj (l m : Level) :
    l.root = m.root ↔
      l.name = m.name ∧ l.author = m.author ∧ l.tagline = m.tagline ∧
        l.description = m.description := by
  simp [root]

-- Stated here, since the equation that `simp` would make for `document` evaluates its strings.
theorem document_eq (level : Level) :
    level.document =
      "<?xml version=\"1.0\" encoding=\"UTF-8\"?>\n" ++ level.root.openText ++ ">\n" ++
        String.join (level.elements.map Element.line) ++ "</map>\n" := rfl

theorem toList_document (level : Level) :
    level.document.toList =
      "<?xml version=\"1.0\" encoding=\"UTF-8\"?>\n".toList ++ (level.root.openText.toList ++
        '>' :: '\n' :: ((level.elements.flatMap fun e => e.line.toList) ++
          '<' :: "/map>\n".toList)) := by
  have htag : ">\n".toList = ['>', '\n'] := rfl
  have hend : "</map>\n".toList = '<' :: "/map>\n".toList := rfl
  simp only [document_eq, String.toList_append, String.toList_join, List.flatMap_map,
    List.append_assoc, htag, hend, List.cons_append, List.nil_append]

theorem document_inj (l m : Level) :
    l.document = m.document ↔ l.root = m.root ∧ l.elements = m.elements := by
  constructor
  · intro h
    have htext := congrArg String.toList h
    rw [toList_document, toList_document, List.append_cancel_left_eq] at htext
    have hcloses : ∀ cs, Element.Closes ('>' :: cs) := fun cs => ⟨cs, Or.inl rfl⟩
    obtain ⟨hroot, hrest⟩ := Element.openText_append_inj (named_root l) (named_root m)
      (hcloses _) (hcloses _) htext
    simp only [List.cons.injEq, true_and] at hrest
    exact ⟨hroot, (Element.lines_append_inj (fun e he => named_of_mem_elements he)
      (fun e he => named_of_mem_elements he) hrest).1⟩
  · rintro ⟨hroot, helements⟩
    simp only [document_eq, hroot, helements]

/-- Two levels have one document exactly if they are alike. -/
theorem document_eq_iff (l m : Level) : l.document = m.document ↔ l.Alike m := by
  rw [document_inj, root_inj, elements_eq_iff, forall_elementsOf_iff]
  constructor
  · rintro ⟨⟨hname, hauthor, htagline, hdescription⟩, hsky, hground, hincarnators, hblocks,
      hramps, hgoodies⟩
    exact ⟨hname, hauthor, htagline, hdescription, hsky, hground, hincarnators, hblocks, hramps,
      hgoodies⟩
  · intro h
    exact ⟨⟨h.name, h.author, h.tagline, h.description⟩, h.sky, h.ground, h.incarnators, h.blocks,
      h.ramps, h.goodies⟩

end Level
end Floorplan

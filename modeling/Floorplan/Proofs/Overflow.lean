import Mathlib.Algebra.Group.Nat.Defs
import Floorplan.Proofs.Integers
import Floorplan.Proofs.Magnitude
import Floorplan.Proofs.Settings

/-!
# Floorplan.Proofs.Overflow

No integer of a conversion needs more than 64 bits, so what is computed in 64 bits is what the exact
integers say, and the blocks of a level are those of `Placement.blockBounds`
(`Conversion.ofOperations_within`). A draft that `Fits` bounds the integers of each step, and the
bounds of a whole conversion follow along its folds.
-/

namespace Floorplan

/-! ### Small integers -/

/-- All these integers are less than a limit of 64 bits. -/
def Small (zs : List Int) : Prop := ∀ z ∈ zs, z.natAbs < 2 ^ 63

theorem small_nil : Small [] := by
  intro z hz
  cases hz

theorem small_cons {z : Int} {zs : List Int} :
    Small (z :: zs) ↔ z.natAbs < 2 ^ 63 ∧ Small zs :=
  List.forall_mem_cons

theorem small_append {ys zs : List Int} : Small (ys ++ zs) ↔ Small ys ∧ Small zs :=
  List.forall_mem_append

theorem small_flatMap {α : Type} {o : Option α} {f : α → List Int} (h : ∀ a ∈ o, Small (f a)) :
    Small (o.toList.flatMap f) := by
  cases o with
  | none => exact small_nil
  | some a => simpa using h a rfl

/-- An invariant that each step keeps, and that bounds what it computes, bounds the whole fold. It
may count the items that are left. -/
theorem small_tracedFold {σ α : Type} {step : σ → α → σ} {computed : σ → α → List Int}
    (Inv : Nat → σ → Prop) (hstep : ∀ {left s} (a : α), Inv (left + 1) s → Inv left (step s a))
    (hcomputed : ∀ {left s} (a : α), Inv (left + 1) s → Small (computed s a)) {s : σ}
    {as : List α} (hs : Inv as.length s) : Small (tracedFold step computed s as) := by
  induction as generalizing s with
  | nil => exact small_nil
  | cons a as ih => exact small_append.mpr ⟨hcomputed a hs, ih (hstep a hs)⟩

/-! ### Leaves -/

theorem Rounding.small_integers {n : Int} {d : Nat} (hn : n.natAbs < 2 ^ 61) (hd : d < 2 ^ 61) :
    Small (integers n d) := by
  have haway := natAbs_away n d
  have hle := Nat.div_le_self (2 * n.natAbs + d) (2 * d)
  have hdiv : (n.tdiv d).natAbs ≤ n.natAbs := Int.natAbs_tdiv_le_natAbs n d
  have hmod : (n.tmod d).natAbs ≤ n.natAbs := by
    rw [Int.natAbs_tmod]
    exact Nat.mod_le _ _
  simp only [integers, small_cons, Int.natAbs_natCast]
  refine ⟨?_, ?_, ?_, ?_, ?_, ?_, ?_, small_nil⟩
  all_goals omega

namespace Decimal

theorem small_ratioIntegers {n : Int} {d : Nat} (hn : n.natAbs < 2 ^ 54) (hd : d < 2 ^ 61) :
    Small (ratioIntegers n d) :=
  small_cons.mpr ⟨by omega, Rounding.small_integers (by omega) hd⟩

theorem Within.small_half {x : Decimal} {bound : Nat} (h : x.Within bound)
    (hbound : bound < 2 ^ 61) : Small x.halfIntegers :=
  Rounding.small_integers (d := 2) (Nat.lt_of_le_of_lt h hbound) (by omega)

theorem Within.small {x : Decimal} {bound : Nat} (h : x.Within bound) (hbound : bound < 2 ^ 61) :
    x.hundredths.natAbs < 2 ^ 63 :=
  Nat.lt_trans (Nat.lt_of_le_of_lt h hbound) (by omega)

end Decimal

theorem Vec3.Within.small {across up : Nat} {p : Vec3} (h : p.Within across up)
    (hacross : across < 2 ^ 61) (hup : up < 2 ^ 61) : Small p.integers := by
  simp only [Vec3.integers, small_cons]
  exact ⟨h.x.small hacross, h.y.small hup, h.z.small hacross, small_nil⟩

namespace Placement

variable {k : Nat}

theorem small_middleIntegers (hk : k ≤ 2 ^ 32) {shift : Int} (hshift : shift.natAbs ≤ 32768 * k)
    (a b : Int16) : Small (middleIntegers a.toInt b.toInt shift) := by
  have ha := natAbs_toInt_le a
  have hb := natAbs_toInt_le b
  have hdoubled : (a.toInt + b.toInt + 2 * shift).natAbs < 2 ^ 54 := by omega
  refine small_append.mpr ⟨?_, Decimal.small_ratioIntegers (d := 36) hdoubled (by omega)⟩
  simp only [small_cons]
  refine ⟨?_, ?_, ?_, ?_, small_nil⟩ <;> omega

theorem small_spanIntegers {pen : Int} (hpen : pen.natAbs ≤ 32768 * 1) (a b : Int16) :
    Small (spanIntegers a.toInt b.toInt pen) := by
  have ha := natAbs_toInt_le a
  have hb := natAbs_toInt_le b
  have hspan := natAbs_span_le a b hpen
  refine small_append.mpr ⟨?_, Decimal.small_ratioIntegers (d := 18) (by omega) (by omega)⟩
  simp only [small_cons]
  refine ⟨?_, ?_, small_nil⟩ <;> omega

theorem small_arcIntegers (hk : k ≤ 2 ^ 32) {origin : Offset} (horigin : Near k origin) (r : Rect) :
    Small (arcIntegers r origin) :=
  small_append.mpr ⟨small_middleIntegers hk horigin.x _ _, small_middleIntegers hk horigin.y _ _⟩

theorem small_blockIntegers (hk : k ≤ 2 ^ 32) {origin pen : Offset} (horigin : Near k origin)
    (hpen : Near 1 pen) {heights : Heights} (hheights : heights.Fits) (r : Rect) :
    Small (blockIntegers r origin pen heights) := by
  have hfloor := hheights.base.add hheights.lift
  have hmiddle := hfloor.add hheights.wall.half
  simp only [blockIntegers, small_append, small_cons]
  exact ⟨⟨⟨⟨small_arcIntegers hk horigin r, small_spanIntegers hpen.x _ _⟩,
    small_spanIntegers hpen.y _ _⟩, hheights.wall.small_half (by omega)⟩,
    hfloor.small (by omega), hmiddle.small (by omega), small_nil⟩

end Placement

/-! ### Objects and scripts -/

theorem Draft.Fits.currentBlock {n : Nat} {d : Draft} (h : d.Fits n) :
    ∀ b ∈ d.currentBlock?, b.Fits n := by
  intro b hb
  unfold Draft.currentBlock? at hb
  split at hb
  · cases hb
  · exact h.level.blocks b (List.mem_of_getElem? hb)

namespace Object

variable {n : Nat} {d : Draft} {b : Block}

theorem small_slabIntegers (hn : n ≤ 2 ^ 32) (h : b.Fits n) : Small (slabIntegers b) :=
  small_append.mpr
    ⟨h.size.y.small_half (by omega), h.center.small (by omega) (by omega)⟩

theorem small_standingIntegers (hn : n ≤ 2 ^ 32) {old new : Block} (hold : old.Fits n)
    (hnew : new.Fits n) : Small (standingIntegers old new) := by
  simp only [standingIntegers, small_append, small_cons]
  exact ⟨⟨⟨hold.size.y.small_half (by omega), hold.bottom.small (by omega), small_nil⟩,
    hnew.size.y.small_half (by omega)⟩, hnew.center.small (by omega) (by omega)⟩

theorem small_rampIntegers (hn : n ≤ 2 ^ 32) {r : Ramp} (hb : b.Fits n) (hr : r.Fits n) :
    Small (rampIntegers b r) := by
  simp only [rampIntegers, small_append]
  exact ⟨⟨⟨hb.size.x.small_half (by omega), hb.size.z.small_half (by omega)⟩,
    hr.base.small (by omega) (by omega)⟩, hr.top.small (by omega) (by omega)⟩

theorem small_integers (hn : n ≤ 2 ^ 32) (h : d.Fits n) {object : Object} (hobject : object.Fits) :
    Small (object.integers d) := by
  cases object with
  | incarnator y =>
    apply small_flatMap
    intro arc harc
    exact ((h.arc arc harc).raised hobject).small (by omega) (by omega)
  | goody effects y kind items spin =>
    apply small_flatMap
    intro arc harc
    exact ((h.arc arc harc).raised hobject).small (by omega) (by omega)
  | ramp effects rise y thickness =>
    obtain ⟨hrise, hy, hthickness⟩ := hobject
    apply small_flatMap
    intro b hb
    have hfits := h.currentBlock b hb
    refine small_append.mpr
      ⟨small_slabIntegers hn (fits_slab hfits effects hy hthickness), small_flatMap ?_⟩
    intro arc _
    exact small_rampIntegers hn hfits (fits_rampOver hfits arc effects hrise hy thickness)
  | wall effects y height =>
    obtain ⟨hy, hheight⟩ := hobject
    apply small_flatMap
    intro b hb
    have hfits := h.currentBlock b hb
    exact small_standingIntegers hn hfits (fits_standing hfits effects hy hheight)

end Object

namespace Script

variable {n : Nat}

theorem Line.small_integers (hn : n ≤ 2 ^ 32) {l : Line} (h : l.draft.Fits n) (word : String) :
    Small (l.integers word) := by
  have hdrop : l.dropKey.draft.Fits n := (keeps_fits n).dropKey h
  unfold Line.integers
  split
  · split
    · apply small_flatMap
      intro known _
      exact Object.small_integers hn hdrop (Object.fits_ofFields ..)
    · exact small_nil
  · exact small_nil

theorem Run.small_flushIntegers (hn : n ≤ 2 ^ 32) {r : Run} (h : r.draft.Fits n) :
    Small r.flushIntegers := by
  apply small_tracedFold (fun _ l => l.draft.Fits n)
  · intro _ l word hl
    exact (keeps_fits n).stepLine hl word
  · intro _ l word hl
    exact Line.small_integers hn hl word
  · exact h

theorem Run.small_integers (hn : n ≤ 2 ^ 32) {r : Run} (h : r.draft.Fits n)
    (said : Except Words.UnclosedQuote (List String)) : Small (r.integers said) := by
  unfold Run.integers
  split
  · dsimp only
    split
    · exact Run.small_flushIntegers hn h
    · exact small_nil
  · exact small_nil

theorem small_integers (hn : n ≤ 2 ^ 32) {d : Draft} (h : d.Fits n) (mode : Mode) (text : String) :
    Small (Script.integers mode text d) := by
  refine small_append.mpr ⟨?_, Run.small_flushIntegers hn ((keeps_fits n).foldRun h _)⟩
  apply small_tracedFold (fun _ r => r.draft.Fits n)
  · intro _ r said hr
    exact (keeps_fits n).stepRun hr said
  · intro _ r said hr
    exact Run.small_integers hn hr said
  · exact h

end Script

/-! ### Drawings -/

namespace Drawing

open Placement

variable {n k : Nat} {d : Drawing}

theorem small_flushIntegers (hn : n ≤ 2 ^ 32) (h : d.Fits n k) : Small d.flushIntegers := by
  unfold flushIntegers
  split
  · exact small_nil
  · exact Script.small_integers hn h.draft _ _

theorem small_roundingIntegers (d : Drawing) (corners : Corners) :
    Small (d.roundingIntegers corners) := by
  cases corners with
  | square => exact small_nil
  | round =>
    have hoval := natAbs_toInt_le d.pen.oval.h
    exact Decimal.small_ratioIntegers (d := 18) (by omega) (by omega)

theorem small_drawIntegers (hk : k < 2 ^ 32) (h : d.Fits n k) (operation : Operation) :
    Small (d.drawIntegers operation) := by
  have hle : k ≤ 2 ^ 32 := Nat.le_of_lt hk
  have hraise : ∀ r, Small (d.raiseIntegers r) :=
    small_blockIntegers hle h.origin h.pen h.draft.heights
  have harc : ∀ r, Small (arcIntegers r d.pen.origin) := small_arcIntegers hle h.origin
  unfold drawIntegers
  split
  · next dh dv =>
    obtain ⟨hx, hy⟩ := (h.shiftOrigin dh dv).origin
    simp only [small_cons]
    exact ⟨by omega, by omega, small_nil⟩
  · exact small_append.mpr ⟨small_roundingIntegers d _, hraise _⟩
  · exact small_append.mpr ⟨small_roundingIntegers d _, small_flatMap fun r _ => hraise r⟩
  · exact harc _
  · exact small_flatMap fun r _ => harc r
  · exact small_nil

theorem small_stepIntegers (hn : n ≤ 2 ^ 32) (hk : k < 2 ^ 32) (h : d.Fits n k)
    (operation : Operation) : Small (d.stepIntegers operation) := by
  unfold stepIntegers
  split
  · exact small_nil
  · exact small_append.mpr ⟨small_flushIntegers hn h, small_drawIntegers hk h.flush operation⟩

/-- After so many operations the next rectangle is in reach of a block. -/
theorem Fits.inReach (hk : k ≤ 2 ^ 32) (h : d.Fits n k) :
    InReach d.pen.origin d.pen.size d.draft.heights := by
  obtain ⟨horiginX, horiginY⟩ := h.origin
  obtain ⟨hpenX, hpenY⟩ := h.pen
  obtain ⟨hwall, hbase, hlift⟩ := h.draft.heights
  unfold Decimal.Within at hwall hbase hlift
  constructor <;> omega

end Drawing

/-! ### Conversions -/

/-- No place of a level is further than this across, or higher or lower than that, and no block is
larger. -/
structure Level.Within (across up : Nat) (level : Level) : Prop where
  incarnators : ∀ i ∈ level.incarnators, i.location.Within across up
  blocks : ∀ b ∈ level.blocks, b.center.Within across up ∧ b.size.Within across up
  ramps : ∀ r ∈ level.ramps, r.base.Within across up ∧ r.top.Within across up
  goodies : ∀ g ∈ level.goodies, g.location.Within across up

theorem Level.Fits.within {n : Nat} {level : Level} (h : level.Fits n) :
    level.Within (500000 * (n + 1)) (3 * 2147483647) where
  incarnators i hi := (h.incarnators i hi).mono (by omega) (by omega)
  blocks b hb :=
    ⟨(h.blocks b hb).center.mono (by omega) (by omega),
      (h.blocks b hb).size.mono (by omega) (by omega)⟩
  ramps r hr :=
    ⟨(h.ramps r hr).base.mono (Nat.le_refl _) (by omega),
      (h.ramps r hr).top.mono (Nat.le_refl _) (by omega)⟩
  goodies g hg := (h.goodies g hg).mono (by omega) (by omega)

namespace Conversion

theorem fits_start (n : Nat) {options : Options} (hwall : options.wallHeight.inRange = true)
    (hbase : options.baseHeight.inRange = true) :
    (Drawing.start options.level options.heights).Fits n 0 :=
  .start n _ (options.fits_level n) (Options.fits_heights hwall hbase)

theorem small_integers {options : Options} {operations : List Operation}
    (hlength : operations.length ≤ 2 ^ 32) (hwall : options.wallHeight.inRange = true)
    (hbase : options.baseHeight.inRange = true) : Small (integers options operations) := by
  obtain ⟨n, hn⟩ : ∃ n, n = operations.length := ⟨_, rfl⟩
  have hstart := fits_start n hwall hbase
  have hend := hstart.foldl operations (by omega)
  refine small_append.mpr ⟨?_, Drawing.small_flushIntegers (hn ▸ hlength) hend⟩
  -- with so many operations left of `n`, the others are behind
  apply small_tracedFold (fun left d => left ≤ n ∧ d.Fits n (n - left))
  · rintro left d operation ⟨hleft, hd⟩
    refine ⟨by omega, ?_⟩
    rw [show n - left = n - (left + 1) + 1 by omega]
    exact hd.step (by omega) operation
  · rintro left d operation ⟨hleft, hd⟩
    exact Drawing.small_stepIntegers (by omega) (by omega) hd operation
  · rw [← hn, Nat.sub_self]
    exact ⟨Nat.le_refl n, hstart⟩

/-- A conversion with heights in range stays within 64 bits on its way, and the level that it gives
is within reach. Settings have no heights but those. What the level says of places is among the
integers of the conversion, and each block is raised as it is computed in 64 bits. -/
theorem ofOperations_within {options : Options} {operations : List Operation}
    (hlength : operations.length ≤ 2 ^ 32) (hwall : options.wallHeight.inRange = true)
    (hbase : options.baseHeight.inRange = true) :
    (∀ z ∈ integers options operations, z.natAbs < 2 ^ 63) ∧
      (ofOperations options operations).level.Within (500000 * (operations.length + 1))
        (3 * 2147483647) ∧
      (∀ (document : String) (settings : Settings), Settings.parse document = .ok settings →
        settings.InRange) ∧
      (ofOperations options operations).level.From (integers options operations) ∧
      ∀ (front : List Operation) (operation : Operation) (back : List Operation) (r : Rect)
        (b : Block), operations = front ++ operation :: back →
        let d := (front.foldl Drawing.step (.start options.level options.heights)).flush
        d.Raised (d.draw operation) r b →
        Placement.blockBounds r d.pen.origin d.pen.size d.draft.heights = .ok (b.size, b.center) := by
  have hstart := fits_start operations.length hwall hbase
  have hend := hstart.foldl operations (by omega)
  refine ⟨small_integers hlength hwall hbase, hend.finish.level.within,
    fun _ _ hparse => Settings.inRange_of_parse hparse, from_integers options operations, ?_⟩
  rintro front operation back r b rfl d hraised
  rw [List.length_append] at hlength hstart
  have hfront : d.Fits _ (0 + front.length) := (hstart.foldl front (by omega)).flush
  obtain ⟨color, rounding, rfl⟩ := hraised.wall
  exact Placement.blockBounds_eq_ok (hfront.inReach (by omega)) r

/-- A wall as high as it gets, far from where the drawing starts. -/
theorem ofOperations_within_far :
    let options : Options := ⟨"Crater", none, .limit, 0⟩
    let shift : Operation := .origin (-16384) 0
    let frame : Operation := .rect .frame .square ⟨0, 0, 36, 36⟩
    let d := ([shift].foldl Drawing.step (.start options.level options.heights)).flush
    Decimal.limit.inRange = true ∧
      3280400 ∈ integers options [shift, frame] ∧
      (∀ z ∈ integers options [shift, frame], z.natAbs < 2 ^ 63) ∧
      (ofOperations options [shift, frame]).level.Within 1500000 6442450941 ∧
      (ofOperations options [shift, frame]).level.From (integers options [shift, frame]) ∧
      Placement.blockBounds ⟨0, 0, 36, 36⟩ d.pen.origin d.pen.size d.draft.heights =
        .ok (⟨⟨200⟩, .limit, ⟨200⟩⟩, ⟨⟨91122⟩, ⟨1073741824⟩, ⟨100⟩⟩) := by
  intro options shift frame d
  obtain ⟨hsmall, hwithin, -, hfrom, hblocks⟩ :=
    @ofOperations_within options [shift, frame] (by decide) rfl rfl
  have hraised : d.Raised (d.draw frame) ⟨0, 0, 36, 36⟩ (d.wall ⟨0, 0, 36, 36⟩ .black 0) :=
    ⟨⟨_, _, rfl⟩, rfl, rfl, rfl, rfl, rfl⟩
  have hbounds := hblocks [shift] frame [] _ _ rfl hraised
  have hsize : (d.wall ⟨0, 0, 36, 36⟩ .black 0).size = ⟨⟨200⟩, .limit, ⟨200⟩⟩ := by decide
  have hcenter : (d.wall ⟨0, 0, 36, 36⟩ .black 0).center =
      ⟨⟨91122⟩, ⟨1073741824⟩, ⟨100⟩⟩ := by decide
  rw [hsize, hcenter] at hbounds
  exact ⟨rfl, by decide, hsmall, hwithin, hfrom, hbounds⟩

end Conversion
end Floorplan

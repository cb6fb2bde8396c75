import Floorplan.Command.Run
import Floorplan.Proofs.Picture.Preamble

/-!
# Floorplan.Proofs.Command.Input

Where a request finds its picture. It is the data of the resource that is selected, or the input
without its preamble (`Command.Pictured`). What can be decoded is found as it is in a resource, in a
file that holds nothing else, and behind a preamble (`Command.Carries`), so the same level comes of all
three (`Command.carried_alike`).
-/

namespace Floorplan
namespace Command

theorem within_eq_ok_iff {α ε ε' : Type} {context : ε → ε'} {x : Except ε α} {a : α} :
    within context x = .ok a ↔ x = .ok a := by
  cases x <;> simp [within]

/-- The bytes of the picture that a request finds in an input. -/
inductive Pictured (r : Request) (type : TypeCode) (name : String) (input : List UInt8) :
    List UInt8 → Prop where
  | resource {fork : Fork} {found : Resource} : r.raw = false →
    Container.decode input = .ok fork → fork.select type r.resource name = .ok found →
    Pictured r type name input found.data
  | raw : r.raw = true → Pictured r type name input (Picture.dropPreamble input)

variable {r : Request} {type : TypeCode} {name : String} {input picture : List UInt8}

theorem pictureBytes_eq_ok_iff :
    pictureBytes r type name input = .ok picture ↔ Pictured r type name input picture := by
  unfold pictureBytes
  cases hraw : r.raw with
  | true =>
    rw [if_pos rfl]
    constructor
    · intro h
      cases h
      exact .raw hraw
    · intro h
      cases h with
      | resource hcontainer => exact absurd (hraw.symm.trans hcontainer) Bool.noConfusion
      | raw _ => rfl
  | false =>
    rw [if_neg Bool.false_ne_true]
    simp only [bind_eq_ok_iff, within_eq_ok_iff]
    constructor
    · rintro ⟨fork, hfork, found, hfound, h⟩
      cases h
      exact .resource hraw hfork hfound
    · intro h
      cases h with
      | resource _ hfork hfound => exact ⟨_, hfork, _, hfound, rfl⟩
      | raw hbare => exact absurd (hraw.symm.trans hbare) Bool.noConfusion

/-- The inputs that hand a picture to a request: the containers in which it is the data of the
resource that is selected, the picture itself, and files with a preamble in front of it. -/
inductive Carries (r : Request) (type : TypeCode) (name : String) (picture : List UInt8) :
    List UInt8 → Prop where
  | resource {input : List UInt8} {fork : Fork} {found : Resource} : r.raw = false →
    Container.decode input = .ok fork → fork.select type r.resource name = .ok found →
    found.data = picture → Carries r type name picture input
  | bare : r.raw = true → Carries r type name picture picture
  | file {preamble : List UInt8} : r.raw = true → preamble.length = Picture.preambleSize →
    Picture.versionFound? preamble ≠ some Picture.versionMark →
    Carries r type name picture (preamble ++ picture)

theorem Carries.pictured {p : Picture} (h : Carries r type name picture input)
    (hdecode : Picture.decode picture = .ok p) : Pictured r type name input picture := by
  cases h with
  | resource hraw hfork hfound hdata =>
    rw [← hdata]
    exact .resource hraw hfork hfound
  | bare hraw =>
    have hfound : Pictured r type name input (Picture.dropPreamble input) := .raw hraw
    rwa [Picture.dropPreamble_of_decode hdecode] at hfound
  | @file preamble hraw hlength hversion =>
    have hfound : Pictured r type name (preamble ++ picture)
        (Picture.dropPreamble (preamble ++ picture)) := .raw hraw
    rwa [Picture.dropPreamble_append hlength hversion hdecode] at hfound

/-- A picture that can be decoded is no preamble, and one behind a preamble that does not hold the mark
of the version itself is found, whatever the bytes further on hold. So the same comes of it from a
resource, by itself and behind a preamble. What is dropped is a preamble or nothing, and dropping again
drops nothing. -/
theorem carried_alike :
    (∀ (picture : List UInt8) (p : Picture), Picture.decode picture = .ok p →
      Picture.dropPreamble picture = picture ∧
        (∀ preamble : List UInt8, preamble.length = Picture.preambleSize →
          Picture.versionFound? preamble ≠ some Picture.versionMark →
          Picture.dropPreamble (preamble ++ picture) = picture) ∧
        ∀ (r : Request) (type : TypeCode) (name : String) (input : List UInt8),
          Carries r type name picture input → ∀ options : Options,
            (do
              let found ← pictureBytes r type name input
              within .picture (Conversion.ofPicture options found)) =
              .ok (Conversion.ofOperations options p.operations)) ∧
      ∀ bytes : List UInt8,
        Picture.dropPreamble (Picture.dropPreamble bytes) = Picture.dropPreamble bytes ∧
          (Picture.dropPreamble bytes = bytes ∨
            Picture.dropPreamble bytes = bytes.drop Picture.preambleSize) := by
  constructor
  · intro picture p hdecode
    refine ⟨Picture.dropPreamble_of_decode hdecode,
      fun _ hlength hversion => Picture.dropPreamble_append hlength hversion hdecode, ?_⟩
    intro r type name input hcarries options
    rw [bind_eq_ok_iff]
    refine ⟨picture, pictureBytes_eq_ok_iff.mpr (hcarries.pictured hdecode), ?_⟩
    rw [within_eq_ok_iff, Conversion.ofPicture, hdecode]
  · intro bytes
    exact ⟨Picture.dropPreamble_dropPreamble bytes,
      (Picture.dropPreamble_cases bytes).imp_right And.left⟩

/-- A picture whose comment holds the mark of the version where a header behind a preamble would. It is
found by itself, behind a preamble of zeros and in a container. -/
theorem carried_alike_comment :
    let comment : List UInt8 :=
      List.replicate 476 0 ++ Bytes.ofLong Picture.versionMark ++ List.replicate 80 0
    let p : Picture := ⟨⟨0, 0, 480, 640⟩, [.longComment 100 comment]⟩
    let preamble : List UInt8 := List.replicate 512 0
    let fork : Fork := ⟨[⟨.pict, ⟨128, some "Crater", 0, p.encode⟩⟩]⟩
    let bare : Request := ⟨"in", some "out", some "Crater", none, true, none, false, 0, 0⟩
    let options : Options := ⟨"Crater", none, .ofInt 3, 0⟩
    Picture.hasHeader (p.encode.drop Picture.preambleSize) = true ∧
      Picture.decode p.encode = .ok p ∧ Picture.dropPreamble p.encode = p.encode ∧
      (preamble.length = Picture.preambleSize ∧
        Picture.versionFound? preamble ≠ some Picture.versionMark ∧
        Picture.dropPreamble (preamble ++ p.encode) = p.encode) ∧
      ∀ carried ∈ [(bare, p.encode), (bare, preamble ++ p.encode),
          ({ bare with raw := false }, Container.encode fork)],
        Carries carried.1 .pict "Crater" p.encode carried.2 ∧
          (do
            let found ← pictureBytes carried.1 .pict "Crater" carried.2
            within .picture (Conversion.ofPicture options found)) =
            .ok (Conversion.ofOperations options p.operations) := by
  intro comment p preamble fork bare options
  have hdecode : Picture.decode p.encode = .ok p := by decide +kernel
  have hlength : preamble.length = Picture.preambleSize := List.length_replicate
  have hversion : Picture.versionFound? preamble ≠ some Picture.versionMark := by decide +kernel
  have hfork : Container.decode (Container.encode fork) = .ok fork := by decide +kernel
  have hfound : fork.select .pict none "Crater" = .ok ⟨128, some "Crater", 0, p.encode⟩ := rfl
  obtain ⟨hkept, hdropped, halike⟩ := carried_alike.1 p.encode p hdecode
  refine ⟨by decide +kernel, hdecode, hkept, ⟨hlength, hversion, hdropped _ hlength hversion⟩, ?_⟩
  have hcarries : ∀ carried ∈ [(bare, p.encode), (bare, preamble ++ p.encode),
      ({ bare with raw := false }, Container.encode fork)],
      Carries carried.1 .pict "Crater" p.encode carried.2 := by
    simp only [List.forall_mem_cons]
    exact ⟨.bare rfl, .file rfl hlength hversion, .resource rfl hfork hfound rfl, List.forall_mem_nil _⟩
  exact fun carried hmem => ⟨hcarries carried hmem, halike _ _ _ _ (hcarries carried hmem) options⟩

end Command
end Floorplan

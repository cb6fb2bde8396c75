import Floorplan.Proofs.Reading
import Floorplan.Settings

/-!
# Floorplan.Proofs.Settings

The heights that a document of settings can set. An integer out of range is refused and a real
number is clamped after it was compared with the limit, so all heights are in range
(`inRange_of_parse`).
-/

namespace Floorplan
namespace Settings

/-- Both heights are in range. -/
structure InRange (s : Settings) : Prop where
  wall : s.wallHeight.inRange = true
  base : s.baseHeight.inRange = true

theorem inRange_clamp (n : Int) : (Decimal.clamp n).inRange = true := by
  have hlimit : Decimal.limit.hundredths = 2147483647 := rfl
  unfold Decimal.inRange Decimal.clamp
  rw [decide_eq_true_eq, hlimit]
  dsimp only
  omega

theorem inRange_of_height {key : String} {value : Toml.Value} {x : Decimal}
    (h : height key value = .ok x) : x.inRange = true := by
  unfold height at h
  split at h
  · split at h
    · next hx =>
      cases h
      unfold Decimal.ofInt? at hx
      split at hx
      · next hrange =>
        cases hx
        exact hrange
      · cases hx
    · cases h
  · split at h
    · cases h
      unfold Decimal.snap
      split
      · exact inRange_clamp _
      · exact inRange_clamp _
      · rfl
    · cases h
  · cases h

theorem inRange_set {s t : Settings} {item : Toml.Item} (hs : s.InRange) (h : s.set item = .ok t) :
    t.InRange := by
  obtain ⟨key, value⟩ := item
  unfold set at h
  dsimp only at h
  split at h
  · obtain ⟨x, hx, h⟩ := bind_eq_ok h
    cases h
    exact ⟨inRange_of_height hx, hs.base⟩
  · obtain ⟨x, hx, h⟩ := bind_eq_ok h
    cases h
    exact ⟨hs.wall, inRange_of_height hx⟩
  · obtain ⟨author, -, h⟩ := bind_eq_ok h
    cases h
    exact ⟨hs.wall, hs.base⟩
  · obtain ⟨resourceType, -, h⟩ := bind_eq_ok h
    cases h
    exact ⟨hs.wall, hs.base⟩
  · cases h

theorem inRange_foldlM {s t : Settings} (items : List Toml.Item) (hs : s.InRange)
    (h : items.foldlM set s = .ok t) : t.InRange := by
  induction items generalizing s with
  | nil =>
    cases h
    exact hs
  | cons item items ih =>
    rw [List.foldlM_cons] at h
    obtain ⟨u, hu, h⟩ := bind_eq_ok h
    exact ih (inRange_set hs hu) h

theorem inRange_of_parse {document : String} {s : Settings} (h : parse document = .ok s) :
    s.InRange := by
  have hstandard : standard.InRange := ⟨rfl, rfl⟩
  unfold parse at h
  split at h
  · cases h
  · next items _ =>
    obtain ⟨t, ht, h⟩ := bind_eq_ok h
    obtain ⟨code, -, h⟩ := bind_eq_ok h
    cases h
    exact inRange_foldlM _ hstandard ht

end Settings
end Floorplan

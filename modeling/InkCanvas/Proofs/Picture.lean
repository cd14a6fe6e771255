import Mathlib
import InkCanvas.Raster.Picture

/-! # What an eraser leaves of a picture

Marks of the eraser are laid over what is below them like any other ink. Ink covers a pixel if it is
opaque or if there is nothing below it to be seen (`Pixel.laidOver_eq_ink_iff`), and nothing is to be
seen where the background and all inks are transparent (`layered_eq_clear_iff`). So a pixel that was
erased last shows the background if and only if the background is opaque, or it is transparent and
every mark on the pixel is (`Frame.erased_shows_background_iff`). -/

namespace InkCanvas
namespace Pixel

/-- Nothing is to be seen. -/
def clear : Pixel := ⟨0, 0, 0, 0⟩

/-! ## Colors -/

private theorem round_fraction (x : Fin 256) :
    (fraction (.ofFin x) * 255 + 0.5).toUInt8 = .ofFin x := by
  revert x
  decide +kernel

private theorem round_fraction_mul_zero (x : Fin 256) :
    (fraction (.ofFin x) * fraction 0 * 255 + 0.5).toUInt8 = 0 := by
  revert x
  decide +kernel

theorem a_ofColor (c : Color) : (ofColor c).a = c.a := round_fraction c.a.toFin

theorem ofColor_eq_clear_iff {c : Color} : ofColor c = clear ↔ c.a = 0 := by
  constructor
  · intro h
    rw [← a_ofColor, h, clear]
  · intro h
    have hcolor (x : UInt8) : (fraction x * fraction 0 * 255 + 0.5).toUInt8 = 0 :=
      round_fraction_mul_zero x.toFin
    have halpha : (fraction 0 * 255 + 0.5).toUInt8 = 0 := round_fraction 0
    have htransparent : (0 : UInt8) ≠ 255 := by decide
    simp only [ofColor, h, if_neg htransparent, hcolor, halpha, clear]

/-! ## One ink over another -/

/-- What ink of the given opacity lets through of a channel below it. -/
def through (alpha under : UInt8) : Nat := (under.toNat * (255 - alpha.toNat) + 255) / 256

theorem through_le (alpha under : UInt8) : through alpha under ≤ 255 - alpha.toNat := by
  have hunder : under.toNat ≤ 255 := by have := under.toNat_lt; omega
  have hmul := Nat.mul_le_mul_right (255 - alpha.toNat) hunder
  unfold through
  omega

theorem through_eq_zero_iff {alpha under : UInt8} :
    through alpha under = 0 ↔ alpha = 255 ∨ under = 0 := by
  have halpha := alpha.toNat_lt
  have hiff : through alpha under = 0 ↔ under.toNat * (255 - alpha.toNat) = 0 := by
    unfold through
    omega
  rw [hiff, Nat.mul_eq_zero, or_comm, ← UInt8.toNat_inj, ← UInt8.toNat_inj]
  have hfull : (255 : UInt8).toNat = 255 := rfl
  have hzero : (0 : UInt8).toNat = 0 := rfl
  omega

theorem toNat_through (alpha under : UInt8) :
    (through alpha under).toUInt8.toNat = through alpha under := by
  have := through_le alpha under
  exact Nat.mod_eq_of_lt (by omega)

theorem overChannel_eq_ink_iff {alpha ink under : UInt8} :
    overChannel alpha ink under = ink ↔ alpha = 255 ∨ under = 0 := by
  change ink + (through alpha under).toUInt8 = ink ↔ _
  rw [add_eq_left, ← UInt8.toNat_inj, toNat_through, ← through_eq_zero_iff]
  rfl

/-- The sum of what is added does not wrap around, so no opacity is lost. -/
theorem overChannel_self_eq_zero_iff {alpha under : UInt8} :
    overChannel alpha alpha under = 0 ↔ alpha = 0 ∧ under = 0 := by
  have hle := through_le alpha under
  have halpha := alpha.toNat_lt
  have hsum : (overChannel alpha alpha under).toNat = alpha.toNat + through alpha under := by
    change (alpha + (through alpha under).toUInt8).toNat = _
    rw [UInt8.toNat_add, toNat_through]
    omega
  have hzero : alpha.toNat = 0 ↔ alpha = 0 := UInt8.toNat_inj (b := 0)
  rw [← UInt8.toNat_inj, hsum]
  change alpha.toNat + through alpha under = 0 ↔ _
  rw [Nat.add_eq_zero_iff, hzero, through_eq_zero_iff]
  refine and_congr_right ?_
  rintro rfl
  exact or_iff_right (by decide)

/-- Ink covers what is below it if it is opaque, or if nothing is to be seen there. -/
theorem laidOver_eq_ink_iff {ink under : Pixel} :
    ink.laidOver under = ink ↔ ink.a = 255 ∨ under = clear := by
  obtain ⟨r, g, b, a⟩ := ink
  obtain ⟨r', g', b', a'⟩ := under
  simp only [laidOver, mk.injEq, overChannel_eq_ink_iff, clear]
  tauto

theorem laidOver_eq_clear_iff {c : Color} {under : Pixel} :
    (ofColor c).laidOver under = clear ↔ c.a = 0 ∧ under = clear := by
  have htransparent (h : c.a = 0) : (ofColor c).laidOver under = clear ↔ under = clear := by
    rw [ofColor_eq_clear_iff.mpr h, laidOver_eq_ink_iff]
    exact or_iff_right (by decide)
  constructor
  · intro h
    have ha : overChannel (ofColor c).a (ofColor c).a under.a = 0 := congrArg Pixel.a h
    have hc : c.a = 0 := (a_ofColor c).symm.trans (overChannel_self_eq_zero_iff.mp ha).1
    exact ⟨hc, (htransparent hc).mp h⟩
  · rintro ⟨hc, hunder⟩
    exact (htransparent hc).mpr hunder

end Pixel

/-! ## Layers of ink -/

theorem layered_append_singleton (background : Color) (inks : List Color) (ink : Color) :
    layered background (inks ++ [ink]) =
      (Pixel.ofColor ink).laidOver (layered background inks) :=
  List.foldl_concat ..

/-- Nothing is to be seen where the background and all inks are transparent, and only there. -/
theorem layered_eq_clear_iff {background : Color} {inks : List Color} :
    layered background inks = .clear ↔ background.a = 0 ∧ ∀ ink ∈ inks, ink.a = 0 := by
  induction inks using List.reverseRecOn with
  | nil =>
    rw [layered, List.foldl_nil, Pixel.ofColor_eq_clear_iff]
    simp
  | append_singleton inks ink ih =>
    rw [layered_append_singleton, Pixel.laidOver_eq_clear_iff, ih, List.forall_mem_append,
      List.forall_mem_singleton]
    tauto

/-- The background laid over a number of inks shows itself if it is opaque, or if all of them and
itself are transparent. -/
theorem layered_background_eq_iff {background : Color} {inks : List Color} :
    layered background (inks ++ [background]) = .ofColor background ↔
      background.a = 255 ∨ background.a = 0 ∧ ∀ ink ∈ inks, ink.a = 0 := by
  rw [layered_append_singleton, Pixel.laidOver_eq_ink_iff, Pixel.a_ofColor, layered_eq_clear_iff]

/-! ## Erased pixels -/

namespace Frame

/-- The pixel that the marks picked out by `covers` give, back to front. -/
def pixelUnder (f : Frame Float) (covers : Mark Float → Bool) (background : Color) : Pixel :=
  layered background ((f.marks.filter covers).map (·.ink background))

/-- A picture of a frame has at each place the pixel that the marks covering its center give. -/
theorem pixel?_ofFrame {f : Frame Float} {covers : Mark Float → Bool} {width height x y : Nat}
    (hsize : isPaintable width height = true) (hx : x < width) (hy : y < height)
    (hcovers : ∀ k ∈ f.marks,
      (Shape.ofPath k.path k.width).covers (Picture.center x y) = covers k) (background : Color) :
    ∃ picture, Picture.ofFrame f width height background = .ok picture ∧
      picture.pixel? x y = some (f.pixelUnder covers background) := by
  refine ⟨_, if_pos hsize, (if_pos ⟨hx, hy⟩).trans (congrArg some ?_)⟩
  rw [Picture.shade, List.filter_map, List.map_map, pixelUnder]
  exact congrArg (fun marks => layered background (marks.map (·.ink background)))
    (List.filter_congr hcovers)

/-- A pixel on which the eraser was last shows what an empty page shows if and only if the page is
opaque, or the page and all that was painted on the pixel is transparent. -/
theorem erased_shows_background_iff {f : Frame Float} {covers : Mark Float → Bool} {m : Mark Float}
    (hlast : (f.marks.filter covers).getLast? = some m) (htool : m.tool = .eraser)
    (background : Color) :
    (f.pixelUnder covers background = blank.pixelUnder covers background ↔
      background.a = 255 ∨
        background.a = 0 ∧ ∀ k ∈ f.marks.filter covers, (k.ink background).a = 0) ∧
    ∀ {width height x y : Nat}, isPaintable width height = true → x < width → y < height →
      (∀ k ∈ f.marks, (Shape.ofPath k.path k.width).covers (Picture.center x y) = covers k) →
      ∃ picture page, Picture.ofFrame f width height background = .ok picture ∧
        Picture.ofFrame blank width height background = .ok page ∧
        picture.pixel? x y = some (f.pixelUnder covers background) ∧
        page.pixel? x y = some (blank.pixelUnder covers background) := by
  constructor
  · obtain ⟨below, hbelow⟩ := List.getLast?_eq_some_iff.mp hlast
    have hink : m.ink background = background := by rw [Mark.ink, htool]
    have hpage : blank.pixelUnder covers background = .ofColor background := rfl
    rw [hpage, pixelUnder, hbelow, List.map_append, List.map_singleton, hink,
      layered_background_eq_iff, List.forall_mem_append, List.forall_mem_singleton, hink,
      List.forall_mem_map]
    tauto
  · intro width height x y hsize hx hy hcovers
    obtain ⟨picture, hpicture, hpixel⟩ := pixel?_ofFrame hsize hx hy hcovers background
    obtain ⟨page, hpage, hempty⟩ : ∃ page, Picture.ofFrame blank width height background = .ok page ∧
        page.pixel? x y = some (blank.pixelUnder covers background) :=
      pixel?_ofFrame hsize hx hy (List.forall_mem_nil _) background
    exact ⟨picture, page, hpicture, hpage, hpixel, hempty⟩

/-- A dot erased from a page is gone if the page is white, and all there if it is transparent. -/
theorem erased_shows_background_iff_of_dot :
    let dot : Mark Float := ⟨none, .dot ⟨20, 20⟩ 6, .black, 12, .pen⟩
    let eraser : Mark Float := ⟨none, .dot ⟨20, 20⟩ 12, .black, 24, .eraser⟩
    let f : Frame Float := ⟨[dot, eraser], none, .initial, 0⟩
    let covers (m : Mark Float) : Bool :=
      match m.path with
      | .dot center radius => center.distanceSq (Picture.center 20 20) ≤ radius * radius
      | _ => false
    f.pixelUnder covers .white = blank.pixelUnder covers .white ∧
      f.pixelUnder covers ⟨255, 255, 255, 0⟩ ≠ blank.pixelUnder covers ⟨255, 255, 255, 0⟩ := by
  intro dot eraser f covers
  have hcovers : f.marks.filter covers = [dot, eraser] := by
    have hdot : covers dot = true := by decide +kernel
    have heraser : covers eraser = true := by decide +kernel
    simp [marks, f, hdot, heraser]
  have hlast : (f.marks.filter covers).getLast? = some eraser := by rw [hcovers]; rfl
  have hwhite := (erased_shows_background_iff hlast rfl .white).1
  have htransparent := (erased_shows_background_iff hlast rfl ⟨255, 255, 255, 0⟩).1
  refine ⟨hwhite.mpr (.inl rfl), fun hsame => ?_⟩
  rcases htransparent.mp hsame with hopaque | ⟨-, hbelow⟩
  · cases hopaque
  · have hblack := hbelow dot (by rw [hcovers]; exact .head _)
    cases hblack

end Frame
end InkCanvas

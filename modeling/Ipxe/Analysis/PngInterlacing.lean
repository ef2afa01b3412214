import Ipxe.Model.Png
import Mathlib.Data.List.Nodup
import Mathlib.Tactic.IntervalCases

/-!
# Interlacing tiles the image

A pass takes the coordinates of one residue class on each axis.  The classes of the passes cover
the grid and do not meet, so that each pixel belongs to one pass.
-/

namespace Ipxe.Analysis

open Model List BitVec

variable (method : PngInterlaceMethod)

/-- A pass along one axis. -/
structure PassAxis where
  indent : ℕ
  strideLog2 : ℕ
  log2_le : strideLog2 ≤ 3 := by decide
  indent_lt : indent < 2 ^ strideLog2 := by decide

variable (axis : PassAxis)

def PassAxis.takes (coordinate : ℕ) : Bool :=
  coordinate % 2 ^ axis.strideLog2 = axis.indent

theorem PassAxis.takes_mod (coordinate : ℕ) :
    axis.takes (coordinate % 8) = axis.takes coordinate := by
  rw [takes, Nat.mod_mod_of_dvd _ (show 2 ^ axis.strideLog2 ∣ 8 from pow_dvd_pow 2 axis.log2_le),
    takes]

/-- The passes along the two axes. -/
def passAxes : PngInterlaceMethod → List (PassAxis × PassAxis)
  | .none => [(.mk 0 0, .mk 0 0)]
  | .adam7 =>
    [(.mk 0 3, .mk 0 3), (.mk 4 3, .mk 0 3), (.mk 0 2, .mk 4 3), (.mk 2 2, .mk 0 2),
      (.mk 0 1, .mk 2 2), (.mk 1 1, .mk 0 1), (.mk 0 0, .mk 1 1)]

theorem passAxes_disjoint :
    (passAxes method).Pairwise fun p q => ∀ x < 8, ∀ y < 8,
      p.1.takes x ∧ p.2.takes y → ¬ (q.1.takes x ∧ q.2.takes y) := by
  cases method <;> decide

theorem passAxes_cover :
    ∀ x < 8, ∀ y < 8, ∃ axes ∈ passAxes method, axes.1.takes x ∧ axes.2.takes y := by
  cases method <;> decide

/-- A pass reaches its coordinates inside the image, unless the computation of the number of its
steps wraps around. -/
structure PassAxis.Reaches (axis : PassAxis) (size : BitVec 32) (coordinate : ℕ) : Prop where
  inside : coordinate < size.toNat
  taken : axis.takes coordinate = true
  fits : size.toNat + 2 ^ axis.strideLog2 ≤ 2 ^ 32 + axis.indent

theorem PassAxis.reaches_iff (size : BitVec 32) (coordinate : ℕ) :
    axis.Reaches size coordinate ↔
      ∃ step < (pngPassSize size axis.indent axis.strideLog2).toNat,
        (axis.indent : BitVec 32).toNat + step * (1#32 <<< axis.strideLog2).toNat = coordinate := by
  obtain ⟨indent, log, hlog, hindent⟩ := axis
  constructor
  · rintro ⟨hinside, htaken, hfits⟩
    rw [takes, decide_eq_true_iff] at htaken
    refine ⟨coordinate / 2 ^ log, ?_, ?_⟩
    · rw [pngPassSize, toNat_ushiftRight, Nat.shiftRight_eq_div_pow]
      interval_cases log <;> simp at * <;> omega
    · interval_cases log <;> simp at * <;> omega
  · rintro ⟨step, hstep, rfl⟩
    rw [pngPassSize, toNat_ushiftRight, Nat.shiftRight_eq_div_pow] at hstep
    refine ⟨?_, ?_, ?_⟩ <;> interval_cases log <;> simp [takes] at * <;> omega

variable {width height : BitVec 32}

def passOf (width height : BitVec 32) (axes : PassAxis × PassAxis) : PngInterlace where
  xIndent := axes.1.indent
  yIndent := axes.2.indent
  xStride := 1#32 <<< axes.1.strideLog2
  yStride := 1#32 <<< axes.2.strideLog2
  width := pngPassSize width axes.1.indent axes.1.strideLog2
  height := pngPassSize height axes.2.indent axes.2.strideLog2

theorem pngPixels_eq :
    pngPixels (pngInterlacePasses method) width height =
      (passAxes method).flatMap fun axes => pngPixelsPass (passOf width height axes) := by
  cases method <;> rfl

theorem mem_pngPixelsPass {axes : PassAxis × PassAxis} {pixel : ℕ × ℕ} :
    pixel ∈ pngPixelsPass (passOf width height axes) ↔
      axes.1.Reaches width pixel.1 ∧ axes.2.Reaches height pixel.2 := by
  rw [axes.1.reaches_iff, axes.2.reaches_iff, pngPixelsPass, mem_map]
  constructor
  · rintro ⟨⟨y, x⟩, hmem, rfl⟩
    obtain ⟨hy, hx⟩ := mem_product.1 hmem
    exact ⟨⟨x, mem_range.1 hx, rfl⟩, y, mem_range.1 hy, rfl⟩
  · rintro ⟨⟨x, hx, hpx⟩, y, hy, hpy⟩
    exact ⟨(y, x), mem_product.2 ⟨mem_range.2 hy, mem_range.2 hx⟩, Prod.ext hpx hpy⟩

theorem nodup_pngPixelsPass (axes : PassAxis × PassAxis) :
    (pngPixelsPass (passOf width height axes)).Nodup := by
  have hstride : ∀ axis : PassAxis, 0 < (1#32 <<< axis.strideLog2).toNat := by
    rintro ⟨indent, log, hlog, -⟩
    interval_cases log <;> exact Nat.succ_pos _
  refine (nodup_range.product nodup_range).map ?_
  rintro ⟨y, x⟩ ⟨y', x'⟩ heq
  rw [Prod.ext_iff, Nat.add_left_cancel_iff, Nat.add_left_cancel_iff] at heq
  exact Prod.ext (Nat.eq_of_mul_eq_mul_right (hstride _) heq.2)
    (Nat.eq_of_mul_eq_mul_right (hstride _) heq.1)

theorem nodup_pngPixels : (pngPixels (pngInterlacePasses method) width height).Nodup := by
  rw [pngPixels_eq]
  refine nodup_flatMap.2 ⟨fun axes _ => nodup_pngPixelsPass axes, ?_⟩
  refine (passAxes_disjoint method).imp fun {p q} hpq pixel hp hq => ?_
  obtain ⟨hpx, hpy⟩ := mem_pngPixelsPass.1 hp
  obtain ⟨hqx, hqy⟩ := mem_pngPixelsPass.1 hq
  have hclash := hpq (pixel.1 % 8) (Nat.mod_lt _ (by decide)) (pixel.2 % 8)
    (Nat.mod_lt _ (by decide))
  simp only [PassAxis.takes_mod] at hclash
  exact hclash ⟨hpx.taken, hpy.taken⟩ ⟨hqx.taken, hqy.taken⟩

/-- The passes fill each pixel of the image once and nothing else. -/
def Tiles (method : PngInterlaceMethod) (width height : BitVec 32) : Prop :=
  (pngPixels (pngInterlacePasses method) width height).Nodup ∧
    ∀ pixel, pixel ∈ pngPixels (pngInterlacePasses method) width height ↔
      pixel.1 < width.toNat ∧ pixel.2 < height.toNat

/-- Only the first of seven passes fills the first pixel. -/
theorem fits_of_first_mem (h : (0, 0) ∈ pngPixels (pngInterlacePasses .adam7) width height) :
    width.toNat + 7 < 2 ^ 32 ∧ height.toNat + 7 < 2 ^ 32 := by
  have honly : ∀ axes ∈ passAxes .adam7, axes.1.takes 0 ∧ axes.2.takes 0 →
      (axes.1.strideLog2 = 3 ∧ axes.1.indent = 0) ∧ axes.2.strideLog2 = 3 ∧ axes.2.indent = 0 := by
    decide
  rw [pngPixels_eq] at h
  obtain ⟨axes, haxes, hfirst⟩ := mem_flatMap.1 h
  obtain ⟨⟨-, hx, hwidth⟩, -, hy, hheight⟩ := mem_pngPixelsPass.1 hfirst
  obtain ⟨⟨hlogx, hindentx⟩, hlogy, hindenty⟩ := honly axes haxes ⟨hx, hy⟩
  rw [hlogx, hindentx] at hwidth
  rw [hlogy, hindenty] at hheight
  exact ⟨by omega, by omega⟩

/-- **Interlacing tiles every image that is not empty exactly if it has one pass, or the size of
the first of seven passes is computed without wrapping around.** -/
theorem png_interlace_tiles (method : PngInterlaceMethod) (width height : BitVec 32) :
    Tiles method width height ↔
      (method = .adam7 → width ≠ 0 → height ≠ 0 →
        width.toNat + 7 < 2 ^ 32 ∧ height.toNat + 7 < 2 ^ 32) := by
  constructor
  · rintro htiles rfl hwidth hheight
    have hpos : ∀ size : BitVec 32, size ≠ 0 → 0 < size.toNat := by bv_omega
    exact fits_of_first_mem ((htiles.2 (0, 0)).2 ⟨hpos width hwidth, hpos height hheight⟩)
  · refine fun hfits => ⟨nodup_pngPixels method, fun pixel => ?_⟩
    rw [pngPixels_eq, mem_flatMap]
    constructor
    · rintro ⟨axes, -, hpixel⟩
      obtain ⟨hx, hy⟩ := mem_pngPixelsPass.1 hpixel
      exact ⟨hx.inside, hy.inside⟩
    · rintro ⟨hx, hy⟩
      obtain ⟨axes, haxes, htaken⟩ := passAxes_cover method (pixel.1 % 8)
        (Nat.mod_lt _ (by decide)) (pixel.2 % 8) (Nat.mod_lt _ (by decide))
      simp only [PassAxis.takes_mod] at htaken
      have hwraps : width.toNat + 2 ^ axes.1.strideLog2 ≤ 2 ^ 32 + axes.1.indent ∧
          height.toNat + 2 ^ axes.2.strideLog2 ≤ 2 ^ 32 + axes.2.indent := by
        cases method with
        | none =>
          cases mem_singleton.1 haxes
          exact ⟨width.isLt, height.isLt⟩
        | adam7 =>
          have hfits := hfits rfl (by rintro rfl; exact absurd hx (Nat.not_lt_zero _))
            (by rintro rfl; exact absurd hy (Nat.not_lt_zero _))
          have hpowx := Nat.pow_le_pow_right two_pos axes.1.log2_le
          have hpowy := Nat.pow_le_pow_right two_pos axes.2.log2_le
          exact ⟨by omega, by omega⟩
      exact ⟨axes, haxes, mem_pngPixelsPass.2
        ⟨⟨hx, htaken.1, hwraps.1⟩, hy, htaken.2, hwraps.2⟩⟩

/-- A line of `2 ^ 32 - 1` pixels: its first pixel is left out. -/
theorem png_interlace_tiles_wraps : ¬ Tiles .adam7 0xffffffff 1 := fun htiles =>
  absurd (fits_of_first_mem ((htiles.2 (0, 0)).2 (by decide))).1 (by decide)

end Ipxe.Analysis

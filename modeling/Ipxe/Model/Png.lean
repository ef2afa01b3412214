import Mathlib.Data.List.ProdSigma

/-!
# PNG images

The interlace passes of `image/png.c`.  An `unsigned int` has 32 bits.
-/

namespace Ipxe.Model

/-- A PNG interlace pass.
[image/png.c:68-84] -/
structure PngInterlace where
  xIndent : BitVec 32
  yIndent : BitVec 32
  xStride : BitVec 32
  yStride : BitVec 32
  width : BitVec 32
  height : BitVec 32
  deriving DecidableEq, Repr

/-- PNG interlace methods.
[include/ipxe/png.h:134-142] -/
inductive PngInterlaceMethod where
  | none
  | adam7
  deriving DecidableEq, Repr

/-- Number of interlacing passes.
[image/png.c:88-92] -/
def pngInterlacePasses : PngInterlaceMethod → ℕ
  | .none => 1
  | .adam7 => 7

/-- The size of a pass along one axis.
[image/png.c:157-162] -/
def pngPassSize (size indent : BitVec 32) (strideLog2 : ℕ) : BitVec 32 :=
  (size - indent + (1#32 <<< strideLog2) - 1) >>> strideLog2

/-- Calculate PNG interlace pass parameters.
[image/png.c:118-163] -/
def pngInterlace (passes pass : ℕ) (width height : BitVec 32) : PngInterlace :=
  let gridWidthLog2 := passes / 2
  let gridHeightLog2 := (passes - 1) / 2
  let xIndent := if pass % 2 = 1 then 1#32 <<< (gridWidthLog2 - pass / 2 - 1) else 0
  let yIndent :=
    if pass ≠ 0 ∧ pass % 2 = 0 then 1#32 <<< (gridHeightLog2 - (pass - 1) / 2 - 1) else 0
  let xStrideLog2 := gridWidthLog2 - pass / 2
  let yStrideLog2 := gridHeightLog2 - (if pass ≠ 0 then (pass - 1) / 2 else 0)
  { xIndent := xIndent
    yIndent := yIndent
    xStride := 1#32 <<< xStrideLog2
    yStride := 1#32 <<< yStrideLog2
    width := pngPassSize width xIndent xStrideLog2
    height := pngPassSize height yIndent yStrideLog2 }

/-- The pixels that one pass fills, scanline by scanline.  Offsets into the pixel data do not go round:
`alloc_pixbuf` refuses an image whose number of bytes does not fit.
[image/png.c:651-760, core/pixbuf.c:68-74] -/
def pngPixelsPass (interlace : PngInterlace) : List (ℕ × ℕ) :=
  (List.range interlace.height.toNat ×ˢ List.range interlace.width.toNat).map fun (y, x) =>
    (interlace.xIndent.toNat + x * interlace.xStride.toNat,
      interlace.yIndent.toNat + y * interlace.yStride.toNat)

/-- Fill PNG pixels.
[image/png.c:773-791] -/
def pngPixels (passes : ℕ) (width height : BitVec 32) : List (ℕ × ℕ) :=
  (List.range passes).flatMap fun pass => pngPixelsPass (pngInterlace passes pass width height)

end Ipxe.Model

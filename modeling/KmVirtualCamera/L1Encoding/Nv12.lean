import Mathlib
import KmVirtualCamera.Core.Raster
import KmVirtualCamera.Core.Picture
import KmVirtualCamera.L1Encoding.H264

/-!
# NV12 pictures (`Letterbox`)

A luma plane and a plane of chroma pairs with half the columns and rows, each
with its own stride; the last row may stop at its last sample. `letterbox`
turns a picture by quarters, scales it into another one and blackens the rest.

Every index is signed and faults outside the buffer, so that memory safety is a
statement about a result. `int` and `int64_t` are `Int`: the sizes are at most
8192, so nothing comes near their limits, and no dividend is negative. An offset
is a natural number; inside a buffer it fits in `size_t`. Planes do not overlap.
-/
namespace KmVirtualCamera.L1.Nv12
open L1.H264 (Bytes)
open Raster

/-- mirrors shared/km/nv12.h:8-12 -/
structure Nv12View where
  y : Bytes
  uv : Bytes
  strideY : Nat := 0
  strideUV : Nat := 0
  width : Int := 0
  height : Int := 0
  deriving DecidableEq, Repr

/-- mirrors shared/km/nv12.h:13-17 -/
abbrev MutableNv12View := Nv12View

/-- mirrors shared/km/nv12.h:18-21 -/
def planeFits (bytes stride : Nat) (width rows : Int) : Bool :=
  if width ≤ 0 ∨ rows ≤ 0 ∨ stride < width.toNat ∨ bytes < width.toNat then false
  else (rows - 1).toNat ≤ (bytes - width.toNat) / stride

/-- mirrors shared/km/nv12.h:22-27 -/
def validNv12 (v : Nv12View) : Bool :=
  v.width > 0 && v.height > 0 && v.width ≤ 8192 && v.height ≤ 8192 &&
    v.width % 2 == 0 && v.height % 2 == 0 &&
    planeFits v.y.length v.strideY v.width v.height &&
    planeFits v.uv.length v.strideUV v.width (v.height / 2)

/-- `std::fill_n` row by row.
mirrors shared/km/nv12.h:30-31 -/
def fillPlane (plane : Bytes) (stride : Nat) (width rows : Int) (value : UInt8) : Checked Bytes :=
  loop rows (fun y plane => loop width (fun x plane => write plane (y * stride + x) value) plane) plane

/-- mirrors shared/km/nv12.h:28-33 -/
def fillBlack (d : MutableNv12View) : Checked (Bool × MutableNv12View) :=
  if !validNv12 d then .ok (false, d)
  else do
    let y ← fillPlane d.y d.strideY d.width d.height 16
    let uv ← fillPlane d.uv d.strideUV d.width (d.height / 2) 128
    .ok (true, { d with y := y, uv := uv })

/-- `n & ~1` -/
def even (n : Int) : Int := n / 2 * 2

/-- Where the picture is put.
mirrors shared/km/nv12.h:39-44 -/
structure Box where
  fw : Int
  fh : Int
  ox : Int
  oy : Int

/-- mirrors shared/km/nv12.h:39 -/
def rotated (s : Nv12View) (rotation : Int) : Int × Int :=
  if rotation % 180 ≠ 0 then (s.height, s.width) else (s.width, s.height)

/-- mirrors shared/km/nv12.h:39-42,44 -/
def box (s d : Nv12View) (rotation : Int) : Box :=
  let (rw, rh) := rotated s rotation
  let (fw, fh) :=
    if rw * d.height > rh * d.width then (d.width, even (d.width * rh / rw))
    else (even (d.height * rw / rh), d.height)
  { fw := fw, fh := fh, ox := even ((d.width - fw) / 2), oy := even ((d.height - fh) / 2) }

/-- mirrors shared/km/nv12.h:54-57 -/
def source (rotation sw sh rx ry : Int) : Int × Int :=
  if rotation = 90 then (ry, sh - 1 - rx)
  else if rotation = 180 then (sw - 1 - rx, sh - 1 - ry)
  else if rotation = 270 then (sw - 1 - ry, rx)
  else (rx, ry)

/-- One turn of the loop over the planes; `unit` is the bytes of a sample.
mirrors shared/km/nv12.h:46-61 -/
def drawPlane (s d : Nv12View) (rotation unit : Int) (src : Bytes) (ss : Nat) (dst : Bytes) (ds : Nat) :
    Checked Bytes :=
  let (rw, rh) := rotated s rotation
  let b := box s d rotation
  let sw := s.width / unit
  let sh := s.height / unit
  let w := b.fw / unit
  let h := b.fh / unit
  let rotatedW := rw / unit
  let rotatedH := rh / unit
  loop h (fun y dst => loop w (fun x dst =>
    let rx := x * rotatedW / w
    let ry := y * rotatedH / h
    let (sx, sy) := source rotation sw sh rx ry
    loop unit (fun c dst => do
      let sample ← read src (sy * ss + sx * unit + c)
      write dst ((b.oy / unit + y) * ds + (b.ox / unit + x) * unit + c) sample) dst) dst) dst

/-- mirrors shared/km/nv12.h:36-63 -/
def letterbox (s : Nv12View) (d : MutableNv12View) (rotation : Int) : Checked (Bool × MutableNv12View) :=
  if !validNv12 s || !validNv12 d ||
      (rotation ≠ 0 ∧ rotation ≠ 90 ∧ rotation ≠ 180 ∧ rotation ≠ 270) then .ok (false, d)
  else
    let b := box s d rotation
    if b.fw < 2 ∨ b.fh < 2 then .ok (false, d)
    else do
      let (_, d') ← fillBlack d
      let y ← drawPlane s d rotation 1 s.y s.strideY d'.y d.strideY
      let uv ← drawPlane s d rotation 2 s.uv s.strideUV d'.uv d.strideUV
      .ok (true, { d' with y := y, uv := uv })

end KmVirtualCamera.L1.Nv12

import Mathlib
import KmVirtualCamera.L1Encoding.Nv12

/-!
# `Letterbox` draws the turned picture

For any two views `letterbox` returns without an index outside a buffer
(`letterbox_spec`), and what it draws is said in pictures: each byte of the
samples of a plane is a `Picture`, and the destination shows the source's,
turned by quarters, scaled to the rectangle and inset on black (`Boxed`).
Turns compose as pictures do (`rotations_compose`).

The loops over a plane are two lists of writes, the black ones (`fills`) and the
picture's (`writes`). Different rows, columns and bytes are different offsets
(`sample_inj`), so the last write of each byte can be read off (`drawn`). A valid
view is even, and `Sized` counts in pairs of samples, so that one computation
does for luma and chroma.
-/
namespace KmVirtualCamera.L2.Letterbox
open L1.H264 (Bytes)
open L1.Nv12
open Raster Picture

/-! ## Planes -/

/-- `rows` rows of `width` bytes are in the buffer, the last one up to its last byte. -/
structure Fits (bytes stride width rows : Nat) : Prop where
  width_pos : 0 < width
  rows_pos : 0 < rows
  width_le : width ≤ stride
  last : (rows - 1) * stride + width ≤ bytes

theorem planeFits_iff {bytes stride width rows : Nat} :
    planeFits bytes stride width rows = true ↔ Fits bytes stride width rows := by
  unfold planeFits
  rw [Int.toNat_natCast]
  constructor
  · intro h
    split at h
    · cases h
    · rename_i hno
      simp only [not_or, not_le, not_lt] at hno
      obtain ⟨hw, hr, hstride, hbytes⟩ := hno
      have hle := of_decide_eq_true h
      rw [Nat.le_div_iff_mul_le (by omega), show ((rows : Int) - 1).toNat = rows - 1 by omega] at hle
      exact ⟨by omega, by omega, hstride, by omega⟩
  · intro ⟨hw, hr, hstride, hlast⟩
    rw [if_neg (by omega)]
    apply decide_eq_true
    rw [Nat.le_div_iff_mul_le (by omega), show ((rows : Int) - 1).toNat = rows - 1 by omega]
    omega

theorem Fits.lt {bytes stride width rows : Nat} (h : Fits bytes stride width rows) {r k : Nat}
    (hr : r < rows) (hk : k < width) : r * stride + k < bytes := by
  have hrow : r * stride ≤ (rows - 1) * stride := Nat.mul_le_mul_right _ (by omega)
  have hlast := h.last
  omega

/-- Different rows or different columns are different bytes. -/
theorem offset_inj {stride r r' k k' : Nat} (hk : k < stride) (hk' : k' < stride)
    (h : r * stride + k = r' * stride + k') : r = r' ∧ k = k' := by
  have hdiv := congrArg (· / stride) h
  have hmod := congrArg (· % stride) h
  simp only [Nat.mul_comm _ stride, Nat.mul_add_div (by omega : 0 < stride), Nat.div_eq_of_lt hk,
    Nat.div_eq_of_lt hk', Nat.mul_add_mod, Nat.mod_eq_of_lt hk, Nat.mod_eq_of_lt hk'] at hdiv hmod
  exact ⟨by omega, hmod⟩

theorem column_lt {unit cols x c : Nat} (hx : x < cols) (hc : c < unit) : x * unit + c < cols * unit := by
  have hle : (x + 1) * unit ≤ cols * unit := Nat.mul_le_mul_right _ hx
  rw [Nat.succ_mul] at hle
  omega

/-- Byte `c` of the samples of a plane. -/
def component (plane : Bytes) (stride unit c cols rows : Nat) : Picture UInt8 :=
  ⟨cols, rows, fun x y => plane.getD (y * stride + (x * unit + c)) 0⟩

/-! ## Filling -/

/-- What `fillPlane` writes. -/
def fills (stride width rows : Nat) (value : UInt8) : List (Nat × UInt8) :=
  (List.range rows).flatMap fun y => (List.range width).map fun x => (y * stride + x, value)

theorem fillPlane_eq {plane : Bytes} {stride width rows : Nat} (h : Fits plane.length stride width rows)
    (value : UInt8) : fillPlane plane stride width rows value =
      .ok (puts (fills stride width rows value) plane) := by
  refine loop_eq ?_ rfl
  intro y hy plane' hlen
  refine loop_write ?_ hlen
  intro x hx plane'' hlen'
  have hin := h.lt hy hx
  have hcast : (y : Int) * stride + x = ((y * stride + x : Nat) : Int) := by push_cast; rfl
  rw [hcast, write_ok (by rw [hlen']; exact hin)]

/-! ## Drawing -/

/-- Where the turned picture has a sample from. -/
theorem source_turns {k : Nat} (hk : k < 4) {sw sh rx ry : Nat} (hx : rx < if k % 2 = 0 then sw else sh)
    (hy : ry < if k % 2 = 0 then sh else sw) :
    ∃ sx sy : Nat, source (90 * k) sw sh rx ry = ((sx : Int), (sy : Int)) ∧ sx < sw ∧ sy < sh ∧
      ∀ P : Picture UInt8, P.width = sw → P.height = sh → (turns k P).sample rx ry = P.sample sx sy := by
  match k, hk with
  | 0, _ => exact ⟨rx, ry, rfl, hx, hy, fun _ _ _ => rfl⟩
  | 1, _ =>
    change rx < sh at hx
    change ry < sw at hy
    refine ⟨ry, sh - 1 - rx, ?_, hy, by omega, ?_⟩
    · simp only [source]
      refine Prod.ext ?_ ?_
      · simp
      · simp
        omega
    · intro P _ hh
      rw [← hh]
      rfl
  | 2, _ =>
    change rx < sw at hx
    change ry < sh at hy
    refine ⟨sw - 1 - rx, sh - 1 - ry, ?_, by omega, by omega, ?_⟩
    · simp only [source]
      refine Prod.ext ?_ ?_
      · simp
        omega
      · simp
        omega
    · intro P hw hh
      rw [← hw, ← hh]
      rfl
  | 3, _ =>
    change rx < sh at hx
    change ry < sw at hy
    refine ⟨sw - 1 - ry, rx, ?_, by omega, hx, ?_⟩
    · simp only [source]
      refine Prod.ext ?_ ?_
      · simp
        omega
      · simp
    · intro P hw hh
      change P.sample (P.width - 1 - ry) (P.height - 1 - (P.height - 1 - rx)) = _
      rw [hw, show P.height - 1 - (P.height - 1 - rx) = rx by omega]

/-- The writes of one plane: the turned and scaled picture, `X` samples to the
right and `Y` down. -/
def writes (P : Nat → Picture UInt8) (ds unit X Y : Nat) (w h : Nat) : List (Nat × UInt8) :=
  (List.range h).flatMap fun y => (List.range w).flatMap fun x => (List.range unit).map fun c =>
    ((Y + y) * ds + ((X + x) * unit + c), (scale (P c) w h).sample x y)

/-- What the drawing of a plane starts from, in samples of that plane. -/
structure Ready (s d : Nv12View) (k unit : Nat) (src : Bytes) (ss : Nat) (len ds : Nat)
    (sw sh dw dh w h X Y : Nat) : Prop where
  turns : k < 4
  unit_pos : 0 < unit
  sw_eq : s.width / unit = sw
  sh_eq : s.height / unit = sh
  w_eq : (box s d (90 * k)).fw / unit = w
  h_eq : (box s d (90 * k)).fh / unit = h
  x_eq : (box s d (90 * k)).ox / unit = X
  y_eq : (box s d (90 * k)).oy / unit = Y
  source : Fits src.length ss (sw * unit) sh
  target : Fits len ds (dw * unit) dh
  across : X + w ≤ dw
  down : Y + h ≤ dh

theorem rotated_size (s : Nv12View) {k : Nat} (hk : k < 4) :
    rotated s (90 * k) = if k % 2 = 0 then (s.width, s.height) else (s.height, s.width) := by
  match k, hk with
  | 0, _ => rfl
  | 1, _ => rfl
  | 2, _ => rfl
  | 3, _ => rfl

/-- One plane is drawn by these writes: no index is outside. -/
theorem drawPlane_eq {s d : Nv12View} {k unit : Nat} {src dst : Bytes} {ss ds : Nat}
    {sw sh dw dh w h X Y : Nat} (hr : Ready s d k unit src ss dst.length ds sw sh dw dh w h X Y) :
    drawPlane s d (90 * k) unit src ss dst ds =
      .ok (puts (writes (fun c => turns k (component src ss unit c sw sh)) ds unit X Y w h) dst) := by
  have hpos : 0 < sw ∧ 0 < sh := ⟨Nat.pos_of_mul_pos_right hr.source.width_pos, hr.source.rows_pos⟩
  have hacross : (if k % 2 = 0 then (s.width, s.height) else (s.height, s.width)).1 / (unit : Int) =
      ((if k % 2 = 0 then sw else sh : Nat) : Int) := by
    split
    · exact hr.sw_eq
    · exact hr.sh_eq
  have hdown : (if k % 2 = 0 then (s.width, s.height) else (s.height, s.width)).2 / (unit : Int) =
      ((if k % 2 = 0 then sh else sw : Nat) : Int) := by
    split
    · exact hr.sh_eq
    · exact hr.sw_eq
  unfold drawPlane
  rw [rotated_size s hr.turns]
  simp only [hr.sw_eq, hr.sh_eq, hr.w_eq, hr.h_eq, hr.x_eq, hr.y_eq, hacross, hdown]
  refine loop_eq ?_ rfl
  intro y hy dst₁ hlen₁
  refine loop_eq ?_ hlen₁
  intro x hx dst₂ hlen₂
  refine loop_write ?_ hlen₂
  intro c hc dst₃ hlen₃
  have hrx := scaled_lt hx (m := if k % 2 = 0 then sw else sh) (by split <;> omega)
  have hry := scaled_lt hy (m := if k % 2 = 0 then sh else sw) (by split <;> omega)
  obtain ⟨sx, sy, hsource, hsx, hsy, hsample⟩ := source_turns hr.turns hrx hry
  have hread := hr.source.lt hsy (column_lt hsx hc)
  have hwrite := hr.target.lt (show Y + y < dh by have := hr.down; omega)
    (column_lt (show X + x < dw by have := hr.across; omega) hc)
  rw [← Int.natCast_mul, ← Int.natCast_mul, ← Int.natCast_ediv, ← Int.natCast_ediv, hsource]
  have hfrom : (sy : Int) * ss + sx * unit + c = ((sy * ss + (sx * unit + c) : Nat) : Int) := by
    push_cast
    ring
  have hto : ((Y : Int) + y) * ds + (X + x) * unit + c =
      (((Y + y) * ds + ((X + x) * unit + c) : Nat) : Int) := by
    push_cast
    ring
  simp only [hfrom, hto]
  rw [read_ok (List.getElem?_eq_getElem hread), ok_bind, write_ok (hlen₃ ▸ hwrite)]
  obtain ⟨hw, hh⟩ := turns_size k (component src ss unit c sw sh)
  have hvalue : (scale (turns k (component src ss unit c sw sh)) w h).sample x y =
      src[sy * ss + (sx * unit + c)] := by
    simp only [scale, hw, hh]
    exact (hsample _ rfl rfl).trans (List.getD_eq_getElem _ _ hread)
  rw [hvalue]

/-! ## A drawn plane -/

/-- The plane shows the pictures, one for each byte of a sample, and nothing
else in the buffer has changed. -/
structure Drawn (before after : Bytes) (stride unit cols rows : Nat) (P : Nat → Picture UInt8) : Prop where
  length : after.length = before.length
  shows : ∀ c < unit, Same (component after stride unit c cols rows) (P c)
  frame : ∀ i, (∀ r < rows, ∀ k < cols * unit, i ≠ r * stride + k) → after[i]? = before[i]?

theorem sample_inj {stride unit cols x x' y y' c c' : Nat} (hstride : cols * unit ≤ stride) (hx : x < cols)
    (hx' : x' < cols) (hc : c < unit) (hc' : c' < unit)
    (h : y * stride + (x * unit + c) = y' * stride + (x' * unit + c')) : y = y' ∧ x = x' ∧ c = c' := by
  have hk := column_lt hx hc
  have hk' := column_lt hx' hc'
  obtain ⟨hy, hcol⟩ := offset_inj (by omega) (by omega) h
  exact ⟨hy, offset_inj hc hc' hcol⟩

theorem mem_writes {P : Nat → Picture UInt8} {ds unit X Y w h : Nat} {v : Nat × UInt8} :
    v ∈ writes P ds unit X Y w h ↔ ∃ y < h, ∃ x < w, ∃ c < unit,
      v = ((Y + y) * ds + ((X + x) * unit + c), (scale (P c) w h).sample x y) := by
  simp only [writes, List.mem_flatMap, List.mem_map, List.mem_range]
  constructor
  · rintro ⟨y, hy, x, hx, c, hc, rfl⟩
    exact ⟨y, hy, x, hx, c, hc, rfl⟩
  · rintro ⟨y, hy, x, hx, c, hc, rfl⟩
    exact ⟨y, hy, x, hx, c, hc, rfl⟩

theorem mem_fills {stride width rows : Nat} {value : UInt8} {v : Nat × UInt8} :
    v ∈ fills stride width rows value ↔ ∃ y < rows, ∃ x < width, v = (y * stride + x, value) := by
  simp only [fills, List.mem_flatMap, List.mem_map, List.mem_range]
  constructor
  · rintro ⟨y, hy, x, hx, rfl⟩
    exact ⟨y, hy, x, hx, rfl⟩
  · rintro ⟨y, hy, x, hx, rfl⟩
    exact ⟨y, hy, x, hx, rfl⟩

/-- Black, and then the picture in its rectangle. -/
theorem drawn {b : Bytes} {ds unit dw dh w h X Y : Nat} (hb : Fits b.length ds (dw * unit) dh)
    (hx : X + w ≤ dw) (hy : Y + h ≤ dh) (P : Nat → Picture UInt8) (ground : UInt8) :
    Drawn b (puts (writes P ds unit X Y w h) (puts (fills ds (dw * unit) dh ground) b)) ds unit dw dh
      fun c => inset (scale (P c) w h) ⟨X, Y, w, h⟩ ground dw dh where
  length := by rw [puts_length, puts_length]
  shows c hc := by
    refine ⟨rfl, rfl, ?_⟩
    intro x hxw y hyh
    change x < dw at hxw
    change y < dh at hyh
    have hin := hb.lt hyh (column_lt hxw hc)
    simp only [component, List.getD_eq_getElem?_getD, inset]
    split
    · rename_i hhas
      obtain ⟨⟨hx1, hx2⟩, hy1, hy2⟩ := hhas
      simp only at hx1 hx2 hy1 hy2
      have hmem : (y * ds + (x * unit + c), (scale (P c) w h).sample (x - X) (y - Y)) ∈
          writes P ds unit X Y w h := by
        refine mem_writes.mpr ⟨y - Y, by omega, x - X, by omega, c, hc, ?_⟩
        rw [Nat.add_sub_cancel' hx1, Nat.add_sub_cancel' hy1]
      rw [puts_hit hmem ?_ (by rwa [puts_length])]
      · rfl
      · intro v hv heq
        obtain ⟨y', hy', x', hx', c', hc', rfl⟩ := mem_writes.mp hv
        obtain ⟨hyy, hxx, rfl⟩ := sample_inj hb.width_le (by omega) hxw hc' hc heq
        rw [← hyy, ← hxx, Nat.add_sub_cancel_left, Nat.add_sub_cancel_left]
    · rename_i hno
      rw [puts_miss]
      · have hmem : (y * ds + (x * unit + c), ground) ∈ fills ds (dw * unit) dh ground :=
          mem_fills.mpr ⟨y, hyh, x * unit + c, column_lt hxw hc, rfl⟩
        rw [puts_hit hmem ?_ hin]
        · rfl
        · intro v hv _
          obtain ⟨_, _, _, _, rfl⟩ := mem_fills.mp hv
          rfl
      · intro v hv heq
        obtain ⟨y', hy', x', hx', c', hc', rfl⟩ := mem_writes.mp hv
        obtain ⟨hyy, hxx, -⟩ := sample_inj hb.width_le (by omega) hxw hc' hc heq
        exact hno ⟨⟨by simp only; omega, by simp only; omega⟩, by simp only; omega, by simp only; omega⟩
  frame i hi := by
    rw [puts_miss, puts_miss]
    · intro v hv heq
      obtain ⟨y, hyh, k, hk, rfl⟩ := mem_fills.mp hv
      exact hi y hyh k hk heq.symm
    · intro v hv heq
      obtain ⟨y, hyh, x, hxw, c, hc, rfl⟩ := mem_writes.mp hv
      exact hi (Y + y) (by omega) _ (column_lt (by omega) hc) heq.symm

/-! ## Sizes -/

/-- A valid view of `2 * W` by `2 * H` samples. -/
structure Sized (v : Nv12View) (W H : Nat) : Prop where
  width : v.width = 2 * W
  height : v.height = 2 * H
  y : Fits v.y.length v.strideY (W * 2) (2 * H)
  uv : Fits v.uv.length v.strideUV (W * 2) H

theorem validNv12_sized {v : Nv12View} (h : validNv12 v = true) : ∃ W H, Sized v W H := by
  simp only [validNv12, Bool.and_eq_true, decide_eq_true_eq, beq_iff_eq] at h
  obtain ⟨⟨⟨⟨⟨⟨⟨hw, hh⟩, -⟩, -⟩, hweven⟩, hheven⟩, hy⟩, huv⟩ := h
  obtain ⟨W, hW⟩ : ∃ W : Nat, v.width = ((W * 2 : Nat) : Int) := ⟨(v.width / 2).toNat, by omega⟩
  obtain ⟨H, hH⟩ : ∃ H : Nat, v.height = ((2 * H : Nat) : Int) := ⟨(v.height / 2).toNat, by omega⟩
  have hhalf : v.height / 2 = (H : Int) := by omega
  rw [hW, hH, planeFits_iff] at hy
  rw [hW, hhalf, planeFits_iff] at huv
  exact ⟨W, H, by omega, by omega, hy, huv⟩

/-- An even part of an extent, and the even offset that centres it. -/
theorem even_part {n : Int} {D : Nat} (h0 : 0 ≤ n) (hn : n ≤ 2 * D) :
    ∃ F X : Nat, even n = 2 * F ∧ even ((2 * D - even n) / 2) = 2 * X ∧ X + F ≤ D := by
  refine ⟨(n / 2).toNat, ((D - n / 2) / 2).toNat, ?_, ?_, ?_⟩
  · unfold even
    omega
  · unfold even
    omega
  · omega

/-- The rectangle, in pairs of samples. -/
structure Placed (b : Box) (DW DH FW FH X Y : Nat) : Prop where
  fw : b.fw = 2 * FW
  fh : b.fh = 2 * FH
  ox : b.ox = 2 * X
  oy : b.oy = 2 * Y
  across : X + FW ≤ DW
  down : Y + FH ≤ DH
  touches : FW = DW ∨ FH = DH

theorem box_placed {s d : Nv12View} {k W H DW DH : Nat} (hk : k < 4) (hs : Sized s W H) (hd : Sized d DW DH) :
    ∃ FW FH X Y, Placed (box s d (90 * k)) DW DH FW FH X Y := by
  have hpos : 0 < W ∧ 0 < H := ⟨Nat.pos_of_mul_pos_right hs.y.width_pos, hs.uv.rows_pos⟩
  obtain ⟨RW, RH, hRW, hRH, hrotated⟩ : ∃ RW RH : Nat, 0 < RW ∧ 0 < RH ∧
      rotated s (90 * k) = (2 * (RW : Int), 2 * (RH : Int)) := by
    rw [rotated_size s hk, hs.width, hs.height]
    split
    · exact ⟨W, H, hpos.1, hpos.2, rfl⟩
    · exact ⟨H, W, hpos.2, hpos.1, rfl⟩
  have hzero : even 0 = 0 := rfl
  unfold box
  simp only [hrotated, hd.width, hd.height]
  split
  · rename_i hwide
    have h0 : 0 ≤ 2 * (DW : Int) * (2 * RH) / (2 * RW) := Int.ediv_nonneg (by positivity) (by positivity)
    have hle : 2 * (DW : Int) * (2 * RH) / (2 * RW) ≤ 2 * DH := by
      have hlt : 2 * (DW : Int) * (2 * RH) / (2 * RW) < 2 * DH :=
        Int.ediv_lt_of_lt_mul (by positivity) (by linarith)
      exact hlt.le
    obtain ⟨F, Y, hF, hY, hdown⟩ := even_part h0 hle
    exact ⟨DW, F, 0, Y, rfl, hF, by simp [hzero], hY, by omega, hdown, Or.inl rfl⟩
  · rename_i hhigh
    have h0 : 0 ≤ 2 * (DH : Int) * (2 * RW) / (2 * RH) := Int.ediv_nonneg (by positivity) (by positivity)
    have hle : 2 * (DH : Int) * (2 * RW) / (2 * RH) ≤ 2 * DW :=
      Int.ediv_le_of_le_mul (by positivity) (by linarith)
    obtain ⟨F, X, hF, hX, hacross⟩ := even_part h0 hle
    exact ⟨F, DH, X, 0, hF, rfl, hX, by simp [hzero], hacross, by omega, Or.inr rfl⟩

/-! ## The whole function -/

theorem ready_luma {s d : Nv12View} {k W H DW DH FW FH X Y len : Nat} (hk : k < 4) (hs : Sized s W H)
    (hp : Placed (box s d (90 * k)) DW DH FW FH X Y) (hlen : Fits len d.strideY (DW * 2) (2 * DH)) :
    Ready s d k 1 s.y s.strideY len d.strideY (W * 2) (2 * H) (DW * 2) (2 * DH) (2 * FW) (2 * FH) (2 * X)
      (2 * Y) where
  turns := hk
  unit_pos := Nat.one_pos
  sw_eq := by rw [hs.width]; omega
  sh_eq := by rw [hs.height]; omega
  w_eq := by rw [hp.fw]; omega
  h_eq := by rw [hp.fh]; omega
  x_eq := by rw [hp.ox]; omega
  y_eq := by rw [hp.oy]; omega
  source := by rw [Nat.mul_one]; exact hs.y
  target := by rw [Nat.mul_one]; exact hlen
  across := by have := hp.across; omega
  down := by have := hp.down; omega

theorem ready_chroma {s d : Nv12View} {k W H DW DH FW FH X Y len : Nat} (hk : k < 4) (hs : Sized s W H)
    (hp : Placed (box s d (90 * k)) DW DH FW FH X Y) (hlen : Fits len d.strideUV (DW * 2) DH) :
    Ready s d k 2 s.uv s.strideUV len d.strideUV W H DW DH FW FH X Y where
  turns := hk
  unit_pos := Nat.two_pos
  sw_eq := by rw [hs.width]; omega
  sh_eq := by rw [hs.height]; omega
  w_eq := by rw [hp.fw]; omega
  h_eq := by rw [hp.fh]; omega
  x_eq := by rw [hp.ox]; omega
  y_eq := by rw [hp.oy]; omega
  source := hs.uv
  target := hlen
  across := hp.across
  down := hp.down

/-- Byte `c` of the luma samples; they have one. -/
def luma (v : Nv12View) (c : Nat) : Picture UInt8 :=
  component v.y v.strideY 1 c v.width.toNat v.height.toNat

/-- Byte `c` of the chroma samples; they have two. -/
def chroma (v : Nv12View) (c : Nat) : Picture UInt8 :=
  component v.uv v.strideUV 2 c (v.width.toNat / 2) (v.height.toNat / 2)

def rectOf (b : Box) : Rect := ⟨b.ox.toNat, b.oy.toNat, b.fw.toNat, b.fh.toNat⟩

def half (r : Rect) : Rect := ⟨r.x / 2, r.y / 2, r.width / 2, r.height / 2⟩

/-- A picture scaled to the rectangle. -/
def boxed (P : Picture UInt8) (r : Rect) (ground : UInt8) (width height : Nat) : Picture UInt8 :=
  inset (scale P r.width r.height) r ground width height

/-- `d'` is `d` with the picture `s` in it, turned `k` quarters. -/
structure Boxed (s d d' : Nv12View) (k : Nat) : Prop where
  shape : d' = { d with y := d'.y, uv := d'.uv }
  even : 2 ∣ (box s d (90 * k)).fw ∧ 2 ∣ (box s d (90 * k)).fh ∧ 2 ∣ (box s d (90 * k)).ox ∧
    2 ∣ (box s d (90 * k)).oy
  inside : 0 ≤ (box s d (90 * k)).ox ∧ (box s d (90 * k)).ox + (box s d (90 * k)).fw ≤ d.width ∧
    0 ≤ (box s d (90 * k)).oy ∧ (box s d (90 * k)).oy + (box s d (90 * k)).fh ≤ d.height
  touches : (box s d (90 * k)).fw = d.width ∨ (box s d (90 * k)).fh = d.height
  luma : Drawn d.y d'.y d.strideY 1 d.width.toNat d.height.toNat fun c =>
    boxed (turns k (luma s c)) (rectOf (box s d (90 * k))) 16 d.width.toNat d.height.toNat
  chroma : Drawn d.uv d'.uv d.strideUV 2 (d.width.toNat / 2) (d.height.toNat / 2) fun c =>
    boxed (turns k (chroma s c)) (half (rectOf (box s d (90 * k)))) 128 (d.width.toNat / 2)
      (d.height.toNat / 2)

theorem fillBlack_eq {d : Nv12View} {DW DH : Nat} (hvalid : validNv12 d = true) (hd : Sized d DW DH) :
    fillBlack d = .ok (true, { d with
      y := puts (fills d.strideY (DW * 2) (2 * DH) 16) d.y
      uv := puts (fills d.strideUV (DW * 2) DH 128) d.uv }) := by
  have hw : d.width = ((DW * 2 : Nat) : Int) := by rw [hd.width]; omega
  have hh : d.height = ((2 * DH : Nat) : Int) := by rw [hd.height]; omega
  have hhalf : d.height / 2 = (DH : Int) := by rw [hd.height]; omega
  have hy := fillPlane_eq hd.y 16
  have huv := fillPlane_eq hd.uv 128
  rw [← hw, ← hh] at hy
  rw [← hw, ← hhalf] at huv
  unfold fillBlack
  rw [hvalid, hy, huv]
  rfl

/-- The destination after both planes. -/
def painted (s d : Nv12View) (k W H DW DH FW FH X Y : Nat) : Nv12View :=
  { d with
    y := puts (writes (fun c => turns k (component s.y s.strideY 1 c (W * 2) (2 * H))) d.strideY 1 (2 * X)
      (2 * Y) (2 * FW) (2 * FH)) (puts (fills d.strideY (DW * 2) (2 * DH) 16) d.y)
    uv := puts (writes (fun c => turns k (component s.uv s.strideUV 2 c W H)) d.strideUV 2 X Y FW FH)
      (puts (fills d.strideUV (DW * 2) DH 128) d.uv) }

/-- What a valid call does. -/
theorem letterbox_eq {s d : Nv12View} {k W H DW DH FW FH X Y : Nat} (hk : k < 4)
    (hvs : validNv12 s = true) (hvd : validNv12 d = true) (hs : Sized s W H) (hd : Sized d DW DH)
    (hp : Placed (box s d (90 * k)) DW DH FW FH X Y)
    (hbig : 2 ≤ (box s d (90 * k)).fw ∧ 2 ≤ (box s d (90 * k)).fh) :
    letterbox s d (90 * k) = .ok (true, painted s d k W H DW DH FW FH X Y) := by
  have hrotation : ¬((!validNv12 s || !validNv12 d ||
      (90 * (k : Int) ≠ 0 ∧ 90 * (k : Int) ≠ 90 ∧ 90 * (k : Int) ≠ 180 ∧ 90 * (k : Int) ≠ 270 : Bool)) = true) := by
    simp only [hvs, hvd, Bool.not_true, Bool.false_or, decide_eq_true_eq]
    omega
  have hyfill := puts_length (fills d.strideY (DW * 2) (2 * DH) 16) d.y
  have huvfill := puts_length (fills d.strideUV (DW * 2) DH 128) d.uv
  have hluma : drawPlane s d (90 * k) 1 s.y s.strideY _ d.strideY = _ :=
    drawPlane_eq (ready_luma hk hs hp (hyfill ▸ hd.y))
  have hchroma : drawPlane s d (90 * k) 2 s.uv s.strideUV _ d.strideUV = _ :=
    drawPlane_eq (ready_chroma hk hs hp (huvfill ▸ hd.uv))
  unfold letterbox
  rw [if_neg hrotation]
  dsimp only
  rw [if_neg (by omega), fillBlack_eq hvd hd, ok_bind]
  dsimp only
  rw [hluma, ok_bind, hchroma, ok_bind]
  rfl

theorem painted_boxed {s d : Nv12View} {k W H DW DH FW FH X Y : Nat} (hs : Sized s W H) (hd : Sized d DW DH)
    (hp : Placed (box s d (90 * k)) DW DH FW FH X Y) :
    Boxed s d (painted s d k W H DW DH FW FH X Y) k := by
  have hacross := hp.across
  have hdown := hp.down
  have htouches := hp.touches
  have hw : d.width.toNat = DW * 2 := by rw [hd.width]; omega
  have hh : d.height.toNat = 2 * DH := by rw [hd.height]; omega
  have hsw : s.width.toNat = W * 2 := by rw [hs.width]; omega
  have hsh : s.height.toNat = 2 * H := by rw [hs.height]; omega
  have hrect : rectOf (box s d (90 * k)) = ⟨2 * X, 2 * Y, 2 * FW, 2 * FH⟩ := by
    unfold rectOf
    rw [hp.ox, hp.oy, hp.fw, hp.fh]
    rfl
  have hhalf : half ⟨2 * X, 2 * Y, 2 * FW, 2 * FH⟩ = ⟨X, Y, FW, FH⟩ := by simp [half]
  refine ⟨rfl, ⟨⟨FW, hp.fw⟩, ⟨FH, hp.fh⟩, ⟨X, hp.ox⟩, ⟨Y, hp.oy⟩⟩, ?_, ?_, ?_, ?_⟩
  · rw [hp.ox, hp.oy, hp.fw, hp.fh, hd.width, hd.height]
    omega
  · rw [hp.fw, hp.fh, hd.width, hd.height]
    omega
  · have hdrawn := @drawn d.y d.strideY 1 (DW * 2) (2 * DH) (2 * FW) (2 * FH) (2 * X) (2 * Y)
      (by rw [Nat.mul_one]; exact hd.y) (by omega) (by omega)
      (fun c => turns k (component s.y s.strideY 1 c (W * 2) (2 * H))) 16
    rw [Nat.mul_one] at hdrawn
    simp only [hrect, hw, hh, Letterbox.luma, hsw, hsh]
    exact hdrawn
  · have hdrawn := drawn hd.uv hacross hdown (fun c => turns k (component s.uv s.strideUV 2 c W H)) 128
    have hhalves : DW * 2 / 2 = DW ∧ 2 * DH / 2 = DH ∧ W * 2 / 2 = W ∧ 2 * H / 2 = H := by omega
    obtain ⟨h1, h2, h3, h4⟩ := hhalves
    simp only [hrect, hhalf, hw, hh, Letterbox.chroma, hsw, hsh, h1, h2, h3, h4]
    exact hdrawn

/-- What a call needs to draw at all. -/
def Accepts (s d : Nv12View) (k : Nat) : Prop :=
  validNv12 s = true ∧ validNv12 d = true ∧ 2 ≤ (box s d (90 * k)).fw ∧ 2 ≤ (box s d (90 * k)).fh

/-- **Letterbox**, for any two views: no index is outside a buffer; it returns
false, with nothing written, or true with the turned picture in its rectangle,
black around it and the rest of the buffers as they were. -/
theorem letterbox_spec (s d : Nv12View) (rotation : Int) :
    ∃ drawn d', letterbox s d rotation = .ok (drawn, d') ∧ (drawn = false → d' = d) ∧
      (drawn = true ↔ ∃ k < 4, rotation = 90 * (k : Nat) ∧ Accepts s d k) ∧
      (drawn = true → ∃ k < 4, rotation = 90 * (k : Nat) ∧ Boxed s d d' k) := by
  by_cases h : ∃ k < 4, rotation = 90 * (k : Nat) ∧ Accepts s d k
  · obtain ⟨k, hk, rfl, hvs, hvd, hfw, hfh⟩ := h
    obtain ⟨W, H, hs⟩ := validNv12_sized hvs
    obtain ⟨DW, DH, hd⟩ := validNv12_sized hvd
    obtain ⟨FW, FH, X, Y, hp⟩ := box_placed hk hs hd
    exact ⟨true, _, letterbox_eq hk hvs hvd hs hd hp ⟨hfw, hfh⟩, nofun,
      ⟨fun _ => ⟨k, hk, rfl, hvs, hvd, hfw, hfh⟩, fun _ => rfl⟩,
      fun _ => ⟨k, hk, rfl, painted_boxed hs hd hp⟩⟩
  · refine ⟨false, d, ?_, fun _ => rfl, ⟨nofun, fun hyes => absurd hyes h⟩, nofun⟩
    unfold letterbox
    split
    · rfl
    · rename_i hguard
      simp only [Bool.or_eq_true, Bool.not_eq_true', decide_eq_true_eq, not_or, Bool.not_eq_false] at hguard
      obtain ⟨⟨hvs, hvd⟩, hrotation⟩ := hguard
      obtain ⟨k, hk, rfl⟩ : ∃ k < 4, rotation = 90 * (k : Nat) :=
        ⟨(rotation / 90).toNat, by omega, by omega⟩
      have hsmall : (box s d (90 * k)).fw < 2 ∨ (box s d (90 * k)).fh < 2 := by
        by_contra hbig
        exact h ⟨k, hk, rfl, hvs, hvd, by omega, by omega⟩
      exact if_pos hsmall

/-! ## Destinations of exactly the turned size -/

/-- `d'` is `s` turned `k` quarters. -/
structure Turned (s d' : Nv12View) (k : Nat) : Prop where
  luma : ∀ c < 1, Same (luma d' c) (turns k (luma s c))
  chroma : ∀ c < 2, Same (chroma d' c) (turns k (chroma s c))

theorem Turned.trans {s a b : Nv12View} {j k : Nat} (h : Turned s a j) (h' : Turned a b k) :
    Turned s b (k + j) where
  luma c hc := by
    rw [turns_add]
    exact (h'.luma c hc).trans ((h.luma c hc).turns k)
  chroma c hc := by
    rw [turns_add]
    exact (h'.chroma c hc).trans ((h.chroma c hc).turns k)

theorem boxed_whole {P : Picture UInt8} {w h : Nat} (hw : P.width = w) (hh : P.height = h) (ground : UInt8) :
    Same (boxed P ⟨0, 0, w, h⟩ ground w h) P := by
  subst hw hh
  exact (inset_whole (scale P P.width P.height) ground).trans (scale_self P)

theorem box_exact {s d : Nv12View} {k DW DH : Nat} (hd : Sized d DW DH)
    (hsize : rotated s (90 * k) = (d.width, d.height)) : Placed (box s d (90 * k)) DW DH DW DH 0 0 := by
  have hpos : 0 < DW ∧ 0 < DH := ⟨Nat.pos_of_mul_pos_right hd.y.width_pos, hd.uv.rows_pos⟩
  have hzero : even 0 = 0 := rfl
  have heven : even (2 * (DW : Int)) = 2 * DW := by
    unfold even
    omega
  have hfull : 2 * (DH : Int) * (2 * DW) / (2 * DH) = 2 * DW := Int.mul_ediv_cancel_left _ (by omega)
  unfold box
  simp only [hsize, hd.width, hd.height]
  rw [if_neg (by rw [mul_comm]; exact lt_irrefl _), hfull, heven]
  exact ⟨rfl, rfl, by simp [hzero], by simp [hzero], by omega, by omega, Or.inl rfl⟩

theorem turned_size {s d : Nv12View} {k : Nat} (hk : k < 4)
    (h : rotated s (90 * k) = (d.width, d.height)) :
    (if k % 2 = 0 then s.width.toNat else s.height.toNat) = d.width.toNat ∧
      (if k % 2 = 0 then s.height.toNat else s.width.toNat) = d.height.toNat := by
  rw [rotated_size s hk] at h
  split at h
  · rename_i heven
    obtain ⟨hw, hh⟩ := Prod.mk.inj h
    rw [if_pos heven, if_pos heven, hw, hh]
    exact ⟨rfl, rfl⟩
  · rename_i hodd
    obtain ⟨hw, hh⟩ := Prod.mk.inj h
    rw [if_neg hodd, if_neg hodd, hw, hh]
    exact ⟨rfl, rfl⟩

theorem letterbox_exact {s d : Nv12View} {k : Nat} (hk : k < 4) (hvs : validNv12 s = true)
    (hvd : validNv12 d = true) (hsize : rotated s (90 * k) = (d.width, d.height)) :
    ∃ d', letterbox s d (90 * k) = .ok (true, d') ∧ validNv12 d' = true ∧ d'.width = d.width ∧
      d'.height = d.height ∧ Turned s d' k := by
  obtain ⟨W, H, hs⟩ := validNv12_sized hvs
  obtain ⟨DW, DH, hd⟩ := validNv12_sized hvd
  have hpos : 0 < DW ∧ 0 < DH := ⟨Nat.pos_of_mul_pos_right hd.y.width_pos, hd.uv.rows_pos⟩
  have hp := box_exact hd hsize
  have hboxed := painted_boxed hs hd hp
  refine ⟨_, letterbox_eq hk hvs hvd hs hd hp ⟨by rw [hp.fw]; omega, by rw [hp.fh]; omega⟩, ?_, rfl, rfl, ?_⟩
  · unfold validNv12 painted
    simp only [puts_length]
    exact hvd
  have hw : d.width.toNat = 2 * DW := by rw [hd.width]; omega
  have hh : d.height.toNat = 2 * DH := by rw [hd.height]; omega
  have hrect : rectOf (box s d (90 * k)) = ⟨0, 0, d.width.toNat, d.height.toNat⟩ := by
    unfold rectOf
    rw [hp.ox, hp.oy, hp.fw, hp.fh, hw, hh]
    rfl
  obtain ⟨hacross, hdown⟩ := turned_size hk hsize
  constructor
  · intro c hc
    have hshows := hboxed.luma.shows c hc
    rw [hrect] at hshows
    obtain ⟨h1, h2⟩ := turns_size k (luma s c)
    exact hshows.trans (boxed_whole (h1.trans hacross) (h2.trans hdown) 16)
  · intro c hc
    have hshows := hboxed.chroma.shows c hc
    have hhalf : half ⟨0, 0, d.width.toNat, d.height.toNat⟩ =
        ⟨0, 0, d.width.toNat / 2, d.height.toNat / 2⟩ := by simp [half]
    rw [hrect, hhalf] at hshows
    obtain ⟨h1, h2⟩ := turns_size k (chroma s c)
    refine hshows.trans (boxed_whole (h1.trans ?_) (h2.trans ?_) 128)
    · rw [← hacross]
      split <;> rfl
    · rw [← hdown]
      split <;> rfl

/-- The two views show the same picture. -/
structure Alike (u v : Nv12View) : Prop where
  luma : ∀ c < 1, Same (luma u c) (luma v c)
  chroma : ∀ c < 2, Same (chroma u c) (chroma v c)

/-- Four quarters are none. -/
theorem Turned.whole {s b : Nv12View} (h : Turned s b 4) : Alike b s where
  luma c hc := (h.luma c hc).trans (turn_four _)
  chroma c hc := (h.chroma c hc).trans (turn_four _)

theorem Turned.alike {s b b' : Nv12View} {k : Nat} (h : Turned s b k) (h' : Turned s b' k) : Alike b b' where
  luma c hc := (h.luma c hc).trans (h'.luma c hc).symm
  chroma c hc := (h.chroma c hc).trans (h'.chroma c hc).symm

/-- Two calls, each into a view of exactly the turned size. -/
theorem letterbox_twice {s d₁ d₂ : Nv12View} {j k : Nat} (hj : j < 4) (hk : k < 4) (hvs : validNv12 s = true)
    (hv₁ : validNv12 d₁ = true) (hv₂ : validNv12 d₂ = true)
    (h₁ : rotated s (90 * j) = (d₁.width, d₁.height)) (h₂ : rotated d₁ (90 * k) = (d₂.width, d₂.height)) :
    ∃ a b, letterbox s d₁ (90 * j) = .ok (true, a) ∧ letterbox a d₂ (90 * k) = .ok (true, b) ∧
      Turned s b (k + j) := by
  obtain ⟨a, ha, hva, haw, hah, hturned⟩ := letterbox_exact hj hvs hv₁ h₁
  have hsame : rotated a (90 * k) = rotated d₁ (90 * k) := by
    unfold rotated
    rw [haw, hah]
  obtain ⟨b, hb, -, -, -, hturned'⟩ := letterbox_exact hk hva hv₂ (hsame.trans h₂)
  exact ⟨a, b, ha, hb, hturned.trans hturned'⟩

/-- **Rotations compose**, with destinations of exactly the turned size: 90 and
then 270 give the picture back, so do 180 twice, and 90 twice is 180 once. -/
theorem rotations_compose :
    (∀ s d₁ d₂ : Nv12View, validNv12 s = true → validNv12 d₁ = true → validNv12 d₂ = true →
      d₁.width = s.height → d₁.height = s.width → d₂.width = s.width → d₂.height = s.height →
      ∃ a b, letterbox s d₁ 90 = .ok (true, a) ∧ letterbox a d₂ 270 = .ok (true, b) ∧ Alike b s) ∧
    (∀ s d₁ d₂ : Nv12View, validNv12 s = true → validNv12 d₁ = true → validNv12 d₂ = true →
      d₁.width = s.width → d₁.height = s.height → d₂.width = s.width → d₂.height = s.height →
      ∃ a b, letterbox s d₁ 180 = .ok (true, a) ∧ letterbox a d₂ 180 = .ok (true, b) ∧ Alike b s) ∧
    ∀ s d₁ d₂ d₃ : Nv12View, validNv12 s = true → validNv12 d₁ = true → validNv12 d₂ = true →
      validNv12 d₃ = true → d₁.width = s.height → d₁.height = s.width → d₂.width = s.width →
      d₂.height = s.height → d₃.width = s.width → d₃.height = s.height →
      ∃ a b b', letterbox s d₁ 90 = .ok (true, a) ∧ letterbox a d₂ 90 = .ok (true, b) ∧
        letterbox s d₃ 180 = .ok (true, b') ∧ Alike b b' := by
  refine ⟨?_, ?_, ?_⟩
  · intro s d₁ d₂ hvs hv₁ hv₂ hw₁ hh₁ hw₂ hh₂
    obtain ⟨a, b, ha, hb, hturned⟩ := letterbox_twice (j := 1) (k := 3) (by decide) (by decide) hvs hv₁ hv₂
      (by rw [hw₁, hh₁]; rfl) (by rw [hw₂, hh₂, ← hw₁, ← hh₁]; rfl)
    exact ⟨a, b, ha, hb, hturned.whole⟩
  · intro s d₁ d₂ hvs hv₁ hv₂ hw₁ hh₁ hw₂ hh₂
    obtain ⟨a, b, ha, hb, hturned⟩ := letterbox_twice (j := 2) (k := 2) (by decide) (by decide) hvs hv₁ hv₂
      (by rw [hw₁, hh₁]; rfl) (by rw [hw₂, hh₂, ← hw₁, ← hh₁]; rfl)
    exact ⟨a, b, ha, hb, hturned.whole⟩
  · intro s d₁ d₂ d₃ hvs hv₁ hv₂ hv₃ hw₁ hh₁ hw₂ hh₂ hw₃ hh₃
    obtain ⟨a, b, ha, hb, hturned⟩ := letterbox_twice (j := 1) (k := 1) (by decide) (by decide) hvs hv₁ hv₂
      (by rw [hw₁, hh₁]; rfl) (by rw [hw₂, hh₂, ← hw₁, ← hh₁]; rfl)
    obtain ⟨b', hb', -, -, -, hhalf⟩ := letterbox_exact (k := 2) (by decide) hvs hv₃ (by rw [hw₃, hh₃]; rfl)
    exact ⟨a, b, b', ha, hb, hb', hturned.alike hhalf⟩

/-- Two rows of four pixels, the rows further apart than they are long. -/
def strip : Nv12View where
  y := [1, 2, 3, 4, 0, 5, 6, 7, 8]
  uv := [11, 12, 13, 14]
  strideY := 5
  strideUV := 4
  width := 4
  height := 2

def upright : Nv12View where
  y := List.replicate 8 0
  uv := List.replicate 4 0
  strideY := 2
  strideUV := 2
  width := 2
  height := 4

def flat : Nv12View where
  y := List.replicate 8 0
  uv := List.replicate 4 0
  strideY := 4
  strideUV := 4
  width := 4
  height := 2

theorem rotations_compose_strip :
    (∃ a b, letterbox strip upright 90 = .ok (true, a) ∧ letterbox a flat 270 = .ok (true, b) ∧ Alike b strip) ∧
    (∃ a b, letterbox strip flat 180 = .ok (true, a) ∧ letterbox a flat 180 = .ok (true, b) ∧ Alike b strip) ∧
    ∃ a b b', letterbox strip upright 90 = .ok (true, a) ∧ letterbox a flat 90 = .ok (true, b) ∧
      letterbox strip flat 180 = .ok (true, b') ∧ Alike b b' := by
  obtain ⟨hback, hhalves, hquarters⟩ := rotations_compose
  have hvalid : validNv12 strip = true ∧ validNv12 upright = true ∧ validNv12 flat = true := by decide
  obtain ⟨hstrip, hupright, hflat⟩ := hvalid
  exact ⟨hback strip upright flat hstrip hupright hflat rfl rfl rfl rfl,
    hhalves strip flat flat hstrip hflat hflat rfl rfl rfl rfl,
    hquarters strip upright flat flat hstrip hupright hflat hflat rfl rfl rfl rfl rfl rfl⟩

end KmVirtualCamera.L2.Letterbox

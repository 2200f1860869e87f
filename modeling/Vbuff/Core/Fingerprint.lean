import Vbuff.Lib.ByteString
import Vbuff.Lib.Checked

/-!
# The difference hash of an image

`dhash_rgba` samples an image at eight rows of nine points and keeps which of two neighbours is
brighter.

An image whose bytes are all there has at most a quarter of `isize::MAX` points, so eight times a
width is a `usize` still, and nothing on the way to a sample leaves its type or the slice
(`dhashRgba_safe`).
-/

namespace Vbuff.Core

open ByteString MachineInt Trapping

/-- No slice is longer. -/
def isizeMax : ℕ := 2 ^ 63 - 1

def u16Max : ℕ := 2 ^ 16 - 1

/-- `rgba_required_len` of vbuff-types. -/
def rgbaRequiredLen (width height : ℕ) : Option ℕ :=
  if width = 0 ∨ height = 0 then none
  else (checkedMulUsize width height).bind fun points => checkedMulUsize points 4

/-- Where the sample of a line is, when the image has `size` lines and `lines` are sampled. -/
def sourceLine (lines line size : ℕ) : Except Trap ℕ := do
  let scaled ← mul usizeMax line size
  let last ← sub size 1
  pure (min (scaled / lines) last)

def sourceY (row height : ℕ) : Except Trap ℕ := sourceLine 8 row height

def sourceX (column width : ℕ) : Except Trap ℕ := sourceLine 9 column width

/-- `(source_y * width + source_x) * 4`. -/
def sampleOffset (width sourceY sourceX : ℕ) : Except Trap ℕ := do
  let start ← mul usizeMax sourceY width
  let point ← add usizeMax start sourceX
  mul usizeMax point 4

/-- `bytes[offset + channel] * weight` as a `u16`. -/
def weighted (bytes : Bytes) (offset channel weight : ℕ) : Except Trap ℕ := do
  let i ← add usizeMax offset channel
  let byte ← index bytes i
  mul u16Max byte.toNat weight

/-- How bright a point is. -/
def sample (bytes : Bytes) (width sourceY sourceX : ℕ) : Except Trap ℕ := do
  let offset ← sampleOffset width sourceY sourceX
  let red ← weighted bytes offset 0 77
  let green ← weighted bytes offset 1 150
  let blue ← weighted bytes offset 2 29
  let redGreen ← add u16Max red green
  let sum ← add u16Max redGreen blue
  pure (sum / 2 ^ 8)

def sampleRow (bytes : Bytes) (width height row : ℕ) : Except Trap (List ℕ) := do
  let y ← sourceY row height
  (List.range 9).mapM fun column => do
    let x ← sourceX column width
    sample bytes width y x

/-- The bit of two neighbours. -/
def compareStep (row : ℕ) (values : List ℕ) (hash : UInt64) (column : ℕ) :
    Except Trap UInt64 := do
  let left ← index values column
  let right ← index values (column + 1)
  if right < left then do
    let bit ← shl 1 (row * 8 + column)
    pure (hash ||| bit)
  else pure hash

def compareRows (samples : List (List ℕ)) : Except Trap UInt64 :=
  samples.zipIdx.foldlM (fun hash (values, row) =>
    (List.range 8).foldlM (compareStep row values) hash) 0

def dhashRgba (bytes : Bytes) (width height : ℕ) : Except Trap (Option UInt64) :=
  match rgbaRequiredLen width height with
  | none => .ok none
  | some required =>
      if bytes.length < required then .ok none
      else do
        let samples ← (List.range 8).mapM (sampleRow bytes width height)
        let hash ← compareRows samples
        pure (some hash)

/-! ## Where the samples are -/

/-- `source_y` and `source_x` in plain arithmetic. -/
def linePosition (lines size line : ℕ) : ℕ := min (line * size / lines) (size - 1)

theorem monotone_linePosition (lines size : ℕ) : Monotone (linePosition lines size) := by
  intro line line' hline
  have hscaled : line * size / lines ≤ line' * size / lines :=
    Nat.div_le_div_right (Nat.mul_le_mul_right size hline)
  exact min_le_min_right _ hscaled

theorem linePosition_lt {lines size line : ℕ} (hsize : 0 < size) :
    linePosition lines size line < size :=
  (min_le_right _ _).trans_lt (Nat.sub_lt hsize Nat.one_pos)

theorem sourceLine_eq {lines line size : ℕ} (hsize : 0 < size) (hfits : line * size ≤ usizeMax) :
    sourceLine lines line size = .ok (linePosition lines size line) := by
  rw [sourceLine, mul_of_le hfits, Result.ok_bind, sub_of_le hsize, Result.ok_bind]
  rfl

/-! ## What the slice bounds -/

variable {bytes : Bytes} {width height : ℕ}

/-- An image whose points are all in the slice. -/
structure Covered (bytes : Bytes) (width height : ℕ) : Prop where
  columns : 0 < width
  rows : 0 < height
  points : width * height * 4 ≤ bytes.length
  slice : bytes.length ≤ isizeMax

theorem rgbaRequiredLen_eq_some {required : ℕ} (h : rgbaRequiredLen width height = some required) :
    0 < width ∧ 0 < height ∧ required = width * height * 4 := by
  unfold rgbaRequiredLen at h
  split at h
  case isTrue => cases h
  case isFalse hpos =>
    rw [not_or] at hpos
    rw [checkedMulUsize_eq_fits] at h
    simp only [checkedMulUsize_eq_fits] at h
    rw [@fits_bind (width * height) (· * 4) (Nat.le_mul_of_pos_right _ (by decide)), fits] at h
    split at h
    case isTrue =>
      exact ⟨Nat.pos_of_ne_zero hpos.1, Nat.pos_of_ne_zero hpos.2, (Option.some.inj h).symm⟩
    case isFalse => cases h

/-- The length is required exactly of an image that has points and fits. -/
theorem Covered.of_required {required : ℕ} (h : rgbaRequiredLen width height = some required)
    (hlength : ¬bytes.length < required) (hslice : bytes.length ≤ isizeMax) :
    Covered bytes width height := by
  obtain ⟨hwidth, hheight, rfl⟩ := rgbaRequiredLen_eq_some h
  exact ⟨hwidth, hheight, not_lt.mp hlength, hslice⟩

namespace Covered

variable (hcovered : Covered bytes width height)
include hcovered

theorem width_le : width * 4 ≤ isizeMax := by
  have hone : width * 1 ≤ width * height := Nat.mul_le_mul_left width hcovered.rows
  have hpoints := hcovered.points
  have hslice := hcovered.slice
  omega

theorem height_le : height * 4 ≤ isizeMax := by
  have hone : 1 * height ≤ width * height := Nat.mul_le_mul_right height hcovered.columns
  have hpoints := hcovered.points
  have hslice := hcovered.slice
  omega

/-- Eight times the width is a `usize`: a quarter of `isize::MAX` is less than an eighth of the
numbers. -/
theorem sourceX_eq {column : ℕ} (hcolumn : column < 9) :
    sourceX column width = .ok (linePosition 9 width column) := by
  have hscaled : column * width ≤ 8 * width :=
    Nat.mul_le_mul_right width (Nat.le_of_lt_succ hcolumn)
  have hwidth := hcovered.width_le
  refine sourceLine_eq hcovered.columns ?_
  rw [isizeMax] at hwidth
  rw [usizeMax]
  omega

theorem sourceY_eq {row : ℕ} (hrow : row < 8) :
    sourceY row height = .ok (linePosition 8 height row) := by
  have hscaled : row * height ≤ 7 * height := Nat.mul_le_mul_right height (Nat.le_of_lt_succ hrow)
  have hheight := hcovered.height_le
  refine sourceLine_eq hcovered.rows ?_
  rw [isizeMax] at hheight
  rw [usizeMax]
  omega

/-- All four bytes of a point of the image are in the slice. -/
theorem offset_lt {y x : ℕ} (hy : y < height) (hx : x < width) :
    (y * width + x) * 4 + 3 < bytes.length := by
  have hline : (y + 1) * width ≤ height * width := Nat.mul_le_mul_right width hy
  have hpoints := hcovered.points
  rw [Nat.succ_mul] at hline
  rw [Nat.mul_comm width height] at hpoints
  omega

theorem sampleOffset_eq {y x : ℕ} (hy : y < height) (hx : x < width) :
    sampleOffset width y x = .ok ((y * width + x) * 4) := by
  have hoffset := hcovered.offset_lt hy hx
  have hslice := hcovered.slice
  rw [isizeMax] at hslice
  have hstart : y * width ≤ usizeMax := by rw [usizeMax]; omega
  have hpoint : y * width + x ≤ usizeMax := by rw [usizeMax]; omega
  have hbyte : (y * width + x) * 4 ≤ usizeMax := by rw [usizeMax]; omega
  rw [sampleOffset, mul_of_le hstart, Result.ok_bind, add_of_le hpoint, Result.ok_bind,
    mul_of_le hbyte]

omit hcovered in
/-- A byte of the slice, times a weight that is a byte too. -/
theorem weighted_eq (offset channel weight : ℕ) (hbyte : offset + channel < bytes.length)
    (hslice : bytes.length ≤ isizeMax) (hweight : weight ≤ 256) :
    ∃ value ≤ 255 * weight, weighted bytes offset channel weight = .ok value := by
  have hindex : offset + channel ≤ usizeMax := by
    rw [isizeMax] at hslice
    rw [usizeMax]
    omega
  have hvalue : (bytes.get ⟨offset + channel, hbyte⟩).toNat ≤ 255 :=
    Nat.le_of_lt_succ (UInt8.toNat_lt _)
  have hproduct : (bytes.get ⟨offset + channel, hbyte⟩).toNat * weight ≤ 255 * weight :=
    Nat.mul_le_mul_right weight hvalue
  refine ⟨_, hproduct, ?_⟩
  rw [weighted, add_of_le hindex, Result.ok_bind, index_of_lt hbyte, Result.ok_bind]
  refine mul_of_le ?_
  rw [u16Max]
  omega

/-- The weights are 256 together, so the weighted sum of three bytes is a `u16`. -/
theorem sample_eq {y x : ℕ} (hy : y < height) (hx : x < width) :
    ∃ value, sample bytes width y x = .ok value := by
  have hoffset := hcovered.offset_lt hy hx
  have hslice := hcovered.slice
  obtain ⟨red, hred, hredEq⟩ :=
    weighted_eq ((y * width + x) * 4) 0 77 (by omega) hslice (by decide)
  obtain ⟨green, hgreen, hgreenEq⟩ :=
    weighted_eq ((y * width + x) * 4) 1 150 (by omega) hslice (by decide)
  obtain ⟨blue, hblue, hblueEq⟩ :=
    weighted_eq ((y * width + x) * 4) 2 29 (by omega) hslice (by decide)
  have hredGreen : red + green ≤ u16Max := by rw [u16Max]; omega
  have hsum : red + green + blue ≤ u16Max := by rw [u16Max]; omega
  refine ⟨(red + green + blue) / 2 ^ 8, ?_⟩
  rw [sample, hcovered.sampleOffset_eq hy hx, Result.ok_bind, hredEq, Result.ok_bind, hgreenEq,
    Result.ok_bind, hblueEq, Result.ok_bind, add_of_le hredGreen, Result.ok_bind,
    add_of_le hsum, Result.ok_bind]
  rfl

theorem sampleRow_eq {row : ℕ} (hrow : row < 8) :
    ∃ values, sampleRow bytes width height row = .ok values ∧ values.length = 9 := by
  have hy : linePosition 8 height row < height := linePosition_lt hcovered.rows
  have hx : ∀ column, linePosition 9 width column < width := fun _ =>
    linePosition_lt hcovered.columns
  choose value hvalue using fun column => hcovered.sample_eq hy (hx column)
  refine ⟨(List.range 9).map value, ?_, by simp⟩
  rw [sampleRow, hcovered.sourceY_eq hrow, Result.ok_bind]
  refine mapM_eq_ok_map fun column hcolumn => ?_
  rw [hcovered.sourceX_eq (List.mem_range.mp hcolumn), Result.ok_bind]
  exact hvalue column

end Covered

/-! ## The hash -/

theorem compareStep_ok {row : ℕ} {values : List ℕ} (hrow : row < 8) (hvalues : values.length = 9)
    (hash : UInt64) {column : ℕ} (hcolumn : column < 8) :
    ∃ next, compareStep row values hash column = .ok next := by
  have hleft : column < values.length := by omega
  have hright : column + 1 < values.length := by omega
  have hbit : row * 8 + column < 64 := by omega
  rw [compareStep, index_of_lt hleft, Result.ok_bind, index_of_lt hright, Result.ok_bind]
  split
  · exact ⟨_, by rw [shl_of_lt hbit]; rfl⟩
  · exact ⟨hash, rfl⟩

theorem compareRows_ok {samples : List (List ℕ)} (hrows : samples.length = 8)
    (hvalues : ∀ values ∈ samples, values.length = 9) :
    ∃ hash, compareRows samples = .ok hash := by
  refine foldlM_ok (fun hash indexed hindexed => ?_) 0
  obtain ⟨values, row⟩ := indexed
  obtain ⟨-, hrow, hmem⟩ := List.mem_zipIdx hindexed
  have hlength : values.length = 9 := hvalues values (hmem ▸ List.getElem_mem _)
  exact foldlM_ok (fun hash column hcolumn =>
    compareStep_ok (by omega) hlength hash (List.mem_range.mp hcolumn)) hash

theorem Covered.dhashRgba_eq (hcovered : Covered bytes width height) {required : ℕ}
    (hrequired : rgbaRequiredLen width height = some required) :
    ∃ hash, dhashRgba bytes width height = .ok (some hash) := by
  obtain ⟨-, -, rfl⟩ := rgbaRequiredLen_eq_some hrequired
  choose! values hvalues using fun row (hrow : row < 8) => hcovered.sampleRow_eq hrow
  have hsamples : (List.range 8).mapM (sampleRow bytes width height) =
      .ok ((List.range 8).map values) :=
    mapM_eq_ok_map fun row hrow => (hvalues row (List.mem_range.mp hrow)).1
  obtain ⟨hash, hhash⟩ : ∃ hash, compareRows ((List.range 8).map values) = .ok hash := by
    refine compareRows_ok (by simp) fun sampled hsampled => ?_
    obtain ⟨row, hrow, rfl⟩ := List.mem_map.mp hsampled
    exact (hvalues row (List.mem_range.mp hrow)).2
  refine ⟨hash, ?_⟩
  unfold dhashRgba
  rw [hrequired]
  dsimp only
  rw [if_neg (not_lt.mpr hcovered.points), hsamples, Result.ok_bind, hhash, Result.ok_bind]
  rfl

/-! ## Safety -/

/-- The sampled lines: in order, and inside an image of `size` lines. -/
structure InImage (size : ℕ) (position : ℕ → ℕ) : Prop where
  ordered : Monotone position
  inside : ∀ line, position line < size

theorem inImage_linePosition (lines : ℕ) {size : ℕ} (hsize : 0 < size) :
    InImage size (linePosition lines size) :=
  ⟨monotone_linePosition lines size, fun _ => linePosition_lt hsize⟩

/-- An image is refused, or its 72 samples and the hash are computed without a trap, from points
that are in order and inside the image, and bytes that are inside the slice. -/
theorem dhashRgba_safe (bytes : Bytes) (width height : ℕ) (hslice : bytes.length ≤ isizeMax) :
    dhashRgba bytes width height = .ok none ∨
      ∃ hash y x, dhashRgba bytes width height = .ok (some hash) ∧
        InImage height y ∧ InImage width x ∧
        ∀ row < 8, ∀ column < 9,
          sourceY row height = .ok (y row) ∧ sourceX column width = .ok (x column) ∧
          (∃ offset, sampleOffset width (y row) (x column) = .ok offset ∧
            offset + 3 < bytes.length) ∧
          ∃ value, sample bytes width (y row) (x column) = .ok value := by
  cases hrequired : rgbaRequiredLen width height with
  | none =>
    refine .inl ?_
    rw [dhashRgba, hrequired]
  | some required =>
    by_cases hlength : bytes.length < required
    · refine .inl ?_
      rw [dhashRgba, hrequired]
      exact if_pos hlength
    · have hcovered := Covered.of_required hrequired hlength hslice
      obtain ⟨hash, hhash⟩ := hcovered.dhashRgba_eq hrequired
      have hrows := inImage_linePosition 8 hcovered.rows
      have hcolumns := inImage_linePosition 9 hcovered.columns
      refine .inr ⟨hash, _, _, hhash, hrows, hcolumns, fun row hrow column hcolumn => ?_⟩
      have hy := hrows.inside row
      have hx := hcolumns.inside column
      exact ⟨hcovered.sourceY_eq hrow, hcovered.sourceX_eq hcolumn,
        ⟨_, hcovered.sampleOffset_eq hy hx, hcovered.offset_lt hy hx⟩, hcovered.sample_eq hy hx⟩

/-- A white point and a black one, in a row. -/
def twoPoints : Bytes := [255, 255, 255, 255, 0, 0, 0, 255]

theorem dhashRgba_safe_twoPoints :
    ∃ hash y x, dhashRgba twoPoints 2 1 = .ok (some hash) ∧ InImage 1 y ∧ InImage 2 x := by
  obtain hnone | ⟨hash, y, x, hhash, hy, hx, -⟩ := dhashRgba_safe twoPoints 2 1 (by decide)
  · exact absurd hnone (by decide)
  · exact ⟨hash, y, x, hhash, hy, hx⟩

end Vbuff.Core

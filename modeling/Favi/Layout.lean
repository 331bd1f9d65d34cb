import Favi.Image

/-!
# The layout of a caller-owned buffer

`BorrowedRgbImage::new` computes the size of the declared image in 32 bits with three
checked multiplications.  `new_eq` restates it over exact integers: three refusals in a
fixed order, and otherwise a header whose `rowBytes` is the exact length of one row.

An accepted buffer is an array of three dimensions: rows of pixels of channel samples.
`samples_tile` cuts it up one dimension at a time, so that every sample has its own
bytes and no byte is left over.

Two things make the restatement short.  The first product, of the channels and the bytes
of a channel, never overflows, so only two of the three checks can fail.  And the two
errors of size are one error, so it does not matter which product is the first to
overflow: `Overflows` is their disjunction.
-/

namespace Favi

open Sizes

/-! ## Sizes over exact integers -/

/-- The exact length of one row. -/
def declaredRowBytes (width : UInt32) (depth : BitDepth) (format : RgbFormat) : ℕ :=
  format.channels.toNat * depth.bytesPerChannel.toNat * width.toNat

/-- The exact length of the whole buffer. -/
def declaredBytes (width height : UInt32) (depth : BitDepth) (format : RgbFormat) : ℕ :=
  declaredRowBytes width depth format * height.toNat

/-- A 16-bit sample would start at an odd address. -/
def Misaligned (depth : BitDepth) (pixels : Slice) : Prop :=
  depth ≠ .b8 ∧ pixels.ptr.addr % 2 = 1

/-- The row or the buffer does not fit in 32 bits. -/
def Overflows (width height : UInt32) (depth : BitDepth) (format : RgbFormat) : Prop :=
  2 ^ 32 ≤ declaredRowBytes width depth format ∨ 2 ^ 32 ≤ declaredBytes width height depth format

instance (depth : BitDepth) (pixels : Slice) : Decidable (Misaligned depth pixels) :=
  inferInstanceAs (Decidable (_ ∧ _))

instance (width height : UInt32) (depth : BitDepth) (format : RgbFormat) :
    Decidable (Overflows width height depth format) :=
  inferInstanceAs (Decidable (_ ∨ _))

theorem alignOffset_two_ne_zero_iff (ptr : BytePtr) : ptr.alignOffset 2 ≠ 0 ↔ ptr.addr % 2 = 1 := by
  unfold BytePtr.alignOffset
  omega

theorem bytesPerChannel_eq_two_iff (depth : BitDepth) :
    depth.bytesPerChannel.toNat = 2 ↔ depth ≠ .b8 := by
  cases depth <;> decide

theorem checkedMul_pixel (depth : BitDepth) (format : RgbFormat) :
    checkedMul format.channels depth.bytesPerChannel =
      some (format.channels * depth.bytesPerChannel) := by
  apply checkedMul_of_lt
  cases depth <;> cases format <;> decide

theorem toNat_pixel (depth : BitDepth) (format : RgbFormat) :
    (format.channels * depth.bytesPerChannel).toNat =
      format.channels.toNat * depth.bytesPerChannel.toNat :=
  (checkedMul_eq_some (checkedMul_pixel depth format)).1

/-! ## `BorrowedRgbImage::new` -/

section New

variable (target : Target) (width height : UInt32) (depth : BitDepth) (format : RgbFormat)
  (pixels : Slice)

/-- The result of `new`, by exact sizes. -/
theorem new_eq :
    BorrowedRgbImage.new target width height depth format pixels =
      if Misaligned depth pixels then .error (.misalignedBuffer 2)
      else if Overflows width height depth format then .error .sizeOverflow
      else if pixels.len < declaredBytes width height depth format then
        .error (.bufferTooSmall (declaredBytes width height depth format) pixels.len)
      else
        .ok ⟨⟨BorrowedRgbImage.header width height depth format pixels.ptr
          (format.channels * depth.bytesPerChannel * width)⟩⟩ := by
  have hmisaligned : (depth ≠ .b8 ∧ pixels.ptr.alignOffset 2 ≠ 0) ↔ Misaligned depth pixels := by
    rw [alignOffset_two_ne_zero_iff, Misaligned]
  simp only [BorrowedRgbImage.new, hmisaligned, checkedMul_pixel, Option.bind_some]
  congr 1
  have hrow : (format.channels * depth.bytesPerChannel).toNat * width.toNat =
      declaredRowBytes width depth format := by
    rw [toNat_pixel, declaredRowBytes]
  -- the checks in the order of the source: the row first, then the whole buffer
  by_cases hrowlt : declaredRowBytes width depth format < 2 ^ 32
  · have hexact : (format.channels * depth.bytesPerChannel * width).toNat =
        declaredRowBytes width depth format := by
      rw [toNat_mul_of_lt (by rwa [hrow]), hrow]
    rw [checkedMul_of_lt (by rwa [hrow])]
    by_cases hlt : declaredBytes width height depth format < 2 ^ 32
    · have hfits : (format.channels * depth.bytesPerChannel * width).toNat * height.toNat <
          2 ^ 32 := by rwa [hexact]
      have hrequired : (format.channels * depth.bytesPerChannel * width * height).toNat =
          declaredBytes width height depth format := by
        rw [toNat_mul_of_lt hfits, hexact, declaredBytes]
      have hoverflows : ¬ Overflows width height depth format := by rw [Overflows]; omega
      rw [if_neg hoverflows]
      simp only [checkedMul_of_lt hfits, Target.asUsize_eq, hrequired]
    · have hoverflows : Overflows width height depth format := Or.inr (Nat.le_of_not_lt hlt)
      rw [if_pos hoverflows]
      have hnone : checkedMul (format.channels * depth.bytesPerChannel * width) height = none := by
        rw [checkedMul_eq_none_iff, hexact]
        exact Nat.le_of_not_lt hlt
      simp only [hnone]
  · have hoverflows : Overflows width height depth format := Or.inl (Nat.le_of_not_lt hrowlt)
    rw [if_pos hoverflows]
    have hnone : checkedMul (format.channels * depth.bytesPerChannel) width = none := by
      rw [checkedMul_eq_none_iff, hrow]
      exact Nat.le_of_not_lt hrowlt
    simp only [hnone]

variable {target width height depth format pixels}

/-- An accepted image: its header is the declared one over the caller's bytes, and the bytes are
aligned and enough for it. -/
structure Accepted (width height : UInt32) (depth : BitDepth) (format : RgbFormat)
    (pixels : Slice) (rgb : BorrowedRgbImage) : Prop where
  aligned : ¬ Misaligned depth pixels
  rowBytes : rgb.image.raw.rowBytes.toNat = declaredRowBytes width depth format
  fits : declaredBytes width height depth format < 2 ^ 32
  enough : declaredBytes width height depth format ≤ pixels.len
  raw : rgb.image.raw = BorrowedRgbImage.header width height depth format pixels.ptr
    rgb.image.raw.rowBytes

/-- What `new` returns is accepted: the three refusals have been ruled out one after the other. -/
theorem accepted_of_new_eq_ok {rgb : BorrowedRgbImage}
    (h : BorrowedRgbImage.new target width height depth format pixels = .ok rgb) :
    Accepted width height depth format pixels rgb := by
  rw [new_eq] at h
  split at h
  · cases h
  next haligned =>
  split at h
  · cases h
  next hfits =>
  split at h
  · cases h
  next henough =>
  cases h
  simp only [Overflows, not_or, Nat.not_le] at hfits
  refine ⟨haligned, ?_, hfits.2, Nat.le_of_not_lt henough, rfl⟩
  have hrow : (format.channels * depth.bytesPerChannel).toNat * width.toNat =
      declaredRowBytes width depth format := by
    rw [toNat_pixel, declaredRowBytes]
  exact (toNat_mul_of_lt (by rw [hrow]; exact hfits.1)).trans hrow

theorem Accepted.bufferBytes {rgb : BorrowedRgbImage}
    (h : Accepted width height depth format pixels rgb) :
    rgb.image.raw.bufferBytes = declaredBytes width height depth format := by
  have hheight : rgb.image.raw.height = height := by rw [h.raw]; rfl
  rw [AvifRGBImage.bufferBytes, h.rowBytes, hheight, declaredBytes]

theorem Accepted.pixels_eq {rgb : BorrowedRgbImage}
    (h : Accepted width height depth format pixels rgb) :
    rgb.image.raw.pixels = some pixels.ptr := by
  rw [h.raw]
  rfl

end New

/-! ## Samples -/

/-- The offset of channel `k` of the pixel in row `y` and column `x`. -/
def sampleOffset (rowBytes channels sampleBytes y x k : ℕ) : ℕ :=
  y * rowBytes + (x * channels + k) * sampleBytes

/-- The samples cut the buffer up without gap or overlap. -/
theorem samples_tile (height width channels sampleBytes : ℕ) :
    Tiles (fun p : Fin height × Fin width × Fin channels =>
      sampleOffset (channels * sampleBytes * width) channels sampleBytes p.1 p.2.1 p.2.2)
      sampleBytes (channels * sampleBytes * width * height) := by
  have hpixel := Tiles.blocks channels sampleBytes
  have hrow := (Tiles.blocks width (channels * sampleBytes)).refine hpixel
  have himage := (Tiles.blocks height (width * (channels * sampleBytes))).refine hrow
  have htotal : height * (width * (channels * sampleBytes)) =
      channels * sampleBytes * width * height := by ring
  rw [htotal] at himage
  convert himage using 2 with p
  unfold sampleOffset
  ring

theorem sampleOffset_even (width channels y x k : ℕ) :
    sampleOffset (channels * 2 * width) channels 2 y x k % 2 = 0 := by
  have heven : sampleOffset (channels * 2 * width) channels 2 y x k =
      2 * (y * (channels * width) + (x * channels + k)) := by
    unfold sampleOffset
    ring
  rw [heven, Nat.mul_mod_right]

/-- Every sample of the image is inside the buffer, at offsets that fit in 32 bits, at
an even address if it has two bytes; and the samples share no byte and leave none
over. -/
structure SamplesAddressable (width height : UInt32) (depth : BitDepth) (format : RgbFormat)
    (pixels : Slice) (rowBytes : ℕ) : Prop where
  inside : ∀ y < height.toNat, ∀ x < width.toNat, ∀ k < format.channels.toNat,
    let offset := sampleOffset rowBytes format.channels.toNat depth.bytesPerChannel.toNat y x k
    offset + depth.bytesPerChannel.toNat ≤ pixels.len ∧
      offset + depth.bytesPerChannel.toNat ≤ 2 ^ 32 ∧
      (depth.bytesPerChannel.toNat = 2 → (pixels.ptr.addr + offset) % 2 = 0)
  tiles : Tiles (fun p : Fin height.toNat × Fin width.toNat × Fin format.channels.toNat =>
      sampleOffset rowBytes format.channels.toNat depth.bytesPerChannel.toNat p.1 p.2.1 p.2.2)
    depth.bytesPerChannel.toNat (rowBytes * height.toNat)

theorem Accepted.samplesAddressable {width height : UInt32} {depth : BitDepth}
    {format : RgbFormat} {pixels : Slice} {rgb : BorrowedRgbImage}
    (h : Accepted width height depth format pixels rgb) :
    SamplesAddressable width height depth format pixels rgb.image.raw.rowBytes.toNat := by
  have htiles := samples_tile height.toNat width.toNat format.channels.toNat
    depth.bytesPerChannel.toNat
  rw [h.rowBytes]
  refine ⟨fun y hy x hx k hk => ?_, htiles⟩
  have hfit : sampleOffset (declaredRowBytes width depth format) format.channels.toNat
      depth.bytesPerChannel.toNat y x k + depth.bytesPerChannel.toNat ≤
        declaredBytes width height depth format :=
    htiles.fits (⟨y, hy⟩, ⟨x, hx⟩, ⟨k, hk⟩)
  refine ⟨hfit.trans h.enough, hfit.trans h.fits.le, fun htwo => ?_⟩
  -- samples of two bytes lie at even offsets of an even address
  have heven : pixels.ptr.addr % 2 = 0 := by
    have hodd : ¬ pixels.ptr.addr % 2 = 1 := fun hodd =>
      h.aligned ⟨(bytesPerChannel_eq_two_iff depth).mp htwo, hodd⟩
    omega
  have hoffset : sampleOffset (declaredRowBytes width depth format) format.channels.toNat
      depth.bytesPerChannel.toNat y x k % 2 = 0 := by
    rw [declaredRowBytes, htwo]
    exact sampleOffset_even width.toNat format.channels.toNat y x k
  exact (Nat.add_mod _ _ _).trans (by rw [heven, hoffset])

/-- `BorrowedRgbImage::new` accepts exactly the buffers in which every sample is
addressable, refuses the others in a fixed order, and says by how much a short buffer
is too short. -/
theorem new_accepts_exactly (target : Target) (width height : UInt32) (depth : BitDepth)
    (format : RgbFormat) (pixels : Slice) :
    let result := BorrowedRgbImage.new target width height depth format pixels
    (result = .error (.misalignedBuffer 2) ↔ Misaligned depth pixels) ∧
    (result = .error .sizeOverflow ↔
      ¬ Misaligned depth pixels ∧ Overflows width height depth format) ∧
    (result = .error (.bufferTooSmall (declaredBytes width height depth format) pixels.len) ↔
      ¬ Misaligned depth pixels ∧ ¬ Overflows width height depth format ∧
        pixels.len < declaredBytes width height depth format) ∧
    ((∃ rgb, result = .ok rgb) ↔
      ¬ Misaligned depth pixels ∧ ¬ Overflows width height depth format ∧
        declaredBytes width height depth format ≤ pixels.len) ∧
    ∀ rgb, result = .ok rgb →
      rgb.image.raw.rowBytes.toNat = declaredRowBytes width depth format ∧
      SamplesAddressable width height depth format pixels rgb.image.raw.rowBytes.toNat := by
  intro result
  have hresult := new_eq target width height depth format pixels
  refine ⟨?_, ?_, ?_, ?_, fun rgb hrgb => ?_⟩
  · simp only [result, hresult]
    split_ifs <;> simp_all
  · simp only [result, hresult]
    split_ifs <;> simp_all
  · simp only [result, hresult]
    split_ifs <;> simp_all
  · simp only [result, hresult]
    split_ifs <;> simp_all
  · have haccepted := accepted_of_new_eq_ok hrgb
    exact ⟨haccepted.rowBytes, haccepted.samplesAddressable⟩

end Favi

import Favi.Sys

/-!
# libavif, as the crate sees it

libavif is not part of the repository.  `Libavif σ` is the list of its entry points
the crate calls, each an arbitrary function of its arguments and of the world; the
type `σ` of libavif's own state is arbitrary too, so that any pattern of results over
a run is some `Libavif σ`.

`Libavif.Documented` collects what the crate relies on, entry point by entry point.
It says which allocations a call makes and frees, and for the RGB conversions which
fields of the header they fill in.  It says nothing about calls that are made outside
their preconditions, such as freeing a handle that is not allocated.
-/

namespace Favi

open Custody

/-- The entry points of libavif that the crate calls. -/
structure Libavif (σ : Type) where
  avifImageCreateEmpty : World σ → Option Handle × World σ
  avifImageCreate : UInt32 → UInt32 → UInt32 → AvifPixelFormat → World σ →
    Option Handle × World σ
  avifImageDestroy : Handle → World σ → World σ
  avifRGBImageSetDefaults : AvifRGBImage → Handle → World σ → AvifRGBImage × World σ
  avifRGBImageAllocatePixels : AvifRGBImage → World σ → AvifResult × AvifRGBImage × World σ
  avifRGBImageFreePixels : AvifRGBImage → World σ → World σ
  avifImageYUVToRGB : Handle → AvifRGBImage → World σ → AvifResult × AvifRGBImage × World σ
  avifImageRGBToYUV : Handle → AvifRGBImage → World σ → AvifResult × World σ
  avifRWDataFree : AvifRWData → World σ → World σ
  avifDecoderCreate : World σ → Option Handle × World σ
  avifDecoderReadMemory : Handle → Handle → Slice → World σ → AvifResult × World σ
  avifDecoderDestroy : Handle → World σ → World σ
  avifEncoderCreate : World σ → Option Handle × World σ
  avifEncoderWrite : Handle → Handle → AvifRWData → World σ → AvifResult × AvifRWData × World σ
  avifEncoderAddImage : Handle → Handle → UInt64 → UInt32 → World σ → AvifResult × World σ
  avifEncoderFinish : Handle → AvifRWData → World σ → AvifResult × AvifRWData × World σ
  avifEncoderDestroy : Handle → World σ → World σ

/-! ## The size of a pixel -/

/-- The number of channels libavif counts for a format other than `RGB_565`. -/
def avifRGBFormatChannelCount (format : AvifRGBFormat) : ℕ :=
  if format.code = 0 ∨ format.code = 3 then 3       -- RGB, BGR
  else if format.code = 7 then 1                    -- GRAY
  else if format.code = 8 ∨ format.code = 9 then 2  -- GRAYA, AGRAY
  else 4                                            -- RGBA, ARGB, BGRA, ABGR

/-- The bytes of one pixel: 2 for `RGB_565` at any depth, otherwise one or two bytes
for each channel. -/
def avifRGBImagePixelSize (rgb : AvifRGBImage) : ℕ :=
  if rgb.format = .rgb565 then 2
  else avifRGBFormatChannelCount rgb.format * (if 8 < rgb.depth.toNat then 2 else 1)

/-! ## What is documented -/

variable {σ : Type}

/-- A creating call returns null and allocates nothing, or returns a fresh object. -/
def Creates (object : Object) (create : World σ → Option Handle × World σ) : Prop :=
  ∀ w, match create w with
    | (none, w') => w'.ledger = w.ledger
    | (some handle, w') =>
        w.ledger handle = .fresh ∧ w'.ledger = Function.update w.ledger handle (.live object)

/-- A destroying call frees the object it is given. -/
def Destroys (object : Object) (destroy : Handle → World σ → World σ) : Prop :=
  ∀ handle w, w.ledger handle = .live object →
    (destroy handle w).ledger = Function.update w.ledger handle .freed

/-- An encoding call given an empty output leaves it empty and allocates nothing, or
points it to a fresh buffer; in both cases with success or with an error. -/
def FillsOutput (write : AvifRWData → World σ → AvifResult × AvifRWData × World σ) : Prop :=
  ∀ output w, output.data = none →
    match write output w with
    | (_, ⟨none, _⟩, w') => w'.ledger = w.ledger
    | (_, ⟨some ptr, size⟩, w') =>
        w.ledger ptr.block = .fresh ∧
          w'.ledger = Function.update w.ledger ptr.block (.live (.buffer .rwData ptr.addr size))

/-- `avifRGBImageAllocatePixels`, given a header without a buffer: on an error nothing
is allocated; on success one row fits in 32 bits and the header points to a fresh
buffer of `rowBytes * height` bytes, aligned to two. -/
def AllocatesPixels
    (allocate : AvifRGBImage → World σ → AvifResult × AvifRGBImage × World σ) : Prop :=
  ∀ rgb w, rgb.pixels = none →
    match allocate rgb w with
    | (result, rgb', w') =>
        (result ≠ .ok → w'.ledger = w.ledger) ∧
        (result = .ok →
          rgb.width.toNat * avifRGBImagePixelSize rgb < 2 ^ 32 ∧
          ∃ ptr rowBytes, rgb' = { rgb with pixels := some ptr, rowBytes := rowBytes } ∧
            rowBytes.toNat = rgb.width.toNat * avifRGBImagePixelSize rgb ∧
            ptr.addr % 2 = 0 ∧
            w.ledger ptr.block = .fresh ∧
            w'.ledger = Function.update w.ledger ptr.block
              (.live (.buffer .rgbPixels ptr.addr rgb'.bufferBytes)))

/-- What the crate relies on. -/
structure Libavif.Documented (lib : Libavif σ) : Prop where
  imageCreateEmpty : Creates .image lib.avifImageCreateEmpty
  imageCreate : ∀ width height depth format,
    Creates .image (lib.avifImageCreate width height depth format)
  imageDestroy : Destroys .image lib.avifImageDestroy
  /-- The dimensions are copied from the image, and there is no buffer yet. -/
  rgbImageSetDefaults : ∀ rgb image w, match lib.avifRGBImageSetDefaults rgb image w with
    | (rgb', w') => w'.ledger = w.ledger ∧
        rgb'.width = (w.images image).width ∧ rgb'.height = (w.images image).height ∧
        rgb'.pixels = none
  rgbImageAllocatePixels : AllocatesPixels lib.avifRGBImageAllocatePixels
  /-- Frees the buffer, if there is one. -/
  rgbImageFreePixels : ∀ rgb w,
    (rgb.pixels = none → (lib.avifRGBImageFreePixels rgb w).ledger = w.ledger) ∧
    (∀ ptr size, rgb.pixels = some ptr →
      w.ledger ptr.block = .live (.buffer .rgbPixels ptr.addr size) →
      (lib.avifRGBImageFreePixels rgb w).ledger = Function.update w.ledger ptr.block .freed)
  /-- Writes pixels only, and refuses `RGB_565` at any depth but 8. -/
  imageYUVToRGB : ∀ image rgb w, match lib.avifImageYUVToRGB image rgb w with
    | (result, rgb', w') => w'.ledger = w.ledger ∧ rgb' = rgb ∧
        (rgb.format = .rgb565 → rgb.depth ≠ 8 → result ≠ .ok)
  imageRGBToYUV : ∀ image rgb w, (lib.avifImageRGBToYUV image rgb w).2.ledger = w.ledger
  /-- Frees the buffer, if there is one. -/
  rwDataFree : ∀ data w,
    (data.data = none → (lib.avifRWDataFree data w).ledger = w.ledger) ∧
    (∀ ptr, data.data = some ptr →
      w.ledger ptr.block = .live (.buffer .rwData ptr.addr data.size) →
      (lib.avifRWDataFree data w).ledger = Function.update w.ledger ptr.block .freed)
  decoderCreate : Creates .decoder lib.avifDecoderCreate
  decoderReadMemory : ∀ decoder image data w,
    (lib.avifDecoderReadMemory decoder image data w).2.ledger = w.ledger
  decoderDestroy : Destroys .decoder lib.avifDecoderDestroy
  encoderCreate : Creates .encoder lib.avifEncoderCreate
  encoderWrite : ∀ encoder image, FillsOutput (lib.avifEncoderWrite encoder image)
  encoderAddImage : ∀ encoder image duration flags w,
    (lib.avifEncoderAddImage encoder image duration flags w).2.ledger = w.ledger
  encoderFinish : ∀ encoder, FillsOutput (lib.avifEncoderFinish encoder)
  encoderDestroy : Destroys .encoder lib.avifEncoderDestroy

end Favi

import Favi.Error
import Favi.Ffi
import Favi.Foundation.Sizes

/-!
# Images

`image.rs`: bit depths and formats, the YUV image, the RGB image that libavif
allocates, and the RGB image over a buffer of the caller.

Rust's drops are written out where they happen.  A value of a type with a `Drop`
implementation is dropped at the end of the scope that owns it; a bare
`sys::avifRGBImage` has none.

Three ways of computing the size of a pixel buffer meet here, and much of what follows is
about where they agree.  libavif allocates `rowBytes * height` bytes without overflow.
`RgbImage::pixels` multiplies the same two numbers in 32 bits, unchecked.
`BorrowedRgbImage::new` computes both factors itself, and checks each product.
-/

namespace Favi

open Sizes

/-! ## Depths and formats -/

/-- `BitDepth`: the four depths that libavif supports. -/
inductive BitDepth where
  | b8
  | b10
  | b12
  | b16
deriving DecidableEq, Repr

namespace BitDepth

/-- `BitDepth::bits`. -/
def bits : BitDepth → UInt32
  | .b8 => 8
  | .b10 => 10
  | .b12 => 12
  | .b16 => 16

/-- `BitDepth::bytes_per_channel`: a sample of more than 8 bits takes two bytes. -/
def bytesPerChannel : BitDepth → UInt32
  | .b8 => 1
  | .b10 | .b12 | .b16 => 2

/-- `TryFrom<u32> for BitDepth`. A decoded image may have any depth, so this can fail. -/
def tryFrom (value : UInt32) : Result BitDepth :=
  if value = 8 then .ok .b8
  else if value = 10 then .ok .b10
  else if value = 12 then .ok .b12
  else if value = 16 then .ok .b16
  else .error (.invalidDepth value)

end BitDepth

/-- `PixelFormat`: how the planes of an image are subsampled. -/
inductive PixelFormat where
  | none
  | yuv444
  | yuv422
  | yuv420
  | yuv400
deriving DecidableEq, Repr

/-- `sys::avifPixelFormat(format as _)`. -/
def PixelFormat.raw : PixelFormat → AvifPixelFormat
  | .none => ⟨0⟩
  | .yuv444 => ⟨1⟩
  | .yuv422 => ⟨2⟩
  | .yuv420 => ⟨3⟩
  | .yuv400 => ⟨4⟩

/-- `RgbFormat`: the order of the channels in an RGB pixel. -/
inductive RgbFormat where
  | rgb
  | rgba
  | argb
  | bgr
  | bgra
  | abgr
  | rgb565
  | gray
  | grayA
  | aGray
deriving DecidableEq, Repr

namespace RgbFormat

/-- `sys::avifRGBFormat(format as _)`. -/
def raw : RgbFormat → AvifRGBFormat
  | .rgb => ⟨0⟩
  | .rgba => ⟨1⟩
  | .argb => ⟨2⟩
  | .bgr => ⟨3⟩
  | .bgra => ⟨4⟩
  | .abgr => ⟨5⟩
  | .rgb565 => ⟨6⟩
  | .gray => ⟨7⟩
  | .grayA => ⟨8⟩
  | .aGray => ⟨9⟩

/-- `RgbFormat::channels`. For `Rgb565`, which packs three channels into 16 bits, this is the
number of bytes of a pixel and not of its channels. -/
def channels : RgbFormat → UInt32
  | .rgb | .bgr => 3
  | .rgba | .argb | .bgra | .abgr => 4
  | .rgb565 => 2
  | .gray => 1
  | .grayA | .aGray => 2

end RgbFormat

variable {σ : Type}

/-- `Option::ok_or`. -/
def okOr {α : Type} (value : Option α) (error : Error) : Result α :=
  match value with
  | some a => .ok a
  | none => .error error

/-! ## `Image` -/

/-- `Image`: a non-null pointer to an `avifImage`. -/
structure Image where
  raw : Handle
deriving DecidableEq, Repr

namespace Image

variable (lib : Libavif σ)

/-- `Image::empty`.  `transmute` reads a null pointer as `None`. -/
def empty : Ffi σ (Result Image) := do
  let image ← Sys.avifImageCreateEmpty lib
  return okOr (image.map Image.mk) .allocationFailed

/-- `Image::new`: allocates the header only, the planes come with the first conversion. -/
def new (width height : UInt32) (depth : BitDepth) (format : PixelFormat) :
    Ffi σ (Result Image) := do
  let image ← Sys.avifImageCreate lib width height depth.bits format.raw
  return okOr (image.map Image.mk) .allocationFailed

/-- `Drop for Image`. -/
def drop (self : Image) : Ffi σ Unit := Sys.avifImageDestroy lib self.raw

/-- `(*self.raw.as_ptr()).field`. -/
def read {α : Type} (self : Image) (field : AvifImage → α) : Ffi σ α := do
  requireLive self.raw .image
  return field ((← get).world.images self.raw)

/-- `Image::width`. -/
def width (self : Image) : Ffi σ UInt32 := self.read AvifImage.width

/-- `Image::height`. -/
def height (self : Image) : Ffi σ UInt32 := self.read AvifImage.height

/-- `Image::raw_depth`: the depth that libavif reports, unchecked. -/
def rawDepth (self : Image) : Ffi σ UInt32 := self.read AvifImage.depth

/-- `Image::depth`: the depth, if it is one of the four. -/
def depth (self : Image) : Ffi σ (Result BitDepth) := BitDepth.tryFrom <$> self.rawDepth

/-- Create an image and let libavif fill it; a failure drops the image. -/
def createThen (create : Ffi σ (Result Image)) (fill : Image → Ffi σ AvifResult) :
    Ffi σ (Result Image) := do
  match ← create with
  | .error error => return .error error
  | .ok image =>
      let result ← fill image
      match result.check with
      | .ok () => return .ok image
      | .error error =>
          image.drop lib
          return .error error

end Image

/-! ## `RgbImage` -/

/-- `RgbImage`: an `avifRGBImage` whose buffer libavif allocated. -/
structure RgbImage where
  raw : AvifRGBImage
deriving DecidableEq

namespace RgbImage

/-- `RgbImage::width`. -/
def width (self : RgbImage) : UInt32 := self.raw.width

/-- `RgbImage::height`. -/
def height (self : RgbImage) : UInt32 := self.raw.height

/-- `self.raw.rowBytes * self.raw.height`; `none` is the overflow panic. -/
def pixelsLen (target : Target) (self : RgbImage) : Option UInt32 :=
  if target.overflowChecks then checkedMul self.raw.rowBytes self.raw.height
  else some (self.raw.rowBytes * self.raw.height)

/-- `RgbImage::pixels`; `none` is a panic. -/
def pixels (target : Target) (self : RgbImage) : Ffi σ (Option Slice) :=
  match self.pixelsLen target with
  | none => return none
  | some len => some <$> sliceFromRawParts self.raw.pixels (target.asUsize len)

variable (lib : Libavif σ)

/-- The header that `RgbImage::from_image` asks libavif to allocate for. -/
def request (raw : AvifRGBImage) (depth : BitDepth) (format : RgbFormat) : AvifRGBImage :=
  { raw with depth := depth.bits, format := format.raw }

/-- `RgbImage::from_image`. -/
def fromImage (image : Image) (depth : BitDepth) (format : RgbFormat) :
    Ffi σ (Result RgbImage) := do
  let raw ← Sys.avifRGBImageSetDefaults lib .zeroed image.raw
  let (result, raw) ← Sys.avifRGBImageAllocatePixels lib (request raw depth format)
  match result.check with
  | .error error => return .error error
  | .ok () =>
      let (result, raw) ← Sys.avifImageYUVToRGB lib image.raw raw
      match result.check with
      -- `raw` is a bare `avifRGBImage` here: returning does not free its buffer
      | .error error => return .error error
      | .ok () => return .ok ⟨raw⟩

/-- `RgbImage::to_image`. The new image has the dimensions of the RGB image and owns what
libavif allocated before the conversion can fail. -/
def toImage (self : RgbImage) (depth : BitDepth) (format : PixelFormat) : Ffi σ (Result Image) :=
  Image.createThen lib (Image.new lib self.width self.height depth format) fun image =>
    Sys.avifImageRGBToYUV lib image.raw self.raw

/-- `Drop for RgbImage`. -/
def drop (self : RgbImage) : Ffi σ Unit := Sys.avifRGBImageFreePixels lib self.raw

end RgbImage

/-- `Image::to_rgb`. -/
def Image.toRgb (lib : Libavif σ) (self : Image) (depth : BitDepth) (format : RgbFormat) :
    Ffi σ (Result RgbImage) :=
  RgbImage.fromImage lib self depth format

/-- `Image::from_rgb`; a `BorrowedRgbImage` derefs to its argument. -/
def Image.fromRgb (lib : Libavif σ) (rgb : RgbImage) (depth : BitDepth) (format : PixelFormat) :
    Ffi σ (Result Image) :=
  rgb.toImage lib depth format

/-! ## `BorrowedRgbImage` -/

/-- `BorrowedRgbImage`: an `RgbImage` that is never dropped, over a buffer of the
caller. -/
structure BorrowedRgbImage where
  image : RgbImage
deriving DecidableEq

namespace BorrowedRgbImage

/-- The header `BorrowedRgbImage::new` builds. -/
def header (width height : UInt32) (depth : BitDepth) (format : RgbFormat) (pixels : BytePtr)
    (rowBytes : UInt32) : AvifRGBImage where
  width := width
  height := height
  depth := depth.bits
  format := format.raw
  chromaUpsampling := .automatic
  chromaDownsampling := .automatic
  avoidLibYUV := 0
  ignoreAlpha := 0
  alphaPremultiplied := 0
  isFloat := 0
  maxThreads := 1
  pixels := some pixels
  rowBytes := rowBytes

/-- `BorrowedRgbImage::new`. -/
def new (target : Target) (width height : UInt32) (depth : BitDepth) (format : RgbFormat)
    (pixels : Slice) : Result BorrowedRgbImage :=
  if depth ≠ .b8 ∧ pixels.ptr.alignOffset 2 ≠ 0 then
    .error (.misalignedBuffer 2)
  else
    match (checkedMul format.channels depth.bytesPerChannel).bind fun bytesPerPixel =>
        checkedMul bytesPerPixel width with
    | none => .error .sizeOverflow
    | some rowBytes =>
        -- `pixels` will multiply these two again, without the check
        match checkedMul rowBytes height with
        | none => .error .sizeOverflow
        | some required =>
            if pixels.len < target.asUsize required then
              .error (.bufferTooSmall (target.asUsize required) pixels.len)
            else
              .ok ⟨⟨header width height depth format pixels.ptr rowBytes⟩⟩

/-- `Deref for BorrowedRgbImage`: the image as one that can be read and converted. -/
def deref (self : BorrowedRgbImage) : RgbImage := self.image

end BorrowedRgbImage

end Favi

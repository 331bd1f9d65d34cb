import Favi.Image

/-!
# Encoded data, decoder and encoder

`data.rs`, `decoder.rs` and `encoder.rs`.

A `Data` is born as a placeholder with a null pointer and is handed out only when libavif
has filled it, so that every `Data` a user holds has bytes.  The other way round, whatever
libavif has put into the placeholder belongs to it from then on: `collect` writes out the
order of the drops on the three ways out of `encode` and `finish`.
-/

namespace Favi

variable {σ : Type}

/-! ## `Data` -/

/-- `Data`: a byte buffer filled by libavif. -/
structure Data where
  raw : AvifRWData
deriving DecidableEq

namespace Data

/-- `Data::new`: the placeholder with a null pointer. -/
def new : Data := ⟨⟨none, 0⟩⟩

/-- `Data::as_slice`, and with it every trait implementation that reads. -/
def asSlice (self : Data) : Ffi σ Slice := sliceFromRawParts self.raw.data self.raw.size

/-- `Data::as_mut_slice`: the same bytes, to be written. -/
def asMutSlice (self : Data) : Ffi σ Slice := sliceFromRawParts self.raw.data self.raw.size

/-- `Drop for Data`: frees the buffer, or does nothing for the placeholder. -/
def drop (lib : Libavif σ) (self : Data) : Ffi σ Unit := Sys.avifRWDataFree lib self.raw

end Data

/-! ## `Decoder` -/

/-- `Decoder`: a non-null pointer to an `avifDecoder`. -/
structure Decoder where
  raw : Handle
deriving DecidableEq, Repr

namespace Decoder

variable (lib : Libavif σ)

/-- `Decoder::new`. -/
def new : Ffi σ (Result Decoder) := do
  let decoder ← Sys.avifDecoderCreate lib
  return okOr (decoder.map Decoder.mk) .allocationFailed

/-- `Decoder::decode`: libavif reads the bytes into an empty image, which is dropped when it
refuses them. -/
def decode (self : Decoder) (data : Slice) : Ffi σ (Result Image) :=
  Image.createThen lib (Image.empty lib) fun image =>
    Sys.avifDecoderReadMemory lib self.raw image.raw data

/-- `Drop for Decoder`. -/
def drop (self : Decoder) : Ffi σ Unit := Sys.avifDecoderDestroy lib self.raw

end Decoder

/-! ## `Encoder` -/

/-- `AddImageFlags`, a bit set that is handed on to libavif as it is. -/
structure AddImageFlags where
  bits : UInt32
deriving DecidableEq, Repr

/-- `Encoder`: a non-null pointer to an `avifEncoder`. -/
structure Encoder where
  raw : Handle
deriving DecidableEq, Repr

namespace Encoder

/-- `(*self.raw.as_ptr()).field`. -/
def read {α : Type} (self : Encoder) (field : AvifEncoder → α) : Ffi σ α := do
  requireLive self.raw .encoder
  return field ((← get).world.encoders self.raw)

/-- `(*self.raw.as_ptr()).field = value`: the settings are fields of the C struct, so setting
one is not a call of libavif. -/
def write (self : Encoder) (update : AvifEncoder → AvifEncoder) : Ffi σ Unit := do
  requireLive self.raw .encoder
  modify fun m => { m with
    world.encoders := Function.update m.world.encoders self.raw
      (update (m.world.encoders self.raw)) }

/-- `Encoder::set_max_threads`. -/
def setMaxThreads (self : Encoder) (maxThreads : Int32) : Ffi σ Unit :=
  self.write fun encoder => { encoder with maxThreads := maxThreads }

/-- `Encoder::max_threads`. -/
def maxThreads (self : Encoder) : Ffi σ Int32 := self.read AvifEncoder.maxThreads

/-- `Encoder::set_speed`. -/
def setSpeed (self : Encoder) (speed : Int32) : Ffi σ Unit :=
  self.write fun encoder => { encoder with speed := speed }

/-- `Encoder::speed`. -/
def speed (self : Encoder) : Ffi σ Int32 := self.read AvifEncoder.speed

/-- `Encoder::set_quality`. -/
def setQuality (self : Encoder) (quality : Int32) : Ffi σ Unit :=
  self.write fun encoder => { encoder with quality := quality }

/-- `Encoder::quality`. -/
def quality (self : Encoder) : Ffi σ Int32 := self.read AvifEncoder.quality

variable (lib : Libavif σ)

/-- `Encoder::new`. -/
def new : Ffi σ (Result Encoder) := do
  let encoder ← Sys.avifEncoderCreate lib
  return okOr (encoder.map Encoder.mk) .allocationFailed

/-- `Drop for Encoder`. -/
def drop (self : Encoder) : Ffi σ Unit := Sys.avifEncoderDestroy lib self.raw

/-- The common body of `encode` and `finish`: have libavif fill a placeholder, and
answer with it if it was filled.  The encoder is consumed, so it is dropped on every
way out; the placeholder is dropped, before it, on the ways out that do not return
it. -/
def collect (self : Encoder) (fill : AvifRWData → Ffi σ (AvifResult × AvifRWData)) :
    Ffi σ (Result Data) := do
  let (result, raw) ← fill Data.new.raw
  let output : Data := ⟨raw⟩
  match result.check with
  | .error error =>
      -- libavif may have filled the placeholder before it failed
      output.drop lib
      self.drop lib
      return .error error
  | .ok () =>
      if output.raw.data.isNone then
        output.drop lib
        self.drop lib
        return .error .emptyOutput
      else
        self.drop lib
        return .ok output

/-- `Encoder::encode`: one image, all at once. -/
def encode (self : Encoder) (image : Image) : Ffi σ (Result Data) :=
  self.collect lib (Sys.avifEncoderWrite lib self.raw image.raw)

/-- `Encoder::add_image`: a frame of a sequence; the encoder lives on. -/
def addImage (self : Encoder) (image : Image) (durationInTimescales : UInt64)
    (flags : AddImageFlags) : Ffi σ (Result Unit) := do
  let result ← Sys.avifEncoderAddImage lib self.raw image.raw durationInTimescales flags.bits
  return result.check

/-- `Encoder::finish`: what the added frames make. -/
def finish (self : Encoder) : Ffi σ (Result Data) :=
  self.collect lib (Sys.avifEncoderFinish lib self.raw)

end Encoder

end Favi

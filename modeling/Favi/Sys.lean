import Favi.Foundation.Custody
import Mathlib.Algebra.Group.Nat.Defs
import Mathlib.Data.Nat.Basic

/-!
# Data that crosses the FFI boundary

The C types of `sys.rs`, cut down to what the crate reads or writes, and the memory
they live in.  Each type keeps its name and the names of its fields.

A handle stands for one allocation.  A pointer to an object is a handle, and null is
`none`.  A pointer to bytes also carries its address, because the crate looks at the
alignment of one.  `World` is the memory that both sides see: the ledger of
allocations, the contents behind the handles, and `hidden`, whatever state libavif
keeps to itself.

The ledger is the part that the ownership results are about, and a handle that was freed
stays freed there, so a use after the free cannot be hidden by a later allocation at the
same address.  The contents are kept by handle and by address, not by offset: a slice is
read at the address it has, whether it is the start of a buffer or a part of it.
-/

namespace Favi

open Custody

/-! ## The target -/

/-- What a build fixes: the width of `usize`, and whether an arithmetic overflow
panics (`dev`) or wraps (`release`). -/
structure Target where
  usizeBits : ℕ
  overflowChecks : Bool
  word_le_usize : 32 ≤ usizeBits

/-- A 64-bit release build. -/
def Target.release64 : Target := ⟨64, false, by decide⟩

/-- A 64-bit debug build. -/
def Target.dev64 : Target := ⟨64, true, by decide⟩

/-- `value as usize`. -/
def Target.asUsize (target : Target) (value : UInt32) : ℕ :=
  value.toNat % 2 ^ target.usizeBits

@[simp] theorem Target.asUsize_eq (target : Target) (value : UInt32) :
    target.asUsize value = value.toNat :=
  Nat.mod_eq_of_lt (lt_of_lt_of_le value.toNat_lt
    (Nat.pow_le_pow_right (by decide) target.word_le_usize))

/-! ## Pointers -/

/-- The name of one allocation, never given to a second one. -/
abbrev Handle := ℕ

/-- A non-null `*mut u8`: the allocation it points into, and the address. -/
structure BytePtr where
  block : Handle
  addr : ℕ
deriving DecidableEq, Repr

/-- A `*mut u8`, null or not. -/
abbrev U8Ptr := Option BytePtr

/-- A `&[u8]`. -/
structure Slice where
  ptr : BytePtr
  len : ℕ
deriving DecidableEq, Repr

/-- `pixels.as_ptr().align_offset(align)`: how far the pointer is from the next
multiple of `align`. -/
def BytePtr.alignOffset (ptr : BytePtr) (align : ℕ) : ℕ :=
  (align - ptr.addr % align) % align

/-- `sub[start..start + len]`; slicing past the end panics. -/
def Slice.sub? (slice : Slice) (start len : ℕ) : Option Slice :=
  if start + len ≤ slice.len then
    some ⟨⟨slice.ptr.block, slice.ptr.addr + start⟩, len⟩
  else
    none

/-- The bytes of `inner` are bytes of `outer`. -/
structure Slice.Within (inner outer : Slice) : Prop where
  block : inner.ptr.block = outer.ptr.block
  low : outer.ptr.addr ≤ inner.ptr.addr
  high : inner.ptr.addr + inner.len ≤ outer.ptr.addr + outer.len

theorem Slice.Within.refl (slice : Slice) : slice.Within slice :=
  ⟨rfl, le_rfl, le_rfl⟩

theorem Slice.Within.trans {a b c : Slice} (h₁ : a.Within b) (h₂ : b.Within c) : a.Within c :=
  ⟨h₁.block.trans h₂.block, le_trans h₂.low h₁.low, le_trans h₁.high h₂.high⟩

theorem Slice.within_of_sub? {slice sub : Slice} {start len : ℕ}
    (h : slice.sub? start len = some sub) : sub.Within slice := by
  unfold Slice.sub? at h
  split at h
  · next hle =>
    cases h
    exact ⟨rfl, Nat.le_add_right _ _, by simp only; omega⟩
  · cases h

theorem Slice.within_of_len_le {ptr : BytePtr} {short long : ℕ} (h : short ≤ long) :
    (Slice.mk ptr short).Within ⟨ptr, long⟩ :=
  ⟨rfl, le_rfl, Nat.add_le_add_left h _⟩

/-! ## Result codes and formats -/

/-- `avifResult`: a C enumeration, so any code may come from libavif. -/
structure AvifResult where
  code : UInt32
deriving DecidableEq, Repr

namespace AvifResult

/-- `AVIF_RESULT_OK`. -/
def ok : AvifResult := ⟨0⟩

/-- `AVIF_RESULT_REFORMAT_FAILED`. -/
def reformatFailed : AvifResult := ⟨5⟩

/-- `AVIF_RESULT_BMFF_PARSE_FAILED`. -/
def bmffParseFailed : AvifResult := ⟨9⟩

/-- `AVIF_RESULT_INVALID_ARGUMENT`. -/
def invalidArgument : AvifResult := ⟨24⟩

/-- `AVIF_RESULT_OUT_OF_MEMORY`. -/
def outOfMemory : AvifResult := ⟨26⟩

end AvifResult

/-- `avifPixelFormat`. -/
structure AvifPixelFormat where
  code : UInt32
deriving DecidableEq, Repr

/-- `avifRGBFormat`. -/
structure AvifRGBFormat where
  code : UInt32
deriving DecidableEq, Repr

/-- `avifChromaUpsampling`. -/
structure AvifChromaUpsampling where
  code : UInt32
deriving DecidableEq, Repr

/-- `avifChromaDownsampling`. -/
structure AvifChromaDownsampling where
  code : UInt32
deriving DecidableEq, Repr

/-- `AVIF_RGB_FORMAT_RGB_565`, the one format whose pixels are not made of channels. -/
def AvifRGBFormat.rgb565 : AvifRGBFormat := ⟨6⟩

/-- `AVIF_CHROMA_UPSAMPLING_AUTOMATIC`. -/
def AvifChromaUpsampling.automatic : AvifChromaUpsampling := ⟨0⟩

/-- `AVIF_CHROMA_DOWNSAMPLING_AUTOMATIC`. -/
def AvifChromaDownsampling.automatic : AvifChromaDownsampling := ⟨0⟩

/-! ## Records -/

/-- The fields of an `avifImage` that the crate reads. -/
structure AvifImage where
  width : UInt32
  height : UInt32
  depth : UInt32
deriving DecidableEq, Repr

/-- `avifRGBImage`. The crate keeps it by value, with a pointer to the pixels in it. -/
structure AvifRGBImage where
  width : UInt32
  height : UInt32
  depth : UInt32
  format : AvifRGBFormat
  chromaUpsampling : AvifChromaUpsampling
  chromaDownsampling : AvifChromaDownsampling
  avoidLibYUV : Int32
  ignoreAlpha : Int32
  alphaPremultiplied : Int32
  isFloat : Int32
  maxThreads : Int32
  pixels : U8Ptr
  rowBytes : UInt32
deriving DecidableEq

/-- `MaybeUninit::zeroed()`. -/
def AvifRGBImage.zeroed : AvifRGBImage where
  width := 0
  height := 0
  depth := 0
  format := ⟨0⟩
  chromaUpsampling := ⟨0⟩
  chromaDownsampling := ⟨0⟩
  avoidLibYUV := 0
  ignoreAlpha := 0
  alphaPremultiplied := 0
  isFloat := 0
  maxThreads := 0
  pixels := none
  rowBytes := 0

/-- The exact size of the pixel buffer a header describes. -/
def AvifRGBImage.bufferBytes (rgb : AvifRGBImage) : ℕ :=
  rgb.rowBytes.toNat * rgb.height.toNat

/-- `avifRWData`: a buffer that libavif fills, and its size. -/
structure AvifRWData where
  data : U8Ptr
  size : ℕ
deriving DecidableEq

/-- The fields of an `avifEncoder` that the crate reads or writes. -/
structure AvifEncoder where
  maxThreads : Int32
  speed : Int32
  quality : Int32
deriving DecidableEq, Repr

/-! ## Memory -/

/-- Who made a byte buffer, and so who may free it. -/
inductive Allocator where
  /-- `avifRGBImageAllocatePixels`. -/
  | rgbPixels
  /-- The encoder, filling an `avifRWData`. -/
  | rwData
  | caller
deriving DecidableEq, Repr

/-- What an allocation is. -/
inductive Object where
  | image
  | decoder
  | encoder
  | buffer (allocator : Allocator) (base size : ℕ)
deriving DecidableEq, Repr

/-- Whether libavif allocated the object. -/
def Object.ofLibavif : Object → Bool
  | .buffer .caller _ _ => false
  | _ => true

/-- The memory that the crate, its user and libavif share. -/
structure World (σ : Type) where
  ledger : Ledger Handle Object
  images : Handle → AvifImage
  encoders : Handle → AvifEncoder
  bytes : Handle → ℕ → UInt8
  hidden : σ

/-- Memory in which nothing was ever allocated; the contents mean nothing yet. -/
def World.boot {σ : Type} (hidden : σ) : World σ where
  ledger _ := .fresh
  images _ := ⟨0, 0, 0⟩
  encoders _ := ⟨0, 0, 0⟩
  bytes _ _ := 0
  hidden := hidden

/-- The bytes behind a slice. -/
def World.read {σ : Type} (world : World σ) (slice : Slice) : List UInt8 :=
  (List.range slice.len).map fun i => world.bytes slice.ptr.block (slice.ptr.addr + i)

/-- The slice lies inside one live buffer. -/
def readable (ledger : Ledger Handle Object) (slice : Slice) : Bool :=
  match ledger slice.ptr.block with
  | .live (.buffer _ base size) =>
      decide (base ≤ slice.ptr.addr) && decide (slice.ptr.addr + slice.len ≤ base + size)
  | _ => false

theorem readable_mono {ledger : Ledger Handle Object} {inner outer : Slice}
    (hwithin : inner.Within outer) (h : readable ledger outer = true) :
    readable ledger inner = true := by
  unfold readable at h ⊢
  -- both slices point into one block, so one case split decides both
  rw [hwithin.block]
  cases hcell : ledger outer.ptr.block with
  | fresh | freed => simp [hcell] at h
  | live object =>
      cases object with
      | image | decoder | encoder => simp [hcell] at h
      | buffer allocator base size =>
          simp only [hcell, Bool.and_eq_true, decide_eq_true_eq] at h ⊢
          exact ⟨le_trans h.1 hwithin.low, le_trans hwithin.high h.2⟩

theorem readable_of_within {ledger : Ledger Handle Object} {slice : Slice} {ptr : BytePtr}
    {allocator : Allocator} {size : ℕ}
    (hlive : ledger ptr.block = .live (.buffer allocator ptr.addr size))
    (hwithin : slice.Within ⟨ptr, size⟩) : readable ledger slice = true := by
  unfold readable
  rw [hwithin.block, hlive]
  simpa using And.intro hwithin.low hwithin.high

end Favi

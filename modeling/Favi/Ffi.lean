import Favi.Libavif
import Favi.Foundation.Program

/-!
# Calls into libavif

The crate runs in `Ffi σ`: it changes the world through libavif, and it faults when it
does what safe Rust must never do, that is when it passes libavif a handle that is not
a live object of the right type, frees something that is not libavif's to free, or
makes a slice of a null pointer or of bytes that are not all allocated.  `frees` logs
every deallocation in order.

Each entry point has a wrapper under its own name that checks what the C function
assumes and then calls it.  The wrapper's lemma gives what the call does to the ledger
as a list of events (`Machine.Steps`); everything else about the crate is proved from
these lemmas.

## Strategy

There are few kinds of entry points, and what is the same about a kind is said once:

* `ensures_call_of_keeps`: a call that allocates and frees nothing;
* `ensures_call_creates`: a creating call, with null for a failure;
* `ensures_destroy` and `ensures_freeBuffer`: calls that free an object or a buffer, after
  a check that it is live and libavif's to free.

The events are lists because functions are sequences of calls: `Machine.Steps.append` puts
the events of two programs one after the other, and the log of frees follows along.
-/

namespace Favi

open Custody Program

/-- What safe code must never do. -/
inductive Fault where
  /-- A handle that is not a live object of the right type was passed to libavif. -/
  | dangling (handle : Handle)
  /-- Something was freed that is not a live buffer of the right allocator. -/
  | badFree (handle : Handle)
  /-- A slice was made of a null pointer. -/
  | nullSlice
  /-- Bytes outside a live buffer were accessed. -/
  | outOfBounds (slice : Slice)
deriving DecidableEq, Repr

/-- The world and the log of deallocations. -/
structure Machine (σ : Type) where
  world : World σ
  frees : List Handle

/-- A program of the crate: it changes the machine and returns, or it faults. -/
abbrev Ffi (σ : Type) := StateT (Machine σ) (Except Fault)

variable {σ : Type}

/-! ## Ledger events of a program -/

/-- The events lead from one machine to the other, and the frees among them are logged. -/
structure Machine.Steps (m : Machine σ) (events : List (Event Handle Object)) (m' : Machine σ) :
    Prop where
  ledger : Evolves m.world.ledger events m'.world.ledger
  frees : m'.frees = m.frees ++ events.filterMap Event.freed?

namespace Machine.Steps

theorem refl (m : Machine σ) : m.Steps [] m := ⟨.nil _, by simp⟩

theorem append {m m' m'' : Machine σ} {events more : List (Event Handle Object)}
    (h₁ : m.Steps events m') (h₂ : m'.Steps more m'') : m.Steps (events ++ more) m'' :=
  ⟨h₁.ledger.append h₂.ledger, by
    rw [h₂.frees, h₁.frees, List.filterMap_append, List.append_assoc]⟩

theorem of_ledger_eq {m m' : Machine σ} (hledger : m'.world.ledger = m.world.ledger)
    (hfrees : m'.frees = m.frees) : m.Steps [] m' :=
  ⟨by rw [hledger]; exact .nil _, by simp [hfrees]⟩

theorem ledger_eq {m m' : Machine σ} (h : m.Steps [] m') : m'.world.ledger = m.world.ledger :=
  h.ledger.eq_of_nil

theorem of_alloc {m m' : Machine σ} {handle : Handle} {object : Object}
    (hfresh : m.world.ledger handle = .fresh)
    (hledger : m'.world.ledger = Function.update m.world.ledger handle (.live object))
    (hfrees : m'.frees = m.frees) : m.Steps [.alloc handle object] m' :=
  ⟨by rw [hledger]; exact .alloc object hfresh, by simp [Event.freed?, hfrees]⟩

theorem of_free {m m' : Machine σ} {handle : Handle} {object : Object}
    (hlive : m.world.ledger handle = .live object)
    (hledger : m'.world.ledger = Function.update m.world.ledger handle .freed)
    (hfrees : m'.frees = m.frees ++ [handle]) : m.Steps [.free handle object] m' :=
  ⟨by rw [hledger]; exact .free hlive, by simp [Event.freed?, hfrees]⟩

theorem live_of_alloc {m m' : Machine σ} {handle : Handle} {object : Object}
    (h : m.Steps [.alloc handle object] m') : m'.world.ledger handle = .live object := by
  rw [h.ledger.eq_of_alloc.2, Function.update_self]

theorem live_of_alloc_of_live {m m' : Machine σ} {handle other : Handle} {object kind : Object}
    (h : m.Steps [.alloc handle object] m') (hlive : m.world.ledger other = .live kind) :
    m'.world.ledger other = .live kind := by
  obtain ⟨hfresh, hledger⟩ := h.ledger.eq_of_alloc
  have hne : other ≠ handle := by
    rintro rfl
    exact absurd (hfresh.symm.trans hlive) (by simp)
  rw [hledger, Function.update_of_ne hne, hlive]

theorem live_of_free_of_live {m m' : Machine σ} {handle other : Handle} {object kind : Object}
    (h : m.Steps [.free handle object] m') (hlive : m.world.ledger other = .live kind)
    (hkind : kind ≠ object) : m'.world.ledger other = .live kind := by
  obtain ⟨hfreed, hledger⟩ := h.ledger.eq_of_free
  -- one handle is never two kinds of object
  have hne : other ≠ handle := by
    rintro rfl
    exact hkind (Cell.live.inj (hlive.symm.trans hfreed))
  rw [hledger, Function.update_of_ne hne, hlive]

theorem readable {m m' : Machine σ} {handle : Handle} {object : Object} {slice : Slice}
    (h : m.Steps [.alloc handle object] m') (hreadable : readable m.world.ledger slice = true) :
    Favi.readable m'.world.ledger slice = true := by
  unfold Favi.readable at hreadable ⊢
  split at hreadable
  · next allocator base size hlive => rwa [h.live_of_alloc_of_live hlive]
  · cases hreadable

end Machine.Steps

/-! ## Checks -/

/-- `handle` is a live `object`. -/
def requireLive (handle : Handle) (object : Object) : Ffi σ Unit := fun m =>
  if m.world.ledger handle = .live object then .ok ((), m) else .error (.dangling handle)

/-- The bytes behind `slice` are all allocated. -/
def requireReadable (slice : Slice) : Ffi σ Unit := fun m =>
  if readable m.world.ledger slice then .ok ((), m) else .error (.outOfBounds slice)

/-- `ptr` is what `allocator` returned for a buffer that is live. -/
def requireBuffer (allocator : Allocator) (ptr : BytePtr) : Ffi σ Unit := fun m =>
  match m.world.ledger ptr.block with
  | .live (.buffer by' base _) =>
      if by' = allocator ∧ base = ptr.addr then .ok ((), m) else .error (.badFree ptr.block)
  | _ => .error (.badFree ptr.block)

/-- `slice::from_raw_parts`. -/
def sliceFromRawParts (ptr : U8Ptr) (len : ℕ) : Ffi σ Slice :=
  match ptr with
  | none => fun _ => .error .nullSlice
  | some ptr => do
      requireReadable ⟨ptr, len⟩
      return ⟨ptr, len⟩

theorem ensures_requireLive {m : Machine σ} {handle : Handle} {object : Object}
    (hlive : m.world.ledger handle = .live object) :
    Ensures (requireLive handle object) m fun _ m' => m' = m :=
  ⟨(), m, if_pos hlive, rfl⟩

theorem ensures_requireReadable {m : Machine σ} {slice : Slice}
    (hreadable : readable m.world.ledger slice = true) :
    Ensures (requireReadable slice) m fun _ m' => m' = m :=
  ⟨(), m, if_pos hreadable, rfl⟩

theorem ensures_requireBuffer {m : Machine σ} {allocator : Allocator} {ptr : BytePtr} {size : ℕ}
    (hlive : m.world.ledger ptr.block = .live (.buffer allocator ptr.addr size)) :
    Ensures (requireBuffer allocator ptr) m fun _ m' => m' = m :=
  ⟨(), m, by simp [requireBuffer, hlive], rfl⟩

theorem ensures_sliceFromRawParts {m : Machine σ} {ptr : BytePtr} {len : ℕ}
    (hreadable : readable m.world.ledger ⟨ptr, len⟩ = true) :
    Ensures (sliceFromRawParts (some ptr) len) m fun slice m' => slice = ⟨ptr, len⟩ ∧ m' = m := by
  refine Ensures.bind ((ensures_requireReadable hreadable).mono ?_)
  rintro - m' rfl
  exact Ensures.pure ⟨rfl, rfl⟩

/-! ## Families of entry points -/

/-- Call an entry point that frees nothing. -/
def call {α : Type} (f : World σ → α × World σ) : Ffi σ α := fun m =>
  match f m.world with
  | (a, world) => .ok (a, { m with world := world })

/-- Call an entry point that frees `handle`, and log it. -/
def callFree (f : World σ → World σ) (handle : Handle) : Ffi σ Unit := fun m =>
  .ok ((), { world := f m.world, frees := m.frees ++ [handle] })

theorem ensures_call {α : Type} {f : World σ → α × World σ} {m : Machine σ}
    {post : α → Machine σ → Prop} (h : post (f m.world).1 { m with world := (f m.world).2 }) :
    Ensures (call f) m post :=
  ⟨(f m.world).1, { m with world := (f m.world).2 }, rfl, h⟩

theorem ensures_call_of_keeps {α : Type} (f : World σ → α × World σ) {m : Machine σ}
    (hkeeps : (f m.world).2.ledger = m.world.ledger) :
    Ensures (call f) m fun a m' => a = (f m.world).1 ∧ m.Steps [] m' :=
  ensures_call ⟨rfl, .of_ledger_eq hkeeps rfl⟩

theorem ensures_callFree {f : World σ → World σ} {m : Machine σ} {handle : Handle}
    {object : Object} (hlive : m.world.ledger handle = .live object)
    (hledger : (f m.world).ledger = Function.update m.world.ledger handle .freed) :
    Ensures (callFree f handle) m fun _ m' => m.Steps [.free handle object] m' :=
  ⟨(), _, rfl, .of_free hlive hledger rfl⟩

/-- A creating call, followed by `transmute` to an `Option` of the wrapper: a null
pointer is `None`. -/
theorem ensures_call_creates {object : Object} {create : World σ → Option Handle × World σ}
    (hcreates : Creates object create) (m : Machine σ) :
    Ensures (call create) m fun result m' =>
      match result with
      | none => m.Steps [] m'
      | some handle => m.Steps [.alloc handle object] m' := by
  apply ensures_call
  -- the documentation speaks of the world before the call
  have h := hcreates m.world
  rcases hcreate : create m.world with ⟨_ | handle, world⟩
  · rw [hcreate] at h
    exact .of_ledger_eq h rfl
  · rw [hcreate] at h
    exact .of_alloc h.1 h.2 rfl

/-- A call that frees an object of libavif's, and must be given one. -/
def destroy (object : Object) (f : Handle → World σ → World σ) (handle : Handle) :
    Ffi σ Unit := do
  requireLive handle object
  callFree (f handle) handle

theorem ensures_destroy {object : Object} {f : Handle → World σ → World σ}
    (hdestroys : Destroys object f) {m : Machine σ} {handle : Handle}
    (hlive : m.world.ledger handle = .live object) :
    Ensures (destroy object f handle) m fun _ m' => m.Steps [.free handle object] m' := by
  refine Ensures.bind ((ensures_requireLive hlive).mono ?_)
  rintro - m' rfl
  exact ensures_callFree hlive (hdestroys handle m'.world hlive)

/-- A call that frees a byte buffer, or does nothing when there is none. -/
def freeBuffer (allocator : Allocator) (f : World σ → World σ) (ptr : U8Ptr) : Ffi σ Unit :=
  match ptr with
  | none => call fun w => ((), f w)
  | some ptr => do
      requireBuffer allocator ptr
      callFree f ptr.block

theorem ensures_freeBuffer_null (allocator : Allocator) {f : World σ → World σ} {m : Machine σ}
    (hkeeps : (f m.world).ledger = m.world.ledger) :
    Ensures (freeBuffer allocator f none) m fun _ m' => m.Steps [] m' :=
  (ensures_call_of_keeps (fun w => ((), f w)) hkeeps).mono fun _ _ h => h.2

theorem ensures_freeBuffer {allocator : Allocator} {f : World σ → World σ} {m : Machine σ}
    {ptr : BytePtr} {size : ℕ}
    (hlive : m.world.ledger ptr.block = .live (.buffer allocator ptr.addr size))
    (hfree : (f m.world).ledger = Function.update m.world.ledger ptr.block .freed) :
    Ensures (freeBuffer allocator f (some ptr)) m fun _ m' =>
      m.Steps [.free ptr.block (.buffer allocator ptr.addr size)] m' := by
  refine Ensures.bind ((ensures_requireBuffer hlive).mono ?_)
  rintro - m' rfl
  exact ensures_callFree hlive hfree

/-! ## The entry points -/

namespace Sys

variable (lib : Libavif σ)

/-- `sys::avifImageCreateEmpty`. -/
def avifImageCreateEmpty : Ffi σ (Option Handle) := call lib.avifImageCreateEmpty

/-- `sys::avifImageCreate`. -/
def avifImageCreate (width height depth : UInt32) (yuvFormat : AvifPixelFormat) :
    Ffi σ (Option Handle) :=
  call (lib.avifImageCreate width height depth yuvFormat)

/-- `sys::avifImageDestroy`. -/
def avifImageDestroy (image : Handle) : Ffi σ Unit := destroy .image lib.avifImageDestroy image

/-- `sys::avifRGBImageSetDefaults`; the header is passed in and handed back. -/
def avifRGBImageSetDefaults (rgb : AvifRGBImage) (image : Handle) : Ffi σ AvifRGBImage := do
  requireLive image .image
  call (lib.avifRGBImageSetDefaults rgb image)

/-- `sys::avifRGBImageAllocatePixels`; the header is passed in and handed back. -/
def avifRGBImageAllocatePixels (rgb : AvifRGBImage) : Ffi σ (AvifResult × AvifRGBImage) :=
  call fun w =>
    match lib.avifRGBImageAllocatePixels rgb w with
    | (result, rgb', w') => ((result, rgb'), w')

/-- `sys::avifRGBImageFreePixels`: frees the buffer of the header, if it has one. -/
def avifRGBImageFreePixels (rgb : AvifRGBImage) : Ffi σ Unit :=
  freeBuffer .rgbPixels (lib.avifRGBImageFreePixels rgb) rgb.pixels

/-- The pixel buffer that a header describes is all there. -/
def requirePixels (rgb : AvifRGBImage) : Ffi σ Unit :=
  match rgb.pixels with
  | none => fun _ => .error .nullSlice
  | some ptr => requireReadable ⟨ptr, rgb.bufferBytes⟩

/-- `sys::avifImageYUVToRGB`: writes the pixel buffer. -/
def avifImageYUVToRGB (image : Handle) (rgb : AvifRGBImage) :
    Ffi σ (AvifResult × AvifRGBImage) := do
  requireLive image .image
  requirePixels rgb
  call fun w =>
    match lib.avifImageYUVToRGB image rgb w with
    | (result, rgb', w') => ((result, rgb'), w')

/-- `sys::avifImageRGBToYUV`: reads the pixel buffer. -/
def avifImageRGBToYUV (image : Handle) (rgb : AvifRGBImage) : Ffi σ AvifResult := do
  requireLive image .image
  requirePixels rgb
  call (lib.avifImageRGBToYUV image rgb)

/-- `sys::avifRWDataFree`: frees the buffer, if there is one. -/
def avifRWDataFree (data : AvifRWData) : Ffi σ Unit :=
  freeBuffer .rwData (lib.avifRWDataFree data) data.data

/-- `sys::avifDecoderCreate`. -/
def avifDecoderCreate : Ffi σ (Option Handle) := call lib.avifDecoderCreate

/-- `sys::avifDecoderReadMemory`: reads `data` and writes the image. -/
def avifDecoderReadMemory (decoder image : Handle) (data : Slice) : Ffi σ AvifResult := do
  requireLive decoder .decoder
  requireLive image .image
  requireReadable data
  call (lib.avifDecoderReadMemory decoder image data)

/-- `sys::avifDecoderDestroy`. -/
def avifDecoderDestroy (decoder : Handle) : Ffi σ Unit :=
  destroy .decoder lib.avifDecoderDestroy decoder

/-- `sys::avifEncoderCreate`. -/
def avifEncoderCreate : Ffi σ (Option Handle) := call lib.avifEncoderCreate

/-- `sys::avifEncoderWrite`; the output is passed in and handed back. -/
def avifEncoderWrite (encoder image : Handle) (output : AvifRWData) :
    Ffi σ (AvifResult × AvifRWData) := do
  requireLive encoder .encoder
  requireLive image .image
  call fun w =>
    match lib.avifEncoderWrite encoder image output w with
    | (result, output', w') => ((result, output'), w')

/-- `sys::avifEncoderAddImage`. -/
def avifEncoderAddImage (encoder image : Handle) (durationInTimescales : UInt64)
    (addImageFlags : UInt32) : Ffi σ AvifResult := do
  requireLive encoder .encoder
  requireLive image .image
  call (lib.avifEncoderAddImage encoder image durationInTimescales addImageFlags)

/-- `sys::avifEncoderFinish`; the output is passed in and handed back. -/
def avifEncoderFinish (encoder : Handle) (output : AvifRWData) :
    Ffi σ (AvifResult × AvifRWData) := do
  requireLive encoder .encoder
  call fun w =>
    match lib.avifEncoderFinish encoder output w with
    | (result, output', w') => ((result, output'), w')

/-- `sys::avifEncoderDestroy`. -/
def avifEncoderDestroy (encoder : Handle) : Ffi σ Unit :=
  destroy .encoder lib.avifEncoderDestroy encoder

end Sys

end Favi

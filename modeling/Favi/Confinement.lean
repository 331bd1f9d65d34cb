import Favi.Foundation.Frame
import Favi.Effects
import Favi.Reference

/-!
# What a call leaves alone

`Libavif.Documented` is about allocations.  `Libavif.Confined` is about contents: an
entry point writes to objects that it gets by a mutable pointer, or that it allocates
itself, and to nothing else.  So much is in the C signatures of `sys.rs`; only the
settings of an encoder, an image's header in a conversion to YUV and the header of a new
image are said in words.

From this follows, function by function, what the crate leaves alone: `m.Spares out m'`
says that everything allocated in `m` is in `m'` as it was, except for the handles in
`out`.

## Strategy

There is one lemma `yields_f` for each function `f`, shaped like `f`: each call in its body
spares all but its own arguments, and `Spares.trans` adds these up.  An allocation made on
the way would add its handle too, which is not wanted in the result, since nobody outside
the function has seen it.  `Spares.trans_fresh` drops it: what was fresh at the start is not
among the things that have to stay as they were.

The lemmas are about what a program yields when it does not fault; that it does not fault
is `Favi.Effects`.  `Delivered` adds which errors can come out, and what a new value looks
like.
-/

namespace Favi

open Custody Program

variable {σ : Type} {lib : Libavif σ}

/-! ## Contents -/

/-- What stands under a live handle. -/
structure Content where
  object : Object
  image : AvifImage
  encoder : AvifEncoder
  bytes : ℕ → UInt8

/-- What is under the handle, if it is live. -/
def World.look (w : World σ) (handle : Handle) : Option Content :=
  match w.ledger handle with
  | .live object => some ⟨object, w.images handle, w.encoders handle, w.bytes handle⟩
  | .fresh | .freed => none

theorem World.look_of_live {w : World σ} {handle : Handle} {object : Object}
    (hlive : w.ledger handle = .live object) :
    w.look handle = some ⟨object, w.images handle, w.encoders handle, w.bytes handle⟩ := by
  simp only [World.look, hlive]

theorem World.look_of_fresh {w : World σ} {handle : Handle} (hfresh : w.ledger handle = .fresh) :
    w.look handle = none := by
  simp only [World.look, hfresh]

/-- All that is live in `w` outside `out` is in `w'` as it was. -/
def World.Spares (w : World σ) (out : Set Handle) (w' : World σ) : Prop :=
  Frame.Spares World.look out w w'

/-- The allocation that a pointer points into, if it is not null. -/
def blockOf (ptr : U8Ptr) : Set Handle := {handle | ∃ p, ptr = some p ∧ p.block = handle}

/-- What libavif does not write to. -/
structure Libavif.Confined (lib : Libavif σ) : Prop where
  imageCreateEmpty : ∀ w : World σ, w.Spares ∅ (lib.avifImageCreateEmpty w).2
  /-- The new image has the dimensions it was asked for. -/
  imageCreate : ∀ width height depth format (w : World σ),
    match lib.avifImageCreate width height depth format w with
    | (image, w') => w.Spares ∅ w' ∧
        ∀ handle, image = some handle → w'.images handle = ⟨width, height, depth⟩
  imageDestroy : ∀ image (w : World σ), w.Spares {image} (lib.avifImageDestroy image w)
  rgbImageSetDefaults : ∀ rgb image (w : World σ),
    w.Spares ∅ (lib.avifRGBImageSetDefaults rgb image w).2
  /-- Given a header without a buffer; otherwise it frees the buffer that is there first. -/
  rgbImageAllocatePixels : ∀ rgb (w : World σ), rgb.pixels = none →
    w.Spares ∅ (lib.avifRGBImageAllocatePixels rgb w).2.2
  rgbImageFreePixels : ∀ rgb (w : World σ),
    w.Spares (blockOf rgb.pixels) (lib.avifRGBImageFreePixels rgb w)
  imageYUVToRGB : ∀ image rgb (w : World σ),
    w.Spares (blockOf rgb.pixels) (lib.avifImageYUVToRGB image rgb w).2.2
  /-- The planes are written, but not the dimensions. -/
  imageRGBToYUV : ∀ image rgb (w : World σ), match lib.avifImageRGBToYUV image rgb w with
    | (_, w') => w.Spares {image} w' ∧ w'.images image = w.images image
  rwDataFree : ∀ data (w : World σ), w.Spares (blockOf data.data) (lib.avifRWDataFree data w)
  decoderCreate : ∀ w : World σ, w.Spares ∅ (lib.avifDecoderCreate w).2
  decoderReadMemory : ∀ decoder image data (w : World σ),
    w.Spares {decoder, image} (lib.avifDecoderReadMemory decoder image data w).2
  decoderDestroy : ∀ decoder (w : World σ), w.Spares {decoder} (lib.avifDecoderDestroy decoder w)
  encoderCreate : ∀ w : World σ, w.Spares ∅ (lib.avifEncoderCreate w).2
  encoderWrite : ∀ encoder image output (w : World σ), output.data = none →
    w.Spares {encoder} (lib.avifEncoderWrite encoder image output w).2.2
  /-- The settings of the encoder are inputs. -/
  encoderAddImage : ∀ encoder image duration flags (w : World σ),
    w.Spares ∅ (lib.avifEncoderAddImage encoder image duration flags w).2
  encoderFinish : ∀ encoder output (w : World σ), output.data = none →
    w.Spares {encoder} (lib.avifEncoderFinish encoder output w).2.2
  encoderDestroy : ∀ encoder (w : World σ), w.Spares {encoder} (lib.avifEncoderDestroy encoder w)

/-- The same of two machines; the log of frees is no content. -/
def Machine.Spares (m : Machine σ) (out : Set Handle) (m' : Machine σ) : Prop :=
  m.world.Spares out m'.world

namespace Machine.Spares

variable {out more : Set Handle} {m m' m'' : Machine σ}

theorem refl (out : Set Handle) (m : Machine σ) : m.Spares out m :=
  Frame.Spares.refl _ _ _

theorem mono (h : m.Spares out m') (hsub : out ⊆ more) : m.Spares more m' :=
  Frame.Spares.mono h hsub

theorem of_empty (h : m.Spares ∅ m') : m.Spares out m' :=
  h.mono (Set.empty_subset _)

theorem trans (h : m.Spares out m') (h' : m'.Spares out m'') : m.Spares out m'' :=
  Frame.Spares.trans h h'

theorem trans_fresh (h : m.Spares out m') (h' : m'.Spares more m'')
    (hfresh : ∀ handle ∈ more, handle ∈ out ∨ m.world.look handle = none) :
    m.Spares out m'' :=
  Frame.Spares.trans_fresh h h' hfresh

end Machine.Spares

/-! ## Checks and families of entry points -/

variable {m : Machine σ}

theorem yields_requireLive (handle : Handle) (object : Object) :
    Yields (requireLive handle object) m fun _ m' => m' = m := by
  intro _ m' h
  unfold requireLive at h
  split at h <;> cases h
  rfl

theorem yields_requireReadable (slice : Slice) :
    Yields (requireReadable slice) m fun _ m' => m' = m := by
  intro _ m' h
  unfold requireReadable at h
  split at h <;> cases h
  rfl

theorem yields_requireBuffer (allocator : Allocator) (ptr : BytePtr) :
    Yields (requireBuffer allocator ptr) m fun _ m' => m' = m := by
  intro _ m' h
  unfold requireBuffer at h
  split at h
  · split at h <;> cases h
    rfl
  · cases h

theorem yields_requirePixels (rgb : AvifRGBImage) :
    Yields (Sys.requirePixels rgb) m fun _ m' => m' = m := by
  unfold Sys.requirePixels
  split
  · exact fun _ _ h => by cases h
  · exact yields_requireReadable _

theorem yields_call {α : Type} {f : World σ → α × World σ} {post : α → Machine σ → Prop}
    (h : post (f m.world).1 { m with world := (f m.world).2 }) : Yields (call f) m post :=
  (ensures_call h).yields

/-- The destroying calls touch what they destroy. -/
theorem yields_destroy {object : Object} {f : Handle → World σ → World σ} {handle : Handle}
    (hspares : ∀ w : World σ, w.Spares {handle} (f handle w)) :
    Yields (destroy object f handle) m fun _ m' => m.Spares {handle} m' := by
  refine Yields.bind ((yields_requireLive handle object).mono ?_)
  rintro - m' rfl
  rintro _ _ ⟨⟩
  exact hspares m'.world

/-- Freeing a buffer touches that buffer; without one it touches nothing. -/
theorem yields_freeBuffer {allocator : Allocator} {f : World σ → World σ} {ptr : U8Ptr}
    (hspares : ∀ w : World σ, w.Spares (blockOf ptr) (f w)) :
    Yields (freeBuffer allocator f ptr) m fun _ m' => m.Spares (blockOf ptr) m' := by
  cases ptr with
  | none =>
      change Yields (call fun w => ((), f w)) m _
      exact yields_call (hspares m.world)
  | some ptr =>
      refine Yields.bind ((yields_requireBuffer allocator ptr).mono ?_)
      rintro - m' rfl
      rintro _ _ ⟨⟩
      exact hspares m'.world

/-! ## Functions that make something -/

/-- The result is a value that is `good`, or an error that is expected. -/
def Delivered {α : Type} (errors : Error → Prop) (good : α → Prop) : Result α → Prop
  | .ok a => good a
  | .error e => errors e

/-- The creating functions: nothing is touched, and the value wraps the handle that the call
returned. -/
theorem yields_create {α : Type} {create : World σ → Option Handle × World σ} (mk : Handle → α)
    (hspares : ∀ w : World σ, w.Spares ∅ (create w).2) :
    Yields (do
        let made ← call create
        return okOr (made.map mk) .allocationFailed : Ffi σ (Result α)) m fun result m' =>
      m.Spares ∅ m' ∧ Delivered (· = .allocationFailed)
        (fun a => ∃ handle, create m.world = (some handle, m'.world) ∧ a = mk handle) result := by
  refine Yields.bind (yields_call (Yields.pure ?_))
  refine ⟨hspares m.world, ?_⟩
  rcases hcreate : create m.world with ⟨_ | handle, w⟩
  · rfl
  · exact ⟨handle, rfl, rfl⟩

/-- A handle that was just created had nothing under it before. -/
theorem look_of_creates {object : Object} {create : World σ → Option Handle × World σ}
    (hcreates : Creates object create) {w w' : World σ} {handle : Handle}
    (h : create w = (some handle, w')) : w.look handle = none := by
  have hmade := hcreates w
  rw [h] at hmade
  exact World.look_of_fresh hmade.1

theorem yields_image_empty (hlib : lib.Documented) (hconf : lib.Confined) :
    Yields (Image.empty lib) m fun result m' => m.Spares ∅ m' ∧
      Delivered (· = .allocationFailed) (fun image => m.world.look image.raw = none) result := by
  refine (yields_create Image.mk hconf.imageCreateEmpty).mono ?_
  rintro (_ | image) m' ⟨hspares, h⟩
  · exact ⟨hspares, h⟩
  · obtain ⟨handle, hcreate, rfl⟩ := h
    exact ⟨hspares, look_of_creates hlib.imageCreateEmpty hcreate⟩

theorem yields_image_new (hlib : lib.Documented) (hconf : lib.Confined) (width height : UInt32)
    (depth : BitDepth) (format : PixelFormat) :
    Yields (Image.new lib width height depth format) m fun result m' => m.Spares ∅ m' ∧
      Delivered (· = .allocationFailed) (fun image => m.world.look image.raw = none ∧
        m'.world.images image.raw = ⟨width, height, depth.bits⟩) result := by
  have hcreate := hconf.imageCreate width height depth.bits format.raw
  refine (yields_create Image.mk fun w => (hcreate w).1).mono ?_
  rintro (_ | image) m' ⟨hspares, h⟩
  · exact ⟨hspares, h⟩
  · obtain ⟨handle, hmade, rfl⟩ := h
    have hheader := (hcreate m.world).2 handle
    rw [hmade] at hheader
    exact ⟨hspares, look_of_creates (hlib.imageCreate _ _ _ _) hmade, hheader rfl⟩

theorem yields_decoder_new (hconf : lib.Confined) :
    Yields (Decoder.new lib) m fun result m' => m.Spares ∅ m' ∧
      Delivered (· = .allocationFailed) (fun _ => True) result := by
  refine (yields_create Decoder.mk hconf.decoderCreate).mono ?_
  rintro (_ | decoder) m' ⟨hspares, h⟩
  · exact ⟨hspares, h⟩
  · exact ⟨hspares, trivial⟩

theorem yields_encoder_new (hconf : lib.Confined) :
    Yields (Encoder.new lib) m fun result m' => m.Spares ∅ m' ∧
      Delivered (· = .allocationFailed) (fun _ => True) result := by
  refine (yields_create Encoder.mk hconf.encoderCreate).mono ?_
  rintro (_ | encoder) m' ⟨hspares, h⟩
  · exact ⟨hspares, h⟩
  · exact ⟨hspares, trivial⟩

/-! ## Conversions -/

/-- Creating an image and filling it.  The image is new, so what is written to it is
spared. -/
theorem yields_createThen (hconf : lib.Confined) {create : Ffi σ (Result Image)}
    {fill : Image → Ffi σ AvifResult} {errors : Error → Prop} {out : Set Handle}
    {made good : Image → Machine σ → Prop}
    (hcreate : Yields create m fun result m' => m.Spares ∅ m' ∧
      Delivered errors (fun image => m.world.look image.raw = none ∧ made image m') result)
    (hfill : ∀ image m', made image m' → Yields (fill image) m' fun _ m'' =>
      m'.Spares (out ∪ {image.raw}) m'' ∧ good image m'') :
    Yields (Image.createThen lib create fill) m fun result m' => m.Spares out m' ∧
      Delivered (fun e => errors e ∨ CodeError e) (fun image => good image m') result := by
  refine Yields.bind (hcreate.mono ?_)
  rintro (error | image) m' ⟨hspares, h⟩
  · exact Yields.pure ⟨hspares.of_empty, Or.inl h⟩
  obtain ⟨hnew, hmade⟩ := h
  refine Yields.bind ((hfill image m' hmade).mono ?_)
  rintro result m'' ⟨hfilled, hgood⟩
  have hspares' : m.Spares out m'' := by
    refine hspares.of_empty.trans_fresh hfilled fun handle hmem => ?_
    exact hmem.imp_right fun heq => by rw [Set.mem_singleton_iff.mp heq, hnew]
  cases hcheck : result.check with
  | ok => exact Yields.pure ⟨hspares', hgood⟩
  | error e =>
      refine Yields.bind ((yields_destroy (hconf.imageDestroy image.raw)).mono ?_)
      intro _ m₃ hfree
      refine Yields.pure ⟨hspares'.trans_fresh hfree fun handle hmem => ?_, ?_⟩
      · exact Or.inr (by rw [Set.mem_singleton_iff.mp hmem, hnew])
      · exact Or.inr (AvifResult.codeError_of_check hcheck)

theorem yields_toImage (hlib : lib.Documented) (hconf : lib.Confined) (rgb : RgbImage)
    (depth : BitDepth) (format : PixelFormat) :
    Yields (rgb.toImage lib depth format) m fun result m' => m.Spares ∅ m' ∧
      Delivered (fun e => e = .allocationFailed ∨ CodeError e)
        (fun image => m'.world.images image.raw = ⟨rgb.raw.width, rgb.raw.height, depth.bits⟩)
        result := by
  refine yields_createThen hconf (yields_image_new hlib hconf _ _ depth format) ?_
  intro image m' hheader
  refine Yields.bind ((yields_requireLive image.raw .image).mono ?_)
  rintro - _ rfl
  refine Yields.bind ((yields_requirePixels rgb.raw).mono ?_)
  rintro - m' rfl
  have hwrite := hconf.imageRGBToYUV image.raw rgb.raw m'.world
  refine yields_call ⟨?_, hwrite.2.trans hheader⟩
  rw [Set.empty_union]
  exact hwrite.1

theorem yields_decode (hlib : lib.Documented) (hconf : lib.Confined) (decoder : Decoder)
    (data : Slice) :
    Yields (decoder.decode lib data) m fun result m' => m.Spares {decoder.raw} m' ∧
      Delivered (fun e => e = .allocationFailed ∨ CodeError e) (fun _ => True) result := by
  have hcreate : Yields (Image.empty lib) m fun result m' => m.Spares ∅ m' ∧
      Delivered (· = .allocationFailed)
        (fun image => m.world.look image.raw = none ∧ True) result := by
    simpa only [and_true] using yields_image_empty hlib hconf
  refine yields_createThen hconf hcreate ?_
  intro image m' (_ : True)
  refine Yields.bind ((yields_requireLive decoder.raw .decoder).mono ?_)
  rintro - _ rfl
  refine Yields.bind ((yields_requireLive image.raw .image).mono ?_)
  rintro - _ rfl
  refine Yields.bind ((yields_requireReadable data).mono ?_)
  rintro - m' rfl
  refine yields_call ⟨?_, trivial⟩
  exact hconf.decoderReadMemory decoder.raw image.raw data m'.world

/-- `from_image` writes to the buffer that it has just had allocated. -/
theorem yields_fromImage (hlib : lib.Documented) (hconf : lib.Confined) (image : Image)
    (depth : BitDepth) (format : RgbFormat) :
    Yields (RgbImage.fromImage lib image depth format) m fun result m' => m.Spares ∅ m' ∧
      Delivered CodeError (fun _ => True) result := by
  refine Yields.bind (Yields.bind ((yields_requireLive image.raw .image).mono ?_))
  rintro - m rfl
  have hdefaults := hlib.rgbImageSetDefaults .zeroed image.raw m.world
  have hspares₁ := hconf.rgbImageSetDefaults .zeroed image.raw m.world
  rcases hset : lib.avifRGBImageSetDefaults .zeroed image.raw m.world with ⟨raw, w₁⟩
  rw [hset] at hdefaults hspares₁
  refine yields_call ?_
  simp only [hset]
  have hallocate := hlib.rgbImageAllocatePixels (RgbImage.request raw depth format) w₁
    hdefaults.2.2.2
  have hspares₂ := hconf.rgbImageAllocatePixels (RgbImage.request raw depth format) w₁
    hdefaults.2.2.2
  rcases halloc : lib.avifRGBImageAllocatePixels (RgbImage.request raw depth format) w₁ with
    ⟨allocated, raw₂, w₂⟩
  rw [halloc] at hallocate hspares₂
  have hspares : m.world.Spares ∅ w₂ := Frame.Spares.trans hspares₁ hspares₂
  refine Yields.bind (yields_call ?_)
  simp only [halloc]
  cases hcheck : allocated.check with
  | error e => exact Yields.pure ⟨hspares, AvifResult.codeError_of_check hcheck⟩
  | ok =>
      have hok : allocated = .ok := by
        by_contra hne
        rw [AvifResult.check_of_ne hne] at hcheck
        cases hcheck
      obtain ⟨-, ptr, rowBytes, hraw, -, -, hfresh, -⟩ := hallocate.2 hok
      -- the buffer that the conversion writes to is new
      have hnew : ∀ handle ∈ blockOf raw₂.pixels, m.world.look handle = none := by
        rintro handle ⟨p, hp, rfl⟩
        rw [hraw] at hp
        cases hp
        exact World.look_of_fresh (hdefaults.1 ▸ hfresh)
      refine Yields.bind (Yields.bind ((yields_requireLive image.raw .image).mono ?_))
      rintro - _ rfl
      refine Yields.bind ((yields_requirePixels raw₂).mono ?_)
      rintro - _ rfl
      have hspares₃ := hconf.imageYUVToRGB image.raw raw₂ w₂
      refine yields_call ?_
      rcases hyuv : lib.avifImageYUVToRGB image.raw raw₂ w₂ with ⟨converted, raw₃, w₃⟩
      rw [hyuv] at hspares₃
      have hend : m.world.Spares ∅ w₃ :=
        Frame.Spares.trans_fresh hspares hspares₃ fun handle hmem => Or.inr (hnew handle hmem)
      simp only
      cases hcheck' : converted.check with
      | error e => exact Yields.pure ⟨hend, AvifResult.codeError_of_check hcheck'⟩
      | ok => exact Yields.pure ⟨hend, trivial⟩

/-! ## The encoder -/

theorem yields_addImage (hconf : lib.Confined) (encoder : Encoder) (image : Image)
    (duration : UInt64) (flags : AddImageFlags) :
    Yields (encoder.addImage lib image duration flags) m fun result m' => m.Spares ∅ m' ∧
      Delivered CodeError (fun _ => True) result := by
  refine Yields.bind (Yields.bind ((yields_requireLive encoder.raw .encoder).mono ?_))
  rintro - _ rfl
  refine Yields.bind ((yields_requireLive image.raw .image).mono ?_)
  rintro - m rfl
  refine yields_call (Yields.pure ⟨hconf.encoderAddImage _ _ _ _ m.world, ?_⟩)
  cases hcheck : (lib.avifEncoderAddImage encoder.raw image.raw duration flags.bits m.world).1.check
  · exact AvifResult.codeError_of_check hcheck
  · trivial

theorem yields_encoder_write (encoder : Encoder) (update : AvifEncoder → AvifEncoder) :
    Yields (encoder.write update) m fun _ m' => m.Spares {encoder.raw} m' ∧
      m'.world.encoders encoder.raw = update (m.world.encoders encoder.raw) := by
  refine Yields.bind ((yields_requireLive encoder.raw .encoder).mono ?_)
  rintro - m' rfl
  rintro _ _ ⟨⟩
  refine ⟨fun handle content hlook hout => ?_, Function.update_self ..⟩
  simp only [World.look, Function.update_of_ne (Set.mem_singleton_iff.not.mp hout)] at hlook ⊢
  exact hlook

theorem yields_data_drop (hconf : lib.Confined) (data : Data) :
    Yields (data.drop lib) m fun _ m' => m.Spares (blockOf data.raw.data) m' :=
  yields_freeBuffer (hconf.rwDataFree data.raw)

theorem yields_encoder_drop (hconf : lib.Confined) (encoder : Encoder) :
    Yields (encoder.drop lib) m fun _ m' => m.Spares {encoder.raw} m' :=
  yields_destroy (hconf.encoderDestroy encoder.raw)

/-- `encode` and `finish` give up the encoder and the output that they had filled. -/
theorem yields_collect (hconf : lib.Confined) {encoder : Encoder}
    {fill : AvifRWData → Ffi σ (AvifResult × AvifRWData)}
    (hfill : Yields (fill Data.new.raw) m fun out m' => m.Spares {encoder.raw} m' ∧
      ∀ handle ∈ blockOf out.2.data, m.world.look handle = none) :
    Yields (encoder.collect lib fill) m fun result m' => m.Spares {encoder.raw} m' ∧
      Delivered (fun e => CodeError e ∨ e = .emptyOutput) (fun _ => True) result := by
  refine Yields.bind (hfill.mono ?_)
  rintro ⟨result, raw⟩ m' ⟨hspares, hnew⟩
  have hgiveUp : ∀ error, (CodeError error ∨ error = .emptyOutput) →
      Yields (do
        Data.drop lib ⟨raw⟩
        encoder.drop lib
        return .error error : Ffi σ (Result Data)) m' fun result m'' =>
      m.Spares {encoder.raw} m'' ∧
        Delivered (fun e => CodeError e ∨ e = .emptyOutput) (fun _ => True) result := by
    intro error herror
    refine Yields.bind ((yields_data_drop hconf ⟨raw⟩).mono fun _ m₁ hdrop => ?_)
    refine Yields.bind ((yields_encoder_drop hconf encoder).mono fun _ m₂ hfree => ?_)
    refine Yields.pure ⟨?_, herror⟩
    exact (hspares.trans_fresh hdrop fun handle hmem => Or.inr (hnew handle hmem)).trans hfree
  simp only
  cases hcheck : result.check with
  | error e => exact hgiveUp e (Or.inl (AvifResult.codeError_of_check hcheck))
  | ok =>
      simp only
      split
      · exact hgiveUp .emptyOutput (Or.inr rfl)
      · refine Yields.bind ((yields_encoder_drop hconf encoder).mono fun _ m₁ hfree => ?_)
        exact Yields.pure ⟨hspares.trans hfree, trivial⟩

theorem yields_call_fills {write : AvifRWData → World σ → AvifResult × AvifRWData × World σ}
    (hfills : FillsOutput write) {out : Set Handle}
    (hspares : ∀ w : World σ, w.Spares out (write Data.new.raw w).2.2) :
    Yields (call fun w =>
        match write Data.new.raw w with
        | (result, output', w') => ((result, output'), w')) m fun filled m' =>
      m.Spares out m' ∧ ∀ handle ∈ blockOf filled.2.data, m.world.look handle = none := by
  refine yields_call ⟨hspares m.world, ?_⟩
  have h := hfills Data.new.raw m.world rfl
  rcases hwrite : write Data.new.raw m.world with ⟨result, ⟨data, size⟩, w⟩
  rw [hwrite] at h
  rintro handle ⟨ptr, hptr, rfl⟩
  obtain rfl : data = some ptr := hptr
  exact World.look_of_fresh h.1

theorem yields_encode (hlib : lib.Documented) (hconf : lib.Confined) (encoder : Encoder)
    (image : Image) :
    Yields (encoder.encode lib image) m fun result m' => m.Spares {encoder.raw} m' ∧
      Delivered (fun e => CodeError e ∨ e = .emptyOutput) (fun _ => True) result := by
  refine yields_collect hconf ?_
  refine Yields.bind ((yields_requireLive encoder.raw .encoder).mono ?_)
  rintro - _ rfl
  refine Yields.bind ((yields_requireLive image.raw .image).mono ?_)
  rintro - m rfl
  exact yields_call_fills (hlib.encoderWrite _ _) fun w => hconf.encoderWrite _ _ _ w rfl

theorem yields_finish (hlib : lib.Documented) (hconf : lib.Confined) (encoder : Encoder) :
    Yields (encoder.finish lib) m fun result m' => m.Spares {encoder.raw} m' ∧
      Delivered (fun e => CodeError e ∨ e = .emptyOutput) (fun _ => True) result := by
  refine yields_collect hconf ?_
  refine Yields.bind ((yields_requireLive encoder.raw .encoder).mono ?_)
  rintro - m rfl
  exact yields_call_fills (hlib.encoderFinish _) fun w => hconf.encoderFinish _ _ w rfl

/-! ## Drops -/

/-- Dropping a value touches what it owns. -/
theorem yields_value_drop (hconf : lib.Confined) (value : Value) :
    Yields (value.drop lib) m fun _ m' =>
      m.Spares {handle | ∃ object, value.holds = some (handle, object)} m' := by
  have hblock : ∀ {ptr : U8Ptr} {f : BytePtr → Object},
      (ptr.map fun p => (p.block, f p)) = value.holds →
      blockOf ptr ⊆ {handle | ∃ object, value.holds = some (handle, object)} := by
    rintro ptr f hholds handle ⟨p, rfl, rfl⟩
    exact ⟨f p, hholds.symm⟩
  cases value with
  | image img =>
      refine (yields_destroy (hconf.imageDestroy img.raw)).mono fun _ _ h => h.mono ?_
      rintro _ rfl
      exact ⟨_, rfl⟩
  | decoder dec =>
      refine (yields_destroy (hconf.decoderDestroy dec.raw)).mono fun _ _ h => h.mono ?_
      rintro _ rfl
      exact ⟨_, rfl⟩
  | encoder enc =>
      refine (yields_encoder_drop hconf enc).mono fun _ _ h => h.mono ?_
      rintro _ rfl
      exact ⟨_, rfl⟩
  | rgbImage rgb =>
      exact (yields_freeBuffer (hconf.rgbImageFreePixels rgb.raw)).mono fun _ _ h =>
        h.mono (hblock rfl)
  | data out =>
      exact (yields_data_drop hconf out).mono fun _ _ h => h.mono (hblock rfl)
  | borrowed rgb lender => exact Yields.pure (.refl _ m)
  | bytes slice =>
      have hown : blockOf (some slice.ptr) ⊆
          {handle | ∃ object, (Value.bytes slice).holds = some (handle, object)} := by
        rintro _ ⟨_, ⟨⟩, rfl⟩
        exact ⟨_, rfl⟩
      refine (yields_freeBuffer fun w => ?_).mono fun _ _ h => h.mono hown
      intro handle content hlook hout
      have hne : handle ≠ slice.ptr.block := fun heq => hout ⟨slice.ptr, rfl, heq.symm⟩
      simp only [World.look, Function.update_of_ne hne] at hlook ⊢
      exact hlook

/-! ## The small libavif -/

namespace SmallWorld

theorem spares_allocate (object : Handle → Object) (w : SmallWorld) :
    w.Spares ∅ (allocate object w).2 := by
  unfold allocate
  split
  · next hfresh =>
    intro handle content hlook _
    have hne : handle ≠ w.hidden := by
      rintro rfl
      rw [World.look_of_fresh hfresh] at hlook
      cases hlook
    simp only [World.look, Function.update_of_ne hne] at hlook ⊢
    exact hlook
  · exact Frame.Spares.refl _ _ _

/-- A new image has the header it was made with, and nothing else changes. -/
theorem spares_create (image : AvifImage) (w : SmallWorld) :
    w.Spares ∅ (create image w).2 ∧
      ∀ handle, (create image w).1 = some handle → (create image w).2.images handle = image := by
  have hspares := spares_allocate (fun _ => .image) w
  have hcreates := creates_allocate .image w
  unfold create
  rcases hallocate : allocate (fun _ => Object.image) w with ⟨_ | made, w'⟩
  · rw [hallocate] at hspares
    exact ⟨hspares, nofun⟩
  · rw [hallocate] at hspares hcreates
    refine ⟨fun handle content hlook hout => ?_, ?_⟩
    · have hne : handle ≠ made := by
        rintro rfl
        rw [World.look_of_fresh hcreates.1] at hlook
        cases hlook
      have hafter := hspares handle content hlook hout
      simp only [World.look, Function.update_of_ne hne] at hafter ⊢
      exact hafter
    · rintro _ ⟨⟩
      exact Function.update_self ..

theorem spares_free (handle : Handle) (w : SmallWorld) : w.Spares {handle} (free handle w) := by
  intro other content hlook hout
  simp only [World.look, free, Function.update_of_ne (Set.mem_singleton_iff.not.mp hout)] at hlook ⊢
  exact hlook

theorem spares_freeBuffer (ptr : U8Ptr) (w : SmallWorld) :
    w.Spares (blockOf ptr) (freeBuffer ptr w) := by
  cases ptr with
  | none => exact Frame.Spares.refl _ _ _
  | some ptr =>
      refine Frame.Spares.mono (spares_free ptr.block w) ?_
      rintro _ rfl
      exact ⟨ptr, rfl, rfl⟩

theorem spares_write (output : AvifRWData) (w : SmallWorld) : w.Spares ∅ (write output w).2.2 := by
  have hspares := spares_allocate (fun handle => .buffer .rwData (address handle) 4) w
  unfold write
  split
  · next hallocate =>
    rw [hallocate] at hspares
    exact hspares
  · next hallocate =>
    rw [hallocate] at hspares
    exact hspares

theorem spares_allocatePixels (rgb : AvifRGBImage) (w : SmallWorld) :
    w.Spares ∅ (allocatePixels rgb w).2.2 := by
  unfold allocatePixels
  simp only
  split
  · have hspares := spares_allocate (fun handle => .buffer .rgbPixels (address handle)
      (rgb.width.toNat * avifRGBImagePixelSize rgb * rgb.height.toNat)) w
    split
    · next hallocate =>
      rw [hallocate] at hspares
      exact hspares
    · next hallocate =>
      rw [hallocate] at hspares
      exact hspares
  · exact Frame.Spares.refl _ _ _

end SmallWorld

theorem confined_small : Libavif.small.Confined where
  imageCreateEmpty w := (SmallWorld.spares_create _ w).1
  imageCreate width height depth _ w := SmallWorld.spares_create ⟨width, height, depth⟩ w
  imageDestroy := SmallWorld.spares_free
  rgbImageSetDefaults _ _ _ := Frame.Spares.refl _ _ _
  rgbImageAllocatePixels rgb w _ := SmallWorld.spares_allocatePixels rgb w
  rgbImageFreePixels rgb := SmallWorld.spares_freeBuffer rgb.pixels
  imageYUVToRGB _ _ _ := Frame.Spares.refl _ _ _
  imageRGBToYUV _ _ _ := ⟨Frame.Spares.refl _ _ _, rfl⟩
  rwDataFree data := SmallWorld.spares_freeBuffer data.data
  decoderCreate := SmallWorld.spares_allocate _
  decoderReadMemory _ _ _ _ := Frame.Spares.refl _ _ _
  decoderDestroy := SmallWorld.spares_free
  encoderCreate := SmallWorld.spares_allocate _
  encoderWrite _ _ output w _ := (SmallWorld.spares_write output w).mono (Set.empty_subset _)
  encoderAddImage _ _ _ _ _ := Frame.Spares.refl _ _ _
  encoderFinish _ output w _ := (SmallWorld.spares_write output w).mono (Set.empty_subset _)
  encoderDestroy := SmallWorld.spares_free

end Favi

import Favi.Session

/-!
# What each function does to the ledger

One lemma for each function of the crate: called on live objects it does not fault,
and the allocations and frees it makes are the ones listed, on the success and on the
failure path.  Nothing later unfolds a function of the crate again.

`RgbImage.fromImage` is the function with a leak.  When libavif allocates the pixel
buffer and then fails to convert (`ConversionFails`), the allocation is the last event
of the call and nobody is told about it.

Two bodies are shared, and have one lemma each with the part that differs as a hypothesis:
`ensures_createThen` for `to_image` and `decode`, which create an image and have libavif
fill it, and `ensures_collect` for `encode` and `finish`, which hand libavif a placeholder.
In both, what a failure frees again is what the success would have returned.
-/

namespace Favi

open Custody Program

variable {σ : Type} {lib : Libavif σ}

/-! ## Functions that make an owner -/

/-- How a function ends that makes an owner.  With a value, the value owns a fresh
allocation.  With an error, nothing was allocated, or what was allocated has been freed
again; or the function `leaks`, and the allocation is still there.  After that come the
events `tail`, in any case. -/
def Made {α : Type} (holds : α → Option (Handle × Object)) (leaks : Prop)
    (tail : List (Event Handle Object)) (m : Machine σ) (result : Result α) (m' : Machine σ) :
    Prop :=
  match result with
  | .ok a => ¬ leaks ∧ ∃ handle object, holds a = some (handle, object) ∧
      m.Steps (.alloc handle object :: tail) m'
  | .error _ =>
      (¬ leaks ∧ (m.Steps tail m' ∨
        ∃ handle object, m.Steps (.alloc handle object :: .free handle object :: tail) m')) ∨
      (leaks ∧ ∃ handle object, m.Steps (.alloc handle object :: tail) m')

/-! ## Creating and destroying -/

/-- A creating function: a null pointer becomes an error, and nothing is allocated. -/
theorem ensures_create {α : Type} {object : Object} {create : World σ → Option Handle × World σ}
    (mk : Handle → α) (holds : α → Option (Handle × Object)) (hcreates : Creates object create)
    (hmk : ∀ handle, holds (mk handle) = some (handle, object)) (m : Machine σ) :
    Ensures (do
        let made ← call create
        return okOr (made.map mk) .allocationFailed : Ffi σ (Result α)) m
      (Made holds False [] m) := by
  refine Ensures.bind ((ensures_call_creates hcreates m).mono ?_)
  intro made m' hmade
  apply Ensures.pure
  cases made with
  | none => exact Or.inl ⟨id, Or.inl hmade⟩
  | some handle => exact ⟨id, handle, object, hmk handle, hmade⟩

theorem ensures_image_empty (hlib : lib.Documented) (m : Machine σ) :
    Ensures (Image.empty lib) m (Made (fun image => (Value.image image).holds) False [] m) :=
  ensures_create Image.mk (fun image => (Value.image image).holds)
    hlib.imageCreateEmpty (fun _ => rfl) m

theorem ensures_image_new (hlib : lib.Documented) (width height : UInt32) (depth : BitDepth)
    (format : PixelFormat) (m : Machine σ) :
    Ensures (Image.new lib width height depth format) m
      (Made (fun image => (Value.image image).holds) False [] m) :=
  ensures_create Image.mk (fun image => (Value.image image).holds)
    (hlib.imageCreate width height depth.bits format.raw) (fun _ => rfl) m

theorem ensures_decoder_new (hlib : lib.Documented) (m : Machine σ) :
    Ensures (Decoder.new lib) m
      (Made (fun decoder => (Value.decoder decoder).holds) False [] m) :=
  ensures_create Decoder.mk (fun decoder => (Value.decoder decoder).holds)
    hlib.decoderCreate (fun _ => rfl) m

theorem ensures_encoder_new (hlib : lib.Documented) (m : Machine σ) :
    Ensures (Encoder.new lib) m
      (Made (fun encoder => (Value.encoder encoder).holds) False [] m) :=
  ensures_create Encoder.mk (fun encoder => (Value.encoder encoder).holds)
    hlib.encoderCreate (fun _ => rfl) m

theorem ensures_data_drop_null (hlib : lib.Documented) {m : Machine σ} {size : ℕ} :
    Ensures (Data.drop lib ⟨⟨none, size⟩⟩) m fun _ m' => m.Steps [] m' :=
  ensures_freeBuffer_null .rwData ((hlib.rwDataFree ⟨none, size⟩ m.world).1 rfl)

theorem ensures_data_drop (hlib : lib.Documented) {m : Machine σ} {ptr : BytePtr} {size : ℕ}
    (hlive : m.world.ledger ptr.block = .live (.buffer .rwData ptr.addr size)) :
    Ensures (Data.drop lib ⟨⟨some ptr, size⟩⟩) m fun _ m' =>
      m.Steps [.free ptr.block (.buffer .rwData ptr.addr size)] m' :=
  ensures_freeBuffer hlive ((hlib.rwDataFree ⟨some ptr, size⟩ m.world).2 ptr rfl hlive)

/-- Dropping a value frees what it owns. -/
theorem ensures_value_drop (hlib : lib.Documented) {m : Machine σ} {value : Value}
    {handle : Handle} {object : Object} (hholds : value.holds = some (handle, object))
    (hlive : m.world.ledger handle = .live object) :
    Ensures (value.drop lib) m fun _ m' => m.Steps [.free handle object] m' := by
  cases value with
  | image img => cases hholds; exact ensures_destroy hlib.imageDestroy hlive
  | decoder dec => cases hholds; exact ensures_destroy hlib.decoderDestroy hlive
  | encoder enc => cases hholds; exact ensures_destroy hlib.encoderDestroy hlive
  | borrowed rgb lender => cases hholds
  | bytes slice => cases hholds; exact ensures_freeBuffer hlive rfl
  | data out =>
      obtain ⟨⟨data, size⟩⟩ := out
      cases data with
      | none => cases hholds
      | some ptr => cases hholds; exact ensures_data_drop hlib hlive
  | rgbImage rgb =>
      obtain ⟨raw⟩ := rgb
      cases hpixels : raw.pixels with
      | none => simp [Value.holds, hpixels] at hholds
      | some ptr =>
          simp only [Value.holds, hpixels, Option.map_some, Option.some.injEq,
            Prod.mk.injEq] at hholds
          obtain ⟨rfl, rfl⟩ := hholds
          change Ensures (freeBuffer _ _ raw.pixels) m _
          rw [hpixels]
          exact ensures_freeBuffer hlive
            ((hlib.rgbImageFreePixels raw m.world).2 ptr _ hpixels hlive)

/-! ## Reading and writing fields -/

theorem ensures_image_read {α : Type} {m : Machine σ} {image : Image}
    (hlive : m.world.ledger image.raw = .live .image) (field : AvifImage → α) :
    Ensures (image.read field) m fun a m' =>
      a = field (m.world.images image.raw) ∧ m.Steps [] m' := by
  refine Ensures.bind ((ensures_requireLive hlive).mono ?_)
  rintro - m' rfl
  exact ⟨_, m', rfl, rfl, .refl m'⟩

theorem ensures_image_depth {m : Machine σ} {image : Image}
    (hlive : m.world.ledger image.raw = .live .image) :
    Ensures image.depth m fun _ m' => m.Steps [] m' :=
  Ensures.map ((ensures_image_read hlive AvifImage.depth).mono fun _ _ h => h.2)

theorem ensures_encoder_read {α : Type} {m : Machine σ} {encoder : Encoder}
    (hlive : m.world.ledger encoder.raw = .live .encoder) (field : AvifEncoder → α) :
    Ensures (encoder.read field) m fun a m' =>
      a = field (m.world.encoders encoder.raw) ∧ m.Steps [] m' := by
  refine Ensures.bind ((ensures_requireLive hlive).mono ?_)
  rintro - m' rfl
  exact ⟨_, m', rfl, rfl, .refl m'⟩

theorem ensures_encoder_write {m : Machine σ} {encoder : Encoder}
    (hlive : m.world.ledger encoder.raw = .live .encoder) (update : AvifEncoder → AvifEncoder) :
    Ensures (encoder.write update) m fun _ m' =>
      m'.world.encoders encoder.raw = update (m.world.encoders encoder.raw) ∧ m.Steps [] m' := by
  refine Ensures.bind ((ensures_requireLive hlive).mono ?_)
  rintro - m' rfl
  exact ⟨(), _, rfl, Function.update_self .., .of_ledger_eq rfl rfl⟩

/-! ## Slices -/

/-- A filled buffer can be read. -/
theorem ensures_data_asSlice {m : Machine σ} {ptr : BytePtr} {size : ℕ}
    (hlive : m.world.ledger ptr.block = .live (.buffer .rwData ptr.addr size)) :
    Ensures (Data.asSlice ⟨⟨some ptr, size⟩⟩) m fun slice m' => slice = ⟨ptr, size⟩ ∧ m' = m :=
  ensures_sliceFromRawParts (readable_of_within hlive (.refl _))

theorem toNat_pixelsLen_le {target : Target} {rgb : RgbImage} {len : UInt32}
    (h : rgb.pixelsLen target = some len) : len.toNat ≤ rgb.raw.bufferBytes := by
  unfold RgbImage.pixelsLen at h
  split at h
  · exact (Sizes.checkedMul_eq_some h).1.le
  · cases h
    rw [UInt32.toNat_mul]
    exact Nat.mod_le _ _

/-- `pixels` gives out the bytes it gives out from the start of the buffer. -/
theorem ensures_rgbImage_pixels (target : Target) {m : Machine σ} {rgb : RgbImage} {ptr : BytePtr}
    (hptr : rgb.raw.pixels = some ptr)
    (hreadable : readable m.world.ledger ⟨ptr, rgb.raw.bufferBytes⟩ = true) :
    Ensures (rgb.pixels target) m fun result m' =>
      m' = m ∧ result = (rgb.pixelsLen target).map fun len => ⟨ptr, len.toNat⟩ := by
  unfold RgbImage.pixels
  cases hlen : rgb.pixelsLen target with
  | none => exact Ensures.pure ⟨rfl, rfl⟩
  | some len =>
      have hshort : readable m.world.ledger ⟨ptr, len.toNat⟩ = true :=
        readable_mono (Slice.within_of_len_le (toNat_pixelsLen_le hlen)) hreadable
      simp only [hptr, Target.asUsize_eq]
      refine Ensures.map ((ensures_sliceFromRawParts hshort).mono ?_)
      rintro slice m' ⟨rfl, rfl⟩
      exact ⟨rfl, rfl⟩

/-! ## Conversions -/

theorem ensures_requirePixels {m : Machine σ} {rgb : AvifRGBImage} {ptr : BytePtr}
    (hptr : rgb.pixels = some ptr)
    (hreadable : readable m.world.ledger ⟨ptr, rgb.bufferBytes⟩ = true) :
    Ensures (Sys.requirePixels rgb) m fun _ m' => m' = m := by
  unfold Sys.requirePixels
  rw [hptr]
  exact ensures_requireReadable hreadable

/-- Creating an image and filling it: a failure to fill frees the image again. -/
theorem ensures_createThen (hlib : lib.Documented) {m : Machine σ}
    {create : Ffi σ (Result Image)} {fill : Image → Ffi σ AvifResult}
    (hcreate : Ensures create m (Made (fun image => (Value.image image).holds) False [] m))
    (hfill : ∀ image m', m.Steps [.alloc image.raw .image] m' →
      Ensures (fill image) m' fun _ m'' => m'.Steps [] m'') :
    Ensures (Image.createThen lib create fill) m
      (Made (fun image => (Value.image image).holds) False [] m) := by
  refine Ensures.bind (hcreate.mono ?_)
  rintro (error | image) m' h
  · exact Ensures.pure h
  obtain ⟨-, _, _, ⟨⟩, h⟩ := h
  refine Ensures.bind ((hfill image m' h).mono ?_)
  intro result m'' hkeep
  have hsteps := h.append hkeep
  by_cases hok : result = .ok
  · subst hok
    exact Ensures.pure ⟨id, _, _, rfl, hsteps⟩
  · simp only [AvifResult.check_of_ne hok]
    refine Ensures.bind ((ensures_destroy hlib.imageDestroy hsteps.live_of_alloc).mono ?_)
    intro _ m₃ hfree
    exact Ensures.pure (Or.inl ⟨id, Or.inr ⟨image.raw, .image, hsteps.append hfree⟩⟩)

theorem ensures_toImage (hlib : lib.Documented) {m : Machine σ} {rgb : RgbImage} {ptr : BytePtr}
    (hptr : rgb.raw.pixels = some ptr)
    (hreadable : readable m.world.ledger ⟨ptr, rgb.raw.bufferBytes⟩ = true)
    (depth : BitDepth) (format : PixelFormat) :
    Ensures (rgb.toImage lib depth format) m
      (Made (fun image => (Value.image image).holds) False [] m) := by
  refine ensures_createThen hlib (ensures_image_new hlib _ _ depth format m) ?_
  intro image m' h
  refine Ensures.bind ((ensures_requireLive h.live_of_alloc).mono ?_)
  rintro - m₁ rfl
  refine Ensures.bind ((ensures_requirePixels hptr (h.readable hreadable)).mono ?_)
  rintro - m₂ rfl
  exact (ensures_call_of_keeps _ (hlib.imageRGBToYUV image.raw rgb.raw m₂.world)).mono
    fun _ _ h => h.2

theorem ensures_decode (hlib : lib.Documented) {m : Machine σ} {decoder : Decoder} {data : Slice}
    (hlive : m.world.ledger decoder.raw = .live .decoder)
    (hreadable : readable m.world.ledger data = true) :
    Ensures (decoder.decode lib data) m
      (Made (fun image => (Value.image image).holds) False [] m) := by
  refine ensures_createThen hlib (ensures_image_empty hlib m) ?_
  intro image m' h
  refine Ensures.bind ((ensures_requireLive (h.live_of_alloc_of_live hlive)).mono ?_)
  rintro - m₁ rfl
  refine Ensures.bind ((ensures_requireLive h.live_of_alloc).mono ?_)
  rintro - m₂ rfl
  refine Ensures.bind ((ensures_requireReadable (h.readable hreadable)).mono ?_)
  rintro - m₃ rfl
  exact (ensures_call_of_keeps _
    (hlib.decoderReadMemory decoder.raw image.raw data m₃.world)).mono fun _ _ h => h.2

/-! ## `RgbImage::from_image` -/

/-- What `avifRGBImageAllocatePixels` and then `avifImageYUVToRGB` answer to a conversion
in the world `w`. -/
def conversionResults (lib : Libavif σ) (image : Image) (depth : BitDepth) (format : RgbFormat)
    (w : World σ) : AvifResult × AvifResult :=
  let (raw, w) := lib.avifRGBImageSetDefaults .zeroed image.raw w
  let (allocated, raw, w) :=
    lib.avifRGBImageAllocatePixels (RgbImage.request raw depth format) w
  let (converted, _, _) := lib.avifImageYUVToRGB image.raw raw w
  (allocated, converted)

/-- The allocation and the conversion both succeed. -/
def Converts (lib : Libavif σ) (image : Image) (depth : BitDepth) (format : RgbFormat)
    (w : World σ) : Prop :=
  let (allocated, converted) := conversionResults lib image depth format w
  allocated = .ok ∧ converted = .ok

/-- The allocation succeeds and the conversion then fails. -/
def ConversionFails (lib : Libavif σ) (image : Image) (depth : BitDepth) (format : RgbFormat)
    (w : World σ) : Prop :=
  let (allocated, converted) := conversionResults lib image depth format w
  allocated = .ok ∧ converted ≠ .ok

/-- What `from_image` returns: the dimensions of the image, the depth and format asked
for, and a buffer of exactly the rows they need. -/
structure Converted (image : AvifImage) (depth : BitDepth) (format : RgbFormat)
    (raw : AvifRGBImage) : Prop where
  width : raw.width = image.width
  height : raw.height = image.height
  depth : raw.depth = depth.bits
  format : raw.format = format.raw
  rowBytes : raw.rowBytes.toNat = raw.width.toNat * avifRGBImagePixelSize raw
  aligned : ∀ ptr ∈ raw.pixels, ptr.addr % 2 = 0
  rgb565 : raw.format = .rgb565 → raw.depth = 8

/-- The header of a conversion is the request with the buffer put in. -/
theorem converted_of_request {image : AvifImage} {depth : BitDepth} {format : RgbFormat}
    {raw raw' : AvifRGBImage} {ptr : BytePtr} {rowBytes : UInt32}
    (hwidth : raw.width = image.width) (hheight : raw.height = image.height)
    (hraw : raw' = { RgbImage.request raw depth format with
      pixels := some ptr, rowBytes := rowBytes })
    (hrow : rowBytes.toNat = (RgbImage.request raw depth format).width.toNat *
      avifRGBImagePixelSize (RgbImage.request raw depth format))
    (heven : ptr.addr % 2 = 0) (hrgb565 : raw'.format = .rgb565 → raw'.depth = 8) :
    Converted image depth format raw' := by
  subst hraw
  exact ⟨hwidth, hheight, rfl, rfl, hrow, fun _ hptr => Option.some.inj hptr ▸ heven, hrgb565⟩

/-- `RgbImage::from_image`, on its three ways out: the allocation fails and nothing is left; it
succeeds and the conversion fails, and the buffer stays behind; both succeed, and the buffer
belongs to the new image. The last two parts say what the image is, and when there is one. -/
theorem ensures_fromImage (hlib : lib.Documented) {m : Machine σ} {image : Image}
    (hlive : m.world.ledger image.raw = .live .image) (depth : BitDepth) (format : RgbFormat) :
    Ensures (RgbImage.fromImage lib image depth format) m fun result m' =>
      Made (fun rgb => (Value.rgbImage rgb).holds) (ConversionFails lib image depth format m.world)
        [] m result m' ∧
      (∀ rgb, result = .ok rgb → Converted (m.world.images image.raw) depth format rgb.raw) ∧
      ((∃ rgb, result = .ok rgb) ↔ Converts lib image depth format m.world) := by
  -- the results of the three calls, by name
  have hdefaults := hlib.rgbImageSetDefaults .zeroed image.raw m.world
  rcases hset : lib.avifRGBImageSetDefaults .zeroed image.raw m.world with ⟨raw, w₁⟩
  rw [hset] at hdefaults
  obtain ⟨hledger₁, hwidth, hheight, hnull⟩ := hdefaults
  have hallocate := hlib.rgbImageAllocatePixels (RgbImage.request raw depth format) w₁ hnull
  rcases halloc : lib.avifRGBImageAllocatePixels (RgbImage.request raw depth format) w₁ with
    ⟨allocated, raw₂, w₂⟩
  rw [halloc] at hallocate
  obtain ⟨hfailed, hallocated⟩ := hallocate
  have hconvert := hlib.imageYUVToRGB image.raw raw₂ w₂
  rcases hyuv : lib.avifImageYUVToRGB image.raw raw₂ w₂ with ⟨converted, raw₃, w₃⟩
  rw [hyuv] at hconvert
  obtain ⟨hledger₃, rfl, hrgb565⟩ := hconvert
  have hresults : conversionResults lib image depth format m.world = (allocated, converted) := by
    simp only [conversionResults, hset, halloc, hyuv]
  have hfails : ConversionFails lib image depth format m.world ↔
      allocated = .ok ∧ converted ≠ .ok := by
    rw [ConversionFails, hresults]
  have hconverts : Converts lib image depth format m.world ↔
      allocated = .ok ∧ converted = .ok := by
    rw [Converts, hresults]
  unfold RgbImage.fromImage Sys.avifRGBImageSetDefaults Sys.avifRGBImageAllocatePixels
  refine Ensures.bind (Ensures.bind ((ensures_requireLive hlive).mono ?_))
  rintro - m rfl
  apply ensures_call
  simp only [hset]
  refine Ensures.bind (ensures_call ?_)
  simp only [halloc]
  by_cases hok : allocated = .ok
  · -- the buffer is allocated from here on, and only `raw₃` points to it
    obtain ⟨-, ptr, rowBytes, hraw, hrow, heven, hfresh, hledger₂⟩ := hallocated hok
    have hpixels : raw₃.pixels = some ptr := by rw [hraw]
    have hsteps : m.Steps [.alloc ptr.block (.buffer .rgbPixels ptr.addr raw₃.bufferBytes)]
        { m with world := w₂ } :=
      .of_alloc (by rw [← hledger₁, hfresh]) (by rw [← hledger₁, hledger₂]) rfl
    simp only [hok, AvifResult.check_ok]
    unfold Sys.avifImageYUVToRGB
    refine Ensures.bind (Ensures.bind
      ((ensures_requireLive (hsteps.live_of_alloc_of_live hlive)).mono ?_))
    rintro - _ rfl
    refine Ensures.bind ((ensures_requirePixels hpixels
      (readable_of_within hsteps.live_of_alloc (.refl _))).mono ?_)
    rintro - _ rfl
    apply ensures_call
    simp only [hyuv]
    have hsteps' : m.Steps [.alloc ptr.block (.buffer .rgbPixels ptr.addr raw₃.bufferBytes)]
        { m with world := w₃ } := hsteps.append (.of_ledger_eq hledger₃ rfl)
    by_cases hconverted : converted = .ok
    · simp only [hconverted, AvifResult.check_ok]
      have hdepth : raw₃.format = .rgb565 → raw₃.depth = 8 := fun hformat => by
        by_contra hne
        exact hrgb565 hformat hne hconverted
      refine Ensures.pure ⟨⟨fun h => (hfails.mp h).2 hconverted, _, _, ?_, hsteps'⟩, ?_, ?_⟩
      · simp only [Value.holds, hpixels, Option.map_some]
      · rintro _ ⟨⟩
        exact converted_of_request hwidth hheight hraw hrow heven hdepth
      · exact iff_of_true ⟨_, rfl⟩ (hconverts.mpr ⟨hok, hconverted⟩)
    · -- `raw₃` goes out of scope with the error: the buffer is left behind
      simp only [AvifResult.check_of_ne hconverted]
      exact Ensures.pure ⟨Or.inr ⟨hfails.mpr ⟨hok, hconverted⟩, _, _, hsteps'⟩, by rintro _ ⟨⟩,
        iff_of_false (by rintro ⟨_, ⟨⟩⟩) fun h => hconverted (hconverts.mp h).2⟩
  · -- nothing was allocated
    simp only [AvifResult.check_of_ne hok]
    have hsteps : m.Steps [] { m with world := w₂ } :=
      .of_ledger_eq ((hfailed hok).trans hledger₁) rfl
    exact Ensures.pure ⟨Or.inl ⟨fun h => hok (hfails.mp h).1, Or.inl hsteps⟩, by rintro _ ⟨⟩,
      iff_of_false (by rintro ⟨_, ⟨⟩⟩) fun h => hok (hconverts.mp h).1⟩

/-! ## The encoder -/

theorem ensures_addImage (hlib : lib.Documented) {m : Machine σ} {encoder : Encoder}
    {image : Image} (hencoder : m.world.ledger encoder.raw = .live .encoder)
    (himage : m.world.ledger image.raw = .live .image) (duration : UInt64)
    (flags : AddImageFlags) :
    Ensures (encoder.addImage lib image duration flags) m fun _ m' => m.Steps [] m' := by
  refine Ensures.bind (Ensures.bind ((ensures_requireLive hencoder).mono ?_))
  rintro - _ rfl
  refine Ensures.bind ((ensures_requireLive himage).mono ?_)
  rintro - m rfl
  refine (ensures_call_of_keeps _
    (hlib.encoderAddImage encoder.raw image.raw duration flags.bits m.world)).mono ?_
  rintro result m' ⟨-, hsteps⟩
  exact Ensures.pure hsteps

/-- An encoding call on the placeholder: it stays empty, or a fresh buffer is in it, whatever
the result code. -/
theorem ensures_call_fills {write : AvifRWData → World σ → AvifResult × AvifRWData × World σ}
    (hfills : FillsOutput write) (m : Machine σ) :
    Ensures (call fun w =>
        match write Data.new.raw w with
        | (result, output', w') => ((result, output'), w')) m fun out m' =>
      (out.2.data = none ∧ m.Steps [] m') ∨
      ∃ ptr, out.2.data = some ptr ∧
        m.Steps [.alloc ptr.block (.buffer .rwData ptr.addr out.2.size)] m' := by
  apply ensures_call
  have h := hfills Data.new.raw m.world rfl
  rcases hwrite : write Data.new.raw m.world with ⟨result, ⟨_ | ptr, size⟩, w⟩
  · rw [hwrite] at h
    exact Or.inl ⟨rfl, .of_ledger_eq h rfl⟩
  · rw [hwrite] at h
    exact Or.inr ⟨ptr, rfl, .of_alloc h.1 h.2 rfl⟩

/-- The ways out of `encode` and `finish` that return an error: the output is dropped,
then the encoder. -/
theorem ensures_giveUp (hlib : lib.Documented) {m : Machine σ} {encoder : Encoder} {output : Data}
    {error : Error} {events : List (Event Handle Object)}
    (hencoder : m.world.ledger encoder.raw = .live .encoder)
    (houtput : (output.raw.data = none ∧ events = []) ∨
      ∃ ptr, output.raw.data = some ptr ∧
        m.world.ledger ptr.block = .live (.buffer .rwData ptr.addr output.raw.size) ∧
        events = [.free ptr.block (.buffer .rwData ptr.addr output.raw.size)]) :
    Ensures (do
        output.drop lib
        encoder.drop lib
        return .error error : Ffi σ (Result Data)) m fun result m' =>
      result = .error error ∧ m.Steps (events ++ [.free encoder.raw .encoder]) m' := by
  -- dropping the output makes exactly `events`
  have hdrop : Ensures (output.drop lib) m fun _ m' => m.Steps events m' := by
    obtain ⟨⟨data, size⟩⟩ := output
    rcases houtput with ⟨rfl, rfl⟩ | ⟨ptr, rfl, hlive, rfl⟩
    · exact ensures_data_drop_null hlib
    · exact ensures_data_drop hlib hlive
  refine Ensures.bind (hdrop.mono ?_)
  intro _ m' hsteps
  -- the output is no encoder, so freeing it leaves the encoder allocated
  have hlive : m'.world.ledger encoder.raw = .live .encoder := by
    rcases houtput with ⟨-, rfl⟩ | ⟨ptr, -, -, rfl⟩
    · rw [hsteps.ledger_eq, hencoder]
    · exact hsteps.live_of_free_of_live hencoder (by simp)
  refine Ensures.bind ((ensures_destroy hlib.encoderDestroy hlive).mono ?_)
  intro _ m'' hfree
  exact Ensures.pure ⟨rfl, hsteps.append hfree⟩

/-- `encode` and `finish` free the encoder on every way out, and the output on every way
out that does not return it. -/
theorem ensures_collect (hlib : lib.Documented) {m : Machine σ} {encoder : Encoder}
    {fill : AvifRWData → Ffi σ (AvifResult × AvifRWData)}
    (hencoder : m.world.ledger encoder.raw = .live .encoder)
    (hfill : Ensures (fill Data.new.raw) m fun out m' =>
      (out.2.data = none ∧ m.Steps [] m') ∨
      ∃ ptr, out.2.data = some ptr ∧
        m.Steps [.alloc ptr.block (.buffer .rwData ptr.addr out.2.size)] m') :
    Ensures (encoder.collect lib fill) m
      (Made (fun data => (Value.data data).holds) False [.free encoder.raw .encoder] m) := by
  refine Ensures.bind (hfill.mono ?_)
  rintro ⟨result, ⟨data, size⟩⟩ m₁ hout
  simp only at hout
  rcases hout with ⟨rfl, hsteps⟩ | ⟨ptr, rfl, hsteps⟩
  · -- nothing was written: an error, whatever the result code says
    have hlive : m₁.world.ledger encoder.raw = .live .encoder := by
      rw [hsteps.ledger_eq, hencoder]
    have herror : ∀ error, Ensures (do
        Data.drop lib ⟨⟨none, size⟩⟩
        encoder.drop lib
        return .error error : Ffi σ (Result Data)) m₁
          (Made (fun data => (Value.data data).holds) False [.free encoder.raw .encoder] m) := by
      intro error
      refine (ensures_giveUp hlib hlive (Or.inl ⟨rfl, rfl⟩)).mono ?_
      rintro _ m' ⟨rfl, hfree⟩
      exact Or.inl ⟨id, Or.inl (hsteps.append hfree)⟩
    by_cases hok : result = .ok
    · subst hok
      exact herror .emptyOutput
    · simp only [AvifResult.check_of_ne hok]
      exact herror (.code result)
  · -- a buffer was written: it is returned, or dropped before the error is
    have hlive := hsteps.live_of_alloc_of_live hencoder
    by_cases hok : result = .ok
    · subst hok
      simp only [AvifResult.check_ok, Option.isNone_some]
      refine Ensures.bind ((ensures_destroy hlib.encoderDestroy hlive).mono ?_)
      intro _ m' hfree
      exact Ensures.pure ⟨id, _, _, rfl, hsteps.append hfree⟩
    · simp only [AvifResult.check_of_ne hok]
      refine (ensures_giveUp hlib hlive (Or.inr ⟨ptr, rfl, hsteps.live_of_alloc, rfl⟩)).mono ?_
      rintro _ m' ⟨rfl, hfree⟩
      exact Or.inl ⟨id, Or.inr ⟨_, _, hsteps.append hfree⟩⟩

theorem ensures_encode (hlib : lib.Documented) {m : Machine σ} {encoder : Encoder} {image : Image}
    (hencoder : m.world.ledger encoder.raw = .live .encoder)
    (himage : m.world.ledger image.raw = .live .image) :
    Ensures (encoder.encode lib image) m
      (Made (fun data => (Value.data data).holds) False [.free encoder.raw .encoder] m) := by
  refine ensures_collect hlib hencoder ?_
  refine Ensures.bind ((ensures_requireLive hencoder).mono ?_)
  rintro - _ rfl
  refine Ensures.bind ((ensures_requireLive himage).mono ?_)
  rintro - m rfl
  exact ensures_call_fills (hlib.encoderWrite encoder.raw image.raw) m

theorem ensures_finish (hlib : lib.Documented) {m : Machine σ} {encoder : Encoder}
    (hencoder : m.world.ledger encoder.raw = .live .encoder) :
    Ensures (encoder.finish lib) m
      (Made (fun data => (Value.data data).holds) False [.free encoder.raw .encoder] m) := by
  refine ensures_collect hlib hencoder ?_
  refine Ensures.bind ((ensures_requireLive hencoder).mono ?_)
  rintro - m rfl
  exact ensures_call_fills (hlib.encoderFinish encoder.raw) m

end Favi

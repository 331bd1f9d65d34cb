import Favi.Libavif

/-!
# A small libavif

`Libavif.small` is one libavif that can be run: it allocates handles in order, converts
between RGB and YUV without looking at samples, and encodes every image to four bytes.
`documented_small` shows that it meets everything asked of a libavif, so the
assumptions of this development are consistent; and its answers are the ones the real
library gives where a run below depends on them (an `RGB_565` conversion is refused at
any depth but 8, and a buffer is refused if one row of it does not fit in 32 bits).
-/

namespace Favi

open Custody

/-! ## Building blocks -/

/-- The world of the small libavif; its own state is the next handle to allocate. -/
abbrev SmallWorld := World ℕ

namespace SmallWorld

/-- Allocate the next handle, if nothing was allocated under it yet; otherwise the memory is
said to be full. -/
def allocate (object : Handle → Object) (w : SmallWorld) : Option Handle × SmallWorld :=
  if w.ledger w.hidden = .fresh then
    (some w.hidden,
      { w with
        ledger := Function.update w.ledger w.hidden (.live (object w.hidden))
        hidden := w.hidden + 1 })
  else
    (none, w)

/-- Free what is under the handle. -/
def free (handle : Handle) (w : SmallWorld) : SmallWorld :=
  { w with ledger := Function.update w.ledger handle .freed }

/-- Free a buffer, or do nothing for a null pointer. -/
def freeBuffer (ptr : U8Ptr) (w : SmallWorld) : SmallWorld :=
  match ptr with
  | none => w
  | some ptr => free ptr.block w

/-- Where the buffer behind a handle starts: the blocks lie far apart. -/
def address (handle : Handle) : ℕ := (handle + 1) * 2 ^ 40

/-- Allocate an image with the given header. -/
def create (image : AvifImage) (w : SmallWorld) : Option Handle × SmallWorld :=
  match allocate (fun _ => .image) w with
  | (none, w) => (none, w)
  | (some handle, w) => (some handle, { w with images := Function.update w.images handle image })

/-- `avifRGBImageAllocatePixels`: one row has to fit in 32 bits, the whole buffer does not. -/
def allocatePixels (rgb : AvifRGBImage) (w : SmallWorld) :
    AvifResult × AvifRGBImage × SmallWorld :=
  let rowBytes := rgb.width.toNat * avifRGBImagePixelSize rgb
  if rowBytes < 2 ^ 32 then
    match allocate (fun handle =>
        .buffer .rgbPixels (address handle) (rowBytes * rgb.height.toNat)) w with
    | (none, w) => (.outOfMemory, rgb, w)
    | (some handle, w) =>
        (.ok, { rgb with
          pixels := some ⟨handle, address handle⟩
          rowBytes := UInt32.ofNat rowBytes }, w)
  else
    (.invalidArgument, rgb, w)

/-- Encode to a buffer of four bytes. -/
def write (output : AvifRWData) (w : SmallWorld) : AvifResult × AvifRWData × SmallWorld :=
  match allocate (fun handle => .buffer .rwData (address handle) 4) w with
  | (none, w) => (.outOfMemory, output, w)
  | (some handle, w) => (.ok, ⟨some ⟨handle, address handle⟩, 4⟩, w)

end SmallWorld

/-! ## The library -/

/-- The library: every entry point made of the blocks above. -/
def Libavif.small : Libavif ℕ where
  avifImageCreateEmpty := SmallWorld.create ⟨0, 0, 0⟩
  avifImageCreate width height depth _ := SmallWorld.create ⟨width, height, depth⟩
  avifImageDestroy := SmallWorld.free
  avifRGBImageSetDefaults _ image w :=
    ({ AvifRGBImage.zeroed with
      width := (w.images image).width
      height := (w.images image).height
      depth := (w.images image).depth
      format := ⟨1⟩
      maxThreads := 1 }, w)
  avifRGBImageAllocatePixels := SmallWorld.allocatePixels
  avifRGBImageFreePixels rgb := SmallWorld.freeBuffer rgb.pixels
  avifImageYUVToRGB _ rgb w :=
    (if rgb.format = .rgb565 ∧ rgb.depth ≠ 8 then .reformatFailed else .ok, rgb, w)
  avifImageRGBToYUV _ rgb w := (if rgb.format = .rgb565 then .reformatFailed else .ok, w)
  avifRWDataFree data := SmallWorld.freeBuffer data.data
  avifDecoderCreate := SmallWorld.allocate fun _ => .decoder
  -- no input is an image
  avifDecoderReadMemory _ _ _ w := (.bmffParseFailed, w)
  avifDecoderDestroy := SmallWorld.free
  avifEncoderCreate := SmallWorld.allocate fun _ => .encoder
  avifEncoderWrite _ _ := SmallWorld.write
  avifEncoderAddImage _ _ _ _ w := (.ok, w)
  avifEncoderFinish _ := SmallWorld.write
  avifEncoderDestroy := SmallWorld.free

/-! ## It behaves as documented -/

namespace SmallWorld

theorem creates_allocate (object : Object) : Creates object (allocate fun _ => object) := by
  intro w
  unfold allocate
  split_ifs with hfresh
  · exact ⟨hfresh, rfl⟩
  · rfl

theorem creates_create (image : AvifImage) : Creates .image (create image) := by
  intro w
  have h := creates_allocate .image w
  unfold create
  rcases hallocate : allocate (fun _ => Object.image) w with ⟨_ | handle, w'⟩
  · rw [hallocate] at h
    exact h
  · rw [hallocate] at h
    exact h

theorem destroys_free (object : Object) : Destroys object free :=
  fun _ _ _ => rfl

theorem fillsOutput_write : FillsOutput write := by
  rintro ⟨data, size⟩ w hnull
  obtain rfl : data = none := hnull
  unfold write allocate
  split_ifs with hfresh
  · exact ⟨hfresh, rfl⟩
  · rfl

theorem allocatesPixels : AllocatesPixels allocatePixels := by
  intro rgb w _
  unfold allocatePixels
  simp only
  split_ifs with hrow
  · unfold allocate
    split_ifs with hfresh
    · have hexact : (UInt32.ofNat (rgb.width.toNat * avifRGBImagePixelSize rgb)).toNat =
          rgb.width.toNat * avifRGBImagePixelSize rgb := UInt32.toNat_ofNat_of_lt' hrow
      refine ⟨fun hne => absurd rfl hne, fun _ => ⟨hrow, _, _, rfl, hexact, ?_, hfresh, ?_⟩⟩
      · simp only [address]
        omega
      · simp only [AvifRGBImage.bufferBytes, hexact]
    · have hfailed : AvifResult.outOfMemory ≠ .ok := by decide
      exact ⟨fun _ => rfl, fun hok => absurd hok hfailed⟩
  · have hfailed : AvifResult.invalidArgument ≠ .ok := by decide
    exact ⟨fun _ => rfl, fun hok => absurd hok hfailed⟩

theorem freeBuffer_ledger (ptr : U8Ptr) (w : SmallWorld) :
    (ptr = none → (freeBuffer ptr w).ledger = w.ledger) ∧
      ∀ p, ptr = some p → (freeBuffer ptr w).ledger = Function.update w.ledger p.block .freed := by
  refine ⟨?_, ?_⟩
  · rintro rfl
    rfl
  · rintro p rfl
    rfl

end SmallWorld

theorem documented_small : Libavif.small.Documented where
  imageCreateEmpty := SmallWorld.creates_create _
  imageCreate _ _ _ _ := SmallWorld.creates_create _
  imageDestroy := SmallWorld.destroys_free _
  rgbImageSetDefaults _ _ _ := ⟨rfl, rfl, rfl, rfl⟩
  rgbImageAllocatePixels := SmallWorld.allocatesPixels
  rgbImageFreePixels rgb w :=
    ⟨(SmallWorld.freeBuffer_ledger rgb.pixels w).1, fun ptr _ hptr _ =>
      (SmallWorld.freeBuffer_ledger rgb.pixels w).2 ptr hptr⟩
  imageYUVToRGB image rgb w := by
    refine ⟨rfl, rfl, fun hformat hdepth => ?_⟩
    simp only [Libavif.small, if_pos (And.intro hformat hdepth)]
    decide
  imageRGBToYUV _ _ _ := rfl
  rwDataFree data w :=
    ⟨(SmallWorld.freeBuffer_ledger data.data w).1, fun ptr hptr _ =>
      (SmallWorld.freeBuffer_ledger data.data w).2 ptr hptr⟩
  decoderCreate := SmallWorld.creates_allocate _
  decoderReadMemory _ _ _ _ := rfl
  decoderDestroy := SmallWorld.destroys_free _
  encoderCreate := SmallWorld.creates_allocate _
  encoderWrite _ _ := SmallWorld.fillsOutput_write
  encoderAddImage _ _ _ _ _ := rfl
  encoderFinish _ := SmallWorld.fillsOutput_write
  encoderDestroy := SmallWorld.destroys_free _

end Favi

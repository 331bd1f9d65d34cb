import Favi.Ownership

/-!
# Pixel views

`RgbImage::pixels` multiplies `rowBytes` and `height` in 32 bits.  A borrowed image
passed the same multiplication when it was made.  An image that libavif allocated did
not: libavif computes the size of the buffer in `size_t`, so a conversion to wider
pixels can succeed with a buffer of 4 GiB or more.  The view of such a buffer wraps
around in a release build and panics in a debug build.

`views_exact_iff` says when every view of a session is the whole buffer: exactly when
each of its conversions that succeeds needs less than 4 GiB.

## Strategy

The two directions are about one call each, and `Along.mono` lifts them to sessions.

* **Enough.**  If every buffer of a state is below 4 GiB and the conversion of the call is
  too, then every buffer afterwards is: an image comes out of a conversion or passed the
  check of `BorrowedRgbImage::new` (`Transition.buffersFit`).  A product that does not
  overflow is exact.
* **Necessary.**  A conversion that succeeds leaves its image in the state, under a name
  that can be asked for (`exec_of_converts`), so its own view would show the overflow
  (`fits_of_viewsExactAfter`).
-/

namespace Favi

open Custody Program

variable {σ : Type} {target : Target} {lib : Libavif σ} {s s' : State σ} {c : Call}

/-! ## The size of a conversion -/

/-- The bytes of a pixel of the given depth and format, as libavif counts them. -/
def convertedPixelSize (depth : BitDepth) (format : RgbFormat) : ℕ :=
  avifRGBImagePixelSize (RgbImage.request .zeroed depth format)

/-- The exact size of the buffer that a conversion of `image` needs. -/
def convertedBytes (image : AvifImage) (depth : BitDepth) (format : RgbFormat) : ℕ :=
  image.width.toNat * convertedPixelSize depth format * image.height.toNat

theorem Converted.pixelSize_eq {image : AvifImage} {depth : BitDepth} {format : RgbFormat}
    {raw : AvifRGBImage} (h : Converted image depth format raw) :
    avifRGBImagePixelSize raw = convertedPixelSize depth format := by
  unfold convertedPixelSize avifRGBImagePixelSize
  rw [h.depth, h.format]
  rfl

/-- libavif allocates exactly the bytes that the image needs. -/
theorem Converted.bufferBytes_eq {image : AvifImage} {depth : BitDepth} {format : RgbFormat}
    {raw : AvifRGBImage} (h : Converted image depth format raw) :
    raw.bufferBytes = convertedBytes image depth format := by
  rw [AvifRGBImage.bufferBytes, h.rowBytes, h.pixelSize_eq, h.width, h.height, convertedBytes]

/-! ## Exact views -/

/-- The product in `pixels` does not overflow, and the slice is the whole pixel buffer,
all of it allocated. -/
structure ViewExact (target : Target) (m : Machine σ) (rgb : RgbImage) : Prop where
  fits : rgb.raw.bufferBytes < 2 ^ 32
  whole : ∃ ptr, rgb.raw.pixels = some ptr ∧
    rgb.pixels target m = .ok (some ⟨ptr, rgb.raw.bufferBytes⟩, m) ∧
    readable m.world.ledger ⟨ptr, rgb.raw.bufferBytes⟩ = true

/-- Every live image, owned or borrowed, has an exact view. -/
def State.ViewsExact (target : Target) (s : State σ) : Prop :=
  ∀ id rgb, s.rgb? id = some rgb → ViewExact target s.machine rgb

theorem pixelsLen_of_lt (target : Target) {rgb : RgbImage} (hfits : rgb.raw.bufferBytes < 2 ^ 32) :
    rgb.pixelsLen target = some (rgb.raw.rowBytes * rgb.raw.height) := by
  unfold RgbImage.pixelsLen
  rw [Sizes.checkedMul_of_lt hfits, ite_self]

/-- Below 4 GiB the product of the source is exact, in either build. -/
theorem pixels_eq {m : Machine σ} {rgb : RgbImage} {ptr : BytePtr}
    (hptr : rgb.raw.pixels = some ptr)
    (hreadable : readable m.world.ledger ⟨ptr, rgb.raw.bufferBytes⟩ = true)
    (hfits : rgb.raw.bufferBytes < 2 ^ 32) :
    rgb.pixels target m = .ok (some ⟨ptr, rgb.raw.bufferBytes⟩, m) := by
  obtain ⟨_, _, hpixels, rfl, rfl⟩ := ensures_rgbImage_pixels target hptr hreadable
  have hlen : (rgb.raw.rowBytes * rgb.raw.height).toNat = rgb.raw.bufferBytes :=
    Sizes.toNat_mul_of_lt hfits
  rwa [pixelsLen_of_lt target hfits, Option.map_some, hlen] at hpixels

theorem State.Valid.viewExact (h : s.Valid) {id : ValueId} {rgb : RgbImage}
    (hrgb : s.rgb? id = some rgb) (hfits : rgb.raw.bufferBytes < 2 ^ 32) :
    ViewExact target s.machine rgb := by
  obtain ⟨-, ptr, -, hptr, -, hreadable⟩ := h.readable_rgb hrgb
  exact ⟨hfits, ptr, hptr, pixels_eq hptr hreadable hfits, hreadable⟩

/-- The buffer behind an `RgbImage` that libavif allocated is exactly its rows. -/
theorem State.Valid.live_rgbImage (h : s.Valid) {id : ValueId} {rgb : RgbImage}
    (hvalue : s.values id = some (.rgbImage rgb)) :
    ∃ ptr, rgb.raw.pixels = some ptr ∧
      s.ledger ptr.block = .live (.buffer .rgbPixels ptr.addr rgb.raw.bufferBytes) := by
  rcases h.wellFormed.owns id _ hvalue with ⟨handle, object, hholds⟩ | ⟨_, _, heq⟩
  · have hlive := h.live_of_holds hvalue hholds
    simp only [Value.holds, Option.map_eq_some_iff, Prod.mk.injEq] at hholds
    obtain ⟨ptr, hptr, rfl, rfl⟩ := hholds
    exact ⟨ptr, hptr, hlive⟩
  · cases heq

/-! ## Sessions whose conversions fit -/

/-- The call is no conversion to RGB that succeeds, or its buffer is below 4 GiB. -/
def ConversionFits (lib : Libavif σ) (s : State σ) : Call → Prop
  | .toRgb image depth format => ∀ i, s.image? image = some i →
      Converts lib i depth format s.machine.world →
      convertedBytes (s.machine.world.images i.raw) depth format < 2 ^ 32
  | _ => True

/-- After the call every view is exact. -/
def ViewsExactAfter (target : Target) (lib : Libavif σ) (s : State σ) (c : Call) : Prop :=
  ∀ reply s', exec target lib s c = .ok (reply, s') → s'.ViewsExact target

/-- Every live image, owned or borrowed, has a buffer below 4 GiB. -/
def State.BuffersFit (s : State σ) : Prop :=
  ∀ id rgb, s.rgb? id = some rgb → rgb.raw.bufferBytes < 2 ^ 32

theorem State.BuffersFit.without (h : s.BuffersFit) (gone : Option ValueId) (m : Machine σ) :
    ((s.without gone).withMachine m).BuffersFit := by
  intro id rgb hrgb
  obtain ⟨value, hvalue, hvalueRgb⟩ := Option.bind_eq_some_iff.mp hrgb
  exact h id rgb (Option.bind_eq_some_iff.mpr ⟨value, (of_without_eq_some hvalue).1, hvalueRgb⟩)

theorem State.BuffersFit.push (h : s.BuffersFit) {value : Value}
    (hvalue : ∀ rgb, value.rgb? = some rgb → rgb.raw.bufferBytes < 2 ^ 32) :
    (s.push value).BuffersFit := by
  intro id rgb hrgb
  by_cases hid : id = s.next
  · subst hid
    rw [State.rgb?, s.push_values_self] at hrgb
    exact hvalue rgb hrgb
  · rw [State.rgb?, s.push_values_of_ne value hid] at hrgb
    exact h id rgb hrgb

theorem Transition.buffersFit {moves : List (Move ValueId Handle Object)}
    (h : Transition lib s c moves s') (hbuffers : s.BuffersFit) (hfits : ConversionFits lib s c) :
    s'.BuffersFit := by
  cases h with
  | quiet | undone | leaked => exact hbuffers.without _ _
  | @made gone _ _ m _ _ value _ _ hholds hmade =>
      refine (hbuffers.without gone m).push fun rgb hrgb => ?_
      -- the only image that an allocation makes comes out of a conversion
      cases value with
      | image | decoder | encoder | data | bytes => cases hrgb
      | borrowed => cases hholds
      | rgbImage =>
          cases hrgb
          obtain ⟨image, depth, format, i, rfl, himage, hconverts, hconverted⟩ := hmade rgb rfl
          rw [hconverted.bufferBytes_eq]
          exact hfits i himage hconverts
  | lent _ _ _ hborrowed =>
      refine hbuffers.push fun rgb hrgb => ?_
      cases hrgb
      exact hborrowed

/-- After a call every view is exact, if the buffers of the state before it fit and so does
its conversion. -/
theorem viewsExactAfter_of_fits (hlib : lib.Documented) (hvalid : s.Valid)
    (hbuffers : s.BuffersFit) (hfits : ConversionFits lib s c) :
    ViewsExactAfter target lib s c := by
  intro reply s' hexec id rgb hrgb
  obtain ⟨_, _, moves, hexec', htransition⟩ := exec_transition target hlib hvalid c
  rw [hexec] at hexec'
  cases hexec'
  have hfits' : rgb.raw.bufferBytes < 2 ^ 32 := htransition.buffersFit hbuffers hfits id rgb hrgb
  exact (htransition.valid hvalid).viewExact hrgb hfits'

/-- A conversion that succeeds leaves its image under the next name. -/
theorem exec_of_converts (target : Target) (hlib : lib.Documented) (hvalid : s.Valid)
    {image : ValueId} {i : Image} {depth : BitDepth} {format : RgbFormat}
    (himage : s.image? image = some i)
    (hconverts : Converts lib i depth format s.machine.world) :
    ∃ s' rgb, exec target lib s (.toRgb image depth format) = .ok (.done, s') ∧
      s'.rgb? s.next = some rgb ∧
      Converted (s.machine.world.images i.raw) depth format rgb.raw := by
  obtain ⟨result, m, hprogram, -, hconverted, hiff⟩ :=
    ensures_fromImage hlib (hvalid.live_image himage).2 depth format
  obtain ⟨rgb, rfl⟩ := hiff.mpr hconverts
  refine ⟨(s.withMachine m).push (.rgbImage rgb), rgb, ?_, ?_, hconverted rgb rfl⟩
  · simp only [exec, himage, Option.elim_some, State.make, Image.toRgb, hprogram]
  · rw [State.rgb?, show s.next = (s.withMachine m).next from rfl, State.push_values_self]
    rfl

/-- After a conversion that succeeds and does not fit, its view is not exact. -/
theorem fits_of_viewsExactAfter (hlib : lib.Documented) (hvalid : s.Valid)
    (hexact : ViewsExactAfter target lib s c) : ConversionFits lib s c := by
  cases c with
  | toRgb image depth format =>
      intro i himage hconverts
      obtain ⟨s', rgb, hexec, hrgb, hconverted⟩ :=
        exec_of_converts target hlib hvalid himage hconverts
      rw [← hconverted.bufferBytes_eq]
      exact (hexact _ s' hexec _ rgb hrgb).fits
  | _ => trivial

/-- No session faults; every view in every state it reaches is the whole buffer, of a
length that does not overflow, exactly when each of its conversions that succeeds needs
less than 4 GiB; and the buffer behind an allocated image is exactly its rows. -/
theorem views_exact_iff (target : Target) (hlib : lib.Documented) (hidden : σ)
    (calls : List Call) :
    ∃ s, run (exec target lib) (State.boot hidden) calls = .ok s ∧
      (Along (exec target lib) (ViewsExactAfter target lib) (State.boot hidden) calls ↔
        Along (exec target lib) (ConversionFits lib) (State.boot hidden) calls) ∧
      ∀ id rgb, s.values id = some (.rgbImage rgb) → ∃ ptr, rgb.raw.pixels = some ptr ∧
        s.ledger ptr.block = .live (.buffer .rgbPixels ptr.addr rgb.raw.bufferBytes) := by
  have hstep : ∀ {s : State σ} {c : Call} {reply : Reply} {s' : State σ}, s.Valid →
      exec target lib s c = .ok (reply, s') →
      s'.Valid ∧ (s.BuffersFit → ConversionFits lib s c → s'.BuffersFit) := by
    intro s c reply s' hvalid hexec
    obtain ⟨_, _, moves, hexec', htransition⟩ := exec_transition target hlib hvalid c
    rw [hexec] at hexec'
    cases hexec'
    exact ⟨htransition.valid hvalid, htransition.buffersFit⟩
  have hboot : (State.boot hidden).BuffersFit := fun _ _ h => by cases h
  obtain ⟨s, hrun, hvalid⟩ := run_valid target hlib hidden calls
  -- from exact views only validity is carried along, the other way also that buffers fit
  refine ⟨s, hrun, ⟨?_, ?_⟩, fun id rgb => hvalid.live_rgbImage⟩
  · refine Along.mono (I := State.Valid) ?_ ?_ calls _ (State.valid_boot hidden)
    · exact fun s c reply s' hvalid _ hexec => (hstep hvalid hexec).1
    · exact fun s c hvalid => fits_of_viewsExactAfter hlib hvalid
  · refine Along.mono (I := fun s => s.Valid ∧ s.BuffersFit) ?_ ?_ calls _
      ⟨State.valid_boot hidden, hboot⟩
    · exact fun s c reply s' hinv hfits hexec =>
        ⟨(hstep hinv.1 hexec).1, (hstep hinv.1 hexec).2 hinv.2 hfits⟩
    · exact fun s c hinv => viewsExactAfter_of_fits hlib hinv.1 hinv.2

theorem views_exact_iff_small :
    ∃ s, run (exec .release64 .small) (State.boot 0)
        [.newBytes 100 4096 12, .borrowedNew 2 2 .b8 .rgb ⟨0, 0, 12⟩, .fromRgb 1 .b8 .yuv420,
          .toRgb 2 .b8 .rgba] = .ok s ∧
      (s.rgb? 3).isSome = true ∧
      Along (exec .release64 .small) (ViewsExactAfter .release64 .small) (State.boot 0)
        [.newBytes 100 4096 12, .borrowedNew 2 2 .b8 .rgb ⟨0, 0, 12⟩, .fromRgb 1 .b8 .yuv420,
          .toRgb 2 .b8 .rgba] := by
  obtain ⟨s, hrun, hviews, -⟩ := views_exact_iff .release64 documented_small 0
    [.newBytes 100 4096 12, .borrowedNew 2 2 .b8 .rgb ⟨0, 0, 12⟩, .fromRgb 1 .b8 .yuv420,
      .toRgb 2 .b8 .rgba]
  refine ⟨s, hrun, ?_, hviews.mpr ?_⟩
  · cases hrun
    rfl
  · refine (along_cons rfl).mpr ⟨trivial, (along_cons rfl).mpr ⟨trivial, ?_⟩⟩
    refine (along_cons rfl).mpr ⟨trivial, (along_cons rfl).mpr ⟨?_, trivial⟩⟩
    rintro i ⟨⟩ -
    decide

/-- A caller's buffer of 3 GiB, imported and exported again with one byte more for each
pixel: the buffer of the export has 4 GiB, of which its view shows nothing, or panics. -/
theorem wide_conversion_wraps :
    Libavif.small.Documented ∧
    ∃ s, run (exec .release64 .small) (State.boot 0)
        [.newBytes 100 4096 3221225472,
          .borrowedNew 32768 32768 .b8 .rgb ⟨0, 0, 3221225472⟩,
          .fromRgb 1 .b8 .yuv420, .toRgb 2 .b8 .rgba] = .ok s ∧
      ∃ rgb ptr, s.values 3 = some (.rgbImage rgb) ∧ rgb.raw.bufferBytes = 2 ^ 32 ∧
        rgb.pixels .release64 s.machine = .ok (some ⟨ptr, 0⟩, s.machine) ∧
        rgb.pixels .dev64 s.machine = .ok (none, s.machine) ∧
        ¬ ViewExact .release64 s.machine rgb := by
  -- 32768 rows of 32768 pixels: three bytes each before the round trip, four after it
  refine ⟨documented_small, _, rfl, _, ⟨1, SmallWorld.address 1⟩, rfl, rfl, rfl, rfl, ?_⟩
  intro hexact
  exact absurd hexact.fits (by decide)

end Favi

import Favi.Layout
import Favi.Views

/-!
# The two layouts agree

The crate has two rules for the size of a pixel: `channels * bytes_per_channel` for a
buffer of the caller, and libavif's for a buffer it allocates.  They differ for one
format only, `RGB_565` at a depth other than 8, which libavif refuses to convert.  So
whatever `from_image` returns can be handed back to `BorrowedRgbImage::new` at the same
depth and format, as long as it is below 4 GiB, and gives the same bytes.

The refusal is what carries the proof: it is the documented reason why a converted
`RGB_565` image has depth 8 (`Converted.rgb565`), and without it the rows of such an image
at 10 bits would be declared twice as long as they are.  The other two checks of `new` hold because
libavif aligns its buffers, and because one row of them fits in 32 bits.
-/

namespace Favi

open Program

variable {σ : Type} {target : Target} {lib : Libavif σ} {image : Image} {depth : BitDepth}
  {format : RgbFormat} {m m' : Machine σ} {rgb : RgbImage}

/-- The two rules for the size of a pixel, where they agree. -/
theorem convertedPixelSize_eq (h : format = .rgb565 → depth = .b8) :
    convertedPixelSize depth format = format.channels.toNat * depth.bytesPerChannel.toNat := by
  cases format with
  | rgb565 => rw [h rfl]; decide
  | _ => cases depth <;> decide

theorem raw_eq_rgb565_iff (format : RgbFormat) : format.raw = .rgb565 ↔ format = .rgb565 := by
  cases format <;> decide

theorem bits_eq_eight_iff (depth : BitDepth) : depth.bits = 8 ↔ depth = .b8 := by
  cases depth <;> decide

/-- What a conversion returns has the rows that `BorrowedRgbImage::new` declares. -/
theorem Converted.rowBytes_eq {header : AvifImage} {raw : AvifRGBImage}
    (h : Converted header depth format raw) :
    raw.rowBytes.toNat = declaredRowBytes raw.width depth format := by
  have hdepth : format = .rgb565 → depth = .b8 := by
    intro hformat
    have h8 := h.rgb565 (by rw [h.format, raw_eq_rgb565_iff, hformat])
    rwa [h.depth, bits_eq_eight_iff] at h8
  rw [h.rowBytes, h.pixelSize_eq, convertedPixelSize_eq hdepth, declaredRowBytes]
  exact Nat.mul_comm _ _

theorem Converted.bufferBytes_eq_declared {header : AvifImage} {raw : AvifRGBImage}
    (h : Converted header depth format raw) :
    raw.bufferBytes = declaredBytes raw.width raw.height depth format := by
  rw [AvifRGBImage.bufferBytes, h.rowBytes_eq, declaredBytes]

/-- `from_image` returned, so its argument was alive: on anything else it would have faulted
in its first call. -/
theorem live_of_fromImage {result : Result RgbImage}
    (h : RgbImage.fromImage lib image depth format m = .ok (result, m')) :
    m.world.ledger image.raw = .live .image := by
  by_contra hdead
  have hfault : requireLive image.raw .image m = .error (.dangling image.raw) := if_neg hdead
  simp only [RgbImage.fromImage, Sys.avifRGBImageSetDefaults, bind_assoc] at h
  simp only [Bind.bind, StateT.bind, Except.bind, hfault] at h
  cases h

/-- All of the buffer that `from_image` returns is allocated. -/
theorem readable_of_fromImage (hlib : lib.Documented)
    (h : RgbImage.fromImage lib image depth format m = .ok (.ok rgb, m')) :
    ∃ ptr, rgb.raw.pixels = some ptr ∧
      readable m'.world.ledger ⟨ptr, rgb.raw.bufferBytes⟩ = true := by
  obtain ⟨⟨-, handle, object, hholds, hsteps⟩, -⟩ :=
    (ensures_fromImage hlib (live_of_fromImage h) depth format).of_eq h
  simp only [Value.holds, Option.map_eq_some_iff, Prod.mk.injEq] at hholds
  obtain ⟨ptr, hptr, rfl, rfl⟩ := hholds
  exact ⟨ptr, hptr, readable_of_within hsteps.live_of_alloc (.refl _)⟩

/-- `BorrowedRgbImage::new` on the whole buffer of a converted image. -/
theorem new_of_converted (target : Target) {header : AvifImage} {raw : AvifRGBImage}
    {ptr : BytePtr} (h : Converted header depth format raw) (hptr : raw.pixels = some ptr)
    (hfits : raw.bufferBytes < 2 ^ 32) :
    ∃ borrowed, BorrowedRgbImage.new target raw.width raw.height depth format
        ⟨ptr, raw.bufferBytes⟩ = .ok borrowed ∧
      Accepted raw.width raw.height depth format ⟨ptr, raw.bufferBytes⟩ borrowed := by
  have hbytes := h.bufferBytes_eq_declared
  have haligned : ¬ Misaligned depth ⟨ptr, raw.bufferBytes⟩ := fun hodd => by
    have heven : ptr.addr % 2 = 0 := h.aligned ptr hptr
    rw [show ptr.addr % 2 = 1 from hodd.2] at heven
    cases heven
  have hfits' : ¬ Overflows raw.width raw.height depth format := by
    rintro (hrow | htotal)
    · rw [← h.rowBytes_eq] at hrow
      exact absurd raw.rowBytes.toNat_lt (Nat.not_lt.mpr hrow)
    · rw [← hbytes] at htotal
      exact absurd hfits (Nat.not_lt.mpr htotal)
  have hnew := new_eq target raw.width raw.height depth format ⟨ptr, raw.bufferBytes⟩
  rw [if_neg haligned, if_neg hfits', if_neg (Nat.not_lt.mpr hbytes.ge)] at hnew
  exact ⟨_, hnew, accepted_of_new_eq_ok hnew⟩

/-- What `from_image` returns can be imported again unchanged, if its size fits in 32
bits: `BorrowedRgbImage::new` accepts its pixels at the same dimensions, depth and
format, with the same rows, and shows the same bytes. -/
theorem fromImage_agrees (target : Target) (hlib : lib.Documented)
    (hfrom : RgbImage.fromImage lib image depth format m = .ok (.ok rgb, m'))
    (hfits : declaredBytes rgb.width rgb.height depth format < 2 ^ 32) :
    ∃ pixels, rgb.pixels target m' = .ok (some pixels, m') ∧
      ∃ borrowed, BorrowedRgbImage.new target rgb.width rgb.height depth format pixels =
          .ok borrowed ∧
        borrowed.deref.raw.width = rgb.raw.width ∧ borrowed.deref.raw.height = rgb.raw.height ∧
        borrowed.deref.raw.depth = rgb.raw.depth ∧ borrowed.deref.raw.format = rgb.raw.format ∧
        borrowed.deref.raw.rowBytes = rgb.raw.rowBytes ∧
        ∃ view, borrowed.deref.pixels target m' = .ok (some view, m') ∧
          view.len = pixels.len ∧ m'.world.read view = m'.world.read pixels := by
  have hconverted := ((ensures_fromImage hlib (live_of_fromImage hfrom) depth format).of_eq
    hfrom).2.1 rgb rfl
  have hbytes := hconverted.bufferBytes_eq_declared
  have hfits' : rgb.raw.bufferBytes < 2 ^ 32 := by
    rw [hbytes]
    exact hfits
  obtain ⟨ptr, hptr, hreadable⟩ := readable_of_fromImage hlib hfrom
  obtain ⟨borrowed, hnew, haccepted⟩ := new_of_converted target hconverted hptr hfits'
  refine ⟨⟨ptr, rgb.raw.bufferBytes⟩, pixels_eq hptr hreadable hfits', borrowed, hnew, ?_⟩
  have hsame : borrowed.image.raw.bufferBytes = rgb.raw.bufferBytes := by
    rw [haccepted.bufferBytes, hbytes]
  refine ⟨?_, ?_, ?_, ?_, ?_, ⟨ptr, rgb.raw.bufferBytes⟩, ?_, rfl, rfl⟩
  · exact (congrArg AvifRGBImage.width haccepted.raw).trans rfl
  · exact (congrArg AvifRGBImage.height haccepted.raw).trans rfl
  · exact (congrArg AvifRGBImage.depth haccepted.raw).trans hconverted.depth.symm
  · exact (congrArg AvifRGBImage.format haccepted.raw).trans hconverted.format.symm
  · exact UInt32.toNat_inj.mp (haccepted.rowBytes.trans hconverted.rowBytes_eq.symm)
  · rw [← hsame] at hreadable hfits' ⊢
    exact pixels_eq haccepted.pixels_eq hreadable hfits'

/-- An imported image of 12 bytes, exported at 16 bits a channel and imported again. -/
theorem fromImage_agrees_small :
    ∃ s rgb m', run (exec .release64 .small) (State.boot 0)
        [.newBytes 100 4096 12, .borrowedNew 2 2 .b8 .rgb ⟨0, 0, 12⟩, .fromRgb 1 .b8 .yuv420] =
          .ok s ∧
      RgbImage.fromImage .small ⟨0⟩ .b10 .rgba s.machine = .ok (.ok rgb, m') ∧
      ∃ pixels, rgb.pixels .release64 m' = .ok (some pixels, m') ∧
        ∃ borrowed, BorrowedRgbImage.new .release64 rgb.width rgb.height .b10 .rgba pixels =
            .ok borrowed ∧
          borrowed.deref.raw.width = rgb.raw.width ∧
          borrowed.deref.raw.height = rgb.raw.height ∧
          borrowed.deref.raw.depth = rgb.raw.depth ∧
          borrowed.deref.raw.format = rgb.raw.format ∧
          borrowed.deref.raw.rowBytes = rgb.raw.rowBytes ∧
          ∃ view, borrowed.deref.pixels .release64 m' = .ok (some view, m') ∧
            view.len = pixels.len ∧ m'.world.read view = m'.world.read pixels := by
  obtain ⟨s, rgb, m', hrun, hfrom, hfits⟩ : ∃ s rgb m', run (exec .release64 .small) (State.boot 0)
        [.newBytes 100 4096 12, .borrowedNew 2 2 .b8 .rgb ⟨0, 0, 12⟩, .fromRgb 1 .b8 .yuv420] =
          .ok s ∧
      RgbImage.fromImage .small ⟨0⟩ .b10 .rgba s.machine = .ok (.ok rgb, m') ∧
      declaredBytes rgb.width rgb.height .b10 .rgba < 2 ^ 32 :=
    ⟨_, _, _, rfl, rfl, by decide⟩
  exact ⟨s, rgb, m', hrun, hfrom, fromImage_agrees .release64 documented_small hfrom hfits⟩

end Favi

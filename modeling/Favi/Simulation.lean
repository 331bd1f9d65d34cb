import Favi.Foundation.Refinement
import Favi.Footprint
import Favi.Ownership

/-!
# The crate refines the table

Every step of a session, a call of the crate or a write of the user's, does to the
meaning of the state what `Table.spec` allows (`act_implements`), and so every run from
the start is a run of the specification (`act_refines`).  There is one lemma for each
way in which `act` is built up, and one case for each call, as for the transitions.

`answers_exact` is the other half: what the functions return that only look is what the
table says, in every state that a run reaches.

## Strategy

A step is followed in two parts.  That it does not fault and keeps the ownership invariant
is known from `exec_valid`; what is left is to show that if it ends in a state, then the
table of that state is one the specification allows (`Implements`).  For that,

* the functions of the crate are known by what they leave alone and what they deliver
  (`Favi.Confinement`);
* what they leave alone includes the block of every value but the one that the call is
  about, which is not lent (`Favi.Footprint`), so all other items stay the same;
* the value that the call is about means what the function delivered.

A write is followed directly, since it is one function on the bytes of one value.
-/

namespace Favi

open Custody Program

variable {σ : Type} {target : Target} {lib : Libavif σ} {s : State σ}

/-! ## Reading bytes -/

namespace World

theorem read_length (w : World σ) (slice : Slice) : (w.read slice).length = slice.len := by
  rw [World.read, List.length_map, List.length_range]

theorem read_take (w : World σ) (ptr : BytePtr) {short long : ℕ} (h : short ≤ long) :
    (w.read ⟨ptr, long⟩).take short = w.read ⟨ptr, short⟩ := by
  rw [World.read, World.read, ← List.map_take, List.take_range, Nat.min_eq_left h]

theorem read_sub (w : World σ) {slice sub : Slice} {start len : ℕ}
    (h : slice.sub? start len = some sub) :
    w.read sub = ((w.read slice).drop start).take len := by
  unfold Slice.sub? at h
  split at h
  · next hle =>
    cases h
    refine List.ext_getElem ?_ fun i hi hi' => ?_
    · simp only [read_length, List.length_take, List.length_drop]
      omega
    · simp only [World.read, List.getElem_map, List.getElem_range, List.getElem_take,
        List.getElem_drop, Nat.add_assoc]
  · cases h

end World

theorem Machine.read_store (m : Machine σ) (slice : Slice) (offset : ℕ) (byte : UInt8) :
    (m.store slice offset byte).world.read slice = (m.world.read slice).set offset byte := by
  refine List.ext_getElem ?_ fun i hi hi' => ?_
  · rw [List.length_set, World.read_length, World.read_length]
  · simp only [World.read, Machine.store, List.getElem_map, List.getElem_range,
      Function.update_self, List.getElem_set]
    by_cases heq : offset = i
    · rw [if_pos heq, heq, Function.update_self]
    · rw [if_neg heq, Function.update_of_ne (by omega)]

theorem Machine.spares_store (m : Machine σ) (slice : Slice) (offset : ℕ) (byte : UInt8) :
    m.Spares {slice.ptr.block} (m.store slice offset byte) := by
  intro handle content hlook hout
  have hne := Set.mem_singleton_iff.not.mp hout
  simp only [World.look, Machine.store, Function.update_of_ne hne] at hlook ⊢
  exact hlook

/-- `pixels` shows what `pixelView` says of the buffer. -/
theorem ensures_pixelView (target : Target) {m : Machine σ} {rgb : RgbImage} {ptr : BytePtr}
    (hptr : rgb.raw.pixels = some ptr)
    (hreadable : readable m.world.ledger ⟨ptr, rgb.raw.bufferBytes⟩ = true) :
    Ensures (rgb.pixels target) m fun result m' => m' = m ∧
      result.map m.world.read = pixelView target (rgb.raw.bitmap m.world).bytes := by
  refine (ensures_rgbImage_pixels target hptr hreadable).mono ?_
  rintro _ m' ⟨rfl, rfl⟩
  refine ⟨rfl, ?_⟩
  have hbytes : (rgb.raw.bitmap m'.world).bytes = m'.world.read ⟨ptr, rgb.raw.bufferBytes⟩ := by
    simp only [AvifRGBImage.bitmap, World.contents, hptr]
  rw [hbytes, pixelView, World.read_length, Option.map_map]
  -- past 4 GiB the product panics in a debug build, and wraps around in a release build
  by_cases hfits : rgb.raw.bufferBytes < 2 ^ 32
  · rw [if_pos hfits, pixelsLen_of_lt target hfits, Option.map_some, Function.comp_apply,
      Sizes.toNat_mul_of_lt hfits]
    rfl
  · rw [if_neg hfits, RgbImage.pixelsLen]
    by_cases hchecks : target.overflowChecks = true
    · have hnone := Sizes.checkedMul_eq_none_iff.mpr (Nat.le_of_not_lt hfits)
      rw [if_pos hchecks, if_pos hchecks, hnone, Option.map_none]
    · rw [if_neg hchecks, if_neg hchecks, World.read_take _ _ (Nat.mod_le _ _), Option.map_some,
        Function.comp_apply, UInt32.toNat_mul]
      rfl

/-! ## The parts of a meaning -/

theorem meaning_header (s : State σ) (id : ValueId) :
    (s.meaning.items id).bind Item.header? =
      (s.image? id).map fun image => s.machine.world.images image.raw := by
  simp only [State.meaning, State.image?]
  cases s.values id with
  | none => rfl
  | some value => cases value <;> rfl

theorem meaning_bitmap (s : State σ) (id : ValueId) :
    (s.meaning.items id).bind Item.bitmap? =
      (s.rgb? id).map fun rgb => rgb.raw.bitmap s.machine.world := by
  simp only [State.meaning, State.rgb?]
  cases s.values id with
  | none => rfl
  | some value => cases value <;> rfl

theorem meaning_decoder (s : State σ) (id : ValueId) :
    (s.meaning.items id).bind Item.decoder? = (s.decoder? id).map fun _ => () := by
  simp only [State.meaning, State.decoder?]
  cases s.values id with
  | none => rfl
  | some value => cases value <;> rfl

theorem meaning_settings (s : State σ) (id : ValueId) :
    (s.meaning.items id).bind Item.settings? =
      (s.encoder? id).map fun encoder => s.machine.world.encoders encoder.raw := by
  simp only [State.meaning, State.encoder?]
  cases s.values id with
  | none => rfl
  | some value => cases value <;> rfl

theorem meaning_data (s : State σ) (id : ValueId) :
    (s.meaning.items id).bind Item.data? =
      (s.data? id).map fun data => s.machine.world.contents data.raw.data data.raw.size := by
  simp only [State.meaning, State.data?]
  cases s.values id with
  | none => rfl
  | some value => cases value <;> rfl

/-! ## The parts of `exec` -/

/-- If the outcome is no fault, the effect allows it. -/
def Implements (outcome : Outcome σ) (effect : Effect) : Prop :=
  ∀ reply s', outcome = .ok (reply, s') → effect reply s'.meaning

theorem implements_ok {reply : Reply} {effect : Effect} (h : effect reply s.meaning) :
    Implements (.ok (reply, s)) effect := by
  rintro _ _ ⟨⟩
  exact h

/-- A value that the call names is there when its item is, and then the item is its meaning. -/
theorem implements_needs {α β : Type} {value : Option α} {f : α → β} {id : ValueId}
    {part : Item → Option β} {next : α → Outcome σ} {effect : β → Effect}
    (hpart : (s.meaning.items id).bind part = value.map f)
    (h : ∀ a, value = some a → Implements (next a) (effect (f a))) :
    Implements (value.elim s.reject next) (s.meaning.needs id part effect) := by
  unfold Table.needs
  rw [hpart]
  cases value with
  | none => exact implements_ok ⟨rfl, rfl⟩
  | some a => exact h a rfl

/-- A call that makes a value or an error, on a machine where nobody is touched by it. -/
theorem implements_make {α : Type} {out : Set Handle} {program : Ffi σ (Result α)}
    {wrap : α → Value} {errors : Error → Prop} {item : Item → Prop} (hclear : s.Clear out)
    (h : Yields program s.machine fun result m => s.machine.Spares out m ∧
      Delivered errors (fun a => item ((wrap a).meaning m.world)) result) :
    Implements (s.make program wrap) (s.meaning.makes errors item) := by
  intro reply s' hmake
  unfold State.make at hmake
  split at hmake
  · cases hmake
  · next a m hprogram =>
    cases hmake
    obtain ⟨hspares, hitem⟩ := h _ _ hprogram
    refine Or.inl ⟨rfl, _, hitem, ?_⟩
    rw [State.meaning_push, hclear.meaning hspares]
    rfl
  · next e m hprogram =>
    cases hmake
    obtain ⟨hspares, herror⟩ := h _ _ hprogram
    exact Or.inr ⟨e, herror, rfl, hclear.meaning hspares⟩

/-- A call that makes no value. -/
theorem implements_observe {α : Type} {out : Set Handle} {program : Ffi σ α} {reply : α → Reply}
    {effect : Effect} (hclear : s.Clear out)
    (h : Yields program s.machine fun a m =>
      s.machine.Spares out m ∧ effect (reply a) s.meaning) :
    Implements (s.observe program reply) effect := by
  intro reply' s' hobserve
  unfold State.observe at hobserve
  split at hobserve
  · cases hobserve
  · next a m hprogram =>
    cases hobserve
    obtain ⟨hspares, heffect⟩ := h _ _ hprogram
    rw [hclear.meaning hspares]
    exact heffect

/-- A function that reads one field of the machine. -/
theorem implements_read {α : Type} {program : Ffi σ α} (hvalid : s.Valid)
    (h : Yields program s.machine fun _ m => m = s.machine) :
    Implements (s.observe program replyDone) (s.meaning.replies .done) := by
  refine implements_observe hvalid.clear (h.mono ?_)
  rintro _ _ rfl
  exact ⟨.refl _ _, rfl, rfl⟩

/-- A setter: only the settings of this encoder are other ones afterwards. -/
theorem implements_set (hvalid : s.Valid) {id : ValueId} {encoder : Encoder}
    (hencoder : s.encoder? id = some encoder) (update : AvifEncoder → AvifEncoder) :
    Implements (s.observe (encoder.write update) replyDone)
      ((s.meaning.set id (some (.encoder (update (s.machine.world.encoders encoder.raw))))).replies
        .done) := by
  obtain ⟨hvalue, -⟩ := hvalid.live_encoder hencoder
  have hclear := hvalid.clear_erase hvalue (hvalid.wellFormed.not_isLent hvalue rfl)
  intro reply s' hobserve
  unfold State.observe at hobserve
  split at hobserve
  · cases hobserve
  · next u m hprogram =>
    cases hobserve
    obtain ⟨hspares, hwritten⟩ := yields_encoder_write encoder update _ _ hprogram
    have hsub : ({encoder.raw} : Set Handle) ⊆
        {handle | ∃ object, (Value.encoder encoder).holds = some (handle, object)} := by
      rintro _ rfl
      exact ⟨_, rfl⟩
    refine ⟨rfl, (State.meaning_touch hvalue hclear (hspares.mono hsub)).trans ?_⟩
    rw [Value.meaning, hwritten]

/-- `encode` and `finish`. -/
theorem implements_collect (hvalid : s.Valid) {id : ValueId} {encoder : Encoder}
    {program : Ffi σ (Result Data)} (hencoder : s.encoder? id = some encoder)
    (h : Yields program s.machine fun result m => s.machine.Spares {encoder.raw} m ∧
      Delivered (fun e => CodeError e ∨ e = .emptyOutput) (fun _ => True) result) :
    Implements ((s.erase id).make program .data) (s.meaning.collects id) := by
  obtain ⟨hvalue, -⟩ := hvalid.live_encoder hencoder
  have hclear := hvalid.clear_erase hvalue (hvalid.wellFormed.not_isLent hvalue rfl)
  unfold Table.collects
  rw [← State.meaning_erase]
  refine implements_make hclear (h.mono ?_)
  rintro result m ⟨hspares, hdelivered⟩
  refine ⟨hspares.mono ?_, ?_⟩
  · rintro _ rfl
    exact ⟨_, rfl⟩
  · cases result with
    | error e => exact hdelivered
    | ok data => exact ⟨_, rfl⟩

/-! ## Byte arguments -/

/-- A value without a `&[u8]` has none in the table. -/
theorem view_of_asBytes_none {value : Value}
    (h : (value.asBytes? target : Option (Ffi σ (Option Slice))) = none)
    (w : World σ) : (value.meaning w).view? target = none := by
  cases value with
  | image | decoder | encoder => rfl
  | rgbImage | borrowed | data | bytes => cases h

/-- What a value gives out as bytes is what its meaning shows. -/
theorem ensures_asBytes_view (hvalid : s.Valid) {id : ValueId} {value : Value}
    {program : Ffi σ (Option Slice)} (hvalue : s.values id = some value)
    (hprogram : value.asBytes? target = some program) :
    Ensures program s.machine fun result _ =>
      (value.meaning s.machine.world).view? target =
        some (result.map s.machine.world.read) := by
  have hpixels : ∀ rgb, value.rgb? = some rgb → Ensures (rgb.pixels target) s.machine
      fun result _ => some (pixelView target (rgb.raw.bitmap s.machine.world).bytes) =
        some (result.map s.machine.world.read) := by
    intro rgb hrgb
    have hfound : s.rgb? id = some rgb := by simp only [State.rgb?, hvalue, Option.bind_some, hrgb]
    obtain ⟨-, ptr, -, hptr, -, hreadable⟩ := hvalid.readable_rgb hfound
    refine (ensures_pixelView target hptr hreadable).mono ?_
    rintro result m ⟨rfl, hview⟩
    rw [hview]
  cases value with
  | image | decoder | encoder => cases hprogram
  | rgbImage | borrowed =>
      cases hprogram
      exact hpixels _ rfl
  | bytes slice =>
      cases hprogram
      exact Ensures.pure rfl
  | data out =>
      cases hprogram
      have hfound : s.data? id = some out := by simp only [State.data?, hvalue]
      obtain ⟨-, ptr, hptr, hlive⟩ := hvalid.live_data hfound
      obtain ⟨⟨data, size⟩⟩ := out
      obtain rfl : data = some ptr := hptr
      refine Ensures.map ((ensures_data_asSlice hlive).mono ?_)
      rintro _ _ ⟨rfl, -⟩
      rfl

theorem implements_withBytes (hvalid : s.Valid) {source : Source}
    {next : State σ → Slice → Outcome σ} {effect : List UInt8 → Effect}
    (h : ∀ slice, s.Provides source.id slice →
      Implements (next s slice) (effect (s.machine.world.read slice))) :
    Implements (s.withBytes target source next) (s.meaning.withBytes target source effect) := by
  unfold State.withBytes Table.withBytes Table.needs
  cases hvalue : s.values source.id with
  | none =>
      simp only [State.meaning, hvalue, Option.bind_none, Option.map_none, Option.elim_none]
      exact implements_ok ⟨rfl, rfl⟩
  | some value =>
      simp only [State.meaning, hvalue, Option.bind_some, Option.map_some]
      cases hbytes : value.asBytes? target with
      | none =>
          rw [view_of_asBytes_none hbytes]
          exact implements_ok ⟨rfl, rfl⟩
      | some program =>
          obtain ⟨result, m, hrun, rfl, hprovides⟩ := ensures_asBytes hvalid hvalue hbytes
          have hview := (ensures_asBytes_view hvalid hvalue hbytes).of_eq hrun
          simp only [hrun, hview, Option.elim_some]
          have hpanic : Implements (.ok (.panicked, s)) (s.meaning.replies .panicked) :=
            implements_ok ⟨rfl, rfl⟩
          cases result with
          | none => exact hpanic
          | some slice =>
              simp only [Option.map_some, Option.elim_some, World.read_length]
              cases hsub : slice.sub? source.start source.len with
              | none =>
                  have hpast : ¬ source.start + source.len ≤ slice.len := fun hle => by
                    rw [Slice.sub?, if_pos hle] at hsub
                    cases hsub
                  rw [if_neg hpast]
                  exact hpanic
              | some sub =>
                  have hle : source.start + source.len ≤ slice.len := by
                    by_contra hpast
                    rw [Slice.sub?, if_neg hpast] at hsub
                    cases hsub
                  obtain ⟨owner, region, howner, hregion, hwithin⟩ := hprovides slice rfl
                  rw [if_pos hle, ← World.read_sub _ hsub]
                  exact h sub ⟨owner, region, howner, hregion,
                    (Slice.within_of_sub? hsub).trans hwithin⟩

theorem implements_borrowedNew {width height : UInt32} {depth : BitDepth} {format : RgbFormat}
    {lender : ValueId} {slice : Slice} :
    Implements (match BorrowedRgbImage.new target width height depth format slice with
      | .ok image => .ok (.done, s.push (.borrowed image lender))
      | .error error => .ok (.err error, s))
      (s.meaning.borrows width height depth format lender (s.machine.world.read slice)) := by
  cases hnew : BorrowedRgbImage.new target width height depth format slice with
  | error e =>
      refine implements_ok ?_
      unfold Table.borrows
      rw [new_eq] at hnew
      rw [World.read_length]
      split_ifs at hnew with hodd hbig hshort
      · cases hnew
        exact Or.inl ⟨hodd.1, rfl, rfl⟩
      · cases hnew
        rw [if_pos hbig]
        exact Or.inr ⟨rfl, rfl⟩
      · cases hnew
        rw [if_neg hbig, if_pos hshort]
        exact Or.inr ⟨rfl, rfl⟩
  | ok image =>
      have haccepted := accepted_of_new_eq_ok hnew
      refine implements_ok (Or.inr ?_)
      have hfits : ¬ Overflows width height depth format := by
        intro hbig
        rw [new_eq, if_neg haccepted.aligned, if_pos hbig] at hnew
        cases hnew
      rw [if_neg hfits, World.read_length, if_neg (Nat.not_lt.mpr haccepted.enough)]
      refine Or.inl ⟨rfl, _, rfl, ?_⟩
      have hbitmap : image.image.raw.bitmap s.machine.world =
          ⟨width, height, depth.bits, format.raw,
          (s.machine.world.read slice).take (declaredBytes width height depth format)⟩ := by
        rw [AvifRGBImage.bitmap, haccepted.bufferBytes, haccepted.pixels_eq, haccepted.raw]
        rw [World.contents, World.read_take _ _ haccepted.enough]
        rfl
      rw [State.meaning_push, Value.meaning, hbitmap]

/-! ## Every call -/

theorem implements_toRgb (hlib : lib.Documented) (hconf : lib.Confined) (hvalid : s.Valid)
    {id : ValueId} {image : Image} (himage : s.image? id = some image) (depth : BitDepth)
    (format : RgbFormat) :
    Implements (s.make (image.toRgb lib depth format) .rgbImage)
      (s.meaning.makes CodeError fun item => ∃ bytes,
        bytes.length = convertedBytes (s.machine.world.images image.raw) depth format ∧
        item = .rgbImage ⟨(s.machine.world.images image.raw).width,
          (s.machine.world.images image.raw).height, depth.bits, format.raw, bytes⟩) := by
  refine implements_make hvalid.clear (((yields_fromImage hlib hconf image depth format).and
    (ensures_fromImage hlib (hvalid.live_image himage).2 depth format).yields).mono ?_)
  rintro (error | rgb) m ⟨⟨hspares, herror⟩, hmade, hconverted, -⟩
  · exact ⟨hspares, herror⟩
  · refine ⟨hspares, (rgb.raw.bitmap m.world).bytes, ?_, ?_⟩
    · obtain ⟨-, handle, object, hholds, -⟩ := hmade
      simp only [Value.holds, Option.map_eq_some_iff, Prod.mk.injEq] at hholds
      obtain ⟨ptr, hptr, -⟩ := hholds
      simp only [AvifRGBImage.bitmap, hptr, World.contents, World.read_length,
        (hconverted rgb rfl).bufferBytes_eq]
    · have hheader := hconverted rgb rfl
      rw [← hheader.width, ← hheader.height, ← hheader.depth, ← hheader.format]
      rfl

theorem exec_implements (hlib : lib.Documented) (hconf : lib.Confined) (hvalid : s.Valid)
    (c : Call) : Implements (exec target lib s c) (s.meaning.specCall target c) := by
  have hread : ∀ {α : Type} (image : Image) (field : AvifImage → α),
      Yields (image.read field) s.machine fun a m =>
        a = field (s.machine.world.images image.raw) ∧ m = s.machine := by
    intro α image field
    refine Yields.bind ((yields_requireLive image.raw .image).mono ?_)
    rintro - m rfl
    rintro _ _ ⟨⟩
    exact ⟨rfl, rfl⟩
  have hsetting : ∀ {α : Type} (encoder : Encoder) (field : AvifEncoder → α),
      Yields (encoder.read field) s.machine fun _ m => m = s.machine := by
    intro α encoder field
    refine Yields.bind ((yields_requireLive encoder.raw .encoder).mono ?_)
    rintro - m rfl
    rintro _ _ ⟨⟩
    rfl
  have hslice : ∀ {id : ValueId} {data : Data}, s.data? id = some data →
      Yields data.asSlice s.machine fun _ m => m = s.machine := by
    intro id data hdata
    obtain ⟨-, ptr, hptr, hlive⟩ := hvalid.live_data hdata
    obtain ⟨⟨_, size⟩⟩ := data
    cases hptr
    exact ((ensures_data_asSlice hlive).mono fun _ _ h => h.2).yields
  cases c with
  | newBytes block addr len =>
      simp only [exec]
      split
      · next hfresh =>
        have hspares : s.machine.Spares ∅ { s.machine with
            world.ledger :=
              Function.update s.ledger block (.live (.buffer .caller addr len)) } := by
          intro handle content hlook _
          have hne : handle ≠ block := by
            rintro rfl
            rw [World.look_of_fresh hfresh] at hlook
            cases hlook
          simp only [World.look, State.ledger, Function.update_of_ne hne] at hlook ⊢
          exact hlook
        refine implements_ok (Or.inr (Or.inl ⟨rfl,
          .bytes (s.machine.world.read ⟨⟨block, addr⟩, len⟩), ⟨_, World.read_length _ _, rfl⟩, ?_⟩))
        rw [State.meaning_push, hvalid.clear.meaning hspares]
        rfl
      · exact implements_ok (Or.inl ⟨rfl, rfl⟩)
  | imageEmpty =>
      refine implements_make hvalid.clear ((yields_image_empty hlib hconf).mono ?_)
      rintro (error | image) m ⟨hspares, h⟩
      · exact ⟨hspares, h⟩
      · exact ⟨hspares, _, rfl⟩
  | imageNew width height depth format =>
      refine implements_make hvalid.clear
        ((yields_image_new hlib hconf width height depth format).mono ?_)
      rintro (error | image) m ⟨hspares, h⟩
      · exact ⟨hspares, h⟩
      · exact ⟨hspares, congrArg Item.image h.2⟩
  | decoderNew =>
      refine implements_make hvalid.clear ((yields_decoder_new hconf).mono ?_)
      rintro (error | decoder) m ⟨hspares, h⟩
      · exact ⟨hspares, h⟩
      · exact ⟨hspares, rfl⟩
  | encoderNew =>
      refine implements_make hvalid.clear ((yields_encoder_new hconf).mono ?_)
      rintro (error | encoder) m ⟨hspares, h⟩
      · exact ⟨hspares, h⟩
      · exact ⟨hspares, _, rfl⟩
  | imageWidth image | imageHeight image | imageRawDepth image =>
      refine implements_needs (meaning_header s image) fun i _ => implements_read hvalid ?_
      exact (hread i _).mono fun _ _ h => h.2
  | imageDepth image =>
      refine implements_needs (meaning_header s image) fun i _ => ?_
      refine implements_observe hvalid.clear (Yields.map ((hread i AvifImage.depth).mono ?_))
      rintro _ _ ⟨rfl, rfl⟩
      exact ⟨.refl _ _, rfl, rfl⟩
  | toRgb image depth format =>
      refine implements_needs (meaning_header s image) fun i hi => ?_
      exact implements_toRgb hlib hconf hvalid hi depth format
  | fromRgb rgb depth format =>
      refine implements_needs (meaning_bitmap s rgb) fun r _ => ?_
      refine implements_make hvalid.clear ((yields_toImage hlib hconf r depth format).mono ?_)
      rintro (error | image) m ⟨hspares, h⟩
      · exact ⟨hspares, h⟩
      · exact ⟨hspares, congrArg Item.image h⟩
  | pixels rgb =>
      refine implements_needs (meaning_bitmap s rgb) fun r hr => ?_
      obtain ⟨-, ptr, -, hptr, -, hreadable⟩ := hvalid.readable_rgb hr
      refine implements_observe hvalid.clear
        ((ensures_pixelView target hptr hreadable).mono ?_).yields
      rintro result _ ⟨rfl, hview⟩
      rw [← hview]
      exact ⟨.refl _ _, by cases result <;> rfl, rfl⟩
  | borrowedNew width height depth format pixels =>
      simp only [exec, Table.specCall]
      exact implements_withBytes hvalid fun slice _ => implements_borrowedNew
  | decode decoder data =>
      refine implements_needs (meaning_decoder s decoder) fun d hd => ?_
      refine implements_withBytes hvalid fun slice _ => ?_
      refine implements_make (hvalid.clear_decoder hd) ((yields_decode hlib hconf d slice).mono ?_)
      rintro (error | image) m ⟨hspares, h⟩
      · exact ⟨hspares, h⟩
      · exact ⟨hspares, _, rfl⟩
  | setMaxThreads encoder | setSpeed encoder | setQuality encoder =>
      exact implements_needs (meaning_settings s encoder) fun e he => implements_set hvalid he _
  | maxThreads encoder | speed encoder | quality encoder =>
      refine implements_needs (meaning_settings s encoder) fun e _ => ?_
      exact implements_read hvalid (hsetting e _)
  | addImage encoder image duration flags =>
      refine implements_needs (meaning_settings s encoder) fun e _ => ?_
      refine implements_needs (meaning_header s image) fun i _ => ?_
      refine implements_observe hvalid.clear ((yields_addImage hconf e i duration flags).mono ?_)
      rintro (error | ⟨⟩) m ⟨hspares, h⟩
      · exact ⟨hspares, Or.inr ⟨error, h, rfl, rfl⟩⟩
      · exact ⟨hspares, Or.inl ⟨rfl, rfl⟩⟩
  | encode encoder image =>
      refine implements_needs (meaning_settings s encoder) fun e he => ?_
      refine implements_needs (meaning_header s image) fun i _ => ?_
      exact implements_collect hvalid he (yields_encode hlib hconf e i)
  | finish encoder =>
      refine implements_needs (meaning_settings s encoder) fun e he => ?_
      exact implements_collect hvalid he (yields_finish hlib hconf e)
  | asSlice data =>
      refine implements_needs (meaning_data s data) fun d hd => ?_
      exact implements_read hvalid (hslice hd)
  | asMutSlice data =>
      refine implements_needs (meaning_data s data) fun d hd => ?_
      rw [State.isLent_meaning]
      split
      · exact implements_ok ⟨rfl, rfl⟩
      · exact implements_read hvalid (hslice hd)
  | drop id =>
      have hpart : (s.meaning.items id).bind some =
          (s.values id).map (Value.meaning s.machine.world) := Option.bind_fun_some _
      refine implements_needs hpart fun value hvalue => ?_
      rw [State.isLent_meaning]
      split
      · exact implements_ok ⟨rfl, rfl⟩
      · next hlent =>
        rw [← State.meaning_erase]
        refine implements_observe (hvalid.clear_erase hvalue (Bool.eq_false_iff.mpr hlent))
          ((yields_value_drop hconf value).mono ?_)
        exact fun _ _ hspares => ⟨hspares, rfl, rfl⟩

/-! ## Writes -/

/-- What a value gives out as mutable bytes is what it owns, and what it shows. -/
theorem ensures_asBytesMut (hvalid : s.Valid) {id : ValueId} {value : Value}
    {program : Ffi σ Slice} (hvalue : s.values id = some value)
    (hprogram : value.asBytesMut? = some program) :
    Ensures program s.machine fun slice m => m = s.machine ∧
      (∃ object, value.holds = some (slice.ptr.block, object)) ∧
      ∃ wrap : List UInt8 → Item, ∀ w : World σ, value.meaning w = wrap (w.read slice) ∧
        (value.meaning w).writable? = some (w.read slice, wrap) := by
  cases value with
  | image | rgbImage | borrowed | decoder | encoder => cases hprogram
  | bytes slice =>
      cases hprogram
      exact Ensures.pure ⟨rfl, ⟨_, rfl⟩, .bytes, fun w => ⟨rfl, rfl⟩⟩
  | data out =>
      cases hprogram
      have hfound : s.data? id = some out := by simp only [State.data?, hvalue]
      obtain ⟨-, ptr, hptr, hlive⟩ := hvalid.live_data hfound
      obtain ⟨⟨data, size⟩⟩ := out
      obtain rfl : data = some ptr := hptr
      refine (ensures_data_asSlice hlive).mono ?_
      rintro _ m ⟨rfl, rfl⟩
      exact ⟨rfl, ⟨_, rfl⟩, .data, fun w => ⟨rfl, rfl⟩⟩

theorem writable_of_asBytesMut_none {value : Value}
    (h : (value.asBytesMut? : Option (Ffi σ Slice)) = none)
    (w : World σ) : (value.meaning w).writable? = none := by
  cases value with
  | image | rgbImage | borrowed | decoder | encoder => rfl
  | data | bytes => cases h

theorem State.Valid.withMachine (h : s.Valid) {m : Machine σ}
    (hledger : m.world.ledger = s.ledger) (hfrees : m.frees = s.machine.frees) :
    (s.withMachine m).Valid where
  sound := by
    have hbooks : (s.withMachine m).books = s.books := by
      unfold State.books State.ledger
      rw [show (s.withMachine m).machine.world.ledger = s.ledger from hledger]
      rfl
    rw [hbooks]
    exact h.sound
  log := by
    unfold State.ledger
    rw [show (s.withMachine m).machine.world.ledger = s.ledger from hledger,
      show (s.withMachine m).machine.frees = s.machine.frees from hfrees]
    exact h.log
  wellFormed := h.wellFormed.withMachine m

/-- A write changes bytes, and neither what is allocated nor who owns it. -/
theorem State.Valid.write_books (hvalid : s.Valid) {s' : State σ} {id : ValueId} {offset : ℕ}
    {byte : UInt8} {reply : Reply} (hwrite : s.write id offset byte = .ok (reply, s')) :
    s'.books = s.books ∧ s'.machine.frees = s.machine.frees := by
  unfold State.write at hwrite
  split at hwrite
  · cases hwrite
    exact ⟨rfl, rfl⟩
  · next program hprogram =>
    split at hwrite
    · cases hwrite
      exact ⟨rfl, rfl⟩
    · obtain ⟨value, hvalue, hbytes⟩ := Option.bind_eq_some_iff.mp hprogram
      obtain ⟨slice, m, hrun, rfl, -⟩ := ensures_asBytesMut hvalid hvalue hbytes
      rw [hrun] at hwrite
      simp only at hwrite
      split at hwrite
      · cases hwrite
        exact ⟨rfl, rfl⟩
      · cases hwrite
        exact ⟨rfl, rfl⟩

/-- A write does not fault, and changes the bytes that the table changes. -/
theorem write_implements (hvalid : s.Valid) (id : ValueId) (offset : ℕ) (byte : UInt8) :
    ∃ reply s', s.write id offset byte = .ok (reply, s') ∧ s'.Valid ∧
      s.meaning.specWrite id offset byte reply s'.meaning := by
  unfold State.write Table.specWrite Table.needs
  rw [State.isLent_meaning]
  cases hvalue : s.values id with
  | none =>
      simp only [State.meaning, hvalue, Option.bind_none, Option.map_none, Option.elim_none]
      exact ⟨_, s, rfl, hvalid, rfl, rfl⟩
  | some value =>
      have hitem : s.meaning.items id = some (value.meaning s.machine.world) := by
        simp only [State.meaning, hvalue, Option.map_some]
      simp only [hitem, Option.bind_some]
      cases hbytes : (value.asBytesMut? : Option (Ffi σ Slice)) with
      | none =>
          rw [writable_of_asBytesMut_none hbytes]
          exact ⟨_, s, rfl, hvalid, rfl, rfl⟩
      | some program =>
          obtain ⟨slice, m, hrun, rfl, ⟨object, hholds⟩, wrap, hwrap⟩ :=
            ensures_asBytesMut hvalid hvalue hbytes
          rw [(hwrap s.machine.world).2]
          simp only [Option.elim_some, hrun, World.read_length]
          -- lent bytes cannot be written, an offset past the end panics, and the rest is written
          by_cases hlent : s.isLent id = true
          · simp only [if_pos hlent]
            exact ⟨_, s, rfl, hvalid, rfl, rfl⟩
          · simp only [if_neg hlent]
            by_cases hin : offset < slice.len
            · simp only [if_pos hin]
              refine ⟨_, _, rfl, hvalid.withMachine rfl rfl, rfl, ?_⟩
              have hclear := hvalid.clear_erase hvalue (Bool.eq_false_iff.mpr hlent)
              have hspares : s.machine.Spares
                  {handle | ∃ object, value.holds = some (handle, object)}
                  (s.machine.store slice offset byte) := by
                refine (s.machine.spares_store slice offset byte).mono ?_
                rintro _ rfl
                exact ⟨object, hholds⟩
              rw [State.meaning_touch hvalue hclear hspares, (hwrap _).1, Machine.read_store]
            · simp only [if_neg hin]
              exact ⟨_, s, rfl, hvalid, rfl, rfl⟩

/-! ## Runs -/

/-- Every step keeps the ownership invariant, does not fault, and is a step of the
specification. -/
theorem act_implements (target : Target) (hlib : lib.Documented) (hconf : lib.Confined)
    (hvalid : s.Valid) (action : Action) :
    ∃ reply s', act target lib s action = .ok (reply, s') ∧ s'.Valid ∧
      s.meaning.spec target action reply s'.meaning := by
  cases action with
  | call c =>
      obtain ⟨reply, s', hexec, hvalid'⟩ := exec_valid target hlib hvalid c
      exact ⟨reply, s', hexec, hvalid', exec_implements hlib hconf hvalid c reply s' hexec⟩
  | write id offset byte => exact write_implements hvalid id offset byte

/-- A run from a valid state. -/
theorem trace_implements (target : Target) (hlib : lib.Documented) (hconf : lib.Confined)
    (hvalid : s.Valid) (actions : List Action) :
    ∃ replies s', trace (act target lib) s actions = .ok (replies, s') ∧ s'.Valid ∧
      SpecRun (Table.spec target) s.meaning actions replies s'.meaning :=
  trace_refines (fun _ action hvalid => act_implements target hlib hconf hvalid action) actions
    s hvalid

/-- A function that looks at a part of the state returns what the table says of it. -/
theorem State.ask_eq {α β γ : Type} {part : Option α} {program : α → Ffi σ β} {answer : β → Answer}
    {f : α → γ} {expected : γ → Answer}
    (h : ∀ a, part = some a → Ensures (program a) s.machine fun b _ =>
      answer b = expected (f a)) :
    s.ask part program answer = .ok ((part.map f).map expected) := by
  cases part with
  | none => rfl
  | some a =>
      obtain ⟨b, m, hprogram, hanswer⟩ := h a rfl
      simp only [State.ask, hprogram, hanswer, Option.map_some]

/-- In a valid state the table answers for the functions that only look. -/
theorem State.Valid.answer_eq (target : Target) (hvalid : s.Valid) (query : Query) :
    s.answer target query = .ok (s.meaning.answer target query) := by
  cases query with
  | imageWidth image | imageHeight image | imageRawDepth image =>
      simp only [State.answer, Table.answer, meaning_header]
      refine State.ask_eq fun i hi => ?_
      exact (ensures_image_read (hvalid.live_image hi).2 _).mono fun _ _ h => congrArg _ h.1
  | imageDepth image =>
      simp only [State.answer, Table.answer, meaning_header]
      refine State.ask_eq fun i hi => Ensures.map ?_
      refine (ensures_image_read (hvalid.live_image hi).2 AvifImage.depth).mono ?_
      rintro _ m ⟨rfl, -⟩
      rfl
  | rgbWidth rgb | rgbHeight rgb =>
      simp only [State.answer, Table.answer, meaning_bitmap]
      exact State.ask_eq fun r _ => Ensures.pure rfl
  | pixels rgb =>
      simp only [State.answer, Table.answer, meaning_bitmap]
      refine State.ask_eq fun r hr => ?_
      obtain ⟨-, ptr, -, hptr, -, hreadable⟩ := hvalid.readable_rgb hr
      refine (ensures_pixelView target hptr hreadable).mono ?_
      rintro result m ⟨rfl, hview⟩
      rw [← hview]
      cases result <;> rfl
  | maxThreads encoder | speed encoder | quality encoder =>
      simp only [State.answer, Table.answer, meaning_settings]
      refine State.ask_eq fun e he => ?_
      exact (ensures_encoder_read (hvalid.live_encoder he).2 _).mono fun _ _ h => congrArg _ h.1
  | asSlice data =>
      simp only [State.answer, Table.answer, meaning_data]
      refine State.ask_eq fun d hd => ?_
      obtain ⟨-, ptr, hptr, hlive⟩ := hvalid.live_data hd
      obtain ⟨⟨_, size⟩⟩ := d
      cases hptr
      refine (ensures_data_asSlice hlive).mono ?_
      rintro _ m ⟨rfl, rfl⟩
      rfl

/-- In every state that a run reaches, the functions that only look do not fault and
return what the meaning of the state says. -/
theorem answers_exact (target : Target) (hlib : lib.Documented) (hconf : lib.Confined)
    (hidden : σ) (actions : List Action) :
    ∃ replies s, trace (act target lib) (State.boot hidden) actions = .ok (replies, s) ∧
      ∀ query, s.answer target query = .ok (s.meaning.answer target query) := by
  obtain ⟨replies, s, htrace, hvalid, -⟩ :=
    trace_implements target hlib hconf (State.valid_boot hidden) actions
  exact ⟨replies, s, htrace, hvalid.answer_eq target⟩

theorem answers_exact_small :
    ∃ replies s, trace (act .release64 .small) (State.boot 0)
        [.call (.newBytes 100 4096 12), .write 0 3 7,
          .call (.borrowedNew 2 2 .b8 .rgb ⟨0, 0, 12⟩), .call (.fromRgb 1 .b8 .yuv420)] =
          .ok (replies, s) ∧
      ∀ query, s.answer .release64 query = .ok (s.meaning.answer .release64 query) :=
  answers_exact .release64 documented_small confined_small 0 _

end Favi

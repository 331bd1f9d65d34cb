import Favi.Transition
import Favi.Layout

/-!
# Every call is a transition

`exec_transition`: in a valid state a call does not fault, and what it does is one of
the transitions.  There is one lemma for each way in which `exec` is built up, and one
case for each call.

The lemmas of `Favi.Effects` ask for live objects.  Validity provides them: the values that
a call names are alive, so what they hold is allocated, and the bytes of an argument lie in
a region that is all there.  The leak is carried along as a proposition about the call, and
for every call but `toRgb` it is false by its definition.
-/

namespace Favi

open Custody Program

variable {σ : Type} {target : Target} {lib : Libavif σ} {s : State σ} {c : Call}

/-- The call does not fault, and it is a transition. -/
def Transits (lib : Libavif σ) (s : State σ) (c : Call) (outcome : Outcome σ) : Prop :=
  ∃ reply s' moves, outcome = .ok (reply, s') ∧ Transition lib s c moves s'

/-! ## The parts of `exec` -/

theorem transits_reject (hleak : ¬ LeaksAt lib s c) : Transits lib s c s.reject :=
  ⟨.rejected, s, [], rfl, .quiet .nothing hleak (.refl _)⟩

/-- A call on a value that may not be there. -/
theorem transits_elim {α : Type} {value : Option α} {next : α → Outcome σ}
    (hleak : value = none → ¬ LeaksAt lib s c)
    (h : ∀ a, value = some a → Transits lib s c (next a)) :
    Transits lib s c (value.elim s.reject next) := by
  cases value with
  | none => exact transits_reject (hleak rfl)
  | some a => exact h a rfl

section Consuming

variable (gone : Option ValueId) {tail : List (Event Handle Object)}
  {releases : List (Move ValueId Handle Object)}

/-- A call that takes a value, or none, and makes none. -/
theorem transits_without_observe {α : Type} {program : Ffi σ α} {reply : α → Reply}
    (hleak : ¬ LeaksAt lib s c) (hconsumes : Consumes s c gone tail releases)
    (h : Ensures program s.machine fun _ m' => s.machine.Steps tail m') :
    Transits lib s c ((s.without gone).observe program reply) := by
  obtain ⟨a, m, hprogram, hsteps⟩ := h
  refine ⟨reply a, (s.without gone).withMachine m, releases, ?_, .quiet hconsumes hleak hsteps⟩
  unfold State.observe
  rw [show (s.without gone).machine = s.machine from rfl, hprogram]

/-- A call that takes a value, or none, and makes one. -/
theorem transits_without_make {α : Type} {program : Ffi σ (Result α)} {wrap : α → Value}
    (hconsumes : Consumes s c gone tail releases)
    (h : Ensures program s.machine fun result m' =>
      Made (fun a => (wrap a).holds) (LeaksAt lib s c) tail s.machine result m' ∧
      ∀ a, result = .ok a → MadeBy lib s c (wrap a)) :
    Transits lib s c ((s.without gone).make program wrap) := by
  obtain ⟨result, m, hprogram, hmade, hby⟩ := h
  unfold State.make
  rw [show (s.without gone).machine = s.machine from rfl, hprogram]
  cases result with
  | ok a =>
      obtain ⟨hleak, handle, object, hholds, hsteps⟩ := hmade
      exact ⟨_, _, _, rfl, .made hconsumes hleak hholds (hby a rfl) hsteps⟩
  | error e =>
      rcases hmade with ⟨hleak, hsteps | ⟨handle, object, hsteps⟩⟩ | ⟨hleak, handle, object, hsteps⟩
      · exact ⟨_, _, _, rfl, .quiet hconsumes hleak hsteps⟩
      · exact ⟨_, _, _, rfl, .undone hconsumes hleak hsteps⟩
      · exact ⟨_, _, _, rfl, .leaked hconsumes hleak hsteps⟩

end Consuming

theorem transits_observe {α : Type} {program : Ffi σ α} {reply : α → Reply}
    (hleak : ¬ LeaksAt lib s c)
    (h : Ensures program s.machine fun _ m' => s.machine.Steps [] m') :
    Transits lib s c (s.observe program reply) :=
  transits_without_observe none hleak .nothing h

theorem transits_make {α : Type} {program : Ffi σ (Result α)} {wrap : α → Value}
    (hne : ∀ a rgb, wrap a ≠ .rgbImage rgb) (hleak : ¬ LeaksAt lib s c)
    (h : Ensures program s.machine (Made (fun a => (wrap a).holds) False [] s.machine)) :
    Transits lib s c (s.make program wrap) := by
  refine transits_without_make none .nothing (h.mono fun result m' hmade => ?_)
  rw [eq_false hleak]
  exact ⟨hmade, fun a _ rgb heq => absurd heq (hne a rgb)⟩

/-! ## Byte arguments -/

/-- What a value gives out as bytes are bytes it has. -/
theorem ensures_asBytes (hvalid : s.Valid) {id : ValueId} {value : Value}
    {program : Ffi σ (Option Slice)} (hvalue : s.values id = some value)
    (hprogram : value.asBytes? target = some program) :
    Ensures program s.machine fun result m' =>
      m' = s.machine ∧ ∀ slice, result = some slice → s.Provides id slice := by
  have hpixels : ∀ rgb, value.rgb? = some rgb → Ensures (rgb.pixels target) s.machine
      fun result m' => m' = s.machine ∧ ∀ slice, result = some slice → s.Provides id slice := by
    intro rgb hrgb
    have hfound : s.rgb? id = some rgb := by simp only [State.rgb?, hvalue, Option.bind_some, hrgb]
    obtain ⟨owner, ptr, howner, hptr, hregion, hreadable⟩ := hvalid.readable_rgb hfound
    refine (ensures_rgbImage_pixels target hptr hreadable).mono ?_
    rintro _ m' ⟨rfl, rfl⟩
    refine ⟨rfl, fun slice hslice => ?_⟩
    obtain ⟨len, hlen, rfl⟩ := Option.map_eq_some_iff.mp hslice
    exact ⟨owner, _, howner, hregion, Slice.within_of_len_le (toNat_pixelsLen_le hlen)⟩
  cases value with
  | image | decoder | encoder => cases hprogram
  | rgbImage | borrowed => cases hprogram; exact hpixels _ rfl
  | bytes slice =>
      cases hprogram
      refine Ensures.pure ⟨rfl, ?_⟩
      rintro _ ⟨⟩
      exact ⟨_, slice, hvalue, rfl, .refl slice⟩
  | data out =>
      cases hprogram
      have hfound : s.data? id = some out := by simp only [State.data?, hvalue]
      obtain ⟨-, ptr, hptr, hlive⟩ := hvalid.live_data hfound
      obtain ⟨⟨data, size⟩⟩ := out
      obtain rfl : data = some ptr := hptr
      refine Ensures.map ((ensures_data_asSlice hlive).mono ?_)
      rintro _ m' ⟨rfl, rfl⟩
      refine ⟨rfl, ?_⟩
      rintro _ ⟨⟩
      exact ⟨_, _, hvalue, rfl, .refl _⟩

theorem ensures_data_slice (hvalid : s.Valid) {id : ValueId} {data : Data}
    (hdata : s.data? id = some data) :
    Ensures data.asSlice s.machine fun _ m' => s.machine.Steps [] m' := by
  obtain ⟨-, ptr, hptr, hlive⟩ := hvalid.live_data hdata
  obtain ⟨⟨_, size⟩⟩ := data
  cases hptr
  refine (ensures_data_asSlice hlive).mono ?_
  rintro _ m' ⟨-, rfl⟩
  exact .refl _

/-- A call with a byte argument. -/
theorem transits_withBytes (hvalid : s.Valid) (hleak : ¬ LeaksAt lib s c) {source : Source}
    {next : State σ → Slice → Outcome σ}
    (h : ∀ slice, s.Provides source.id slice → Transits lib s c (next s slice)) :
    Transits lib s c (s.withBytes target source next) := by
  unfold State.withBytes
  cases hbytes : (s.values source.id).bind (Value.asBytes? target) with
  | none => exact transits_reject hleak
  | some program =>
      obtain ⟨value, hvalue, hprogram⟩ := Option.bind_eq_some_iff.mp hbytes
      obtain ⟨result, m, hrun, rfl, hprovides⟩ := ensures_asBytes hvalid hvalue hprogram
      have hpanic : Transits lib s c (.ok (.panicked, s)) :=
        ⟨_, _, _, rfl, .quiet .nothing hleak (.refl _)⟩
      simp only [hrun]
      cases result with
      | none => exact hpanic
      | some slice =>
          simp only
          cases hsub : slice.sub? source.start source.len with
          | none => exact hpanic
          | some sub =>
              obtain ⟨value, region, hvalue, hregion, hwithin⟩ := hprovides slice rfl
              exact h sub ⟨value, region, hvalue, hregion,
                (Slice.within_of_sub? hsub).trans hwithin⟩

/-- `BorrowedRgbImage::new` over bytes of a live value. -/
theorem transits_borrowedNew {width height : UInt32} {depth : BitDepth} {format : RgbFormat}
    {lender : ValueId} {slice : Slice} (hleak : ¬ LeaksAt lib s c)
    (hprovides : s.Provides lender slice) :
    Transits lib s c (match BorrowedRgbImage.new target width height depth format slice with
      | .ok image => .ok (.done, s.push (.borrowed image lender))
      | .error error => .ok (.err error, s)) := by
  cases hnew : BorrowedRgbImage.new target width height depth format slice with
  | error e => exact ⟨_, _, _, rfl, .quiet .nothing hleak (.refl _)⟩
  | ok image =>
      -- an accepted image covers no more than the bytes it was given
      have haccepted := accepted_of_new_eq_ok hnew
      obtain ⟨value, region, hvalue, hregion, hwithin⟩ := hprovides
      have hinner : (Value.borrowed image lender).region =
          some ⟨slice.ptr, declaredBytes width height depth format⟩ := by
        simp only [Value.region, haccepted.pixels_eq, Option.map_some, haccepted.bufferBytes]
      refine ⟨_, _, _, rfl, .lent hleak hinner ⟨value, region, hvalue, hregion, ?_⟩ ?_⟩
      · exact (Slice.within_of_len_le haccepted.enough).trans hwithin
      · rw [haccepted.bufferBytes]
        exact haccepted.fits

/-! ## Every call -/

/-- A drop frees what the value owns; a `BorrowedRgbImage` owns nothing. -/
theorem transits_drop (hlib : lib.Documented) (hvalid : s.Valid) {id : ValueId} {value : Value}
    (hvalue : s.values id = some value) (hlent : s.isLent id = false) :
    Transits lib s (.drop id) ((s.erase id).observe (value.drop lib) replyDone) := by
  rcases hvalid.wellFormed.owns id value hvalue with ⟨handle, object, hholds⟩ | ⟨rgb, lender, rfl⟩
  · exact transits_without_observe (some id) nofun
      (.owner id value handle object hvalue hlent hholds (Or.inl rfl))
      (ensures_value_drop hlib hholds (hvalid.live_of_holds hvalue hholds))
  · exact transits_without_observe (some id) nofun (.view id rgb lender hvalue hlent rfl)
      (Ensures.pure (.refl _))

/-- `encode` and `finish`: an encoder has no bytes, so it is never lent. -/
theorem transits_collect (hvalid : s.Valid) {id : ValueId} {encoder : Encoder}
    {program : Ffi σ (Result Data)} (hencoder : s.encoder? id = some encoder)
    (hleak : ¬ LeaksAt lib s c)
    (h : Ensures program s.machine (Made (fun data => (Value.data data).holds) False
      [.free encoder.raw .encoder] s.machine)) :
    Transits lib s c ((s.erase id).make program .data) := by
  obtain ⟨hvalue, -⟩ := hvalid.live_encoder hencoder
  have hlent := hvalid.wellFormed.not_isLent hvalue rfl
  have hconsumes : Consumes s c (some id) _ _ :=
    .owner id _ encoder.raw .encoder hvalue hlent rfl (Or.inr ⟨encoder, rfl⟩)
  refine transits_without_make (some id) hconsumes (h.mono fun result m' hmade => ?_)
  rw [eq_false hleak]
  exact ⟨hmade, fun data _ => nofun⟩

/-- In a valid state every call is a transition; in particular it does not fault. -/
theorem exec_transition (target : Target) (hlib : lib.Documented) (hvalid : s.Valid) (c : Call) :
    Transits lib s c (exec target lib s c) := by
  cases c with
  | newBytes block addr len =>
      simp only [exec]
      split
      · next hfresh =>
        exact ⟨_, _, _, rfl, .made .nothing nofun rfl (fun _ => nofun) (.of_alloc hfresh rfl rfl)⟩
      · exact transits_reject nofun
  | imageEmpty =>
      exact transits_make nofun nofun (ensures_image_empty hlib s.machine)
  | imageNew width height depth format =>
      exact transits_make nofun nofun
        (ensures_image_new hlib width height depth format s.machine)
  | decoderNew =>
      exact transits_make nofun nofun (ensures_decoder_new hlib s.machine)
  | encoderNew =>
      exact transits_make nofun nofun (ensures_encoder_new hlib s.machine)
  | imageWidth image | imageHeight image | imageRawDepth image =>
      refine transits_elim (fun _ => nofun) fun i hi => transits_observe nofun ?_
      exact (ensures_image_read (hvalid.live_image hi).2 _).mono fun _ _ h => h.2
  | imageDepth image =>
      refine transits_elim (fun _ => nofun) fun i hi => transits_observe nofun ?_
      exact ensures_image_depth (hvalid.live_image hi).2
  | toRgb image depth format =>
      -- the one call that can leave its allocation behind
      refine transits_elim ?_ fun i hi => transits_without_make none .nothing ?_
      · rintro hnone ⟨i, hi, -⟩
        rw [hnone] at hi
        cases hi
      · have hleaks : LeaksAt lib s (.toRgb image depth format) ↔
            ConversionFails lib i depth format s.machine.world := by
          simp [LeaksAt, hi]
        refine (ensures_fromImage hlib (hvalid.live_image hi).2 depth format).mono ?_
        rintro result m' ⟨hmade, hconverted, hiff⟩
        rw [propext hleaks]
        refine ⟨hmade, ?_⟩
        rintro rgb hok _ ⟨⟩
        exact ⟨image, depth, format, i, rfl, hi, hiff.mp ⟨rgb, hok⟩, hconverted rgb hok⟩
  | fromRgb rgb depth format =>
      refine transits_elim (fun _ => nofun) fun r hr => transits_make nofun nofun ?_
      obtain ⟨-, ptr, -, hptr, -, hreadable⟩ := hvalid.readable_rgb hr
      exact ensures_toImage hlib hptr hreadable depth format
  | pixels rgb =>
      refine transits_elim (fun _ => nofun) fun r hr => transits_observe nofun ?_
      obtain ⟨-, ptr, -, hptr, -, hreadable⟩ := hvalid.readable_rgb hr
      refine (ensures_rgbImage_pixels target hptr hreadable).mono ?_
      rintro _ m' ⟨rfl, -⟩
      exact .refl _
  | borrowedNew width height depth format pixels =>
      -- `exec` makes the borrow from the bytes themselves, without the machine
      have hleak : ¬ LeaksAt lib s (.borrowedNew width height depth format pixels) := nofun
      simp only [exec]
      refine transits_withBytes hvalid hleak fun slice hprovides => ?_
      exact transits_borrowedNew nofun hprovides
  | decode decoder data =>
      have hleak : ¬ LeaksAt lib s (.decode decoder data) := nofun
      refine transits_elim (fun _ => hleak) fun d hd => transits_withBytes hvalid hleak ?_
      intro slice hprovides
      exact transits_make nofun nofun
        (ensures_decode hlib (hvalid.live_decoder hd).2 (hvalid.readable_of_provides hprovides))
  | setMaxThreads encoder | setSpeed encoder | setQuality encoder =>
      refine transits_elim (fun _ => nofun) fun e he => transits_observe nofun ?_
      exact (ensures_encoder_write (hvalid.live_encoder he).2 _).mono fun _ _ h => h.2
  | maxThreads encoder | speed encoder | quality encoder =>
      refine transits_elim (fun _ => nofun) fun e he => transits_observe nofun ?_
      exact (ensures_encoder_read (hvalid.live_encoder he).2 _).mono fun _ _ h => h.2
  | addImage encoder image duration flags =>
      refine transits_elim (fun _ => nofun) fun e he => transits_elim (fun _ => nofun) ?_
      intro i hi
      exact transits_observe nofun
        (ensures_addImage hlib (hvalid.live_encoder he).2 (hvalid.live_image hi).2 duration flags)
  | encode encoder image =>
      refine transits_elim (fun _ => nofun) fun e he => transits_elim (fun _ => nofun) ?_
      intro i hi
      exact transits_collect hvalid he nofun
        (ensures_encode hlib (hvalid.live_encoder he).2 (hvalid.live_image hi).2)
  | finish encoder =>
      refine transits_elim (fun _ => nofun) fun e he => transits_collect hvalid he nofun ?_
      exact ensures_finish hlib (hvalid.live_encoder he).2
  | asSlice data =>
      refine transits_elim (fun _ => nofun) fun d hd => transits_observe nofun ?_
      exact ensures_data_slice hvalid hd
  | asMutSlice data =>
      refine transits_elim (fun _ => nofun) fun d hd => ?_
      -- a mutable slice is refused while the bytes are lent
      split
      · exact transits_reject nofun
      · exact transits_observe nofun (ensures_data_slice hvalid hd)
  | drop id =>
      refine transits_elim (fun _ => nofun) fun value hvalue => ?_
      split
      · exact transits_reject nofun
      · next hlent => exact transits_drop hlib hvalid hvalue (Bool.eq_false_iff.mpr hlent)

end Favi

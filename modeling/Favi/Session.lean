import Favi.Codec

/-!
# Sessions: safe programs that use the crate

A user of the crate holds values: the wrappers, and byte buffers of its own.  A
session is a sequence of calls of the safe API on those values, drops included.
`exec` makes one call; a list of calls is run by `Program.run`.

What the type checker and the borrow checker refuse never reaches the crate, so `exec`
answers `rejected` to it and changes nothing.  That covers a call on a value of the
wrong type or that is gone, and dropping or writing a value while a `BorrowedRgbImage`
still borrows its bytes.  Every list of calls is therefore a session, and every
session of a real program is one of them.

Two things that happen between calls are made visible this way.  A drop is a call like the
others, because it runs code of the crate; and the user's own buffers are values, with an
allocation of their own in the ledger, because a `BorrowedRgbImage` and the decoder read
them.  `newBytes` makes one in any block that was never used, at any address.
-/

namespace Favi

open Custody

/-- Values are named in the order in which they come into being; no name is used twice. -/
abbrev ValueId := ℕ

/-- A value in the hands of the user. -/
inductive Value where
  | image (image : Image)
  | rgbImage (image : RgbImage)
  /-- A `BorrowedRgbImage`, and the value whose bytes it borrows. -/
  | borrowed (image : BorrowedRgbImage) (lender : ValueId)
  | decoder (decoder : Decoder)
  | encoder (encoder : Encoder)
  | data (data : Data)
  /-- A byte buffer of the user's own. -/
  | bytes (slice : Slice)

/-- What a value owns: what its `Drop` frees. -/
def Value.holds : Value → Option (Handle × Object)
  | .image img => some (img.raw, .image)
  | .rgbImage rgb => rgb.raw.pixels.map fun ptr =>
      (ptr.block, .buffer .rgbPixels ptr.addr rgb.raw.bufferBytes)
  | .borrowed _ _ => none
  | .decoder dec => some (dec.raw, .decoder)
  | .encoder enc => some (enc.raw, .encoder)
  | .data out => out.raw.data.map fun ptr => (ptr.block, .buffer .rwData ptr.addr out.raw.size)
  | .bytes slice => some (slice.ptr.block, .buffer .caller slice.ptr.addr slice.len)

/-- The `&RgbImage` of a value, if it is one or derefs to one. -/
def Value.rgb? : Value → Option RgbImage
  | .rgbImage rgb => some rgb
  | .borrowed rgb _ => some rgb.deref
  | _ => none

variable {σ : Type}

/-- The bytes that a value gives out as a `&[u8]`, if its type does. -/
def Value.asBytes? (target : Target) : Value → Option (Ffi σ (Option Slice))
  | .rgbImage rgb => some (rgb.pixels target)
  | .borrowed rgb _ => some (rgb.deref.pixels target)
  | .data out => some (some <$> out.asSlice)
  | .bytes slice => some (pure (some slice))
  | .image _ | .decoder _ | .encoder _ => none

/-- The end of a value's life.  A `BorrowedRgbImage` wraps a `ManuallyDrop`; a byte
buffer goes back to the user's allocator. -/
def Value.drop (lib : Libavif σ) : Value → Ffi σ Unit
  | .image img => img.drop lib
  | .rgbImage rgb => rgb.drop lib
  | .borrowed _ _ => pure ()
  | .decoder dec => dec.drop lib
  | .encoder enc => enc.drop lib
  | .data out => out.drop lib
  | .bytes slice =>
      freeBuffer .caller
        (fun w => { w with ledger := Function.update w.ledger slice.ptr.block .freed })
        (some slice.ptr)

/-! ## States -/

/-- The machine, and the values alive.  `next` names the next value. -/
structure State (σ : Type) where
  machine : Machine σ
  values : ValueId → Option Value
  next : ValueId

namespace State

/-- The start of a program: nothing allocated, no values. -/
def boot (hidden : σ) : State σ where
  machine := ⟨World.boot hidden, []⟩
  values _ := none
  next := 0

/-- The allocations of the machine. -/
def ledger (s : State σ) : Ledger Handle Object := s.machine.world.ledger

/-- Who owns what: the ledger, and for each name what the value under it holds. -/
def books (s : State σ) : Books ValueId Handle Object where
  ledger := s.ledger
  holds id := (s.values id).bind Value.holds

/-- The same values after something was done to the machine. -/
def withMachine (s : State σ) (machine : Machine σ) : State σ := { s with machine := machine }

/-- A new value, under the next name. -/
def push (s : State σ) (value : Value) : State σ where
  machine := s.machine
  values := Function.update s.values s.next (some value)
  next := s.next + 1

/-- The value is gone from the user's hands; its drop is a program of its own. -/
def erase (s : State σ) (id : ValueId) : State σ where
  machine := s.machine
  values := Function.update s.values id none
  next := s.next

/-- Some `BorrowedRgbImage` borrows the bytes of `id`. -/
def isLent (s : State σ) (id : ValueId) : Bool :=
  (List.range s.next).any fun other =>
    match s.values other with
    | some (.borrowed _ lender) => lender == id
    | _ => false

/-- The value `id`, if it is an `Image`. -/
def image? (s : State σ) (id : ValueId) : Option Image :=
  match s.values id with
  | some (.image image) => some image
  | _ => none

/-- The value `id`, if it is or derefs to an `RgbImage`. -/
def rgb? (s : State σ) (id : ValueId) : Option RgbImage := (s.values id).bind Value.rgb?

/-- The value `id`, if it is a `Decoder`. -/
def decoder? (s : State σ) (id : ValueId) : Option Decoder :=
  match s.values id with
  | some (.decoder decoder) => some decoder
  | _ => none

/-- The value `id`, if it is an `Encoder`. -/
def encoder? (s : State σ) (id : ValueId) : Option Encoder :=
  match s.values id with
  | some (.encoder encoder) => some encoder
  | _ => none

/-- The value `id`, if it is a `Data`. -/
def data? (s : State σ) (id : ValueId) : Option Data :=
  match s.values id with
  | some (.data data) => some data
  | _ => none

end State

/-! ## Calls -/

/-- A `&[u8]` argument: a range of the bytes of a value. -/
structure Source where
  id : ValueId
  start : ℕ
  len : ℕ

/-- A call of the safe API. -/
inductive Call where
  | newBytes (block : Handle) (addr len : ℕ)
  | imageEmpty
  | imageNew (width height : UInt32) (depth : BitDepth) (format : PixelFormat)
  | imageWidth (image : ValueId)
  | imageHeight (image : ValueId)
  | imageRawDepth (image : ValueId)
  | imageDepth (image : ValueId)
  | toRgb (image : ValueId) (depth : BitDepth) (format : RgbFormat)
  | fromRgb (rgb : ValueId) (depth : BitDepth) (format : PixelFormat)
  | pixels (rgb : ValueId)
  | borrowedNew (width height : UInt32) (depth : BitDepth) (format : RgbFormat) (pixels : Source)
  | decoderNew
  | decode (decoder : ValueId) (data : Source)
  | encoderNew
  | setMaxThreads (encoder : ValueId) (maxThreads : Int32)
  | maxThreads (encoder : ValueId)
  | setSpeed (encoder : ValueId) (speed : Int32)
  | speed (encoder : ValueId)
  | setQuality (encoder : ValueId) (quality : Int32)
  | quality (encoder : ValueId)
  | addImage (encoder image : ValueId) (durationInTimescales : UInt64) (flags : AddImageFlags)
  | encode (encoder image : ValueId)
  | finish (encoder : ValueId)
  | asSlice (data : ValueId)
  | asMutSlice (data : ValueId)
  | drop (id : ValueId)

/-- How a call ends.  A call that makes a value leaves it under the name `next`. -/
inductive Reply where
  | done
  | err (error : Error)
  | panicked
  | rejected
deriving DecidableEq

/-- A call faults, or it ends with a reply in a new state. -/
abbrev Outcome (σ : Type) := Except Fault (Reply × State σ)

namespace State

/-- A call that would not compile; nothing happens. -/
def reject (s : State σ) : Outcome σ := .ok (.rejected, s)

/-- Run a program that makes a value. -/
def make {α : Type} (s : State σ) (program : Ffi σ (Result α)) (wrap : α → Value) : Outcome σ :=
  match program s.machine with
  | .error fault => .error fault
  | .ok (.ok a, m) => .ok (.done, (s.withMachine m).push (wrap a))
  | .ok (.error error, m) => .ok (.err error, s.withMachine m)

/-- Run a program that makes no value. -/
def observe {α : Type} (s : State σ) (program : Ffi σ α) (reply : α → Reply) : Outcome σ :=
  match program s.machine with
  | .error fault => .error fault
  | .ok (a, m) => .ok (reply a, s.withMachine m)

/-- Take the bytes that a `&[u8]` argument names and go on with them. A value without bytes does
not compile; `pixels` of an image of 4 GiB and a range past the end panic. -/
def withBytes (target : Target) (s : State σ) (source : Source)
    (next : State σ → Slice → Outcome σ) : Outcome σ :=
  match (s.values source.id).bind (Value.asBytes? target) with
  | none => s.reject
  | some program =>
      match program s.machine with
      | .error fault => .error fault
      | .ok (none, m) => .ok (.panicked, s.withMachine m)
      | .ok (some slice, m) =>
          match slice.sub? source.start source.len with
          | none => .ok (.panicked, s.withMachine m)
          | some sub => next (s.withMachine m) sub

end State

/-- The reply of a function whose result the user only looks at. -/
def replyDone {α : Type} : α → Reply := fun _ => .done

/-- The reply of `pixels`. -/
def replyView : Option Slice → Reply
  | some _ => .done
  | none => .panicked

/-- The reply of a function that returns a `Result`. -/
def replyResult {α : Type} : Result α → Reply
  | .ok _ => .done
  | .error error => .err error

/-- One call. Each branch finds the values that the call names, rejects it when one of them is
not there, and runs the program of that function; `encode`, `finish` and `drop` take their value
by move, so it is erased before its program runs. -/
def exec (target : Target) (lib : Libavif σ) (s : State σ) : Call → Outcome σ
  | .newBytes block addr len =>
      -- the user's allocator, which gives out no block that was ever used
      if s.ledger block = .fresh then
        .ok (.done, (s.withMachine { s.machine with
          world.ledger := Function.update s.ledger block
            (.live (.buffer .caller addr len)) }).push (.bytes ⟨⟨block, addr⟩, len⟩))
      else s.reject
  | .imageEmpty => s.make (Image.empty lib) .image
  | .imageNew width height depth format => s.make (Image.new lib width height depth format) .image
  | .imageWidth image => (s.image? image).elim s.reject fun i => s.observe i.width replyDone
  | .imageHeight image => (s.image? image).elim s.reject fun i => s.observe i.height replyDone
  | .imageRawDepth image => (s.image? image).elim s.reject fun i => s.observe i.rawDepth replyDone
  | .imageDepth image => (s.image? image).elim s.reject fun i => s.observe i.depth replyResult
  | .toRgb image depth format =>
      (s.image? image).elim s.reject fun i => s.make (i.toRgb lib depth format) .rgbImage
  | .fromRgb rgb depth format =>
      (s.rgb? rgb).elim s.reject fun r => s.make (Image.fromRgb lib r depth format) .image
  | .pixels rgb => (s.rgb? rgb).elim s.reject fun r => s.observe (r.pixels target) replyView
  | .borrowedNew width height depth format pixels =>
      s.withBytes target pixels fun s slice =>
        match BorrowedRgbImage.new target width height depth format slice with
        | .ok image => .ok (.done, s.push (.borrowed image pixels.id))
        | .error error => .ok (.err error, s)
  | .decoderNew => s.make (Decoder.new lib) .decoder
  | .decode decoder data =>
      (s.decoder? decoder).elim s.reject fun d =>
        s.withBytes target data fun s slice => s.make (d.decode lib slice) .image
  | .encoderNew => s.make (Encoder.new lib) .encoder
  | .setMaxThreads encoder maxThreads =>
      (s.encoder? encoder).elim s.reject fun e => s.observe (e.setMaxThreads maxThreads) replyDone
  | .maxThreads encoder =>
      (s.encoder? encoder).elim s.reject fun e => s.observe e.maxThreads replyDone
  | .setSpeed encoder speed =>
      (s.encoder? encoder).elim s.reject fun e => s.observe (e.setSpeed speed) replyDone
  | .speed encoder => (s.encoder? encoder).elim s.reject fun e => s.observe e.speed replyDone
  | .setQuality encoder quality =>
      (s.encoder? encoder).elim s.reject fun e => s.observe (e.setQuality quality) replyDone
  | .quality encoder => (s.encoder? encoder).elim s.reject fun e => s.observe e.quality replyDone
  | .addImage encoder image durationInTimescales flags =>
      (s.encoder? encoder).elim s.reject fun e =>
        (s.image? image).elim s.reject fun i =>
          s.observe (e.addImage lib i durationInTimescales flags) replyResult
  | .encode encoder image =>
      -- `self` is taken by value: whatever comes out, the user no longer has the encoder
      (s.encoder? encoder).elim s.reject fun e =>
        (s.image? image).elim s.reject fun i => (s.erase encoder).make (e.encode lib i) .data
  | .finish encoder =>
      (s.encoder? encoder).elim s.reject fun e => (s.erase encoder).make (e.finish lib) .data
  | .asSlice data => (s.data? data).elim s.reject fun d => s.observe d.asSlice replyDone
  | .asMutSlice data =>
      -- `&mut self` while a `BorrowedRgbImage` borrows it does not compile
      (s.data? data).elim s.reject fun d =>
        if s.isLent data then s.reject else s.observe d.asMutSlice replyDone
  | .drop id =>
      (s.values id).elim s.reject fun value =>
        if s.isLent id then s.reject else (s.erase id).observe (value.drop lib) replyDone

end Favi

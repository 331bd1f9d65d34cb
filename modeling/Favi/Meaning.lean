import Favi.Views

/-!
# What a session means

The abstract model of the crate: a table of values without any memory.  An image is its
header, an RGB image its pixels, an encoder its settings, encoded data its bytes.
`Table.spec` says which replies a call may give and what it does to the table.  It is a
relation, because libavif decides which conversions fail and which bytes come out, but
everything else is fixed: what a new value looks like, which errors a call can report,
and that nothing but the value a call is about changes.

Besides the calls of the crate a user writes to bytes through `&mut [u8]`, to a `Data` or
to a buffer of its own; `Action` adds this to the calls.  `State.meaning` reads the table
off a state, and `State.answer` is what the functions return that only look.

The table is simpler than the memory in three ways, and each of them is something to prove.

* Values own their contents: a write to one is no write to another, although a borrowed
  image and its lender share bytes in memory.  The borrow keeps its lender from being
  written to, so the copy in the table stays true.
* There is nothing to free.  A value that is dropped is gone from the table, and whether
  its memory is freed is the business of `Favi.Ownership`.
* Contents outlive errors: a call that fails leaves every other item as it was, and says
  which errors it can fail with.
-/

namespace Favi

variable {σ : Type}

/-! ## Items -/

/-- An RGB image, as its user sees it. -/
structure Bitmap where
  width : UInt32
  height : UInt32
  depth : UInt32
  format : AvifRGBFormat
  bytes : List UInt8

/-- A value, as its user sees it. -/
inductive Item where
  | image (header : AvifImage)
  | rgbImage (bitmap : Bitmap)
  | borrowed (bitmap : Bitmap) (lender : ValueId)
  | decoder
  | encoder (settings : AvifEncoder)
  | data (content : List UInt8)
  | bytes (content : List UInt8)

namespace Item

/-- The header of an image. -/
def header? : Item → Option AvifImage
  | .image header => some header
  | _ => none

/-- The pixels of an RGB image, owned or borrowed. -/
def bitmap? : Item → Option Bitmap
  | .rgbImage bitmap | .borrowed bitmap _ => some bitmap
  | _ => none

/-- Whether the item is a decoder; there is nothing more to say about one. -/
def decoder? : Item → Option Unit
  | .decoder => some ()
  | _ => none

/-- The settings of an encoder. -/
def settings? : Item → Option AvifEncoder
  | .encoder settings => some settings
  | _ => none

/-- The bytes of encoded data. -/
def data? : Item → Option (List UInt8)
  | .data content => some content
  | _ => none

/-- The bytes that a user can write to, and how to put others in their place. -/
def writable? : Item → Option (List UInt8 × (List UInt8 → Item))
  | .data content => some (content, .data)
  | .bytes content => some (content, .bytes)
  | _ => none

end Item

/-- What `pixels` shows of a pixel buffer: all of it below 4 GiB, otherwise what is left
of its length in 32 bits, or a panic. -/
def pixelView (target : Target) (bytes : List UInt8) : Option (List UInt8) :=
  if bytes.length < 2 ^ 32 then some bytes
  else if target.overflowChecks then none
  else some (bytes.take (bytes.length % 2 ^ 32))

/-- The `&[u8]` of an item, if it has one; the inner `none` is a panic. -/
def Item.view? (target : Target) : Item → Option (Option (List UInt8))
  | .rgbImage bitmap | .borrowed bitmap _ => some (pixelView target bitmap.bytes)
  | .data content | .bytes content => some (some content)
  | .image _ | .decoder | .encoder _ => none

/-! ## Tables -/

/-- The items in the user's hands, by name, and the next name. -/
structure Table where
  items : ValueId → Option Item
  next : ValueId

/-- The replies a step may give, with the tables it may lead to. -/
abbrev Effect := Reply → Table → Prop

namespace Table

/-- The table at the start. -/
def empty : Table := ⟨fun _ => none, 0⟩

/-- A new item, under the next name. -/
def push (t : Table) (item : Item) : Table :=
  ⟨Function.update t.items t.next (some item), t.next + 1⟩

/-- Another item under a name that is there, or none any more. -/
def set (t : Table) (id : ValueId) (item : Option Item) : Table :=
  ⟨Function.update t.items id item, t.next⟩

/-- Some borrowed image shows bytes of `id`. -/
def isLent (t : Table) (id : ValueId) : Bool :=
  (List.range t.next).any fun other =>
    match t.items other with
    | some (.borrowed _ lender) => lender == id
    | _ => false

/-- Nothing changes. -/
def replies (t : Table) (expected : Reply) : Effect :=
  fun reply t' => reply = expected ∧ t' = t

/-- The call continues with what `part` finds in an item; without it, it is rejected. -/
def needs {α : Type} (t : Table) (id : ValueId) (part : Item → Option α) (next : α → Effect) :
    Effect :=
  ((t.items id).bind part).elim (t.replies .rejected) next

/-- A new item, or an error. -/
def makes (t : Table) (errors : Error → Prop) (item : Item → Prop) : Effect :=
  fun reply t' =>
    (reply = .done ∧ ∃ i, item i ∧ t' = t.push i) ∨ ∃ e, errors e ∧ reply = .err e ∧ t' = t

end Table

/-! ## Actions -/

/-- What the user does: a call of the crate, or a write through a `&mut [u8]`. -/
inductive Action where
  | call (call : Call)
  | write (id : ValueId) (offset : ℕ) (byte : UInt8)

/-! ## The specification -/

namespace Table

/-- A call with a `&[u8]` argument. -/
def withBytes (target : Target) (t : Table) (source : Source) (next : List UInt8 → Effect) :
    Effect :=
  t.needs source.id (Item.view? target) fun view =>
    view.elim (t.replies .panicked) fun bytes =>
      if source.start + source.len ≤ bytes.length then
        next ((bytes.drop source.start).take source.len)
      else
        t.replies .panicked

/-- `BorrowedRgbImage::new`.  Items have no address, so at more than 8 bits the buffer may
always turn out to be misaligned. -/
def borrows (t : Table) (width height : UInt32) (depth : BitDepth) (format : RgbFormat)
    (lender : ValueId) (bytes : List UInt8) : Effect :=
  let required := declaredBytes width height depth format
  fun reply t' =>
    -- the three refusals in the order of the source
    (depth ≠ .b8 ∧ t.replies (.err (.misalignedBuffer 2)) reply t') ∨
    if Overflows width height depth format then t.replies (.err .sizeOverflow) reply t'
    else if bytes.length < required then
      t.replies (.err (.bufferTooSmall required bytes.length)) reply t'
    else
      t.makes (fun _ => False) (· = .borrowed
        ⟨width, height, depth.bits, format.raw, bytes.take required⟩ lender) reply t'

/-- A setter of an encoder. -/
def sets (t : Table) (encoder : ValueId) (update : AvifEncoder → AvifEncoder) : Effect :=
  t.needs encoder Item.settings? fun settings =>
    (t.set encoder (some (.encoder (update settings)))).replies .done

/-- A function that only looks at an item. -/
def observes {α : Type} (t : Table) (id : ValueId) (part : Item → Option α) : Effect :=
  t.needs id part fun _ => t.replies .done

/-- `encode` and `finish`, which consume the encoder. -/
def collects (t : Table) (encoder : ValueId) : Effect :=
  (t.set encoder none).makes (fun e => CodeError e ∨ e = .emptyOutput)
    fun item => ∃ bytes, item = .data bytes

/-- What each call may do. The order of the `needs` is the order in which `exec` looks for the
values; past them, only the replies of libavif and the bytes it makes are left open. -/
def specCall (target : Target) (t : Table) : Call → Effect
  | .newBytes _ _ len => fun reply t' =>
      -- the table has no addresses, so it cannot tell whether the block is free
      t.replies .rejected reply t' ∨
        t.makes (fun _ => False) (fun item => ∃ bytes, bytes.length = len ∧ item = .bytes bytes)
          reply t'
  | .imageEmpty => t.makes (· = .allocationFailed) fun item => ∃ header, item = .image header
  | .imageNew width height depth _ =>
      t.makes (· = .allocationFailed) (· = .image ⟨width, height, depth.bits⟩)
  | .imageWidth image | .imageHeight image | .imageRawDepth image =>
      t.observes image Item.header?
  | .imageDepth image =>
      t.needs image Item.header? fun header =>
        t.replies (replyResult (BitDepth.tryFrom header.depth))
  | .toRgb image depth format =>
      t.needs image Item.header? fun header => t.makes CodeError fun item =>
        ∃ bytes, bytes.length = convertedBytes header depth format ∧
          item = .rgbImage ⟨header.width, header.height, depth.bits, format.raw, bytes⟩
  | .fromRgb rgb depth _ =>
      t.needs rgb Item.bitmap? fun bitmap =>
        t.makes (fun e => e = .allocationFailed ∨ CodeError e)
          (· = .image ⟨bitmap.width, bitmap.height, depth.bits⟩)
  | .pixels rgb =>
      t.needs rgb Item.bitmap? fun bitmap =>
        t.replies (if (pixelView target bitmap.bytes).isSome then .done else .panicked)
  | .borrowedNew width height depth format pixels =>
      t.withBytes target pixels (t.borrows width height depth format pixels.id)
  | .decoderNew => t.makes (· = .allocationFailed) (· = .decoder)
  | .decode decoder data =>
      t.needs decoder Item.decoder? fun _ => t.withBytes target data fun _ =>
        t.makes (fun e => e = .allocationFailed ∨ CodeError e)
          fun item => ∃ header, item = .image header
  | .encoderNew =>
      t.makes (· = .allocationFailed) fun item => ∃ settings, item = .encoder settings
  | .setMaxThreads encoder maxThreads =>
      t.sets encoder fun settings => { settings with maxThreads := maxThreads }
  | .setSpeed encoder speed => t.sets encoder fun settings => { settings with speed := speed }
  | .setQuality encoder quality =>
      t.sets encoder fun settings => { settings with quality := quality }
  | .maxThreads encoder | .speed encoder | .quality encoder => t.observes encoder Item.settings?
  | .addImage encoder image _ _ =>
      t.needs encoder Item.settings? fun _ => t.needs image Item.header? fun _ =>
        fun reply t' => t.replies .done reply t' ∨ ∃ e, CodeError e ∧ t.replies (.err e) reply t'
  | .encode encoder image =>
      t.needs encoder Item.settings? fun _ => t.needs image Item.header? fun _ =>
        t.collects encoder
  | .finish encoder => t.needs encoder Item.settings? fun _ => t.collects encoder
  | .asSlice data => t.observes data Item.data?
  | .asMutSlice data =>
      t.needs data Item.data? fun _ => t.replies (if t.isLent data then .rejected else .done)
  | .drop id =>
      t.needs id some fun _ =>
        if t.isLent id then t.replies .rejected else (t.set id none).replies .done

/-- A write to the byte at `offset`, refused while the bytes are lent. -/
def specWrite (t : Table) (id : ValueId) (offset : ℕ) (byte : UInt8) : Effect :=
  t.needs id Item.writable? fun (bytes, wrap) =>
    if t.isLent id then t.replies .rejected
    else if offset < bytes.length then
      (t.set id (some (wrap (bytes.set offset byte)))).replies .done
    else t.replies .panicked

/-- What each action may do. -/
def spec (target : Target) (t : Table) : Action → Effect
  | .call c => t.specCall target c
  | .write id offset byte => t.specWrite id offset byte

end Table

/-! ## Writing on the machine -/

/-- The `&mut [u8]` of a value, if its type has one. -/
def Value.asBytesMut? : Value → Option (Ffi σ Slice)
  | .data out => some out.asMutSlice
  | .bytes slice => some (pure slice)
  | _ => none

/-- `slice[offset] = byte`, within the slice. -/
def Machine.store (m : Machine σ) (slice : Slice) (offset : ℕ) (byte : UInt8) : Machine σ :=
  { m with
    world.bytes := Function.update m.world.bytes slice.ptr.block
      (Function.update (m.world.bytes slice.ptr.block) (slice.ptr.addr + offset) byte) }

/-- A write through the `&mut [u8]` of a value. The slice is taken first, so the machine goes
through `as_mut_slice`; an offset past the end panics. -/
def State.write (s : State σ) (id : ValueId) (offset : ℕ) (byte : UInt8) : Outcome σ :=
  match (s.values id).bind Value.asBytesMut? with
  | none => s.reject
  | some program =>
      if s.isLent id then s.reject
      else
        match program s.machine with
        | .error fault => .error fault
        | .ok (slice, m) =>
            if offset < slice.len then .ok (.done, s.withMachine (m.store slice offset byte))
            else .ok (.panicked, s.withMachine m)

/-- One action. -/
def act (target : Target) (lib : Libavif σ) (s : State σ) : Action → Outcome σ
  | .call c => exec target lib s c
  | .write id offset byte => s.write id offset byte

/-! ## The meaning of a state -/

/-- The bytes of a buffer. -/
def World.contents (w : World σ) (ptr : U8Ptr) (len : ℕ) : List UInt8 :=
  match ptr with
  | none => []
  | some ptr => w.read ⟨ptr, len⟩

/-- What the user sees of an RGB image: the header, and all the bytes of its buffer. -/
def AvifRGBImage.bitmap (raw : AvifRGBImage) (w : World σ) : Bitmap where
  width := raw.width
  height := raw.height
  depth := raw.depth
  format := raw.format
  bytes := w.contents raw.pixels raw.bufferBytes

/-- What the user sees of a value. -/
def Value.meaning (w : World σ) : Value → Item
  | .image img => .image (w.images img.raw)
  | .rgbImage rgb => .rgbImage (rgb.raw.bitmap w)
  | .borrowed rgb lender => .borrowed (rgb.image.raw.bitmap w) lender
  | .decoder _ => .decoder
  | .encoder enc => .encoder (w.encoders enc.raw)
  | .data out => .data (w.contents out.raw.data out.raw.size)
  | .bytes slice => .bytes (w.read slice)

/-- The table of a state: the values with what is behind them, without the memory. -/
def State.meaning (s : State σ) : Table where
  items id := (s.values id).map (Value.meaning s.machine.world)
  next := s.next

/-! ## Functions that only look -/

/-- A call of a function that only looks, with the value it looks at. -/
inductive Query where
  | imageWidth (image : ValueId)
  | imageHeight (image : ValueId)
  | imageRawDepth (image : ValueId)
  | imageDepth (image : ValueId)
  | rgbWidth (rgb : ValueId)
  | rgbHeight (rgb : ValueId)
  | pixels (rgb : ValueId)
  | maxThreads (encoder : ValueId)
  | speed (encoder : ValueId)
  | quality (encoder : ValueId)
  | asSlice (data : ValueId)

/-- What such a function returns. -/
inductive Answer where
  | word (value : UInt32)
  | int (value : Int32)
  | depth (depth : Result BitDepth)
  | bytes (bytes : List UInt8)
  | panic

/-- Run a function that only looks, on the part of a state it is for. -/
def State.ask {α β : Type} (s : State σ) (part : Option α) (program : α → Ffi σ β)
    (answer : β → Answer) : Except Fault (Option Answer) :=
  match part with
  | none => .ok none
  | some a =>
      match program a s.machine with
      | .error fault => .error fault
      | .ok (b, _) => .ok (some (answer b))

/-- What the functions of the crate return in a state, or `none` where there is no such value. -/
def State.answer (target : Target) (s : State σ) : Query → Except Fault (Option Answer)
  | .imageWidth image => s.ask (s.image? image) Image.width .word
  | .imageHeight image => s.ask (s.image? image) Image.height .word
  | .imageRawDepth image => s.ask (s.image? image) Image.rawDepth .word
  | .imageDepth image => s.ask (s.image? image) Image.depth .depth
  | .rgbWidth rgb => s.ask (s.rgb? rgb) (fun r => pure r.width) .word
  | .rgbHeight rgb => s.ask (s.rgb? rgb) (fun r => pure r.height) .word
  | .pixels rgb => s.ask (s.rgb? rgb) (RgbImage.pixels target) fun view =>
      view.elim .panic fun slice => .bytes (s.machine.world.read slice)
  | .maxThreads encoder => s.ask (s.encoder? encoder) Encoder.maxThreads .int
  | .speed encoder => s.ask (s.encoder? encoder) Encoder.speed .int
  | .quality encoder => s.ask (s.encoder? encoder) Encoder.quality .int
  | .asSlice data => s.ask (s.data? data) Data.asSlice fun slice =>
      .bytes (s.machine.world.read slice)

/-- The same, from the table. -/
def Table.answer (target : Target) (t : Table) : Query → Option Answer
  | .imageWidth image => ((t.items image).bind Item.header?).map fun h => .word h.width
  | .imageHeight image => ((t.items image).bind Item.header?).map fun h => .word h.height
  | .imageRawDepth image => ((t.items image).bind Item.header?).map fun h => .word h.depth
  | .imageDepth image =>
      ((t.items image).bind Item.header?).map fun h => .depth (BitDepth.tryFrom h.depth)
  | .rgbWidth rgb => ((t.items rgb).bind Item.bitmap?).map fun b => .word b.width
  | .rgbHeight rgb => ((t.items rgb).bind Item.bitmap?).map fun b => .word b.height
  | .pixels rgb => ((t.items rgb).bind Item.bitmap?).map fun b =>
      (pixelView target b.bytes).elim .panic .bytes
  | .maxThreads encoder =>
      ((t.items encoder).bind Item.settings?).map fun settings => .int settings.maxThreads
  | .speed encoder =>
      ((t.items encoder).bind Item.settings?).map fun settings => .int settings.speed
  | .quality encoder =>
      ((t.items encoder).bind Item.settings?).map fun settings => .int settings.quality
  | .asSlice data => ((t.items data).bind Item.data?).map .bytes

end Favi

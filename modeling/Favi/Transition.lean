import Favi.Effects

/-!
# Transitions of a session

What one call can do to a session, said once.  A call consumes at most one value
(`Consumes`), frees what that value owned, and before that makes at most one
allocation: a new value takes it, it is freed again, or it is left behind
(`Transition`).  A `BorrowedRgbImage` is made without any allocation.

`State.Valid` is the ownership invariant: what the live values own is allocated and
theirs alone, nothing has been freed twice, and every `BorrowedRgbImage` borrows bytes
of an older value that is still alive.  Each transition keeps it (`Transition.valid`),
and a valid state makes every call a transition (`exec_transition`), so no call faults.

## Strategy

`Transition` has five cases, and everything said about a call from here on is a case split
over them instead of over the calls of `exec`.  To keep it at five, what a call takes
from the user is a relation of its own, and the events of the two parts are concatenated.

* **The ledger** changes by the events that the lemmas of `Favi.Effects` list.
* **The books** change by moves.  The source allocates before it drops what it took, so an
  acquisition stands before the release; the two are about different names
  (`Consumes.ne_next`), so it does not matter that the table of values is changed in the
  other order.
* **The borrows** are the reason why names are ordered: the bytes of a `BorrowedRgbImage`
  are allocated because its lender is older, by induction on the name
  (`readable_of_region`).
-/

namespace Favi

open Custody Program

variable {σ : Type} {target : Target} {lib : Libavif σ} {s s' : State σ} {c : Call}

/-! ## Valid states -/

/-- The bytes behind a value, whether it owns or borrows them. -/
def Value.region : Value → Option Slice
  | .rgbImage rgb => rgb.raw.pixels.map fun ptr => ⟨ptr, rgb.raw.bufferBytes⟩
  | .borrowed rgb _ => rgb.image.raw.pixels.map fun ptr => ⟨ptr, rgb.image.raw.bufferBytes⟩
  | .data out => out.raw.data.map fun ptr => ⟨ptr, out.raw.size⟩
  | .bytes slice => some slice
  | .image _ | .decoder _ | .encoder _ => none

/-- The value `id` is alive and has the bytes of `slice`. -/
def State.Provides (s : State σ) (id : ValueId) (slice : Slice) : Prop :=
  ∃ value region, s.values id = some value ∧ value.region = some region ∧ slice.Within region

/-- Names are used in order, every value owns something or borrows, and a borrow is of
an older value that is still alive. -/
structure State.WellFormed (s : State σ) : Prop where
  unused : ∀ id, s.next ≤ id → s.values id = none
  owns : ∀ id value, s.values id = some value →
    (∃ handle object, value.holds = some (handle, object)) ∨
      ∃ rgb lender, value = .borrowed rgb lender
  borrows : ∀ id rgb lender, s.values id = some (.borrowed rgb lender) →
    lender < id ∧ ∃ slice, (Value.borrowed rgb lender).region = some slice ∧
      s.Provides lender slice

/-- The ownership invariant. -/
structure State.Valid (s : State σ) : Prop where
  sound : Sound s.books
  log : FreeLog s.ledger s.machine.frees
  wellFormed : s.WellFormed

theorem State.valid_boot (hidden : σ) : (State.boot hidden).Valid where
  sound := ⟨fun _ _ _ h => (Option.some_ne_none _ h.symm).elim,
    fun _ _ _ _ _ h => (Option.some_ne_none _ h.symm).elim⟩
  log := ⟨List.nodup_nil, by simp [State.boot]⟩
  wellFormed := ⟨fun _ _ => rfl, fun _ _ h => (Option.some_ne_none _ h.symm).elim,
    fun _ _ _ h => (Option.some_ne_none _ h.symm).elim⟩

namespace State.WellFormed

theorem lt_next (h : s.WellFormed) {id : ValueId} {value : Value}
    (hvalue : s.values id = some value) : id < s.next := by
  by_contra hle
  rw [h.unused id (Nat.le_of_not_lt hle)] at hvalue
  cases hvalue

theorem lender_ne (h : s.WellFormed) {id other lender : ValueId} {rgb : BorrowedRgbImage}
    (hlent : s.isLent id = false) (hother : s.values other = some (.borrowed rgb lender)) :
    lender ≠ id := by
  rintro rfl
  have hlt := h.lt_next hother
  simp only [State.isLent, List.any_eq_false, List.mem_range] at hlent
  have := hlent other hlt
  rw [hother] at this
  simp at this

theorem not_isLent (h : s.WellFormed) {id : ValueId} {value : Value}
    (hvalue : s.values id = some value) (hregion : value.region = none) : s.isLent id = false := by
  simp only [State.isLent, List.any_eq_false, List.mem_range]
  intro other _ hborrows
  split at hborrows
  · next rgb lender hother =>
    obtain rfl : lender = id := by simpa using hborrows
    obtain ⟨-, _, -, lent, region, hlent, hlentRegion, -⟩ := h.borrows other rgb lender hother
    rw [hvalue] at hlent
    cases hlent
    rw [hregion] at hlentRegion
    cases hlentRegion
  · cases hborrows

end State.WellFormed

/-! ## What is alive can be used -/

namespace State.Valid

/-- What a live value owns is allocated, with the type that the value says. -/
theorem live_of_holds (h : s.Valid) {id : ValueId} {value : Value} {handle : Handle}
    {object : Object} (hvalue : s.values id = some value)
    (hholds : value.holds = some (handle, object)) : s.ledger handle = .live object := by
  refine h.sound.live id handle object ?_
  simp only [State.books, hvalue, Option.bind_some, hholds]

theorem live_image (h : s.Valid) {id : ValueId} {image : Image}
    (himage : s.image? id = some image) :
    s.values id = some (.image image) ∧ s.ledger image.raw = .live .image := by
  unfold State.image? at himage
  split at himage
  · next hvalue =>
    cases himage
    exact ⟨hvalue, h.live_of_holds hvalue rfl⟩
  · cases himage

theorem live_decoder (h : s.Valid) {id : ValueId} {decoder : Decoder}
    (hdecoder : s.decoder? id = some decoder) :
    s.values id = some (.decoder decoder) ∧ s.ledger decoder.raw = .live .decoder := by
  unfold State.decoder? at hdecoder
  split at hdecoder
  · next hvalue =>
    cases hdecoder
    exact ⟨hvalue, h.live_of_holds hvalue rfl⟩
  · cases hdecoder

theorem live_encoder (h : s.Valid) {id : ValueId} {encoder : Encoder}
    (hencoder : s.encoder? id = some encoder) :
    s.values id = some (.encoder encoder) ∧ s.ledger encoder.raw = .live .encoder := by
  unfold State.encoder? at hencoder
  split at hencoder
  · next hvalue =>
    cases hencoder
    exact ⟨hvalue, h.live_of_holds hvalue rfl⟩
  · cases hencoder

/-- A `Data` in the user's hands points to a live buffer: it is not the placeholder. -/
theorem live_data (h : s.Valid) {id : ValueId} {data : Data} (hdata : s.data? id = some data) :
    s.values id = some (.data data) ∧ ∃ ptr, data.raw.data = some ptr ∧
      s.ledger ptr.block = .live (.buffer .rwData ptr.addr data.raw.size) := by
  unfold State.data? at hdata
  split at hdata
  · next hvalue =>
    cases hdata
    refine ⟨hvalue, ?_⟩
    rcases h.wellFormed.owns id _ hvalue with ⟨handle, object, hholds⟩ | ⟨rgb, lender, heq⟩
    · have hlive := h.live_of_holds hvalue hholds
      simp only [Value.holds, Option.map_eq_some_iff, Prod.mk.injEq] at hholds
      obtain ⟨ptr, hptr, rfl, rfl⟩ := hholds
      exact ⟨ptr, hptr, hlive⟩
    · cases heq
  · cases hdata

/-- The bytes behind a value are all allocated.  An owner's are what it owns; what a
`BorrowedRgbImage` borrows is, by induction, allocated through its lender. -/
theorem readable_of_region (h : s.Valid) (id : ValueId) :
    ∀ {value : Value} {slice : Slice}, s.values id = some value → value.region = some slice →
      readable s.ledger slice = true := by
  induction id using Nat.strong_induction_on with
  | _ id ih =>
      intro value slice hvalue hregion
      rcases h.wellFormed.owns id value hvalue with ⟨handle, object, hholds⟩ | ⟨rgb, lender, rfl⟩
      · have hlive := h.live_of_holds hvalue hholds
        cases value with
        | image | decoder | encoder => cases hregion
        | borrowed => cases hholds
        | bytes =>
            cases hregion
            cases hholds
            exact readable_of_within hlive (.refl _)
        | rgbImage | data =>
            simp only [Value.region, Option.map_eq_some_iff] at hregion
            obtain ⟨ptr, hptr, rfl⟩ := hregion
            simp only [Value.holds, hptr, Option.map_some, Option.some.injEq,
              Prod.mk.injEq] at hholds
            obtain ⟨rfl, rfl⟩ := hholds
            exact readable_of_within hlive (.refl _)
      · obtain ⟨hlt, _, hslice, lent, region, hlent, hlentRegion, hwithin⟩ :=
          h.wellFormed.borrows id rgb lender hvalue
        rw [hregion] at hslice
        cases hslice
        exact readable_mono hwithin (ih lender hlt hlent hlentRegion)

theorem readable_of_provides (h : s.Valid) {id : ValueId} {slice : Slice}
    (hprovides : s.Provides id slice) : readable s.ledger slice = true := by
  obtain ⟨value, region, hvalue, hregion, hwithin⟩ := hprovides
  exact readable_mono hwithin (h.readable_of_region id hvalue hregion)

/-- A live `RgbImage`, owned or borrowed, has a pixel buffer, and all of it is allocated. -/
theorem readable_rgb (h : s.Valid) {id : ValueId} {rgb : RgbImage} (hrgb : s.rgb? id = some rgb) :
    ∃ value ptr, s.values id = some value ∧ rgb.raw.pixels = some ptr ∧
      value.region = some ⟨ptr, rgb.raw.bufferBytes⟩ ∧
      readable s.ledger ⟨ptr, rgb.raw.bufferBytes⟩ = true := by
  simp only [State.rgb?, Option.bind_eq_some_iff] at hrgb
  obtain ⟨value, hvalue, hrgb⟩ := hrgb
  -- an owned image holds its buffer, so its pointer is not null; a borrowed one has a region
  have hregion : ∃ slice, value.region = some slice := by
    rcases h.wellFormed.owns id value hvalue with ⟨handle, object, hholds⟩ | ⟨img, lender, rfl⟩
    · cases value with
      | rgbImage =>
          simp only [Value.holds, Option.map_eq_some_iff] at hholds
          obtain ⟨ptr, hptr, -⟩ := hholds
          exact ⟨⟨ptr, _⟩, by simp only [Value.region, hptr, Option.map_some]; rfl⟩
      | borrowed => cases hholds
      | image | decoder | encoder | data | bytes => cases hrgb
    · obtain ⟨-, slice, hslice, -⟩ := h.wellFormed.borrows id img lender hvalue
      exact ⟨slice, hslice⟩
  obtain ⟨slice, hregion⟩ := hregion
  have hreadable := h.readable_of_region id hvalue hregion
  refine ⟨value, slice.ptr, hvalue, ?_⟩
  cases value with
  | image | decoder | encoder | data | bytes => cases hrgb
  | rgbImage | borrowed =>
      cases hrgb
      simp only [Value.region, Option.map_eq_some_iff] at hregion
      obtain ⟨ptr, hptr, rfl⟩ := hregion
      exact ⟨hptr, by simp only [Value.region, BorrowedRgbImage.deref, hptr, Option.map_some],
        hreadable⟩

end State.Valid

/-! ## Transitions -/

/-- The table without the entry of what is gone, if anything is. -/
def without {α : Type} (gone : Option ValueId) (table : ValueId → Option α) :
    ValueId → Option α :=
  match gone with
  | none => table
  | some id => Function.update table id none

/-- The state without the value that the call consumed, if it consumed one. -/
def State.without (s : State σ) (gone : Option ValueId) : State σ :=
  { s with values := Favi.without gone s.values }

theorem of_without_eq_some {α : Type} {gone : Option ValueId} {table : ValueId → Option α}
    {id : ValueId} {a : α} (h : without gone table id = some a) :
    table id = some a ∧ gone ≠ some id := by
  cases gone with
  | none => exact ⟨h, nofun⟩
  | some other =>
      by_cases heq : id = other
      · subst heq
        simp [without] at h
      · rw [without, Function.update_of_ne heq] at h
        exact ⟨h, fun hgone => heq (Option.some.inj hgone).symm⟩

theorem without_of_ne {α : Type} {gone : Option ValueId} {id : ValueId} (hne : gone ≠ some id)
    (table : ValueId → Option α) : without gone table id = table id := by
  cases gone with
  | none => rfl
  | some other => exact Function.update_of_ne (fun heq => hne (congrArg some heq.symm)) _ _

theorem without_update {α : Type} {gone : Option ValueId} {id : ValueId} (hne : gone ≠ some id)
    (table : ValueId → Option α) (entry : Option α) :
    without gone (Function.update table id entry) =
      Function.update (without gone table) id entry := by
  cases gone with
  | none => rfl
  | some other =>
      exact Function.update_comm (fun heq => hne (congrArg some heq.symm)) _ _ _

theorem without_bind {α β : Type} (gone : Option ValueId) (table : ValueId → Option α)
    (f : α → Option β) :
    (fun id => (without gone table id).bind f) = without gone fun id => (table id).bind f := by
  cases gone with
  | none => rfl
  | some other =>
      funext id
      by_cases heq : id = other
      · subst heq
        simp [without]
      · simp only [without, Function.update_of_ne heq]

/-- What a call takes from the user, and what becomes of it: nothing is taken; or a
`BorrowedRgbImage` is, which owns nothing; or an owner is, and what it owned is freed.
Only `drop`, `encode` and `finish` take anything, and never what is lent. -/
inductive Consumes (s : State σ) (c : Call) : Option ValueId → List (Event Handle Object) →
    List (Move ValueId Handle Object) → Prop
  | nothing : Consumes s c none [] []
  | view (id : ValueId) (rgb : BorrowedRgbImage) (lender : ValueId)
      (hvalue : s.values id = some (.borrowed rgb lender)) (hlent : s.isLent id = false)
      (hcall : c = .drop id) : Consumes s c (some id) [] []
  | owner (id : ValueId) (value : Value) (handle : Handle) (object : Object)
      (hvalue : s.values id = some value) (hlent : s.isLent id = false)
      (hholds : value.holds = some (handle, object))
      (hcall : c = .drop id ∨ ∃ encoder, value = .encoder encoder) :
      Consumes s c (some id) [.free handle object] [.release id handle object]

/-- The call leaves an allocation behind: a conversion that fails after its buffer was
allocated. -/
def LeaksAt (lib : Libavif σ) (s : State σ) : Call → Prop
  | .toRgb image depth format =>
      ∃ i, s.image? image = some i ∧ ConversionFails lib i depth format s.machine.world
  | _ => False

/-- An `RgbImage` comes out of a conversion, with the layout that libavif gives it. -/
def MadeBy (lib : Libavif σ) (s : State σ) (c : Call) (value : Value) : Prop :=
  ∀ rgb, value = .rgbImage rgb → ∃ image depth format i, c = .toRgb image depth format ∧
    s.image? image = some i ∧ Converts lib i depth format s.machine.world ∧
    Converted (s.machine.world.images i.raw) depth format rgb.raw

/-- One call, as a change of the machine, of the values and of the books. -/
inductive Transition (lib : Libavif σ) (s : State σ) (c : Call) :
    List (Move ValueId Handle Object) → State σ → Prop
  /-- Nothing is allocated. -/
  | quiet {gone : Option ValueId} {tail : List (Event Handle Object)}
      {releases : List (Move ValueId Handle Object)} {m : Machine σ}
      (hconsumes : Consumes s c gone tail releases) (hleak : ¬ LeaksAt lib s c)
      (hsteps : s.machine.Steps tail m) :
      Transition lib s c releases ((s.without gone).withMachine m)
  /-- What is allocated is freed again. -/
  | undone {gone : Option ValueId} {tail : List (Event Handle Object)}
      {releases : List (Move ValueId Handle Object)} {m : Machine σ} {handle : Handle}
      {object : Object} (hconsumes : Consumes s c gone tail releases)
      (hleak : ¬ LeaksAt lib s c)
      (hsteps : s.machine.Steps (.alloc handle object :: .free handle object :: tail) m) :
      Transition lib s c (.transient handle object :: releases) ((s.without gone).withMachine m)
  /-- What is allocated is left behind. -/
  | leaked {gone : Option ValueId} {tail : List (Event Handle Object)}
      {releases : List (Move ValueId Handle Object)} {m : Machine σ} {handle : Handle}
      {object : Object} (hconsumes : Consumes s c gone tail releases) (hleak : LeaksAt lib s c)
      (hsteps : s.machine.Steps (.alloc handle object :: tail) m) :
      Transition lib s c (.stray handle object :: releases) ((s.without gone).withMachine m)
  /-- What is allocated is a new value's. -/
  | made {gone : Option ValueId} {tail : List (Event Handle Object)}
      {releases : List (Move ValueId Handle Object)} {m : Machine σ} {handle : Handle}
      {object : Object} {value : Value} (hconsumes : Consumes s c gone tail releases)
      (hleak : ¬ LeaksAt lib s c) (hholds : value.holds = some (handle, object))
      (hmade : MadeBy lib s c value)
      (hsteps : s.machine.Steps (.alloc handle object :: tail) m) :
      Transition lib s c (.acquire s.next handle object :: releases)
        (((s.without gone).withMachine m).push value)
  /-- A `BorrowedRgbImage` over bytes that a live value has. -/
  | lent {rgb : BorrowedRgbImage} {lender : ValueId} {slice : Slice} (hleak : ¬ LeaksAt lib s c)
      (hregion : (Value.borrowed rgb lender).region = some slice)
      (hprovides : s.Provides lender slice) (hfits : rgb.image.raw.bufferBytes < 2 ^ 32) :
      Transition lib s c [] (s.push (.borrowed rgb lender))

/-! ## Transitions keep the invariant -/

/-- A consumed value disappears from the books together with what it held. -/
theorem State.books_withMachine_without (s : State σ) (gone : Option ValueId) (m : Machine σ) :
    ((s.without gone).withMachine m).books = ⟨m.world.ledger, Favi.without gone s.books.holds⟩ := by
  unfold State.books State.without State.withMachine State.ledger
  simp only [without_bind]

theorem State.books_push (s : State σ) (value : Value) :
    (s.push value).books = ⟨s.ledger, Function.update s.books.holds s.next value.holds⟩ := by
  unfold State.books State.push
  congr 1
  funext id
  by_cases heq : id = s.next
  · subst heq
    simp
  · simp [Function.update_of_ne heq]

namespace Consumes

variable {gone : Option ValueId} {tail : List (Event Handle Object)}
  {releases : List (Move ValueId Handle Object)}

theorem events_eq (h : Consumes s c gone tail releases) : releases.flatMap Move.events = tail := by
  cases h <;> rfl

theorem not_stray (h : Consumes s c gone tail releases) :
    ∀ move ∈ releases, move.isStray = false := by
  cases h <;> simp [Move.isStray]

theorem ne_next (h : Consumes s c gone tail releases) (hvalid : s.WellFormed) :
    gone ≠ some s.next := by
  have hnext : s.values s.next = none := hvalid.unused _ le_rfl
  cases h with
  | nothing => nofun
  | view id rgb lender hvalue | owner id value handle object hvalue =>
      rintro ⟨⟩
      rw [hnext] at hvalue
      cases hvalue

theorem lender_ne (h : Consumes s c gone tail releases) (hvalid : s.WellFormed)
    {other lender : ValueId} {rgb : BorrowedRgbImage}
    (hother : s.values other = some (.borrowed rgb lender)) : gone ≠ some lender := by
  cases h with
  | nothing => nofun
  | view id _ _ _ hlent | owner id _ _ _ _ hlent =>
      rintro ⟨⟩
      exact hvalid.lender_ne hlent hother rfl

/-- A consumption as moves, from any books that agree on what is consumed. -/
theorem moves (h : Consumes s c gone tail releases) {before : Books ValueId Handle Object}
    {after : Ledger Handle Object}
    (hholds : ∀ id, gone = some id → before.holds id = s.books.holds id)
    (htail : Evolves before.ledger tail after) :
    Moves before releases ⟨after, without gone before.holds⟩ := by
  cases h with
  | nothing =>
      rw [htail.eq_of_nil]
      exact .nil before
  | view id rgb lender hvalue =>
      have hnone : before.holds id = none := by
        rw [hholds id rfl]
        simp [State.books, hvalue, Value.holds]
      rw [htail.eq_of_nil, without, ← hnone, Function.update_eq_self]
      exact .nil before
  | owner id value handle object hvalue _ howns =>
      have hheld : before.holds id = some (handle, object) := by
        rw [hholds id rfl]
        simp [State.books, hvalue, howns]
      obtain ⟨hlive, rfl⟩ := htail.eq_of_free
      have hallowed : (Move.release id handle object).Allowed before := ⟨hheld, hlive⟩
      exact Moves.single hallowed

end Consumes

theorem Machine.Steps.head_alloc {m m' : Machine σ} {handle : Handle} {object : Object}
    {tail : List (Event Handle Object)} (h : m.Steps (.alloc handle object :: tail) m') :
    m.world.ledger handle = .fresh ∧
      Evolves (Function.update m.world.ledger handle (.live object)) tail m'.world.ledger := by
  cases h.ledger with
  | cons allowed rest => exact ⟨allowed, rest⟩

namespace Transition

variable {moves : List (Move ValueId Handle Object)}

/-- The ledger and the log of frees follow the moves. -/
theorem steps (h : Transition lib s c moves s') :
    s.machine.Steps (moves.flatMap Move.events) s'.machine := by
  cases h with
  | quiet hconsumes _ hsteps =>
      rw [hconsumes.events_eq]
      exact hsteps
  | undone hconsumes _ hsteps | leaked hconsumes _ hsteps | made hconsumes _ _ _ hsteps =>
      rw [List.flatMap_cons, hconsumes.events_eq]
      exact hsteps
  | lent => exact .refl _

/-- The books follow the moves. -/
theorem moves_books (h : Transition lib s c moves s') (hvalid : s.Valid) :
    Moves s.books moves s'.books := by
  cases h with
  | quiet hconsumes _ hsteps =>
      rw [State.books_withMachine_without]
      exact hconsumes.moves (fun _ _ => rfl) hsteps.ledger
  | undone hconsumes _ hsteps =>
      obtain ⟨hfresh, hrest⟩ := hsteps.head_alloc
      cases hrest with
      | cons _ htail =>
          rw [Event.apply, Function.update_idem] at htail
          rw [State.books_withMachine_without]
          exact .cons hfresh (hconsumes.moves (fun _ _ => rfl) htail)
  | leaked hconsumes _ hsteps =>
      obtain ⟨hfresh, htail⟩ := hsteps.head_alloc
      rw [State.books_withMachine_without]
      exact .cons hfresh (hconsumes.moves (fun _ _ => rfl) htail)
  | @made gone _ _ m handle object value hconsumes _ hholds _ hsteps =>
      obtain ⟨hfresh, htail⟩ := hsteps.head_alloc
      -- what is consumed has an older name, so acquiring first and releasing then commute
      have hne := hconsumes.ne_next hvalid.wellFormed
      have hbooks : (((s.without gone).withMachine m).push value).books =
          ⟨m.world.ledger, Favi.without gone
            (Function.update s.books.holds s.next (some (handle, object)))⟩ := by
        rw [State.books_push, State.books_withMachine_without, hholds, without_update hne]
        rfl
      rw [hbooks]
      have hunheld : s.books.holds s.next = none := by
        simp [State.books, hvalid.wellFormed.unused]
      refine .cons ⟨hunheld, hfresh⟩ (hconsumes.moves (fun id hid => ?_) htail)
      exact Function.update_of_ne (fun heq => hne (by rw [hid, heq])) _ _
  | @lent rgb lender =>
      -- a borrow holds nothing: the books do not change
      have hbooks : (s.push (.borrowed rgb lender)).books = s.books := by
        have hunheld : s.books.holds s.next = none := by
          simp [State.books, hvalid.wellFormed.unused]
        rw [State.books_push, Value.holds, ← hunheld, Function.update_eq_self]
        rfl
      rw [hbooks]
      exact .nil _

end Transition

/-! ### Values -/

namespace State

theorem push_values_self (s : State σ) (value : Value) :
    (s.push value).values s.next = some value :=
  Function.update_self ..

theorem push_values_of_ne (s : State σ) (value : Value) {id : ValueId} (hne : id ≠ s.next) :
    (s.push value).values id = s.values id :=
  Function.update_of_ne hne ..

theorem WellFormed.withMachine (h : s.WellFormed) (m : Machine σ) : (s.withMachine m).WellFormed :=
  ⟨h.unused, h.owns, h.borrows⟩

theorem WellFormed.without (h : s.WellFormed) {gone : Option ValueId}
    (hlender : ∀ id rgb lender, s.values id = some (.borrowed rgb lender) → gone ≠ some lender) :
    (s.without gone).WellFormed := by
  refine ⟨fun id hid => ?_, fun id value hvalue => ?_, fun id rgb lender hvalue => ?_⟩
  · by_contra hsome
    obtain ⟨value, hvalue⟩ := Option.ne_none_iff_exists'.mp hsome
    exact absurd (h.lt_next (of_without_eq_some hvalue).1) (Nat.not_lt.mpr hid)
  · exact h.owns id value (of_without_eq_some hvalue).1
  · have hbefore := (of_without_eq_some hvalue).1
    obtain ⟨hlt, slice, hslice, value, region, hlent, hrest⟩ := h.borrows id rgb lender hbefore
    refine ⟨hlt, slice, hslice, value, region, ?_, hrest⟩
    rw [← hlent]
    exact without_of_ne (hlender id rgb lender hbefore) s.values

theorem Provides.push {id : ValueId} {slice : Slice} (h : s.Provides id slice)
    (hwell : s.WellFormed) (value : Value) : (s.push value).Provides id slice := by
  obtain ⟨lent, region, hlent, hrest⟩ := h
  refine ⟨lent, region, ?_, hrest⟩
  rw [s.push_values_of_ne value (hwell.lt_next hlent).ne, hlent]

/-- A new value, which owns something or borrows from a live value. -/
theorem WellFormed.push (h : s.WellFormed) {value : Value}
    (howns : (∃ handle object, value.holds = some (handle, object)) ∨
      ∃ rgb lender, value = .borrowed rgb lender)
    (hborrows : ∀ rgb lender, value = .borrowed rgb lender →
      ∃ slice, (Value.borrowed rgb lender).region = some slice ∧ s.Provides lender slice) :
    (s.push value).WellFormed := by
  -- a value after the push is the new one, or was there before
  have hcases : ∀ id old, (s.push value).values id = some old →
      (id = s.next ∧ old = value) ∨ s.values id = some old := by
    intro id old hold
    by_cases heq : id = s.next
    · subst heq
      rw [s.push_values_self] at hold
      exact Or.inl ⟨rfl, (Option.some.inj hold).symm⟩
    · rw [s.push_values_of_ne value heq] at hold
      exact Or.inr hold
  refine ⟨fun id hid => ?_, fun id old hold => ?_, fun id rgb lender hold => ?_⟩
  · have hlt : s.next < id := hid
    rw [s.push_values_of_ne value hlt.ne', h.unused id hlt.le]
  · rcases hcases id old hold with ⟨-, rfl⟩ | hbefore
    · exact howns
    · exact h.owns id old hbefore
  · rcases hcases id _ hold with ⟨rfl, heq⟩ | hbefore
    · obtain ⟨slice, hslice, hprovides⟩ := hborrows rgb lender heq.symm
      have hlt : lender < s.next := by
        obtain ⟨_, _, hlent, -⟩ := hprovides
        exact h.lt_next hlent
      exact ⟨hlt, slice, hslice, hprovides.push h value⟩
    · obtain ⟨hlt, slice, hslice, hprovides⟩ := h.borrows id rgb lender hbefore
      exact ⟨hlt, slice, hslice, hprovides.push h value⟩

end State

/-- Names, owners and borrows after a call: a value that is consumed is not lent, and a new one
is younger than all. -/
theorem Transition.wellFormed {moves : List (Move ValueId Handle Object)}
    (h : Transition lib s c moves s') (hwell : s.WellFormed) : s'.WellFormed := by
  cases h with
  | quiet hconsumes | undone hconsumes | leaked hconsumes =>
      exact (hwell.without fun _ _ _ => hconsumes.lender_ne hwell).withMachine _
  | @made gone _ _ m handle object value hconsumes _ hholds =>
      -- the new value owns something, so it is no borrow
      have hrest : ((s.without gone).withMachine m).WellFormed :=
        (hwell.without fun _ _ _ => hconsumes.lender_ne hwell).withMachine m
      refine hrest.push (Or.inl ⟨handle, object, hholds⟩) ?_
      rintro rgb lender rfl
      cases hholds
  | @lent rgb lender slice _ hregion hprovides =>
      refine hwell.push (Or.inr ⟨rgb, lender, rfl⟩) ?_
      rintro _ _ ⟨⟩
      exact ⟨slice, hregion, hprovides⟩

/-- Every transition keeps the ownership invariant. -/
theorem Transition.valid {moves : List (Move ValueId Handle Object)}
    (h : Transition lib s c moves s') (hvalid : s.Valid) : s'.Valid where
  sound := hvalid.sound.moves (h.moves_books hvalid)
  log := by
    rw [h.steps.frees]
    exact hvalid.log.evolves h.steps.ledger
  wellFormed := h.wellFormed hvalid.wellFormed

end Favi

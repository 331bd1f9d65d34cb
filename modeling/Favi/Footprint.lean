import Favi.Confinement
import Favi.Meaning

/-!
# What a meaning depends on

A value means what it does because of the contents of one allocation, its `block`; a
decoder has no contents that a user sees.  So a meaning survives whatever spares the
block.

A block belongs to an owner: to the value itself, or through a chain of borrows to a
value that is lent (`owner_of_block`).  A value that is not lent therefore shares its
block with nobody, and what is done to it, dropping it included, changes the meaning of
no other value (`Clear`).

This is where the borrow checker comes in.  The memory of the model would let one value be
changed under the eyes of another that borrows from it; `exec` rejects such calls, and
`block_ne_of_not_lent` turns the rejection into the separation that the table of
`Favi.Meaning` takes for granted.
-/

namespace Favi

open Custody Program

variable {σ : Type} {s : State σ} {w w' : World σ} {m : Machine σ}

/-! ## Blocks -/

/-- The allocation whose contents a value shows. -/
def Value.block : Value → Option Handle
  | .image img => some img.raw
  | .encoder enc => some enc.raw
  | .rgbImage rgb => rgb.raw.pixels.map BytePtr.block
  | .borrowed rgb _ => rgb.image.raw.pixels.map BytePtr.block
  | .data out => out.raw.data.map BytePtr.block
  | .bytes slice => some slice.ptr.block
  | .decoder _ => none

/-- The same contents under a handle. -/
structure World.Agrees (w w' : World σ) (handle : Handle) : Prop where
  images : w'.images handle = w.images handle
  encoders : w'.encoders handle = w.encoders handle
  bytes : w'.bytes handle = w.bytes handle

theorem World.agrees_of_look {handle : Handle} {content : Content}
    (hlook : w.look handle = some content) (hlook' : w'.look handle = some content) :
    w.Agrees w' handle := by
  unfold World.look at hlook hlook'
  split at hlook
  · split at hlook'
    · have heq := Option.some.inj (hlook'.trans hlook.symm)
      simp only [Content.mk.injEq] at heq
      exact ⟨heq.2.1, heq.2.2.1, heq.2.2.2⟩
    · cases hlook'
    · cases hlook'
  · cases hlook
  · cases hlook

theorem World.contents_of_bytes {ptr : U8Ptr} (len : ℕ)
    (h : ∀ p, ptr = some p → w'.bytes p.block = w.bytes p.block) :
    w'.contents ptr len = w.contents ptr len := by
  cases ptr with
  | none => rfl
  | some p => simp only [World.contents, World.read, h p rfl]

/-- A value means the same in two worlds that agree on its block. -/
theorem Value.meaning_of_agrees {value : Value}
    (h : ∀ handle, value.block = some handle → w.Agrees w' handle) :
    value.meaning w' = value.meaning w := by
  have hcontents : ∀ {ptr : U8Ptr} (len : ℕ), ptr.map BytePtr.block = value.block →
      w'.contents ptr len = w.contents ptr len := by
    rintro ptr len hblock
    refine World.contents_of_bytes len fun p hp => (h p.block ?_).bytes
    rw [← hblock, hp, Option.map_some]
  cases value with
  | image img => simp only [Value.meaning, (h img.raw rfl).images]
  | encoder enc => simp only [Value.meaning, (h enc.raw rfl).encoders]
  | decoder => rfl
  | rgbImage rgb => simp only [Value.meaning, AvifRGBImage.bitmap, hcontents _ rfl]
  | borrowed rgb lender => simp only [Value.meaning, AvifRGBImage.bitmap, hcontents _ rfl]
  | data out => simp only [Value.meaning, hcontents _ rfl]
  | bytes slice => simp only [Value.meaning, World.read, (h slice.ptr.block rfl).bytes]

/-! ## Owners of blocks -/

theorem Value.block_of_holds {value : Value} {handle block : Handle} {object : Object}
    (hholds : value.holds = some (handle, object)) (hblock : value.block = some block) :
    block = handle ∧ object ≠ .decoder := by
  cases value with
  | image | encoder | bytes =>
      cases hholds
      cases hblock
      exact ⟨rfl, by simp⟩
  | decoder => cases hblock
  | borrowed => cases hholds
  | rgbImage rgb | data out =>
      simp only [Value.holds, Option.map_eq_some_iff, Prod.mk.injEq] at hholds
      obtain ⟨ptr, hptr, rfl, rfl⟩ := hholds
      simp only [Value.block, hptr, Option.map_some, Option.some.injEq] at hblock
      exact ⟨hblock.symm, by simp⟩

theorem Value.block_of_region {value : Value} {region : Slice}
    (hregion : value.region = some region) : value.block = some region.ptr.block := by
  cases value with
  | image | decoder | encoder => cases hregion
  | bytes slice =>
      cases hregion
      rfl
  | rgbImage rgb | borrowed rgb lender | data out =>
      simp only [Value.region, Option.map_eq_some_iff] at hregion
      obtain ⟨ptr, hptr, rfl⟩ := hregion
      simp only [Value.block, hptr, Option.map_some]

theorem State.WellFormed.isLent_of_borrowed (h : s.WellFormed) {other lender : ValueId}
    {rgb : BorrowedRgbImage} (hother : s.values other = some (.borrowed rgb lender)) :
    s.isLent lender = true := by
  by_contra hlent
  exact h.lender_ne (Bool.eq_false_iff.mpr hlent) hother rfl

namespace State.Valid

/-- Following the borrows from a value leads to the owner of its block. -/
theorem owner_of_block (h : s.Valid) (id : ValueId) :
    ∀ {value : Value} {handle : Handle}, s.values id = some value → value.block = some handle →
      ∃ owner held object, s.values owner = some held ∧ held.holds = some (handle, object) ∧
        object ≠ .decoder ∧ (owner = id ∨ s.isLent owner = true) := by
  induction id using Nat.strong_induction_on with
  | _ id ih =>
      intro value handle hvalue hblock
      rcases h.wellFormed.owns id value hvalue with ⟨held, object, hholds⟩ | ⟨rgb, lender, rfl⟩
      · obtain ⟨rfl, hobject⟩ := Value.block_of_holds hholds hblock
        exact ⟨id, value, object, hvalue, hholds, hobject, Or.inl rfl⟩
      · obtain ⟨hlt, slice, hslice, lent, region, hlent, hregion, hwithin⟩ :=
          h.wellFormed.borrows id rgb lender hvalue
        have hlentBlock : lent.block = some handle := by
          rw [Value.block_of_region hslice, hwithin.block] at hblock
          rw [Value.block_of_region hregion, hblock]
        obtain ⟨owner, held, object, howner, hholds, hobject, hend⟩ :=
          ih lender hlt hlent hlentBlock
        refine ⟨owner, held, object, howner, hholds, hobject, Or.inr ?_⟩
        rcases hend with rfl | hend
        · exact h.wellFormed.isLent_of_borrowed hvalue
        · exact hend

theorem live_of_block (h : s.Valid) {id : ValueId} {value : Value} {handle : Handle}
    (hvalue : s.values id = some value) (hblock : value.block = some handle) :
    ∃ object, s.ledger handle = .live object ∧ object ≠ .decoder := by
  obtain ⟨owner, held, object, howner, hholds, hobject, -⟩ := h.owner_of_block id hvalue hblock
  exact ⟨object, h.live_of_holds howner hholds, hobject⟩

/-- What a value holds that is not lent is no other value's block. -/
theorem block_ne_of_not_lent (h : s.Valid) {id other : ValueId} {value value' : Value}
    {handle : Handle} {object : Object} (hvalue : s.values id = some value)
    (hholds : value.holds = some (handle, object)) (hlent : s.isLent id = false)
    (hother : s.values other = some value') (hne : other ≠ id) : value'.block ≠ some handle := by
  intro hblock
  obtain ⟨owner, held, object', howner, hheld, -, hend⟩ := h.owner_of_block other hother hblock
  have hsame : owner = id := by
    refine h.sound.unique owner id handle object' object ?_ ?_
    · simp only [State.books, howner, Option.bind_some, hheld]
    · simp only [State.books, hvalue, Option.bind_some, hholds]
  subst hsame
  rcases hend with rfl | hend
  · exact hne rfl
  · rw [hlent] at hend
    cases hend

end State.Valid

/-! ## Clear of a change -/

/-- Nobody's block is among the handles. -/
def State.Clear (s : State σ) (out : Set Handle) : Prop :=
  ∀ id value handle, s.values id = some value → value.block = some handle →
    (∃ object, s.ledger handle = .live object) ∧ handle ∉ out

theorem State.Valid.clear (h : s.Valid) : s.Clear ∅ := by
  intro id value handle hvalue hblock
  obtain ⟨object, hlive, -⟩ := h.live_of_block hvalue hblock
  exact ⟨⟨object, hlive⟩, Set.notMem_empty handle⟩

/-- A decoder has no contents, so no value shows what is done to it. -/
theorem State.Valid.clear_decoder (h : s.Valid) {id : ValueId} {decoder : Decoder}
    (hdecoder : s.decoder? id = some decoder) : s.Clear {decoder.raw} := by
  intro other value handle hvalue hblock
  obtain ⟨object, hlive, hobject⟩ := h.live_of_block hvalue hblock
  refine ⟨⟨object, hlive⟩, ?_⟩
  rintro rfl
  exact hobject (Cell.live.inj (hlive.symm.trans (h.live_decoder hdecoder).2))

/-- Once a value that is not lent is out of the table, what it held is nobody's block. -/
theorem State.Valid.clear_erase (h : s.Valid) {id : ValueId} {value : Value}
    (hvalue : s.values id = some value) (hlent : s.isLent id = false) :
    (s.erase id).Clear {handle | ∃ object, value.holds = some (handle, object)} := by
  intro other value' handle hother hblock
  have hkept : Favi.without (some id) s.values other = some value' := hother
  obtain ⟨hbefore, hne⟩ := of_without_eq_some hkept
  obtain ⟨object, hlive, -⟩ := h.live_of_block hbefore hblock
  refine ⟨⟨object, hlive⟩, ?_⟩
  rintro ⟨object', hholds⟩
  exact h.block_ne_of_not_lent hvalue hholds hlent hbefore (fun heq => hne (congrArg some heq.symm))
    hblock

/-- A change that spares every block changes no meaning. -/
theorem State.Clear.meaning {out : Set Handle} (h : s.Clear out)
    (hspares : s.machine.Spares out m) : (s.withMachine m).meaning = s.meaning := by
  have hitems : (s.withMachine m).meaning.items = s.meaning.items := by
    funext id
    refine Option.map_congr fun value hvalue => Value.meaning_of_agrees fun handle hblock => ?_
    obtain ⟨⟨object, hlive⟩, hout⟩ := h id value handle hvalue hblock
    have hlook := World.look_of_live hlive
    exact World.agrees_of_look hlook (hspares handle _ hlook hout)
  exact congrArg (fun items => Table.mk items s.next) hitems

/-! ## Changing the table -/

theorem State.meaning_push (s : State σ) (value : Value) :
    (s.push value).meaning = s.meaning.push (value.meaning s.machine.world) := by
  unfold State.meaning Table.push State.push
  congr 1
  funext id
  by_cases heq : id = s.next
  · subst heq
    simp only [Function.update_self, Option.map_some]
  · simp only [Function.update_of_ne heq]

theorem State.meaning_erase (s : State σ) (id : ValueId) :
    (s.erase id).meaning = s.meaning.set id none := by
  unfold State.meaning Table.set State.erase
  congr 1
  funext other
  by_cases heq : other = id
  · subst heq
    simp only [Function.update_self, Option.map_none]
  · simp only [Function.update_of_ne heq]

/-- A change to one value: all others keep their meaning. -/
theorem State.meaning_touch {out : Set Handle} {id : ValueId} {value : Value}
    (hvalue : s.values id = some value) (hclear : (s.erase id).Clear out)
    (hspares : s.machine.Spares out m) :
    (s.withMachine m).meaning = s.meaning.set id (some (value.meaning m.world)) := by
  have hrest := hclear.meaning hspares
  rw [State.meaning_erase] at hrest
  unfold State.meaning Table.set at hrest ⊢
  simp only [Table.mk.injEq] at hrest ⊢
  refine ⟨funext fun other => ?_, rfl⟩
  -- the value itself is read off the new machine, the others are as without it
  by_cases heq : other = id
  · subst heq
    simp only [Function.update_self, State.withMachine, hvalue, Option.map_some]
  · have hother := congrFun hrest.1 other
    simp only [State.withMachine, State.erase, Function.update_of_ne heq] at hother ⊢
    exact hother

theorem State.isLent_meaning (s : State σ) (id : ValueId) : s.meaning.isLent id = s.isLent id := by
  unfold Table.isLent State.isLent
  congr 1
  funext other
  simp only [State.meaning]
  cases hvalue : s.values other with
  | none => rfl
  | some value => cases value <;> rfl

end Favi

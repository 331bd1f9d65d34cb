import Favi.Simulation

/-!
# Lifetimes

What a run of the specification does to one item.  A step changes at most one item, as
its call and reply say (`Item.after`), and none whose bytes are lent (`Change`).  So a
value holds what it held at first, with the writes and the settings since then that
succeeded, until it is gone for good (`item_history`); an encoder's getters return what
was set last (`setting_last_set`); and while a `BorrowedRgbImage` is alive, the value it
borrows from is alive and does not change (`borrow_protects`).

These hold of the specification by induction over its runs, and of every session because
sessions refine it.

## Strategy

`Change` is to the specification what `Transition` is to the crate: the few things that a
step can do to a table, found once by going through the calls (`change_of_spec`), and a
case split from then on.  Which item a step changes, and how, is read off the action and
its reply alone, so the history of an item is a fold over the actions and the replies of
the run, and no state in between is mentioned.

* **An item** becomes what each step makes of it, or is gone (`Change.items`).
* **A name** that is free below `next` is never given out again (`Change.items_none`): new
  items are pushed at `next`, which only grows.
* **A lender** is not touched (`Change.items_of_isLent`), since every step that touches an
  item asks first that it is not lent.  The invariant behind it is
  `Table.WellFormed`: a borrowed image shows bytes of an older item that is still there.

`SpecRun.keeps` and `SpecRun.follows` turn these into statements about runs.
-/

namespace Favi

open Custody Program

variable {σ : Type} {target : Target} {lib : Libavif σ} {t t' : Table} {action : Action}
  {reply : Reply} {step : Action × Reply} {id : ValueId}

/-! ## What a step changes -/

namespace Item

/-- The bytes that a `BorrowedRgbImage` can borrow. -/
def bytes? : Item → Option (List UInt8)
  | .rgbImage bitmap | .borrowed bitmap _ => some bitmap.bytes
  | .data content | .bytes content => some content
  | .image _ | .decoder | .encoder _ => none

/-- Other settings for an encoder; no other item has any. -/
def configure (update : AvifEncoder → AvifEncoder) : Item → Item
  | .encoder settings => .encoder (update settings)
  | item => item

/-- Another byte at `offset`, for an item that can be written to. -/
def store (offset : ℕ) (byte : UInt8) : Item → Item
  | .data content => .data (content.set offset byte)
  | .bytes content => .bytes (content.set offset byte)
  | item => item

end Item

/-- The value that an action changes when it succeeds, and how. -/
def Action.change? : Action → Option (ValueId × (Item → Item))
  | .call (.setMaxThreads encoder maxThreads) =>
      some (encoder, .configure fun settings => { settings with maxThreads := maxThreads })
  | .call (.setSpeed encoder speed) =>
      some (encoder, .configure fun settings => { settings with speed := speed })
  | .call (.setQuality encoder quality) =>
      some (encoder, .configure fun settings => { settings with quality := quality })
  | .call _ => none
  | .write id offset byte => some (id, .store offset byte)

/-- What a step makes of the item under a name. -/
def Item.after (id : ValueId) (step : Action × Reply) (item : Item) : Item :=
  match step.1.change? with
  | some (changed, change) => if changed = id ∧ step.2 = .done then change item else item
  | none => item

/-- The step changes no item. -/
def Idle (step : Action × Reply) : Prop := ∀ id (item : Item), item.after id step = item

/-- An action that can change no value is idle, whatever the reply. -/
theorem idle_of_change_none (h : action.change? = none) (reply : Reply) :
    Idle (action, reply) := by
  intro id item
  simp only [Item.after, h]

/-- So is every action that fails. -/
theorem idle_of_ne_done (h : reply ≠ .done) (action : Action) : Idle (action, reply) := by
  intro id item
  unfold Item.after
  split
  · exact if_neg fun hdone => h hdone.2
  · rfl

/-- Only encoders and byte buffers of the user's are ever changed. -/
theorem Item.after_eq_self {item : Item} (hsettings : item.settings? = none)
    (hwritable : item.writable? = none) (id : ValueId) (step : Action × Reply) :
    item.after id step = item := by
  have hkeeps : ∀ {changed : ValueId} {change : Item → Item},
      step.1.change? = some (changed, change) → change item = item := by
    intro changed change hchange
    unfold Action.change? at hchange
    split at hchange
    all_goals
      cases hchange
    all_goals
      cases item with
      | image | rgbImage | borrowed | decoder => rfl
      | encoder => cases hsettings
      | data | bytes => cases hwritable
  unfold Item.after
  split
  · next hchange => rw [hkeeps hchange, ite_self]
  · rfl

/-! ## Tables that borrow well -/

/-- Names are used in order, and a borrowed image shows bytes of an older item. -/
structure Table.WellFormed (t : Table) : Prop where
  unused : ∀ id, t.next ≤ id → t.items id = none
  borrows : ∀ id bitmap lender, t.items id = some (.borrowed bitmap lender) →
    lender < id ∧ ∃ bytes, (t.items lender).bind Item.bytes? = some bytes ∧
      bitmap.bytes <:+: bytes

theorem Table.wellFormed_empty : Table.empty.WellFormed :=
  ⟨fun _ _ => rfl, fun _ _ _ h => by cases h⟩

namespace Table.WellFormed

theorem lt_next (h : t.WellFormed) {item : Item} (hitem : t.items id = some item) :
    id < t.next := by
  by_contra hle
  rw [h.unused id (Nat.le_of_not_lt hle)] at hitem
  cases hitem

theorem isLent_iff (h : t.WellFormed) : t.isLent id = true ↔
    ∃ other bitmap, t.items other = some (.borrowed bitmap id) := by
  simp only [Table.isLent, List.any_eq_true, List.mem_range]
  constructor
  · rintro ⟨other, -, hlends⟩
    split at hlends
    · next bitmap lender hother =>
      obtain rfl : lender = id := by simpa using hlends
      exact ⟨other, bitmap, hother⟩
    · cases hlends
  · rintro ⟨other, bitmap, hother⟩
    refine ⟨other, h.lt_next hother, ?_⟩
    rw [hother]
    exact beq_self_eq_true id

theorem lender_ne (h : t.WellFormed) (hlent : t.isLent id = false) {other lender : ValueId}
    {bitmap : Bitmap} (hother : t.items other = some (.borrowed bitmap lender)) : lender ≠ id := by
  rintro rfl
  rw [h.isLent_iff.mpr ⟨other, bitmap, hother⟩] at hlent
  cases hlent

theorem not_isLent (h : t.WellFormed) {item : Item} (hitem : t.items id = some item)
    (hbytes : item.bytes? = none) : t.isLent id = false := by
  refine Bool.eq_false_iff.mpr fun hlent => ?_
  obtain ⟨other, bitmap, hother⟩ := h.isLent_iff.mp hlent
  obtain ⟨-, bytes, hlender, -⟩ := h.borrows other bitmap id hother
  rw [hitem, Option.bind_some, hbytes] at hlender
  cases hlender

end Table.WellFormed

/-! ## The changes of a table -/

/-- What a step of the specification can do. -/
inductive Change (t : Table) (step : Action × Reply) : Table → Prop
  | nothing (hidle : Idle step) : Change t step t
  | made (item : Item) (hidle : Idle step)
      (hborrows : ∀ bitmap lender, item = .borrowed bitmap lender →
        ∃ bytes, (t.items lender).bind Item.bytes? = some bytes ∧ bitmap.bytes <:+: bytes) :
      Change t step (t.push item)
  | changed (id : ValueId) (item : Item) (hitem : t.items id = some item)
      (hlent : t.isLent id = false)
      (hothers : ∀ other (item : Item), other ≠ id → item.after other step = item) :
      Change t step (t.set id (some (item.after id step)))
  | gone (id : ValueId) (item : Item) (hitem : t.items id = some item)
      (hlent : t.isLent id = false) (hidle : Idle step) : Change t step (t.set id none)
  /-- `encode` and `finish`, when they succeed. -/
  | encoded (id : ValueId) (settings : AvifEncoder) (hitem : t.items id = some (.encoder settings))
      (hlent : t.isLent id = false) (hidle : Idle step) (content : List UInt8) :
      Change t step ((t.set id none).push (.data content))

section Builders

variable {α : Type} {part : Item → Option α} {next : α → Effect}

theorem change_of_replies {expected : Reply} (hidle : Idle (action, reply))
    (h : t.replies expected reply t') : Change t (action, reply) t' := by
  obtain ⟨-, rfl⟩ := h
  exact .nothing hidle

/-- A call that needs an item: without it nothing happens, with it the call goes on. -/
theorem change_of_needs (h : t.needs id part next reply t')
    (hnext : ∀ item a, t.items id = some item → part item = some a → next a reply t' →
      Change t (action, reply) t') : Change t (action, reply) t' := by
  unfold Table.needs at h
  cases hpart : (t.items id).bind part with
  | none =>
      rw [hpart] at h
      obtain ⟨rfl, rfl⟩ := h
      exact .nothing (idle_of_ne_done (by decide) action)
  | some a =>
      rw [hpart] at h
      obtain ⟨item, hitem, hitemPart⟩ := Option.bind_eq_some_iff.mp hpart
      exact hnext item a hitem hitemPart h

/-- A call that makes an item of its own, or an error. -/
theorem change_of_makes {errors : Error → Prop} {item : Item → Prop}
    (hidle : Idle (action, reply))
    (howned : ∀ i bitmap lender, item i → i ≠ .borrowed bitmap lender)
    (h : t.makes errors item reply t') : Change t (action, reply) t' := by
  rcases h with ⟨-, i, hi, rfl⟩ | ⟨e, -, -, rfl⟩
  · exact .made i hidle fun bitmap lender heq => absurd heq (howned i bitmap lender hi)
  · exact .nothing hidle

/-- `encode` and `finish` take their encoder away, and leave data behind when they succeed. -/
theorem change_of_collects (hwell : t.WellFormed) (hidle : Idle (action, reply))
    {settings : AvifEncoder} (hitem : t.items id = some (.encoder settings))
    (h : t.collects id reply t') : Change t (action, reply) t' := by
  have hlent := hwell.not_isLent hitem rfl
  rcases h with ⟨-, _, ⟨content, rfl⟩, rfl⟩ | ⟨e, -, -, rfl⟩
  · exact .encoded id settings hitem hlent hidle content
  · exact .gone id _ hitem hlent hidle

/-- A setter changes its encoder; nothing can be borrowed from an encoder, so it is not lent. -/
theorem change_of_sets (hwell : t.WellFormed) {update : AvifEncoder → AvifEncoder}
    (hchange : action.change? = some (id, .configure update)) (h : t.sets id update reply t') :
    Change t (action, reply) t' := by
  refine change_of_needs h ?_
  rintro item settings hitem hsettings ⟨rfl, rfl⟩
  cases item with
  | image | rgbImage | borrowed | decoder | data | bytes => cases hsettings
  | encoder =>
      cases hsettings
      have hafter : ∀ other (item : Item), item.after other (action, .done) =
          if id = other then item.configure update else item := by
        intro other item
        simp only [Item.after, hchange, and_true]
      have hchanged : Change t (action, .done) _ := Change.changed id _ hitem
        (hwell.not_isLent hitem rfl) fun other item hne => by rw [hafter, if_neg hne.symm]
      rwa [hafter, if_pos rfl] at hchanged

/-- A call with a byte argument: what it goes on with is part of the bytes of an item. -/
theorem change_of_withBytes {source : Source} {next : List UInt8 → Effect}
    (h : t.withBytes target source next reply t')
    (hnext : ∀ content bytes, (t.items source.id).bind Item.bytes? = some bytes →
      content <:+: bytes → next content reply t' → Change t (action, reply) t') :
    Change t (action, reply) t' := by
  refine change_of_needs h fun item view hitem hview h => ?_
  have hpanic : t.replies .panicked reply t' → Change t (action, reply) t' := by
    rintro ⟨rfl, rfl⟩
    exact .nothing (idle_of_ne_done (by decide) action)
  -- what an item shows is part of its bytes
  have hbytes : ∀ shown, view = some shown →
      ∃ bytes, item.bytes? = some bytes ∧ shown <:+: bytes := by
    rintro shown rfl
    cases item with
    | image | decoder | encoder => cases hview
    | data | bytes =>
        cases hview
        exact ⟨_, rfl, List.infix_rfl⟩
    | rgbImage bitmap | borrowed bitmap =>
        refine ⟨_, rfl, ?_⟩
        simp only [Item.view?, pixelView, Option.some.injEq] at hview
        split_ifs at hview
        · cases hview
          exact List.infix_rfl
        · cases hview
          exact (List.take_prefix _ _).isInfix
  cases view with
  | none => exact hpanic h
  | some shown =>
      obtain ⟨bytes, hitemBytes, hinfix⟩ := hbytes shown rfl
      simp only [Option.elim_some] at h
      split_ifs at h
      · refine hnext _ bytes (by rw [hitem, Option.bind_some, hitemBytes]) ?_ h
        have hpart : (shown.drop source.start).take source.len <:+: shown :=
          (List.take_prefix _ _).isInfix.trans (List.drop_suffix _ _).isInfix
        exact hpart.trans hinfix
      · exact hpanic h

end Builders

/-- Every step of the specification is one of the changes. -/
theorem change_of_spec (hwell : t.WellFormed) (h : t.spec target action reply t') :
    Change t (action, reply) t' := by
  cases action with
  | write id offset byte =>
      have hhead : ∀ {other : ValueId} (item : Item) (reply : Reply),
          item.after other (.write id offset byte, reply) =
            if id = other ∧ reply = .done then item.store offset byte else item :=
        fun _ _ => rfl
      refine change_of_needs h fun item a hitem hwritable h => ?_
      obtain ⟨bytes, wrap⟩ := a
      simp only at h
      split_ifs at h with hlent hin
      · obtain ⟨rfl, rfl⟩ := h
        exact .nothing (idle_of_ne_done (by decide) _)
      · obtain ⟨rfl, rfl⟩ := h
        -- `wrap` puts the written bytes back into the item they came from
        have hstore : item.store offset byte = wrap (bytes.set offset byte) := by
          cases item with
          | image | rgbImage | borrowed | decoder | encoder => cases hwritable
          | data | bytes => cases hwritable; rfl
        have hchanged : Change t (.write id offset byte, .done) _ := Change.changed id item hitem
          (Bool.eq_false_iff.mpr hlent) fun other item hne => by
            rw [hhead, if_neg fun hsame => hne hsame.1.symm]
        rwa [hhead, if_pos ⟨rfl, rfl⟩, hstore] at hchanged
      · obtain ⟨rfl, rfl⟩ := h
        exact .nothing (idle_of_ne_done (by decide) _)
  | call c =>
      cases c with
      | setMaxThreads encoder maxThreads => exact change_of_sets hwell rfl h
      | setSpeed encoder speed => exact change_of_sets hwell rfl h
      | setQuality encoder quality => exact change_of_sets hwell rfl h
      | newBytes block addr len =>
          have hidle : Idle (.call (.newBytes block addr len), reply) :=
            idle_of_change_none rfl reply
          rcases h with h | h
          · exact change_of_replies hidle h
          · exact change_of_makes hidle (by rintro _ _ _ ⟨_, -, rfl⟩; nofun) h
      | imageEmpty =>
          exact change_of_makes (idle_of_change_none rfl reply) (by rintro _ _ _ ⟨_, rfl⟩; nofun) h
      | imageNew =>
          exact change_of_makes (idle_of_change_none rfl reply) (by rintro _ _ _ rfl; nofun) h
      | decoderNew =>
          exact change_of_makes (idle_of_change_none rfl reply) (by rintro _ _ _ rfl; nofun) h
      | encoderNew =>
          exact change_of_makes (idle_of_change_none rfl reply) (by rintro _ _ _ ⟨_, rfl⟩; nofun) h
      | imageWidth | imageHeight | imageRawDepth | imageDepth | maxThreads | speed | quality
      | asSlice | pixels =>
          exact change_of_needs h fun _ _ _ _ h =>
            change_of_replies (idle_of_change_none rfl reply) h
      | toRgb =>
          refine change_of_needs h fun _ _ _ _ h => ?_
          exact change_of_makes (idle_of_change_none rfl reply)
            (by rintro _ _ _ ⟨_, -, rfl⟩; nofun) h
      | fromRgb =>
          refine change_of_needs h fun _ _ _ _ h => ?_
          exact change_of_makes (idle_of_change_none rfl reply) (by rintro _ _ _ rfl; nofun) h
      | borrowedNew width height depth format pixels =>
          have hidle : Idle (.call (.borrowedNew width height depth format pixels), reply) :=
            idle_of_change_none rfl reply
          refine change_of_withBytes h fun content bytes hlender hinfix h => ?_
          rcases h with ⟨-, h⟩ | h
          · exact change_of_replies hidle h
          · split_ifs at h
            · exact change_of_replies hidle h
            · exact change_of_replies hidle h
            · rcases h with ⟨-, _, rfl, rfl⟩ | ⟨_, hfalse, -⟩
              · -- the image shows the first bytes of the range that was lent to it
                refine .made _ hidle ?_
                rintro _ _ ⟨⟩
                exact ⟨bytes, hlender, (List.take_prefix _ _).isInfix.trans hinfix⟩
              · exact hfalse.elim
      | decode =>
          refine change_of_needs h fun _ _ _ _ h => change_of_withBytes h fun _ _ _ _ h => ?_
          exact change_of_makes (idle_of_change_none rfl reply) (by rintro _ _ _ ⟨_, rfl⟩; nofun) h
      | addImage =>
          refine change_of_needs h fun _ _ _ _ h => change_of_needs h fun _ _ _ _ h => ?_
          rcases h with h | ⟨e, -, h⟩
          · exact change_of_replies (idle_of_change_none rfl reply) h
          · exact change_of_replies (idle_of_change_none rfl reply) h
      | encode encoder image =>
          refine change_of_needs h fun item settings hitem hsettings h => ?_
          refine change_of_needs h fun _ _ _ _ h => ?_
          cases item with
          | image | rgbImage | borrowed | decoder | data | bytes => cases hsettings
          | encoder => exact change_of_collects hwell (idle_of_change_none rfl reply) hitem h
      | finish encoder =>
          refine change_of_needs h fun item settings hitem hsettings h => ?_
          cases item with
          | image | rgbImage | borrowed | decoder | data | bytes => cases hsettings
          | encoder => exact change_of_collects hwell (idle_of_change_none rfl reply) hitem h
      | asMutSlice data =>
          refine change_of_needs h fun _ _ _ _ h => ?_
          exact change_of_replies (idle_of_change_none rfl reply) h
      | drop id =>
          have hidle : Idle (.call (.drop id), reply) := idle_of_change_none rfl reply
          refine change_of_needs h fun item _ hitem _ h => ?_
          split_ifs at h with hlent
          · exact change_of_replies hidle h
          · obtain ⟨-, rfl⟩ := h
            exact .gone id item hitem (Bool.eq_false_iff.mpr hlent) hidle

/-! ## What changes keep -/

namespace Table

theorem push_items_self (t : Table) (item : Item) : (t.push item).items t.next = some item :=
  Function.update_self ..

theorem push_items_of_ne (t : Table) (item : Item) (hne : id ≠ t.next) :
    (t.push item).items id = t.items id :=
  Function.update_of_ne hne ..

theorem set_items_of_ne (t : Table) (item : Option Item) {other : ValueId} (hne : other ≠ id) :
    (t.set id item).items other = t.items other :=
  Function.update_of_ne hne ..

theorem set_items_self (t : Table) (id : ValueId) (item : Option Item) :
    (t.set id item).items id = item :=
  Function.update_self ..

theorem WellFormed.push (h : t.WellFormed) {item : Item}
    (hborrows : ∀ bitmap lender, item = .borrowed bitmap lender →
      ∃ bytes, (t.items lender).bind Item.bytes? = some bytes ∧ bitmap.bytes <:+: bytes) :
    (t.push item).WellFormed := by
  have hlender : ∀ {lender : ValueId} {bytes : List UInt8},
      (t.items lender).bind Item.bytes? = some bytes →
      lender < t.next ∧ ((t.push item).items lender).bind Item.bytes? = some bytes := by
    intro lender bytes hbytes
    obtain ⟨lent, hlent, -⟩ := Option.bind_eq_some_iff.mp hbytes
    have hlt := h.lt_next hlent
    exact ⟨hlt, by rw [t.push_items_of_ne item hlt.ne, hbytes]⟩
  refine ⟨fun id hid => ?_, fun id bitmap lender hid => ?_⟩
  · have hlt : t.next < id := hid
    rw [t.push_items_of_ne item hlt.ne', h.unused id hlt.le]
  · by_cases heq : id = t.next
    · subst heq
      rw [t.push_items_self] at hid
      obtain ⟨bytes, hbytes, hinfix⟩ := hborrows bitmap lender (Option.some.inj hid)
      exact ⟨(hlender hbytes).1, bytes, (hlender hbytes).2, hinfix⟩
    · rw [t.push_items_of_ne item heq] at hid
      obtain ⟨hlt, bytes, hbytes, hinfix⟩ := h.borrows id bitmap lender hid
      exact ⟨hlt, bytes, (hlender hbytes).2, hinfix⟩

/-- A change to an item that is not lent, unless it makes a borrowed image of it. -/
theorem WellFormed.set (h : t.WellFormed) {item : Item} {after : Option Item}
    (hitem : t.items id = some item) (hlent : t.isLent id = false)
    (hafter : ∀ bitmap lender, after = some (.borrowed bitmap lender) →
      item = .borrowed bitmap lender) :
    (t.set id after).WellFormed := by
  refine ⟨fun other hother => ?_, fun other bitmap lender hother => ?_⟩
  · have hne : other ≠ id := fun heq => absurd (h.lt_next hitem) (Nat.not_lt.mpr (heq ▸ hother))
    rw [t.set_items_of_ne after hne, h.unused other hother]
  · -- whoever borrows afterwards has borrowed before, and not from the item that changes
    have hbefore : t.items other = some (.borrowed bitmap lender) := by
      by_cases heq : other = id
      · subst heq
        rw [t.set_items_self] at hother
        rw [hitem, hafter bitmap lender hother]
      · rwa [t.set_items_of_ne after heq] at hother
    obtain ⟨hlt, bytes, hbytes, hinfix⟩ := h.borrows other bitmap lender hbefore
    refine ⟨hlt, bytes, ?_, hinfix⟩
    rw [t.set_items_of_ne after (h.lender_ne hlent hbefore), hbytes]

end Table

/-- No step makes a borrowed image out of another item. -/
theorem Item.after_eq_borrowed {item : Item} {bitmap : Bitmap} {lender : ValueId}
    (h : item.after id step = .borrowed bitmap lender) : item = .borrowed bitmap lender := by
  unfold Item.after Action.change? at h
  split at h
  · next hchange =>
    split at hchange
    all_goals
      cases hchange
    all_goals
      split_ifs at h
      · cases item with
        | image | rgbImage | borrowed | decoder => exact h
        | encoder => cases h
        | data | bytes => cases h
      · exact h
  · exact h

namespace Change

theorem wellFormed (h : Change t step t') (hwell : t.WellFormed) : t'.WellFormed := by
  cases h with
  | nothing => exact hwell
  | made item _ hborrows => exact hwell.push hborrows
  | changed id item hitem hlent =>
      refine hwell.set hitem hlent fun bitmap lender heq => ?_
      exact Item.after_eq_borrowed (Option.some.inj heq)
  | gone id item hitem hlent => exact hwell.set hitem hlent nofun
  | encoded id settings hitem hlent =>
      have hset : (t.set id none).WellFormed := hwell.set hitem hlent nofun
      exact hset.push fun bitmap lender heq => by cases heq

/-- An item becomes what the step makes of it, or is gone. -/
theorem items (h : Change t step t') (hwell : t.WellFormed) {item : Item}
    (hitem : t.items id = some item) :
    t'.items id = some (item.after id step) ∨ t'.items id = none := by
  have hne := (hwell.lt_next hitem).ne
  cases h with
  | nothing hidle => exact Or.inl (by rw [hidle, hitem])
  | made new hidle => exact Or.inl (by rw [t.push_items_of_ne new hne, hidle, hitem])
  | changed other old hold _ hothers =>
      by_cases heq : id = other
      · subst heq
        rw [hitem] at hold
        cases hold
        exact Or.inl (t.set_items_self _ _)
      · exact Or.inl (by rw [t.set_items_of_ne _ heq, hothers id item heq, hitem])
  | gone other _ _ _ hidle =>
      by_cases heq : id = other
      · subst heq
        exact Or.inr (t.set_items_self _ _)
      · exact Or.inl (by rw [t.set_items_of_ne _ heq, hidle, hitem])
  | encoded other _ _ _ hidle content =>
      rw [Table.push_items_of_ne (t.set other none) _ hne]
      by_cases heq : id = other
      · subst heq
        exact Or.inr (t.set_items_self _ _)
      · exact Or.inl (by rw [t.set_items_of_ne _ heq, hidle, hitem])

/-- A name is never used again. -/
theorem items_none (h : Change t step t') (hlt : id < t.next) (hnone : t.items id = none) :
    t'.items id = none := by
  cases h with
  | nothing => exact hnone
  | made new => rw [t.push_items_of_ne new hlt.ne, hnone]
  | changed other old hold =>
      have hne : id ≠ other := by
        rintro rfl
        rw [hnone] at hold
        cases hold
      rw [t.set_items_of_ne _ hne, hnone]
  | gone other =>
      by_cases heq : id = other
      · rw [heq, t.set_items_self]
      · rw [t.set_items_of_ne _ heq, hnone]
  | encoded other _ _ _ _ content =>
      rw [Table.push_items_of_ne (t.set other none) _ hlt.ne]
      by_cases heq : id = other
      · rw [heq, t.set_items_self]
      · rw [t.set_items_of_ne _ heq, hnone]

theorem next_le (h : Change t step t') : t.next ≤ t'.next := by
  cases h with
  | nothing | changed | gone => exact le_rfl
  | made | encoded => exact Nat.le_succ _

/-- What is lent is not touched. -/
theorem items_of_isLent (h : Change t step t') (hwell : t.WellFormed)
    (hlent : t.isLent id = true) : t'.items id = t.items id := by
  obtain ⟨other, bitmap, hother⟩ := hwell.isLent_iff.mp hlent
  have hlt : id < other := (hwell.borrows other bitmap id hother).1
  -- it is older than its borrower, so it is not the item that is made
  have hne : id ≠ t.next := (hlt.trans (hwell.lt_next hother)).ne
  have hdiffers : ∀ {changed : ValueId}, t.isLent changed = false → id ≠ changed := by
    rintro _ hchanged rfl
    rw [hlent] at hchanged
    cases hchanged
  cases h with
  | nothing => rfl
  | made new => exact t.push_items_of_ne new hne
  | changed _ _ _ hnot => exact t.set_items_of_ne _ (hdiffers hnot)
  | gone _ _ _ hnot => exact t.set_items_of_ne _ (hdiffers hnot)
  | encoded changed _ _ hnot =>
      rw [Table.push_items_of_ne (t.set changed none) _ hne, t.set_items_of_ne _ (hdiffers hnot)]

end Change

/-! ## Runs of the specification -/

/-- Runs keep the order of names and the borrows. -/
theorem Table.wellFormed_of_run {actions : List Action} {replies : List Reply}
    (h : SpecRun (Table.spec target) t actions replies t') (hwell : t.WellFormed) :
    t'.WellFormed :=
  h.keeps Table.WellFormed
    (fun _ _ _ _ hwell hspec => (change_of_spec hwell hspec).wellFormed hwell) hwell

/-- What a run leaves of an item: its changes in order, or nothing. -/
theorem Table.item_of_run {actions : List Action} {replies : List Reply}
    (h : SpecRun (Table.spec target) t actions replies t') (hwell : t.WellFormed) {item : Item}
    (hitem : t.items id = some item) :
    t'.items id =
        some ((actions.zip replies).foldl (fun item step => item.after id step) item) ∨
      t'.items id = none := by
  refine SpecRun.follows (fun t => t.items id) (fun step item => item.after id step)
    (fun t => t.WellFormed ∧ id < t.next) h ?_ ?_ ?_ ⟨hwell, hwell.lt_next hitem⟩ hitem
  · exact fun t action reply t' item hI hspec hitem =>
      (change_of_spec hI.1 hspec).items hI.1 hitem
  · exact fun t action reply t' hI hspec hnone =>
      (change_of_spec hI.1 hspec).items_none hI.2 hnone
  · intro t action reply t' hI hspec
    have hchange := change_of_spec hI.1 hspec
    exact ⟨hchange.wellFormed hI.1, hI.2.trans_le hchange.next_le⟩

/-- What is gone stays gone. -/
theorem Table.none_of_run {actions : List Action} {replies : List Reply}
    (h : SpecRun (Table.spec target) t actions replies t') (hwell : t.WellFormed)
    (hlt : id < t.next) (hnone : t.items id = none) : t'.items id = none := by
  have hend := h.keeps (fun t => t.WellFormed ∧ id < t.next ∧ t.items id = none)
    (fun t action reply t' hI hspec => by
      have hchange := change_of_spec hI.1 hspec
      exact ⟨hchange.wellFormed hI.1, hI.2.1.trans_le hchange.next_le,
        hchange.items_none hI.2.1 hI.2.2⟩) ⟨hwell, hlt, hnone⟩
  exact hend.2.2

/-- A borrowed image that is alive at the end has been what it is all the time, and so
has what it borrows from. -/
theorem Table.borrow_of_run {actions : List Action} {replies : List Reply}
    (h : SpecRun (Table.spec target) t actions replies t') (hwell : t.WellFormed)
    {bitmap : Bitmap} {lender : ValueId} (hitem : t.items id = some (.borrowed bitmap lender))
    (halive : t'.items id ≠ none) :
    t'.items id = some (.borrowed bitmap lender) ∧ t'.items lender = t.items lender := by
  have hend := h.keeps (fun now => now.WellFormed ∧ id < now.next ∧ (now.items id = none ∨
      now.items id = some (.borrowed bitmap lender) ∧ now.items lender = t.items lender))
    (fun now action reply after hI hspec => by
      obtain ⟨hnow, hlt, hitems⟩ := hI
      have hchange := change_of_spec hnow hspec
      refine ⟨hchange.wellFormed hnow, hlt.trans_le hchange.next_le, ?_⟩
      rcases hitems with hnone | ⟨hborrowed, hlender⟩
      · exact Or.inl (hchange.items_none hlt hnone)
      · -- a step can only take the borrowed image away, and until then its lender is lent
        rcases hchange.items hnow hborrowed with hkept | hgone
        · rw [Item.after_eq_self rfl rfl] at hkept
          have hlent := hnow.isLent_iff.mpr ⟨id, bitmap, hborrowed⟩
          exact Or.inr ⟨hkept, (hchange.items_of_isLent hnow hlent).trans hlender⟩
        · exact Or.inl hgone) ⟨hwell, hwell.lt_next hitem, Or.inr ⟨hitem, rfl⟩⟩
  exact hend.2.2.resolve_left halive

/-! ## Settings of an encoder -/

/-- The settings that have a getter and a setter. -/
inductive Setting where
  | maxThreads
  | speed
  | quality
deriving DecidableEq

/-- The setting that a call sets, of which encoder, and to what. -/
def Call.setting? : Call → Option (Setting × ValueId × Int32)
  | .setMaxThreads encoder value => some (.maxThreads, encoder, value)
  | .setSpeed encoder value => some (.speed, encoder, value)
  | .setQuality encoder value => some (.quality, encoder, value)
  | _ => none

namespace Setting

/-- The value of a setting. -/
def get : Setting → AvifEncoder → Int32
  | .maxThreads => AvifEncoder.maxThreads
  | .speed => AvifEncoder.speed
  | .quality => AvifEncoder.quality

/-- The getter of a setting. -/
def query : Setting → ValueId → Query
  | .maxThreads => .maxThreads
  | .speed => .speed
  | .quality => .quality

/-- What a step sets a setting of an encoder to, if it succeeds in that. -/
def setBy? (setting : Setting) (encoder : ValueId) : Action × Reply → Option Int32
  | (.call c, .done) => c.setting?.bind fun (set, id, value) =>
      if set = setting ∧ id = encoder then some value else none
  | _ => none

theorem answer_query (setting : Setting) (t : Table) (encoder : ValueId) :
    t.answer target (setting.query encoder) =
      ((t.items encoder).bind Item.settings?).map fun settings => .int (setting.get settings) := by
  cases setting <;> rfl

/-- One step: the setting is what the step sets it to, if it does, and otherwise what it was. -/
theorem get_after (setting : Setting) (settings : AvifEncoder) (encoder : ValueId)
    (step : Action × Reply) :
    ∃ settings', (Item.encoder settings).after encoder step = .encoder settings' ∧
      setting.get settings' = (setting.setBy? encoder step).getD (setting.get settings) := by
  obtain ⟨action, reply⟩ := step
  have hidle : Idle (action, reply) → setting.setBy? encoder (action, reply) = none →
      ∃ settings', (Item.encoder settings).after encoder (action, reply) = .encoder settings' ∧
        setting.get settings' =
          (setting.setBy? encoder (action, reply)).getD (setting.get settings) :=
    fun hidle hnone => ⟨settings, hidle _ _, by rw [hnone]; rfl⟩
  cases reply with
  | err | panicked | rejected =>
      refine hidle (idle_of_ne_done ?_ action) (by cases action <;> rfl)
      nofun
  | done =>
      cases action with
      | write id offset byte =>
          refine ⟨settings, ?_, rfl⟩
          simp only [Item.after, Action.change?, Item.store, ite_self]
      | call c =>
          cases c with
          | setMaxThreads id value | setSpeed id value | setQuality id value =>
              by_cases hid : id = encoder
              · simp only [Item.after, Action.change?, hid, and_self, if_true, Item.configure,
                  Item.encoder.injEq, exists_eq_left']
                cases setting <;> simp [setBy?, Call.setting?, get]
              · refine ⟨settings, ?_, ?_⟩
                · simp only [Item.after, Action.change?, hid, false_and, if_false]
                · simp [setBy?, Call.setting?, hid]
          | _ => exact hidle (idle_of_change_none rfl .done) rfl

/-- The settings after some steps: the last one set, or what it was. -/
theorem get_foldl (setting : Setting) (encoder : ValueId) (steps : List (Action × Reply))
    (settings : AvifEncoder) :
    ∃ settings', steps.foldl (fun item step => Item.after encoder step item)
        (Item.encoder settings) = Item.encoder settings' ∧
      setting.get settings' =
        (steps.filterMap (setting.setBy? encoder)).getLastD (setting.get settings) := by
  induction steps generalizing settings with
  | nil => exact ⟨settings, rfl, rfl⟩
  | cons step rest ih =>
      obtain ⟨next, hnext, hget⟩ := setting.get_after settings encoder step
      obtain ⟨settings', hfold, hlast⟩ := ih next
      refine ⟨settings', by rw [List.foldl_cons, hnext, hfold], ?_⟩
      rw [hlast, hget, List.filterMap_cons]
      cases setting.setBy? encoder step with
      | none => rfl
      | some value => rw [Option.getD_some, List.getLastD_cons]

end Setting

/-! ## Sessions -/

/-- A session, continued: both parts are runs of the specification. -/
theorem session_continued (target : Target) (hlib : lib.Documented) (hconf : lib.Confined)
    (hidden : σ) (first later : List Action) :
    ∃ replies s more s', trace (act target lib) (State.boot hidden) first = .ok (replies, s) ∧
      trace (act target lib) s later = .ok (more, s') ∧ s.Valid ∧ s'.Valid ∧
      s.meaning.WellFormed ∧ SpecRun (Table.spec target) s.meaning later more s'.meaning := by
  obtain ⟨replies, s, hfirst, hvalid, hrun⟩ :=
    trace_implements target hlib hconf (State.valid_boot hidden) first
  obtain ⟨more, s', hlater, hvalid', hmore⟩ := trace_implements target hlib hconf hvalid later
  exact ⟨replies, s, more, s', hfirst, hlater, hvalid, hvalid',
    Table.wellFormed_of_run hrun Table.wellFormed_empty, hmore⟩

/-- Between any two points of a session a value goes through the changes that name it and
succeed, in order and no others, or is gone; and a name that is free again stays free. -/
theorem item_history (target : Target) (hlib : lib.Documented) (hconf : lib.Confined)
    (hidden : σ) (first later : List Action) :
    ∃ replies s more s', trace (act target lib) (State.boot hidden) first = .ok (replies, s) ∧
      trace (act target lib) s later = .ok (more, s') ∧
      (∀ id item, s.meaning.items id = some item →
        s'.meaning.items id =
            some ((later.zip more).foldl (fun item step => item.after id step) item) ∨
          s'.meaning.items id = none) ∧
      ∀ id, id < s.next → s.meaning.items id = none → s'.meaning.items id = none := by
  obtain ⟨replies, s, more, s', hfirst, hlater, -, -, hwell, hrun⟩ :=
    session_continued target hlib hconf hidden first later
  refine ⟨replies, s, more, s', hfirst, hlater, fun id item hitem => ?_, fun id hlt hnone => ?_⟩
  · exact Table.item_of_run hrun hwell hitem
  · exact Table.none_of_run hrun hwell hlt hnone

theorem item_history_small :
    ∃ replies s more s', trace (act .release64 .small) (State.boot 0)
        [.call (.newBytes 100 4096 4), .call .encoderNew] = .ok (replies, s) ∧
      trace (act .release64 .small) s
        [.write 0 1 7, .call (.setSpeed 1 6), .call (.drop 1)] = .ok (more, s') ∧
      (∀ id item, s.meaning.items id = some item →
        s'.meaning.items id = some (([.write 0 1 7, .call (.setSpeed 1 6), .call (.drop 1)].zip
            more).foldl (fun item step => item.after id step) item) ∨
          s'.meaning.items id = none) ∧
      ∀ id, id < s.next → s.meaning.items id = none → s'.meaning.items id = none :=
  item_history .release64 documented_small confined_small 0 _ _

/-- A getter of an encoder returns what its setter set last, whatever else is called in
between, as long as the encoder is there. -/
theorem setting_last_set (target : Target) (hlib : lib.Documented) (hconf : lib.Confined)
    (hidden : σ) (first later : List Action) :
    ∃ replies s more s', trace (act target lib) (State.boot hidden) first = .ok (replies, s) ∧
      trace (act target lib) s later = .ok (more, s') ∧
      ∀ (setting : Setting) encoder value,
        s.answer target (setting.query encoder) = .ok (some (.int value)) →
        s'.answer target (setting.query encoder) = .ok (some (.int
            (((later.zip more).filterMap (setting.setBy? encoder)).getLastD value))) ∨
          s'.answer target (setting.query encoder) = .ok none := by
  obtain ⟨replies, s, more, s', hfirst, hlater, hvalid, hvalid', hwell, hrun⟩ :=
    session_continued target hlib hconf hidden first later
  refine ⟨replies, s, more, s', hfirst, hlater, fun setting encoder value hanswer => ?_⟩
  rw [hvalid.answer_eq, setting.answer_query] at hanswer
  rw [hvalid'.answer_eq, setting.answer_query]
  cases hitem : s.meaning.items encoder with
  | none =>
      rw [hitem] at hanswer
      cases hanswer
  | some item =>
      rw [hitem] at hanswer
      cases item with
      | image | rgbImage | borrowed | decoder | data | bytes => cases hanswer
      | encoder settings =>
          cases hanswer
          rcases Table.item_of_run hrun hwell hitem with hkept | hgone
          · obtain ⟨settings', hfold, hlast⟩ :=
              setting.get_foldl encoder (later.zip more) settings
            left
            rw [hkept, hfold, ← hlast]
            rfl
          · right
            rw [hgone]
            rfl

theorem setting_last_set_small :
    ∃ replies s more s', trace (act .release64 .small) (State.boot 0)
        [.call .encoderNew, .call .encoderNew] = .ok (replies, s) ∧
      trace (act .release64 .small) s
        [.call (.setSpeed 0 6), .call (.setQuality 0 60), .call (.setSpeed 1 9)] =
          .ok (more, s') ∧
      ∀ (setting : Setting) encoder value,
        s.answer .release64 (setting.query encoder) = .ok (some (.int value)) →
        s'.answer .release64 (setting.query encoder) = .ok (some (.int
            ((([.call (.setSpeed 0 6), .call (.setQuality 0 60), .call (.setSpeed 1 9)].zip
              more).filterMap (setting.setBy? encoder)).getLastD value))) ∨
          s'.answer .release64 (setting.query encoder) = .ok none :=
  setting_last_set .release64 documented_small confined_small 0 _ _

/-- While a `BorrowedRgbImage` is alive, it shows bytes of an older value, and neither it
nor that value changes. -/
theorem borrow_protects (target : Target) (hlib : lib.Documented) (hconf : lib.Confined)
    (hidden : σ) (first later : List Action) :
    ∃ replies s more s', trace (act target lib) (State.boot hidden) first = .ok (replies, s) ∧
      trace (act target lib) s later = .ok (more, s') ∧
      ∀ id bitmap lender, s.meaning.items id = some (.borrowed bitmap lender) →
        (lender < id ∧ ∃ bytes, (s.meaning.items lender).bind Item.bytes? = some bytes ∧
          bitmap.bytes <:+: bytes) ∧
        (s'.meaning.items id ≠ none → s'.meaning.items id = some (.borrowed bitmap lender) ∧
          s'.meaning.items lender = s.meaning.items lender) := by
  obtain ⟨replies, s, more, s', hfirst, hlater, -, -, hwell, hrun⟩ :=
    session_continued target hlib hconf hidden first later
  refine ⟨replies, s, more, s', hfirst, hlater, fun id bitmap lender hitem => ⟨?_, ?_⟩⟩
  · exact hwell.borrows id bitmap lender hitem
  · exact Table.borrow_of_run hrun hwell hitem

theorem borrow_protects_small :
    ∃ replies s more s', trace (act .release64 .small) (State.boot 0)
        [.call (.newBytes 100 4096 16), .call (.borrowedNew 2 2 .b8 .rgb ⟨0, 1, 14⟩)] =
          .ok (replies, s) ∧
      trace (act .release64 .small) s [.write 0 5 7, .call (.drop 0)] = .ok (more, s') ∧
      ∀ id bitmap lender, s.meaning.items id = some (.borrowed bitmap lender) →
        (lender < id ∧ ∃ bytes, (s.meaning.items lender).bind Item.bytes? = some bytes ∧
          bitmap.bytes <:+: bytes) ∧
        (s'.meaning.items id ≠ none → s'.meaning.items id = some (.borrowed bitmap lender) ∧
          s'.meaning.items lender = s.meaning.items lender) :=
  borrow_protects .release64 documented_small confined_small 0 _ _

end Favi

import Favi.Foundation.Bookkeeping
import Favi.Ownership

/-!
# Leaks

A session leaks nothing exactly when none of its conversions to RGB fails after
libavif has allocated the pixel buffer.  `RgbImage::from_image` keeps that buffer in a
bare `avifRGBImage`, which has no destructor, until the conversion has succeeded; every
other function hands what libavif allocates to an owner at once.

While no call leaks, the books stay tight: what is allocated is owned.  A leaked buffer
is owned by nobody, and no later call frees it or finds an owner for it.
-/

namespace Favi

open Custody Program

variable {σ : Type} {target : Target} {lib : Libavif σ} {s s' : State σ} {c : Call}

/-! ## No leak in one state -/

/-- What is allocated is what the live values own; and when all that is left are byte
buffers of the user's own, nothing of libavif's is left. -/
structure State.NoLeak (s : State σ) : Prop where
  owned : ∀ handle object, s.ledger handle = .live object ↔
    ∃ id value, s.values id = some value ∧ value.holds = some (handle, object)
  drained : (∀ id value, s.values id = some value → ∃ slice, value = .bytes slice) →
    ∀ handle object, s.ledger handle = .live object → object.ofLibavif = false

theorem State.Valid.noLeak_iff (h : s.Valid) : s.NoLeak ↔ Tight s.books := by
  have hbooks : ∀ id handle object, s.books.holds id = some (handle, object) ↔
      ∃ value, s.values id = some value ∧ value.holds = some (handle, object) :=
    fun id handle object => Option.bind_eq_some_iff
  constructor
  · intro hnoLeak handle object hlive
    obtain ⟨id, value, hvalue, hholds⟩ := (hnoLeak.owned handle object).mp hlive
    exact ⟨id, (hbooks id handle object).mpr ⟨value, hvalue, hholds⟩⟩
  · intro htight
    have howned : ∀ handle object, s.ledger handle = .live object →
        ∃ id value, s.values id = some value ∧ value.holds = some (handle, object) := by
      intro handle object hlive
      obtain ⟨id, hholds⟩ := htight handle object hlive
      exact ⟨id, (hbooks id handle object).mp hholds⟩
    refine ⟨fun handle object => ⟨howned handle object, ?_⟩, fun hbytes handle object hlive => ?_⟩
    · rintro ⟨id, value, hvalue, hholds⟩
      exact h.live_of_holds hvalue hholds
    · obtain ⟨id, value, hvalue, hholds⟩ := howned handle object hlive
      obtain ⟨slice, rfl⟩ := hbytes id value hvalue
      cases hholds
      rfl

/-- With every value gone, an object of libavif's that is still allocated has leaked. -/
theorem State.not_noLeak (hgone : ∀ id, s.values id = none) {handle : Handle} {object : Object}
    (hlive : s.ledger handle = .live object) (hobject : object.ofLibavif = true) : ¬ s.NoLeak := by
  intro hnoLeak
  have hbytes : ∀ id value, s.values id = some value → ∃ slice, value = .bytes slice := by
    intro id value hvalue
    rw [hgone id] at hvalue
    cases hvalue
  rw [hnoLeak.drained hbytes handle object hlive] at hobject
  cases hobject

theorem State.tight_boot (hidden : σ) : Tight (State.boot hidden).books :=
  fun _ _ hlive => by cases hlive

/-! ## No leak over a session -/

/-- A call leaves an allocation behind exactly when it leaks. -/
theorem Transition.exists_stray_iff {moves : List (Move ValueId Handle Object)}
    (h : Transition lib s c moves s') :
    (∃ move ∈ moves, move.isStray = true) ↔ LeaksAt lib s c := by
  have hnone : ∀ {gone tail releases}, Consumes s c gone tail releases →
      ¬ ∃ move ∈ releases, move.isStray = true := by
    rintro gone tail releases hconsumes ⟨move, hmem, hstray⟩
    rw [hconsumes.not_stray move hmem] at hstray
    cases hstray
  cases h with
  | quiet hconsumes hleak => exact iff_of_false (hnone hconsumes) hleak
  | undone hconsumes hleak | made hconsumes hleak =>
      refine iff_of_false ?_ hleak
      rintro ⟨move, hmem, hstray⟩
      rcases List.mem_cons.mp hmem with rfl | hmem
      · cases hstray
      · exact hnone hconsumes ⟨move, hmem, hstray⟩
  | leaked _ hleak => exact iff_of_true ⟨_, List.mem_cons_self .., rfl⟩ hleak
  | lent hleak => exact iff_of_false (by simp) hleak

/-- Calls keep the books, and those that leak are the strays. -/
theorem keepsBooks_exec (target : Target) (hlib : lib.Documented) :
    KeepsBooks (exec target lib) State.Valid State.books (LeaksAt lib) where
  sound _ hvalid := hvalid.sound
  moves s c hvalid := by
    obtain ⟨reply, s', moves, hexec, htransition⟩ := exec_transition target hlib hvalid c
    exact ⟨reply, s', moves, hexec, htransition.valid hvalid, htransition.moves_books hvalid,
      htransition.exists_stray_iff⟩

/-- A session leaks nothing exactly when none of its calls converts to RGB with an
allocation that succeeds and a conversion that then fails. -/
theorem noLeak_iff_along (target : Target) (hlib : lib.Documented) (hidden : σ)
    (calls : List Call) :
    ∃ s, run (exec target lib) (State.boot hidden) calls = .ok s ∧
      (s.NoLeak ↔
        Along (exec target lib) (fun s c => ¬ LeaksAt lib s c) (State.boot hidden) calls) := by
  obtain ⟨s, hrun, hvalid, htight⟩ := (keepsBooks_exec target hlib).tight_iff_along calls
    (State.valid_boot hidden) (State.tight_boot hidden)
  exact ⟨s, hrun, hvalid.noLeak_iff.trans htight⟩

theorem noLeak_iff_along_small :
    ∃ s, run (exec .release64 .small) (State.boot 0)
        [.imageNew 2 2 .b8 .yuv420, .toRgb 0 .b10 .rgb565, .drop 0] = .ok s ∧
      (s.NoLeak ↔ Along (exec .release64 .small) (fun s c => ¬ LeaksAt .small s c)
        (State.boot 0) [.imageNew 2 2 .b8 .yuv420, .toRgb 0 .b10 .rgb565, .drop 0]) :=
  noLeak_iff_along .release64 documented_small 0
    [.imageNew 2 2 .b8 .yuv420, .toRgb 0 .b10 .rgb565, .drop 0]

/-- A failed conversion leaks its buffer: the call returns an error, the only wrapper is
then dropped, and eight bytes are still allocated. -/
theorem failed_toRgb_leaks :
    Libavif.small.Documented ∧
    ∃ s s', run (exec .release64 .small) (State.boot 0) [.imageNew 2 2 .b8 .yuv420] = .ok s ∧
      exec .release64 .small s (.toRgb 0 .b10 .rgb565) =
        .ok (.err (.code .reformatFailed), s') ∧
      ∃ s'', exec .release64 .small s' (.drop 0) = .ok (.done, s'') ∧
        (∀ id, s''.values id = none) ∧
        s''.ledger 1 = .live (.buffer .rgbPixels (SmallWorld.address 1) 8) ∧ ¬ s''.NoLeak := by
  have hend : ∀ {s : State ℕ} {object : Object}, (∀ id, s.values id = none) →
      s.ledger 1 = .live object → object.ofLibavif = true →
      (∀ id, s.values id = none) ∧ s.ledger 1 = .live object ∧ ¬ s.NoLeak :=
    fun hgone hlive hobject => ⟨hgone, hlive, State.not_noLeak hgone hlive hobject⟩
  -- the three calls evaluate; only that no name is left in use needs a case split
  refine ⟨documented_small, _, _, rfl, rfl, _, rfl, hend (fun id => ?_) rfl rfl⟩
  by_cases hid : id = 0
  · subst hid
    rfl
  · exact (Function.update_of_ne hid _ _).trans (Function.update_of_ne hid _ _)

end Favi

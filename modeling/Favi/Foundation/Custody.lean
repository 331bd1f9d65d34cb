import Mathlib.Logic.Function.Basic
import Mathlib.Data.List.Nodup

/-!
# Ledgers, owners and strays

A ledger says of every handle whether it was never allocated, is allocated now,
or has been freed.  A handle stands for one allocation, so it never becomes
fresh again.  On top of the ledger, `Books` records which owner holds which
handle, and `Move` lists the ways in which the two change together:

* an owner acquires a fresh allocation;
* an owner gives its allocation back;
* an allocation is made and freed again before anybody holds it;
* an allocation is made and nobody takes it (`stray`).

The results are the two directions of custody.  `Sound` says that what an owner
holds is allocated and held by nobody else; every move keeps it.  `Tight` says
that what is allocated is held by somebody; every move but `stray` keeps it, and
no later move makes up for a `stray` (`tight_or_strayed`).

Handles, kinds and owners are arbitrary types throughout.
-/

namespace Custody

variable {ι η κ : Type*}

/-- The life of one allocation. -/
inductive Cell (κ : Type*) where
  | fresh
  | live (kind : κ)
  | freed
deriving DecidableEq

/-- What has become of every handle so far. -/
abbrev Ledger (η κ : Type*) := η → Cell κ

/-- What can happen to the allocation under a handle. -/
inductive Event (η κ : Type*) where
  | alloc (handle : η) (kind : κ)
  | free (handle : η) (kind : κ)

/-- An allocation takes a fresh handle; only what is live can be freed. -/
def Event.Allowed (ledger : Ledger η κ) : Event η κ → Prop
  | .alloc handle _ => ledger handle = .fresh
  | .free handle kind => ledger handle = .live kind

/-- The handle of a free. -/
def Event.freed? : Event η κ → Option η
  | .alloc _ _ => none
  | .free handle _ => some handle

section Ledger

variable [DecidableEq η]

/-- The ledger after the event. -/
def Event.apply (ledger : Ledger η κ) : Event η κ → Ledger η κ
  | .alloc handle kind => Function.update ledger handle (.live kind)
  | .free handle _ => Function.update ledger handle .freed

/-- `Evolves before events after`: the events are allowed one after the other
and lead from one ledger to the other. -/
inductive Evolves : Ledger η κ → List (Event η κ) → Ledger η κ → Prop
  | nil (ledger : Ledger η κ) : Evolves ledger [] ledger
  | cons {ledger after : Ledger η κ} {event : Event η κ} {rest : List (Event η κ)}
      (allowed : event.Allowed ledger) (tail : Evolves (event.apply ledger) rest after) :
      Evolves ledger (event :: rest) after

theorem Evolves.alloc {ledger : Ledger η κ} {handle : η} (kind : κ)
    (hfresh : ledger handle = .fresh) :
    Evolves ledger [.alloc handle kind] (Function.update ledger handle (.live kind)) :=
  .cons hfresh (.nil _)

theorem Evolves.free {ledger : Ledger η κ} {handle : η} {kind : κ}
    (hlive : ledger handle = .live kind) :
    Evolves ledger [.free handle kind] (Function.update ledger handle .freed) :=
  .cons hlive (.nil _)

theorem Evolves.eq_of_nil {before after : Ledger η κ} (h : Evolves before [] after) :
    after = before := by
  cases h
  rfl

theorem Evolves.eq_of_alloc {before after : Ledger η κ} {handle : η} {kind : κ}
    (h : Evolves before [.alloc handle kind] after) :
    before handle = .fresh ∧ after = Function.update before handle (.live kind) := by
  cases h with
  | cons allowed tail => exact ⟨allowed, tail.eq_of_nil⟩

theorem Evolves.eq_of_free {before after : Ledger η κ} {handle : η} {kind : κ}
    (h : Evolves before [.free handle kind] after) :
    before handle = .live kind ∧ after = Function.update before handle .freed := by
  cases h with
  | cons allowed tail => exact ⟨allowed, tail.eq_of_nil⟩

theorem Evolves.append {first middle last : Ledger η κ} {events more : List (Event η κ)}
    (h₁ : Evolves first events middle) (h₂ : Evolves middle more last) :
    Evolves first (events ++ more) last := by
  induction h₁ with
  | nil => exact h₂
  | cons allowed _ ih => exact .cons allowed (ih h₂)

theorem Evolves.freed {before after : Ledger η κ} {events : List (Event η κ)}
    (h : Evolves before events after) {handle : η} (hfreed : before handle = .freed) :
    after handle = .freed := by
  induction h with
  | nil => exact hfreed
  | @cons ledger after event rest allowed _ ih =>
      refine ih ?_
      cases event with
      | alloc other kind =>
          have hne : handle ≠ other := by
            rintro rfl
            rw [Event.Allowed, hfreed] at allowed
            cases allowed
          rw [Event.apply, Function.update_of_ne hne, hfreed]
      | free other kind =>
          have hne : handle ≠ other := by
            rintro rfl
            rw [Event.Allowed, hfreed] at allowed
            cases allowed
          rw [Event.apply, Function.update_of_ne hne, hfreed]

/-- What is freed in the end was freed at first or by one of the events. -/
theorem Evolves.freed_or_mem {before after : Ledger η κ} {events : List (Event η κ)}
    (h : Evolves before events after) {handle : η} (hfreed : after handle = .freed) :
    before handle = .freed ∨ handle ∈ events.filterMap Event.freed? := by
  induction h with
  | nil => exact Or.inl hfreed
  | @cons ledger after event rest allowed _ ih =>
      rcases ih hfreed with hbefore | hmem
      · by_cases heq : event.freed? = some handle
        · exact Or.inr (List.mem_filterMap.mpr ⟨event, List.mem_cons_self .., heq⟩)
        · -- the event frees something else, or makes something that is then not freed
          left
          cases event with
          | alloc other kind =>
              have hne : handle ≠ other := by
                rintro rfl
                rw [Event.apply, Function.update_self] at hbefore
                cases hbefore
              rwa [Event.apply, Function.update_of_ne hne] at hbefore
          | free other kind =>
              have hne : handle ≠ other := fun h => heq (congrArg some h.symm)
              rwa [Event.apply, Function.update_of_ne hne] at hbefore
      · obtain ⟨other, hother, heq⟩ := List.mem_filterMap.mp hmem
        exact Or.inr (List.mem_filterMap.mpr ⟨other, List.mem_cons_of_mem _ hother, heq⟩)

/-- A log of the frees so far: nothing twice, and only what is freed. -/
structure FreeLog (ledger : Ledger η κ) (log : List η) : Prop where
  nodup : log.Nodup
  freed : ∀ handle ∈ log, ledger handle = .freed

theorem FreeLog.evolves {before after : Ledger η κ} {events : List (Event η κ)} {log : List η}
    (hlog : FreeLog before log) (h : Evolves before events after) :
    FreeLog after (log ++ events.filterMap Event.freed?) := by
  induction h generalizing log with
  | nil => simpa using hlog
  | @cons ledger after event rest allowed tail ih =>
      have hstep : Evolves ledger [event] (event.apply ledger) := .cons allowed (.nil _)
      cases event with
      | alloc handle kind =>
          refine ih ⟨hlog.nodup, fun other hother => ?_⟩
          exact hstep.freed (hlog.freed other hother)
      | free handle kind =>
          have hnew : handle ∉ log := by
            intro hmem
            have := hlog.freed handle hmem
            rw [show ledger handle = .live kind from allowed] at this
            cases this
          have hlog' : FreeLog ((Event.free handle kind).apply ledger) (log ++ [handle]) := by
            refine ⟨?_, fun other hother => ?_⟩
            · rw [List.nodup_append]
              refine ⟨hlog.nodup, by simp, ?_⟩
              rintro a ha b hb rfl
              exact hnew (List.mem_singleton.mp hb ▸ ha)
            · rcases List.mem_append.mp hother with hother | hother
              · exact hstep.freed (hlog.freed other hother)
              · rw [List.mem_singleton.mp hother, Event.apply, Function.update_self]
          have := ih hlog'
          rwa [List.append_assoc] at this

end Ledger

/-! ## Books: the ledger and the owners -/

/-- A ledger together with what each owner holds. -/
structure Books (ι η κ : Type*) where
  ledger : Ledger η κ
  holds : ι → Option (η × κ)

/-- One step of the bookkeeping, with the owner and the handle it is about. -/
inductive Move (ι η κ : Type*) where
  /-- A fresh allocation, taken by `owner`. -/
  | acquire (owner : ι) (handle : η) (kind : κ)
  /-- `owner` frees what it holds. -/
  | release (owner : ι) (handle : η) (kind : κ)
  /-- A fresh allocation, freed before anybody takes it. -/
  | transient (handle : η) (kind : κ)
  /-- A fresh allocation that nobody takes. -/
  | stray (handle : η) (kind : κ)

namespace Move

/-- What the move does to the ledger. -/
def events : Move ι η κ → List (Event η κ)
  | .acquire _ handle kind => [.alloc handle kind]
  | .release _ handle kind => [.free handle kind]
  | .transient handle kind => [.alloc handle kind, .free handle kind]
  | .stray handle kind => [.alloc handle kind]

/-- Whether a move leaves an allocation behind. -/
def isStray : Move ι η κ → Bool
  | .stray _ _ => true
  | _ => false

/-- When the move is possible. -/
def Allowed (books : Books ι η κ) : Move ι η κ → Prop
  | .acquire owner handle _ => books.holds owner = none ∧ books.ledger handle = .fresh
  | .release owner handle kind =>
      books.holds owner = some (handle, kind) ∧ books.ledger handle = .live kind
  | .transient handle _ => books.ledger handle = .fresh
  | .stray handle _ => books.ledger handle = .fresh

/-- The handle that the move is about. -/
def handle : Move ι η κ → η
  | .acquire _ handle _ | .release _ handle _ | .transient handle _ | .stray handle _ => handle

/-- The owner that the move is about, if there is one. -/
def owner? : Move ι η κ → Option ι
  | .acquire owner _ _ | .release owner _ _ => some owner
  | .transient _ _ | .stray _ _ => none

variable [DecidableEq ι] [DecidableEq η]

/-- The books after the move. -/
def apply (books : Books ι η κ) : Move ι η κ → Books ι η κ
  | .acquire owner handle kind =>
      ⟨Function.update books.ledger handle (.live kind),
        Function.update books.holds owner (some (handle, kind))⟩
  | .release owner handle _ =>
      ⟨Function.update books.ledger handle .freed, Function.update books.holds owner none⟩
  | .transient handle _ => ⟨Function.update books.ledger handle .freed, books.holds⟩
  | .stray handle kind => ⟨Function.update books.ledger handle (.live kind), books.holds⟩

theorem ledger_apply_of_ne (books : Books ι η κ) {move : Move ι η κ} {other : η}
    (hne : other ≠ move.handle) : (move.apply books).ledger other = books.ledger other := by
  cases move <;> exact Function.update_of_ne hne _ _

theorem holds_apply_of_ne (books : Books ι η κ) {move : Move ι η κ} {other : ι}
    (hne : move.owner? ≠ some other) : (move.apply books).holds other = books.holds other := by
  cases move with
  | acquire owner | release owner =>
      exact Function.update_of_ne (fun heq => hne (congrArg some heq.symm)) _ _
  | transient | stray => rfl

end Move

/-- What is held is allocated, as the kind it is held as, and by one owner only. -/
structure Sound (books : Books ι η κ) : Prop where
  live : ∀ owner handle kind, books.holds owner = some (handle, kind) →
    books.ledger handle = .live kind
  unique : ∀ first second handle kind kind', books.holds first = some (handle, kind) →
    books.holds second = some (handle, kind') → first = second

/-- What is allocated is held. -/
def Tight (books : Books ι η κ) : Prop :=
  ∀ handle kind, books.ledger handle = .live kind →
    ∃ owner, books.holds owner = some (handle, kind)

/-- `handle` is allocated and nobody holds it. -/
def Strayed (books : Books ι η κ) (handle : η) : Prop :=
  (∃ kind, books.ledger handle = .live kind) ∧
    ∀ owner kind, books.holds owner ≠ some (handle, kind)

theorem Strayed.not_tight {books : Books ι η κ} {handle : η} (h : Strayed books handle) :
    ¬ Tight books := by
  intro htight
  obtain ⟨kind, hlive⟩ := h.1
  obtain ⟨owner, hholds⟩ := htight handle kind hlive
  exact h.2 owner kind hholds

theorem Sound.not_holds_fresh {books : Books ι η κ} (h : Sound books) {handle : η}
    (hfresh : books.ledger handle = .fresh) (owner : ι) (kind : κ) :
    books.holds owner ≠ some (handle, kind) := by
  intro hholds
  have := h.live owner handle kind hholds
  rw [hfresh] at this
  cases this

section Moves

variable [DecidableEq ι] [DecidableEq η]

/-- The moves are allowed one after the other and lead from one state of the
books to the other. -/
inductive Moves : Books ι η κ → List (Move ι η κ) → Books ι η κ → Prop
  | nil (books : Books ι η κ) : Moves books [] books
  | cons {books after : Books ι η κ} {move : Move ι η κ} {rest : List (Move ι η κ)}
      (allowed : move.Allowed books) (tail : Moves (move.apply books) rest after) :
      Moves books (move :: rest) after

theorem Moves.single {books : Books ι η κ} {move : Move ι η κ} (allowed : move.Allowed books) :
    Moves books [move] (move.apply books) :=
  .cons allowed (.nil _)

/-- What is allocated stays allocated until its owner releases it. -/
theorem Moves.live {books after : Books ι η κ} {moves : List (Move ι η κ)} {handle : η} {kind : κ}
    (hmoves : Moves books moves after) (hlive : books.ledger handle = .live kind)
    (hkept : ∀ owner other, Move.release owner handle other ∉ moves) :
    after.ledger handle = .live kind := by
  induction hmoves with
  | nil => exact hlive
  | @cons books after move rest allowed _ ih =>
      -- every other move needs a fresh handle, and this one is live
      have hne : handle ≠ move.handle := by
        rintro rfl
        cases move with
        | acquire => exact absurd (hlive.symm.trans allowed.2) (by simp)
        | release owner handle other => exact hkept owner other (List.mem_cons_self ..)
        | transient | stray => exact absurd (hlive.symm.trans allowed) (by simp)
      refine ih ?_ fun owner other hmem => hkept owner other (List.mem_cons_of_mem _ hmem)
      rw [Move.ledger_apply_of_ne books hne, hlive]

theorem Sound.apply {books : Books ι η κ} (h : Sound books) {move : Move ι η κ}
    (allowed : move.Allowed books) : Sound (move.apply books) := by
  -- what is held after the move was held before, or is what the move acquires
  have hcases : ∀ owner handle kind, (move.apply books).holds owner = some (handle, kind) →
      (books.holds owner = some (handle, kind) ∧ handle ≠ move.handle) ∨
        move = .acquire owner handle kind := by
    intro owner handle kind hholds
    by_cases ho : move.owner? = some owner
    · cases move with
      | acquire other handle' kind' =>
          cases ho
          simp only [Move.apply, Function.update_self, Option.some.injEq, Prod.mk.injEq] at hholds
          exact Or.inr (by rw [hholds.1, hholds.2])
      | release other => cases ho; simp [Move.apply] at hholds
      | transient | stray => cases ho
    · rw [Move.holds_apply_of_ne books ho] at hholds
      refine Or.inl ⟨hholds, ?_⟩
      rintro rfl
      cases move with
      | acquire => exact h.not_holds_fresh allowed.2 owner kind hholds
      | release other handle' kind' =>
          exact ho (congrArg some (h.unique other owner _ kind' kind allowed.1 hholds))
      | transient | stray => exact h.not_holds_fresh allowed owner kind hholds
  constructor
  · intro owner handle kind hholds
    rcases hcases owner handle kind hholds with ⟨hbefore, hne⟩ | rfl
    · rw [Move.ledger_apply_of_ne books hne]
      exact h.live owner handle kind hbefore
    · simp [Move.apply]
  · intro first second handle k₁ k₂ h₁ h₂
    rcases hcases first handle k₁ h₁ with ⟨h₁, hne⟩ | rfl <;>
      rcases hcases second handle k₂ h₂ with ⟨h₂, hne'⟩ | heq
    · exact h.unique first second handle k₁ k₂ h₁ h₂
    · exact absurd (by rw [heq]; rfl) hne
    · exact absurd rfl hne'
    · injection heq

theorem Sound.moves {books after : Books ι η κ} {moves : List (Move ι η κ)} (h : Sound books)
    (hmoves : Moves books moves after) : Sound after := by
  induction hmoves with
  | nil => exact h
  | cons allowed _ ih => exact ih (h.apply allowed)

/-! ## Strays -/

theorem Tight.apply {books : Books ι η κ} (h : Tight books) {move : Move ι η κ}
    (allowed : move.Allowed books) (hstray : move.isStray = false) : Tight (move.apply books) := by
  intro handle kind hlive
  by_cases hh : handle = move.handle
  · subst hh
    cases move with
    | acquire owner handle kind' =>
        simp only [Move.apply, Move.handle, Function.update_self, Cell.live.injEq] at hlive
        exact ⟨owner, by simp [Move.apply, Move.handle, hlive]⟩
    | release | transient => simp [Move.apply, Move.handle] at hlive
    | stray => simp [Move.isStray] at hstray
  · rw [Move.ledger_apply_of_ne books hh] at hlive
    obtain ⟨owner, howner⟩ := h handle kind hlive
    refine ⟨owner, ?_⟩
    rw [Move.holds_apply_of_ne, howner]
    -- the owner keeps what it holds: only a release of `handle` itself would take it
    cases move with
    | acquire other => rintro ⟨⟩; rw [allowed.1] at howner; cases howner
    | release other handle' =>
        rintro ⟨⟩
        rw [allowed.1] at howner
        cases howner
        exact hh rfl
    | transient | stray => simp [Move.owner?]

/-- A stray allocation stays stray: no move frees it or hands it to an owner. -/
theorem Strayed.apply {books : Books ι η κ} {handle : η} (h : Strayed books handle)
    {move : Move ι η κ} (allowed : move.Allowed books) : Strayed (move.apply books) handle := by
  obtain ⟨⟨kind, hlive⟩, hnone⟩ := h
  -- a release would need an owner, the other moves a fresh handle
  have hne : handle ≠ move.handle := by
    rintro rfl
    cases move with
    | acquire => exact absurd (hlive.symm.trans allowed.2) (by simp)
    | release owner _ kind' => exact hnone owner kind' allowed.1
    | transient | stray => exact absurd (hlive.symm.trans allowed) (by simp)
  refine ⟨⟨kind, by rw [Move.ledger_apply_of_ne books hne, hlive]⟩, fun owner kind' => ?_⟩
  by_cases ho : move.owner? = some owner
  · cases move with
    | acquire other handle' =>
        cases ho
        simp only [Move.apply, Function.update_self, ne_eq, Option.some.injEq, Prod.mk.injEq]
        exact fun heq => hne heq.1.symm
    | release other =>
        cases ho
        simp [Move.apply]
    | transient | stray => cases ho
  · rw [Move.holds_apply_of_ne books ho]
    exact hnone owner kind'

theorem Strayed.moves {books after : Books ι η κ} {moves : List (Move ι η κ)} {handle : η}
    (h : Strayed books handle) (hmoves : Moves books moves after) : Strayed after handle := by
  induction hmoves with
  | nil => exact h
  | cons allowed _ ih => exact ih (h.apply allowed)

theorem strayed_of_stray {books : Books ι η κ} (h : Sound books) {move : Move ι η κ}
    (allowed : move.Allowed books) (hstray : move.isStray = true) :
    ∃ handle, Strayed (move.apply books) handle := by
  cases move with
  | stray handle kind =>
      exact ⟨handle, ⟨kind, by simp [Move.apply]⟩, h.not_holds_fresh allowed⟩
  | acquire | release | transient => simp [Move.isStray] at hstray

/-- Starting from tight books, a sequence of moves ends in tight books exactly
when none of them is a `stray`; otherwise it ends with a stray allocation. -/
theorem tight_or_strayed {books after : Books ι η κ} {moves : List (Move ι η κ)}
    (hsound : Sound books) (htight : Tight books) (hmoves : Moves books moves after) :
    ((∀ move ∈ moves, move.isStray = false) ∧ Tight after) ∨
      ((∃ move ∈ moves, move.isStray = true) ∧ ∃ handle, Strayed after handle) := by
  induction hmoves with
  | nil => exact Or.inl ⟨by simp, htight⟩
  | @cons books after move rest allowed tail ih =>
      cases hmove : move.isStray with
      | true =>
          obtain ⟨handle, hstrayed⟩ := strayed_of_stray hsound allowed hmove
          exact Or.inr ⟨⟨move, List.mem_cons_self .., hmove⟩, handle, hstrayed.moves tail⟩
      | false =>
          rcases ih (hsound.apply allowed) (htight.apply allowed hmove) with
            ⟨hnone, hafter⟩ | ⟨⟨other, hother, hstray⟩, hafter⟩
          · refine Or.inl ⟨fun candidate hcandidate => ?_, hafter⟩
            rcases List.mem_cons.mp hcandidate with rfl | hcandidate
            · exact hmove
            · exact hnone candidate hcandidate
          · exact Or.inr ⟨⟨other, List.mem_cons_of_mem _ hother, hstray⟩, hafter⟩

end Moves

end Custody

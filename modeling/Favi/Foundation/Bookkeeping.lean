import Favi.Foundation.Custody
import Favi.Foundation.Program

/-!
# Systems that keep books

`Custody` is about books and the moves between them; here a running system makes the
moves.  `KeepsBooks` says that each step of the system changes its books by a sequence of
moves, and which steps have a `stray` among them: the steps that leak.

## Strategy

One step is `tight_or_strayed`: its moves keep the books tight, or one of them is a stray
and what it left behind is still there when the step is over.  Over a run the second case
absorbs everything that follows (`KeepsBooks.run_strayed`): no step frees the stray
allocation or finds an owner for it.  So a run ends with tight books exactly when none of
its steps leaks (`KeepsBooks.tight_iff_along`), and it does not matter when a leak happens
or what is done afterwards.

The invariant `I` is the system's own, and all that is asked of it is that the books are
sound where it holds.
-/

namespace Program

open Custody

universe u

variable {σ ε : Type u} {γ ρ ι η κ : Type*} [DecidableEq ι] [DecidableEq η]
  {step : σ → γ → Except ε (ρ × σ)} {I : σ → Prop} {books : σ → Books ι η κ} {Leaks : σ → γ → Prop}

/-- From every state of `I` a step does not fault, stays in `I`, and changes the books by
moves; it leaks exactly when one of the moves is a stray. -/
structure KeepsBooks (step : σ → γ → Except ε (ρ × σ)) (I : σ → Prop) (books : σ → Books ι η κ)
    (Leaks : σ → γ → Prop) : Prop where
  sound : ∀ s, I s → Sound (books s)
  moves : ∀ s c, I s → ∃ reply s' moves, step s c = .ok (reply, s') ∧ I s' ∧
    Moves (books s) moves (books s') ∧ ((∃ move ∈ moves, move.isStray = true) ↔ Leaks s c)

namespace KeepsBooks

/-- A stray allocation stays stray to the end of the run. -/
theorem run_strayed (h : KeepsBooks step I books Leaks) {handle : η} (calls : List γ) {s : σ}
    (hinv : I s) (hstrayed : Strayed (books s) handle) :
    ∃ s', run step s calls = .ok s' ∧ I s' ∧ Strayed (books s') handle := by
  refine run_invariant (I := fun s => I s ∧ Strayed (books s) handle) (fun s c hs => ?_) calls
    ⟨hinv, hstrayed⟩
  obtain ⟨reply, s', moves, hstep, hinv', hmoves, -⟩ := h.moves s c hs.1
  exact ⟨reply, s', hstep, hinv', hs.2.moves hmoves⟩

/-- A run stays tight, or one of its steps leaks and the leaked allocation is still there at
its end. -/
theorem run_tight_or_strayed (h : KeepsBooks step I books Leaks) (calls : List γ) {s : σ}
    (hinv : I s) (htight : Tight (books s)) :
    ∃ s', run step s calls = .ok s' ∧ I s' ∧
      ((Along step (fun s c => ¬ Leaks s c) s calls ∧ Tight (books s')) ∨
        (¬ Along step (fun s c => ¬ Leaks s c) s calls ∧ ∃ handle, Strayed (books s') handle)) := by
  induction calls generalizing s with
  | nil => exact ⟨s, rfl, hinv, Or.inl ⟨trivial, htight⟩⟩
  | cons c rest ih =>
      obtain ⟨reply, s₁, moves, hstep, hinv₁, hmoves, hleaks⟩ := h.moves s c hinv
      simp only [run_cons hstep, along_cons hstep]
      -- either this step leaks and the rest cannot repair it, or the books are tight again
      rcases tight_or_strayed (h.sound s hinv) htight hmoves with
        ⟨hnone, htight₁⟩ | ⟨hstray, handle, hstrayed⟩
      · have hleak : ¬ Leaks s c := by
          rw [← hleaks]
          rintro ⟨move, hmem, hstray⟩
          rw [hnone move hmem] at hstray
          cases hstray
        obtain ⟨s', hrun, hinv', hend⟩ := ih hinv₁ htight₁
        exact ⟨s', hrun, hinv', by simpa [hleak] using hend⟩
      · have hleak : Leaks s c := hleaks.mp hstray
        obtain ⟨s', hrun, hinv', hstrayed'⟩ := h.run_strayed rest hinv₁ hstrayed
        exact ⟨s', hrun, hinv', Or.inr ⟨fun hclean => hclean.1 hleak, handle, hstrayed'⟩⟩

/-- A run that starts with tight books ends with tight books exactly when none of its steps
leaks. -/
theorem tight_iff_along (h : KeepsBooks step I books Leaks) (calls : List γ) {s : σ}
    (hinv : I s) (htight : Tight (books s)) :
    ∃ s', run step s calls = .ok s' ∧ I s' ∧
      (Tight (books s') ↔ Along step (fun s c => ¬ Leaks s c) s calls) := by
  obtain ⟨s', hrun, hinv', hend⟩ := h.run_tight_or_strayed calls hinv htight
  refine ⟨s', hrun, hinv', ?_⟩
  rcases hend with ⟨halong, htight'⟩ | ⟨halong, handle, hstrayed⟩
  · exact iff_of_true htight' halong
  · exact iff_of_false hstrayed.not_tight halong

end KeepsBooks

end Program

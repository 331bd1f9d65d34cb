import Favi.Leaks
import Favi.Simulation

/-!
# The end of a program

Rust drops the values of a scope in the reverse order of their declaration.  A session
that ends like this drops every value before what it borrows from, so none of the drops
is refused: afterwards nobody owns anything.

`closing_frees_all` says when nothing is allocated either, with every allocation ever
made freed exactly once: exactly when no conversion of the session leaked its buffer.

## Strategy

* **The drops succeed.**  `run_drops` goes down from the youngest value, with the
  invariant that nothing is left from here on; whoever borrows from a value is younger
  than it, so nothing is lent when its turn comes.
* **Freed means logged.**  `State.Logged` is the half of the log that `State.Valid` does
  not have: every handle that is freed was freed by a call of the session, so with the
  log free of duplicates it was freed once.
* **The whole session at once.**  The session and its drops are one run of actions, and
  `KeepsBooks.tight_iff_along` says when its books end tight.  A drop never leaks, so only
  the steps of the session itself count.
-/

namespace Favi

open Custody Program

variable {σ : Type} {target : Target} {lib : Libavif σ} {s s' : State σ} {c : Call}

/-- The drops at the end of a scope, youngest value first. -/
def State.closing (s : State σ) : List Action :=
  (List.range s.next).reverse.map fun id => .call (.drop id)

/-! ## Dropping the youngest value -/

/-- Values are gone from `id` on. -/
def State.GoneFrom (s : State σ) (id : ValueId) : Prop :=
  ∀ other, id ≤ other → s.values other = none

theorem State.WellFormed.not_isLent_of_goneFrom (h : s.WellFormed) {id : ValueId}
    (hgone : s.GoneFrom (id + 1)) : s.isLent id = false := by
  refine Bool.eq_false_iff.mpr fun hlent => ?_
  simp only [State.isLent, List.any_eq_true, List.mem_range] at hlent
  obtain ⟨other, -, hborrows⟩ := hlent
  split at hborrows
  · next rgb lender hother =>
    obtain rfl : lender = id := by simpa using hborrows
    -- whoever borrows from it would be younger
    rw [hgone other (h.borrows other rgb lender hother).1] at hother
    cases hother
  · cases hborrows

theorem exec_drop_youngest (target : Target) (hlib : lib.Documented) (hvalid : s.Valid)
    {id : ValueId} (hgone : s.GoneFrom (id + 1)) :
    ∃ reply s', exec target lib s (.drop id) = .ok (reply, s') ∧ s'.Valid ∧ s'.GoneFrom id := by
  obtain ⟨reply, s', hexec, hvalid'⟩ := exec_valid target hlib hvalid (.drop id)
  refine ⟨reply, s', hexec, hvalid', fun other hle => ?_⟩
  have hother : other ≠ id → s.values other = none :=
    fun hne => hgone other (Nat.lt_of_le_of_ne hle hne.symm)
  simp only [exec] at hexec
  cases hvalue : s.values id with
  | none =>
      rw [hvalue] at hexec
      cases hexec
      by_cases heq : other = id
      · rw [heq, hvalue]
      · exact hother heq
  | some value =>
      rw [hvalue, Option.elim_some, if_neg] at hexec
      · unfold State.observe at hexec
        split at hexec
        · cases hexec
        · cases hexec
          by_cases heq : other = id
          · subst heq
            exact Function.update_self ..
          · exact (Function.update_of_ne heq _ _).trans (hother heq)
      · rw [hvalid.wellFormed.not_isLent_of_goneFrom hgone]
        exact Bool.false_ne_true

/-- Dropping from the youngest value down to the oldest leaves no value. -/
theorem run_drops (target : Target) (hlib : lib.Documented) :
    ∀ (count : ℕ) (s : State σ), s.Valid → s.GoneFrom count →
      ∃ s', run (act target lib) s
          ((List.range count).reverse.map fun id => .call (.drop id)) = .ok s' ∧
        s'.GoneFrom 0 := by
  intro count
  induction count with
  | zero => exact fun s _ hgone => ⟨s, rfl, hgone⟩
  | succ count ih =>
      intro s hvalid hgone
      obtain ⟨reply, s₁, hexec, hvalid₁, hgone₁⟩ := exec_drop_youngest target hlib hvalid hgone
      obtain ⟨s', hrun, hend⟩ := ih s₁ hvalid₁ hgone₁
      have hact : act target lib s (.call (.drop count)) = .ok (reply, s₁) := hexec
      refine ⟨s', ?_, hend⟩
      rw [List.range_succ, List.reverse_append, List.reverse_singleton, List.singleton_append,
        List.map_cons, run_cons hact, hrun]

/-! ## The log of frees -/

/-- Whatever is freed has been logged. -/
def State.Logged (s : State σ) : Prop :=
  ∀ handle, s.ledger handle = .freed → handle ∈ s.machine.frees

theorem Transition.logged {moves : List (Move ValueId Handle Object)}
    (h : Transition lib s c moves s') (hlogged : s.Logged) : s'.Logged := by
  intro handle hfreed
  rw [h.steps.frees]
  rcases h.steps.ledger.freed_or_mem hfreed with hbefore | hmem
  · exact List.mem_append_left _ (hlogged handle hbefore)
  · exact List.mem_append_right _ hmem

/-- With every value gone, the books are tight exactly when each allocation ever made has
been freed once. -/
theorem State.Valid.tight_iff_of_gone (h : s.Valid) (hlogged : s.Logged) (hgone : s.GoneFrom 0) :
    Tight s.books ↔ ∀ handle, s.ledger handle = .fresh ∨ s.machine.frees.count handle = 1 := by
  have hunheld : ∀ id handle object, s.books.holds id ≠ some (handle, object) := by
    intro id handle object hholds
    simp only [State.books, hgone id (Nat.zero_le id), Option.bind_none] at hholds
    cases hholds
  constructor
  · intro htight handle
    cases hcell : s.ledger handle with
    | fresh => exact Or.inl rfl
    | freed => exact Or.inr (List.count_eq_one_of_mem h.log.nodup (hlogged handle hcell))
    | live object =>
        obtain ⟨id, hholds⟩ := htight handle object hcell
        exact absurd hholds (hunheld id handle object)
  · intro hall handle object hlive
    exfalso
    -- what is live is not fresh, and has not been freed
    rcases hall handle with hfresh | hcount
    · rw [show s.ledger handle = .live object from hlive] at hfresh
      cases hfresh
    · have hmem : handle ∈ s.machine.frees := List.count_pos_iff.mp (by omega)
      have hfreed := h.log.freed handle hmem
      rw [show s.ledger handle = .live object from hlive] at hfreed
      cases hfreed

/-! ## Every session -/

/-- The steps that leak: calls, and never a write. -/
def Action.LeaksAt (lib : Libavif σ) (s : State σ) : Action → Prop
  | .call c => Favi.LeaksAt lib s c
  | .write _ _ _ => False

theorem keepsBooks_act (target : Target) (hlib : lib.Documented) :
    KeepsBooks (act target lib) (fun s => s.Valid ∧ s.Logged) State.books
      fun s action => action.LeaksAt lib s where
  sound _ hinv := hinv.1.sound
  moves s action hinv := by
    obtain ⟨hvalid, hlogged⟩ := hinv
    cases action with
    | call c =>
        obtain ⟨reply, s', moves, hexec, htransition⟩ := exec_transition target hlib hvalid c
        exact ⟨reply, s', moves, hexec, ⟨htransition.valid hvalid, htransition.logged hlogged⟩,
          htransition.moves_books hvalid, htransition.exists_stray_iff⟩
    | write id offset byte =>
        obtain ⟨reply, s', hwrite, hvalid', -⟩ := write_implements hvalid id offset byte
        obtain ⟨hbooks, hfrees⟩ := hvalid.write_books hwrite
        refine ⟨reply, s', [], hwrite, ⟨hvalid', fun handle hfreed => ?_⟩, hbooks ▸ .nil _, ?_⟩
        · have hledger : s'.ledger = s.ledger := congrArg Books.ledger hbooks
          rw [hledger] at hfreed
          rw [hfrees]
          exact hlogged handle hfreed
        · exact iff_of_false (by simp) fun hleaks => hleaks

/-- A session that ends by dropping what is left, youngest first, ends with no values;
and with every allocation ever made freed exactly once, if and only if none of its
conversions leaked. -/
theorem closing_frees_all (target : Target) (hlib : lib.Documented) (hidden : σ)
    (actions : List Action) :
    ∃ s s', run (act target lib) (State.boot hidden) actions = .ok s ∧
      run (act target lib) s s.closing = .ok s' ∧ (∀ id, s'.values id = none) ∧
      ((∀ handle, s'.ledger handle = .fresh ∨ s'.machine.frees.count handle = 1) ↔
        Along (act target lib) (fun s action => ¬ action.LeaksAt lib s) (State.boot hidden)
          actions) := by
  have hboot : (State.boot hidden).Valid ∧ (State.boot hidden).Logged :=
    ⟨State.valid_boot hidden, fun _ hfreed => by cases hfreed⟩
  obtain ⟨s, hrun, ⟨hvalid, -⟩, -⟩ :=
    (keepsBooks_act target hlib).tight_iff_along actions hboot (State.tight_boot hidden)
  obtain ⟨s', hclose, hgone⟩ := run_drops target hlib s.next s hvalid hvalid.wellFormed.unused
  obtain ⟨s'', hwhole, ⟨hvalid', hlogged'⟩, htight⟩ :=
    (keepsBooks_act target hlib).tight_iff_along (actions ++ s.closing) hboot
      (State.tight_boot hidden)
  obtain rfl : s' = s'' := by
    rw [run_append hrun] at hwhole
    exact Except.ok.inj (hclose.symm.trans hwhole)
  refine ⟨s, s', hrun, hclose, fun id => hgone id (Nat.zero_le id), ?_⟩
  -- a drop never leaks, so only the session itself counts
  have hdrops : Along (act target lib) (fun s action => ¬ action.LeaksAt lib s) s s.closing := by
    refine along_of_forall (fun action hmem s => ?_) s
    obtain ⟨id, -, rfl⟩ := List.mem_map.mp hmem
    exact nofun
  rw [← hvalid'.tight_iff_of_gone hlogged' hgone, htight, along_append hrun]
  exact and_iff_left hdrops

theorem closing_frees_all_small :
    ∃ s s', run (act .release64 .small) (State.boot 0)
        [.call (.newBytes 100 4096 12), .write 0 3 7,
          .call (.borrowedNew 2 2 .b8 .rgb ⟨0, 0, 12⟩), .call (.fromRgb 1 .b8 .yuv420),
          .call (.toRgb 2 .b8 .rgba)] = .ok s ∧
      run (act .release64 .small) s s.closing = .ok s' ∧ (∀ id, s'.values id = none) ∧
      ((∀ handle, s'.ledger handle = .fresh ∨ s'.machine.frees.count handle = 1) ↔
        Along (act .release64 .small) (fun s action => ¬ action.LeaksAt .small s) (State.boot 0)
          [.call (.newBytes 100 4096 12), .write 0 3 7,
            .call (.borrowedNew 2 2 .b8 .rgb ⟨0, 0, 12⟩), .call (.fromRgb 1 .b8 .yuv420),
            .call (.toRgb 2 .b8 .rgba)]) :=
  closing_frees_all .release64 documented_small 0 _

end Favi

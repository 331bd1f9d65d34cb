import Mathlib.Data.List.Basic

/-!
# Programs that may fault, and their runs

A program is a state transformer that may end in a fault: `StateT σ (Except ε) α`.
`Ensures program s post` is total correctness from the state `s`: the program does
not fault and its result and final state satisfy `post`.  The rules are those of
the monad.

A system is a step function of the same shape over calls `γ`.  `run` makes a list
of calls, `Along P` says that every call of a run meets `P` in the state in which
it is made, and `run_invariant` is the induction over runs: an invariant that each
step keeps without faulting holds at the end of every run.
-/

namespace Program

universe u

variable {σ ε : Type u} {α β : Type u}

/-! ## Total correctness of one program -/

/-- The program, started in `s`, does not fault and ends as `post` says. -/
def Ensures (program : StateT σ (Except ε) α) (s : σ) (post : α → σ → Prop) : Prop :=
  ∃ a s', program s = .ok (a, s') ∧ post a s'

theorem Ensures.pure {a : α} {s : σ} {post : α → σ → Prop} (h : post a s) :
    Ensures (Pure.pure a : StateT σ (Except ε) α) s post :=
  ⟨a, s, rfl, h⟩

theorem Ensures.bind {program : StateT σ (Except ε) α} {next : α → StateT σ (Except ε) β} {s : σ}
    {post : β → σ → Prop}
    (h : Ensures program s fun a s' => Ensures (next a) s' post) :
    Ensures (program >>= next) s post := by
  obtain ⟨a, s', hprogram, b, s'', hnext, hpost⟩ := h
  refine ⟨b, s'', ?_, hpost⟩
  simp only [Bind.bind, StateT.bind, Except.bind, hprogram]
  exact hnext

theorem Ensures.mono {program : StateT σ (Except ε) α} {s : σ} {post post' : α → σ → Prop}
    (h : Ensures program s post) (himp : ∀ a s', post a s' → post' a s') :
    Ensures program s post' := by
  obtain ⟨a, s', hprogram, hpost⟩ := h
  exact ⟨a, s', hprogram, himp a s' hpost⟩

theorem Ensures.map {program : StateT σ (Except ε) α} {f : α → β} {s : σ} {post : β → σ → Prop}
    (h : Ensures program s fun a s' => post (f a) s') : Ensures (f <$> program) s post := by
  obtain ⟨a, s', hprogram, hpost⟩ := h
  refine ⟨f a, s', ?_, hpost⟩
  simp only [Functor.map, StateT.map, Bind.bind, Except.bind, hprogram]
  rfl

/-- A program is a function of its state: what it ensures holds of the result it gives. -/
theorem Ensures.of_eq {program : StateT σ (Except ε) α} {s s' : σ} {a : α}
    {post : α → σ → Prop} (h : Ensures program s post) (heq : program s = .ok (a, s')) :
    post a s' := by
  obtain ⟨b, s'', hprogram, hpost⟩ := h
  rw [heq] at hprogram
  cases hprogram
  exact hpost

/-! ## Partial correctness of one program -/

/-- If the program, started in `s`, does not fault, it ends as `post` says. -/
def Yields (program : StateT σ (Except ε) α) (s : σ) (post : α → σ → Prop) : Prop :=
  ∀ a s', program s = .ok (a, s') → post a s'

theorem Ensures.yields {program : StateT σ (Except ε) α} {s : σ} {post : α → σ → Prop}
    (h : Ensures program s post) : Yields program s post :=
  fun _ _ heq => h.of_eq heq

theorem Yields.pure {a : α} {s : σ} {post : α → σ → Prop} (h : post a s) :
    Yields (Pure.pure a : StateT σ (Except ε) α) s post := by
  rintro _ _ ⟨⟩
  exact h

theorem Yields.bind {program : StateT σ (Except ε) α} {next : α → StateT σ (Except ε) β} {s : σ}
    {post : β → σ → Prop} (h : Yields program s fun a s' => Yields (next a) s' post) :
    Yields (program >>= next) s post := by
  intro b s'' heq
  simp only [Bind.bind, StateT.bind, Except.bind] at heq
  cases hprogram : program s with
  | error fault => simp only [hprogram, reduceCtorEq] at heq
  | ok made =>
      simp only [hprogram] at heq
      exact h made.1 made.2 hprogram b s'' heq

theorem Yields.mono {program : StateT σ (Except ε) α} {s : σ} {post post' : α → σ → Prop}
    (h : Yields program s post) (himp : ∀ a s', post a s' → post' a s') :
    Yields program s post' :=
  fun a s' heq => himp a s' (h a s' heq)

theorem Yields.and {program : StateT σ (Except ε) α} {s : σ} {post post' : α → σ → Prop}
    (h : Yields program s post) (h' : Yields program s post') :
    Yields program s fun a s' => post a s' ∧ post' a s' :=
  fun a s' heq => ⟨h a s' heq, h' a s' heq⟩

theorem Yields.map {program : StateT σ (Except ε) α} {f : α → β} {s : σ} {post : β → σ → Prop}
    (h : Yields program s fun a s' => post (f a) s') : Yields (f <$> program) s post := by
  rw [map_eq_pure_bind]
  exact Yields.bind (h.mono fun _ _ hpost => Yields.pure hpost)

/-! ## Runs -/

variable {γ ρ : Type*}

/-- Make the calls one after the other, forgetting the replies. -/
def run (step : σ → γ → Except ε (ρ × σ)) : σ → List γ → Except ε σ
  | s, [] => .ok s
  | s, c :: rest =>
      match step s c with
      | .ok (_, s') => run step s' rest
      | .error fault => .error fault

/-- Every call of the run meets `P` in the state in which it is made. -/
def Along (step : σ → γ → Except ε (ρ × σ)) (P : σ → γ → Prop) : σ → List γ → Prop
  | _, [] => True
  | s, c :: rest => P s c ∧ ∀ reply s', step s c = .ok (reply, s') → Along step P s' rest

variable {step : σ → γ → Except ε (ρ × σ)} {P : σ → γ → Prop} {I : σ → Prop}

theorem run_cons {s s' : σ} {c : γ} {rest : List γ} {reply : ρ} (h : step s c = .ok (reply, s')) :
    run step s (c :: rest) = run step s' rest := by
  simp only [run, h]

theorem along_cons {s s' : σ} {c : γ} {rest : List γ} {reply : ρ}
    (h : step s c = .ok (reply, s')) :
    Along step P s (c :: rest) ↔ P s c ∧ Along step P s' rest := by
  constructor
  · exact fun hall => ⟨hall.1, hall.2 reply s' h⟩
  · rintro ⟨hP, hrest⟩
    refine ⟨hP, fun reply' s'' h' => ?_⟩
    rw [h] at h'
    cases h'
    exact hrest

theorem run_append {s s' : σ} {first : List γ} (h : run step s first = .ok s')
    (second : List γ) : run step s (first ++ second) = run step s' second := by
  induction first generalizing s with
  | nil =>
      cases h
      rfl
  | cons c rest ih =>
      rw [List.cons_append]
      cases hstep : step s c with
      | error fault =>
          simp only [run, hstep] at h
          cases h
      | ok made =>
          rw [run_cons hstep] at h ⊢
          exact ih h

theorem along_append {s s' : σ} {first : List γ} (h : run step s first = .ok s')
    (second : List γ) :
    Along step P s (first ++ second) ↔ Along step P s first ∧ Along step P s' second := by
  induction first generalizing s with
  | nil =>
      cases h
      exact (and_iff_right trivial).symm
  | cons c rest ih =>
      rw [List.cons_append]
      cases hstep : step s c with
      | error fault =>
          simp only [run, hstep] at h
          cases h
      | ok made =>
          rw [run_cons hstep] at h
          rw [along_cons hstep, along_cons hstep, ih h, and_assoc]

/-- The induction over runs, for the runs whose calls all meet `P`. -/
theorem run_invariant_along
    (hstep : ∀ s c, I s → P s c → ∃ reply s', step s c = .ok (reply, s') ∧ I s') :
    ∀ (calls : List γ) (s : σ), I s → Along step P s calls →
      ∃ s', run step s calls = .ok s' ∧ I s' := by
  intro calls
  induction calls with
  | nil => exact fun s hI _ => ⟨s, rfl, hI⟩
  | cons c rest ih =>
      intro s hI halong
      obtain ⟨reply, s', hs', hI'⟩ := hstep s c hI halong.1
      obtain ⟨final, hrun, hfinal⟩ := ih s' hI' (halong.2 reply s' hs')
      exact ⟨final, by rw [run_cons hs', hrun], hfinal⟩

/-- From what is true along a run to what follows from it in the states of an invariant. -/
theorem Along.mono {Q : σ → γ → Prop}
    (hstep : ∀ s c reply s', I s → P s c → step s c = .ok (reply, s') → I s')
    (himp : ∀ s c, I s → P s c → Q s c) :
    ∀ (calls : List γ) (s : σ), I s → Along step P s calls → Along step Q s calls := by
  intro calls
  induction calls with
  | nil => exact fun _ _ _ => trivial
  | cons c rest ih =>
      intro s hI halong
      refine ⟨himp s c hI halong.1, fun reply s' hs' => ?_⟩
      exact ih s' (hstep s c reply s' hI halong.1 hs') (halong.2 reply s' hs')

theorem along_of_forall {calls : List γ} (h : ∀ c ∈ calls, ∀ s, P s c) :
    ∀ s : σ, Along step P s calls := by
  induction calls with
  | nil => exact fun _ => trivial
  | cons c rest ih =>
      intro s
      refine ⟨h c (List.mem_cons_self ..) s, fun _ s' _ => ih (fun other hother => ?_) s'⟩
      exact h other (List.mem_cons_of_mem _ hother)

theorem along_true : ∀ (calls : List γ) (s : σ), Along step (fun _ _ => True) s calls := by
  intro calls
  induction calls with
  | nil => exact fun _ => trivial
  | cons c rest ih => exact fun s => ⟨trivial, fun _ s' _ => ih s'⟩

theorem run_invariant (hstep : ∀ s c, I s → ∃ reply s', step s c = .ok (reply, s') ∧ I s')
    (calls : List γ) {s : σ} (hI : I s) : ∃ s', run step s calls = .ok s' ∧ I s' := by
  have halways : ∀ s c, I s → True → ∃ reply s', step s c = .ok (reply, s') ∧ I s' :=
    fun s c hI _ => hstep s c hI
  exact run_invariant_along halways calls s hI (along_true calls s)

/-! ## Loops that stop at the first failure -/

theorem bind_eq_ok_iff {σ τ : Type u} {first : Except ε σ} {next : σ → Except ε τ}
    {out : τ} : first >>= next = .ok out ↔ ∃ mid, first = .ok mid ∧ next mid = .ok out := by
  cases first with
  | error e => exact iff_of_false nofun fun ⟨_, h, _⟩ => nomatch h
  | ok mid =>
      constructor
      · exact fun h => ⟨mid, rfl, h⟩
      · rintro ⟨_, heq, h⟩
        cases heq
        exact h

/-- A loop of guarded steps, followed on an abstract state that `text` renders.  `Fresh`
says that the steps still to come have not been made; then the loop succeeds when every
guard holds, and what it gives is rendered from the loop on abstract states. -/
theorem foldlM_eq_ok_iff {ι υ σ : Type*} {ε : Type u} (step : σ → ι → Except ε σ)
    (text : υ → σ) (next : υ → ι → υ) (guard : ι → Prop) (Fresh : υ → List ι → Prop)
    (hfresh : ∀ v i rest, Fresh v (i :: rest) → Fresh (next v i) rest)
    (hstep : ∀ v i rest, Fresh v (i :: rest) →
      ∀ out, step (text v) i = .ok out ↔ guard i ∧ out = text (next v i)) :
    ∀ (items : List ι) (v : υ), Fresh v items → ∀ out,
      items.foldlM step (text v) = .ok out ↔
        (∀ i ∈ items, guard i) ∧ out = text (items.foldl next v) := by
  intro items
  induction items with
  | nil =>
      intro v _ out
      constructor
      · intro h
        cases h
        exact ⟨nofun, rfl⟩
      · rintro ⟨-, rfl⟩
        rfl
  | cons i rest ih =>
      intro v hv out
      rw [List.foldlM_cons, List.forall_mem_cons, List.foldl_cons, and_assoc]
      by_cases hguard : guard i
      · rw [(hstep v i rest hv _).mpr ⟨hguard, rfl⟩, and_iff_right hguard]
        exact ih (next v i) (hfresh v i rest hv) out
      · -- the step succeeds only under its guard, so the loop stops here
        refine iff_of_false (fun h => hguard ?_) fun h => hguard h.1
        cases hmade : step (text v) i with
        | ok made => exact ((hstep v i rest hv made).mp hmade).1
        | error e =>
            rw [hmade] at h
            cases h

/-- The same loop with what it says when it stops: the failure of the first item whose
guard does not hold. -/
theorem foldlM_eq_find? {ι υ σ : Type*} {ε : Type u} (step : σ → ι → Except ε σ)
    (text : υ → σ) (next : υ → ι → υ) (guard : ι → Prop) [DecidablePred guard] (failure : ι → ε)
    (Fresh : υ → List ι → Prop)
    (hfresh : ∀ v i rest, Fresh v (i :: rest) → Fresh (next v i) rest)
    (hstep : ∀ v i rest, Fresh v (i :: rest) → step (text v) i =
      if guard i then .ok (text (next v i)) else .error (failure i)) :
    ∀ (items : List ι) (v : υ), Fresh v items →
      items.foldlM step (text v) = (items.find? fun i => ¬ guard i).elim
        (.ok (text (items.foldl next v))) fun i => .error (failure i) := by
  intro items
  induction items with
  | nil => exact fun v _ => rfl
  | cons i rest ih =>
      intro v hv
      rw [List.foldlM_cons, hstep v i rest hv]
      by_cases hguard : guard i
      · rw [if_pos hguard, List.find?_cons_of_neg (by simpa using hguard)]
        exact ih (next v i) (hfresh v i rest hv)
      · -- the loop stops at the first guard that fails
        rw [if_neg hguard, List.find?_cons_of_pos (by simpa using hguard)]
        rfl

end Program

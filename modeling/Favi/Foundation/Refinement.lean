import Favi.Foundation.Program

/-!
# Refinement of runs

A specification is a relation `spec t c reply t'` over abstract states: in `t` the call
`c` may be answered by `reply` and lead to `t'`.  A system refines it through an
abstraction function when each of its steps, from the states of an invariant, is a step
of the specification between the abstractions.  `trace_refines` lifts this to runs: the
replies of a whole run, and not only its last state, are ones the specification allows.

What holds of every run of the specification then holds of the system.  `SpecRun.keeps`
and `SpecRun.follows` are the inductions over such runs: an invariant, and a quantity
that each step changes by a known function of the call and its reply.
-/

namespace Program

universe u

variable {σ ε : Type u} {γ ρ τ : Type*}

/-- Make the calls one after the other and keep the replies. -/
def trace (step : σ → γ → Except ε (ρ × σ)) : σ → List γ → Except ε (List ρ × σ)
  | s, [] => .ok ([], s)
  | s, c :: rest =>
      match step s c with
      | .error fault => .error fault
      | .ok (reply, s') =>
          match trace step s' rest with
          | .error fault => .error fault
          | .ok (replies, final) => .ok (reply :: replies, final)

/-- The specification allows the calls, with these replies, between the two states. -/
inductive SpecRun (spec : τ → γ → ρ → τ → Prop) : τ → List γ → List ρ → τ → Prop
  | nil (t : τ) : SpecRun spec t [] [] t
  | cons {t t' final : τ} {c : γ} {reply : ρ} {calls : List γ} {replies : List ρ}
      (head : spec t c reply t') (tail : SpecRun spec t' calls replies final) :
      SpecRun spec t (c :: calls) (reply :: replies) final

section Trace

variable {step : σ → γ → Except ε (ρ × σ)} {spec : τ → γ → ρ → τ → Prop}

theorem trace_cons {s s' : σ} {c : γ} {rest : List γ} {reply : ρ} {replies : List ρ} {final : σ}
    (hstep : step s c = .ok (reply, s')) (hrest : trace step s' rest = .ok (replies, final)) :
    trace step s (c :: rest) = .ok (reply :: replies, final) := by
  simp only [trace, hstep, hrest]

/-- A system that refines a specification step by step refines it run by run. -/
theorem trace_refines {abs : σ → τ} {I : σ → Prop}
    (hstep : ∀ s c, I s → ∃ reply s', step s c = .ok (reply, s') ∧ I s' ∧
      spec (abs s) c reply (abs s')) :
    ∀ (calls : List γ) (s : σ), I s → ∃ replies final,
      trace step s calls = .ok (replies, final) ∧ I final ∧
        SpecRun spec (abs s) calls replies (abs final) := by
  intro calls
  induction calls with
  | nil => exact fun s hI => ⟨[], s, rfl, hI, .nil _⟩
  | cons c rest ih =>
      intro s hI
      obtain ⟨reply, s', hs', hI', hspec⟩ := hstep s c hI
      obtain ⟨replies, final, htrace, hfinal, hrun⟩ := ih s' hI'
      exact ⟨reply :: replies, final, trace_cons hs' htrace, hfinal, .cons hspec hrun⟩

end Trace

namespace SpecRun

variable {spec : τ → γ → ρ → τ → Prop} {t final : τ} {calls : List γ} {replies : List ρ}

theorem keeps (I : τ → Prop) (h : SpecRun spec t calls replies final)
    (hstep : ∀ t c reply t', I t → spec t c reply t' → I t') (hI : I t) : I final := by
  induction h with
  | nil => exact hI
  | cons head _ ih => exact ih (hstep _ _ _ _ hI head)

/-- What a state shows under `read`, while it shows anything: each step changes it by
`change`, or takes it away for good. -/
theorem follows {δ : Type*} (read : τ → Option δ) (change : γ × ρ → δ → δ) (I : τ → Prop)
    (h : SpecRun spec t calls replies final)
    (hstep : ∀ t c reply t' d, I t → spec t c reply t' → read t = some d →
      read t' = some (change (c, reply) d) ∨ read t' = none)
    (hgone : ∀ t c reply t', I t → spec t c reply t' → read t = none → read t' = none)
    (hkeeps : ∀ t c reply t', I t → spec t c reply t' → I t') (hI : I t) {d : δ}
    (hread : read t = some d) :
    read final = some ((calls.zip replies).foldl (fun d step => change step d) d) ∨
      read final = none := by
  have hnone : ∀ {t calls replies}, SpecRun spec t calls replies final → I t → read t = none →
      read final = none := by
    intro t calls replies hrun hI hread
    induction hrun with
    | nil => exact hread
    | cons head _ ih => exact ih h (hkeeps _ _ _ _ hI head) (hgone _ _ _ _ hI head hread)
  induction h generalizing d with
  | nil => exact Or.inl hread
  | cons head tail ih =>
      have hI' := hkeeps _ _ _ _ hI head
      rcases hstep _ _ _ _ d hI head hread with hnext | hlost
      · exact ih hI' hnext hnone
      · exact Or.inr (hnone tail hI' hlost)

end SpecRun

end Program

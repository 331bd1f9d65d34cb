import Mathlib.Data.Set.Basic

/-!
# Frames

A store is looked into by names: `look w name` is what stands under a name, or `none`
when nothing does.  `Spares look out w w'` says that everything that stood in `w` still
stands in `w'` as it was, except perhaps under the names in `out`.

What a change writes to names where nothing stood is spared by definition, so a step
that fills in what an earlier step has just made needs no mention of it
(`Spares.trans_fresh`).
-/

namespace Frame

variable {ω η γ : Type*}

/-- Only names in `out` lose what stood under them. -/
def Spares (look : ω → η → Option γ) (out : Set η) (w w' : ω) : Prop :=
  ∀ name content, look w name = some content → name ∉ out → look w' name = some content

namespace Spares

variable {look : ω → η → Option γ} {out more : Set η} {w w' w'' : ω}

theorem refl (look : ω → η → Option γ) (out : Set η) (w : ω) : Spares look out w w :=
  fun _ _ hlook _ => hlook

theorem mono (h : Spares look out w w') (hsub : out ⊆ more) : Spares look more w w' :=
  fun name content hlook hout => h name content hlook fun hmem => hout (hsub hmem)

/-- The second change may also write where nothing stood at first. -/
theorem trans_fresh (h : Spares look out w w') (h' : Spares look more w' w'')
    (hfresh : ∀ name ∈ more, name ∈ out ∨ look w name = none) : Spares look out w w'' := by
  intro name content hlook hout
  refine h' name content (h name content hlook hout) fun hmem => ?_
  rcases hfresh name hmem with hmem | hnone
  · exact hout hmem
  · rw [hlook] at hnone
    cases hnone

theorem trans (h : Spares look out w w') (h' : Spares look out w' w'') : Spares look out w w'' :=
  h.trans_fresh h' fun _ => Or.inl

end Spares

end Frame

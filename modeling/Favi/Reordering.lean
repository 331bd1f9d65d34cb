import Favi.Declarations
import Mathlib.Algebra.Order.BigOperators.Group.List
import Mathlib.Algebra.Order.Group.Nat

/-!
# The order of the pieces

bindgen chooses the order of its output.  The pass looks at it in one place: a number is
given the type of the first constant that attributes one to it.  So reordering the input
can change more than the order of the output, and `orderFree_iff` says when it does not:
when no enum has constants with two prefixes.

The guards do not look at the order, so a text that is accepted is accepted in every order
(`accepted_perm`).  Where each enum has one prefix, what is learned does not depend on the
order either (`Uniform.tidied_eq`), and the lines of the pieces only change places.  Where
an enum has two, bring the one or the other of its constants to the front.  Its type then
differs, but the lines of the rest of the text are compared too, and some of them may change
the same way.  So the proof counts the line that the one constant comes out with: no piece
has it more often in the second output (`count_le`), and that constant has it no more.
-/

namespace Favi.Xtask

open Text

/-- In every other order of its pieces the text is accepted as well, and the lines that
come out are the same, in some order. -/
def OrderFree (ps : List Piece) : Prop :=
  ∀ qs : List Piece, qs.Perm ps → ∀ out, tidyCicpEnums (bindings ps) = .ok out →
    ∃ out', tidyCicpEnums (bindings qs) = .ok out' ∧
      (lines '\n' '\r' out').Perm (lines '\n' '\r' out)

/-! ## Texts whose order does not matter -/

section Perm

variable {ps qs : List Piece} (h : qs.Perm ps)
include h

theorem attributed_perm (num : Str) : Attributed qs num ↔ Attributed ps num := by
  simp only [Attributed, h.mem_iff]

/-- The guards do not look at the order. -/
theorem accepted_perm (haccepted : Accepted ps) : Accepted qs := by
  refine ⟨fun num hnum => ?_, fun ty hty => ?_, fun num hmem => ?_, fun name num value hmem => ?_⟩
  · exact h.mem_iff.mpr (haccepted.defined num ((attributed_perm h num).mp hnum))
  · exact h.mem_iff.mpr (haccepted.aliased ty hty)
  · exact (attributed_perm h num).mpr (haccepted.newtypes num (h.mem_iff.mp hmem))
  · obtain ⟨hattributed, hname⟩ := haccepted.constants name num value (h.mem_iff.mp hmem)
    exact ⟨(attributed_perm h num).mpr hattributed, hname⟩

theorem uniform_perm (huniform : Uniform ps) : Uniform qs := by
  intro name name' num value value' ty ty' hmem hmem'
  exact huniform name name' num value value' ty ty' (h.mem_iff.mp hmem) (h.mem_iff.mp hmem')

end Perm

/-- Where no enum has two prefixes, any constant says what is learned. -/
theorem Uniform.learnedType_eq {ps : List Piece} (h : Uniform ps) {name num value ty : Str}
    (hmem : .constant name num value ∈ ps) (hstarts : HasPrefix name ty) :
    learnedType ps num = some ty := by
  obtain ⟨ty', hty'⟩ := attributed_iff.mp ⟨name, value, ty, hmem, hstarts⟩
  obtain ⟨name', value', hmem', hstarts'⟩ := exists_constant_of_learnedType hty'
  rw [hty', h _ _ _ _ _ _ _ hmem' hmem hstarts' hstarts]

/-- Where no enum has two prefixes, the text ends in the same view in every order. -/
theorem Uniform.tidied_eq {ps qs : List Piece} (huniform : Uniform ps) (h : qs.Perm ps) :
    tidied qs = tidied ps := by
  have hlearned : learnedType qs = learnedType ps := by
    refine funext fun num => Option.ext fun ty => ⟨fun hty => ?_, fun hty => ?_⟩
    · obtain ⟨name, value, hmem, hstarts⟩ := exists_constant_of_learnedType hty
      exact huniform.learnedType_eq (h.mem_iff.mp hmem) hstarts
    · obtain ⟨name, value, hmem, hstarts⟩ := exists_constant_of_learnedType hty
      exact (uniform_perm h huniform).learnedType_eq (h.mem_iff.mpr hmem) hstarts
  simp only [tidied, hlearned]

/-- The lines that come out are the lines of the pieces. -/
theorem lines_tidied (ps qs : List Piece) :
    lines '\n' '\r' (qs.flatMap (Piece.render (tidied ps))) =
      qs.flatMap fun q => lines '\n' '\r' (q.render (tidied ps)) :=
  lines_flatMap (render_eq_nil_or_line _)

theorem orderFree_of_uniform {ps : List Piece} (hps : ∀ p ∈ ps, p.WellFormed)
    (huniform : Accepted ps → Uniform ps) : OrderFree ps := by
  intro qs hperm out hout
  obtain ⟨haccepted, rfl⟩ := (tidyCicpEnums_eq_ok_iff hps out).mp hout
  have hqs : ∀ q ∈ qs, q.WellFormed := fun q hq => hps q (hperm.mem_iff.mp hq)
  refine ⟨_, (tidyCicpEnums_eq_ok_iff hqs _).mpr ⟨accepted_perm hperm haccepted, rfl⟩, ?_⟩
  rw [(huniform haccepted).tidied_eq hperm, lines_tidied, lines_tidied]
  exact hperm.flatMap_right _

/-! ## Texts whose order matters -/

/-- Lines of constants with different types differ. -/
theorem type_eq_of_constantLine_eq {name name' ty ty' value value' : Str}
    (h : (Decl.constant name ty value).Plain) (h' : (Decl.constant name' ty' value').Plain)
    (heq : constantLine name ty value = constantLine name' ty' value') : ty = ty' := by
  have hread : readDecl (constantLine name ty value) = some (.constant name ty value) :=
    readDecl_line h
  rw [heq] at hread
  have hread' : readDecl (constantLine name' ty' value') = some (.constant name' ty' value') :=
    readDecl_line h'
  rw [hread'] at hread
  cases hread
  rfl

/-- A constant in front decides about its number. -/
theorem learnedType_cons {name num value ty : Str} (hstarts : HasPrefix name ty)
    (rest : List Piece) (n : Str) : learnedType (.constant name num value :: rest) n =
      if n = num then some ty else learnedType rest n := by
  have hattribution : (Piece.constant name num value).attribution = some (num, ty) := by
    rw [Piece.attribution, cicpType?_eq_some_iff.mpr hstarts, Option.map_some]
  rw [learnedType, List.filterMap_cons_some hattribution, List.lookup_cons]
  by_cases hn : n = num
  · rw [if_pos hn, hn, beq_self_eq_true]
  · rw [if_neg hn, beq_false_of_ne hn]
    rfl

section Swap

/-! Two orders of a text that learn the same but of one number: there `first` learns
`ty` and `second` another type. -/

variable {first second : List Piece} {name num ty ty' : Str} (hname : IsIdent name)
  (hty : ty ∈ types) (hne : ty ≠ ty') (hsecond : learnedType second num = some ty')
include hname hty hne hsecond

theorem count_constant (value : Str) {p : Piece} (hp : p.WellFormed) {name' value' : Str}
    (hconstant : p = .constant name' num value') :
    (lines '\n' '\r' (p.render (tidied second))).count (constantLine name ty value) = 0 := by
  subst hconstant
  have hview : (tidied second).constType num = ty' := by simp [View.constType, tidied, hsecond]
  have hty' : ' ' ∉ ty' := by
    rw [← hview]
    exact notMem_constType (typed_tidied second) hp.2.1 (by simp)
  rw [lines_render_constant (typed_tidied second) hp, hview, List.count_eq_zero,
    List.mem_singleton]
  intro heq
  refine hne (type_eq_of_constantLine_eq ⟨hname.notMem (by decide), (plain_type hty).2⟩
    ⟨hp.1.notMem (by decide), hty'⟩ heq)

/-- No piece has the line more often in the second order. -/
theorem count_le (value : Str)
    (hother : ∀ n, n ≠ num → learnedType second n = learnedType first n) {p : Piece}
    (hp : p.WellFormed) :
    (lines '\n' '\r' (p.render (tidied second))).count (constantLine name ty value) ≤
      (lines '\n' '\r' (p.render (tidied first))).count (constantLine name ty value) := by
  cases p with
  | typeAlias | other => exact le_rfl
  | constant name' n value' =>
      by_cases hn : n = num
      · obtain rfl := hn
        rw [count_constant hname hty hne hsecond value hp rfl]
        exact Nat.zero_le _
      · simp only [Piece.render, View.constType, tidied, hother n hn]
        exact le_rfl
  | newtype n =>
      by_cases hn : n = num
      · obtain rfl := hn
        have hrenamed : (tidied second).newtypes n = some ty' := hsecond
        have hty' := (typed_tidied second).newtypes n ty' hrenamed
        -- a newtype that was renamed has no `=`
        have hnotMem : constantLine name ty value ∉
            lines '\n' '\r' ((Piece.newtype n).render (tidied second)) := by
          intro hmem
          have hequals : '=' ∈ constantLine name ty value := by simp [constantLine_eq]
          exact notMem_render_newtype hty' hrenamed (by simp)
            ((infix_of_mem_lines hmem).subset hequals)
        rw [List.count_eq_zero.mpr hnotMem]
        exact Nat.zero_le _
      · simp only [Piece.render, tidied, hother n hn]
        exact le_rfl

theorem count_flatMap_le (value : Str)
    (hother : ∀ n, n ≠ num → learnedType second n = learnedType first n) {qs : List Piece}
    (hqs : ∀ q ∈ qs, q.WellFormed) :
    (qs.flatMap fun q => lines '\n' '\r' (q.render (tidied second))).count
        (constantLine name ty value) ≤
      (qs.flatMap fun q => lines '\n' '\r' (q.render (tidied first))).count
        (constantLine name ty value) := by
  rw [List.count_flatMap, List.count_flatMap]
  exact List.sum_le_sum fun q hq => count_le hname hty hne hsecond value hother (hqs q hq)

end Swap

theorem uniform_of_orderFree {ps : List Piece} (hps : ∀ p ∈ ps, p.WellFormed) (h : OrderFree ps)
    (haccepted : Accepted ps) : Uniform ps := by
  intro name name' num value value' ty ty' hmem hmem' hstarts hstarts'
  by_contra hne
  -- the text with the one constant first, and with the other
  have hdistinct : Piece.constant name' num value' ≠ .constant name num value := by
    intro heq
    cases heq
    exact hne (hstarts.unique hstarts')
  have hmem'' : Piece.constant name' num value' ∈ ps.erase (.constant name num value) :=
    (List.mem_erase_of_ne hdistinct).mpr hmem'
  have hperm := (List.perm_cons_erase hmem).trans ((List.perm_cons_erase hmem'').cons _)
  generalize (ps.erase (.constant name num value)).erase (.constant name' num value') = rest
    at hperm
  let first := Piece.constant name num value :: .constant name' num value' :: rest
  let second := Piece.constant name' num value' :: .constant name num value :: rest
  have hswap : second.Perm ps := (List.Perm.swap _ _ rest).trans hperm.symm
  have hfirst : learnedType first num = some ty := by
    rw [learnedType_cons hstarts, if_pos rfl]
  have hsecond : learnedType second num = some ty' := by
    rw [learnedType_cons hstarts', if_pos rfl]
  have hother : ∀ n, n ≠ num → learnedType second n = learnedType first n := by
    intro n hn
    simp only [first, second, learnedType_cons hstarts, learnedType_cons hstarts', if_neg hn]
  -- the line of the first constant is gone from the second output
  have hlines : ∀ {qs : List Piece}, qs.Perm ps →
      (qs.flatMap fun q => lines '\n' '\r' (q.render (tidied qs))).Perm
        (lines '\n' '\r' (ps.flatMap (Piece.render (tidied ps)))) := by
    intro qs hqs
    obtain ⟨out, hout, hperm⟩ := h qs hqs _ ((tidyCicpEnums_eq_ok_iff hps _).mpr ⟨haccepted, rfl⟩)
    have hwell : ∀ q ∈ qs, q.WellFormed := fun q hq => hps q (hqs.mem_iff.mp hq)
    obtain ⟨-, rfl⟩ := (tidyCicpEnums_eq_ok_iff hwell out).mp hout
    rwa [lines_tidied] at hperm
  have hcount := ((hlines hperm.symm).trans (hlines hswap).symm).count_eq
    (constantLine name ty value)
  have hname := (hps _ hmem).1
  have hty := hstarts.mem_types
  have hkept : (lines '\n' '\r' ((Piece.constant name num value).render (tidied first))).count
      (constantLine name ty value) = 1 := by
    have hview : (tidied first).constType num = ty := by simp [View.constType, tidied, hfirst]
    rw [lines_render_constant (typed_tidied first) (hps _ hmem), hview, List.count_cons_self,
      List.count_nil]
  have hlost := count_constant hname hty hne hsecond value (hps _ hmem) rfl
  have hlost' := count_constant hname hty hne hsecond value (hps _ hmem') rfl
  have hwell : ∀ q ∈ rest, q.WellFormed := fun q hq => hps q (hperm.mem_iff.mpr (by simp [hq]))
  have hrest := count_flatMap_le hname hty hne hsecond value hother hwell
  simp only [first, second, List.flatMap_cons, List.count_append] at hcount hkept hlost hlost' hrest
  omega

/-- Reordering the input only reorders the output, exactly for texts that are not accepted
or whose enums each carry one prefix. -/
theorem orderFree_iff {ps : List Piece} (hps : ∀ p ∈ ps, p.WellFormed) :
    OrderFree ps ↔ (Accepted ps → Uniform ps) :=
  ⟨uniform_of_orderFree hps, orderFree_of_uniform hps⟩

theorem orderFree_sample : OrderFree (sample []) := by
  obtain ⟨hps, hstandard, -⟩ := sample_shape
  exact (orderFree_iff hps).mpr hstandard.uniform

end Favi.Xtask

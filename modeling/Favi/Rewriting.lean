import Favi.Patterns

/-!
# The replacements of the pass

No pattern matches across two pieces, and in a single piece it matches as `Patterns`
says.  So each `str::replace` of the pass is a change of the view, whatever the order
of the pieces: `replace_newtypeText` renames the newtypes of a number,
`replace_constTyText` retypes its constants and `replace_aliasText` removes an alias.

Most patterns are parts of one line and so cannot lie across the end of a piece.  Two are
longer.  An alias goes with its line feed, which is the last character of the pattern, so
nothing of it is left for the next piece; a newtype is two lines, and the second of them
would have to begin the next piece, where no piece has it (`not_structLine_isPrefix`).
-/

namespace Favi.Xtask

open Text

/-! ## Nothing matches across two pieces -/

theorem separates_of_newline_notMem {pattern : Str} (h : '\n' ∉ pattern) (v : View)
    (ps : List Piece) : Separates pattern (Piece.render v) ps := by
  intro p _ rest _
  rcases render_eq_nil_or_line v p with hgone | ⟨front, hline⟩
  · rw [hgone]
    exact not_straddles_nil _ _
  · rw [hline]
    exact not_straddles_of_notMem h

theorem separates_aliasText {ty : Str} (hty : ty ∈ types) (v : View) (ps : List Piece) :
    Separates (aliasText ty) (Piece.render v) ps := by
  intro p _ rest _ hstraddles
  rcases render_eq_nil_or_line v p with hgone | ⟨front, hline⟩
  · rw [hgone] at hstraddles
    exact not_straddles_nil _ _ hstraddles
  · -- the line feed is the last character of the pattern, so nothing is left for `rest`
    rw [hline, aliasText_eq] at hstraddles
    exact (prefix_of_straddles (newline_notMem_aliasLine hty) List.not_mem_nil hstraddles).1 rfl

/-- No piece begins like the second line of an anonymous newtype. -/
theorem not_structLine_isPrefix {v : View} {ps : List Piece} (hps : ∀ p ∈ ps, p.WellFormed)
    {num : Str} (hnum : IsNumeral num) : ¬ structLine num <+: ps.flatMap (Piece.render v) := by
  have hstruct : ∀ front ∈ [lit "#[derive(", lit "pub const ", lit "pub type "],
      ¬ lit "pub struct " <+: front ∧ ¬ front <+: lit "pub struct " := by
    rw [lit_eq "pub struct " rfl, lit_eq "#[derive(" rfl, lit_eq "pub const " rfl,
      lit_eq "pub type " rfl]
    decide
  have hbegins : ∀ front ∈ [lit "#[derive(", lit "pub const ", lit "pub type "],
      ∀ rest, ¬ structLine num <+: front ++ rest := fun front hfront rest =>
    not_prefix_append (hstruct front hfront).1 (hstruct front hfront).2 _ rest
  induction ps with
  | nil =>
      intro h
      have hnil := List.prefix_nil.mp h
      exact absurd (congrArg List.length hnil) (by simp [structLine])
  | cons p rest ih =>
      have ih := ih fun q hq => hps q (List.mem_cons_of_mem _ hq)
      have hp := hps p (List.mem_cons_self ..)
      rw [List.flatMap_cons]
      cases p with
      | newtype num' =>
          cases hrenamed : v.newtypes num' with
          | none =>
              obtain ⟨tail, htail⟩ := derive_isPrefix_newtypeText num'
              simp only [Piece.render, hrenamed, ← htail, List.append_assoc]
              exact hbegins _ (by simp) _
          | some ty =>
              obtain ⟨tail, htail⟩ := derive_isPrefix_replacementText ty
              simp only [Piece.render, hrenamed, ← htail, List.append_assoc]
              exact hbegins _ (by simp) _
      | constant name num' value =>
          simp only [Piece.render, List.append_assoc]
          exact hbegins _ (by simp) _
      | typeAlias ty =>
          by_cases hremoved : v.removed ty = true
          · have hgone : (Piece.typeAlias ty).render v = [] := if_pos hremoved
            rw [hgone, List.nil_append]
            exact ih
          · rw [Piece.render, if_neg hremoved, aliasText]
            simp only [List.append_assoc]
            exact hbegins _ (by simp) _
      | other line =>
          intro h
          rw [Piece.render, List.append_assoc, List.singleton_append] at h
          have hline := prefix_of_prefix_line (newline_notMem_structLine hnum) h
          have hmarker : marker <:+: structLine num :=
            ⟨lit "pub struct ", num ++ '(' :: lit "pub ::core::ffi::c_uint);", by simp [structLine]⟩
          exact hp.2.1 (hmarker.trans hline.isInfix)

theorem separates_newtypeText {v : View} {ps : List Piece} (hps : ∀ p ∈ ps, p.WellFormed)
    {num : Str} (hnum : IsNumeral num) : Separates (newtypeText num) (Piece.render v) ps := by
  intro p _ rest hrest hstraddles
  rcases render_eq_nil_or_line v p with hgone | ⟨front, hline⟩
  · rw [hgone] at hstraddles
    exact not_straddles_nil _ _ hstraddles
  · rw [hline, newtypeText_eq] at hstraddles
    have hsecond := (prefix_of_straddles newline_notMem_deriveLine (newline_notMem_structLine hnum)
      hstraddles).2
    exact not_structLine_isPrefix (fun q hq => hps q (hrest hq)) hnum hsecond

/-! ## Each replacement is a change of the view -/

section Replacements

variable {v : View} {ps : List Piece} (hps : ∀ p ∈ ps, p.WellFormed)
include hps

/-- A replacement that writes each piece anew in its matches and nowhere else. -/
theorem replace_bindings {v' : View} {pattern replacement : Str}
    (hseparates : Separates pattern (Piece.render v) ps)
    (hpiece : ∀ p : Piece, p.WellFormed → pattern <:+: p.render v →
      replace pattern replacement (p.render v) = p.render v')
    (hframe : ∀ p : Piece, p.WellFormed → ¬ pattern <:+: p.render v → p.render v = p.render v') :
    replace pattern replacement (ps.flatMap (Piece.render v)) = ps.flatMap (Piece.render v') := by
  refine replace_flatMap hseparates fun p hmem => ?_
  have hp := hps p hmem
  by_cases hmatch : pattern <:+: p.render v
  · exact hpiece p hp hmatch
  · rw [replace_of_not_isInfix hmatch]
    exact hframe p hp hmatch

variable (hv : v.Typed)
include hv

theorem replace_newtypeText {num : Str} (hnum : IsNumeral num) (hfresh : v.newtypes num = none)
    (ty : Str) :
    replace (newtypeText num) (replacementText ty) (ps.flatMap (Piece.render v)) =
      ps.flatMap (Piece.render (v.renameNewtype num ty)) := by
  have hne : newtypeText num ≠ [] := List.ne_nil_of_mem
    ((marker_infix_newtypeText num).subset underscore_mem_marker)
  have hnewline : ¬ newtypeText num <:+: ['\n'] := by
    exact not_infix_of_notMem ((marker_infix_newtypeText num).subset underscore_mem_marker)
      (by decide)
  refine replace_bindings hps (separates_newtypeText hps hnum) (fun p hp hmatch => ?_)
    fun p hp hmatch => ?_
  · obtain ⟨rfl, -⟩ := (newtypeText_infix_iff hv hp hnum).mp hmatch
    simp only [Piece.render, hfresh, View.renameNewtype, Function.update_self]
    rw [replace_match hne, replace_of_not_isInfix hnewline]
  · rw [newtypeText_infix_iff hv hp hnum, not_and_or, or_iff_left (not_not.mpr hfresh)] at hmatch
    cases p with
    | newtype num' =>
        have hother : num' ≠ num := fun h => hmatch (congrArg Piece.newtype h)
        simp only [Piece.render, View.renameNewtype, Function.update_of_ne hother]
    | constant | typeAlias | other => rfl

theorem replace_constTyText {num : Str} (hnum : IsNumeral num) (hfresh : v.constants num = none)
    (ty : Str) :
    replace (constTyText (marker ++ num)) (constTyText ty) (ps.flatMap (Piece.render v)) =
      ps.flatMap (Piece.render (v.retypeConstants num ty)) := by
  have hnewline : '\n' ∉ constTyText (marker ++ num) := by
    have hmarker := newline_notMem_marker
    have hnum' : '\n' ∉ num := hnum.notMem (by decide)
    simp [constTyText_eq, hmarker, hnum']
  refine replace_bindings hps (separates_of_newline_notMem hnewline v ps)
    (fun p hp hmatch => ?_) fun p hp hmatch => ?_
  · obtain ⟨⟨name, value, rfl⟩, -⟩ := (constTyText_infix_iff hv hp hnum).mp hmatch
    obtain ⟨hname, -, hvalue⟩ := hp
    have hend : ':' ∉ value ++ lit ");\n" := by
      have hlit : ':' ∉ lit ");\n" := by
        rw [lit_eq ");\n" rfl]
        decide
      rw [List.mem_append, not_or]
      exact ⟨hvalue.notMem (by decide), hlit⟩
    have hcolon : ∃ tail, constTyText (marker ++ num) = ':' :: tail := ⟨_, constTyText_eq _⟩
    obtain ⟨tail, htail⟩ := hcolon
    -- the name has no `:`, so the first match is the type of the constant
    have hold : v.constType num = marker ++ num := by simp [View.constType, hfresh]
    have hnew : (v.retypeConstants num ty).constType num = ty := by
      simp [View.constType, View.retypeConstants]
    simp only [Piece.render, hold, hnew]
    rw [htail, replace_append_of_head_notMem (colon_notMem_name hname),
      replace_match (List.cons_ne_nil _ _),
      replace_of_not_isInfix (not_infix_of_notMem (List.mem_cons_self ..) hend)]
  · rw [constTyText_infix_iff hv hp hnum, not_and_or, or_iff_left (not_not.mpr hfresh)] at hmatch
    cases p with
    | constant name num' value =>
        have hother : num' ≠ num := fun h => hmatch ⟨name, value, h ▸ rfl⟩
        simp only [Piece.render, View.constType, View.retypeConstants, Function.update_of_ne hother]
    | newtype | typeAlias | other => rfl

theorem replace_aliasText {ty : Str} (hty : ty ∈ types) :
    replace (aliasText ty) [] (ps.flatMap (Piece.render v)) =
      ps.flatMap (Piece.render (v.remove ty)) := by
  have hne : aliasText ty ≠ [] := by simp [aliasText_eq]
  refine replace_bindings hps (separates_aliasText hty v ps) (fun p hp hmatch => ?_)
    fun p hp hmatch => ?_
  · obtain ⟨rfl, hkept⟩ := (aliasText_infix_iff hv hp hty).mp hmatch
    have hmatched : replace (aliasText ty) [] (aliasText ty ++ []) = [] := replace_match hne []
    rw [List.append_nil] at hmatched
    simp only [Piece.render, hkept, View.remove, Function.update_self]
    exact hmatched
  · rw [aliasText_infix_iff hv hp hty, not_and_or, Bool.not_eq_false] at hmatch
    cases p with
    | typeAlias ty' =>
        by_cases hsame : ty' = ty
        · obtain rfl := hsame
          have hremoved := hmatch.resolve_left (not_not.mpr rfl)
          simp [Piece.render, View.remove, hremoved]
        · simp only [Piece.render, View.remove, Function.update_of_ne hsame]
    | newtype | constant | other => rfl

end Replacements

end Favi.Xtask

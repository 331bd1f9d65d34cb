import Favi.Renaming

/-!
# What an accepted text says about the CICP types

No assumption here on how many newtypes there are or which constants belong to which.
The guards of the pass look at numbers, not at names: an enum whose constants carry two
prefixes is typed by the first of them, a type without an enum loses its alias all the
same, and two enums with one type both become its definition.

`typedByName_iff` and `definedOnce_iff` say which texts keep the pass from that: those
whose enums each carry one prefix, and those with one enum for each type.

## Strategy

Both read the output as a text, without the pieces.  A constant is looked for at its line,
which is found by adding up the heights of the pieces before it (`line_of_constant`), so
that two constants with the same words on them are told apart.  A definition is counted
wherever it occurs in the output, and since no occurrence lies across two pieces the count
is a sum over the pieces (`occurrences_definition`): one for each newtype that stands for
the type, none for constants, aliases and other lines.
-/

namespace Favi.Xtask

open Text

/-! ## Constants typed by their names -/

/-- The number of lines that a piece has after the pass. -/
def Piece.height : Piece → ℕ
  | .newtype _ => 2
  | .constant .. | .other _ => 1
  | .typeAlias _ => 0

/-- The number of lines that the pieces have after the pass. -/
def height : List Piece → ℕ
  | [] => 0
  | p :: rest => p.height + height rest

/-- The constants whose names carry a CICP prefix stand in `out`, each at its line,
declared and constructed with the type of the prefix. -/
def TypedByName (ps : List Piece) (out : Str) : Prop :=
  ∀ before after name num value ty, ps = before ++ .constant name num value :: after →
    HasPrefix name ty →
      (lines '\n' '\r' out)[height before]? = some (constantLine name ty value)

/-- No enum has constants with two prefixes. -/
def Uniform (ps : List Piece) : Prop :=
  ∀ name name' num value value' ty ty', .constant name num value ∈ ps →
    .constant name' num value' ∈ ps → HasPrefix name ty → HasPrefix name' ty' → ty = ty'

/-- A piece has as many lines as its height says. -/
theorem length_lines_render_tidied (ps : List Piece) {p : Piece} (hp : p.WellFormed) :
    (lines '\n' '\r' (p.render (tidied ps))).length = p.height := by
  cases p with
  | newtype num =>
      have hrenamed : ∀ ty ∈ types,
          (lines '\n' '\r' (replacementText ty ++ ['\n'])).length = 2 := by
        simp only [types_eq, replacementText, lit_eq "(pub u16);" rfl, lit_eq
          "#[derive(Debug, Clone, Hash, PartialEq, Eq, Copy, PartialOrd, Ord)]\npub struct " rfl]
        decide
      cases hty : (tidied ps).newtypes num with
      | some ty =>
          simp only [Piece.render, hty]
          exact hrenamed ty ((typed_tidied ps).newtypes num ty hty)
      | none =>
          simp only [Piece.render, hty, newtypeText_eq, List.append_assoc, List.cons_append]
          rw [lines_line newline_notMem_deriveLine, lines_line (newline_notMem_structLine hp)]
          rfl
  | constant name num value => rw [lines_render_constant (typed_tidied ps) hp]; rfl
  | typeAlias ty =>
      have hty : ty ∈ types := hp
      have hgone : (Piece.typeAlias ty).render (tidied ps) = [] := if_pos (decide_eq_true hty)
      rw [hgone]
      rfl
  | other line =>
      rw [Piece.render, lines_line hp.1]
      rfl

theorem length_lines_tidied (ps : List Piece) {qs : List Piece} (hqs : ∀ q ∈ qs, q.WellFormed) :
    (qs.flatMap fun q => lines '\n' '\r' (q.render (tidied ps))).length = height qs := by
  induction qs with
  | nil => rfl
  | cons q rest ih =>
      rw [List.flatMap_cons, List.length_append,
        length_lines_render_tidied ps (hqs q (List.mem_cons_self ..)),
        ih fun r hr => hqs r (List.mem_cons_of_mem _ hr), height]

theorem eq_of_constantLine_eq {name ty ty' value : Str} (hty : ' ' ∉ ty) (hty' : ' ' ∉ ty')
    (h : constantLine name ty value = constantLine name ty' value) : ty = ty' := by
  simp only [constantLine_eq, List.append_cancel_left_eq, List.cons.injEq, true_and] at h
  exact eq_of_prefix_line hty hty' ⟨[], (List.append_nil _).trans h⟩

section

variable {ps : List Piece} (hps : ∀ p ∈ ps, p.WellFormed)
include hps

/-- A constant stands at its line with the type its number was given. -/
theorem line_of_constant {before after : List Piece} {name num value : Str}
    (hsplit : ps = before ++ .constant name num value :: after) :
    (lines '\n' '\r' (ps.flatMap (Piece.render (tidied ps))))[height before]? =
      some (constantLine name ((tidied ps).constType num) value) := by
  have hmem : .constant name num value ∈ ps := by simp [hsplit]
  have hbefore : ∀ q ∈ before, q.WellFormed := fun q hq => hps q (by simp [hsplit, hq])
  rw [lines_flatMap (render_eq_nil_or_line _), ← length_lines_tidied ps hbefore]
  conv_lhs => rw [hsplit]
  rw [List.flatMap_append, List.flatMap_cons, ← hsplit,
    lines_render_constant (typed_tidied ps) (hps _ hmem),
    List.getElem?_append_right le_rfl, Nat.sub_self]
  rfl

/-- An accepted text comes out typed by its names when no enum has two prefixes. -/
theorem typedByName_tidied_iff (haccepted : Accepted ps) :
    TypedByName ps (ps.flatMap (Piece.render (tidied ps))) ↔ Uniform ps := by
  have hspace : ∀ {ty}, ty ∈ types → ' ' ∉ ty := fun hty => notMem_type hty (by simp)
  constructor
  · intro htyped name name' num value value' ty ty' hmem hmem' hstarts hstarts'
    -- both constants have the type that was learned for their number
    have hgiven : ∀ {name value ty}, .constant name num value ∈ ps → HasPrefix name ty →
        (tidied ps).constType num = ty := by
      intro name value ty hmem hstarts
      obtain ⟨before, after, hsplit⟩ := List.append_of_mem hmem
      have hline := htyped before after name num value ty hsplit hstarts
      rw [line_of_constant hps hsplit] at hline
      refine eq_of_constantLine_eq ?_ (hspace hstarts.mem_types) (Option.some.inj hline)
      exact notMem_constType (typed_tidied ps) (hps _ hmem).2.1 (by simp)
    rw [← hgiven hmem hstarts, ← hgiven hmem' hstarts']
  · intro huniform before after name num value ty hsplit hstarts
    have hmem : .constant name num value ∈ ps := by simp [hsplit]
    -- the type was learned from some constant of the number, and they all carry one prefix
    obtain ⟨ty', hty'⟩ := attributed_iff.mp (haccepted.constants name num value hmem).1
    obtain ⟨name', value', hmem', hstarts'⟩ := exists_constant_of_learnedType hty'
    obtain rfl : ty' = ty := huniform _ _ _ _ _ _ _ hmem' hmem hstarts' hstarts
    have hgiven : (tidied ps).constType num = ty' := by simp [View.constType, tidied, hty']
    rw [line_of_constant hps hsplit, hgiven]

/-- Whenever the pass succeeds it types the constants by their names, exactly for texts
that are not accepted or whose enums each carry one prefix. -/
theorem typedByName_iff :
    (∀ out, tidyCicpEnums (bindings ps) = .ok out → TypedByName ps out) ↔
      (Accepted ps → Uniform ps) := by
  simp only [tidyCicpEnums_eq_ok_iff hps]
  constructor
  · intro htyped haccepted
    exact (typedByName_tidied_iff hps haccepted).mp (htyped _ ⟨haccepted, rfl⟩)
  · rintro huniform out ⟨haccepted, rfl⟩
    exact (typedByName_tidied_iff hps haccepted).mpr (huniform haccepted)

end

/-- In standard text no enum has two prefixes. -/
theorem Standard.uniform {ps : List Piece} {typeOf : Str → Str} (h : Standard ps typeOf)
    (haccepted : Accepted ps) : Uniform ps := by
  intro name name' num value value' ty ty' hmem hmem' hstarts hstarts'
  have hnewtype := haccepted.defined num (haccepted.constants name num value hmem).1
  rw [hstarts.unique (h.prefixes name num value hmem hnewtype),
    hstarts'.unique (h.prefixes name' num value' hmem' hnewtype)]

theorem typedByName_sample :
    ∃ out, tidyCicpEnums (bindings (sample [])) = .ok out ∧ TypedByName (sample []) out := by
  obtain ⟨hps, hstandard, haccepted⟩ := sample_shape
  have htidy := (tidyCicpEnums_eq_ok_iff hps _).mpr ⟨haccepted, rfl⟩
  exact ⟨_, htidy, (typedByName_iff hps).mpr hstandard.uniform _ htidy⟩

/-- A constant that carries the prefix of one type and the number of another. -/
def strangeConstant : Piece :=
  .constant (lit "AVIF_MATRIX_COEFFICIENTS_IDENTITY") (lit "1") (lit "0")

/-- The pass accepts an enum with two prefixes, and gives one of its constants a type
that is not the type of its name. -/
theorem mixed_enum_mistyped :
    (∀ p ∈ sample [strangeConstant], p.WellFormed) ∧
      ∃ out, tidyCicpEnums (bindings (sample [strangeConstant])) = .ok out ∧
        ¬ TypedByName (sample [strangeConstant]) out := by
  have hshape : (∀ p ∈ sample [strangeConstant], p.WellFormed) ∧
      Accepted (sample [strangeConstant]) ∧
      HasPrefix (lit "AVIF_COLOR_PRIMARIES_BT709") (lit "avifColorPrimaries") ∧
      HasPrefix (lit "AVIF_MATRIX_COEFFICIENTS_IDENTITY") (lit "avifMatrixCoefficients") ∧
      lit "avifColorPrimaries" ≠ lit "avifMatrixCoefficients" := by decide +kernel
  obtain ⟨hps, haccepted, hcolor, hmatrix, hdistinct⟩ := hshape
  have hfirst : .constant (lit "AVIF_COLOR_PRIMARIES_BT709") (lit "1") (lit "1") ∈
      sample [strangeConstant] := by simp [sample]
  have hstrange : strangeConstant ∈ sample [strangeConstant] := by simp [sample]
  refine ⟨hps, _, (tidyCicpEnums_eq_ok_iff hps _).mpr ⟨haccepted, rfl⟩, fun htyped => ?_⟩
  have huniform := (typedByName_tidied_iff hps haccepted).mp htyped
  exact hdistinct (huniform _ _ _ _ _ _ _ hfirst hstrange hcolor hmatrix)

/-! ## Types defined once -/

/-- The definition of a CICP type, as a tidied newtype has it. -/
def definition (ty : Str) : Str := lit "pub struct " ++ ty ++ lit "(pub u16);"

/-- Each CICP type is defined once and is no alias. -/
def DefinedOnce (out : Str) : Prop :=
  ∀ ty ∈ types, occurrences (definition ty) out = 1 ∧ ¬ aliasLine ty <:+: out

/-- Other lines do not define a CICP type. -/
def Piece.DefinesNone : Piece → Prop
  | .other line => ∀ ty ∈ types, ¬ definition ty <:+: line
  | .newtype _ | .constant .. | .typeAlias _ => True

instance : (p : Piece) → Decidable p.DefinesNone
  | .other line => inferInstanceAs (Decidable (∀ ty ∈ types, ¬ definition ty <:+: line))
  | .newtype _ | .constant .. | .typeAlias _ => inferInstanceAs (Decidable True)

/-- A newtype whose first constant with a CICP prefix carries the prefix of `ty`. -/
def Piece.stands (ps : List Piece) (ty : Str) : Piece → Bool
  | .newtype num => learnedType ps num = some ty
  | .constant .. | .typeAlias _ | .other _ => false

theorem newline_notMem_definition {ty : Str} (hty : ty ∈ types) : '\n' ∉ definition ty := by
  have hall : ∀ ty ∈ types, '\n' ∉ definition ty := by
    simp only [types_eq, definition, lit_eq "pub struct " rfl, lit_eq "(pub u16);" rfl]
    decide
  exact hall ty hty

/-- A constant does not define a type. -/
theorem not_definition_infix_constant {v : View} (hv : v.Typed) {name num value ty : Str}
    (hp : (Piece.constant name num value).WellFormed) :
    ¬ definition ty <:+: (Piece.constant name num value).render v := by
  obtain ⟨hname, hnum, hvalue⟩ := hp
  intro h
  -- the one `(` of the definition meets the one `(` of the constant
  have hopen : lit "(pub u16);" = '(' :: 'p' :: lit "ub u16);" := by
    rw [lit_eq "ub u16);" rfl]
    exact lit_eq "(pub u16);" rfl
  have hconst : '(' ∉ lit "pub const " ∧ '(' ∉ lit ");\n" := by
    rw [lit_eq "pub const " rfl, lit_eq ");\n" rfl]
    decide
  have hname' : '(' ∉ name := hname.notMem (by decide)
  have hvalue' : '(' ∉ value := hvalue.notMem (by decide)
  have htype := notMem_constType hv hnum (by simp : '(' ∈ ['#', '=', ':', '(', ' ', '\n'])
  have hrender : (Piece.constant name num value).render v =
      (lit "pub const " ++ (name ++ ':' :: ' ' :: (v.constType num ++ ' ' :: '=' :: ' ' ::
        v.constType num))) ++ '(' :: (value ++ lit ");\n") := by
    rw [render_constant]
    simp only [List.append_assoc, List.cons_append]
  rw [definition, hopen, hrender] at h
  have hafter := (parts_of_isInfix (by simp [hconst, hname', htype])
    (by simp [hconst, hvalue']) h).2
  -- but a numeral does not begin with a letter
  obtain ⟨digit, rest, rfl⟩ := List.exists_cons_of_ne_nil hvalue.1
  obtain ⟨rfl, -⟩ := List.cons_prefix_cons.mp hafter
  exact absurd (hvalue.2 'p' (List.mem_cons_self ..)) (by decide)

section

variable {ps : List Piece} (hps : ∀ p ∈ ps, p.WellFormed) (hother : ∀ p ∈ ps, p.DefinesNone)
include hps

include hother in
/-- Each newtype that stands for a type becomes a definition of it, and nothing else does. -/
theorem occurrences_definition (haccepted : Accepted ps) {ty : Str} (hty : ty ∈ types) :
    occurrences (definition ty) (ps.flatMap (Piece.render (tidied ps))) =
      ps.countP (Piece.stands ps ty) := by
  have hpiece : ∀ p ∈ ps, occurrences (definition ty) (p.render (tidied ps)) =
      if p.stands ps ty then 1 else 0 := by
    intro p hmem
    cases p with
    | newtype num =>
        have hall : ∀ ty ∈ types, ∀ ty' ∈ types,
            occurrences (definition ty) (replacementText ty' ++ ['\n']) =
              if ty' = ty then 1 else 0 := by
          simp only [types_eq, definition, replacementText, lit_eq "pub struct " rfl,
            lit_eq "(pub u16);" rfl, lit_eq
            "#[derive(Debug, Clone, Hash, PartialEq, Eq, Copy, PartialOrd, Ord)]\npub struct " rfl]
          decide
        obtain ⟨ty', hty'⟩ := attributed_iff.mp (haccepted.newtypes num hmem)
        have hrenamed : (tidied ps).newtypes num = some ty' := hty'
        simp only [Piece.render, hrenamed, Piece.stands, hty', Option.some.injEq, decide_eq_true_eq]
        exact hall ty hty ty' ((typed_tidied ps).newtypes num ty' hrenamed)
    | constant name num value =>
        exact occurrences_of_not_isInfix
          (not_definition_infix_constant (typed_tidied ps) (hps _ hmem))
    | typeAlias ty' =>
        have hty' : ty' ∈ types := hps _ hmem
        have hgone : (Piece.typeAlias ty').render (tidied ps) = [] := if_pos (decide_eq_true hty')
        rw [hgone]
        rfl
    | other line =>
        have hne : definition ty ≠ [] := by simp [definition, lit]
        refine occurrences_of_not_isInfix fun h => hother _ hmem ty hty ?_
        exact (infix_line_iff hne (newline_notMem_definition hty)).mp h
  exact occurrences_flatMap
    (separates_of_newline_notMem (newline_notMem_definition hty) _ ps) hpiece

/-- No alias of a CICP type is left, as a line or inside one. -/
theorem not_aliasLine_infix_tidied {ty : Str} (hty : ty ∈ types) :
    ¬ aliasLine ty <:+: ps.flatMap (Piece.render (tidied ps)) := by
  rw [infix_flatMap_iff (by simp [aliasLine_eq])
    (separates_of_newline_notMem (newline_notMem_aliasLine hty) _ ps)]
  rintro ⟨p, hmem, hoccurs⟩
  have hkept := ((aliasLine_infix_iff (typed_tidied ps) (hps p hmem) hty).mp hoccurs).2
  rw [tidied, decide_eq_false_iff_not] at hkept
  exact hkept hty

include hother in
/-- An accepted text comes out with one definition of each type when it has one newtype for each
type. -/
theorem definedOnce_tidied_iff (haccepted : Accepted ps) :
    DefinedOnce (ps.flatMap (Piece.render (tidied ps))) ↔
      ∀ ty ∈ types, ps.countP (Piece.stands ps ty) = 1 := by
  refine forall₂_congr fun ty hty => ?_
  rw [occurrences_definition hps hother haccepted hty]
  exact and_iff_left (not_aliasLine_infix_tidied hps hty)

include hother in
/-- Whenever the pass succeeds each CICP type is defined once, exactly for texts that are
not accepted or have one newtype for each type. -/
theorem definedOnce_iff :
    (∀ out, tidyCicpEnums (bindings ps) = .ok out → DefinedOnce out) ↔
      (Accepted ps → ∀ ty ∈ types, ps.countP (Piece.stands ps ty) = 1) := by
  simp only [tidyCicpEnums_eq_ok_iff hps]
  constructor
  · intro hdefined haccepted
    exact (definedOnce_tidied_iff hps hother haccepted).mp (hdefined _ ⟨haccepted, rfl⟩)
  · rintro hcount out ⟨haccepted, rfl⟩
    exact (definedOnce_tidied_iff hps hother haccepted).mpr (hcount haccepted)

end

theorem definedOnce_sample :
    ∃ out, tidyCicpEnums (bindings (sample [])) = .ok out ∧ DefinedOnce out := by
  have hshape : (∀ p ∈ sample [], p.DefinesNone) ∧
      ∀ ty ∈ types, (sample []).countP (Piece.stands (sample []) ty) = 1 := by decide +kernel
  obtain ⟨hps, -, haccepted⟩ := sample_shape
  have htidy := (tidyCicpEnums_eq_ok_iff hps _).mpr ⟨haccepted, rfl⟩
  exact ⟨_, htidy, (definedOnce_iff hps hshape.1).mpr (fun _ => hshape.2) _ htidy⟩

/-- A second anonymous enum for a type that has one. -/
def secondEnum : List Piece :=
  [.newtype (lit "4"), .constant (lit "AVIF_COLOR_PRIMARIES_SRGB") (lit "4") (lit "1")]

/-- The pass accepts a text without any enum, which leaves every type undefined, and a
text with a second enum for a type, which leaves it defined twice. -/
theorem missing_and_second_enum_accepted :
    ((∀ p ∈ types.map Piece.typeAlias, p.WellFormed ∧ p.DefinesNone) ∧
      ∃ out, tidyCicpEnums (bindings (types.map Piece.typeAlias)) = .ok out ∧ ¬ DefinedOnce out) ∧
    ((∀ p ∈ sample secondEnum, p.WellFormed ∧ p.DefinesNone) ∧
      ∃ out, tidyCicpEnums (bindings (sample secondEnum)) = .ok out ∧ ¬ DefinedOnce out) := by
  have hshape : ∀ ps ∈ [types.map Piece.typeAlias, sample secondEnum],
      (∀ p ∈ ps, p.WellFormed ∧ p.DefinesNone) ∧ Accepted ps ∧
        ps.countP (Piece.stands ps (lit "avifColorPrimaries")) ≠ 1 := by decide +kernel
  have hcolor : lit "avifColorPrimaries" ∈ types := by simp [types, cicpTypes]
  have haccepted : ∀ ps ∈ [types.map Piece.typeAlias, sample secondEnum],
      (∀ p ∈ ps, p.WellFormed ∧ p.DefinesNone) ∧
        ∃ out, tidyCicpEnums (bindings ps) = .ok out ∧ ¬ DefinedOnce out := by
    intro ps hmem
    obtain ⟨hpieces, haccepted, hcount⟩ := hshape ps hmem
    have hps := fun p hp => (hpieces p hp).1
    refine ⟨hpieces, _, (tidyCicpEnums_eq_ok_iff hps _).mpr ⟨haccepted, rfl⟩, fun hdefined => ?_⟩
    rw [definedOnce_tidied_iff hps (fun p hp => (hpieces p hp).2) haccepted] at hdefined
    exact hcount (hdefined _ hcolor)
  exact ⟨haccepted _ (List.mem_cons_self ..),
    haccepted _ (List.mem_cons_of_mem _ (List.mem_cons_self ..))⟩

end Favi.Xtask

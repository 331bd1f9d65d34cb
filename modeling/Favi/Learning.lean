import Favi.Rewriting

/-!
# What the pass learns

The learning loop reads the text line by line.  On a bindings text it takes one entry
from each constant whose name has a CICP prefix (`Piece.attribution`) and nothing from
any other line, so what it learns of a number is the type of the first such constant
(`lookup_learn`), and it has every number once (`nodup_learn`).

The loop splits a line at the first `: _bindgen_ty_` and then at the first space.  Both are
where a reader expects them, because an identifier has no colon and a numeral no space.
Lines that are no constants teach nothing for one of two reasons: they do not begin with
`pub const `, or they do not hold a name of bindgen's.
-/

namespace Favi.Xtask

open Text

/-! ## CICP prefixes -/

/-- The name carries the CICP prefix of `ty`. -/
def HasPrefix (name ty : Str) : Prop := ∃ front, (front, ty) ∈ cicpTypes ∧ front <+: name

theorem HasPrefix.mem_types {name ty : Str} (h : HasPrefix name ty) : ty ∈ types := by
  obtain ⟨front, hmem, -⟩ := h
  exact List.mem_map_of_mem (f := Prod.snd) hmem

/-- A name has the prefix of at most one type. -/
theorem HasPrefix.unique {name ty ty' : Str} (h : HasPrefix name ty) (h' : HasPrefix name ty') :
    ty = ty' := by
  have hall : ∀ entry ∈ cicpTypes, ∀ entry' ∈ cicpTypes,
      entry.1 <+: entry'.1 → entry.2 = entry'.2 := by
    rw [cicpTypes, lit_eq "AVIF_COLOR_PRIMARIES_" rfl, lit_eq "AVIF_TRANSFER_CHARACTERISTICS_" rfl,
      lit_eq "AVIF_MATRIX_COEFFICIENTS_" rfl, lit_eq "avifColorPrimaries" rfl,
      lit_eq "avifTransferCharacteristics" rfl, lit_eq "avifMatrixCoefficients" rfl]
    decide
  obtain ⟨front, hmem, hfront⟩ := h
  obtain ⟨front', hmem', hfront'⟩ := h'
  rcases List.prefix_or_prefix_of_prefix hfront hfront' with hle | hle
  · exact hall _ hmem _ hmem' hle
  · exact (hall _ hmem' _ hmem hle).symm

/-- The table search finds the type whose prefix the name carries; no prefix begins another, so
the order of the table does not matter. -/
theorem cicpType?_eq_some_iff {name ty : Str} : cicpType? name = some ty ↔ HasPrefix name ty := by
  have hsound : ∀ {ty}, cicpType? name = some ty → HasPrefix name ty := by
    intro ty h
    obtain ⟨entry, hfind, rfl⟩ := Option.map_eq_some_iff.mp h
    have hstarts := List.find?_some hfind
    exact ⟨entry.1, List.mem_of_find?_eq_some hfind, List.isPrefixOf_iff_prefix.mp hstarts⟩
  refine ⟨hsound, fun h => ?_⟩
  obtain ⟨front, hmem, hfront⟩ := id h
  have hfound : (cicpTypes.find? fun entry => entry.1.isPrefixOf name).isSome :=
    List.find?_isSome.mpr ⟨(front, ty), hmem, List.isPrefixOf_iff_prefix.mpr hfront⟩
  obtain ⟨entry, hentry⟩ := Option.isSome_iff_exists.mp hfound
  -- the entry found first has the type of any other that matches
  have hother : cicpType? name = some entry.2 := by rw [cicpType?, hentry, Option.map_some]
  rw [hother, (hsound hother).unique h]

instance (name ty : Str) : Decidable (HasPrefix name ty) :=
  decidable_of_iff _ cicpType?_eq_some_iff

/-! ## The lines of a bindings text -/

/-- The line of a constant, without its end. -/
def constantLine (name ty value : Str) : Str :=
  lit "pub const " ++ name ++ lit ": " ++ ty ++ lit " = " ++ ty ++ lit "(" ++ value ++ lit ");"

theorem constantLine_eq (name ty value : Str) : constantLine name ty value =
    lit "pub const " ++ (name ++ ':' :: (' ' :: (ty ++ ' ' :: '=' :: ' ' :: (ty ++ '(' ::
      (value ++ lit ");"))))) := by
  rw [constantLine, lit_eq ": " rfl, lit_eq " = " rfl, lit_eq "(" rfl]
  simp only [List.append_assoc, List.cons_append, List.nil_append]

theorem render_constant_eq_line (v : View) (name num value : Str) :
    (Piece.constant name num value).render v =
      constantLine name (v.constType num) value ++ ['\n'] := by
  have hend : lit ");\n" = lit ");" ++ ['\n'] := by
    rw [lit_eq ");" rfl]
    exact lit_eq ");\n" rfl
  rw [render_constant, constantLine_eq, hend]
  simp only [List.append_assoc, List.cons_append]

theorem newline_notMem_constantLine {name ty value : Str} (hname : IsIdent name)
    (hty : '\n' ∉ ty) (hvalue : IsNumeral value) : '\n' ∉ constantLine name ty value := by
  have hlit : '\n' ∉ lit "pub const " ∧ '\n' ∉ lit ");" := by
    rw [lit_eq "pub const " rfl, lit_eq ");" rfl]
    decide
  have hname' : '\n' ∉ name := hname.notMem (by decide)
  have hvalue' : '\n' ∉ value := hvalue.notMem (by decide)
  simp [constantLine_eq, hlit, hname', hty, hvalue']

theorem lines_singleton {line : Str} (hnewline : '\n' ∉ line) (hcr : ¬ ['\r'] <:+ line) :
    lines '\n' '\r' (line ++ ['\n']) = [line] := by
  rw [lines_line hnewline, chomp_line hcr]
  rfl

theorem lines_render_constant {v : View} (hv : v.Typed) {name num value : Str}
    (hp : (Piece.constant name num value).WellFormed) :
    lines '\n' '\r' ((Piece.constant name num value).render v) =
      [constantLine name (v.constType num) value] := by
  have hty := notMem_constType hv hp.2.1 (by simp : '\n' ∈ ['#', '=', ':', '(', ' ', '\n'])
  rw [render_constant_eq_line]
  refine lines_singleton (newline_notMem_constantLine hp.1 hty hp.2.2) fun hsuffix => ?_
  -- the line ends with `;`
  have hend : lit ");" = lit ")" ++ [';'] := by
    rw [lit_eq ")" rfl]
    exact lit_eq ");" rfl
  rw [constantLine, hend, ← List.append_assoc] at hsuffix
  obtain ⟨front, hfront⟩ := hsuffix
  exact absurd (List.append_inj' hfront rfl).2 (by decide)

/-! ## What a line teaches -/

theorem learnLine_of_not_isPrefix {line : Str} (h : ¬ lit "pub const " <+: line)
    (nums : List (Str × Str)) : learnLine nums line = nums := by
  unfold learnLine
  split
  · rfl
  · next rest hrest =>
      have hline := prefix_of_dropPrefix? hrest
      exact absurd (hline ▸ List.prefix_append _ rest) h

theorem learnLine_of_not_isInfix {line : Str} (h : ¬ marker <:+: line) (nums : List (Str × Str)) :
    learnLine nums line = nums := by
  unfold learnLine
  split
  · rfl
  · next rest hrest =>
      have hpattern : marker <:+: lit ": _bindgen_ty_" := by
        rw [marker_eq, lit_eq ": _bindgen_ty_" rfl]
        decide
      have hnone : rest.dropInfix? (lit ": _bindgen_ty_") = none := by
        refine dropInfix?_eq_none fun hoccurs => h ?_
        rw [prefix_of_dropPrefix? hrest]
        exact (hpattern.trans hoccurs).trans (List.suffix_append _ _).isInfix
      rw [hnone]

/-- A line of a constant teaches the type of its prefix, if it has one. -/
theorem learnLine_constantLine {name num value : Str} (hname : IsIdent name) (hnum : IsNumeral num)
    (nums : List (Str × Str)) :
    learnLine nums (constantLine name (marker ++ num) value) =
      (cicpType? name).elim nums (Table.insertNew nums num) := by
  have hcolon : lit ": _bindgen_ty_" = ':' :: (' ' :: marker) := by
    rw [marker_eq]
    exact lit_eq ": _bindgen_ty_" rfl
  have hname' : ':' ∉ name := hname.notMem (by decide)
  have hnum' : ' ' ∉ num := hnum.notMem (by decide)
  -- the first `: _bindgen_ty_` ends the name, the first space after it the number
  have hfirst : ∀ rest, (name ++ ':' :: (' ' :: (marker ++ num ++ rest))).dropInfix?
      (lit ": _bindgen_ty_") = some (name, num ++ rest) := by
    intro rest
    have hsplit := dropInfix?_of_head_notMem hname' (' ' :: marker) (num ++ rest)
    rw [hcolon, ← hsplit]
    simp only [List.cons_append, List.append_assoc]
  have hsecond : ∀ rest, (num ++ ' ' :: rest).dropInfix? (lit " ") = some (num, rest) := by
    intro rest
    rw [lit_eq " " rfl]
    exact dropInfix?_of_head_notMem hnum' [] rest
  rw [constantLine_eq, learnLine, dropPrefix?_append]
  cases hty : cicpType? name with
  | none => simp only [hfirst, hsecond, hty, Option.elim_none]
  | some ty => simp only [hfirst, hsecond, hty, Option.elim_some]

/-! ## What the loop learns -/

/-- What the loop takes from a piece. -/
def Piece.attribution : Piece → Option (Str × Str)
  | .constant name num _ => (cicpType? name).map fun ty => (num, ty)
  | .newtype _ | .typeAlias _ | .other _ => none

/-- The lines of a piece teach what the piece attributes. -/
theorem learn_piece {p : Piece} (hp : p.WellFormed) (nums : List (Str × Str)) :
    (lines '\n' '\r' (p.render .source)).foldl learnLine nums =
      p.attribution.elim nums fun entry => Table.insertNew nums entry.1 entry.2 := by
  cases p with
  | constant name num value =>
      have hsource : View.source.Typed := ⟨nofun, nofun⟩
      rw [lines_render_constant hsource hp, List.foldl_cons, List.foldl_nil]
      refine (learnLine_constantLine hp.1 hp.2.1 nums).trans ?_
      cases hty : cicpType? name with
      | none => simp only [Piece.attribution, hty, Option.map_none, Option.elim_none]
      | some ty => simp only [Piece.attribution, hty, Option.map_some, Option.elim_some]
  | newtype num =>
      have hderive : ¬ ['\r'] <:+ deriveLine ∧ ¬ lit "pub const " <+: deriveLine := by
        rw [deriveLine, lit_eq "#[derive(Debug, Clone, Hash, PartialEq, Eq)]" rfl,
          lit_eq "pub const " rfl]
        decide
      have hstruct : ¬ lit "pub const " <+: structLine num := by
        have hlit : ¬ lit "pub const " <+: lit "pub struct " ∧
            ¬ lit "pub struct " <+: lit "pub const " := by
          rw [lit_eq "pub const " rfl, lit_eq "pub struct " rfl]
          decide
        rw [← List.append_nil (lit "pub const ")]
        exact not_prefix_append hlit.1 hlit.2 _ _
      have hchomp : chomp '\n' '\r' (structLine num ++ ['\n']) <+: structLine num :=
        chomp_line_isPrefix _ _ _
      simp only [Piece.render, View.source, newtypeText_eq, List.append_assoc, List.cons_append]
      rw [lines_line newline_notMem_deriveLine, chomp_line hderive.1,
        lines_line (newline_notMem_structLine hp),
        List.foldl_cons, List.foldl_cons, learnLine_of_not_isPrefix hderive.2,
        learnLine_of_not_isPrefix fun h => hstruct (h.trans hchomp)]
      rfl
  | typeAlias ty =>
      have hall : ∀ ty ∈ types,
          ¬ ['\r'] <:+ aliasLine ty ∧ ¬ lit "pub const " <+: aliasLine ty := by
        simp only [types_eq, aliasLine, lit_eq "pub type " rfl, lit_eq " = u16;" rfl,
          lit_eq "pub const " rfl]
        decide
      have hkept : (Piece.typeAlias ty).render .source = aliasLine ty ++ ['\n'] := aliasText_eq ty
      rw [hkept, lines_singleton (newline_notMem_aliasLine hp) (hall ty hp).1, List.foldl_cons,
        learnLine_of_not_isPrefix (hall ty hp).2]
      rfl
  | other line =>
      have hchomp := (chomp_line_isPrefix '\n' '\r' line).isInfix
      rw [Piece.render, lines_line hp.1, List.foldl_cons,
        learnLine_of_not_isInfix fun h => hp.2.1 (h.trans hchomp)]
      rfl

section Learned

variable {ps : List Piece} (hps : ∀ p ∈ ps, p.WellFormed)
include hps

/-- The loop over the lines is a loop over the constants. -/
theorem learn_bindings :
    learn (bindings ps) =
      (ps.filterMap Piece.attribution).foldl
        (fun nums entry => Table.insertNew nums entry.1 entry.2) [] := by
  rw [learn, bindings, lines_flatMap (render_eq_nil_or_line _), List.foldl_flatMap,
    List.foldl_filterMap]
  refine List.foldl_ext _ _ _ fun nums p hmem => (learn_piece (hps p hmem) nums).trans ?_
  cases p.attribution with
  | none => rfl
  | some entry => rfl

/-- The type of a number is that of its first constant with a CICP prefix. -/
theorem lookup_learn (num : Str) :
    (learn (bindings ps)).lookup num = (ps.filterMap Piece.attribution).lookup num := by
  rw [learn_bindings hps, Table.lookup_foldl_insertNew, List.nil_append]

/-- No number is learned twice. -/
theorem nodup_learn : ((learn (bindings ps)).map Prod.fst).Nodup := by
  rw [learn_bindings hps]
  exact Table.nodup_foldl_insertNew _ List.nodup_nil

end Learned

end Favi.Xtask

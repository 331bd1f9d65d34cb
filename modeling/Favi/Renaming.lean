import Favi.Tidying

/-!
# The pass as a renaming

The text bindgen is expected to give has one anonymous newtype and one alias for each
CICP type, and the constants of a newtype carry the prefix of its type (`Standard`).
There the pass is meant to be a renaming of the pieces: each takes the name that
`typeOf` gives its number, and the aliases go (`Piece.renamed`).

`tidyCicpEnums_eq_renamed_iff` says when it is: every constant must belong to one of the
newtypes, and no name may hold the text `_bindgen_ty_`, which the last check of the pass
finds wherever it stands.

The pass does not know `typeOf`, it learns it.  In standard text it cannot learn anything
else, because all the constants of a newtype carry one prefix and there is at least one of
them; so it does not matter which of them comes first (`Standard.learnedType_eq`).  What the
standard does not say is that the constants of other enums keep out of the way, and
`standard_not_sufficient` shows that they need not: the guards then stop the pass.

`sample` is a small standard text, to which the examples of this and later modules add the
pieces they are about.
-/

namespace Favi.Xtask

open Text

/-- A piece under the names that `typeOf` gives the numbers. This is what the pass is for,
stated without its loops and guards. -/
def Piece.renamed (typeOf : Str → Str) : Piece → Str
  | .newtype num => replacementText (typeOf num) ++ ['\n']
  | .constant name num value => constantLine name (typeOf num) value ++ ['\n']
  | .typeAlias _ => []
  | .other line => line ++ ['\n']

/-- The number of an anonymous newtype. -/
def Piece.newtypeNum? : Piece → Option Str
  | .newtype num => some num
  | .constant .. | .typeAlias _ | .other _ => none

/-- The number of the newtype that a constant belongs to. -/
def Piece.constantNum? : Piece → Option Str
  | .constant _ num _ => some num
  | .newtype _ | .typeAlias _ | .other _ => none

/-- The type of an alias. -/
def Piece.aliasType? : Piece → Option Str
  | .typeAlias ty => some ty
  | .newtype _ | .constant .. | .other _ => none

/-- The numbers of the constants are those that some constant has. -/
theorem mem_constantNums_iff {ps : List Piece} {num : Str} :
    num ∈ ps.filterMap Piece.constantNum? ↔ ∃ name value, .constant name num value ∈ ps := by
  rw [List.mem_filterMap]
  constructor
  · rintro ⟨p, hmem, hp⟩
    cases p with
    | constant name num' value =>
        cases hp
        exact ⟨name, value, hmem⟩
    | newtype | typeAlias | other => cases hp
  · rintro ⟨name, value, hmem⟩
    exact ⟨_, hmem, rfl⟩

/-- The types of the aliases are those that some alias has. -/
theorem mem_aliasTypes_iff {ps : List Piece} {ty : Str} :
    ty ∈ ps.filterMap Piece.aliasType? ↔ .typeAlias ty ∈ ps := by
  rw [List.mem_filterMap]
  constructor
  · rintro ⟨p, hmem, hp⟩
    cases p with
    | typeAlias ty' =>
        cases hp
        exact hmem
    | newtype | constant | other => cases hp
  · exact fun hmem => ⟨_, hmem, rfl⟩

/-- One newtype for each CICP type, each with a constant and all its constants with the
prefix of the type, and one alias for each CICP type. -/
structure Standard (ps : List Piece) (typeOf : Str → Str) : Prop where
  newtypes : ((ps.filterMap Piece.newtypeNum?).map typeOf).Perm types
  inhabited : ∀ num, .newtype num ∈ ps → ∃ name value, .constant name num value ∈ ps
  prefixes : ∀ name num value, .constant name num value ∈ ps → .newtype num ∈ ps →
    HasPrefix name (typeOf num)
  aliases : (ps.filterMap Piece.aliasType?).Perm types

/-- What the standard asks of a piece. -/
def Piece.Follows (ps : List Piece) (typeOf : Str → Str) : Piece → Prop
  | .newtype num => num ∈ ps.filterMap Piece.constantNum?
  | .constant name num _ => .newtype num ∈ ps → HasPrefix name (typeOf num)
  | .typeAlias _ | .other _ => True

instance (ps : List Piece) (typeOf : Str → Str) : (p : Piece) → Decidable (p.Follows ps typeOf)
  | .newtype num => inferInstanceAs (Decidable (num ∈ ps.filterMap Piece.constantNum?))
  | .constant name num _ =>
      inferInstanceAs (Decidable (.newtype num ∈ ps → HasPrefix name (typeOf num)))
  | .typeAlias _ | .other _ => inferInstanceAs (Decidable True)

/-- The standard, piece by piece; in this form it can be decided. -/
theorem standard_iff {ps : List Piece} {typeOf : Str → Str} :
    Standard ps typeOf ↔ ((ps.filterMap Piece.newtypeNum?).map typeOf).Perm types ∧
      (∀ p ∈ ps, p.Follows ps typeOf) ∧ (ps.filterMap Piece.aliasType?).Perm types := by
  constructor
  · intro h
    refine ⟨h.newtypes, fun p hmem => ?_, h.aliases⟩
    cases p with
    | newtype num => exact mem_constantNums_iff.mpr (h.inhabited num hmem)
    | constant name num value => exact h.prefixes name num value hmem
    | typeAlias | other => trivial
  · rintro ⟨hnewtypes, hfollows, haliases⟩
    exact ⟨hnewtypes, fun num hmem => mem_constantNums_iff.mp (hfollows _ hmem),
      fun _ _ _ hmem => hfollows _ hmem, haliases⟩

instance (ps : List Piece) (typeOf : Str → Str) : Decidable (Standard ps typeOf) :=
  decidable_of_iff' _ standard_iff

section Standard

variable {ps : List Piece} {typeOf : Str → Str} (h : Standard ps typeOf)
include h

/-- In standard text every newtype has a constant with a CICP prefix. -/
theorem Standard.attributed {num : Str} (hmem : .newtype num ∈ ps) : Attributed ps num := by
  obtain ⟨name, value, hconstant⟩ := h.inhabited num hmem
  exact ⟨name, value, typeOf num, hconstant, h.prefixes name num value hconstant hmem⟩

/-- A newtype is learned as it should be, whichever constant comes first. -/
theorem Standard.learnedType_eq {num : Str} (hmem : .newtype num ∈ ps) :
    learnedType ps num = some (typeOf num) := by
  obtain ⟨ty, hty⟩ := attributed_iff.mp (h.attributed hmem)
  -- whichever constant it was learned from carries the prefix of `typeOf num`
  obtain ⟨name, value, hconstant, hstarts⟩ := exists_constant_of_learnedType hty
  rw [hty, hstarts.unique (h.prefixes name num value hconstant hmem)]

/-- A piece comes out of the pass under its name, if it is no constant of a strange enum. -/
theorem Standard.render_eq {p : Piece} (hp : p.WellFormed) (hmem : p ∈ ps)
    (hbelongs : ∀ name num value, p = .constant name num value → .newtype num ∈ ps) :
    p.render (tidied ps) = p.renamed typeOf := by
  cases p with
  | newtype num =>
      have hty : (tidied ps).newtypes num = some (typeOf num) := h.learnedType_eq hmem
      simp only [Piece.render, hty, Piece.renamed]
  | constant name num value =>
      have hty : (tidied ps).constType num = typeOf num := by
        have hlearned := h.learnedType_eq (hbelongs name num value rfl)
        simp [View.constType, tidied, hlearned]
      rw [render_constant_eq_line, hty, Piece.renamed]
  | typeAlias ty =>
      have hty : ty ∈ types := hp
      exact if_pos (decide_eq_true hty)
  | other line => rfl

end Standard

/-- On standard text the pass is the renaming when every constant belongs to one of the
newtypes and no name holds `_bindgen_ty_`; otherwise it fails. -/
theorem tidyCicpEnums_eq_renamed_iff {ps : List Piece} (hps : ∀ p ∈ ps, p.WellFormed)
    {typeOf : Str → Str} (h : Standard ps typeOf) :
    tidyCicpEnums (bindings ps) = .ok (ps.flatMap (Piece.renamed typeOf)) ↔
      ∀ name num value, .constant name num value ∈ ps →
        .newtype num ∈ ps ∧ ¬ marker <:+: name := by
  rw [tidyCicpEnums_eq_ok_iff hps]
  constructor
  · -- the guards themselves ask for both conditions
    rintro ⟨haccepted, -⟩ name num value hmem
    obtain ⟨hattributed, hname⟩ := haccepted.constants name num value hmem
    exact ⟨haccepted.defined num hattributed, hname⟩
  · intro hconstants
    have hbelongs : ∀ {name num value}, Piece.constant name num value ∈ ps → .newtype num ∈ ps :=
      fun hmem => (hconstants _ _ _ hmem).1
    have haccepted : Accepted ps := by
      refine ⟨fun num hnum => ?_, fun ty hty => ?_, fun num hmem => h.attributed hmem,
        fun name num value hmem => ⟨h.attributed (hbelongs hmem), (hconstants _ _ _ hmem).2⟩⟩
      · obtain ⟨name, value, ty, hmem, -⟩ := hnum
        exact hbelongs hmem
      · exact mem_aliasTypes_iff.mp (h.aliases.mem_iff.mpr hty)
    -- what comes out is compared with the renaming piece by piece
    refine ⟨haccepted, List.flatMap_congr fun p hmem => ?_⟩
    refine (h.render_eq (hps p hmem) hmem fun name num value heq => ?_).symm
    exact hbelongs (heq ▸ hmem)

/-- Standard text with one constant for each newtype, and further pieces. -/
def sample (further : List Piece) : List Piece :=
  [.newtype (lit "1"), .constant (lit "AVIF_COLOR_PRIMARIES_BT709") (lit "1") (lit "1"),
    .newtype (lit "2"), .constant (lit "AVIF_TRANSFER_CHARACTERISTICS_SRGB") (lit "2") (lit "13"),
    .newtype (lit "3"), .constant (lit "AVIF_MATRIX_COEFFICIENTS_BT601") (lit "3") (lit "6"),
    .typeAlias (lit "avifColorPrimaries"), .typeAlias (lit "avifTransferCharacteristics"),
    .typeAlias (lit "avifMatrixCoefficients")] ++ further

/-- The types of the sample's three numbers. -/
def sampleType (num : Str) : Str :=
  if num = lit "1" then lit "avifColorPrimaries"
  else if num = lit "2" then lit "avifTransferCharacteristics"
  else lit "avifMatrixCoefficients"

/-- The sample is standard text, and the guards accept it. -/
theorem sample_shape : (∀ p ∈ sample [], p.WellFormed) ∧ Standard (sample []) sampleType ∧
    Accepted (sample []) := by decide +kernel

/-- The pass renames the sample. -/
theorem tidyCicpEnums_sample :
    tidyCicpEnums (bindings (sample [])) =
      .ok ((sample []).flatMap (Piece.renamed sampleType)) := by
  obtain ⟨hps, hstandard, haccepted⟩ := sample_shape
  refine (tidyCicpEnums_eq_renamed_iff hps hstandard).mpr ?_
  intro name num value hmem
  obtain ⟨hattributed, hname⟩ := haccepted.constants name num value hmem
  exact ⟨haccepted.defined num hattributed, hname⟩

/-- A constant whose name holds the text that the last check looks for. -/
def markedConstant : Piece :=
  .constant (lit "AVIF_COLOR_PRIMARIES__bindgen_ty_") (lit "1") (lit "2")

/-- A constant of an enum that is not in the text. -/
def strayConstant : Piece :=
  .constant (lit "AVIF_COLOR_PRIMARIES_STRAY") (lit "9") (lit "2")

/-- Standard text on which the pass is no renaming, since it fails: the last check finds
the name, and the number that is learned has no newtype. -/
theorem standard_not_sufficient :
    ((∀ p ∈ sample [markedConstant], p.WellFormed) ∧
      Standard (sample [markedConstant]) sampleType ∧
      ∀ out, tidyCicpEnums (bindings (sample [markedConstant])) ≠ .ok out) ∧
    ((∀ p ∈ sample [strayConstant], p.WellFormed) ∧
      Standard (sample [strayConstant]) sampleType ∧
      ∀ out, tidyCicpEnums (bindings (sample [strayConstant])) ≠ .ok out) := by
  -- both texts are standard and both are refused; this much can be decided
  have hshape : ∀ further ∈ [markedConstant, strayConstant],
      (∀ p ∈ sample [further], p.WellFormed) ∧ Standard (sample [further]) sampleType ∧
        ¬ Accepted (sample [further]) := by decide +kernel
  have hfails : ∀ further ∈ [markedConstant, strayConstant],
      (∀ p ∈ sample [further], p.WellFormed) ∧ Standard (sample [further]) sampleType ∧
        ∀ out, tidyCicpEnums (bindings (sample [further])) ≠ .ok out := by
    intro further hfurther
    obtain ⟨hps, hstandard, hrefused⟩ := hshape further hfurther
    exact ⟨hps, hstandard, fun out hout => hrefused ((tidyCicpEnums_eq_ok_iff hps out).mp hout).1⟩
  exact ⟨hfails markedConstant (by simp), hfails strayConstant (by simp)⟩

end Favi.Xtask

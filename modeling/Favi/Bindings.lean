import Favi.Xtask

/-!
# Bindings text

Bindings text is a sequence of pieces in any order: anonymous newtypes, constants,
aliases of CICP types, and other lines.  `Piece.render` writes a piece as it stands at
some point of the pass; a `View` says which numbers have been renamed so far and which
aliases are gone.

This module has the shapes of the pieces and of the patterns, cut at the characters
that occur in them once.

The pass sees none of this structure, only a flat text.  That its replacements act on the
pieces, one by one, is the work of the next three modules, and `WellFormed` is what they
need: numerals and identifiers have no punctuation in them, a CICP type is one of three,
and other lines are arbitrary but for the two things that the pass looks for.  They cannot
be arbitrary altogether.  A comment that ends with a CICP alias loses it together with the
line feed, and then the next line of the text is part of the comment.

Literals are kept folded.  `lit` is irreducible, and where a proof depends on the
characters themselves it rewrites with `lit_eq` and decides a closed statement about them,
so no term of the size of a literal is ever compared with another.
-/

namespace Favi.Xtask

open Text

/-! ## Pieces -/

/-- A piece of bindings text. -/
inductive Piece where
  | newtype (num : Str)
  | constant (name num value : Str)
  | typeAlias (ty : Str)
  | other (line : Str)
deriving DecidableEq

/-- Digits, and at least one. -/
def IsNumeral (num : Str) : Prop := num ≠ [] ∧ ∀ c ∈ num, c.isDigit = true

/-- An identifier: letters, digits and underscores, of ASCII or not. -/
def IsIdent (name : Str) : Prop :=
  name ≠ [] ∧ ∀ c ∈ name, c.isAlphanum = true ∨ c = '_' ∨ 128 ≤ c.toNat

-- the characters are checked along the text, not over all of `Char`
instance (num : Str) : Decidable (IsNumeral num) :=
  @instDecidableAnd _ _ inferInstance (List.decidableBAll _ num)

instance (name : Str) : Decidable (IsIdent name) :=
  @instDecidableAnd _ _ inferInstance (List.decidableBAll _ name)

/-- The CICP typedefs. -/
def types : List Str := cicpTypes.map Prod.snd

/-- An alias, without the end of its line. -/
def aliasLine (ty : Str) : Str := lit "pub type " ++ ty ++ lit " = u16;"

/-- The shapes of the pieces.  Other lines hold no name of bindgen's invention and no
alias of a CICP type. -/
def Piece.WellFormed : Piece → Prop
  | .newtype num => IsNumeral num
  | .constant name num value => IsIdent name ∧ IsNumeral num ∧ IsNumeral value
  | .typeAlias ty => ty ∈ types
  | .other line => '\n' ∉ line ∧ ¬ marker <:+: line ∧ ∀ ty ∈ types, ¬ aliasLine ty <:+: line

instance : (p : Piece) → Decidable p.WellFormed
  | .newtype num => inferInstanceAs (Decidable (IsNumeral num))
  | .constant name num value =>
      inferInstanceAs (Decidable (IsIdent name ∧ IsNumeral num ∧ IsNumeral value))
  | .typeAlias ty => inferInstanceAs (Decidable (ty ∈ types))
  | .other line => inferInstanceAs (Decidable ('\n' ∉ line ∧ ¬ marker <:+: line ∧
      ∀ ty ∈ types, ¬ aliasLine ty <:+: line))

/-- How far the pass has come. -/
structure View where
  newtypes : Str → Option Str
  constants : Str → Option Str
  removed : Str → Bool

namespace View

/-- Where the pass starts: nothing renamed, every alias in place. -/
def source : View := ⟨fun _ => none, fun _ => none, fun _ => false⟩

/-- Only CICP types are given out. -/
structure Typed (v : View) : Prop where
  newtypes : ∀ num ty, v.newtypes num = some ty → ty ∈ types
  constants : ∀ num ty, v.constants num = some ty → ty ∈ types

/-- What the constants of a number are declared as. -/
def constType (v : View) (num : Str) : Str := (v.constants num).getD (marker ++ num)

/-- The newtype of a number gets its name. -/
def renameNewtype (v : View) (num ty : Str) : View :=
  { v with newtypes := Function.update v.newtypes num (some ty) }

/-- The constants of a number get their type. -/
def retypeConstants (v : View) (num ty : Str) : View :=
  { v with constants := Function.update v.constants num (some ty) }

/-- The alias of a type goes. -/
def remove (v : View) (ty : Str) : View :=
  { v with removed := Function.update v.removed ty true }

end View

/-- A piece as it stands at some point of the pass. -/
def Piece.render (v : View) : Piece → Str
  | .newtype num =>
      (match v.newtypes num with
        | none => newtypeText num
        | some ty => replacementText ty) ++ ['\n']
  | .constant name num value =>
      lit "pub const " ++ name ++ (constTyText (v.constType num) ++ (value ++ lit ");\n"))
  | .typeAlias ty => if v.removed ty then [] else aliasText ty
  | .other line => line ++ ['\n']

/-- A bindings text. -/
def bindings (pieces : List Piece) : Str := pieces.flatMap (Piece.render .source)

/-! ## Characters -/

/-- The characters of a literal, for proofs that evaluate them. -/
theorem lit_eq (text : String) {chars : Str} (h : text = String.ofList chars) :
    lit text = chars := by
  unfold lit
  rw [h, String.toList_ofList]

theorem types_eq : types =
    [['a', 'v', 'i', 'f', 'C', 'o', 'l', 'o', 'r', 'P', 'r', 'i', 'm', 'a', 'r', 'i', 'e', 's'],
      ['a', 'v', 'i', 'f', 'T', 'r', 'a', 'n', 's', 'f', 'e', 'r', 'C', 'h', 'a', 'r', 'a', 'c',
        't', 'e', 'r', 'i', 's', 't', 'i', 'c', 's'],
      ['a', 'v', 'i', 'f', 'M', 'a', 't', 'r', 'i', 'x', 'C', 'o', 'e', 'f', 'f', 'i', 'c', 'i',
        'e', 'n', 't', 's']] := by
  rw [types, cicpTypes, lit_eq "avifColorPrimaries" rfl, lit_eq "avifTransferCharacteristics" rfl,
    lit_eq "avifMatrixCoefficients" rfl]
  rfl

theorem marker_eq : marker = ['_', 'b', 'i', 'n', 'd', 'g', 'e', 'n', '_', 't', 'y', '_'] :=
  lit_eq "_bindgen_ty_" rfl

/-- A character that is no digit does not occur in a numeral. -/
theorem IsNumeral.notMem {num : Str} (h : IsNumeral num) {c : Char} (hc : c.isDigit = false) :
    c ∉ num := by
  intro hmem
  rw [h.2 c hmem] at hc
  cases hc

/-- A punctuation character does not occur in an identifier. -/
theorem IsIdent.notMem {name : Str} (h : IsIdent name) {c : Char}
    (hc : c.isAlphanum = false ∧ c ≠ '_' ∧ c.toNat < 128) : c ∉ name := by
  intro hmem
  rcases h.2 c hmem with halnum | hunderscore | hwide
  · rw [halnum] at hc
    cases hc.1
  · exact hc.2.1 hunderscore
  · omega

/-- An alias is one line and its end. -/
theorem aliasText_eq (ty : Str) : aliasText ty = aliasLine ty ++ ['\n'] := by
  have hend : lit " = u16;\n" = lit " = u16;" ++ ['\n'] := by
    rw [lit_eq " = u16;" rfl]
    exact lit_eq " = u16;\n" rfl
  calc aliasText ty = lit "pub type " ++ ty ++ (lit " = u16;" ++ ['\n']) :=
        congrArg (lit "pub type " ++ ty ++ ·) hend
    _ = aliasLine ty ++ ['\n'] := (List.append_assoc _ _ _).symm

section Types

variable {ty : Str} (hty : ty ∈ types)
include hty

theorem notMem_type {c : Char} (hc : c ∈ ['_', '#', '=', ':', '(', ' ', '\n']) : c ∉ ty := by
  have hall : ∀ ty ∈ types, ty.all (· ∉ ['_', '#', '=', ':', '(', ' ', '\n']) = true := by
    rw [types_eq]
    decide
  exact fun hmem => of_decide_eq_true (List.all_eq_true.mp (hall ty hty) c hmem) hc

theorem newline_notMem_aliasLine : '\n' ∉ aliasLine ty := by
  have hall : ∀ ty ∈ types, '\n' ∉ aliasLine ty := by
    simp only [types_eq, aliasLine, lit_eq "pub type " rfl, lit_eq " = u16;" rfl]
    decide
  exact hall ty hty

theorem aliasText_notMem {c : Char} (hc : c ∈ ['_', '#', ':']) : c ∉ aliasText ty := by
  have hall : ∀ ty ∈ types, (aliasText ty).all (· ∉ ['_', '#', ':']) = true := by
    simp only [types_eq, aliasText, lit_eq "pub type " rfl, lit_eq " = u16;\n" rfl]
    decide
  exact fun hmem => of_decide_eq_true (List.all_eq_true.mp (hall ty hty) c hmem) hc

theorem replacementText_notMem {c : Char} (hc : c ∈ ['_', '=']) :
    c ∉ replacementText ty ++ ['\n'] := by
  have hall : ∀ ty ∈ types, (replacementText ty ++ ['\n']).all (· ∉ ['_', '=']) = true := by
    simp only [types_eq, replacementText, lit_eq "(pub u16);" rfl, lit_eq
      "#[derive(Debug, Clone, Hash, PartialEq, Eq, Copy, PartialOrd, Ord)]\npub struct " rfl]
    decide
  exact fun hmem => of_decide_eq_true (List.all_eq_true.mp (hall ty hty) c hmem) hc

end Types

/-! ## The shapes, cut at their separators -/

/-- The attribute line of an anonymous newtype. -/
def deriveLine : Str := lit "#[derive(Debug, Clone, Hash, PartialEq, Eq)]"

/-- The line that defines an anonymous newtype. -/
def structLine (num : Str) : Str :=
  lit "pub struct " ++ (marker ++ (num ++ '(' :: lit "pub ::core::ffi::c_uint);"))

/-- An anonymous newtype is two lines, cut at the line feed between them. -/
theorem newtypeText_eq (num : Str) :
    newtypeText num = deriveLine ++ '\n' :: structLine num := by
  have hhead : lit "#[derive(Debug, Clone, Hash, PartialEq, Eq)]\npub struct _bindgen_ty_" =
      deriveLine ++ '\n' :: (lit "pub struct " ++ marker) := by
    rw [deriveLine, lit_eq "#[derive(Debug, Clone, Hash, PartialEq, Eq)]" rfl, marker_eq,
      lit_eq "pub struct " rfl]
    exact lit_eq "#[derive(Debug, Clone, Hash, PartialEq, Eq)]\npub struct _bindgen_ty_" rfl
  have htail : lit "(pub ::core::ffi::c_uint);" = '(' :: lit "pub ::core::ffi::c_uint);" := by
    rw [lit_eq "pub ::core::ffi::c_uint);" rfl]
    exact lit_eq "(pub ::core::ffi::c_uint);" rfl
  unfold newtypeText structLine
  rw [hhead, htail]
  simp only [List.append_assoc, List.cons_append]

theorem derive_isPrefix_newtypeText (num : Str) : lit "#[derive(" <+: newtypeText num := by
  have hhead : lit "#[derive(" <+: deriveLine := by
    rw [deriveLine, lit_eq "#[derive(" rfl,
      lit_eq "#[derive(Debug, Clone, Hash, PartialEq, Eq)]" rfl]
    decide
  rw [newtypeText_eq]
  exact hhead.trans (List.prefix_append _ _)

theorem derive_isPrefix_replacementText (ty : Str) : lit "#[derive(" <+: replacementText ty := by
  have hhead : lit "#[derive(" <+:
      lit "#[derive(Debug, Clone, Hash, PartialEq, Eq, Copy, PartialOrd, Ord)]\npub struct " := by
    rw [lit_eq "#[derive(" rfl, lit_eq
      "#[derive(Debug, Clone, Hash, PartialEq, Eq, Copy, PartialOrd, Ord)]\npub struct " rfl]
    decide
  rw [replacementText, List.append_assoc]
  exact hhead.trans (List.prefix_append _ _)

theorem constTyText_eq (ty : Str) :
    constTyText ty = ':' :: ' ' :: (ty ++ ' ' :: '=' :: ' ' :: (ty ++ ['('])) := by
  rw [constTyText, lit_eq ": " rfl, lit_eq " = " rfl, lit_eq "(" rfl]
  simp only [List.append_assoc, List.cons_append, List.nil_append]

theorem aliasLine_eq (ty : Str) :
    aliasLine ty = (lit "pub type " ++ (ty ++ [' '])) ++ '=' :: lit " u16;" := by
  rw [aliasLine, lit_eq " = u16;" rfl, lit_eq " u16;" rfl]
  simp only [List.append_assoc, List.cons_append, List.nil_append]

/-- A constant, cut at its `:`. -/
theorem render_constant (v : View) (name num value : Str) :
    (Piece.constant name num value).render v = (lit "pub const " ++ name) ++
      ':' :: (' ' :: (v.constType num ++ ' ' :: '=' :: ' ' :: (v.constType num ++ '(' ::
        (value ++ lit ");\n")))) := by
  rw [Piece.render, constTyText_eq]
  simp only [List.append_assoc, List.cons_append, List.nil_append]

/-- A piece is whole lines, or nothing. -/
theorem render_eq_nil_or_line (v : View) (p : Piece) :
    p.render v = [] ∨ ∃ front, p.render v = front ++ ['\n'] := by
  cases p with
  | newtype num => exact Or.inr ⟨_, rfl⟩
  | other line => exact Or.inr ⟨line, rfl⟩
  | constant name num value =>
      have hend : lit ");\n" = lit ");" ++ ['\n'] := by
        rw [lit_eq ");" rfl]
        exact lit_eq ");\n" rfl
      refine Or.inr ⟨lit "pub const " ++ name ++ (constTyText (v.constType num) ++
        (value ++ lit ");")), ?_⟩
      rw [Piece.render, hend]
      simp only [List.append_assoc]
  | typeAlias ty =>
      by_cases hremoved : v.removed ty = true
      · exact Or.inl (if_pos hremoved)
      · refine Or.inr ⟨aliasLine ty, ?_⟩
        rw [Piece.render, if_neg hremoved, aliasText_eq]

end Favi.Xtask

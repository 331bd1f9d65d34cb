import Favi.Foundation.Table
import Favi.Foundation.Text

/-!
# Tidying the generated bindings

`xtask/src/main.rs`: bindgen gives the anonymous C enums of the CICP code points names
of its own, `_bindgen_ty_1` and so on, next to an alias for the typedef that the C
header declares for each.  `tidyCicpEnums` learns from the names of the constants which
typedef each anonymous enum belongs to, renames the enum and its constants, and removes
the alias.

Text is a list of characters; `str::replace`, `str::contains`, `str::lines` and
`str::split_once` are `Text.replace`, `<:+:`, `Text.lines` and `List.dropInfix?`;
`nums` is a table that keeps the first entry of a number.
-/

namespace Favi.Xtask

open Text

/-- Text, as its characters; positions in it are never counted in bytes. -/
abbrev Str := List Char

/-- The characters of a literal.  Proofs use facts about them, not the list itself. -/
@[irreducible] def lit (text : String) : Str := text.toList

/-- `CICP_TYPES`: for each typedef the prefix that the names of its constants have in C. -/
def cicpTypes : List (Str × Str) :=
  [(lit "AVIF_COLOR_PRIMARIES_", lit "avifColorPrimaries"),
    (lit "AVIF_TRANSFER_CHARACTERISTICS_", lit "avifTransferCharacteristics"),
    (lit "AVIF_MATRIX_COEFFICIENTS_", lit "avifMatrixCoefficients")]

/-- The names bindgen invents begin with this. -/
def marker : Str := lit "_bindgen_ty_"

/-! ## The patterns and their replacements -/

/-- `newtype`. -/
def newtypeText (num : Str) : Str :=
  lit "#[derive(Debug, Clone, Hash, PartialEq, Eq)]\npub struct _bindgen_ty_" ++ num ++
    lit "(pub ::core::ffi::c_uint);"

/-- `replacement`. -/
def replacementText (ty : Str) : Str :=
  lit "#[derive(Debug, Clone, Hash, PartialEq, Eq, Copy, PartialOrd, Ord)]\npub struct " ++
    ty ++ lit "(pub u16);"

/-- `const_ty`, for the type that bindgen named or for a typedef. -/
def constTyText (ty : Str) : Str := lit ": " ++ ty ++ lit " = " ++ ty ++ lit "("

/-- `alias`. -/
def aliasText (ty : Str) : Str := lit "pub type " ++ ty ++ lit " = u16;\n"

/-! ## The errors -/

/-- The error about a number that was learned and has no newtype. -/
def newtypeNotFound (num : Str) : Str :=
  lit "anonymous enum _bindgen_ty_" ++ num ++ lit " not found in the generated bindings"

/-- The error about a typedef without its alias. -/
def aliasNotFound (ty : Str) : Str :=
  lit "no typedef alias found for " ++ ty ++ lit " in the generated bindings"

/-- The error about names of bindgen's that are still there at the end. -/
def markerLeft : Str :=
  lit "generated bindings still contain _bindgen_ty_ identifiers; " ++
    lit "tidy_cicp_enums needs updating for the new libavif header"

/-! ## The pass -/

/-- `CICP_TYPES.iter().find(|(p, _)| name.starts_with(p))`. -/
def cicpType? (name : Str) : Option Str :=
  (cicpTypes.find? fun entry => entry.1.isPrefixOf name).map Prod.snd

/-- The body of the loop that learns. -/
def learnLine (nums : List (Str × Str)) (line : Str) : List (Str × Str) :=
  match line.dropPrefix? (lit "pub const ") with
  | none => nums
  | some rest =>
      match rest.dropInfix? (lit ": _bindgen_ty_") with
      | none => nums
      | some (name, rest) =>
          match rest.dropInfix? (lit " ") with
          | none => nums
          | some (num, _) =>
              match cicpType? name with
              | none => nums
              | some ty => Table.insertNew nums num ty

/-- `nums`. -/
def learn (bindings : Str) : List (Str × Str) :=
  (lines '\n' '\r' bindings).foldl learnLine []

/-- The body of the loop that renames a newtype and retypes its constants. -/
def retype (out : Str) (entry : Str × Str) : Except Str Str :=
  if newtypeText entry.1 <:+: out then
    let out := replace (newtypeText entry.1) (replacementText entry.2) out
    .ok (replace (constTyText (marker ++ entry.1)) (constTyText entry.2) out)
  else
    .error (newtypeNotFound entry.1)

/-- The body of the loop that removes the aliases. -/
def removeAlias (out : Str) (entry : Str × Str) : Except Str Str :=
  if aliasText entry.2 <:+: out then
    .ok (replace (aliasText entry.2) [] out)
  else
    .error (aliasNotFound entry.2)

/-- `tidy_cicp_enums`. -/
def tidyCicpEnums (bindings : Str) : Except Str Str := do
  let out ← (learn bindings).foldlM retype bindings
  let out ← cicpTypes.foldlM removeAlias out
  if marker <:+: out then .error markerLeft else .ok out

end Favi.Xtask

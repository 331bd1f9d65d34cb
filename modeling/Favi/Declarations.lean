import Favi.Typing

/-!
# What the pass does to the declarations

A text declares what its lines declare: constants of a newtype, newtypes and aliases
(`decls`).  This is what a reader of the bindings sees of the anonymous enums, and the
pass is meant to change nothing else about it.

`readDecl` reads a line, `Decl.line` writes one, and each undoes the other
(`readDecl_line`, `line_of_readDecl`).  `decls_tidied` is the pass on declarations: the
names of bindgen's invention become the typedefs that their constants attribute to them,
wherever they are declared or used, and the aliases of the CICP types go.

## Strategy

The pieces are one way of cutting up a bindings text, and the declarations are another: an
other line may declare something too, and a newtype has an attribute line that declares
nothing.  The statement about declarations needs the pieces only to say which texts it is
about.

* A piece of each kind declares what one expects (`decls_newtype_of_none` and so on), before
  the pass and after it.
* The typedef of a name can be read off the declarations alone, from the first constant of
  that type whose name has a CICP prefix, and it is what the pass learns
  (`typedef?_marker`).
* Other lines declare what they like, but nothing that the pass changes
  (`tidied_of_mem_other`): they hold no name of bindgen's and no alias of a CICP type.

With these, `decls_tidied` compares the two texts piece by piece.
-/

namespace Favi.Xtask

open Text

/-! ## Reading and writing a declaration -/

/-- A declaration, as a reader of the bindings takes it from a line. -/
inductive Decl where
  | constant (name ty value : Str)
  | newtype (name inner : Str)
  | typeAlias (name target : Str)
deriving DecidableEq

/-- The line of a declaration. -/
def Decl.line : Decl → Str
  | .constant name ty value => constantLine name ty value
  | .newtype name inner => lit "pub struct " ++ (name ++ (lit "(pub " ++ (inner ++ lit ");")))
  | .typeAlias name target => lit "pub type " ++ (name ++ (lit " = " ++ (target ++ lit ";")))

/-- A constant: its name, its type, and its value under the constructor of that type. -/
def readConstant (line : Str) : Option Decl := do
  let rest ← line.dropPrefix? (lit "pub const ")
  let (name, rest) ← rest.dropInfix? (lit ": ")
  let (ty, rest) ← rest.dropInfix? (lit " = ")
  let rest ← rest.dropPrefix? (ty ++ lit "(")
  let value ← rest.dropSuffix? (lit ");")
  return .constant name ty value

/-- A newtype with a public field. -/
def readNewtype (line : Str) : Option Decl := do
  let rest ← line.dropPrefix? (lit "pub struct ")
  let (name, rest) ← rest.dropInfix? (lit "(pub ")
  let inner ← rest.dropSuffix? (lit ");")
  return .newtype name inner

/-- An alias. -/
def readAlias (line : Str) : Option Decl := do
  let rest ← line.dropPrefix? (lit "pub type ")
  let (name, rest) ← rest.dropInfix? (lit " = ")
  let target ← rest.dropSuffix? (lit ";")
  return .typeAlias name target

/-- What a line declares, if it declares anything. -/
def readDecl (line : Str) : Option Decl :=
  ((readConstant line).or (readNewtype line)).or (readAlias line)

/-- What a text declares. -/
def decls (text : Str) : List Decl := (lines '\n' '\r' text).filterMap readDecl

/-- The names of a declaration end where its line says they do. -/
def Decl.Plain : Decl → Prop
  | .constant name ty _ => ':' ∉ name ∧ ' ' ∉ ty
  | .newtype name _ => '(' ∉ name
  | .typeAlias name _ => ' ' ∉ name

/-- A line that is read says what was read from it. -/
theorem line_of_readDecl {line : Str} {d : Decl} (h : readDecl line = some d) : d.line = line := by
  simp only [readDecl, Option.or_eq_some_iff] at h
  rcases h with (h | ⟨-, h⟩) | ⟨-, h⟩
  · simp only [readConstant, Option.bind_eq_bind, Option.bind_eq_some_iff, Option.pure_def,
      Option.some.injEq, Prod.exists] at h
    obtain ⟨rest, hrest, name, typed, hname, ty, made, hty, inner, hinner, value, hvalue, rfl⟩ := h
    rw [Decl.line, prefix_of_dropPrefix? hrest, eq_of_dropInfix? hname, eq_of_dropInfix? hty,
      prefix_of_dropPrefix? hinner, eq_of_dropSuffix? hvalue, constantLine]
    simp only [List.append_assoc]
  · simp only [readNewtype, Option.bind_eq_bind, Option.bind_eq_some_iff, Option.pure_def,
      Option.some.injEq, Prod.exists] at h
    obtain ⟨rest, hrest, name, made, hname, inner, hinner, rfl⟩ := h
    rw [Decl.line, prefix_of_dropPrefix? hrest, eq_of_dropInfix? hname, eq_of_dropSuffix? hinner]
  · simp only [readAlias, Option.bind_eq_bind, Option.bind_eq_some_iff, Option.pure_def,
      Option.some.injEq, Prod.exists] at h
    obtain ⟨rest, hrest, name, made, hname, target, htarget, rfl⟩ := h
    rw [Decl.line, prefix_of_dropPrefix? hrest, eq_of_dropInfix? hname, eq_of_dropSuffix? htarget]

theorem readConstant_line {name ty value : Str} (hname : ':' ∉ name) (hty : ' ' ∉ ty) :
    readConstant (constantLine name ty value) = some (.constant name ty value) := by
  have hcolon : ∀ rest,
      (name ++ ':' :: (' ' :: rest)).dropInfix? (lit ": ") = some (name, rest) := by
    intro rest
    rw [lit_eq ": " rfl]
    exact dropInfix?_of_head_notMem hname [' '] rest
  have hequals : ∀ rest,
      (ty ++ ' ' :: '=' :: ' ' :: rest).dropInfix? (lit " = ") = some (ty, rest) := by
    intro rest
    rw [lit_eq " = " rfl]
    exact dropInfix?_of_head_notMem hty ['=', ' '] rest
  have hopen : ∀ rest, (ty ++ '(' :: rest).dropPrefix? (ty ++ lit "(") = some rest := by
    intro rest
    rw [lit_eq "(" rfl, ← dropPrefix?_append (ty ++ ['(']) rest]
    simp only [List.append_assoc, List.singleton_append]
  rw [constantLine_eq, readConstant, dropPrefix?_append]
  simp only [Option.bind_eq_bind, Option.bind_some, hcolon, hequals, hopen, dropSuffix?_append,
    Option.pure_def]

theorem readNewtype_line {name : Str} (hname : '(' ∉ name) (inner : Str) :
    readNewtype (Decl.newtype name inner).line = some (.newtype name inner) := by
  have hopen : (name ++ (lit "(pub " ++ (inner ++ lit ");"))).dropInfix? (lit "(pub ") =
      some (name, inner ++ lit ");") := by
    rw [lit_eq "(pub " rfl]
    exact dropInfix?_of_head_notMem hname ['p', 'u', 'b', ' '] _
  rw [Decl.line, readNewtype, dropPrefix?_append]
  simp only [Option.bind_eq_bind, Option.bind_some, hopen, dropSuffix?_append, Option.pure_def]

theorem readAlias_line {name : Str} (hname : ' ' ∉ name) (target : Str) :
    readAlias (Decl.typeAlias name target).line = some (.typeAlias name target) := by
  have hequals : (name ++ (lit " = " ++ (target ++ lit ";"))).dropInfix? (lit " = ") =
      some (name, target ++ lit ";") := by
    rw [lit_eq " = " rfl]
    exact dropInfix?_of_head_notMem hname ['=', ' '] _
  rw [Decl.line, readAlias, dropPrefix?_append]
  simp only [Option.bind_eq_bind, Option.bind_some, hequals, dropSuffix?_append, Option.pure_def]

/-- A text that begins differently does not have the prefix. -/
theorem dropPrefix?_eq_none {pattern front rest : Str} (h : ¬ pattern <+: front)
    (h' : ¬ front <+: pattern) : (front ++ rest).dropPrefix? pattern = none := by
  by_contra hsome
  obtain ⟨after, hafter⟩ := Option.ne_none_iff_exists'.mp hsome
  have hstarts : pattern ++ [] <+: front ++ rest := by
    rw [List.append_nil, prefix_of_dropPrefix? hafter]
    exact List.prefix_append _ _
  exact not_prefix_append h h' [] rest hstarts

/-- What a declaration writes is read back from its line. -/
theorem readDecl_line {d : Decl} (h : d.Plain) : readDecl d.line = some d := by
  have hkeywords :
      ¬ lit "pub const " <+: lit "pub struct " ∧ ¬ lit "pub struct " <+: lit "pub const " ∧
      ¬ lit "pub const " <+: lit "pub type " ∧ ¬ lit "pub type " <+: lit "pub const " ∧
      ¬ lit "pub struct " <+: lit "pub type " ∧ ¬ lit "pub type " <+: lit "pub struct " := by
    rw [lit_eq "pub const " rfl, lit_eq "pub struct " rfl, lit_eq "pub type " rfl]
    decide
  obtain ⟨hcs, hsc, hct, htc, hst, hts⟩ := hkeywords
  cases d with
  | constant name ty value =>
      rw [readDecl, Decl.line, readConstant_line h.1 h.2, Option.some_or, Option.some_or]
  | newtype name inner =>
      have hconstant : readConstant (Decl.newtype name inner).line = none := by
        rw [readConstant, Decl.line, dropPrefix?_eq_none hcs hsc]
        rfl
      rw [readDecl, hconstant, readNewtype_line h, Option.none_or, Option.some_or]
  | typeAlias name target =>
      have hconstant : readConstant (Decl.typeAlias name target).line = none := by
        rw [readConstant, Decl.line, dropPrefix?_eq_none hct htc]
        rfl
      have hnewtype : readNewtype (Decl.typeAlias name target).line = none := by
        rw [readNewtype, Decl.line, dropPrefix?_eq_none hst hts]
        rfl
      rw [readDecl, hconstant, hnewtype, readAlias_line h, Option.none_or, Option.none_or]

/-! ## The pass on declarations -/

/-- What a declaration says about a name of bindgen's invention. -/
def Decl.attribution : Decl → Option (Str × Str)
  | .constant name ty _ =>
      if marker <+: ty then (cicpType? name).map fun typedef => (ty, typedef) else none
  | .newtype .. | .typeAlias .. => none

/-- The typedef of a name: that of the first constant that attributes one to it. -/
def typedef? (ds : List Decl) (name : Str) : Option Str :=
  (ds.filterMap Decl.attribution).lookup name

/-- A declaration after the pass: its type or its name replaced by the typedef it stands for, a
renamed newtype over `u16`, and no alias of a CICP type left. -/
def Decl.tidied (ds : List Decl) : Decl → Option Decl
  | .constant name ty value => some (.constant name ((typedef? ds ty).getD ty) value)
  | .newtype name inner =>
      some ((typedef? ds name).elim (.newtype name inner) fun ty => .newtype ty (lit "u16"))
  | .typeAlias name target =>
      if types.contains name ∧ target = lit "u16" then none else some (.typeAlias name target)

/-- The declarations of a text are those of its pieces, since pieces are whole lines. -/
theorem decls_flatMap (v : View) (ps : List Piece) :
    decls (ps.flatMap (Piece.render v)) = ps.flatMap fun p => decls (p.render v) := by
  rw [decls, lines_flatMap (render_eq_nil_or_line v), List.filterMap_flatMap]
  rfl

theorem structLine_eq (num : Str) :
    structLine num = (Decl.newtype (marker ++ num) (lit "::core::ffi::c_uint")).line := by
  have hinner : '(' :: lit "pub ::core::ffi::c_uint);" =
      lit "(pub " ++ (lit "::core::ffi::c_uint" ++ lit ");") := by
    rw [lit_eq "(pub " rfl, lit_eq "::core::ffi::c_uint" rfl, lit_eq ");" rfl,
      lit_eq "pub ::core::ffi::c_uint);" rfl]
    rfl
  rw [structLine, hinner, Decl.line, List.append_assoc]

theorem aliasLine_eq_line (ty : Str) : aliasLine ty = (Decl.typeAlias ty (lit "u16")).line := by
  have htail : lit " = u16;" = lit " = " ++ (lit "u16" ++ lit ";") := by
    rw [lit_eq " = " rfl, lit_eq "u16" rfl, lit_eq ";" rfl]
    exact lit_eq " = u16;" rfl
  rw [aliasLine, htail, Decl.line, List.append_assoc]

/-- The derives of a tidied newtype. -/
def tidiedDeriveLine : Str :=
  lit "#[derive(Debug, Clone, Hash, PartialEq, Eq, Copy, PartialOrd, Ord)]"

theorem replacementText_eq (ty : Str) :
    replacementText ty = tidiedDeriveLine ++ '\n' :: definition ty := by
  have hhead : lit
      "#[derive(Debug, Clone, Hash, PartialEq, Eq, Copy, PartialOrd, Ord)]\npub struct " =
        tidiedDeriveLine ++ '\n' :: lit "pub struct " := by
    rw [tidiedDeriveLine, lit_eq "pub struct " rfl,
      lit_eq "#[derive(Debug, Clone, Hash, PartialEq, Eq, Copy, PartialOrd, Ord)]" rfl]
    exact lit_eq
      "#[derive(Debug, Clone, Hash, PartialEq, Eq, Copy, PartialOrd, Ord)]\npub struct " rfl
  rw [replacementText, hhead, definition]
  simp only [List.append_assoc, List.cons_append]

theorem definition_eq_line (ty : Str) : definition ty = (Decl.newtype ty (lit "u16")).line := by
  have htail : lit "(pub u16);" = lit "(pub " ++ (lit "u16" ++ lit ");") := by
    rw [lit_eq "(pub " rfl, lit_eq "u16" rfl, lit_eq ");" rfl]
    exact lit_eq "(pub u16);" rfl
  rw [definition, htail, Decl.line, List.append_assoc]

/-! ## The declarations of a piece -/

/-- The line of a declaration ends with a semicolon, so `str::lines` takes nothing off it. -/
theorem cr_not_suffix_line (d : Decl) : ¬ ['\r'] <:+ d.line := by
  have hlit : lit ");" = lit ")" ++ [';'] ∧ lit ";" = [] ++ [';'] := by
    rw [lit_eq ")" rfl, lit_eq ";" rfl]
    exact ⟨lit_eq ");" rfl, rfl⟩
  have hend : ∃ front, d.line = front ++ [';'] := by
    cases d with
    | constant name ty value =>
        exact ⟨_, by rw [Decl.line, constantLine, hlit.1, ← List.append_assoc]⟩
    | newtype name inner =>
        exact ⟨_, by rw [Decl.line, hlit.1]; simp only [← List.append_assoc]; rfl⟩
    | typeAlias name target =>
        exact ⟨_, by rw [Decl.line, hlit.2]; simp only [← List.append_assoc]; rfl⟩
  obtain ⟨front, hfront⟩ := hend
  rintro ⟨before, hbefore⟩
  rw [hfront] at hbefore
  exact absurd (List.append_inj' hbefore rfl).2 (by decide)

theorem decls_line {line : Str} (hline : '\n' ∉ line) (rest : Str) :
    decls (line ++ '\n' :: rest) =
      (readDecl (chomp '\n' '\r' (line ++ ['\n']))).toList ++ decls rest := by
  rw [decls, lines_line hline, List.filterMap_cons]
  cases readDecl (chomp '\n' '\r' (line ++ ['\n'])) with
  | none => rfl
  | some d => rfl

/-- The line of a declaration declares it. -/
theorem decls_declLine {d : Decl} (hline : '\n' ∉ d.line) (hplain : d.Plain) (rest : Str) :
    decls (d.line ++ '\n' :: rest) = d :: decls rest := by
  rw [decls_line hline, chomp_line (cr_not_suffix_line d), readDecl_line hplain]
  rfl

/-- An attribute line declares nothing. -/
theorem decls_attributes {line : Str} (hline : line = deriveLine ∨ line = tidiedDeriveLine)
    (rest : Str) : decls (line ++ '\n' :: rest) = decls rest := by
  have hattributes : ∀ line ∈ [deriveLine, tidiedDeriveLine],
      '\n' ∉ line ∧ ¬ ['\r'] <:+ line ∧ readDecl line = none := by
    simp only [deriveLine, tidiedDeriveLine, readDecl, readConstant, readNewtype, readAlias,
      lit_eq "pub const " rfl, lit_eq "pub struct " rfl, lit_eq "pub type " rfl,
      lit_eq "#[derive(Debug, Clone, Hash, PartialEq, Eq)]" rfl,
      lit_eq "#[derive(Debug, Clone, Hash, PartialEq, Eq, Copy, PartialOrd, Ord)]" rfl]
    decide
  obtain ⟨hnewline, hcr, hread⟩ := hattributes line (by simpa using hline)
  rw [decls_line hnewline, chomp_line hcr, hread]
  rfl

theorem plain_type {ty : Str} (hty : ty ∈ types) : '(' ∉ ty ∧ ' ' ∉ ty :=
  ⟨notMem_type hty (by simp), notMem_type hty (by simp)⟩

section Pieces

variable {v : View} {num : Str}

theorem decls_newtype_of_none (hnum : IsNumeral num) (h : v.newtypes num = none) :
    decls ((Piece.newtype num).render v) =
      [.newtype (marker ++ num) (lit "::core::ffi::c_uint")] := by
  have hparen : '(' ∉ marker ++ num := by
    have hmarker : '(' ∉ marker := by
      rw [marker_eq]
      decide
    rw [List.mem_append, not_or]
    exact ⟨hmarker, hnum.notMem (by decide)⟩
  have hnewline := newline_notMem_structLine hnum
  simp only [Piece.render, h, newtypeText_eq, List.append_assoc, List.cons_append]
  rw [decls_attributes (Or.inl rfl)]
  rw [structLine_eq] at hnewline ⊢
  exact decls_declLine hnewline hparen []

theorem decls_newtype_of_some {ty : Str} (hty : ty ∈ types) (h : v.newtypes num = some ty) :
    decls ((Piece.newtype num).render v) = [.newtype ty (lit "u16")] := by
  have hnewline := newline_notMem_definition hty
  simp only [Piece.render, h, replacementText_eq, List.append_assoc, List.cons_append]
  rw [decls_attributes (Or.inr rfl)]
  rw [definition_eq_line] at hnewline ⊢
  exact decls_declLine hnewline (plain_type hty).1 []

theorem decls_constant (hv : v.Typed) {name value : Str}
    (hp : (Piece.constant name num value).WellFormed) :
    decls ((Piece.constant name num value).render v) =
      [.constant name (v.constType num) value] := by
  have hplain : (Decl.constant name (v.constType num) value).Plain :=
    ⟨hp.1.notMem (by decide), notMem_constType hv hp.2.1 (by simp)⟩
  rw [decls, lines_render_constant hv hp, List.filterMap_cons, List.filterMap_nil]
  have hread := readDecl_line hplain
  rw [Decl.line] at hread
  rw [hread]

theorem decls_alias {ty : Str} (hty : ty ∈ types) (h : v.removed ty = false) :
    decls ((Piece.typeAlias ty).render v) = [.typeAlias ty (lit "u16")] := by
  have hnewline := newline_notMem_aliasLine hty
  have hkept : (Piece.typeAlias ty).render v = aliasLine ty ++ ['\n'] := by
    rw [Piece.render, h, aliasText_eq]
    exact if_neg Bool.false_ne_true
  rw [hkept]
  rw [aliasLine_eq_line] at hnewline ⊢
  exact decls_declLine hnewline (plain_type hty).2 []

/-- What other lines declare, they declare in their own words. -/
theorem line_isPrefix_of_mem_other {line : Str} (hline : '\n' ∉ line) {d : Decl}
    (h : d ∈ decls ((Piece.other line).render v)) : d.line <+: line := by
  rw [Piece.render, decls_line hline] at h
  rcases List.mem_append.mp h with h | h
  · rw [line_of_readDecl (Option.mem_toList.mp h)]
    exact chomp_line_isPrefix _ _ _
  · cases h

end Pieces

/-! ## The typedefs -/

theorem ty_infix_line (name ty value : Str) : ty <:+: (Decl.constant name ty value).line := by
  rw [Decl.line, constantLine_eq]
  exact ⟨lit "pub const " ++ (name ++ [':', ' ']),
    ' ' :: '=' :: ' ' :: (ty ++ '(' :: (value ++ lit ");")), by simp⟩

theorem attribution_of_not_infix {d : Decl} (h : ¬ marker <:+: d.line) : d.attribution = none := by
  cases d with
  | newtype | typeAlias => rfl
  | constant name ty value =>
      exact if_neg fun hstarts => h (hstarts.isInfix.trans (ty_infix_line name ty value))

/-- A name that bindgen did not invent has no typedef. -/
theorem typedef?_of_not_prefix (ds : List Decl) {name : Str} (h : ¬ marker <+: name) :
    typedef? ds name = none := by
  refine Table.lookup_eq_none_of_notMem fun hmem => h ?_
  obtain ⟨entry, hentry, rfl⟩ := List.mem_map.mp hmem
  obtain ⟨d, -, hd⟩ := List.mem_filterMap.mp hentry
  cases d with
  | newtype | typeAlias => cases hd
  | constant name ty value =>
      rw [Decl.attribution, Option.ite_none_right_eq_some] at hd
      obtain ⟨hstarts, hd⟩ := hd
      obtain ⟨typedef, -, rfl⟩ := Option.map_eq_some_iff.mp hd
      exact hstarts

theorem typed_source : View.source.Typed := ⟨nofun, nofun⟩

/-- A piece attributes what its declarations do, under the whole name of the newtype. -/
theorem attribution_piece {p : Piece} (hp : p.WellFormed) :
    (decls (p.render .source)).filterMap Decl.attribution =
      (p.attribution.map fun entry => (marker ++ entry.1, entry.2)).toList := by
  cases p with
  | newtype num => rw [decls_newtype_of_none hp rfl]; rfl
  | typeAlias ty => rw [decls_alias hp rfl]; rfl
  | constant name num value =>
      have hstarts : marker <+: View.source.constType num := List.prefix_append marker num
      rw [decls_constant typed_source hp, List.filterMap_cons, List.filterMap_nil, Decl.attribution,
        if_pos hstarts, Piece.attribution, Option.map_map]
      cases cicpType? name with
      | none => rfl
      | some ty => rfl
  | other line =>
      rw [Piece.attribution, Option.map_none, Option.toList_none, List.filterMap_eq_nil_iff]
      intro d hd
      refine attribution_of_not_infix fun hmarker => hp.2.1 (hmarker.trans ?_)
      exact (line_isPrefix_of_mem_other hp.1 hd).isInfix

/-- Other lines declare nothing that the pass changes. -/
theorem tidied_of_mem_other {line : Str} (hp : (Piece.other line).WellFormed) {v : View} {d : Decl}
    (hd : d ∈ decls ((Piece.other line).render v)) (ds : List Decl) : d.tidied ds = some d := by
  have hline := (line_isPrefix_of_mem_other hp.1 hd).isInfix
  have hunnamed : ∀ {name : Str}, name <:+: d.line → typedef? ds name = none :=
    fun hname => typedef?_of_not_prefix ds fun hstarts =>
      hp.2.1 ((hstarts.isInfix.trans hname).trans hline)
  cases d with
  | constant name ty value =>
      rw [Decl.tidied, hunnamed (ty_infix_line name ty value)]
      rfl
  | newtype name inner =>
      have hname : name <:+: (Decl.newtype name inner).line :=
        ⟨lit "pub struct ", lit "(pub " ++ (inner ++ lit ");"), by simp [Decl.line]⟩
      rw [Decl.tidied, hunnamed hname]
      rfl
  | typeAlias name target =>
      refine if_neg ?_
      rintro ⟨hname, rfl⟩
      rw [← aliasLine_eq_line] at hline
      exact hp.2.2 name (List.contains_iff_mem.mp hname) hline

section Typedefs

variable {ps : List Piece} (hps : ∀ p ∈ ps, p.WellFormed)
include hps

/-- The declarations of the text attribute to a number what the pass learns of it. -/
theorem typedef?_marker (num : Str) :
    typedef? (decls (bindings ps)) (marker ++ num) = learnedType ps num := by
  have hentries : (decls (bindings ps)).filterMap Decl.attribution =
      (ps.filterMap Piece.attribution).map fun entry => (marker ++ entry.1, entry.2) := by
    rw [bindings, decls_flatMap, List.filterMap_flatMap]
    clear num
    induction ps with
    | nil => rfl
    | cons p rest ih =>
        rw [List.flatMap_cons, attribution_piece (hps p (List.mem_cons_self ..)),
          ih fun q hq => hps q (List.mem_cons_of_mem _ hq), List.filterMap_cons]
        cases p.attribution with
        | none => rfl
        | some entry => rfl
  rw [typedef?, hentries,
    Table.lookup_map_key (List.append_right_injective marker) (ps.filterMap Piece.attribution) num,
    learnedType]

theorem typedef?_constType (num : Str) :
    (typedef? (decls (bindings ps)) (View.source.constType num)).getD (View.source.constType num) =
      (tidied ps).constType num := by
  have hsource : View.source.constType num = marker ++ num := rfl
  rw [hsource, typedef?_marker hps]
  rfl

/-- The pass on the declarations of a piece. -/
theorem decls_render_tidied {p : Piece} (hp : p.WellFormed) :
    decls (p.render (tidied ps)) =
      (decls (p.render .source)).filterMap (Decl.tidied (decls (bindings ps))) := by
  cases p with
  | newtype num =>
      rw [decls_newtype_of_none (v := .source) hp rfl, List.filterMap_cons, List.filterMap_nil,
        Decl.tidied, typedef?_marker hps]
      cases hty : learnedType ps num with
      | none => exact decls_newtype_of_none hp hty
      | some ty => exact decls_newtype_of_some ((typed_tidied ps).newtypes num ty hty) hty
  | constant name num value =>
      rw [decls_constant (typed_tidied ps) hp, decls_constant typed_source hp, List.filterMap_cons,
        List.filterMap_nil, Decl.tidied, typedef?_constType hps]
  | typeAlias ty =>
      have hty : ty ∈ types := hp
      have hgone : (Piece.typeAlias ty).render (tidied ps) = [] := if_pos (decide_eq_true hty)
      rw [hgone, decls_alias hty rfl, List.filterMap_cons, List.filterMap_nil, Decl.tidied,
        if_pos ⟨List.contains_iff_mem.mpr hty, rfl⟩]
      rfl
  | other line =>
      have hkeeps := fun d hd =>
        tidied_of_mem_other (v := .source) (d := d) hp hd (decls (bindings ps))
      rw [List.filterMap_congr hkeeps, List.filterMap_some]
      rfl

/-- The pass on the declarations of a text. -/
theorem decls_tidied :
    decls (ps.flatMap (Piece.render (tidied ps))) =
      (decls (bindings ps)).filterMap (Decl.tidied (decls (bindings ps))) := by
  let pass := Decl.tidied (decls (bindings ps))
  calc decls (ps.flatMap (Piece.render (tidied ps)))
      = ps.flatMap fun p => decls (p.render (tidied ps)) := decls_flatMap _ ps
    _ = ps.flatMap fun p => (decls (p.render .source)).filterMap pass :=
        List.flatMap_congr fun p hmem => decls_render_tidied hps (hps p hmem)
    _ = (ps.flatMap fun p => decls (p.render .source)).filterMap pass :=
        List.filterMap_flatMap.symm
    _ = (decls (bindings ps)).filterMap pass :=
        congrArg (List.filterMap pass) (decls_flatMap .source ps).symm

/-- On well-formed pieces the pass is a renaming of declarations: what comes out declares what
went in, under the typedefs of the anonymous names, less the aliases of the CICP types. -/
theorem decls_tidyCicpEnums {out : Str} (h : tidyCicpEnums (bindings ps) = .ok out) :
    decls out = (decls (bindings ps)).filterMap (Decl.tidied (decls (bindings ps))) := by
  obtain ⟨-, rfl⟩ := (tidyCicpEnums_eq_ok_iff hps out).mp h
  exact decls_tidied hps

/-- A constant of an anonymous newtype comes from a piece, whose newtype is there as well. -/
theorem exists_constant_of_mem_decls {name ty value : Str} (hstarts : marker <+: ty)
    (h : Decl.constant name ty value ∈ decls (bindings ps)) :
    ∃ num, Piece.constant name num value ∈ ps := by
  rw [bindings, decls_flatMap] at h
  obtain ⟨p, hmem, hd⟩ := List.mem_flatMap.mp h
  have hp := hps p hmem
  cases p with
  | newtype num =>
      rw [decls_newtype_of_none hp rfl] at hd
      simp at hd
  | typeAlias ty =>
      rw [decls_alias hp rfl] at hd
      simp at hd
  | constant name' num value' =>
      rw [decls_constant typed_source hp, List.mem_singleton] at hd
      cases hd
      exact ⟨num, hmem⟩
  | other line =>
      have hline := (line_isPrefix_of_mem_other hp.1 hd).isInfix
      exact absurd ((hstarts.isInfix.trans (ty_infix_line name ty value)).trans hline) hp.2.1

/-- No alias of a CICP type is declared after the pass. -/
theorem not_mem_decls_of_alias {ty : Str} (hty : ty ∈ types) :
    Decl.typeAlias ty (lit "u16") ∉ decls (ps.flatMap (Piece.render (tidied ps))) := by
  rw [decls_tidied hps]
  intro hmem
  obtain ⟨d, -, hd⟩ := List.mem_filterMap.mp hmem
  cases d with
  | constant name ty' value => cases hd
  | newtype name inner =>
      rw [Decl.tidied] at hd
      cases htypedef : typedef? (decls (bindings ps)) name with
      | none => simp [htypedef] at hd
      | some ty' => simp [htypedef] at hd
  | typeAlias name target =>
      rw [Decl.tidied, Option.ite_none_left_eq_some] at hd
      obtain ⟨hkept, heq⟩ := hd
      cases heq
      exact hkept ⟨List.contains_iff_mem.mpr hty, rfl⟩

/-- Every constant of an anonymous newtype gets a CICP type, and its type is declared: as
a newtype, and no longer as an alias. -/
theorem constant_resolves {out : Str} (h : tidyCicpEnums (bindings ps) = .ok out)
    {name ty value : Str} (hmem : Decl.constant name ty value ∈ decls (bindings ps))
    (hstarts : marker <+: ty) :
    ∃ typedef ∈ types, Decl.constant name typedef value ∈ decls out ∧
      Decl.newtype typedef (lit "u16") ∈ decls out ∧
      Decl.typeAlias typedef (lit "u16") ∉ decls out := by
  obtain ⟨haccepted, rfl⟩ := (tidyCicpEnums_eq_ok_iff hps out).mp h
  obtain ⟨num, hconstant⟩ := exists_constant_of_mem_decls hps hstarts hmem
  obtain ⟨hattributed, -⟩ := haccepted.constants name num value hconstant
  have hnewtype := haccepted.defined num hattributed
  obtain ⟨typedef, htypedef⟩ := attributed_iff.mp hattributed
  have hrenamed : (tidied ps).newtypes num = some typedef := htypedef
  have htypes := (typed_tidied ps).newtypes num typedef hrenamed
  have htype : (tidied ps).constType num = typedef := by simp [View.constType, tidied, htypedef]
  refine ⟨typedef, htypes, ?_, ?_, not_mem_decls_of_alias hps htypes⟩
  · rw [decls_flatMap]
    refine List.mem_flatMap.mpr ⟨_, hconstant, ?_⟩
    rw [decls_constant (typed_tidied ps) (hps _ hconstant), htype]
    exact List.mem_singleton_self _
  · rw [decls_flatMap]
    refine List.mem_flatMap.mpr ⟨_, hnewtype, ?_⟩
    rw [decls_newtype_of_some htypes hrenamed]
    exact List.mem_singleton_self _

end Typedefs

/-- What the sample declares after the pass. -/
def sampleDecls : List Decl :=
  [.newtype (lit "avifColorPrimaries") (lit "u16"),
    .constant (lit "AVIF_COLOR_PRIMARIES_BT709") (lit "avifColorPrimaries") (lit "1"),
    .newtype (lit "avifTransferCharacteristics") (lit "u16"),
    .constant (lit "AVIF_TRANSFER_CHARACTERISTICS_SRGB") (lit "avifTransferCharacteristics")
      (lit "13"),
    .newtype (lit "avifMatrixCoefficients") (lit "u16"),
    .constant (lit "AVIF_MATRIX_COEFFICIENTS_BT601") (lit "avifMatrixCoefficients") (lit "6")]

theorem decls_tidyCicpEnums_sample :
    ∃ out, tidyCicpEnums (bindings (sample [])) = .ok out ∧ decls out = sampleDecls := by
  have hdecls : (decls (bindings (sample []))).filterMap
      (Decl.tidied (decls (bindings (sample [])))) = sampleDecls := by decide +kernel
  obtain ⟨hps, -, haccepted⟩ := sample_shape
  have htidy := (tidyCicpEnums_eq_ok_iff hps _).mpr ⟨haccepted, rfl⟩
  exact ⟨_, htidy, (decls_tidyCicpEnums hps htidy).trans hdecls⟩

theorem constant_resolves_sample :
    ∃ out, tidyCicpEnums (bindings (sample [])) = .ok out ∧ ∃ typedef ∈ types,
      Decl.constant (lit "AVIF_MATRIX_COEFFICIENTS_BT601") typedef (lit "6") ∈ decls out ∧
        Decl.newtype typedef (lit "u16") ∈ decls out ∧
        Decl.typeAlias typedef (lit "u16") ∉ decls out := by
  have hmem : Decl.constant (lit "AVIF_MATRIX_COEFFICIENTS_BT601") (marker ++ lit "3") (lit "6") ∈
      decls (bindings (sample [])) := by decide +kernel
  obtain ⟨hps, -, haccepted⟩ := sample_shape
  have htidy := (tidyCicpEnums_eq_ok_iff hps _).mpr ⟨haccepted, rfl⟩
  exact ⟨_, htidy, constant_resolves hps htidy hmem (List.prefix_append _ _)⟩

end Favi.Xtask

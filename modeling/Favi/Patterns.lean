import Favi.Bindings

/-!
# Where the patterns of the pass occur

Every pattern occurs in the pieces it is meant for and in no others: an anonymous
newtype in its own definition, a constant type in the constants of its number, an alias
in its own line, and `_bindgen_ty_` where something has not been renamed.  None of them
occurs across two pieces.  So each replacement on the flat text is a change of the view
(`replace_newtypeText`, `replace_constTyText`, `replace_aliasText`).

## Strategy

A pattern is kept out of a piece by a character.  A newtype has a `#`, a constant type a
`:` and an alias a `=`, and most pieces have no such character, or one only: then the
pattern and the piece are cut there and their halves have to fit, which a numeral that is
not the same one, or a type, does not.  The shapes cut at these characters are in
`Favi.Bindings`, and the lemmas about cutting are in `Favi.Foundation.Text`.

The pieces are taken as they stand at any point of the pass, with any types given out, as
long as these are CICP types (`View.Typed`); so a pattern that is looked for late is not
found in what an earlier turn has put there.
-/

namespace Favi.Xtask

open Text

/-! ## Newtypes and names of bindgen's invention -/

theorem newline_notMem_deriveLine : '\n' ∉ deriveLine := by
  rw [deriveLine, lit_eq "#[derive(Debug, Clone, Hash, PartialEq, Eq)]" rfl]
  decide

theorem hash_mem_deriveLine : '#' ∈ deriveLine := by
  rw [deriveLine, lit_eq "#[derive(Debug, Clone, Hash, PartialEq, Eq)]" rfl]
  decide

theorem underscore_mem_marker : '_' ∈ marker := by
  rw [marker_eq]
  decide

theorem newline_notMem_marker : '\n' ∉ marker := by
  rw [marker_eq]
  decide

theorem marker_ne_nil : marker ≠ [] := List.ne_nil_of_mem underscore_mem_marker

theorem newline_notMem_structLine {num : Str} (hnum : IsNumeral num) : '\n' ∉ structLine num := by
  have hlit : '\n' ∉ lit "pub struct " ∧ '\n' ∉ marker ∧
      '\n' ∉ '(' :: lit "pub ::core::ffi::c_uint);" := by
    rw [lit_eq "pub struct " rfl, marker_eq, lit_eq "pub ::core::ffi::c_uint);" rfl]
    decide
  simp only [structLine, List.mem_append, not_or]
  exact ⟨hlit.1, hlit.2.1, hnum.notMem (by decide), hlit.2.2⟩

theorem marker_infix_newtypeText (num : Str) : marker <:+: newtypeText num := by
  rw [newtypeText_eq, structLine]
  exact ⟨deriveLine ++ '\n' :: lit "pub struct ",
    num ++ '(' :: lit "pub ::core::ffi::c_uint);", by simp⟩

theorem marker_infix_constTyText (num : Str) : marker <:+: constTyText (marker ++ num) := by
  rw [constTyText_eq]
  exact ⟨[':', ' '], num ++ ' ' :: '=' :: ' ' :: (marker ++ num ++ ['(']), by simp⟩

/-- Different numbers have different newtypes. -/
theorem eq_of_newtypeText_isInfix {num num' : Str} (hnum : IsNumeral num) (hnum' : IsNumeral num')
    (h : newtypeText num <:+: newtypeText num' ++ ['\n']) : num = num' := by
  rw [newtypeText_eq, newtypeText_eq] at h
  have hderive := newline_notMem_deriveLine
  have hparen : ∀ {n : Str}, IsNumeral n → '(' ∉ n := fun hn => hn.notMem (by decide)
  -- the match does not use the end of the second line
  have hinside :
      deriveLine ++ '\n' :: structLine num <:+: deriveLine ++ '\n' :: structLine num' := by
    have hstraddles : ¬ Straddles (deriveLine ++ '\n' :: structLine num)
        (deriveLine ++ '\n' :: structLine num') ['\n'] := by
      rintro ⟨left, right, -, hright, hpattern, -, hstarts⟩
      obtain ⟨x, rest, rfl⟩ := List.exists_cons_of_ne_nil hright
      obtain ⟨rfl, hrest⟩ := List.cons_prefix_cons.mp hstarts
      rw [List.prefix_nil.mp hrest] at hpattern
      have hnil :=
        (List.append_cons_inj_of_notMem hderive (newline_notMem_structLine hnum)).mp hpattern
      exact absurd (congrArg List.length hnil.2.2) (by simp [structLine])
    rcases (infix_append_iff_or hstraddles).mp h with h | h
    · exact h
    · have hhash : '#' ∈ deriveLine ++ '\n' :: structLine num :=
        List.mem_append_left _ hash_mem_deriveLine
      exact absurd (h.subset hhash) (by decide)
  obtain ⟨-, hstarts⟩ := parts_of_isInfix hderive (newline_notMem_structLine hnum') hinside
  rw [structLine, structLine, List.prefix_append_right_inj, List.prefix_append_right_inj] at hstarts
  exact eq_of_prefix_line (hparen hnum) (hparen hnum') hstarts

/-! ## Characters that a piece lacks -/

theorem colon_notMem_name {name : Str} (hname : IsIdent name) : ':' ∉ lit "pub const " ++ name := by
  have hlit : ':' ∉ lit "pub const " := by
    rw [lit_eq "pub const " rfl]
    decide
  rw [List.mem_append, not_or]
  exact ⟨hlit, hname.notMem (by decide)⟩

theorem notMem_render_newtype {v : View} {num ty : Str} (hty : ty ∈ types)
    (hrenamed : v.newtypes num = some ty) {c : Char} (hc : c ∈ ['_', '=']) :
    c ∉ (Piece.newtype num).render v := by
  simp only [Piece.render, hrenamed]
  exact replacementText_notMem hty hc

theorem equals_notMem_render_newtype {v : View} (hv : v.Typed) {num : Str} (hnum : IsNumeral num) :
    '=' ∉ (Piece.newtype num).render v := by
  cases hrenamed : v.newtypes num with
  | some ty => exact notMem_render_newtype (hv.newtypes num ty hrenamed) hrenamed (by simp)
  | none =>
      have hlit :
          '=' ∉ lit "#[derive(Debug, Clone, Hash, PartialEq, Eq)]\npub struct _bindgen_ty_" ∧
            '=' ∉ lit "(pub ::core::ffi::c_uint);" ∧ '=' ∉ ['\n'] := by
        rw [lit_eq "#[derive(Debug, Clone, Hash, PartialEq, Eq)]\npub struct _bindgen_ty_" rfl,
          lit_eq "(pub ::core::ffi::c_uint);" rfl]
        decide
      have hnum' : '=' ∉ num := hnum.notMem (by decide)
      simp only [Piece.render, hrenamed, newtypeText, List.mem_append, not_or]
      exact ⟨⟨⟨hlit.1, hnum'⟩, hlit.2.1⟩, hlit.2.2⟩

theorem notMem_render_typeAlias (v : View) {ty : Str} (hty : ty ∈ types) {c : Char}
    (hc : c ∈ ['_', '#', ':']) : c ∉ (Piece.typeAlias ty).render v := by
  by_cases hremoved : v.removed ty = true
  · simp [Piece.render, hremoved]
  · rw [Piece.render, if_neg hremoved]
    exact aliasText_notMem hty hc

/-- A pattern on one line occurs in a line with its end when it occurs in the line. -/
theorem infix_line_iff {pattern line : Str} (hne : pattern ≠ []) (hnewline : '\n' ∉ pattern) :
    pattern <:+: line ++ ['\n'] ↔ pattern <:+: line := by
  rw [infix_append_cons_iff hnewline hne]
  exact or_iff_left fun h => hne (List.eq_nil_of_infix_nil h)

/-- A pattern with a name of bindgen's invention does not occur in other lines. -/
theorem not_infix_render_other {v : View} {pattern line : Str} (hline : ¬ marker <:+: line)
    (hpattern : marker <:+: pattern) : ¬ pattern <:+: (Piece.other line).render v := by
  intro h
  exact hline ((infix_line_iff marker_ne_nil newline_notMem_marker).mp (hpattern.trans h))

/-! ## Where each pattern occurs -/

section Occurrences

variable {v : View} (hv : v.Typed)
include hv

theorem constType_cases (num : Str) :
    (v.constants num = none ∧ v.constType num = marker ++ num) ∨
      ∃ ty ∈ types, v.constants num = some ty ∧ v.constType num = ty := by
  unfold View.constType
  cases htype : v.constants num with
  | none => exact Or.inl ⟨rfl, rfl⟩
  | some ty => exact Or.inr ⟨ty, hv.constants num ty htype, rfl, rfl⟩

theorem notMem_constType {num : Str} (hnum : IsNumeral num) {c : Char}
    (hc : c ∈ ['#', '=', ':', '(', ' ', '\n']) : c ∉ v.constType num := by
  rcases constType_cases hv num with ⟨-, heq⟩ | ⟨ty, hty, -, heq⟩
  · have hmarker : ['#', '=', ':', '(', ' ', '\n'].all
        (fun c => c ∉ marker ∧ c.isDigit = false) = true := by
      rw [marker_eq]
      decide
    obtain ⟨hmem, hdigit⟩ := of_decide_eq_true (List.all_eq_true.mp hmarker c hc)
    rw [heq, List.mem_append, not_or]
    exact ⟨hmem, hnum.notMem hdigit⟩
  · rw [heq]
    exact notMem_type hty (List.mem_cons_of_mem _ hc)

theorem notMem_rest {num value : Str} (hnum : IsNumeral num) (hvalue : IsNumeral value) {c : Char}
    (hc : c ∈ ['#', ':']) :
    c ∉ ' ' :: (v.constType num ++ ' ' :: '=' :: ' ' :: (v.constType num ++ '(' ::
      (value ++ lit ");\n"))) := by
  have hlit : ['#', ':'].all (fun c => c ∉ lit ");\n" ∧ c ≠ ' ' ∧ c ≠ '=' ∧ c ≠ '(' ∧
      c.isDigit = false ∧ c ∈ ['#', '=', ':', '(', ' ', '\n']) = true := by
    rw [lit_eq ");\n" rfl]
    decide
  obtain ⟨hend, hspace, hequals, hopen, hdigit, hmem⟩ :=
    of_decide_eq_true (List.all_eq_true.mp hlit c hc)
  have htype := notMem_constType hv hnum hmem
  have hval : c ∉ value := hvalue.notMem hdigit
  simp [hend, hspace, hequals, hopen, htype, hval]

theorem equals_notMem_constant {name num value : Str} (hname : IsIdent name) (hnum : IsNumeral num)
    (hvalue : IsNumeral value) :
    '=' ∉ lit "pub const " ++ (name ++ ':' :: ' ' :: (v.constType num ++ [' '])) ∧
      '=' ∉ ' ' :: (v.constType num ++ '(' :: (value ++ lit ");\n")) := by
  have hlit : '=' ∉ lit "pub const " ∧ '=' ∉ lit ");\n" := by
    rw [lit_eq "pub const " rfl, lit_eq ");\n" rfl]
    decide
  have htype := notMem_constType hv hnum (by simp : '=' ∈ ['#', '=', ':', '(', ' ', '\n'])
  have hnames : '=' ∉ name ∧ '=' ∉ value :=
    ⟨hname.notMem (by decide), hvalue.notMem (by decide)⟩
  simp [hlit, htype, hnames]

theorem not_u16_prefix_constType {num : Str} : ¬ lit "u16;" <+: v.constType num := by
  rcases constType_cases hv num with ⟨-, heq⟩ | ⟨ty, hty, -, heq⟩
  · have hmarker : ¬ lit "u16;" <+: marker ∧ ¬ marker <+: lit "u16;" := by
      rw [marker_eq, lit_eq "u16;" rfl]
      decide
    rw [heq, ← List.append_nil (lit "u16;")]
    exact not_prefix_append hmarker.1 hmarker.2 _ _
  · have hall : ∀ ty ∈ types, ¬ lit "u16;" <+: ty := by
      rw [types_eq, lit_eq "u16;" rfl]
      decide
    rw [heq]
    exact hall ty hty

theorem newtypeText_infix_iff {p : Piece} (hp : p.WellFormed) {num : Str} (hnum : IsNumeral num) :
    newtypeText num <:+: p.render v ↔ p = .newtype num ∧ v.newtypes num = none := by
  have hhash : '#' ∈ newtypeText num := by
    rw [newtypeText_eq]
    exact List.mem_append_left _ hash_mem_deriveLine
  have hunderscore : '_' ∈ newtypeText num :=
    (marker_infix_newtypeText num).subset underscore_mem_marker
  cases p with
  | newtype num' =>
      cases hrenamed : v.newtypes num' with
      | none =>
          simp only [Piece.render, hrenamed, Piece.newtype.injEq]
          constructor
          · intro h
            have heq := eq_of_newtypeText_isInfix hnum hp h
            exact ⟨heq.symm, heq ▸ hrenamed⟩
          · rintro ⟨rfl, -⟩
            exact (List.prefix_append _ _).isInfix
      | some ty =>
          simp only [Piece.render, hrenamed, Piece.newtype.injEq]
          refine iff_of_false (not_infix_of_notMem hunderscore ?_) ?_
          · exact replacementText_notMem (hv.newtypes num' ty hrenamed) (by simp)
          · rintro ⟨rfl, hnone⟩
            rw [hnone] at hrenamed
            cases hrenamed
  | constant name num' value =>
      refine iff_of_false (not_infix_of_notMem hhash ?_) (by simp)
      have hlit : '#' ∉ lit "pub const " := by
        rw [lit_eq "pub const " rfl]
        decide
      rw [render_constant, List.mem_append, List.mem_append, List.mem_cons, not_or, not_or, not_or]
      exact ⟨⟨hlit, hp.1.notMem (by decide)⟩, by decide,
        notMem_rest hv hp.2.1 hp.2.2 (by simp)⟩
  | typeAlias ty =>
      exact iff_of_false
        (not_infix_of_notMem hhash (notMem_render_typeAlias v hp (by simp))) (by simp)
  | other line =>
      exact iff_of_false
        (not_infix_render_other hp.2.1 (marker_infix_newtypeText num)) (by simp)

theorem constTyText_infix_iff {p : Piece} (hp : p.WellFormed) {num : Str} (hnum : IsNumeral num) :
    constTyText (marker ++ num) <:+: p.render v ↔
      (∃ name value, p = .constant name num value) ∧ v.constants num = none := by
  have hequals : '=' ∈ constTyText (marker ++ num) := by simp [constTyText_eq]
  have hcolon : ':' ∈ constTyText (marker ++ num) := by simp [constTyText_eq]
  cases p with
  | newtype num' =>
      exact iff_of_false
        (not_infix_of_notMem hequals (equals_notMem_render_newtype hv hp)) (by simp)
  | typeAlias ty =>
      exact iff_of_false
        (not_infix_of_notMem hcolon (notMem_render_typeAlias v hp (by simp))) (by simp)
  | other line =>
      exact iff_of_false
        (not_infix_render_other hp.2.1 (marker_infix_constTyText num)) (by simp)
  | constant name num' value =>
      obtain ⟨hname, hnum', hvalue⟩ := hp
      constructor
      · intro h
        -- the one `:` of the pattern meets the one `:` of the constant
        rw [render_constant, constTyText_eq] at h
        have hafter := after_of_isInfix (colon_notMem_name hname)
          (notMem_rest hv hnum' hvalue (by simp)) h
        have htype := (List.cons_prefix_cons.mp hafter).2
        rcases constType_cases hv num' with ⟨hnone, heq⟩ | ⟨ty, hty, -, heq⟩
        · simp only [heq, List.append_assoc, List.prefix_append_right_inj] at htype
          have hspace : ∀ {n : Str}, IsNumeral n → ' ' ∉ n := fun hn => hn.notMem (by decide)
          obtain rfl := eq_of_prefix_line (hspace hnum) (hspace hnum') htype
          exact ⟨⟨name, value, rfl⟩, hnone⟩
        · rw [heq, List.append_assoc] at htype
          have hspace : ' ' ∉ marker := by
            rw [marker_eq]
            decide
          have hmarker := prefix_of_prefix_line hspace ((List.prefix_append marker _).trans htype)
          have hunderscore : '_' ∈ ty := hmarker.subset underscore_mem_marker
          exact absurd hunderscore (notMem_type hty (by simp))
      · rintro ⟨⟨_, _, heq⟩, hnone⟩
        cases heq
        rw [Piece.render, View.constType, hnone]
        exact ⟨lit "pub const " ++ name, value ++ lit ");\n", by simp⟩

theorem aliasLine_infix_iff {p : Piece} (hp : p.WellFormed) {ty : Str} (hty : ty ∈ types) :
    aliasLine ty <:+: p.render v ↔ p = .typeAlias ty ∧ v.removed ty = false := by
  have hequals : '=' ∈ aliasLine ty := by simp [aliasLine_eq]
  cases p with
  | newtype num =>
      exact iff_of_false
        (not_infix_of_notMem hequals (equals_notMem_render_newtype hv hp)) (by simp)
  | other line =>
      refine iff_of_false (fun h => hp.2.2 ty hty ?_) (by simp)
      exact (infix_line_iff (List.ne_nil_of_mem hequals) (newline_notMem_aliasLine hty)).mp h
  | constant name num value =>
      refine iff_of_false (fun h => ?_) (by simp)
      -- the one `=` of the alias meets the one `=` of the constant
      obtain ⟨hname, hnum, hvalue⟩ := hp
      have hrender : (Piece.constant name num value).render v =
          (lit "pub const " ++ (name ++ ':' :: ' ' :: (v.constType num ++ [' ']))) ++
            '=' :: ' ' :: (v.constType num ++ '(' :: (value ++ lit ");\n")) := by
        rw [render_constant]
        simp only [List.append_assoc, List.cons_append, List.nil_append]
      obtain ⟨hfirst, hsecond⟩ := equals_notMem_constant hv hname hnum hvalue
      rw [hrender, aliasLine_eq] at h
      have hafter := (parts_of_isInfix hfirst hsecond h).2
      have htail : lit " u16;" = ' ' :: lit "u16;" := by
        rw [lit_eq "u16;" rfl]
        exact lit_eq " u16;" rfl
      have hparen : '(' ∉ lit "u16;" := by
        rw [lit_eq "u16;" rfl]
        decide
      rw [htail] at hafter
      have htype := prefix_of_prefix_line hparen (List.cons_prefix_cons.mp hafter).2
      exact not_u16_prefix_constType hv htype
  | typeAlias ty' =>
      cases hremoved : v.removed ty' with
      | true =>
          have hgone : (Piece.typeAlias ty').render v = [] := if_pos hremoved
          rw [hgone]
          refine iff_of_false (fun h => ?_) ?_
          · exact absurd (h.subset hequals) List.not_mem_nil
          · rintro ⟨heq, hkept⟩
            cases heq
            rw [hremoved] at hkept
            cases hkept
      | false =>
          have hkept : (Piece.typeAlias ty').render v = aliasText ty' := by
            rw [Piece.render, hremoved]
            exact if_neg Bool.false_ne_true
          have hall : ∀ ty ∈ types, ∀ ty' ∈ types, aliasLine ty <:+: aliasText ty' → ty = ty' := by
            simp only [types_eq, aliasLine, aliasText, lit_eq "pub type " rfl, lit_eq " = u16;" rfl,
              lit_eq " = u16;\n" rfl]
            decide
          rw [hkept]
          constructor
          · intro h
            obtain rfl := hall ty hty ty' hp h
            exact ⟨rfl, hremoved⟩
          · rintro ⟨heq, -⟩
            cases heq
            rw [aliasText_eq]
            exact (List.prefix_append _ _).isInfix

theorem aliasText_infix_iff {p : Piece} (hp : p.WellFormed) {ty : Str} (hty : ty ∈ types) :
    aliasText ty <:+: p.render v ↔ p = .typeAlias ty ∧ v.removed ty = false := by
  constructor
  · intro h
    refine (aliasLine_infix_iff hv hp hty).mp (List.IsInfix.trans ?_ h)
    rw [aliasText_eq]
    exact (List.prefix_append _ _).isInfix
  · rintro ⟨rfl, hremoved⟩
    simp [Piece.render, hremoved]

/-- What bindgen invented is left in a newtype that has not been renamed, in a constant
that has not been retyped, and in the name of a constant that holds it from the start. -/
def Piece.HasMarker (v : View) : Piece → Prop
  | .newtype num => v.newtypes num = none
  | .constant name num _ => v.constants num = none ∨ marker <:+: name
  | .typeAlias _ | .other _ => False

theorem marker_infix_iff {p : Piece} (hp : p.WellFormed) :
    marker <:+: p.render v ↔ p.HasMarker v := by
  have hunderscore := underscore_mem_marker
  cases p with
  | typeAlias ty =>
      exact iff_of_false
        (not_infix_of_notMem hunderscore (notMem_render_typeAlias v hp (by simp))) id
  | other line => exact iff_of_false (not_infix_render_other hp.2.1 List.infix_rfl) id
  | newtype num =>
      simp only [Piece.HasMarker]
      cases hrenamed : v.newtypes num with
      | none =>
          refine iff_of_true ((marker_infix_newtypeText num).trans ?_) rfl
          simp only [Piece.render, hrenamed]
          exact (List.prefix_append _ _).isInfix
      | some ty =>
          refine iff_of_false (not_infix_of_notMem hunderscore ?_) (by simp)
          exact notMem_render_newtype (hv.newtypes num ty hrenamed) hrenamed (by simp)
  | constant name num value =>
      obtain ⟨hname, hnum, hvalue⟩ := hp
      have hne := marker_ne_nil
      simp only [Piece.HasMarker]
      rcases constType_cases hv num with ⟨hnone, heq⟩ | ⟨ty, hty, hsome, heq⟩
      · refine iff_of_true ?_ (Or.inl hnone)
        rw [Piece.render, heq]
        refine (marker_infix_constTyText num).trans ?_
        exact ⟨lit "pub const " ++ name, value ++ lit ");\n", by simp⟩
      · -- what is not the name has no `_`
        have hrest :
            '_' ∉ ' ' :: (ty ++ ' ' :: '=' :: ' ' :: (ty ++ '(' :: (value ++ lit ");\n"))) := by
          have hlit : '_' ∉ lit ");\n" := by
            rw [lit_eq ");\n" rfl]
            decide
          have htype : '_' ∉ ty := notMem_type hty (by simp)
          have hval : '_' ∉ value := hvalue.notMem (by decide)
          simp [hlit, htype, hval]
        have hconst : '_' ∉ lit "pub const" := by
          rw [lit_eq "pub const" rfl]
          decide
        have hlit : lit "pub const " = lit "pub const" ++ [' '] := by
          rw [lit_eq "pub const" rfl]
          exact lit_eq "pub const " rfl
        have hseps : ':' ∉ marker ∧ ' ' ∉ marker := by
          rw [marker_eq]
          decide
        rw [render_constant, heq, infix_append_cons_iff hseps.1 hne, hlit,
          List.append_assoc, List.singleton_append, infix_append_cons_iff hseps.2 hne,
          or_iff_left (not_infix_of_notMem hunderscore hrest),
          or_iff_right (not_infix_of_notMem hunderscore hconst), hsome]
        simp

end Occurrences

end Favi.Xtask

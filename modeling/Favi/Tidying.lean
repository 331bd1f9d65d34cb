import Favi.Foundation.Program
import Favi.Learning

/-!
# The pass on bindings text

On a bindings text the two loops of `tidyCicpEnums` are loops on views: each turn of
the first renames a newtype and retypes its constants, each turn of the second removes
an alias.  A number is learned once, so no turn disturbs an earlier one, whatever the
order in which the numbers were learned.

`tidyCicpEnums_eq_ok_iff` says what comes out.  `Accepted` lists, in terms of the
pieces, what the three guards ask for; where it holds the output is the text as
`tidied` shows it, and where it fails there is none.

## Strategy

* **One turn.**  `retype_eq_ok_iff` and `removeAlias_eq_ok_iff` follow one turn of each
  loop from the text of a view to the text of the next one.  The guard of the turn finds
  its pattern exactly when the piece is there, since no other piece renders to it and no
  match lies across two pieces.
* **All turns.**  `Pending` and `Kept` say that the turns still to come are about other
  numbers and other types than those before, which is what a turn needs of the view it
  starts from.  With them as the invariant, `Program.foldlM_eq_ok_iff` makes a loop with
  guards out of the turns.
* **The last check.**  What is left of bindgen's names is in a newtype or a constant that
  nothing was learned about, or in the name of a constant (`marker_infix_tidied_iff`).
-/

namespace Favi.Xtask

open Text

/-! ## What is learned, and what the guards ask for -/

/-- The type of the first constant of a number that has a CICP prefix. -/
def learnedType (ps : List Piece) (num : Str) : Option Str :=
  (ps.filterMap Piece.attribution).lookup num

/-- A number with a constant whose name has a CICP prefix. -/
def Attributed (ps : List Piece) (num : Str) : Prop :=
  ∃ name value ty, Piece.constant name num value ∈ ps ∧ HasPrefix name ty

/-- The end of the pass: every number has the type that was learned for it, and the aliases of
the CICP types are gone. -/
def tidied (ps : List Piece) : View where
  newtypes := learnedType ps
  constants := learnedType ps
  removed ty := decide (ty ∈ types)

/-- What the guards of the pass ask for. -/
structure Accepted (ps : List Piece) : Prop where
  defined : ∀ num, Attributed ps num → .newtype num ∈ ps
  aliased : ∀ ty ∈ types, .typeAlias ty ∈ ps
  newtypes : ∀ num, .newtype num ∈ ps → Attributed ps num
  constants : ∀ name num value, .constant name num value ∈ ps →
    Attributed ps num ∧ ¬ marker <:+: name

/-- An attribution comes from a constant with a CICP prefix. -/
theorem mem_attributions_iff {ps : List Piece} {num ty : Str} :
    (num, ty) ∈ ps.filterMap Piece.attribution ↔
      ∃ name value, Piece.constant name num value ∈ ps ∧ HasPrefix name ty := by
  rw [List.mem_filterMap]
  constructor
  · rintro ⟨p, hmem, hp⟩
    cases p with
    | constant name num' value =>
        obtain ⟨ty', hty, heq⟩ := Option.map_eq_some_iff.mp hp
        cases heq
        exact ⟨name, value, hmem, cicpType?_eq_some_iff.mp hty⟩
    | newtype | typeAlias | other => cases hp
  · rintro ⟨name, value, hmem, hstarts⟩
    refine ⟨_, hmem, ?_⟩
    rw [Piece.attribution, cicpType?_eq_some_iff.mpr hstarts, Option.map_some]

theorem exists_constant_of_learnedType {ps : List Piece} {num ty : Str}
    (h : learnedType ps num = some ty) :
    ∃ name value, Piece.constant name num value ∈ ps ∧ HasPrefix name ty := by
  obtain ⟨before, after, hsplit, -⟩ := List.lookup_eq_some_iff.mp h
  refine mem_attributions_iff.mp ?_
  rw [hsplit]
  exact List.mem_append_right _ (List.mem_cons_self ..)

/-- A number is attributed when something is learned of it. -/
theorem attributed_iff {ps : List Piece} {num : Str} :
    Attributed ps num ↔ ∃ ty, learnedType ps num = some ty := by
  constructor
  · rintro ⟨name, value, ty, hmem, hstarts⟩
    refine Option.isSome_iff_exists.mp (List.lookup_isSome_iff.mpr ⟨(num, ty), ?_, ?_⟩)
    · exact mem_attributions_iff.mpr ⟨name, value, hmem, hstarts⟩
    · exact beq_self_eq_true num
  · rintro ⟨ty, hty⟩
    obtain ⟨name, value, hmem, hstarts⟩ := exists_constant_of_learnedType hty
    exact ⟨name, value, ty, hmem, hstarts⟩

instance (ps : List Piece) (num : Str) : Decidable (Attributed ps num) :=
  decidable_of_iff _ (Option.isSome_iff_exists.trans attributed_iff.symm)

/-- What the last guard asks of a piece. -/
def Piece.Cleared (ps : List Piece) : Piece → Prop
  | .newtype num => Attributed ps num
  | .constant name num _ => Attributed ps num ∧ ¬ marker <:+: name
  | .typeAlias _ | .other _ => True

instance (ps : List Piece) : (p : Piece) → Decidable (p.Cleared ps)
  | .newtype num => inferInstanceAs (Decidable (Attributed ps num))
  | .constant name num _ => inferInstanceAs (Decidable (Attributed ps num ∧ ¬ marker <:+: name))
  | .typeAlias _ | .other _ => inferInstanceAs (Decidable True)

/-- The guards, piece by piece; in this form they can be decided. -/
theorem accepted_iff {ps : List Piece} :
    Accepted ps ↔ (∀ entry ∈ ps.filterMap Piece.attribution, .newtype entry.1 ∈ ps) ∧
      (∀ ty ∈ types, .typeAlias ty ∈ ps) ∧ ∀ p ∈ ps, p.Cleared ps := by
  constructor
  · intro h
    refine ⟨fun entry hmem => ?_, h.aliased, fun p hmem => ?_⟩
    · obtain ⟨name, value, hconstant, hstarts⟩ := mem_attributions_iff.mp hmem
      exact h.defined entry.1 ⟨name, value, entry.2, hconstant, hstarts⟩
    · cases p with
      | newtype num => exact h.newtypes num hmem
      | constant name num value => exact h.constants name num value hmem
      | typeAlias | other => trivial
  · rintro ⟨hdefined, haliased, hcleared⟩
    refine ⟨?_, haliased, fun num hmem => hcleared _ hmem, fun _ _ _ hmem => hcleared _ hmem⟩
    rintro num ⟨name, value, ty, hconstant, hstarts⟩
    exact hdefined (num, ty) (mem_attributions_iff.mpr ⟨name, value, hconstant, hstarts⟩)

instance (ps : List Piece) : Decidable (Accepted ps) := decidable_of_iff' _ accepted_iff

theorem typed_tidied (ps : List Piece) : (tidied ps).Typed := by
  have htypes : ∀ num ty, learnedType ps num = some ty → ty ∈ types := by
    intro num ty hty
    obtain ⟨name, value, -, hstarts⟩ := exists_constant_of_learnedType hty
    exact hstarts.mem_types
  exact ⟨htypes, htypes⟩

/-! ## The loops on views -/

namespace View

/-- A turn of the first loop, on views. -/
def retype (v : View) (entry : Str × Str) : View :=
  (v.renameNewtype entry.1 entry.2).retypeConstants entry.1 entry.2

/-- A turn of the second loop, on views. -/
def removeAlias (v : View) (entry : Str × Str) : View := v.remove entry.2

theorem Typed.retype {v : View} (hv : v.Typed) (num : Str) {ty : Str} (hty : ty ∈ types) :
    (v.retype (num, ty)).Typed := by
  have hupdate : ∀ f : Str → Option Str, (∀ n t, f n = some t → t ∈ types) →
      ∀ n t, Function.update f num (some ty) n = some t → t ∈ types := by
    intro f hf n t h
    by_cases hn : n = num
    · obtain rfl := hn
      rw [Function.update_self] at h
      cases h
      exact hty
    · rw [Function.update_of_ne hn] at h
      exact hf n t h
  exact ⟨hupdate v.newtypes hv.newtypes, hupdate v.constants hv.constants⟩

theorem newtypes_foldl_retype (entries : List (Str × Str)) (v : View) :
    (entries.foldl retype v).newtypes = entries.foldl
      (fun (f : Str → Option Str) entry => Function.update f entry.1 (some entry.2)) v.newtypes :=
  (List.foldl_hom View.newtypes fun _ _ => rfl).symm

theorem constants_foldl_retype (entries : List (Str × Str)) (v : View) :
    (entries.foldl retype v).constants = entries.foldl
      (fun (f : Str → Option Str) entry => Function.update f entry.1 (some entry.2)) v.constants :=
  (List.foldl_hom View.constants fun _ _ => rfl).symm

theorem removed_foldl_retype (entries : List (Str × Str)) (v : View) :
    (entries.foldl retype v).removed = v.removed := by
  induction entries generalizing v with
  | nil => rfl
  | cons entry rest ih => exact ih (v.retype entry)

theorem foldl_removeAlias (entries : List (Str × Str)) (v : View) :
    entries.foldl removeAlias v =
      { v with removed := fun ty => v.removed ty || decide (ty ∈ entries.map Prod.snd) } := by
  induction entries generalizing v with
  | nil => simp
  | cons entry rest ih =>
      rw [List.foldl_cons, ih]
      refine congrArg (View.mk v.newtypes v.constants) (funext fun ty => ?_)
      simp only [List.map_cons, List.mem_cons, removeAlias, remove]
      by_cases hty : ty = entry.2
      · simp [hty]
      · simp only [hty, false_or, Function.update_of_ne hty]

end View

section Tidy

variable {ps : List Piece} (hps : ∀ p ∈ ps, p.WellFormed)
include hps

theorem mem_learn_iff {num ty : Str} :
    (num, ty) ∈ learn (bindings ps) ↔ learnedType ps num = some ty := by
  rw [Table.mem_iff_lookup (nodup_learn hps), lookup_learn hps, learnedType]

/-- The two loops, in whatever order the numbers were learned, end at the tidied view. -/
theorem foldl_views :
    cicpTypes.foldl View.removeAlias ((learn (bindings ps)).foldl View.retype .source) =
      tidied ps := by
  have hlearned : ∀ num, (learn (bindings ps)).foldl
      (fun (f : Str → Option Str) entry => Function.update f entry.1 (some entry.2))
      (fun _ => none) num = learnedType ps num := by
    intro num
    rw [Table.foldl_update (nodup_learn hps), lookup_learn hps, Option.or_none, learnedType]
  rw [View.foldl_removeAlias, View.newtypes_foldl_retype, View.constants_foldl_retype,
    View.removed_foldl_retype]
  simp only [View.source, funext hlearned, Bool.false_or, tidied]
  rfl

/-- The numbers whose turn is still to come: they are distinct, and nothing of theirs has been
renamed yet. -/
structure Pending (v : View) (entries : List (Str × Str)) : Prop where
  typed : v.Typed
  nodup : (entries.map Prod.fst).Nodup
  wellFormed : ∀ entry ∈ entries, IsNumeral entry.1 ∧ entry.2 ∈ types
  fresh : ∀ entry ∈ entries, v.newtypes entry.1 = none ∧ v.constants entry.1 = none

omit hps in
theorem Pending.next {v : View} {entry : Str × Str} {rest : List (Str × Str)}
    (h : Pending v (entry :: rest)) : Pending (v.retype entry) rest := by
  obtain ⟨hnew, hrest⟩ := List.nodup_cons.mp h.nodup
  refine ⟨h.typed.retype entry.1 (h.wellFormed entry (List.mem_cons_self ..)).2, hrest,
    fun other hother => h.wellFormed other (List.mem_cons_of_mem _ hother),
    fun other hother => ?_⟩
  have hne : other.1 ≠ entry.1 := fun heq => hnew (heq ▸ List.mem_map_of_mem hother)
  simp only [View.retype, View.renameNewtype, View.retypeConstants, Function.update_of_ne hne]
  exact h.fresh other (List.mem_cons_of_mem _ hother)

theorem pending_learn : Pending .source (learn (bindings ps)) := by
  refine ⟨⟨nofun, nofun⟩, nodup_learn hps, fun entry hmem => ?_, fun _ _ => ⟨rfl, rfl⟩⟩
  obtain ⟨name, value, hconstant, hstarts⟩ :=
    exists_constant_of_learnedType ((mem_learn_iff hps).mp hmem)
  exact ⟨(hps _ hconstant).2.1, hstarts.mem_types⟩

/-- The aliases whose turn is still to come.  The types are distinct, so they are there. -/
structure Kept (v : View) (entries : List (Str × Str)) : Prop where
  typed : v.Typed
  nodup : (entries.map Prod.snd).Nodup
  kept : ∀ ty ∈ entries.map Prod.snd, ty ∈ types ∧ v.removed ty = false

omit hps in
theorem Kept.next {v : View} {entry : Str × Str} {rest : List (Str × Str)}
    (h : Kept v (entry :: rest)) : Kept (v.removeAlias entry) rest := by
  obtain ⟨hnew, hrest⟩ := List.nodup_cons.mp h.nodup
  refine ⟨⟨h.typed.newtypes, h.typed.constants⟩, hrest, fun ty hty => ?_⟩
  obtain ⟨hmem, hremoved⟩ := h.kept ty (List.mem_cons_of_mem _ hty)
  have hne : ty ≠ entry.2 := fun heq => hnew (heq ▸ hty)
  exact ⟨hmem, (Function.update_of_ne hne ..).trans hremoved⟩

/-- A turn of the first loop: it fails when the newtype is not there. -/
theorem retype_eq_ok_iff {v : View} {entry : Str × Str} {rest : List (Str × Str)}
    (h : Pending v (entry :: rest)) (out : Str) :
    retype (ps.flatMap (Piece.render v)) entry = .ok out ↔
      .newtype entry.1 ∈ ps ∧ out = ps.flatMap (Piece.render (v.retype entry)) := by
  obtain ⟨num, ty⟩ := entry
  obtain ⟨hnum, hty⟩ := h.wellFormed _ (List.mem_cons_self ..)
  obtain ⟨hnewtype, hconstant⟩ := h.fresh _ (List.mem_cons_self ..)
  have hrenamed : (v.renameNewtype num ty).Typed :=
    ⟨(h.typed.retype num hty).newtypes, h.typed.constants⟩
  have hne : newtypeText num ≠ [] := List.ne_nil_of_mem
    ((marker_infix_newtypeText num).subset underscore_mem_marker)
  -- the guard of the turn finds the newtype itself: nothing else renders to this text
  have hfound : newtypeText num <:+: ps.flatMap (Piece.render v) ↔ .newtype num ∈ ps := by
    rw [infix_flatMap_iff hne (separates_newtypeText hps hnum)]
    constructor
    · rintro ⟨p, hmem, hoccurs⟩
      exact ((newtypeText_infix_iff h.typed (hps p hmem) hnum).mp hoccurs).1 ▸ hmem
    · exact fun hmem =>
        ⟨_, hmem, (newtypeText_infix_iff h.typed (hps _ hmem) hnum).mpr ⟨rfl, hnewtype⟩⟩
  unfold retype
  simp only [hfound]
  by_cases hmem : Piece.newtype num ∈ ps
  · rw [if_pos hmem, replace_newtypeText hps h.typed hnum hnewtype,
      replace_constTyText hps hrenamed hnum hconstant, Except.ok.injEq, and_iff_right hmem, eq_comm]
    rfl
  · rw [if_neg hmem]
    exact iff_of_false nofun fun h => hmem h.1

/-- A turn of the second loop: it fails when the alias is not there. -/
theorem removeAlias_eq_ok_iff {v : View} {entry : Str × Str} {rest : List (Str × Str)}
    (h : Kept v (entry :: rest)) (out : Str) :
    removeAlias (ps.flatMap (Piece.render v)) entry = .ok out ↔
      .typeAlias entry.2 ∈ ps ∧ out = ps.flatMap (Piece.render (v.removeAlias entry)) := by
  obtain ⟨hty, hkept⟩ := h.kept entry.2 (List.mem_cons_self ..)
  have hv := h.typed
  have hfound : aliasText entry.2 <:+: ps.flatMap (Piece.render v) ↔ .typeAlias entry.2 ∈ ps := by
    rw [infix_flatMap_iff (by simp [aliasText_eq]) (separates_aliasText hty v ps)]
    constructor
    · rintro ⟨p, hmem, hoccurs⟩
      exact ((aliasText_infix_iff hv (hps p hmem) hty).mp hoccurs).1 ▸ hmem
    · exact fun hmem => ⟨_, hmem, (aliasText_infix_iff hv (hps _ hmem) hty).mpr ⟨rfl, hkept⟩⟩
  unfold removeAlias
  simp only [hfound]
  by_cases hmem : Piece.typeAlias entry.2 ∈ ps
  · rw [if_pos hmem, replace_aliasText hps hv hty, Except.ok.injEq, and_iff_right hmem, eq_comm]
    rfl
  · rw [if_neg hmem]
    exact iff_of_false nofun fun h => hmem h.1

/-- The first loop. -/
theorem foldlM_retype_eq_ok_iff (out : Str) :
    (learn (bindings ps)).foldlM retype (bindings ps) = .ok out ↔
      (∀ num, Attributed ps num → .newtype num ∈ ps) ∧
        out = ps.flatMap (Piece.render ((learn (bindings ps)).foldl View.retype .source)) := by
  -- the numbers that are learned are those with an attributed constant
  have hguards : (∀ entry ∈ learn (bindings ps), Piece.newtype entry.1 ∈ ps) ↔
      ∀ num, Attributed ps num → .newtype num ∈ ps := by
    constructor
    · intro hall num hnum
      obtain ⟨ty, hty⟩ := attributed_iff.mp hnum
      exact hall (num, ty) ((mem_learn_iff hps).mpr hty)
    · intro hall entry hmem
      exact hall entry.1 (attributed_iff.mpr ⟨entry.2, (mem_learn_iff hps).mp hmem⟩)
  rw [← hguards]
  exact Program.foldlM_eq_ok_iff retype (fun v => ps.flatMap (Piece.render v)) View.retype
    (fun entry => .newtype entry.1 ∈ ps) Pending (fun _ _ _ => Pending.next)
    (fun _ _ _ hpending => retype_eq_ok_iff hps hpending) _ _ (pending_learn hps) out

/-- The second loop. -/
theorem foldlM_removeAlias_eq_ok_iff {v : View} (hv : v.Typed) (hkept : ∀ ty, v.removed ty = false)
    (out : Str) :
    cicpTypes.foldlM removeAlias (ps.flatMap (Piece.render v)) = .ok out ↔
      (∀ ty ∈ types, .typeAlias ty ∈ ps) ∧
        out = ps.flatMap (Piece.render (cicpTypes.foldl View.removeAlias v)) := by
  have hnodup : types.Nodup := by
    rw [types_eq]
    decide
  have hguards : (∀ entry ∈ cicpTypes, Piece.typeAlias entry.2 ∈ ps) ↔
      ∀ ty ∈ types, .typeAlias ty ∈ ps := by
    rw [types, List.forall_mem_map]
  rw [← hguards]
  exact Program.foldlM_eq_ok_iff removeAlias (fun v => ps.flatMap (Piece.render v))
    View.removeAlias (fun entry => .typeAlias entry.2 ∈ ps) Kept (fun _ _ _ => Kept.next)
    (fun _ _ _ hrest => removeAlias_eq_ok_iff hps hrest) _ _
    ⟨hv, hnodup, fun ty hty => ⟨hty, hkept ty⟩⟩ out

/-- The check for what is left. -/
theorem marker_infix_tidied_iff :
    marker <:+: ps.flatMap (Piece.render (tidied ps)) ↔
      (∃ num, .newtype num ∈ ps ∧ ¬ Attributed ps num) ∨
        ∃ name num value, .constant name num value ∈ ps ∧
          (¬ Attributed ps num ∨ marker <:+: name) := by
  have hnone : ∀ num, learnedType ps num = none ↔ ¬ Attributed ps num := by
    intro num
    rw [attributed_iff, ← Option.ne_none_iff_exists', not_not]
  rw [infix_flatMap_iff marker_ne_nil (separates_of_newline_notMem newline_notMem_marker _ ps)]
  constructor
  · rintro ⟨p, hmem, hoccurs⟩
    have hmarker := (marker_infix_iff (typed_tidied ps) (hps p hmem)).mp hoccurs
    cases p with
    | newtype num => exact Or.inl ⟨num, hmem, (hnone num).mp hmarker⟩
    | constant name num value =>
        exact Or.inr ⟨name, num, value, hmem, hmarker.imp_left (hnone num).mp⟩
    | typeAlias | other => exact hmarker.elim
  · intro h
    rcases h with ⟨num, hmem, hleft⟩ | ⟨name, num, value, hmem, hleft⟩
    · exact ⟨_, hmem, (marker_infix_iff (typed_tidied ps) (hps _ hmem)).mpr ((hnone num).mpr hleft)⟩
    · exact ⟨_, hmem, (marker_infix_iff (typed_tidied ps) (hps _ hmem)).mpr
        (hleft.imp_left (hnone num).mpr)⟩

/-- The pass succeeds on what its guards accept, with the tidied text. -/
theorem tidyCicpEnums_eq_ok_iff (out : Str) :
    tidyCicpEnums (bindings ps) = .ok out ↔
      Accepted ps ∧ out = ps.flatMap (Piece.render (tidied ps)) := by
  have htyped : ((learn (bindings ps)).foldl View.retype .source).Typed := by
    have hviews := typed_tidied ps
    rw [← foldl_views hps, View.foldl_removeAlias] at hviews
    exact ⟨hviews.newtypes, hviews.constants⟩
  have hkept : ∀ ty, ((learn (bindings ps)).foldl View.retype .source).removed ty = false := by
    intro ty
    rw [View.removed_foldl_retype]
    rfl
  unfold tidyCicpEnums
  simp only [Program.bind_eq_ok_iff, foldlM_retype_eq_ok_iff hps]
  constructor
  · rintro ⟨_, ⟨hdefined, rfl⟩, _, hremove, hout⟩
    rw [foldlM_removeAlias_eq_ok_iff hps htyped hkept, foldl_views hps] at hremove
    obtain ⟨haliased, rfl⟩ := hremove
    -- what the second loop leaves is returned only when no anonymous name is left in it
    split at hout
    · cases hout
    · next hclean =>
        cases hout
        rw [marker_infix_tidied_iff hps, not_or] at hclean
        refine ⟨⟨hdefined, haliased, fun num hmem => ?_, fun name num value hmem => ?_⟩, rfl⟩
        · by_contra hnot
          exact hclean.1 ⟨num, hmem, hnot⟩
        · rw [← not_not (a := Attributed ps num), ← not_or]
          exact fun hleft => hclean.2 ⟨name, num, value, hmem, hleft⟩
  · rintro ⟨haccepted, rfl⟩
    refine ⟨_, ⟨haccepted.defined, rfl⟩, ps.flatMap (Piece.render (tidied ps)), ?_, ?_⟩
    · rw [foldlM_removeAlias_eq_ok_iff hps htyped hkept, foldl_views hps]
      exact ⟨haccepted.aliased, rfl⟩
    · refine if_neg fun hleft => ?_
      rcases (marker_infix_tidied_iff hps).mp hleft with
        ⟨num, hmem, hnot⟩ | ⟨name, num, value, hmem, hnot⟩
      · exact hnot (haccepted.newtypes num hmem)
      · obtain ⟨hattributed, hname⟩ := haccepted.constants name num value hmem
        exact hnot.elim (absurd hattributed) hname

end Tidy

end Favi.Xtask

import Favi.Typing

/-!
# Every outcome of the pass

`tidyCicpEnums_eq_ok_iff` says when the pass succeeds.  Here is also what it says when
it fails: the guards are tried in the order of the source, so the error names the first
number without a newtype, in the order of the constants, or else the first CICP type
without an alias, and it is the one about leftover names only when both are there
(`failure?`).

What comes out is not accepted a second time.  No name of bindgen's invention is left in
it, so nothing is learned from it, and its aliases are gone.

All of this is about texts that are made of well-formed pieces, in any number and order
(`Piece.WellFormed`).
-/

namespace Favi.Xtask

open Text

/-! ## What a turn says when it fails -/

theorem eq_of_retype_eq_error {out e : Str} {entry : Str × Str} (h : retype out entry = .error e) :
    e = newtypeNotFound entry.1 := by
  unfold retype at h
  split at h
  · cases h
  · cases h
    rfl

theorem eq_of_removeAlias_eq_error {out e : Str} {entry : Str × Str}
    (h : removeAlias out entry = .error e) : e = aliasNotFound entry.2 := by
  unfold removeAlias at h
  split at h
  · cases h
  · cases h
    rfl

/-- The first guard that fails, in the order in which the pass comes to them. -/
def failure? (ps : List Piece) : Option Str :=
  (((ps.filterMap Piece.attribution).find? fun entry => .newtype entry.1 ∉ ps).map
      fun entry => newtypeNotFound entry.1).or
    (((types.find? fun ty => .typeAlias ty ∉ ps).map aliasNotFound).or
      (if ∀ p ∈ ps, p.Cleared ps then none else some markerLeft))

section Outcome

variable {ps : List Piece} (hps : ∀ p ∈ ps, p.WellFormed)
include hps

theorem retype_eq {v : View} {entry : Str × Str} {rest : List (Str × Str)}
    (h : Pending v (entry :: rest)) :
    retype (ps.flatMap (Piece.render v)) entry =
      if .newtype entry.1 ∈ ps then .ok (ps.flatMap (Piece.render (v.retype entry)))
      else .error (newtypeNotFound entry.1) := by
  by_cases hmem : Piece.newtype entry.1 ∈ ps
  · rw [if_pos hmem, retype_eq_ok_iff hps h]
    exact ⟨hmem, rfl⟩
  · rw [if_neg hmem]
    cases hmade : retype (ps.flatMap (Piece.render v)) entry with
    | ok out => exact absurd ((retype_eq_ok_iff hps h out).mp hmade).1 hmem
    | error e => rw [eq_of_retype_eq_error hmade]

theorem removeAlias_eq {v : View} {entry : Str × Str} {rest : List (Str × Str)}
    (h : Kept v (entry :: rest)) :
    removeAlias (ps.flatMap (Piece.render v)) entry =
      if .typeAlias entry.2 ∈ ps then .ok (ps.flatMap (Piece.render (v.removeAlias entry)))
      else .error (aliasNotFound entry.2) := by
  by_cases hmem : Piece.typeAlias entry.2 ∈ ps
  · rw [if_pos hmem, removeAlias_eq_ok_iff hps h]
    exact ⟨hmem, rfl⟩
  · rw [if_neg hmem]
    cases hmade : removeAlias (ps.flatMap (Piece.render v)) entry with
    | ok out => exact absurd ((removeAlias_eq_ok_iff hps h out).mp hmade).1 hmem
    | error e => rw [eq_of_removeAlias_eq_error hmade]

/-! ## The loops and the last check -/

/-- The loop learns a number at its first constant, so it stops where the constants do. -/
theorem foldlM_retype_eq :
    (learn (bindings ps)).foldlM retype (bindings ps) =
      ((ps.filterMap Piece.attribution).find? fun entry => .newtype entry.1 ∉ ps).elim
        (.ok (ps.flatMap (Piece.render ((learn (bindings ps)).foldl View.retype .source))))
        fun entry => .error (newtypeNotFound entry.1) := by
  have hfind : ((learn (bindings ps)).find? fun entry => .newtype entry.1 ∉ ps) =
      (ps.filterMap Piece.attribution).find? fun entry => .newtype entry.1 ∉ ps := by
    rw [learn_bindings hps, Table.find?_foldl_insertNew fun num => Piece.newtype num ∉ ps,
      List.nil_append]
  rw [← hfind]
  exact Program.foldlM_eq_find? retype (fun v => ps.flatMap (Piece.render v)) View.retype
    (fun entry => .newtype entry.1 ∈ ps) (fun entry => newtypeNotFound entry.1) Pending
    (fun _ _ _ => Pending.next) (fun _ _ _ hpending => retype_eq hps hpending) _ _
    (pending_learn hps)

theorem kept_learned :
    Kept ((learn (bindings ps)).foldl View.retype .source) cicpTypes := by
  have hviews := typed_tidied ps
  rw [← foldl_views hps, View.foldl_removeAlias] at hviews
  refine ⟨⟨hviews.newtypes, hviews.constants⟩, ?_, fun ty hty => ⟨hty, ?_⟩⟩
  · have hnodup : types.Nodup := by
      rw [types_eq]
      decide
    exact hnodup
  · rw [View.removed_foldl_retype]
    rfl

theorem foldlM_removeAlias_eq :
    cicpTypes.foldlM removeAlias (ps.flatMap
        (Piece.render ((learn (bindings ps)).foldl View.retype .source))) =
      (types.find? fun ty => .typeAlias ty ∉ ps).elim
        (.ok (ps.flatMap (Piece.render (tidied ps)))) fun ty => .error (aliasNotFound ty) := by
  have hloop := Program.foldlM_eq_find? removeAlias (fun v => ps.flatMap (Piece.render v))
    View.removeAlias (fun entry => .typeAlias entry.2 ∈ ps) (fun entry => aliasNotFound entry.2)
    Kept (fun _ _ _ => Kept.next) (fun _ _ _ hkept => removeAlias_eq hps hkept) _ _
    (kept_learned hps)
  rw [hloop, foldl_views hps, types, List.find?_map]
  rw [Option.elim_map]
  rfl

theorem marker_infix_tidied_iff_not_cleared :
    marker <:+: ps.flatMap (Piece.render (tidied ps)) ↔ ¬ ∀ p ∈ ps, p.Cleared ps := by
  rw [marker_infix_tidied_iff hps]
  constructor
  · rintro hleft hcleared
    rcases hleft with ⟨num, hmem, hnot⟩ | ⟨name, num, value, hmem, hnot⟩
    · exact hnot (hcleared _ hmem)
    · obtain ⟨hattributed, hname⟩ := hcleared _ hmem
      exact hnot.elim (absurd hattributed) hname
  · intro hnot
    obtain ⟨p, hp⟩ := not_forall.mp hnot
    obtain ⟨hmem, hp⟩ := Classical.not_imp.mp hp
    cases p with
    | newtype num => exact Or.inl ⟨num, hmem, hp⟩
    | constant name num value =>
        refine Or.inr ⟨name, num, value, hmem, ?_⟩
        rw [Piece.Cleared, not_and_or, not_not] at hp
        exact hp
    | typeAlias | other => exact absurd trivial hp

/-- What the pass does with a bindings text, whatever well-formed pieces it is made of. -/
theorem tidyCicpEnums_eq : tidyCicpEnums (bindings ps) =
    match failure? ps with
    | some e => .error e
    | none => .ok (ps.flatMap (Piece.render (tidied ps))) := by
  unfold tidyCicpEnums failure?
  rw [foldlM_retype_eq hps]
  cases hnewtype : (ps.filterMap Piece.attribution).find? fun entry => .newtype entry.1 ∉ ps with
  | some entry => rfl
  | none =>
      simp only [Option.map_none, Option.none_or, Option.elim_none, bind, Except.bind]
      rw [foldlM_removeAlias_eq hps]
      cases halias : types.find? fun ty => .typeAlias ty ∉ ps with
      | some ty => rfl
      | none =>
          simp only [Option.map_none, Option.none_or, Option.elim_none]
          by_cases hcleared : ∀ p ∈ ps, p.Cleared ps
          · have hclean := mt (marker_infix_tidied_iff_not_cleared hps).mp (not_not.mpr hcleared)
            rw [if_neg hclean, if_pos hcleared]
          · rw [if_pos ((marker_infix_tidied_iff_not_cleared hps).mpr hcleared), if_neg hcleared]

end Outcome

theorem tidyCicpEnums_stray : tidyCicpEnums (bindings (sample [strayConstant])) =
    .error (newtypeNotFound (lit "9")) := by
  have hshape : (∀ p ∈ sample [strayConstant], p.WellFormed) ∧
      failure? (sample [strayConstant]) = some (newtypeNotFound (lit "9")) := by decide +kernel
  rw [tidyCicpEnums_eq hshape.1, hshape.2]

/-! ## The pass on what came out of it -/

theorem learn_of_not_isInfix {text : Str} (h : ¬ marker <:+: text) : learn text = [] := by
  have hkeeps : ∀ ls : List Str, (∀ line ∈ ls, ¬ marker <:+: line) → ∀ nums,
      ls.foldl learnLine nums = nums := by
    intro ls
    induction ls with
    | nil => exact fun _ _ => rfl
    | cons line rest ih =>
        intro hls nums
        rw [List.foldl_cons, learnLine_of_not_isInfix (hls line (List.mem_cons_self ..))]
        exact ih (fun other hother => hls other (List.mem_cons_of_mem _ hother)) nums
  exact hkeeps _ (fun line hline hmarker => h (hmarker.trans (infix_of_mem_lines hline))) []

/-- Nothing is learned from a text without bindgen's names, so only the aliases are asked for. -/
theorem tidyCicpEnums_eq_of_not_isInfix {text : Str} (hmarker : ¬ marker <:+: text)
    (halias : ¬ aliasText (lit "avifColorPrimaries") <:+: text) :
    tidyCicpEnums text = .error (aliasNotFound (lit "avifColorPrimaries")) := by
  unfold tidyCicpEnums
  rw [learn_of_not_isInfix hmarker, List.foldlM_nil, pure_bind, cicpTypes, List.foldlM_cons,
    removeAlias, if_neg halias]
  rfl

/-- The pass refuses what it makes of well-formed pieces: none of bindgen's names is left to
learn from, and the first alias is gone. -/
theorem tidyCicpEnums_twice {ps : List Piece} (hps : ∀ p ∈ ps, p.WellFormed) {out : Str}
    (h : tidyCicpEnums (bindings ps) = .ok out) :
    learn out = [] ∧ tidyCicpEnums out = .error (aliasNotFound (lit "avifColorPrimaries")) := by
  obtain ⟨haccepted, rfl⟩ := (tidyCicpEnums_eq_ok_iff hps out).mp h
  have hmarker : ¬ marker <:+: ps.flatMap (Piece.render (tidied ps)) := by
    rw [marker_infix_tidied_iff_not_cleared hps, not_not]
    exact (accepted_iff.mp haccepted).2.2
  have hcolor : lit "avifColorPrimaries" ∈ types := by simp [types, cicpTypes]
  refine ⟨learn_of_not_isInfix hmarker, ?_⟩
  refine tidyCicpEnums_eq_of_not_isInfix hmarker fun halias => ?_
  refine not_aliasLine_infix_tidied hps hcolor (List.IsInfix.trans ?_ halias)
  rw [aliasText_eq]
  exact (List.prefix_append _ _).isInfix

theorem tidyCicpEnums_twice_sample :
    ∃ out, tidyCicpEnums (bindings (sample [])) = .ok out ∧ learn out = [] ∧
      tidyCicpEnums out = .error (aliasNotFound (lit "avifColorPrimaries")) := by
  obtain ⟨hps, -, haccepted⟩ := sample_shape
  have htidy := (tidyCicpEnums_eq_ok_iff hps _).mpr ⟨haccepted, rfl⟩
  exact ⟨_, htidy, tidyCicpEnums_twice hps htidy⟩

end Favi.Xtask

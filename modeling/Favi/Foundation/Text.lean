import Mathlib.Data.List.Basic
import Mathlib.Data.List.Infix

/-!
# Search and replace in flat text

Text is a list over an arbitrary alphabet.  `replace` replaces every match of a
pattern, from left to right and without overlap, `occurrences` counts the positions at
which the pattern occurs, and `lines` cuts the text at the ends of its lines.

What makes such passes hard to reason about is a match that lies across the pieces a
text was put together from.  `Straddles pattern first second` says that there can be
one across the boundary of `first` and `second`; where there is none, searching,
replacing and counting all distribute over the concatenation (`replace_append`,
`infix_append_iff_or`, `occurrences_append`), and from there over any sequence of
pieces (`replace_flatMap` and its companions).
-/

namespace Text

variable {α : Type*}

/-! ## Where a pattern can occur -/

/-- The pattern can be cut in two so that the parts end `first` and begin `second`. -/
def Straddles (pattern first second : List α) : Prop :=
  ∃ left right, left ≠ [] ∧ right ≠ [] ∧ pattern = left ++ right ∧ left <:+ first ∧ right <+: second

/-- A pattern without the last character of `first` does not straddle its end. -/
theorem not_straddles_of_notMem {pattern first second : List α} {sep : α} (hsep : sep ∉ pattern) :
    ¬ Straddles pattern (first ++ [sep]) second := by
  rintro ⟨left, right, hleft, -, rfl, hsuffix, -⟩
  obtain ⟨rest, hrest⟩ := hsuffix
  obtain ⟨front, last, rfl⟩ := List.eq_nil_or_concat left |>.resolve_left hleft
  rw [List.concat_eq_append, ← List.append_assoc] at hrest
  have hlast : [last] = [sep] := (List.append_inj' hrest rfl).2
  cases hlast
  exact hsep (by simp)

/-- A pattern with one `sep` can straddle the end of a line only at that `sep`. -/
theorem prefix_of_straddles {before after first second : List α} {sep : α} (hbefore : sep ∉ before)
    (hafter : sep ∉ after) (h : Straddles (before ++ sep :: after) (first ++ [sep]) second) :
    after ≠ [] ∧ after <+: second := by
  obtain ⟨left, right, hleft, hright, hpattern, ⟨rest, hrest⟩, hstarts⟩ := h
  obtain ⟨front, last, rfl⟩ := (List.eq_nil_or_concat left).resolve_left hleft
  rw [List.concat_eq_append] at hpattern hrest
  rw [← List.append_assoc] at hrest
  obtain rfl : last = sep := by simpa using (List.append_inj' hrest rfl).2
  -- the cut comes after a `sep`, and the pattern has only one
  rw [List.append_assoc, List.singleton_append] at hpattern
  obtain ⟨-, -, rfl⟩ := (List.append_cons_inj_of_notMem hbefore hafter).mp hpattern
  exact ⟨hright, hstarts⟩

theorem not_straddles_nil (pattern second : List α) : ¬ Straddles pattern [] second := by
  rintro ⟨left, right, hleft, -, -, hsuffix, -⟩
  exact hleft (List.suffix_nil.mp hsuffix)

theorem not_straddles_of_head_notMem {x : α} {tail first second : List α} (hx : x ∉ first) :
    ¬ Straddles (x :: tail) first second := by
  rintro ⟨left, right, hleft, -, hpattern, hsuffix, -⟩
  obtain ⟨y, rest, rfl⟩ := List.exists_cons_of_ne_nil hleft
  obtain ⟨rfl, -⟩ := List.cons_eq_cons.mp hpattern
  exact hx (hsuffix.subset (List.mem_cons_self ..))

theorem Straddles.cons {pattern first second : List α} (x : α)
    (h : Straddles pattern first second) : Straddles pattern (x :: first) second := by
  obtain ⟨left, right, hleft, hright, hpattern, hsuffix, hstarts⟩ := h
  exact ⟨left, right, hleft, hright, hpattern, hsuffix.trans (List.suffix_cons x first), hstarts⟩

theorem prefix_append_iff {pattern rest second : List α} {x : α}
    (h : ¬ Straddles pattern (x :: rest) second) :
    pattern <+: x :: (rest ++ second) ↔ pattern <+: x :: rest := by
  rw [← List.cons_append]
  refine ⟨fun hmatch => ?_, fun hmatch => hmatch.trans (List.prefix_append _ _)⟩
  -- a longer match would continue in `second`
  by_contra hlong
  obtain ⟨right, hright⟩ := (List.prefix_or_prefix_of_prefix hmatch
    (List.prefix_append (x :: rest) second)).resolve_left hlong
  rw [← hright, List.prefix_append_right_inj] at hmatch
  have hne : right ≠ [] := by
    intro hnil
    rw [hnil, List.append_nil] at hright
    exact hlong (by rw [hright])
  exact h ⟨x :: rest, right, List.cons_ne_nil x rest, hne, hright.symm, List.suffix_rfl, hmatch⟩

/-- A pattern that does not straddle a boundary occurs on one side of it. -/
theorem infix_append_iff_or {pattern first second : List α}
    (h : ¬ Straddles pattern first second) :
    pattern <:+: first ++ second ↔ pattern <:+: first ∨ pattern <:+: second := by
  rw [List.infix_append_iff_ne_nil]
  constructor
  · intro hoccurs
    rcases hoccurs with hfirst | hsecond | hstraddles
    · exact Or.inl hfirst
    · exact Or.inr hsecond
    · exact absurd hstraddles h
  · intro hoccurs
    rcases hoccurs with hfirst | hsecond
    · exact Or.inl hfirst
    · exact Or.inr (Or.inl hsecond)

theorem not_infix_of_notMem {pattern text : List α} {x : α} (hx : x ∈ pattern) (hnot : x ∉ text) :
    ¬ pattern <:+: text :=
  fun hoccurs => hnot (hoccurs.subset hx)

/-- A pattern without `sep` occurs on one side of a `sep`. -/
theorem infix_append_cons_iff {pattern first second : List α} {sep : α} (hsep : sep ∉ pattern)
    (hne : pattern ≠ []) :
    pattern <:+: first ++ sep :: second ↔ pattern <:+: first ∨ pattern <:+: second := by
  have hsplit : first ++ sep :: second = (first ++ [sep]) ++ second := by simp
  rw [hsplit, infix_append_iff_or (not_straddles_of_notMem hsep)]
  have hsingle : ¬ pattern <:+: [sep] := by
    obtain ⟨x, rest, rfl⟩ := List.exists_cons_of_ne_nil hne
    intro hoccurs
    have hx : x = sep := List.mem_singleton.mp (hoccurs.subset (List.mem_cons_self ..))
    exact hsep (hx ▸ List.mem_cons_self ..)
  have hstraddles : ¬ Straddles pattern first [sep] := by
    rintro ⟨left, right, -, hright, rfl, -, hstarts⟩
    obtain ⟨x, rest, rfl⟩ := List.exists_cons_of_ne_nil hright
    have hx : x = sep := List.mem_singleton.mp (hstarts.subset (List.mem_cons_self ..))
    exact hsep (by simp [hx])
  rw [infix_append_iff_or hstraddles, or_iff_left hsingle]

/-- Two texts with one `sep` each: where one occurs in the other, the separators meet. -/
theorem parts_of_isInfix {before after first second : List α} {sep : α} (hfirst : sep ∉ first)
    (hsecond : sep ∉ second) (h : before ++ sep :: after <:+: first ++ sep :: second) :
    before <:+ first ∧ after <+: second := by
  obtain ⟨start, rest, heq⟩ := h
  -- one text cut at its only separator in two ways
  have hassoc : first ++ sep :: second = (start ++ before) ++ sep :: (after ++ rest) := by
    rw [← heq]
    simp
  obtain ⟨hleft, -, hright⟩ := (List.append_cons_inj_of_notMem hfirst hsecond).mp hassoc
  exact ⟨⟨start, hleft.symm⟩, ⟨rest, hright.symm⟩⟩

theorem after_of_isInfix {after first second : List α} {sep : α} (hfirst : sep ∉ first)
    (hsecond : sep ∉ second) (h : sep :: after <:+: first ++ sep :: second) : after <+: second := by
  rw [← List.nil_append (sep :: after)] at h
  exact (parts_of_isInfix hfirst hsecond h).2

theorem not_prefix_append {front front' : List α} (h : ¬ front <+: front') (h' : ¬ front' <+: front)
    (rest rest' : List α) : ¬ front ++ rest <+: front' ++ rest' := by
  intro hstarts
  have hfront := (List.prefix_append front rest).trans hstarts
  rcases List.prefix_or_prefix_of_prefix hfront (List.prefix_append front' rest') with hle | hle
  · exact h hle
  · exact h' hle

/-- A prefix without `sep` ends before the first `sep`. -/
theorem prefix_of_prefix_line {pattern line rest : List α} {sep : α} (hsep : sep ∉ pattern)
    (h : pattern <+: line ++ sep :: rest) : pattern <+: line := by
  rcases List.prefix_or_prefix_of_prefix h (List.prefix_append line (sep :: rest)) with hle | hle
  · exact hle
  · obtain ⟨tail, rfl⟩ := hle
    rw [List.prefix_append_right_inj] at h
    cases tail with
    | nil => rw [List.append_nil]
    | cons x tail =>
        obtain ⟨rfl, -⟩ := List.cons_prefix_cons.mp h
        exact absurd (List.mem_append_right _ (List.mem_cons_self ..)) hsep

/-- What stands before the first `sep` is the same in a text and in a prefix of it. -/
theorem eq_of_prefix_line {line line' rest rest' : List α} {sep : α} (hline : sep ∉ line)
    (hline' : sep ∉ line') (h : line ++ sep :: rest <+: line' ++ sep :: rest') : line = line' := by
  obtain ⟨tail, rfl⟩ :=
    prefix_of_prefix_line hline ((List.prefix_append line (sep :: rest)).trans h)
  rw [List.append_assoc, List.prefix_append_right_inj] at h
  cases tail with
  | nil => rw [List.append_nil]
  | cons x tail =>
      obtain ⟨rfl, -⟩ := List.cons_prefix_cons.mp h
      exact absurd (List.mem_append_right _ (List.mem_cons_self ..)) hline'

/-! ## Replacing -/

section Replace

variable [DecidableEq α]

/-- Replace from here on; the next `skip` characters belong to a match already replaced. -/
def replaceFrom (pattern replacement : List α) : ℕ → List α → List α
  | _, [] => []
  | skip + 1, _ :: rest => replaceFrom pattern replacement skip rest
  | 0, x :: rest =>
      if pattern <+: x :: rest then
        replacement ++ replaceFrom pattern replacement (pattern.length - 1) rest
      else
        x :: replaceFrom pattern replacement 0 rest

/-- `str::replace`: the matches are taken from the left, and none overlaps the one before. -/
def replace (pattern replacement text : List α) : List α :=
  replaceFrom pattern replacement 0 text

variable {pattern replacement : List α}

theorem replaceFrom_append {first second : List α} :
    ∀ {skip : ℕ}, ¬ Straddles pattern first second → skip ≤ first.length →
      replaceFrom pattern replacement skip (first ++ second) =
        replaceFrom pattern replacement skip first ++ replace pattern replacement second := by
  induction first with
  | nil =>
      intro skip _ hskip
      obtain rfl : skip = 0 := Nat.le_zero.mp hskip
      cases second <;> rfl
  | cons x rest ih =>
      intro skip hstraddles hskip
      have hrest : ¬ Straddles pattern rest second := fun h => hstraddles (h.cons x)
      cases skip with
      | succ skip => exact ih hrest (Nat.le_of_succ_le_succ hskip)
      | zero =>
          rw [List.cons_append, replaceFrom, replaceFrom]
          by_cases hmatch : pattern <+: x :: rest
          · -- the match ends within `first`, so what it skips is there
            have hlen : pattern.length - 1 ≤ rest.length := by
              have hle := hmatch.length_le
              rw [List.length_cons] at hle
              omega
            rw [if_pos ((prefix_append_iff hstraddles).mpr hmatch), if_pos hmatch,
              ih hrest hlen, List.append_assoc]
          · rw [if_neg (mt (prefix_append_iff hstraddles).mp hmatch), if_neg hmatch,
              ih hrest (Nat.zero_le _), List.cons_append]

/-- Replacing distributes over a boundary that no match straddles. -/
theorem replace_append {first second : List α} (h : ¬ Straddles pattern first second) :
    replace pattern replacement (first ++ second) =
      replace pattern replacement first ++ replace pattern replacement second :=
  replaceFrom_append h (Nat.zero_le _)

/-- Where the pattern does not occur, nothing is replaced. -/
theorem replace_of_not_isInfix {text : List α} (h : ¬ pattern <:+: text) :
    replace pattern replacement text = text := by
  induction text with
  | nil => rfl
  | cons x rest ih =>
      rw [List.infix_cons_iff, not_or] at h
      unfold replace replaceFrom
      rw [if_neg h.1]
      exact congrArg (x :: ·) (ih h.2)

theorem replaceFrom_length_append (skipped text : List α) :
    replaceFrom pattern replacement skipped.length (skipped ++ text) =
      replace pattern replacement text := by
  induction skipped with
  | nil => rfl
  | cons x rest ih => exact ih

/-- A match at the front is replaced, and the rest is replaced on its own. -/
theorem replace_match (hne : pattern ≠ []) (text : List α) :
    replace pattern replacement (pattern ++ text) =
      replacement ++ replace pattern replacement text := by
  obtain ⟨x, rest, rfl⟩ := List.exists_cons_of_ne_nil hne
  have hmatch : x :: rest <+: x :: (rest ++ text) := List.prefix_append (x :: rest) text
  unfold replace
  rw [List.cons_append, replaceFrom, if_pos hmatch]
  exact congrArg (replacement ++ ·) (replaceFrom_length_append rest text)

theorem replace_append_of_head_notMem {x : α} {tail first : List α} (hx : x ∉ first)
    (second : List α) :
    replace (x :: tail) replacement (first ++ second) =
      first ++ replace (x :: tail) replacement second := by
  rw [replace_append (not_straddles_of_head_notMem hx),
    replace_of_not_isInfix (not_infix_of_notMem (List.mem_cons_self ..) hx)]

end Replace

/-! ## Counting -/

section Count

variable [DecidableEq α]

/-- The number of positions at which a nonempty pattern occurs. -/
def occurrences (pattern : List α) : List α → ℕ
  | [] => 0
  | x :: rest => (if pattern <+: x :: rest then 1 else 0) + occurrences pattern rest

variable {pattern : List α}

theorem occurrences_of_not_isInfix {text : List α} (h : ¬ pattern <:+: text) :
    occurrences pattern text = 0 := by
  induction text with
  | nil => rfl
  | cons x rest ih =>
      rw [List.infix_cons_iff, not_or] at h
      rw [occurrences, if_neg h.1, ih h.2]

/-- Without a match across the boundary, occurrences add up. -/
theorem occurrences_append {first second : List α} (hstraddles : ¬ Straddles pattern first second) :
    occurrences pattern (first ++ second) =
      occurrences pattern first + occurrences pattern second := by
  induction first with
  | nil => simp [occurrences]
  | cons x rest ih =>
      have ih := ih fun h => hstraddles (h.cons x)
      rw [List.cons_append, occurrences, occurrences, ih]
      simp only [prefix_append_iff hstraddles, Nat.add_assoc]

end Count

/-! ## Pieces

A text put together from pieces, each rendered by `render`, with no match across the
end of a piece whatever pieces follow. -/

section Pieces

variable {ι : Type*} {items : List ι} {render : ι → List α} {pattern : List α}

/-- No match straddles the end of one of the pieces. -/
def Separates (pattern : List α) (render : ι → List α) (items : List ι) : Prop :=
  ∀ item ∈ items, ∀ rest ⊆ items, ¬ Straddles pattern (render item) (rest.flatMap render)

theorem Separates.tail {item : ι} (h : Separates pattern render (item :: items)) :
    Separates pattern render items :=
  fun other hother rest hrest => h other (List.mem_cons_of_mem _ hother) rest
    fun _ hmem => List.mem_cons_of_mem _ (hrest hmem)

theorem Separates.head {item : ι} (h : Separates pattern render (item :: items)) :
    ¬ Straddles pattern (render item) (items.flatMap render) :=
  h item (List.mem_cons_self ..) items fun _ hmem => List.mem_cons_of_mem _ hmem

/-- A nonempty pattern occurs in a text when it occurs in a piece of it. -/
theorem infix_flatMap_iff (hne : pattern ≠ []) (h : Separates pattern render items) :
    pattern <:+: items.flatMap render ↔ ∃ item ∈ items, pattern <:+: render item := by
  induction items with
  | nil => simpa using hne
  | cons item rest ih =>
      rw [List.flatMap_cons, infix_append_iff_or h.head, ih h.tail]
      simp

variable [DecidableEq α]

theorem replace_flatMap {replacement : List α} {render' : ι → List α}
    (h : Separates pattern render items)
    (hpiece : ∀ item ∈ items, replace pattern replacement (render item) = render' item) :
    replace pattern replacement (items.flatMap render) = items.flatMap render' := by
  induction items with
  | nil => rfl
  | cons item rest ih =>
      rw [List.flatMap_cons, replace_append h.head, hpiece item (List.mem_cons_self ..),
        ih h.tail fun other hother => hpiece other (List.mem_cons_of_mem _ hother)]
      rfl

/-- Where a pattern occurs at most once in a piece, its occurrences are the pieces that
have it. -/
theorem occurrences_flatMap {has : ι → Bool} (h : Separates pattern render items)
    (hpiece : ∀ item ∈ items, occurrences pattern (render item) = if has item then 1 else 0) :
    occurrences pattern (items.flatMap render) = items.countP has := by
  induction items with
  | nil => rfl
  | cons item rest ih =>
      rw [List.flatMap_cons, occurrences_append h.head, hpiece item (List.mem_cons_self ..),
        ih h.tail fun other hother => hpiece other (List.mem_cons_of_mem _ hother),
        List.countP_cons, Nat.add_comm]

end Pieces

/-! ## Lines -/

section Lines

variable [DecidableEq α]

/-- The pieces that end with each `sep`, and what is left after the last one. -/
def splitInclusive (sep : α) : List α → List (List α)
  | [] => []
  | x :: rest =>
      if x = sep then [x] :: splitInclusive sep rest
      else
        match splitInclusive sep rest with
        | [] => [[x]]
        | line :: lines => (x :: line) :: lines

/-- A line without its end: `newline`, with a `cr` before it if there is one. -/
def chomp (newline cr : α) (line : List α) : List α :=
  match line.dropSuffix? [newline] with
  | none => line
  | some line =>
      match line.dropSuffix? [cr] with
      | none => line
      | some line => line

/-- `str::lines`: the pieces up to each line feed, without their ends. -/
def lines (newline cr : α) (text : List α) : List (List α) :=
  (splitInclusive newline text).map (chomp newline cr)

theorem splitInclusive_line {sep : α} {line : List α} (hline : sep ∉ line) (rest : List α) :
    splitInclusive sep (line ++ sep :: rest) = (line ++ [sep]) :: splitInclusive sep rest := by
  induction line with
  | nil => simp [splitInclusive]
  | cons x tail ih =>
      have hx : x ≠ sep := fun heq => hline (heq ▸ List.mem_cons_self ..)
      have htail : sep ∉ tail := fun hmem => hline (List.mem_cons_of_mem _ hmem)
      rw [List.cons_append, splitInclusive, if_neg hx, ih htail]
      rfl

theorem splitInclusive_ne_nil (sep : α) {text : List α} (h : text ≠ []) :
    splitInclusive sep text ≠ [] := by
  obtain ⟨x, rest, rfl⟩ := List.exists_cons_of_ne_nil h
  rw [splitInclusive]
  split
  · exact List.cons_ne_nil _ _
  · split <;> exact List.cons_ne_nil _ _

theorem splitInclusive_append (sep : α) (first second : List α) :
    splitInclusive sep (first ++ [sep] ++ second) =
      splitInclusive sep (first ++ [sep]) ++ splitInclusive sep second := by
  induction first with
  | nil => simp [splitInclusive]
  | cons x tail ih =>
      rw [List.cons_append, List.cons_append, splitInclusive, splitInclusive, ih]
      by_cases hx : x = sep
      · rw [if_pos hx, if_pos hx, List.cons_append]
      · rw [if_neg hx, if_neg hx]
        obtain ⟨line, lines, hlines⟩ := List.exists_cons_of_ne_nil
          (splitInclusive_ne_nil sep (List.append_ne_nil_of_right_ne_nil tail
            (List.cons_ne_nil sep [])))
        rw [hlines]
        rfl

theorem flatten_splitInclusive (sep : α) (text : List α) :
    (splitInclusive sep text).flatten = text := by
  induction text with
  | nil => rfl
  | cons x rest ih =>
      rw [splitInclusive]
      split
      · rw [List.flatten_cons, ih, List.singleton_append]
      · split
        · next hnil =>
            rw [hnil, List.flatten_nil] at ih
            rw [← ih]
            rfl
        · next line lines hlines =>
            rw [hlines, List.flatten_cons] at ih
            rw [List.flatten_cons, List.cons_append, ih]

/-- The lines of a text put together from whole lines. -/
theorem lines_flatMap {ι : Type*} {newline cr : α} {items : List ι} {render : ι → List α}
    (h : ∀ item, render item = [] ∨ ∃ front, render item = front ++ [newline]) :
    lines newline cr (items.flatMap render) =
      items.flatMap fun item => lines newline cr (render item) := by
  induction items with
  | nil => rfl
  | cons item rest ih =>
      rw [List.flatMap_cons, List.flatMap_cons, ← ih]
      rcases h item with hnil | ⟨front, hline⟩
      · rw [hnil]
        rfl
      · rw [hline, lines, lines, lines, splitInclusive_append, List.map_append]

theorem lines_line {newline cr : α} {line : List α} (hline : newline ∉ line) (rest : List α) :
    lines newline cr (line ++ newline :: rest) =
      chomp newline cr (line ++ [newline]) :: lines newline cr rest := by
  rw [lines, splitInclusive_line hline, List.map_cons]
  rfl

theorem chomp_line {newline cr : α} {line : List α} (hcr : ¬ [cr] <:+ line) :
    chomp newline cr (line ++ [newline]) = line := by
  have hnewline : (line ++ [newline]).dropSuffix? [newline] = some line :=
    List.dropSuffix?_eq_some_iff.mpr ⟨[newline], rfl, beq_self_eq_true _⟩
  have hnone : line.dropSuffix? [cr] = none := by
    by_contra hsome
    obtain ⟨front, hfront⟩ := Option.ne_none_iff_exists'.mp hsome
    obtain ⟨last, rfl, hlast⟩ := List.dropSuffix?_eq_some_iff.mp hfront
    rw [eq_of_beq hlast] at hcr
    exact hcr (List.suffix_append front [cr])
  unfold chomp
  rw [hnewline]
  simp only [hnone]

theorem chomp_line_isPrefix (newline cr : α) (line : List α) :
    chomp newline cr (line ++ [newline]) <+: line := by
  have hnewline : (line ++ [newline]).dropSuffix? [newline] = some line :=
    List.dropSuffix?_eq_some_iff.mpr ⟨[newline], rfl, beq_self_eq_true _⟩
  unfold chomp
  rw [hnewline]
  simp only
  cases hfront : line.dropSuffix? [cr] with
  | none => exact List.prefix_rfl
  | some front =>
      obtain ⟨last, rfl, -⟩ := List.dropSuffix?_eq_some_iff.mp hfront
      exact List.prefix_append front last

theorem infix_of_mem_lines {newline cr : α} {line text : List α}
    (h : line ∈ lines newline cr text) : line <:+: text := by
  obtain ⟨whole, hwhole, rfl⟩ := List.mem_map.mp h
  have hpart : whole <:+: text := by
    have hflatten := List.infix_of_mem_flatten hwhole
    rwa [flatten_splitInclusive] at hflatten
  refine List.IsInfix.trans (List.IsPrefix.isInfix ?_) hpart
  -- without an end the line is itself, and otherwise it is cut there
  cases hcut : whole.dropSuffix? [newline] with
  | none =>
      rw [chomp, hcut]
  | some front =>
      obtain ⟨last, rfl, hlast⟩ := List.dropSuffix?_eq_some_iff.mp hcut
      rw [eq_of_beq hlast]
      exact (chomp_line_isPrefix newline cr front).trans (List.prefix_append _ _)

end Lines

/-! ## Splitting once -/

section SplitOnce

variable [DecidableEq α]

theorem dropPrefix?_append (pattern rest : List α) :
    (pattern ++ rest).dropPrefix? pattern = some rest :=
  List.dropPrefix?_eq_some_iff.mpr ⟨pattern, rfl, beq_self_eq_true _⟩

theorem prefix_of_dropPrefix? {pattern text rest : List α}
    (h : text.dropPrefix? pattern = some rest) : text = pattern ++ rest := by
  obtain ⟨front, rfl, hfront⟩ := List.dropPrefix?_eq_some_iff.mp h
  rw [eq_of_beq hfront]

/-- Splitting at the first match, whose first character does not occur before it. -/
theorem dropInfix?_of_head_notMem {x : α} {before : List α} (hx : x ∉ before)
    (tail after : List α) :
    (before ++ x :: (tail ++ after)).dropInfix? (x :: tail) = some (before, after) := by
  rw [List.dropInfix?_eq_some_iff]
  refine ⟨⟨x :: tail, by simp, beq_self_eq_true _⟩, fun front found rest heq hfound => ?_⟩
  rw [eq_of_beq hfound] at heq
  by_contra hlt
  have hlt : front.length < before.length := Nat.not_le.mp hlt
  have hget := congrArg (fun text => text[front.length]?) heq
  simp only [List.getElem?_append_left hlt, List.append_assoc, List.cons_append,
    List.getElem?_append_right le_rfl, Nat.sub_self, List.getElem?_cons_zero] at hget
  exact hx (List.mem_of_getElem? hget)

theorem eq_of_dropInfix? {pattern text before after : List α}
    (h : text.dropInfix? pattern = some (before, after)) : text = before ++ (pattern ++ after) := by
  obtain ⟨⟨found, rfl, hfound⟩, -⟩ := List.dropInfix?_eq_some_iff.mp h
  rw [eq_of_beq hfound, List.append_assoc]

theorem dropSuffix?_append (front pattern : List α) :
    (front ++ pattern).dropSuffix? pattern = some front :=
  List.dropSuffix?_eq_some_iff.mpr ⟨pattern, rfl, beq_self_eq_true _⟩

theorem eq_of_dropSuffix? {pattern text front : List α}
    (h : text.dropSuffix? pattern = some front) : text = front ++ pattern := by
  obtain ⟨last, rfl, hlast⟩ := List.dropSuffix?_eq_some_iff.mp h
  rw [eq_of_beq hlast]

theorem dropInfix?_eq_none {pattern text : List α} (h : ¬ pattern <:+: text) :
    text.dropInfix? pattern = none := by
  by_contra hsome
  obtain ⟨⟨before, after⟩, hsplit⟩ := Option.ne_none_iff_exists'.mp hsome
  obtain ⟨⟨found, rfl, hfound⟩, -⟩ := List.dropInfix?_eq_some_iff.mp hsplit
  rw [eq_of_beq hfound] at h
  exact h ⟨before, after, rfl⟩

end SplitOnce

end Text

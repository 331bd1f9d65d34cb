import Mathlib.Data.List.Basic
import Mathlib.Data.List.Nodup
import Mathlib.Logic.Function.Basic

/-!
# Tables that keep the first entry of a key

`insertNew` adds an entry for a key that has none.  A table filled by a scan gives a
key what a search of the scanned entries gives it (`lookup_foldl_insertNew`), it has
each key once (`nodup_foldl_insertNew`), and for such a table membership is lookup
(`mem_iff_lookup`).
-/

namespace Table

variable {κ β : Type*} [BEq κ]

/-- The table with an entry for `key`, unless it has one already. -/
def insertNew (table : List (κ × β)) (key : κ) (value : β) : List (κ × β) :=
  if table.any fun entry => entry.1 == key then table else table ++ [(key, value)]

variable [LawfulBEq κ]

theorem lookup_eq_none_of_notMem {table : List (κ × β)} {key : κ}
    (h : key ∉ table.map Prod.fst) : table.lookup key = none := by
  refine List.lookup_eq_none_iff.mpr fun entry hmem => bne_iff_ne.mpr fun heq => h ?_
  exact List.mem_map.mpr ⟨entry, hmem, heq.symm⟩

theorem insertNew_of_mem {table : List (κ × β)} {key : κ} (h : key ∈ table.map Prod.fst)
    (value : β) : insertNew table key value = table := by
  obtain ⟨entry, hmem, heq⟩ := List.mem_map.mp h
  have hkey : (entry.1 == key) = true := beq_iff_eq.mpr heq
  exact if_pos (List.any_eq_true.mpr ⟨entry, hmem, hkey⟩)

theorem insertNew_of_notMem {table : List (κ × β)} {key : κ} (h : key ∉ table.map Prod.fst)
    (value : β) : insertNew table key value = table ++ [(key, value)] := by
  refine if_neg fun hany => h ?_
  obtain ⟨entry, hmem, heq⟩ := List.any_eq_true.mp hany
  exact List.mem_map.mpr ⟨entry, hmem, beq_iff_eq.mp heq⟩

theorem mem_iff_lookup {table : List (κ × β)} (h : (table.map Prod.fst).Nodup) {key : κ}
    {value : β} : (key, value) ∈ table ↔ table.lookup key = some value := by
  induction table with
  | nil => simp
  | cons entry rest ih =>
      obtain ⟨hnew, hrest⟩ := List.nodup_cons.mp h
      by_cases heq : key = entry.1
      · obtain rfl := heq
        have hnotMem : (entry.1, value) ∉ rest := fun hmem =>
          hnew (List.mem_map.mpr ⟨_, hmem, rfl⟩)
        rw [List.mem_cons, or_iff_left hnotMem, List.lookup_cons_self, Prod.ext_iff]
        simp [eq_comm]
      · have hne : (key, value) ≠ entry := fun h => heq (congrArg Prod.fst h)
        rw [List.mem_cons, or_iff_right hne, ih hrest, List.lookup_cons, beq_false_of_ne heq]

theorem lookup_insertNew (table : List (κ × β)) (entry : κ × β) (key : κ) :
    (insertNew table entry.1 entry.2).lookup key = (table ++ [entry]).lookup key := by
  by_cases hold : entry.1 ∈ table.map Prod.fst
  · rw [insertNew_of_mem hold, List.lookup_append]
    by_cases heq : key = entry.1
    · have hsome : (table.lookup key).isSome := by
        obtain ⟨other, hmem, hother⟩ := List.mem_map.mp hold
        exact List.lookup_isSome_iff.mpr ⟨other, hmem, beq_iff_eq.mpr (heq.trans hother.symm)⟩
      obtain ⟨value, hvalue⟩ := Option.isSome_iff_exists.mp hsome
      rw [hvalue, Option.some_or]
    · rw [List.lookup_cons, beq_false_of_ne heq, List.lookup_nil, Option.or_none]
  · rw [insertNew_of_notMem hold]

/-- A scan finds for each key what the first entry of the key says. -/
theorem lookup_foldl_insertNew (entries table : List (κ × β)) (key : κ) :
    (entries.foldl (fun table entry => insertNew table entry.1 entry.2) table).lookup key =
      (table ++ entries).lookup key := by
  induction entries generalizing table with
  | nil => rw [List.append_nil, List.foldl_nil]
  | cons entry rest ih =>
      rw [List.foldl_cons, ih, List.lookup_append, lookup_insertNew, ← List.lookup_append,
        List.append_assoc, List.singleton_append]

theorem nodup_insertNew {table : List (κ × β)} (h : (table.map Prod.fst).Nodup) (key : κ)
    (value : β) : ((insertNew table key value).map Prod.fst).Nodup := by
  by_cases hold : key ∈ table.map Prod.fst
  · rwa [insertNew_of_mem hold]
  · rw [insertNew_of_notMem hold, List.map_append]
    refine List.nodup_append.mpr ⟨h, List.nodup_singleton key, fun other hother last hlast => ?_⟩
    obtain rfl := List.mem_singleton.mp hlast
    exact fun heq => hold (heq ▸ hother)

theorem nodup_foldl_insertNew (entries : List (κ × β)) {table : List (κ × β)}
    (h : (table.map Prod.fst).Nodup) :
    ((entries.foldl (fun table entry => insertNew table entry.1 entry.2) table).map
      Prod.fst).Nodup := by
  induction entries generalizing table with
  | nil => exact h
  | cons entry rest ih => exact ih (nodup_insertNew h entry.1 entry.2)

/-- A search in a table whose keys were renamed one to one. -/
theorem lookup_map_key {κ' : Type*} [BEq κ'] [LawfulBEq κ'] {f : κ → κ'}
    (hf : Function.Injective f) (table : List (κ × β)) (key : κ) :
    (table.map fun entry => (f entry.1, entry.2)).lookup (f key) = table.lookup key := by
  induction table with
  | nil => rfl
  | cons entry rest ih =>
      rw [List.map_cons, List.lookup_cons, List.lookup_cons, ih]
      by_cases heq : key = entry.1
      · rw [heq, beq_self_eq_true, beq_self_eq_true]
      · rw [beq_false_of_ne heq, beq_false_of_ne (hf.ne heq)]

/-- A scan finds the first entry of a kind of keys where a search of the scanned entries
finds it. -/
theorem find?_foldl_insertNew (kind : κ → Bool) (entries table : List (κ × β)) :
    ((entries.foldl (fun table entry => insertNew table entry.1 entry.2) table).find? fun entry =>
      kind entry.1) = (table ++ entries).find? fun entry => kind entry.1 := by
  induction entries generalizing table with
  | nil => rw [List.append_nil, List.foldl_nil]
  | cons entry rest ih =>
      rw [List.foldl_cons, ih, ← List.singleton_append, ← List.append_assoc]
      by_cases hold : entry.1 ∈ table.map Prod.fst
      · -- an entry whose key is there is not the first of its kind
        obtain ⟨other, hmem, hother⟩ := List.mem_map.mp hold
        rw [insertNew_of_mem hold, List.find?_append, List.find?_append, List.find?_append]
        cases hkind : kind entry.1 with
        | false => simp [hkind]
        | true =>
            have hfound : (table.find? fun entry => kind entry.1).isSome :=
              List.find?_isSome.mpr ⟨other, hmem, hother ▸ hkind⟩
            obtain ⟨first, hfirst⟩ := Option.isSome_iff_exists.mp hfound
            simp only [hfirst, Option.some_or]
      · rw [insertNew_of_notMem hold]

/-- A function overwritten by the entries of a table, one after the other. -/
theorem foldl_update [DecidableEq κ] {table : List (κ × β)} (h : (table.map Prod.fst).Nodup)
    (f : κ → Option β) (key : κ) :
    table.foldl (fun (f : κ → Option β) entry => Function.update f entry.1 (some entry.2)) f key =
      (table.lookup key).or (f key) := by
  induction table generalizing f with
  | nil => rfl
  | cons entry rest ih =>
      obtain ⟨hnew, hrest⟩ := List.nodup_cons.mp h
      rw [List.foldl_cons, ih hrest, List.lookup_cons]
      by_cases heq : key = entry.1
      · obtain rfl := heq
        rw [lookup_eq_none_of_notMem hnew, Function.update_self, beq_self_eq_true]
        rfl
      · rw [Function.update_of_ne heq, beq_false_of_ne heq]

end Table

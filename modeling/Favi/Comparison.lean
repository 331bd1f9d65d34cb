import Favi.Simulation

/-!
# Comparing encoded data

`Data` compares, orders and hashes like the bytes it derefs to, so it can stand in for
them as a key: `Borrow<[u8]>` asks for exactly that.  `data_compares_by_content` says so
in every state that a session reaches: whatever the pointers are, and whatever was
written through `&mut [u8]` before, the order is the lexicographic order of the bytes,
equality is equality of the bytes, and the hash is the hash of the bytes.
-/

namespace Favi

open Custody Program

variable {σ : Type} {target : Target} {lib : Libavif σ}

/-! ## Slices -/

/-- `Ord for [u8]`: the first byte that differs decides, then the length. -/
def sliceCmp : List UInt8 → List UInt8 → Ordering
  | [], [] => .eq
  | [], _ :: _ => .lt
  | _ :: _, [] => .gt
  | a :: first, b :: second =>
      if a < b then .lt else if b < a then .gt else sliceCmp first second

/-- What `Hash for [u8]` asks of a `Hasher`. -/
structure Hasher (η : Type) where
  writeLengthPrefix : η → ℕ → η
  write : η → List UInt8 → η

/-- `Hash for [u8]`. -/
def Hasher.hashSlice {η : Type} (hasher : Hasher η) (slice : List UInt8) (state : η) : η :=
  hasher.write (hasher.writeLengthPrefix state slice.length) slice

theorem sliceCmp_eq_lt_iff : ∀ first second : List UInt8,
    sliceCmp first second = .lt ↔ first < second
  | [], [] => by simp [sliceCmp]
  | [], _ :: _ => by simp [sliceCmp]
  | _ :: _, [] => by simp [sliceCmp]
  | a :: first, b :: second => by
      have ih := sliceCmp_eq_lt_iff first second
      rw [sliceCmp, List.cons_lt_cons_iff]
      split_ifs with hlt hgt
      · exact iff_of_true rfl (Or.inl hlt)
      · refine iff_of_false nofun ?_
        rintro (hlt' | ⟨rfl, -⟩)
        · exact hlt hlt'
        · exact hlt hgt
      · obtain rfl : a = b := UInt8.le_antisymm (UInt8.not_lt.mp hgt) (UInt8.not_lt.mp hlt)
        rw [ih, or_iff_right hlt, and_iff_right rfl]

theorem sliceCmp_eq_eq_iff : ∀ first second : List UInt8,
    sliceCmp first second = .eq ↔ first = second
  | [], [] => by simp [sliceCmp]
  | [], _ :: _ => by simp [sliceCmp]
  | _ :: _, [] => by simp [sliceCmp]
  | a :: first, b :: second => by
      have ih := sliceCmp_eq_eq_iff first second
      rw [sliceCmp, List.cons.injEq]
      split_ifs with hlt hgt
      · exact iff_of_false nofun fun heq => UInt8.ne_of_lt hlt heq.1
      · exact iff_of_false nofun fun heq => UInt8.ne_of_lt hgt heq.1.symm
      · obtain rfl : a = b := UInt8.le_antisymm (UInt8.not_lt.mp hgt) (UInt8.not_lt.mp hlt)
        rw [ih, and_iff_right rfl]

theorem sliceCmp_swap : ∀ first second : List UInt8,
    sliceCmp second first = (sliceCmp first second).swap
  | [], [] => rfl
  | [], _ :: _ => rfl
  | _ :: _, [] => rfl
  | a :: first, b :: second => by
      have ih := sliceCmp_swap first second
      rw [sliceCmp, sliceCmp]
      by_cases hlt : a < b
      · rw [if_pos hlt, if_neg (UInt8.lt_asymm hlt), if_pos hlt]
        rfl
      · rw [if_neg hlt, if_neg hlt]
        by_cases hgt : b < a
        · rw [if_pos hgt, if_pos hgt]
          rfl
        · rw [if_neg hgt, if_neg hgt, ih]

/-! ## The traits of `Data` -/

namespace Data

/-- Look at the bytes of two buffers. -/
def compareWith {α : Type} (self other : Data) (f : List UInt8 → List UInt8 → α) : Ffi σ α := do
  let first ← self.asSlice
  let second ← other.asSlice
  let world := (← get).world
  return f (world.read first) (world.read second)

/-- `PartialEq::eq`. -/
def eq (self other : Data) : Ffi σ Bool :=
  self.compareWith other fun first second => decide (first = second)

/-- `PartialOrd::partial_cmp`. -/
def partialCmp (self other : Data) : Ffi σ (Option Ordering) :=
  self.compareWith other fun first second => some (sliceCmp first second)

/-- `Ord::cmp`. -/
def cmp (self other : Data) : Ffi σ Ordering := self.compareWith other sliceCmp

/-- `Hash::hash`. -/
def hash {η : Type} (self : Data) (hasher : Hasher η) (state : η) : Ffi σ η := do
  let slice ← self.asSlice
  return hasher.hashSlice ((← get).world.read slice) state

end Data

/-! ## In a session -/

theorem State.Valid.asSlice_eq {s : State σ} (h : s.Valid) {id : ValueId} {data : Data}
    (hdata : s.data? id = some data) :
    ∃ slice, data.asSlice s.machine = .ok (slice, s.machine) ∧
      s.meaning.items id = some (.data (s.machine.world.read slice)) := by
  obtain ⟨hvalue, ptr, hptr, hlive⟩ := h.live_data hdata
  obtain ⟨⟨_, size⟩⟩ := data
  cases hptr
  obtain ⟨slice, m, hrun, rfl, rfl⟩ := ensures_data_asSlice hlive
  refine ⟨_, hrun, ?_⟩
  simp only [State.meaning, hvalue, Option.map_some, Value.meaning, World.contents]

/-- In every state that a session reaches, two buffers compare and hash as their bytes do,
and comparing them does not change anything. -/
theorem data_compares_by_content (target : Target) (hlib : lib.Documented) (hconf : lib.Confined)
    (hidden : σ) (actions : List Action) :
    ∃ replies s, trace (act target lib) (State.boot hidden) actions = .ok (replies, s) ∧
      ∀ a b data data', s.data? a = some data → s.data? b = some data' →
        ∃ x y order, s.meaning.items a = some (.data x) ∧ s.meaning.items b = some (.data y) ∧
          data.cmp data' s.machine = .ok (order, s.machine) ∧
          data'.cmp data s.machine = .ok (order.swap, s.machine) ∧
          data.partialCmp data' s.machine = .ok (some order, s.machine) ∧
          data.eq data' s.machine = .ok (decide (x = y), s.machine) ∧
          (order = .lt ↔ x < y) ∧ (order = .eq ↔ x = y) ∧ (order = .gt ↔ y < x) ∧
          ∀ (η : Type) (hasher : Hasher η) (state : η),
            data.hash hasher state s.machine = .ok (hasher.hashSlice x state, s.machine) := by
  obtain ⟨replies, s, htrace, hvalid, -⟩ :=
    trace_implements target hlib hconf (State.valid_boot hidden) actions
  refine ⟨replies, s, htrace, fun a b data data' hdata hdata' => ?_⟩
  obtain ⟨first, hfirst, hitem⟩ := hvalid.asSlice_eq hdata
  obtain ⟨second, hsecond, hitem'⟩ := hvalid.asSlice_eq hdata'
  have hcompare : ∀ {α : Type} (f : List UInt8 → List UInt8 → α),
      data.compareWith data' f s.machine =
        .ok (f (s.machine.world.read first) (s.machine.world.read second), s.machine) := by
    intro α f
    simp only [Data.compareWith, Bind.bind, StateT.bind, Except.bind, hfirst, hsecond]
    rfl
  have hswapped : data'.cmp data s.machine =
      .ok (sliceCmp (s.machine.world.read second) (s.machine.world.read first), s.machine) := by
    simp only [Data.cmp, Data.compareWith, Bind.bind, StateT.bind, Except.bind, hfirst, hsecond]
    rfl
  have hswap := sliceCmp_swap (s.machine.world.read first) (s.machine.world.read second)
  refine ⟨_, _, _, hitem, hitem', hcompare sliceCmp, ?_, hcompare _, hcompare _,
    sliceCmp_eq_lt_iff _ _, sliceCmp_eq_eq_iff _ _, ?_, fun η hasher state => ?_⟩
  · rw [hswapped, hswap]
  · rw [← sliceCmp_eq_lt_iff, hswap]
    exact Ordering.swap_eq_lt.symm
  · simp only [Data.hash, Bind.bind, StateT.bind, Except.bind, hfirst]
    rfl

theorem data_compares_by_content_small :
    ∃ replies s, trace (act .release64 .small) (State.boot 0)
        [.call (.newBytes 100 4096 12), .call (.borrowedNew 2 2 .b8 .rgb ⟨0, 0, 12⟩),
          .call (.fromRgb 1 .b8 .yuv420), .call .encoderNew, .call (.encode 3 2),
          .call .encoderNew, .call (.encode 5 2), .write 6 0 1] = .ok (replies, s) ∧
      ∀ a b data data', s.data? a = some data → s.data? b = some data' →
        ∃ x y order, s.meaning.items a = some (.data x) ∧ s.meaning.items b = some (.data y) ∧
          data.cmp data' s.machine = .ok (order, s.machine) ∧
          data'.cmp data s.machine = .ok (order.swap, s.machine) ∧
          data.partialCmp data' s.machine = .ok (some order, s.machine) ∧
          data.eq data' s.machine = .ok (decide (x = y), s.machine) ∧
          (order = .lt ↔ x < y) ∧ (order = .eq ↔ x = y) ∧ (order = .gt ↔ y < x) ∧
          ∀ (η : Type) (hasher : Hasher η) (state : η),
            data.hash hasher state s.machine = .ok (hasher.hashSlice x state, s.machine) :=
  data_compares_by_content .release64 documented_small confined_small 0 _

end Favi

import Mathlib.Data.Fin.Basic
import Mathlib.Data.Nat.Basic
import Mathlib.Tactic.Ring

/-!
# Sizes in 32 bits, and tilings of a byte range

Two things every pixel layout needs.  `checkedMul` is the multiplication of 32-bit
words that fails instead of wrapping, with its two readings as facts about the exact
product.  `Tiles` says that equally long ranges cut a range `[0, total)` up without
gap or overlap; `Tiles.refine` cuts each piece of a tiling again, which gives the
layout of an array of any number of dimensions one dimension at a time.
-/

namespace Sizes

/-! ## Checked multiplication -/

/-- The product of two words, if it fits in a word. -/
def checkedMul (a b : UInt32) : Option UInt32 :=
  if a.toNat * b.toNat < 2 ^ 32 then some (a * b) else none

theorem toNat_mul_of_lt {a b : UInt32} (h : a.toNat * b.toNat < 2 ^ 32) :
    (a * b).toNat = a.toNat * b.toNat := by
  rw [UInt32.toNat_mul, Nat.mod_eq_of_lt h]

theorem checkedMul_eq_some {a b c : UInt32} (h : checkedMul a b = some c) :
    c.toNat = a.toNat * b.toNat ∧ a.toNat * b.toNat < 2 ^ 32 := by
  unfold checkedMul at h
  split at h
  · next hlt =>
    cases h
    exact ⟨toNat_mul_of_lt hlt, hlt⟩
  · cases h

theorem checkedMul_eq_none_iff {a b : UInt32} :
    checkedMul a b = none ↔ 2 ^ 32 ≤ a.toNat * b.toNat := by
  unfold checkedMul
  split <;> simp <;> omega

theorem checkedMul_of_lt {a b : UInt32} (h : a.toNat * b.toNat < 2 ^ 32) :
    checkedMul a b = some (a * b) :=
  if_pos h

/-! ## Tilings -/

variable {ι κ : Type*}

/-- The ranges `[start i, start i + size)` cut `[0, total)` up. -/
structure Tiles (start : ι → ℕ) (size total : ℕ) : Prop where
  fits : ∀ i, start i + size ≤ total
  covers : ∀ offset < total, ∃ i, start i ≤ offset ∧ offset < start i + size
  disjoint : ∀ i j offset, start i ≤ offset → offset < start i + size →
    start j ≤ offset → offset < start j + size → i = j

theorem Tiles.blocks (count size : ℕ) :
    Tiles (fun i : Fin count => i.val * size) size (count * size) where
  fits i := by
    calc i.val * size + size = (i.val + 1) * size := by ring
      _ ≤ count * size := Nat.mul_le_mul_right size i.isLt
  covers offset hlt := by
    have hsize : 0 < size := Nat.pos_of_mul_pos_left (Nat.zero_lt_of_lt hlt)
    refine ⟨⟨offset / size, Nat.div_lt_of_lt_mul (by rwa [Nat.mul_comm])⟩,
      Nat.div_mul_le_self offset size, ?_⟩
    have hmod := Nat.mod_lt offset hsize
    have hdiv := Nat.div_add_mod' offset size
    change offset < offset / size * size + size
    omega
  disjoint i j offset hi hi' hj hj' := by
    have hquot : ∀ n : ℕ, n * size ≤ offset → offset < n * size + size → offset / size = n := by
      intro n hn hn'
      refine Nat.div_eq_of_lt_le hn ?_
      calc offset < n * size + size := hn'
        _ = (n + 1) * size := by ring
    exact Fin.ext ((hquot i hi hi').symm.trans (hquot j hj hj'))

/-- Cutting every piece of a tiling in the same way gives a tiling. -/
theorem Tiles.refine {outer : ι → ℕ} {inner : κ → ℕ} {size piece total : ℕ}
    (houter : Tiles outer piece total) (hinner : Tiles inner size piece) :
    Tiles (fun p : ι × κ => outer p.1 + inner p.2) size total where
  fits p := by
    have := houter.fits p.1
    have := hinner.fits p.2
    omega
  covers offset hlt := by
    obtain ⟨i, hi, hi'⟩ := houter.covers offset hlt
    obtain ⟨j, hj, hj'⟩ := hinner.covers (offset - outer i) (by omega)
    exact ⟨(i, j), by simp only; omega, by simp only; omega⟩
  disjoint p q offset hp hp' hq hq' := by
    have hpfits := hinner.fits p.2
    have hqfits := hinner.fits q.2
    have hfirst : p.1 = q.1 :=
      houter.disjoint p.1 q.1 offset (by omega) (by omega) (by omega) (by omega)
    rw [hfirst] at hp hp'
    have hsecond : p.2 = q.2 :=
      hinner.disjoint p.2 q.2 (offset - outer q.1) (by omega) (by omega) (by omega) (by omega)
    exact Prod.ext hfirst hsecond

end Sizes

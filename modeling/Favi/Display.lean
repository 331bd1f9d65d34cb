import Favi.Bindings
import Favi.Error

/-!
# The messages of errors

`impl fmt::Display for Error`.  libavif has the text of a result code; the crate writes
the others itself, and from what it writes the error can be told, with the numbers it
carries (`Error.fmt_inj`).
-/

namespace Favi

open Text
open Xtask (lit lit_eq)

/-- A number as `write!` writes it. -/
def decimal (n : ℕ) : List Char := Nat.toDigits 10 n

/-- `Display::fmt`; `resultToStr` is `result_to_str`. -/
def Error.fmt (resultToStr : AvifResult → List Char) : Error → List Char
  | .code result => resultToStr result
  | .allocationFailed => lit "libavif failed to allocate memory"
  | .emptyOutput => lit "libavif reported success but produced no output data"
  | .invalidDepth depth =>
      lit "image bit depth of " ++
        (decimal depth.toNat ++ lit " is not supported; expected 8, 10, 12, or 16")
  | .bufferTooSmall required len =>
      lit "pixel buffer of " ++ (decimal len ++
        (lit " bytes is too small; " ++ (decimal required ++ lit " bytes are required")))
  | .misalignedBuffer required =>
      lit "pixel buffer is not " ++ (decimal required ++ lit "-byte aligned")
  | .sizeOverflow =>
      lit "required pixel buffer size for the declared image dimensions overflowed"

theorem decimal_injective : Function.Injective decimal := by
  intro n m h
  have hread := congrArg (fun digits => Nat.ofDigitChars 10 digits 0) h
  simpa only [decimal, Nat.ofDigitChars_ten_toDigits] using hread

theorem notMem_decimal {n : ℕ} {c : Char} (hc : c.isDigit = false) : c ∉ decimal n := by
  intro hmem
  rw [Nat.isDigit_of_mem_toDigits (by decide) (by decide) hmem] at hc
  cases hc

/-- A number is read up to the character after it. -/
theorem decimal_inj {n m : ℕ} {c : Char} (hc : c.isDigit = false) {rest rest' : List Char}
    (h : decimal n ++ c :: rest = decimal m ++ c :: rest') : n = m ∧ rest = rest' := by
  have hdigits : decimal n = decimal m :=
    eq_of_prefix_line (notMem_decimal hc) (notMem_decimal hc) ⟨[], (List.append_nil _).trans h⟩
  rw [hdigits, List.append_cancel_left_eq, List.cons.injEq] at h
  exact ⟨decimal_injective hdigits, h.2⟩

/-- How the message of an error of the crate begins. -/
def Error.head : Error → List Char
  | .code _ => []
  | .allocationFailed => lit "libavif failed"
  | .emptyOutput => lit "libavif reported"
  | .invalidDepth _ => lit "image bit depth of "
  | .bufferTooSmall .. => lit "pixel buffer of "
  | .misalignedBuffer _ => lit "pixel buffer is not "
  | .sizeOverflow => lit "required pixel buffer"

theorem Error.head_isPrefix_fmt (resultToStr : AvifResult → List Char) (e : Error) :
    e.head <+: e.fmt resultToStr := by
  cases e with
  | code result => exact List.nil_prefix
  | invalidDepth | bufferTooSmall | misalignedBuffer => exact List.prefix_append _ _
  | allocationFailed =>
      rw [Error.head, Error.fmt, lit_eq "libavif failed" rfl,
        lit_eq "libavif failed to allocate memory" rfl]
      decide
  | emptyOutput =>
      rw [Error.head, Error.fmt, lit_eq "libavif reported" rfl,
        lit_eq "libavif reported success but produced no output data" rfl]
      decide
  | sizeOverflow =>
      rw [Error.head, Error.fmt, lit_eq "required pixel buffer" rfl, lit_eq
        "required pixel buffer size for the declared image dimensions overflowed" rfl]
      decide

/-- Errors of different kinds begin differently. -/
theorem Error.ctorIdx_eq_of_head {e e' : Error} (h : ∀ result, e ≠ .code result)
    (h' : ∀ result, e' ≠ .code result) (hhead : e.head <+: e'.head) : e.ctorIdx = e'.ctorIdx := by
  cases e with
  | code result => exact absurd rfl (h result)
  | _ =>
      cases e' with
      | code result => exact absurd rfl (h' result)
      | _ =>
          first
          | rfl
          | simp only [Error.head, lit_eq "libavif failed" rfl, lit_eq "libavif reported" rfl,
              lit_eq "image bit depth of " rfl, lit_eq "pixel buffer of " rfl,
              lit_eq "pixel buffer is not " rfl, lit_eq "required pixel buffer" rfl] at hhead
            exact absurd hhead (by decide)

/-- The message of an error of the crate says which error it is. -/
theorem Error.fmt_inj {resultToStr : AvifResult → List Char} {e e' : Error}
    (h : ∀ result, e ≠ .code result) (h' : ∀ result, e' ≠ .code result)
    (heq : e.fmt resultToStr = e'.fmt resultToStr) : e = e' := by
  have hkind : e.ctorIdx = e'.ctorIdx := by
    have hstarts := e.head_isPrefix_fmt resultToStr
    rw [heq] at hstarts
    rcases List.prefix_or_prefix_of_prefix hstarts (e'.head_isPrefix_fmt resultToStr) with hle | hle
    · exact Error.ctorIdx_eq_of_head h h' hle
    · exact (Error.ctorIdx_eq_of_head h' h hle).symm
  cases e with
  | code result => exact absurd rfl (h result)
  | allocationFailed | emptyOutput | sizeOverflow =>
      cases e' with
      | allocationFailed | emptyOutput | sizeOverflow => first | rfl | cases hkind
      | _ => cases hkind
  | invalidDepth depth =>
      cases e' with
      | invalidDepth depth' =>
          have hend : lit " is not supported; expected 8, 10, 12, or 16" =
              ' ' :: lit "is not supported; expected 8, 10, 12, or 16" := by
            rw [lit_eq "is not supported; expected 8, 10, 12, or 16" rfl]
            exact lit_eq " is not supported; expected 8, 10, 12, or 16" rfl
          rw [Error.fmt, Error.fmt, List.append_cancel_left_eq, hend] at heq
          rw [UInt32.toNat_inj.mp (decimal_inj (by decide) heq).1]
      | _ => cases hkind
  | bufferTooSmall required len =>
      cases e' with
      | bufferTooSmall required' len' =>
          have hmiddle : lit " bytes is too small; " = ' ' :: lit "bytes is too small; " := by
            rw [lit_eq "bytes is too small; " rfl]
            exact lit_eq " bytes is too small; " rfl
          have hend : lit " bytes are required" = ' ' :: lit "bytes are required" := by
            rw [lit_eq "bytes are required" rfl]
            exact lit_eq " bytes are required" rfl
          rw [Error.fmt, Error.fmt, List.append_cancel_left_eq, hmiddle, hend, List.cons_append,
            List.cons_append] at heq
          obtain ⟨hlen, hrest⟩ := decimal_inj (by decide) heq
          rw [List.append_cancel_left_eq] at hrest
          rw [hlen, (decimal_inj (by decide) hrest).1]
      | _ => cases hkind
  | misalignedBuffer required =>
      cases e' with
      | misalignedBuffer required' =>
          have hend : lit "-byte aligned" = '-' :: lit "byte aligned" := by
            rw [lit_eq "byte aligned" rfl]
            exact lit_eq "-byte aligned" rfl
          rw [Error.fmt, Error.fmt, List.append_cancel_left_eq, hend] at heq
          rw [(decimal_inj (by decide) heq).1]
      | _ => cases hkind

end Favi

import Favi.Sys

/-!
# Errors

The error type of the crate and the check that turns a libavif result code into one.
-/

namespace Favi

/-- `Error`. The variants that the crate makes itself carry what it knows at that point: the
depth, the sizes or the alignment it refused. -/
inductive Error where
  | code (result : AvifResult)
  | allocationFailed
  | emptyOutput
  | invalidDepth (depth : UInt32)
  | bufferTooSmall (required len : ℕ)
  | misalignedBuffer (required : ℕ)
  | sizeOverflow
deriving DecidableEq, Repr

/-- `Result<T>`, with the crate's own error. -/
abbrev Result (α : Type) := Except Error α

/-- `avifResult::check`: every code but `AVIF_RESULT_OK` is an error. -/
def AvifResult.check (result : AvifResult) : Result Unit :=
  if result ≠ .ok then .error (.code result) else .ok ()

theorem AvifResult.check_ok : AvifResult.ok.check = .ok () := rfl

theorem AvifResult.check_of_ne {result : AvifResult} (h : result ≠ .ok) :
    result.check = .error (.code result) :=
  if_pos h

/-- libavif reported an error, and not success. -/
def CodeError (e : Error) : Prop := ∃ result, result ≠ .ok ∧ e = .code result

theorem AvifResult.codeError_of_check {result : AvifResult} {e : Error}
    (h : result.check = .error e) : CodeError e := by
  unfold AvifResult.check at h
  split at h
  · next hne =>
    cases h
    exact ⟨result, hne, rfl⟩
  · cases h

end Favi

import Favi.Execution
import Favi.Reference

/-!
# Ownership

In every state of every session, whatever libavif answers: each live wrapper points to
an object that is allocated, of the right type and its own; nothing has been freed
twice; and only the drop of the user's own buffer frees that buffer.  No call faults,
so nothing is used after it was freed and no slice is made of a null pointer.
`encode` and `finish` free the encoder once, whether they succeed or fail.

All of it follows from `exec_transition` and from `Transition.valid` by induction over
the session.
-/

namespace Favi

open Custody Program

variable {σ : Type} {target : Target} {lib : Libavif σ} {s s' : State σ} {c : Call}

/-! ## Every reachable state is valid -/

theorem exec_valid (target : Target) (hlib : lib.Documented) (hvalid : s.Valid) (c : Call) :
    ∃ reply s', exec target lib s c = .ok (reply, s') ∧ s'.Valid := by
  obtain ⟨reply, s', moves, hexec, htransition⟩ := exec_transition target hlib hvalid c
  exact ⟨reply, s', hexec, htransition.valid hvalid⟩

/-- No session faults, and every state a session reaches is valid. -/
theorem run_valid (target : Target) (hlib : lib.Documented) (hidden : σ) (calls : List Call) :
    ∃ s, run (exec target lib) (State.boot hidden) calls = .ok s ∧ s.Valid :=
  run_invariant (fun _ c hvalid => exec_valid target hlib hvalid c) calls (State.valid_boot hidden)

/-! ## What a state owns -/

/-- What the user may rely on in a state. -/
structure State.Owned (s : State σ) : Prop where
  /-- A live wrapper holds a non-null pointer to a live object of its type, unless it is
  a `BorrowedRgbImage`, which owns nothing. -/
  live : ∀ id value, s.values id = some value →
    (∃ handle object, value.holds = some (handle, object) ∧ s.ledger handle = .live object) ∨
      ∃ rgb lender, value = .borrowed rgb lender ∧ value.holds = none
  /-- No two wrappers own the same object. -/
  unique : ∀ first second value value' handle object object',
    s.values first = some value → value.holds = some (handle, object) →
    s.values second = some value' → value'.holds = some (handle, object') → first = second
  /-- The bytes of a `Data` can be read: it is not the null placeholder. -/
  data : ∀ id data, s.data? id = some data →
    ∃ ptr, data.raw.data = some ptr ∧ readable s.ledger ⟨ptr, data.raw.size⟩ = true
  /-- Nothing has been freed twice, and what has been freed is not allocated. -/
  freedOnce : s.machine.frees.Nodup ∧ ∀ handle ∈ s.machine.frees, s.ledger handle = .freed

theorem State.Valid.owned (h : s.Valid) : s.Owned where
  live id value hvalue := by
    rcases h.wellFormed.owns id value hvalue with ⟨handle, object, hholds⟩ | ⟨rgb, lender, rfl⟩
    · exact Or.inl ⟨handle, object, hholds, h.live_of_holds hvalue hholds⟩
    · exact Or.inr ⟨rgb, lender, rfl, rfl⟩
  unique first second value value' handle object object' hfirst hholds hsecond hholds' := by
    refine h.sound.unique first second handle object object' ?_ ?_
    · simp only [State.books, hfirst, Option.bind_some, hholds]
    · simp only [State.books, hsecond, Option.bind_some, hholds']
  data id data hdata := by
    obtain ⟨-, ptr, hptr, hlive⟩ := h.live_data hdata
    exact ⟨ptr, hptr, readable_of_within hlive (.refl _)⟩
  freedOnce := ⟨h.log.nodup, h.log.freed⟩

/-! ## What a call frees -/

/-- Only `drop`, `encode` and `finish` release anything: `drop` what the dropped value
owns, the other two the encoder. -/
theorem Transition.of_release_mem {moves : List (Move ValueId Handle Object)}
    (h : Transition lib s c moves s') {owner : ValueId} {handle : Handle} {object : Object}
    (hmem : .release owner handle object ∈ moves) :
    ∃ value, s.values owner = some value ∧ value.holds = some (handle, object) ∧
      (c = .drop owner ∨ ∃ encoder, value = .encoder encoder) := by
  have hconsumes : ∀ {gone tail releases}, Consumes s c gone tail releases →
      .release owner handle object ∈ releases →
      ∃ value, s.values owner = some value ∧ value.holds = some (handle, object) ∧
        (c = .drop owner ∨ ∃ encoder, value = .encoder encoder) := by
    intro gone tail releases hconsumes hrelease
    cases hconsumes with
    | nothing | view => cases hrelease
    | owner id value _ _ hvalue _ hholds hcall =>
        cases List.mem_singleton.mp hrelease
        exact ⟨value, hvalue, hholds, hcall⟩
  cases h with
  | quiet h => exact hconsumes h hmem
  | undone h | leaked h | made h =>
      rcases List.mem_cons.mp hmem with heq | hmem
      · cases heq
      · exact hconsumes h hmem
  | lent => cases hmem

/-- A buffer of the user's own stays allocated until the user drops it. -/
theorem Transition.caller_kept {moves : List (Move ValueId Handle Object)}
    (h : Transition lib s c moves s') (hvalid : s.Valid) {handle : Handle} {base size : ℕ}
    (hlive : s.ledger handle = .live (.buffer .caller base size))
    (hdrop : ∀ id slice, c = .drop id → s.values id = some (.bytes slice) →
      slice.ptr.block ≠ handle) :
    s'.ledger handle = .live (.buffer .caller base size) := by
  refine (h.moves_books hvalid).live hlive fun owner object hmem => ?_
  obtain ⟨value, hvalue, hholds, hcall⟩ := h.of_release_mem hmem
  -- hence what is released is an object of the user's own
  have hobject : object = .buffer .caller base size :=
    Cell.live.inj ((hvalid.live_of_holds hvalue hholds).symm.trans hlive)
  subst hobject
  -- only a byte buffer owns such an object, and only its drop releases it
  cases value with
  | image | borrowed | decoder | encoder => cases hholds
  | rgbImage | data => simp [Value.holds] at hholds
  | bytes slice =>
      rcases hcall with rfl | ⟨encoder, heq⟩
      · cases hholds
        exact hdrop owner slice rfl hvalue rfl
      · cases heq

theorem Machine.Steps.mem_frees {m m' : Machine σ} {events : List (Event Handle Object)}
    {handle : Handle} (h : m.Steps events m') (hmem : ∃ object, .free handle object ∈ events) :
    handle ∈ m'.frees := by
  obtain ⟨object, hmem⟩ := hmem
  rw [h.frees]
  exact List.mem_append_right _ (List.mem_filterMap.mpr ⟨_, hmem, rfl⟩)

/-- `encode` and `finish` free the encoder on every way out, and the user no longer has
it. -/
theorem freed_of_collect {program : Ffi σ (Result Data)} {id : ValueId} {encoder : Encoder}
    {reply : Reply} (hvalid : s.Valid) (hencoder : s.encoder? id = some encoder)
    (h : Ensures program s.machine (Made (fun data => (Value.data data).holds) False
      [.free encoder.raw .encoder] s.machine))
    (hexec : (s.erase id).make program .data = .ok (reply, s')) :
    encoder.raw ∈ s'.machine.frees ∧ s'.values id = none := by
  have hlt := hvalid.wellFormed.lt_next (hvalid.live_encoder hencoder).1
  have hgone : (s.erase id).values id = none := Function.update_self ..
  obtain ⟨result, m, hprogram, hmade⟩ := h
  unfold State.make at hexec
  rw [show (s.erase id).machine = s.machine from rfl, hprogram] at hexec
  cases result with
  | ok data =>
      cases hexec
      obtain ⟨-, handle, object, -, hsteps⟩ := hmade
      refine ⟨hsteps.mem_frees ⟨.encoder, by simp⟩, ?_⟩
      exact (((s.erase id).withMachine m).push_values_of_ne _ hlt.ne).trans hgone
  | error e =>
      cases hexec
      refine ⟨?_, hgone⟩
      rcases hmade with ⟨-, hsteps | ⟨handle, object, hsteps⟩⟩ | ⟨hfalse, -⟩
      · exact hsteps.mem_frees ⟨.encoder, by simp⟩
      · exact hsteps.mem_frees ⟨.encoder, by simp⟩
      · exact hfalse.elim

def Call.Collects (id : ValueId) (c : Call) : Prop :=
  c = .finish id ∨ ∃ image, c = .encode id image

theorem freed_of_collects (hlib : lib.Documented) (hvalid : s.Valid) {id : ValueId}
    {encoder : Encoder} {reply : Reply} (hcall : c.Collects id)
    (hencoder : s.encoder? id = some encoder) (hreply : reply ≠ .rejected)
    (hexec : exec target lib s c = .ok (reply, s')) :
    encoder.raw ∈ s'.machine.frees ∧ s'.values id = none := by
  have hlive := (hvalid.live_encoder hencoder).2
  rcases hcall with rfl | ⟨image, rfl⟩
  · simp only [exec, hencoder, Option.elim_some] at hexec
    exact freed_of_collect hvalid hencoder (ensures_finish hlib hlive) hexec
  · simp only [exec, hencoder, Option.elim_some] at hexec
    cases himage : s.image? image with
    | none =>
        rw [himage] at hexec
        cases hexec
        exact absurd rfl hreply
    | some i =>
        rw [himage] at hexec
        exact freed_of_collect hvalid hencoder
          (ensures_encode hlib hlive (hvalid.live_image himage).2) hexec

/-! ## Sessions -/

/-- What the user may rely on in a call. -/
structure OwnedStep (s : State σ) (c : Call) (reply : Reply) (s' : State σ) : Prop where
  /-- A buffer of the user's own stays allocated, unless the call is its own drop. -/
  caller : ∀ handle base size, s.ledger handle = .live (.buffer .caller base size) →
    (∀ id slice, c = .drop id → s.values id = some (.bytes slice) → slice.ptr.block ≠ handle) →
    s'.ledger handle = .live (.buffer .caller base size)
  /-- `encode` and `finish` free the encoder exactly once, with `Ok` and with `Err`. -/
  encoder : ∀ id encoder, c.Collects id → s.encoder? id = some encoder → reply ≠ .rejected →
    s.machine.frees.count encoder.raw = 0 ∧ s'.machine.frees.count encoder.raw = 1 ∧
      s'.values id = none

/-- Every session, under every pattern of answers of libavif: no call faults, every
state it reaches keeps ownership, and so does every call made in that state. -/
theorem ownership_of_run (target : Target) (hlib : lib.Documented) (hidden : σ)
    (calls : List Call) :
    ∃ s, run (exec target lib) (State.boot hidden) calls = .ok s ∧ s.Owned ∧
      ∀ c, ∃ reply s', exec target lib s c = .ok (reply, s') ∧ OwnedStep s c reply s' := by
  obtain ⟨s, hrun, hvalid⟩ := run_valid target hlib hidden calls
  refine ⟨s, hrun, hvalid.owned, fun c => ?_⟩
  obtain ⟨reply, s', moves, hexec, htransition⟩ := exec_transition target hlib hvalid c
  have hvalid' := htransition.valid hvalid
  refine ⟨reply, s', hexec, fun handle base size hlive hdrop => ?_, ?_⟩
  · exact htransition.caller_kept hvalid hlive hdrop
  · intro id encoder hcall hencoder hreply
    obtain ⟨hmem, hgone⟩ := freed_of_collects hlib hvalid hcall hencoder hreply hexec
    -- before the call the encoder is allocated, so it has not been freed
    refine ⟨List.count_eq_zero_of_not_mem fun hfreed => ?_,
      List.count_eq_one_of_mem hvalid'.log.nodup hmem, hgone⟩
    have hlive := (hvalid.live_encoder hencoder).2
    rw [hvalid.log.freed _ hfreed] at hlive
    cases hlive

theorem ownership_of_run_small :
    ∃ s, run (exec .release64 .small) (State.boot 0)
        [.newBytes 100 4096 12, .borrowedNew 2 2 .b8 .rgb ⟨0, 0, 12⟩, .fromRgb 1 .b8 .yuv420,
          .encoderNew, .encode 3 2, .asSlice 4] = .ok s ∧ s.Owned ∧
      ∀ c, ∃ reply s', exec .release64 .small s c = .ok (reply, s') ∧ OwnedStep s c reply s' :=
  ownership_of_run .release64 documented_small 0
    [.newBytes 100 4096 12, .borrowedNew 2 2 .b8 .rgb ⟨0, 0, 12⟩, .fromRgb 1 .b8 .yuv420,
      .encoderNew, .encode 3 2, .asSlice 4]

end Favi

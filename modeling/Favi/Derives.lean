import Favi.Declarations

/-!
# The derives of the bindings

bindgen asks `addDerives` for the derives of a named type beyond its own; the answer is
that of a table, `allowlist`.  It never asks for an anonymous type, so the pass writes
those of an enum itself: a tidied newtype has the attribute of a named one
(`attribute_named_enum`).

A derive does not compile without its supertraits.  Each list has them, with what bindgen
derives for an enum anyway (`supertraits_derived`).
-/

namespace Favi.Xtask

open Text

/-- `DATA`. -/
def data : List Str :=
  [lit "Copy", lit "Clone", lit "Hash", lit "PartialOrd", lit "Ord", lit "PartialEq", lit "Eq"]

/-- `FLOAT_DATA`. -/
def floatData : List Str := [lit "Copy", lit "Clone", lit "PartialOrd", lit "PartialEq"]

/-- `ENUM`. -/
def enum : List Str := [lit "Copy", lit "PartialOrd", lit "Ord"]

/-- `ALLOWLIST`. -/
def allowlist : List (Str × List Str) :=
  [(lit "avifPlanesFlag", enum),
    (lit "avifChannelIndex", enum),
    (lit "avifResult", enum),
    (lit "avifHeaderFormat", enum),
    (lit "avifPixelFormat", enum),
    (lit "avifChromaSamplePosition", enum),
    (lit "avifRange", enum),
    (lit "avifTransformFlag", enum),
    (lit "avifSampleTransformRecipe", enum),
    (lit "avifRGBFormat", enum),
    (lit "avifChromaUpsampling", enum),
    (lit "avifChromaDownsampling", enum),
    (lit "avifCodecChoice", enum),
    (lit "avifCodecFlag", enum),
    (lit "avifStrictFlag", enum),
    (lit "avifDecoderSource", enum),
    (lit "avifProgressiveState", enum),
    (lit "avifImageContentTypeFlag", enum),
    (lit "avifAddImageFlag", enum),
    (lit "avifPixelFormatInfo", data),
    (lit "avifDiagnostics", data),
    (lit "avifFraction", data),
    (lit "avifSignedFraction", data),
    (lit "avifUnsignedFraction", data),
    (lit "avifPixelAspectRatioBox", data),
    (lit "avifCleanApertureBox", data),
    (lit "avifImageRotation", data),
    (lit "avifImageMirror", data),
    (lit "avifCropRect", data),
    (lit "avifContentLightLevelInformationBox", data),
    (lit "avifIOStats", data),
    (lit "avifExtent", data),
    (lit "avifScalingMode", data),
    (lit "avifImageTiming", floatData)]

/-- `DeriveAllowlist::add_derives`. -/
def addDerives (name : Str) : List Str :=
  ((allowlist.find? fun entry => entry.1 == name).map Prod.snd).getD []

/-- No type stands on the list twice, so it does not matter where on the list it stands. -/
theorem addDerives_eq_of_mem {name : Str} {derives : List Str} (h : (name, derives) ∈ allowlist) :
    addDerives name = derives := by
  have hnodup : (allowlist.map Prod.fst).Nodup := by decide +kernel
  have hfound : (allowlist.find? fun entry => entry.1 == name).isSome :=
    List.find?_isSome.mpr ⟨_, h, beq_self_eq_true name⟩
  obtain ⟨entry, hentry⟩ := Option.isSome_iff_exists.mp hfound
  have hmatch : (entry.1 == name) = true :=
    List.find?_some (p := fun entry : Str × List Str => entry.1 == name) hentry
  have hsame : entry = (name, derives) :=
    List.inj_on_of_nodup_map hnodup (List.mem_of_find?_eq_some hentry) h
      (beq_iff_eq.mp hmatch)
  rw [addDerives, hentry, hsame, Option.map_some, Option.getD_some]

theorem addDerives_eq_nil {name : Str} (h : ∀ derives, (name, derives) ∉ allowlist) :
    addDerives name = [] := by
  have hnone : allowlist.find? (fun entry => entry.1 == name) = none := by
    refine List.find?_eq_none.mpr fun entry hmem heq => h entry.2 ?_
    rwa [← beq_iff_eq.mp heq]
  rw [addDerives, hnone, Option.map_none, Option.getD_none]

/-! ## Supertraits -/

/-- The traits that a derived trait builds on. -/
def supertraits (trait : Str) : List Str :=
  if trait = lit "Copy" then [lit "Clone"]
  else if trait = lit "Eq" then [lit "PartialEq"]
  else if trait = lit "PartialOrd" then [lit "PartialEq"]
  else if trait = lit "Ord" then [lit "Eq", lit "PartialOrd"]
  else []

/-- What bindgen derives for a newtype enum without being asked. -/
def newtypeDerives : List Str :=
  [lit "Debug", lit "Clone", lit "Hash", lit "PartialEq", lit "Eq"]

/-- Whatever bindgen asks for, the derives come with their supertraits. -/
theorem supertraits_derived (name : Str) {trait super : Str} (htrait : trait ∈ addDerives name)
    (hsuper : super ∈ supertraits trait) :
    super ∈ addDerives name ∨ addDerives name = enum ∧ super ∈ newtypeDerives := by
  have hlists : ∀ derives ∈ [data, floatData, enum], ∀ trait ∈ derives,
      ∀ super ∈ supertraits trait, super ∈ derives ∨ derives = enum ∧ super ∈ newtypeDerives := by
    decide +kernel
  have hlisted : ∀ entry ∈ allowlist, entry.2 ∈ [data, floatData, enum] := by decide +kernel
  by_cases hname : ∃ derives, (name, derives) ∈ allowlist
  · obtain ⟨derives, hmem⟩ := hname
    rw [addDerives_eq_of_mem hmem] at htrait ⊢
    exact hlists derives (hlisted _ hmem) trait htrait super hsuper
  · rw [addDerives_eq_nil (not_exists.mp hname)] at htrait
    cases htrait

/-! ## The attribute of a tidied newtype -/

/-- The attribute that bindgen writes for a list of derives. -/
def deriveAttribute (traits : List Str) : Str :=
  lit "#[derive(" ++ ((traits.intersperse (lit ", ")).flatten ++ lit ")]")

/-- Before the pass a newtype has the attribute that bindgen writes for any enum. -/
theorem attribute_anonymous_enum : deriveAttribute newtypeDerives = deriveLine := by
  decide +kernel

/-- After it, the attribute of a named enum on the list. -/
theorem attribute_named_enum {name : Str} (h : (name, enum) ∈ allowlist) :
    deriveAttribute (newtypeDerives ++ addDerives name) = tidiedDeriveLine := by
  have hattribute : deriveAttribute (newtypeDerives ++ enum) = tidiedDeriveLine := by
    decide +kernel
  rw [addDerives_eq_of_mem h, hattribute]

end Favi.Xtask

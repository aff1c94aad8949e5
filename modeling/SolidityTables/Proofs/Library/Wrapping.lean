import SolidityTables.Proofs.Library.Expression
import SolidityTables.Proofs.Library.Resolution

/-!
# Wrapped types

A field of an enum or a user type has the code of the ABI type in which its values are stored: they
are unwrapped before they are converted, and wrapped when they have been read.
-/

namespace SolidityTables

open Attempt

namespace Field

/-- A field whose expressions convert values of an ABI type, as its own type unwraps and wraps
them. -/
structure Converts (f : Field) (t : SchemaType) : Prop where
  encoded : ∀ e, f.encoded e = t.packed (f.unwrapped e)
  keyWord : ∀ b, t = .static b → ∀ e, f.keyWord? e = some (b.word (f.unwrapped e))
  decodedStatic : ∀ b, t = .static b → ∀ e, f.decodedStatic e = f.wrapped (b.leading e)
  decodedDynamic : t.isDynamic = true →
    ∀ e, f.decodedDynamic e = f.wrapped (t.unpacked f.elementName e)

structure Plain (f : Field) : Prop where
  unwrapped : ∀ e, f.unwrapped e = e
  wrapped : ∀ e, f.wrapped e = e

/-- The expressions of a field are those of a plain one on the values that are stored. -/
structure Wraps (f p : Field) : Prop where
  plain : p.Plain
  encoded : ∀ e, f.encoded e = p.encoded (f.unwrapped e)
  byteSize : ∀ e, f.byteSize e = p.byteSize (f.unwrapped e)
  elementLength : f.elementLength = p.elementLength
  keyWord : p.isDynamic = false →
    ∀ e, ∃ word, f.keyWord? e = some word ∧ p.keyWord? (f.unwrapped e) = some word
  decodedStatic : p.isDynamic = false → ∀ e, f.decodedStatic e = f.wrapped (p.decodedStatic e)
  decodedDynamic : p.isDynamic = true → ∀ e, f.decodedDynamic e = f.wrapped (p.decodedDynamic e)

variable {f p : Field} {t : SchemaType}

theorem converts_of (hinternal : f.internal = t.name) (hdynamic : f.isDynamic = t.isDynamic)
    (hlength : f.byteLength = t.byteLength) : f.Converts t := by
  constructor
  case encoded => exact TypeSpelling.encoded_eq hinternal hdynamic
  case keyWord =>
    rintro b rfl
    exact TypeSpelling.keyWord?_eq hinternal
  case decodedStatic =>
    rintro b rfl
    exact TypeSpelling.decodedStatic_eq hinternal hlength
  case decodedDynamic => exact fun h => decodedDynamic_eq hinternal h

theorem Converts.wraps (hf : f.Converts t) (hp : p.Converts t) (hplain : p.Plain)
    (hdynamic : p.isDynamic = t.isDynamic) (hinternal : f.internal = p.internal)
    (helement : f.element = p.element) : f.Wraps p := by
  have hstatic (h : p.isDynamic = false) : ∃ b, t = .static b :=
    SchemaType.exists_static (hdynamic.symm.trans h)
  -- Both sides are brought to the expression of the ABI type.
  constructor
  case plain => exact hplain
  case encoded =>
    intro e
    rw [hf.encoded, hp.encoded, hplain.unwrapped]
  case byteSize =>
    intro e
    rw [Field.byteSize, Field.byteSize, hplain.unwrapped, helement]
  case elementLength => rw [Field.elementLength, Field.elementLength, helement]
  case keyWord =>
    intro h e
    obtain ⟨b, hb⟩ := hstatic h
    refine ⟨_, hf.keyWord b hb e, ?_⟩
    rw [hp.keyWord b hb, hplain.unwrapped]
  case decodedStatic =>
    intro h e
    obtain ⟨b, hb⟩ := hstatic h
    rw [hf.decodedStatic b hb, hp.decodedStatic b hb, hplain.wrapped]
  case decodedDynamic =>
    intro h e
    have hname : f.elementName = p.elementName := by
      rw [elementName, elementName, helement, hinternal]
    rw [hdynamic] at h
    rw [hf.decodedDynamic h, hp.decodedDynamic h, hplain.wrapped, hname]

end Field

/-- A field of any type that can be resolved has the code of a plain field of the ABI type in which
its values are stored. -/
theorem Scope.spelling_wraps (s : Scope) (name : String) (t : SchemaType) (r : TypeSpelling)
    (h : s.spelling name = .ok (t, r)) : ∃ plain, TypeSpelling.ofAbiName t.name = .ok plain ∧
      plain.isDynamic = t.isDynamic ∧ ∀ field element,
        Field.Converts ⟨plain, field, element⟩ t ∧
        Field.Wraps ⟨r, field, element⟩ ⟨plain, field, element⟩ := by
  rw [spelling_eq, map_eq_ok] at h
  obtain ⟨n, -, hn⟩ := h
  obtain ⟨rfl, rfl⟩ := Prod.mk.inj hn
  refine ⟨_, TypeSpelling.ofAbiName_name n.base, rfl, fun field element => ?_⟩
  have hstored := TypeSpelling.ofNamed_storedLike name n
  have hplain : Field.Converts ⟨.ofAbi n.base, field, element⟩ n.base :=
    Field.converts_of rfl rfl rfl
  have hnamed : Field.Converts ⟨.ofNamed name n, field, element⟩ n.base :=
    Field.converts_of hstored.internal hstored.isDynamic hstored.byteLength
  exact ⟨hplain, hnamed.wraps hplain ⟨fun _ => rfl, fun _ => rfl⟩ rfl hstored.internal rfl⟩

theorem spelling_wraps_rank : ∃ r, itemStore.scope.spelling "Rank" = .ok (.uint8, r) ∧
    r.keyWord? "rank" = some "bytes32(uint256(uint8(rank)))" ∧
    r.decodedStatic "_blob" = "Rank(uint8(bytes1(_blob)))" := by
  have hrank : itemStore.scope.spelling "Rank" = .ok (.uint8, .ofEnum "Rank") := by decide +kernel
  obtain ⟨plain, -, hstatic, hfields⟩ := Scope.spelling_wraps itemStore.scope "Rank" _ _ hrank
  obtain ⟨hplain, hwraps⟩ := hfields "rank" none
  refine ⟨_, hrank, ?_, ?_⟩
  · obtain ⟨word, hword, hstored⟩ := hwraps.keyWord hstatic "rank"
    rw [hplain.keyWord _ rfl, hwraps.plain.unwrapped] at hstored
    rw [hword, ← hstored]
    decide +kernel
  · rw [hwraps.decodedStatic hstatic, hplain.decodedStatic _ rfl, hwraps.plain.wrapped]
    decide +kernel

end SolidityTables

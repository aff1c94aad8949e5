import SolidityTables.Proofs.Config.Forms
import SolidityTables.Proofs.Library.Planning

/-!
# Names of enums and user types

The grammar of identifiers, beside the function that recognizes them. A name may be that of an enum
or a user type just if it is no ABI type and is an identifier, or one with a line feed after it.
-/

namespace SolidityTables

open Attempt

namespace Identifier

def First (c : Char) : Prop :=
  ('A' ≤ c ∧ c ≤ 'Z') ∨ ('a' ≤ c ∧ c ≤ 'z') ∨ c = '_' ∨ c = '$'

def Digit (c : Char) : Prop := '0' ≤ c ∧ c ≤ '9'

/-- The characters of an identifier. -/
inductive Spells : List Char → Prop
  | first {c : Char} (h : First c) : Spells [c]
  | append {cs : List Char} {c : Char} (h : Spells cs) (hc : First c ∨ Digit c) :
    Spells (cs ++ [c])

variable {c : Char} {cs : List Char} {s : String}

theorem isStart_iff : isStart c = true ↔ First c := by
  have halpha : c.isAlpha = (c.isUpper || c.isLower) := rfl
  have hupper : c.isUpper = true ↔ 'A' ≤ c ∧ c ≤ 'Z' := decide_eq_true_iff
  have hlower : c.isLower = (decide ('a' ≤ c) && decide (c ≤ 'z')) := rfl
  simp only [isStart, First, halpha, hupper, hlower, Bool.or_eq_true, Bool.and_eq_true,
    decide_eq_true_eq, or_assoc]

theorem isPart_iff : isPart c = true ↔ First c ∨ Digit c := by
  simp only [isPart, Bool.or_eq_true, isStart_iff, Char.isDigit, Bool.and_eq_true,
    decide_eq_true_eq]
  rfl

theorem spells_iff : Spells cs ↔ ∃ c rest, cs = c :: rest ∧ isStart c = true ∧
    rest.all isPart = true := by
  constructor
  · intro h
    induction h with
    | @first c h => exact ⟨c, [], rfl, isStart_iff.mpr h, rfl⟩
    | @append _ c _ hc ih =>
      obtain ⟨first, rest, rfl, hfirst, hrest⟩ := ih
      refine ⟨first, rest ++ [c], rfl, hfirst, ?_⟩
      rw [List.all_append, hrest, List.all_cons, isPart_iff.mpr hc]
      rfl
  · intro hh
    obtain ⟨c, rest, rfl, hc, hrest⟩ := hh
    induction rest using List.reverseRecOn with
    | nil => exact .first (isStart_iff.mp hc)
    | append_singleton rest last ih =>
      rw [List.all_append, Bool.and_eq_true, List.all_cons, Bool.and_eq_true] at hrest
      exact (ih hrest.1).append (isPart_iff.mp hrest.2.1)

theorem Spells.getLast_ne (h : Spells cs) : cs.getLast? ≠ some '\n' := by
  have hfeed : ¬(First '\n' ∨ Digit '\n') := by
    rw [← isPart_iff]
    decide
  cases h with
  | first h =>
    rintro ⟨⟩
    exact hfeed (.inl h)
  | append _ hc =>
    rw [List.getLast?_concat]
    rintro ⟨⟩
    exact hfeed hc

theorem isIdentifier_iff : isIdentifier s = true ↔ ∃ stem : String, Spells stem.toList ∧
    (s = stem ∨ s = stem ++ "\n") := by
  have hmatch : isIdentifier s = true ↔ Spells (withoutFinalNewline s.toList) := by
    rw [spells_iff, isIdentifier]
    cases withoutFinalNewline s.toList with
    | nil => simp
    | cons c rest => simp
  rw [hmatch, withoutFinalNewline]
  constructor
  · intro h
    refine ⟨String.ofList _, by rwa [String.toList_ofList], ?_⟩
    split
    next hlast =>
      right
      rw [← String.toList_inj, String.toList_append, String.toList_ofList]
      exact (List.dropLast_append_getLast? _ hlast).symm
    next => exact .inl String.ofList_toList.symm
  · intro hh
    obtain ⟨stem, hstem, rfl | rfl⟩ := hh
    · rwa [if_neg hstem.getLast_ne]
    · have hfeed : (stem ++ "\n").toList = stem.toList ++ ['\n'] := String.toList_append
      rwa [hfeed, List.getLast?_concat, if_pos rfl, List.dropLast_concat]

end Identifier

/-- A name that is no ABI type and an identifier, but for a line feed that may follow it. -/
structure IsTypeName (name : String) : Prop where
  notAbi : ∀ t : SchemaType, t.name ≠ name
  spelled : ∃ stem : String, Identifier.Spells stem.toList ∧ (name = stem ∨ name = stem ++ "\n")

theorem isTypeName_iff_spelled {name : String} :
    StoreDeclaration.isTypeName name = true ↔ IsTypeName name := by
  rw [StoreDeclaration.isTypeName_iff, Identifier.isIdentifier_iff]
  exact ⟨fun hh => ⟨hh.1, hh.2⟩, fun h => ⟨h.notAbi, h.spelled⟩⟩

theorem IsTypeName.spells_iff {name : String} (h : IsTypeName name) :
    Identifier.Spells name.toList ↔ name.toList.getLast? ≠ some '\n' := by
  refine ⟨Identifier.Spells.getLast_ne, fun hlast => ?_⟩
  obtain ⟨stem, hstem, rfl | rfl⟩ := h.spelled
  · exact hstem
  · have hfeed : (stem ++ "\n").toList = stem.toList ++ ['\n'] := String.toList_append
    rw [hfeed, List.getLast?_concat] at hlast
    exact absurd rfl hlast

theorem Store.Accepted.names {s : Store} (hs : s.Accepted) :
    (∀ n ∈ s.enums.map (·.1), n ∉ s.userTypes.map (·.1)) ∧
      ∀ n ∈ s.enums.map (·.1) ++ s.userTypes.map (·.1), IsTypeName n := by
  obtain ⟨d, -, hd⟩ := hs.declared
  obtain ⟨-, hcheck⟩ := StoreDeclaration.namesSound_iff.mp hd.names
  obtain ⟨hdisjoint, htypes⟩ := StoreDeclaration.checkNames_eq_ok.mp hcheck
  rw [hd.enums, hd.userTypes]
  exact ⟨hdisjoint, fun n hn => isTypeName_iff_spelled.mp (htypes n hn)⟩

section Define

variable {name : String}

theorem StoreDeclaration.define_of_single {ms : Json.Members} {d : StoreDeclaration}
    (hread : StoreDeclaration.shape.members ms = .value d) (hspace : d.space = "")
    (htables : d.tables = []) (htypes : d.typeNames = [name]) (h : IsTypeName name) :
    ∃ s, Store.define ms = .ok s ∧ d.Defines s := by
  have hnames : d.NamesSound := by
    refine namesSound_iff.mpr ⟨?_, checkNames_eq_ok.mpr ⟨fun n hn huser => ?_, ?_⟩⟩
    · rw [hspace]
      rfl
    · rcases List.append_eq_singleton_iff.mp htypes with ⟨hnone, -⟩ | ⟨-, hnone⟩
      · rw [hnone] at hn
        cases hn
      · rw [hnone] at huser
        cases huser
    · rw [htypes, List.forall_mem_singleton]
      exact isTypeName_iff_spelled.mpr h
  have hsound : d.Sound := ⟨hnames, htables ▸ List.forall_mem_nil _⟩
  obtain ⟨s, hs⟩ := define_isOk.mpr hsound
  exact ⟨s, Store.define_eq_ok_iff.mpr ⟨d, hread, hs⟩, defines_of_define hs⟩

def oneEnum (name : String) : Json.Members :=
  [("enums", .obj [(name, .arr [.str "Only"])])]

def oneUserType (name : String) : Json.Members :=
  [("userTypes", .obj [(name, .obj [("type", .str "uint8")])])]

theorem define_oneEnum (h : IsTypeName name) :
    ∃ s, Store.define (oneEnum name) = .ok s ∧ name ∈ s.enums.map (·.1) := by
  have hread : StoreDeclaration.shape.members (oneEnum name) = .value
    ⟨"", [], [], [(name, ["Only"])],
      ⟨"@latticexyz/store/src/", "common.sol", "codegen", "index.sol"⟩⟩ := rfl
  obtain ⟨s, hs, hd⟩ := StoreDeclaration.define_of_single hread rfl rfl rfl h
  refine ⟨s, hs, ?_⟩
  rw [hd.enums]
  exact List.mem_singleton_self name

theorem define_oneUserType (h : IsTypeName name) :
    ∃ s, Store.define (oneUserType name) = .ok s ∧ name ∈ s.userTypes.map (·.1) := by
  have hread : StoreDeclaration.shape.members (oneUserType name) = .value
    ⟨"", [], [(name, ⟨.uint8, ""⟩)], [],
      ⟨"@latticexyz/store/src/", "common.sol", "codegen", "index.sol"⟩⟩ := rfl
  obtain ⟨s, hs, hd⟩ := StoreDeclaration.define_of_single hread rfl rfl rfl h
  refine ⟨s, hs, ?_⟩
  rw [hd.userTypes]
  exact List.mem_singleton_self name

end Define

theorem isTypeName_iff_accepted {name : String} :
    ((∃ s : Store, s.Accepted ∧ name ∈ s.enums.map (·.1)) ↔ IsTypeName name) ∧
      ((∃ s : Store, s.Accepted ∧ name ∈ s.userTypes.map (·.1)) ↔ IsTypeName name) := by
  refine ⟨⟨fun hh => ?_, fun h => ?_⟩, ⟨fun hh => ?_, fun h => ?_⟩⟩
  · obtain ⟨s, hs, hn⟩ := hh
    exact hs.names.2 name (List.mem_append_left _ hn)
  · obtain ⟨s, hs, hn⟩ := define_oneEnum h
    exact ⟨s, .store (by simp [oneEnum]) hs, hn⟩
  · obtain ⟨s, hs, hn⟩ := hh
    exact hs.names.2 name (List.mem_append_right _ hn)
  · obtain ⟨s, hs, hn⟩ := define_oneUserType h
    exact ⟨s, .store (by simp [oneUserType]) hs, hn⟩

/-- No name is that of both an enum and a user type, and every name of either kind is no ABI type
and an identifier, but for a line feed that may follow it. So all of them are identifiers just if
none ends in a line feed. Each such name is that of an enum, and of a user type, of some store. -/
theorem Store.accepted_typeNames {s : Store} (hs : s.Accepted) :
    (∀ n ∈ s.enums.map (·.1), n ∉ s.userTypes.map (·.1)) ∧
    (∀ n ∈ s.enums.map (·.1) ++ s.userTypes.map (·.1), (∀ t : SchemaType, t.name ≠ n) ∧
      ∃ stem : String, Identifier.Spells stem.toList ∧ (n = stem ∨ n = stem ++ "\n")) ∧
    ((∀ n ∈ s.enums.map (·.1) ++ s.userTypes.map (·.1), Identifier.Spells n.toList) ↔
      ∀ n ∈ s.enums.map (·.1) ++ s.userTypes.map (·.1), n.toList.getLast? ≠ some '\n') ∧
    ∀ name : String,
      ((∃ s : Store, s.Accepted ∧ name ∈ s.enums.map (·.1)) ↔ IsTypeName name) ∧
      ((∃ s : Store, s.Accepted ∧ name ∈ s.userTypes.map (·.1)) ↔ IsTypeName name) := by
  obtain ⟨hdisjoint, hnames⟩ := hs.names
  exact ⟨hdisjoint, fun n hn => ⟨(hnames n hn).notAbi, (hnames n hn).spelled⟩,
    forall₂_congr fun n hn => (hnames n hn).spells_iff, fun _ => isTypeName_iff_accepted⟩

theorem accepted_typeNames_items : itemStore.Accepted ∧
    (∀ n ∈ itemStore.enums.map (·.1), n ∉ itemStore.userTypes.map (·.1)) ∧
    (∀ t : SchemaType, t.name ≠ "Rank") ∧ Identifier.Spells "Rank".toList ∧
    Identifier.Spells "Id".toList := by
  obtain ⟨hdisjoint, hnames, hspells, -⟩ := Store.accepted_typeNames itemStore_accepted
  have hall := hspells.mpr (by decide)
  exact ⟨itemStore_accepted, hdisjoint, (hnames "Rank" (by decide)).1, hall "Rank" (by decide),
    hall "Id" (by decide)⟩

/-- An enum whose name ends in a line feed is let through, though the name is no identifier. -/
theorem lineFeed_accepted : (Json.obj (oneEnum "Rank\n")).WellFormed ∧
    (∃ s, Store.define (oneEnum "Rank\n") = .ok s ∧ "Rank\n" ∈ s.enums.map (·.1)) ∧
    ¬Identifier.Spells "Rank\n".toList := by
  have hdefine : Store.define (oneEnum "Rank\n") = .ok ⟨"", [], [], [("Rank\n", ["Only"])],
      ⟨"@latticexyz/store/src/", "common.sol", "codegen", "index.sol"⟩⟩ := by decide +kernel
  exact ⟨by simp [oneEnum], ⟨_, hdefine, List.mem_singleton_self _⟩, fun h => h.getLast_ne rfl⟩

end SolidityTables

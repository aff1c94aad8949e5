import SolidityTables.Proofs.Config.Definition
import SolidityTables.Proofs.Config.Reading

/-!
# Which configurations define a store

The members of a configuration present a declaration if their keys are options, no table names its
own label or namespace, and the whole has the shape of a declaration. They define a store just if
the declaration that they present is sound.
-/

namespace SolidityTables

open Attempt

theorem OptionKey.checkKeys_eq_ok {kind : ConfigKind} {ms : Json.Members} :
    checkKeys kind ms = .ok () ↔ ∀ m ∈ ms, isAccepted kind m.1 = true := by
  unfold checkKeys
  cases hfind : ms.find? fun m => !isAccepted kind m.1 with
  | none =>
    have hall := List.find?_eq_none.mp hfind
    simp only [true_iff]
    intro m hm
    simpa using hall m hm
  | some m =>
    have hbad := List.find?_some hfind
    simp only [reduceCtorEq, false_iff]
    intro hall
    simp [hall m (List.mem_of_find?_eq_some hfind)] at hbad

theorem hasOverride_eq_false {j : Json} : hasOverride j = false ↔
    ∀ fields, j = .obj fields → ∀ f ∈ fields, f.1 ≠ "label" ∧ f.1 ≠ "namespace" := by
  cases j with
  | obj ms => simp [hasOverride]
  | _ => simp [hasOverride]

theorem checkOverrides_eq_ok {ms : Json.Members} : checkOverrides ms = .ok () ↔
    ∀ tables, ms.lookup "tables" = some (.obj tables) → ∀ t ∈ tables, hasOverride t.2 = false := by
  unfold checkOverrides
  split
  next tables htables =>
    cases hany : tables.any (hasOverride ·.2) with
    | true =>
      obtain ⟨t, ht, hover⟩ := List.any_eq_true.mp hany
      simp only [if_true, reduceCtorEq, false_iff]
      intro hall
      rw [hall tables htables t ht] at hover
      cases hover
    | false =>
      simp only [Bool.false_eq_true, if_false, true_iff]
      intro others hothers t ht
      rw [htables] at hothers
      cases hothers
      simpa using List.any_eq_false.mp hany t ht
  next hnone =>
    simp only [true_iff]
    exact fun tables htables => absurd htables (hnone tables)

/-- The members of a configuration present a declaration, which may still be unsound. -/
structure Presents {α : Type} (kind : ConfigKind) (shape : Shape α) (ms : Json.Members) (d : α) :
    Prop where
  keys : ∀ m ∈ ms, OptionKey.isAccepted kind m.1 = true
  overrides : ∀ tables, ms.lookup "tables" = some (.obj tables) → ∀ t ∈ tables,
    ∀ fields, t.2 = .obj fields → ∀ f ∈ fields, f.1 ≠ "label" ∧ f.1 ≠ "namespace"
  shape : shape.members ms = .value d

section Reading

variable {α : Type} {kind : ConfigKind} {shape : Shape α} {ms : Json.Members}

theorem toExcept_eq_ok {x : Reading α} {a : α} : x.toExcept = .ok a ↔ x = .value a := by
  cases x with
  | value b => simp [Reading.toExcept]
  | refused cs => simp [Reading.toExcept]

theorem readDeclaration_eq_ok {d : α} :
    readDeclaration kind shape ms = .ok d ↔ Presents kind shape ms d := by
  simp only [readDeclaration, bind_eq_ok, mapError_eq_ok, toExcept_eq_ok]
  constructor
  · intro hh
    obtain ⟨_, hkeys, _, hoverrides, hshape⟩ := hh
    refine ⟨OptionKey.checkKeys_eq_ok.mp hkeys, fun tables htables t ht => ?_, hshape⟩
    exact hasOverride_eq_false.mp (checkOverrides_eq_ok.mp hoverrides tables htables t ht)
  · intro h
    refine ⟨_, OptionKey.checkKeys_eq_ok.mpr h.keys, _, checkOverrides_eq_ok.mpr ?_, h.shape⟩
    exact fun tables htables t ht => hasOverride_eq_false.mpr (h.overrides tables htables t ht)

theorem readDeclaration_eq_error {e : ConfigError} (h : readDeclaration kind shape ms = .error e) :
    e.kind = .general := by
  simp only [readDeclaration, bind_eq_error] at h
  rcases h with hkeys | ⟨_, -, hoverrides | ⟨_, -, hshape⟩⟩
  · unfold OptionKey.checkKeys at hkeys
    split at hkeys
    · cases hkeys
      rfl
    · cases hkeys
  · unfold checkOverrides at hoverrides
    split at hoverrides
    · split at hoverrides
      · cases hoverrides
        rfl
      · cases hoverrides
    · cases hoverrides
  · cases hread : shape.members ms with
    | value d =>
      rw [hread] at hshape
      cases hshape
    | refused cs =>
      rw [hread] at hshape
      cases hshape
      rfl

end Reading

theorem Store.define_eq_ok {ms : Json.Members} {s : Store} : Store.define ms = .ok s ↔
    ∃ d, Presents .store StoreDeclaration.shape ms d ∧ d.define = .ok s := by
  simp only [define, bind_eq_ok, readDeclaration_eq_ok]

theorem Store.define_of_presents {ms : Json.Members} {d : StoreDeclaration}
    (h : Presents .store StoreDeclaration.shape ms d) : Store.define ms = d.define := by
  rw [define, readDeclaration_eq_ok.mpr h]
  rfl

theorem World.define_eq_ok {ms : Json.Members} {w : World} : World.define ms = .ok w ↔
    (∀ m ∈ ms, m.1 ≠ "namespaces") ∧
      ∃ d, Presents .world WorldDeclaration.shape ms d ∧ d.define = .ok w := by
  unfold define
  cases hany : ms.any (·.1 = "namespaces") with
  | true =>
    obtain ⟨m, hm, hname⟩ := List.any_eq_true.mp hany
    simp only [if_true, reduceCtorEq, false_iff]
    exact fun h => h.1 m hm (by simpa using hname)
  | false =>
    have hnone : ∀ m ∈ ms, m.1 ≠ "namespaces" := by simpa using hany
    simp only [Bool.false_eq_true, if_false, bind_eq_ok, readDeclaration_eq_ok]
    exact ⟨fun h => ⟨hnone, h⟩, fun h => h.2⟩

/-- A configuration that presents a declaration defines a store just if this one is sound, and if
not so the first unsound table decides of which kind the error is. Any other configuration is
refused with a general error. -/
theorem Store.define_acceptance (ms : Json.Members) :
    (∀ d, Presents .store StoreDeclaration.shape ms d →
      ((∃ s, Store.define ms = .ok s) ↔ d.Sound) ∧
      (d.NamesSound → ∀ e, Store.define ms = .error e →
        (e.kind = .unknownType ↔ ∃ x, d.FirstUnsound x ∧ ¬x.2.TypesKnown d.scope) ∧
        (e.kind = .invalidKey ↔ ∃ x, d.FirstUnsound x ∧ x.2.TypesKnown d.scope ∧
          ¬(x.2.KeyStatic d.scope ∧ x.2.key.Nodup))) ∧
      (¬d.NamesSound → ∀ e, Store.define ms = .error e → e.kind = .general)) ∧
    ((¬∃ d, Presents .store StoreDeclaration.shape ms d) →
      ∃ e, Store.define ms = .error e ∧ e.kind = .general) := by
  constructor
  · intro d hd
    rw [Store.define_of_presents hd]
    refine ⟨StoreDeclaration.define_isOk, fun hnames e he => ?_, fun hnames e he => ?_⟩
    · obtain ⟨x, hx, hfault⟩ := (StoreDeclaration.define_eq_error hnames).mp he
      have hkind {y : String × TableDeclaration} (hy : d.FirstUnsound y) :=
        TableDeclaration.define_eq_error (StoreDeclaration.define_eq_error_of_first hnames hy he)
      constructor
      · constructor
        · exact fun h => ⟨x, hx, (hkind hx).1.mp h⟩
        · intro hh
          obtain ⟨y, hy, hunknown⟩ := hh
          exact (hkind hy).1.mpr hunknown
      · constructor
        · exact fun h => ⟨x, hx, (hkind hx).2.mp h⟩
        · intro hh
          obtain ⟨y, hy, hknown, hkey⟩ := hh
          exact (hkind hy).2.mpr ⟨hknown, hkey⟩
    · exact StoreDeclaration.define_kind_of_names he hnames
  · intro hnone
    cases hread : readDeclaration .store StoreDeclaration.shape ms with
    | ok d => exact absurd ⟨d, readDeclaration_eq_ok.mp hread⟩ hnone
    | error e =>
      refine ⟨e, ?_, readDeclaration_eq_error hread⟩
      rw [define, hread]
      rfl

def misspelt : Json.Members :=
  [("tables", .obj [
    ("Counter", .obj [("schema", .obj [("value", .str "uint32")])]),
    ("Balance", .obj [
      ("schema", .obj [("owner", .str "address"), ("amount", .str "unit256")]),
      ("key", .arr [.str "owner"])])])]

def misspeltDeclaration : StoreDeclaration where
  space := ""
  tables := [
    ("Counter", ⟨[("value", "uint32")], [], .table, none, ⟨"tables", false, false, none⟩, ⟨false⟩⟩),
    ("Balance", ⟨[("owner", "address"), ("amount", "unit256")], ["owner"], .table, none,
      ⟨"tables", false, false, none⟩, ⟨false⟩⟩)]
  userTypes := []
  enums := []
  codegen := ⟨"@latticexyz/store/src/", "common.sol", "codegen", "index.sol"⟩

theorem define_acceptance_misspelt :
    Presents .store StoreDeclaration.shape misspelt misspeltDeclaration ∧
      misspeltDeclaration.NamesSound ∧ ¬misspeltDeclaration.Sound ∧
      (∃ x, misspeltDeclaration.FirstUnsound x ∧ ¬x.2.TypesKnown misspeltDeclaration.scope) ∧
      ∃ e, Store.define [("colour", .null)] = .error e ∧ e.kind = .general := by
  have hpresents : Presents .store StoreDeclaration.shape misspelt misspeltDeclaration :=
    readDeclaration_eq_ok.mp rfl
  have hnames : misspeltDeclaration.NamesSound :=
    StoreDeclaration.namesSound_iff.mpr ⟨by decide, by decide⟩
  have herror : Store.define misspelt = .error (.unknownType "unit256") := by rfl
  obtain ⟨hsound, hkind, -⟩ := (Store.define_acceptance misspelt).1 _ hpresents
  refine ⟨hpresents, hnames, fun h => ?_, (hkind hnames _ herror).1.mp rfl,
    (Store.define_acceptance [("colour", .null)]).2 ?_⟩
  · obtain ⟨s, hs⟩ := hsound.mpr h
    rw [herror] at hs
    cases hs
  · intro hh
    obtain ⟨d, hd⟩ := hh
    have hcolour := hd.keys ("colour", .null) (List.mem_singleton_self _)
    revert hcolour
    decide

end SolidityTables

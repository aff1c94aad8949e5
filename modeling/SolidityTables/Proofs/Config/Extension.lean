import SolidityTables.Library.Options
import SolidityTables.Proofs.Config.Tables

/-!
# Stores as worlds

A world is declared with all the options of a store and some of its own, which may be left out. A
record in which none of the further options is given is read as if it could not have them, so a
configuration of a store also defines a world: the store with the defaults of what a world adds. A
configuration that leaves out all that is only for worlds is refused as a world just if it is
refused as a store, with an error of the same kind.
-/

namespace SolidityTables

open Attempt

namespace OptionName

variable {o : OptionName} {ms : Json.Members}

def spellings (o : OptionName) : List String := [o.camel, o.snake]

theorem find?_eq_none (h : ∀ m ∈ ms, m.1 ∉ o.spellings) : o.find? ms = none := by
  have hnone {k : String} (hk : k ∈ o.spellings) : ms.lookup k = none := by
    rw [List.lookup_eq_none_iff]
    intro m hm
    rw [bne_iff_ne]
    rintro rfl
    exact h m hm hk
  have hcamel : o.camel ∈ o.spellings := List.mem_cons_self ..
  have hsnake : o.snake ∈ o.spellings := List.mem_cons_of_mem _ (List.mem_singleton_self _)
  rw [find?, hnone hcamel, hnone hsnake]
  rfl

theorem find?_spelling {key : String} {j : Json} (h : o.find? ms = some (key, j)) :
    key ∈ o.spellings := by
  unfold find? at h
  split at h
  next =>
    cases h
    exact List.mem_cons_self ..
  next =>
    obtain ⟨_, -, hj⟩ := Option.map_eq_some_iff.mp h
    cases hj
    exact List.mem_cons_of_mem _ (List.mem_singleton_self _)

end OptionName

namespace Shape

variable {α β : Type} {ms : Json.Members}

def spellings (s : Shape α) : List String :=
  s.options.flatMap (·.spellings)

theorem strangers_eq_nil {s : Shape α} :
    s.strangers ms = [] ↔ ∀ m ∈ ms, ∃ o ∈ s.options, ∃ j, o.find? ms = some (m.1, j) := by
  have hfound (o : OptionName) (k : String) :
      (o.find? ms).any (·.1 = k) = true ↔ ∃ j, o.find? ms = some (k, j) := by
    simp [Option.any_eq_true]
  simp only [strangers, List.filter_eq_nil_iff, List.forall_mem_map, Bool.not_eq_true',
    Bool.not_eq_false, List.any_eq_true, hfound]

theorem mem_spellings {s : Shape α} (h : s.strangers ms = []) : ∀ m ∈ ms, m.1 ∈ s.spellings := by
  intro m hm
  obtain ⟨o, ho, j, hfind⟩ := strangers_eq_nil.mp h m hm
  exact List.mem_flatMap.mpr ⟨o, ho, OptionName.find?_spelling hfind⟩

theorem find?_of_unused {s : Shape α} (h : ∀ m ∈ ms, m.1 ∉ s.spellings) :
    ∀ o ∈ s.options, o.find? ms = none := by
  intro o ho
  apply OptionName.find?_eq_none
  exact fun m hm hspelling => h m hm (List.mem_flatMap.mpr ⟨o, ho, hspelling⟩)

theorem strangers_of_unused {s : Shape α} {t : Shape β} (more : List OptionName)
    (hoptions : t.options = s.options ++ more) (hmore : ∀ o ∈ more, o.find? ms = none) :
    t.strangers ms = s.strangers ms := by
  have hnone (k : String) : more.any (fun o => (o.find? ms).any (·.1 = k)) = false := by
    rw [List.any_eq_false]
    intro o ho
    rw [hmore o ho, Option.any_none]
    exact Bool.false_ne_true
  unfold strangers
  simp only [hoptions, List.any_append, hnone, Bool.or_false]

theorem option_of_unused (read : Reader α) (default : α) {o : OptionName}
    (h : o.find? ms = none) : (option o read default).read ms = .value default := by
  simp only [option, h]

theorem record_of_unused {o : OptionName} {read : Reader α} (h : o.find? ms = none) :
    (record o read).read ms = read (.obj []) := by
  simp only [record, h]

end Shape

def WorldCodegen.default : WorldCodegen := ⟨"IWorld", "world", "@latticexyz/world/src/"⟩

def WorldDeploy.default : WorldDeploy := ⟨none, "PostDeploy", "./deploys", "./worlds.json", false⟩

/-- A store as a world that adds nothing. -/
def StoreDeclaration.asWorld (d : StoreDeclaration) : WorldDeclaration :=
  { d with
    worldCodegen := .default, deploy := .default, systems := [], excludedSystems := [],
    modules := [] }

def Store.asWorld (s : Store) : World :=
  { s with
    worldCodegen := .default, deploy := .default, systems := [], excludedSystems := [],
    modules := [] }

theorem StoreDeclaration.asWorld_define (d : StoreDeclaration) :
    d.asWorld.define = d.define.map Store.asWorld := by
  change (d.define >>= fun s => pure s.asWorld) = _
  cases d.define <;> rfl

def worldOptions : List OptionName :=
  [⟨"deploy", "deploy"⟩, ⟨"systems", "systems"⟩, ⟨"excludeSystems", "exclude_systems"⟩,
    ⟨"modules", "modules"⟩]

/-- A configuration leaves out all that is only for worlds. -/
structure StoreOnly (ms : Json.Members) : Prop where
  keys : ∀ m ∈ ms, OptionKey.isAccepted .store m.1 = true
  codegen : ∀ code, ms.lookup "codegen" = some (.obj code) →
    ∀ m ∈ code, m.1 ∉ WorldCodegen.shape.spellings

theorem isAccepted_world {key : String} (h : OptionKey.isAccepted .store key = true) :
    OptionKey.isAccepted .world key = true := by
  simp only [OptionKey.isAccepted, Bool.or_eq_true, decide_eq_true_eq] at *
  exact h.imp (List.mem_append_left _) (List.mem_append_left _)

section Codegen

variable {code : Json.Members}

def worldCodegenShape : Shape (StoreCodegen × WorldCodegen) :=
  Prod.mk <$> StoreCodegen.shape <*> WorldCodegen.shape

theorem worldCodegen_unused (h : ∀ m ∈ code, m.1 ∉ WorldCodegen.shape.spellings) :
    WorldCodegen.shape.read code = .value .default := by
  have hnone := Shape.find?_of_unused h
  have hname := Shape.option_of_unused .text "IWorld"
    (hnone ⟨"worldInterfaceName", "world_interface_name"⟩ (by decide))
  have hdirectory := Shape.option_of_unused .text "world"
    (hnone ⟨"worldgenDirectory", "worldgen_directory"⟩ (by decide))
  have hpath := Shape.option_of_unused .text "@latticexyz/world/src/"
    (hnone ⟨"worldImportPath", "world_import_path"⟩ (by decide))
  simp only [WorldCodegen.shape, Shape.seq_read, Shape.map_read]
  exact ⟨_, ⟨_, ⟨_, hname, rfl⟩, _, hdirectory, rfl⟩, _, hpath, rfl⟩

theorem worldCodegen_members (h : ∀ m ∈ code, m.1 ∉ WorldCodegen.shape.spellings)
    {c : StoreCodegen × WorldCodegen} : worldCodegenShape.members code = .value c ↔
      StoreCodegen.shape.members code = .value c.1 ∧ c.2 = .default := by
  have hstrangers : worldCodegenShape.strangers code = StoreCodegen.shape.strangers code :=
    Shape.strangers_of_unused WorldCodegen.shape.options rfl (Shape.find?_of_unused h)
  rw [Shape.members_eq_value, Shape.members_eq_value, hstrangers, worldCodegenShape]
  simp only [Shape.seq_read, Shape.map_read, worldCodegen_unused h, Reading.value.injEq]
  constructor
  · intro hh
    obtain ⟨⟨_, ⟨codegen, hcodegen, rfl⟩, _, rfl, rfl⟩, hnone⟩ := hh
    exact ⟨⟨hcodegen, hnone⟩, rfl⟩
  · intro hh
    obtain ⟨⟨hcodegen, hnone⟩, hdefault⟩ := hh
    refine ⟨⟨_, ⟨c.1, hcodegen, rfl⟩, _, rfl, ?_⟩, hnone⟩
    rw [← hdefault]

theorem worldCodegen_reader {ms : Json.Members} (h : StoreOnly ms)
    {c : StoreCodegen × WorldCodegen} :
    (Shape.record ⟨"codegen", "codegen"⟩ (worldCodegenShape.reader "WorldCodegen")).read ms =
        .value c ↔
      (Shape.record ⟨"codegen", "codegen"⟩ (StoreCodegen.shape.reader "StoreCodegen")).read ms =
        .value c.1 ∧ c.2 = .default := by
  have hgiven : ∀ code, ((OptionName.given? ⟨"codegen", "codegen"⟩ ms).getD (.obj [])) = .obj code →
      ∀ m ∈ code, m.1 ∉ WorldCodegen.shape.spellings := by
    intro code hcode
    rw [OptionName.given?, Option.or_self] at hcode
    cases hlookup : ms.lookup "codegen" with
    | some j =>
      rw [hlookup] at hcode
      exact h.codegen code (hlookup.trans (congrArg some hcode))
    | none =>
      rw [hlookup] at hcode
      cases hcode
      exact fun m hm => absurd hm List.not_mem_nil
  simp only [Shape.record_read, Shape.reader_eq_value, ← Shape.members_eq_value]
  constructor
  · intro hh
    obtain ⟨code, hcode, hmembers⟩ := hh
    obtain ⟨hcodegen, hdefault⟩ := (worldCodegen_members (hgiven code hcode)).mp hmembers
    exact ⟨⟨code, hcode, hcodegen⟩, hdefault⟩
  · intro hh
    obtain ⟨⟨code, hcode, hcodegen⟩, hdefault⟩ := hh
    exact ⟨code, hcode, (worldCodegen_members (hgiven code hcode)).mpr ⟨hcodegen, hdefault⟩⟩

end Codegen

section Declarations

variable {ms : Json.Members}

theorem StoreOnly.worldOptions (h : StoreOnly ms) : ∀ o ∈ worldOptions, o.find? ms = none := by
  have hrefused : ∀ o ∈ SolidityTables.worldOptions, ∀ k ∈ o.spellings,
      OptionKey.isAccepted .store k = false := by decide +kernel
  intro o ho
  apply OptionName.find?_eq_none
  intro m hm hspelling
  have haccepted := h.keys m hm
  rw [hrefused o ho m.1 hspelling] at haccepted
  cases haccepted

theorem WorldDeclaration.members_of_storeOnly (h : StoreOnly ms) {w : WorldDeclaration} :
    WorldDeclaration.shape.members ms = .value w ↔
      ∃ d, StoreDeclaration.shape.members ms = .value d ∧ d.asWorld = w := by
  have hnone := h.worldOptions
  have hstrangers : WorldDeclaration.shape.strangers ms = StoreDeclaration.shape.strangers ms :=
    Shape.strangers_of_unused worldOptions rfl hnone
  have hdeploy : (Shape.record ⟨"deploy", "deploy"⟩
      (WorldDeploy.shape.reader "WorldDeploy")).read ms = .value .default :=
    (Shape.record_of_unused (hnone _ (by decide))).trans rfl
  have hsystems := Shape.option_of_unused
    (.dictionary (SystemDeclaration.shape.reader "SystemInput")) []
    (hnone ⟨"systems", "systems"⟩ (by decide))
  have hexcluded := Shape.option_of_unused (.list .text) []
    (hnone ⟨"excludeSystems", "exclude_systems"⟩ (by decide))
  have hmodules := Shape.option_of_unused (.list moduleReader) []
    (hnone ⟨"modules", "modules"⟩ (by decide))
  have hcodegen {c} := worldCodegen_reader h (c := c)
  unfold worldCodegenShape at hcodegen
  simp only [Shape.members_eq_value, hstrangers]
  simp only [WorldDeclaration.shape, StoreDeclaration.shape, Shape.seq_read, Shape.map_read,
    hcodegen, hdeploy, hsystems, hexcluded, hmodules, Reading.value.injEq]
  constructor
  · intro hh
    obtain ⟨⟨_, ⟨_, ⟨_, ⟨_, ⟨_, ⟨names, hnames, rfl⟩, c, ⟨hc, hdefault⟩, rfl⟩, _, rfl, rfl⟩,
      _, rfl, rfl⟩, _, rfl, rfl⟩, _, rfl, rfl⟩, hknown⟩ := hh
    refine ⟨names c.1, ⟨⟨names, hnames, c.1, hc, rfl⟩, hknown⟩, ?_⟩
    rw [StoreDeclaration.asWorld, ← hdefault]
  · intro hh
    obtain ⟨_, ⟨⟨names, hnames, c, hc, rfl⟩, hknown⟩, rfl⟩ := hh
    exact ⟨⟨_, ⟨_, ⟨_, ⟨_, ⟨_, ⟨names, hnames, rfl⟩, (c, .default), ⟨hc, rfl⟩, rfl⟩, _, rfl, rfl⟩,
      _, rfl, rfl⟩, _, rfl, rfl⟩, _, rfl, rfl⟩, hknown⟩

theorem Presents.storeOnly {d : StoreDeclaration}
    (h : Presents .store StoreDeclaration.shape ms d) : StoreOnly ms := by
  refine ⟨h.keys, fun code hcode => ?_⟩
  obtain ⟨hread, -⟩ := Shape.members_eq_value.mp h.shape
  obtain ⟨_, -, c, hc, -⟩ := Shape.seq_read.mp hread
  obtain ⟨ms', hms', -, hknown⟩ := Shape.reader_eq_value.mp (Shape.record_read.mp hc)
  have hgiven : (OptionName.given? ⟨"codegen", "codegen"⟩ ms).getD (.obj []) = .obj code := by
    rw [OptionName.given?, Option.or_self, hcode]
    rfl
  rw [hgiven] at hms'
  cases hms'
  have hdisjoint : ∀ k ∈ StoreCodegen.shape.spellings, k ∉ WorldCodegen.shape.spellings := by
    decide
  exact fun m hm => hdisjoint m.1 (Shape.mem_spellings hknown m hm)

theorem StoreOnly.presents_iff (h : StoreOnly ms) {w : WorldDeclaration} :
    Presents .world WorldDeclaration.shape ms w ↔
      ∃ d, Presents .store StoreDeclaration.shape ms d ∧ d.asWorld = w := by
  constructor
  · intro hw
    obtain ⟨d, hd, rfl⟩ := (WorldDeclaration.members_of_storeOnly h).mp hw.shape
    exact ⟨d, ⟨h.keys, hw.overrides, hd⟩, rfl⟩
  · intro hh
    obtain ⟨d, hd, rfl⟩ := hh
    exact ⟨fun m hm => isAccepted_world (h.keys m hm), hd.overrides,
      (WorldDeclaration.members_of_storeOnly h).mpr ⟨d, hd.shape, rfl⟩⟩

theorem StoreOnly.world_define (h : StoreOnly ms) :
    World.define ms = readDeclaration .world WorldDeclaration.shape ms >>= (·.define) := by
  have hrefused : OptionKey.isAccepted .store "namespaces" = false := by decide +kernel
  have hnone : ms.any (·.1 = "namespaces") = false := by
    rw [List.any_eq_false]
    intro m hm hname
    have haccepted := h.keys m hm
    rw [of_decide_eq_true hname, hrefused] at haccepted
    cases haccepted
  rw [World.define, hnone]
  rfl

theorem World.define_of_presents {d : StoreDeclaration}
    (h : Presents .store StoreDeclaration.shape ms d) :
    World.define ms = (Store.define ms).map Store.asWorld := by
  have hw := h.storeOnly.presents_iff.mpr ⟨d, h, rfl⟩
  rw [h.storeOnly.world_define, readDeclaration_eq_ok.mpr hw, Store.define_of_presents h,
    ← d.asWorld_define]
  rfl

theorem StoreOnly.define_eq_error (h : StoreOnly ms)
    (hnone : ¬∃ d, Presents .store StoreDeclaration.shape ms d) :
    (∃ e, Store.define ms = .error e ∧ e.kind = .general) ∧
      ∃ e, World.define ms = .error e ∧ e.kind = .general := by
  constructor
  · cases hread : readDeclaration .store StoreDeclaration.shape ms with
    | ok d => exact absurd ⟨d, readDeclaration_eq_ok.mp hread⟩ hnone
    | error e =>
      refine ⟨e, ?_, readDeclaration_eq_error hread⟩
      rw [Store.define, hread]
      rfl
  · cases hread : readDeclaration .world WorldDeclaration.shape ms with
    | ok w =>
      obtain ⟨d, hd, -⟩ := h.presents_iff.mp (readDeclaration_eq_ok.mp hread)
      exact absurd ⟨d, hd⟩ hnone
    | error e =>
      refine ⟨e, ?_, readDeclaration_eq_error hread⟩
      rw [h.world_define, hread]
      rfl

end Declarations

/-- A configuration that defines a store also defines a world, which is this store with nothing
added and has the same libraries. One that leaves out all that is only for worlds is refused as a
store just if it is refused as a world, with an error of the same kind. -/
theorem World.define_extends (ms : Json.Members) :
    (∀ s, Store.define ms = .ok s → ∃ w, World.define ms = .ok w ∧ w.toStore = s ∧
      w.systems = [] ∧ w.excludedSystems = [] ∧ w.modules = [] ∧
      ∀ types, w.toStore.libraries types = s.libraries types) ∧
    (StoreOnly ms →
      (∀ e, Store.define ms = .error e → ∃ f, World.define ms = .error f ∧ f.kind = e.kind) ∧
      ∀ f, World.define ms = .error f → ∃ e, Store.define ms = .error e ∧ e.kind = f.kind) := by
  constructor
  · intro s hs
    obtain ⟨d, hd, -⟩ := Store.define_eq_ok.mp hs
    refine ⟨s.asWorld, ?_, rfl, rfl, rfl, rfl, fun _ => rfl⟩
    rw [World.define_of_presents hd, hs]
    rfl
  · intro h
    -- Where a store is declared, both are defined by the same checks; where none is, both are
    -- refused before any of these.
    by_cases hd : ∃ d, Presents .store StoreDeclaration.shape ms d
    · obtain ⟨d, hd⟩ := hd
      rw [World.define_of_presents hd]
      cases Store.define ms with
      | ok s => simp [Except.map]
      | error e => simp [Except.map]
    · obtain ⟨⟨e, he, hstore⟩, f, hf, hworld⟩ := h.define_eq_error hd
      rw [he, hf]
      simp [hstore, hworld]

theorem define_extends_board :
    (∃ w, World.define board = .ok w ∧ w.toStore = boardStore ∧ w.systems = []) ∧
      StoreOnly misspelt ∧ ∃ f, World.define misspelt = .error f ∧ f.kind = .unknownType := by
  have hboard : Store.define board = .ok boardStore := by decide +kernel
  have hmisspelt : Store.define misspelt = .error (.unknownType "unit256") := by decide +kernel
  have honly : StoreOnly misspelt := by
    refine ⟨by decide +kernel, fun code hcode => ?_⟩
    have hnone : misspelt.lookup "codegen" = none := by decide
    rw [hnone] at hcode
    cases hcode
  obtain ⟨w, hw, hstore, hsystems, -⟩ := (World.define_extends board).1 _ hboard
  obtain ⟨f, hf, hkind⟩ := ((World.define_extends misspelt).2 honly).1 _ hmisspelt
  exact ⟨⟨w, hw, hstore, hsystems⟩, honly, f, hf, hkind⟩

end SolidityTables

import SolidityTables.Proofs.Disk.Outputs

/-!
# Files outside the output directory

A run changes no files but those of its store, which lie where their paths lead. The path of a
library ends in the label of its table, and a label is any text: it may lead up or begin at the
root, and the library then lies outside the output directory.
-/

namespace SolidityTables

open Attempt

namespace Path

variable {base : List String} {p : String}

theorem Trail.inside_iff (t : Trail) (base : List String) :
    base <+: t.follow base ↔ base.drop (base.length - t.up) <+: t.down := by
  have hsplit := List.take_append_drop (base.length - t.up) base
  rw [follow]
  nth_rewrite 1 [← hsplit]
  exact List.prefix_append_right_inj _

theorem resolve_inside_iff (base : List String) (p : String) : base <+: resolve base p ↔
    if isAbsolute p then base <+: (Trail.ofParts (components p)).down
    else base.drop (base.length - (Trail.ofParts (components p)).up) <+:
      (Trail.ofParts (components p)).down := by
  rw [resolve_eq_components, Trail.foldl_step]
  split
  · rw [Trail.follow, List.take_nil, List.nil_append]
  · exact Trail.inside_iff _ base

theorem IsPlain.inside (h : IsPlain p) (base : List String) : base <+: Path.resolve base p := by
  rw [h.resolve]
  exact List.prefix_append base _

end Path

theorem Table.path_inside {t : Table} (hdir : Path.IsPlain t.codegen.outputDirectory)
    (hname : Path.IsPlain (t.label ++ ".sol")) (base : List String) :
    base <+: Path.resolve base t.path := by
  rw [path, hdir.leadsDown.join hname.leadsDown]
  exact List.prefix_append base _

theorem libraryName_plain {label : String} (hlabel : '/' ∉ label.toList) :
    Path.IsPlain (label ++ ".sol") := by
  have hname := libraryName_isName hlabel
  refine ⟨libraryName_relative hlabel, ?_⟩
  rw [Path.pieces_of_no_slash hname.no_slash, List.mem_singleton]
  exact Ne.symm hname.not_dots

namespace Action

variable {d d' : Disk} {a : Action} {actions : List Action} {r : Except Disk.Error Unit}
variable {place : List String}

theorem perform_changes (h : a.perform d = (d', r)) : d'.current = d.current ∧
    ∀ place, d'.file? place ≠ d.file? place → ∃ l text, a = .file l text ∧
      d.writeFile l (Utf8.encode text) = .ok d' ∧ place = l.place d.current := by
  cases a with
  | directory l =>
    have hgrows := d.ensureDirectory_grows l
    rw [perform] at h
    rw [h] at hgrows
    exact ⟨hgrows.current, fun place hplace => absurd (congrFun hgrows.files place) hplace⟩
  | file l text =>
    rw [perform] at h
    split at h
    next made hmade =>
      cases h
      have hdone := done_of_writeFile hmade
      refine ⟨hdone.current, fun place hplace => ⟨l, text, rfl, hmade, ?_⟩⟩
      by_contra hother
      refine hplace ((congrFun hdone.files place).trans (Disk.overwrite_of_unwritten ?_))
      exact List.forall_mem_singleton.mpr (Ne.symm hother)
    next =>
      cases h
      exact ⟨rfl, fun _ hplace => absurd rfl hplace⟩

theorem performAll_changes (h : performAll d actions = (d', r))
    (hplace : d'.file? place ≠ d.file? place) : ∃ (l : Location) (text : String) (d₁ d₂ : Disk),
      .file l text ∈ actions ∧ d₁.current = d.current ∧ d₁.writeFile l (Utf8.encode text) = .ok d₂ ∧
      place = l.place d.current := by
  -- By induction on the actions: the first changes the file, or the rest starts with it as it was.
  induction actions generalizing d with
  | nil =>
    cases h
    exact absurd rfl hplace
  | cons a actions ih =>
    rw [performAll] at h
    cases hstep : a.perform d with
    | mk d₁ outcome =>
      rw [hstep] at h
      obtain ⟨hcurrent, hfirst⟩ := perform_changes hstep
      by_cases hkept : d₁.file? place = d.file? place
      · cases outcome with
        | ok _ =>
          rw [← hkept] at hplace
          obtain ⟨l, text, d₂, d₃, hmem, hsame, hwrite, hl⟩ := ih h hplace
          rw [hcurrent] at hsame hl
          exact ⟨l, text, d₂, d₃, List.mem_cons_of_mem a hmem, hsame, hwrite, hl⟩
        | error e =>
          cases h
          exact absurd hkept hplace
      · obtain ⟨l, text, rfl, hwrite, hl⟩ := hfirst place hkept
        exact ⟨l, text, d, d₁, List.mem_cons_self, rfl, hwrite, hl⟩

end Action

theorem Plan.mem_writing {ws : List (Location × String)} {l : Location} {text : String}
    (h : .file l text ∈ ws.flatMap writing) : (l, text) ∈ ws := by
  obtain ⟨w, hw, hmem⟩ := List.mem_flatMap.mp h
  rcases List.mem_cons.mp hmem with hdirectory | hfile
  · cases hdirectory
  · cases List.mem_singleton.mp hfile
    exact hw

namespace Store

variable {s : Store} {types : List (String × UserType)} {cwd r : String} {root : Location}
variable {d d' : Disk}

theorem plan_files {p : Plan} {l : Location} {text : String}
    (hp : s.plan cwd root types = .ok p) (h : .file l text ∈ p.actions) :
    ∃ q ∈ s.outputPaths, l = (s.output root).child q := by
  obtain ⟨files, hfiles, hp⟩ := bind_eq_ok.mp hp
  cases pure_eq_ok.mp hp
  rcases Plan.rendered_or_fault cwd (s.output root) files with
    ⟨written, hrendered⟩ | ⟨before, f, after, written, fault, rfl, hrendered, hf⟩
  · rw [(Plan.ofLibraries_rendered root s hrendered).1] at h
    have hlocation : l ∈ s.outputPaths.map (s.output root).child := by
      rw [← Outputs.locations ⟨files, written, hfiles, hrendered, rfl⟩]
      exact List.mem_map_of_mem (f := (·.1)) (Plan.mem_writing h)
    obtain ⟨q, hq, hl⟩ := List.mem_map.mp hlocation
    exact ⟨q, hq, hl.symm⟩
  · rw [Plan.ofLibraries_fault root s hrendered hf] at h
    rcases List.mem_append.mp h with h | h
    · obtain ⟨g, hg, hl, -⟩ := exists_of_mem_right hrendered (Plan.mem_writing h)
      have hpath := List.mem_map_of_mem (f := (·.path)) (List.mem_append_left (f :: after) hg)
      rw [libraries_paths hfiles] at hpath
      exact ⟨g.path, List.mem_append_left _ hpath, hl⟩
    · cases List.mem_singleton.mp h

theorem generate_changes {result : Except Failure Report} {place : List String}
    (h : s.generate cwd d (.ofString r) types = (d', result))
    (hplace : d'.file? place ≠ d.file? place) :
    ∃ q ∈ s.outputPaths, place = Path.resolve ((s.output (.ofString r)).reached d.current) q := by
  rw [generate] at h
  cases hp : s.plan cwd (.ofString r) types with
  | error e =>
    rw [hp] at h
    cases h
    exact absurd rfl hplace
  | ok p =>
    rw [hp] at h
    obtain ⟨outcome, hall⟩ : ∃ outcome, Action.performAll d p.actions = (d', outcome) := by
      dsimp only [Plan.run] at h
      split at h
      · next hall =>
        cases h
        exact ⟨_, hall⟩
      · next hall =>
        cases h
        exact ⟨_, hall⟩
    obtain ⟨l, text, d₁, d₂, hmem, hcurrent, hwrite, rfl⟩ := Action.performAll_changes hall hplace
    obtain ⟨q, hq, rfl⟩ := plan_files hp hmem
    have hlead := Location.child_lead (Location.child_lead (Location.ofString_lead r)
      s.codegen.outputDirectory) q
    rw [← hcurrent, Disk.writeFile_place hwrite hlead]
    exact ⟨q, hq, Location.reached_child_resolve _ q _⟩

theorem generate_exists {report : Report} {q : String}
    (h : s.generate cwd d (.ofString r) types = (d', .ok report)) (hq : q ∈ s.outputPaths) :
    d'.file? (Path.resolve ((s.output (.ofString r)).reached d.current) q) ≠ none := by
  obtain ⟨outputs, houtputs, -, hall⟩ := outputs_of_generate h
  have hplace := List.mem_map_of_mem
    (f := Path.resolve ((s.output (.ofString r)).reached d.current)) hq
  rw [← houtputs.places hall] at hplace
  obtain ⟨w, hw, hl⟩ := List.mem_map.mp hplace
  obtain ⟨done, -, hdone, hdoneAll⟩ := Action.performAll_done hall
  rw [hdoneAll rfl] at hdone
  rw [← hl, hdone.files, Plan.written?_writing]
  exact Disk.overwrite_ne_none (.inr ⟨_, List.mem_map_of_mem hw, rfl⟩)

end Store

/-- If the paths of a configuration do not lead up, then whatever a run comes to, it changes no
file outside the output directory except the libraries of tables whose labels lead up or begin at
the root, and a run that succeeds does write these. Such a library is outside unless its path comes
down again by the way it went up. A label without slashes does not lead up. -/
theorem Store.generate_confined (s : Store) (htypes : Path.IsPlain s.codegen.userTypesFilename)
    (hindex : Path.IsPlain s.codegen.indexFilename)
    (hdirs : ∀ x ∈ s.tables, Path.IsPlain x.2.codegen.outputDirectory) :
    (∀ types cwd r d d' result, s.generate cwd d (.ofString r) types = (d', result) →
      (∀ place, d'.file? place ≠ d.file? place →
        (s.output (.ofString r)).reached d.current <+: place ∨
          ∃ x ∈ s.tables, ¬Path.IsPlain (x.2.label ++ ".sol") ∧
            place = Path.resolve ((s.output (.ofString r)).reached d.current) x.2.path) ∧
      ∀ report, result = .ok report → ∀ x ∈ s.tables,
        d'.file? (Path.resolve ((s.output (.ofString r)).reached d.current) x.2.path) ≠ none) ∧
    ∀ x ∈ s.tables,
      (∀ out, out <+: Path.resolve out x.2.path ↔
        if Path.isAbsolute x.2.path then
          out <+: (Path.Trail.ofParts (Path.components x.2.path)).down
        else out.drop (out.length - (Path.Trail.ofParts (Path.components x.2.path)).up) <+:
          (Path.Trail.ofParts (Path.components x.2.path)).down) ∧
      ('/' ∉ x.2.label.toList → Path.IsPlain (x.2.label ++ ".sol")) := by
  refine ⟨fun types cwd r d d' result h => ⟨fun place hplace => ?_, fun report hreport x hx => ?_⟩,
    fun x _ => ⟨fun out => Path.resolve_inside_iff out _, libraryName_plain⟩⟩
  · obtain ⟨q, hq, rfl⟩ := generate_changes h hplace
    rcases List.mem_append.mp hq with hq | hq
    · obtain ⟨x, hx, rfl⟩ := List.mem_map.mp hq
      by_cases hname : Path.IsPlain (x.2.label ++ ".sol")
      · exact .inl (Table.path_inside (hdirs x hx) hname _)
      · exact .inr ⟨x, hx, hname, rfl⟩
    · left
      rcases List.mem_append.mp hq with hq | hq
      · split at hq
        · cases hq
        · cases List.mem_singleton.mp hq
          exact htypes.inside _
      · split at hq
        · cases hq
        · cases List.mem_singleton.mp hq
          exact hindex.inside _
  · rw [hreport] at h
    exact generate_exists h (List.mem_append_left _ (List.mem_map_of_mem hx))

theorem generate_confined_items : ∃ d' report,
    itemStore.generate "/work" emptyProject (.ofString "src") itemStore.userTypes =
      (d', .ok report) ∧
    (∀ place, d'.file? place ≠ emptyProject.file? place → ["work", "src", "codegen"] <+: place) ∧
    d'.file? ["work", "src", "codegen", "tables", "Item.sol"] ≠ none := by
  have hrun : fault? (itemStore.generate "/work" emptyProject (.ofString "src")
      itemStore.userTypes).2 = none := by decide +kernel
  obtain ⟨report, hreport⟩ := fault?_eq_none.mp hrun
  have hgenerate : itemStore.generate "/work" emptyProject (.ofString "src") itemStore.userTypes =
      (_, .ok report) := Prod.ext rfl hreport
  have hdirs : ∀ x ∈ itemStore.tables, Path.IsPlain x.2.codegen.outputDirectory :=
    List.forall_mem_singleton.mpr ⟨by decide, by decide⟩
  obtain ⟨hruns, htables⟩ := Store.generate_confined itemStore ⟨by decide, by decide⟩
    ⟨by decide, by decide⟩ hdirs
  obtain ⟨hchanges, hexists⟩ := hruns _ _ _ _ _ _ hgenerate
  refine ⟨_, report, hgenerate, fun place hplace => ?_,
    hexists report rfl ("Item", itemTable) (List.mem_singleton_self _)⟩
  rcases hchanges place hplace with hinside | ⟨x, hx, hname, -⟩
  · exact hinside
  · cases List.mem_singleton.mp hx
    exact absurd ((htables _ hx).2 (by decide)) hname

def climber : Json.Members :=
  [("tables", .obj [("../../../Counter", .obj [("schema", .obj [("value", .str "uint8")])])])]

def climberStore : Store where
  space := ""
  tables := [("../../../Counter", {
      label := "../../../Counter", kind := .table, space := "", name := "../../../Counter"
      schema := [("value", ⟨.uint8, "uint8"⟩)]
      key := [], codegen := ⟨"tables", false, false, false⟩, deploy := ⟨false⟩ })]
  userTypes := []
  enums := []
  codegen := ⟨"@latticexyz/store/src/", "common.sol", "codegen", "index.sol"⟩

/-- Though no path leads up but for the label, a file outside the output directory is written. -/
theorem climber_escapes : (Json.obj climber).WellFormed ∧
    Store.define climber = .ok climberStore ∧
    (∀ p ∈ ["codegen", "tables", "common.sol", "index.sol"], Path.IsPlain p) ∧
    ∃ d' report, climberStore.generate "/work" emptyProject (.ofString "src")
        climberStore.userTypes = (d', .ok report) ∧
      d'.file? ["work", "Counter.sol"] ≠ emptyProject.file? ["work", "Counter.sol"] ∧
      ¬(climberStore.output (.ofString "src")).reached ["work"] <+: ["work", "Counter.sol"] := by
  have hplain : ∀ p ∈ ["codegen", "tables", "common.sol", "index.sol"],
      Path.isAbsolute p = false ∧ ".." ∉ Path.pieces p := by decide
  have hrun : fault? (climberStore.generate "/work" emptyProject (.ofString "src")
      climberStore.userTypes).2 = none := by decide +kernel
  obtain ⟨report, hreport⟩ := fault?_eq_none.mp hrun
  have hgenerate : climberStore.generate "/work" emptyProject (.ofString "src")
      climberStore.userTypes = (_, .ok report) := Prod.ext rfl hreport
  have hwritten := Store.generate_exists hgenerate
    (q := "tables/../../../Counter.sol") (by decide)
  exact ⟨by simp [climber], by decide +kernel, fun p hp => ⟨(hplain p hp).1, (hplain p hp).2⟩, _,
    report, hgenerate, hwritten, by decide⟩

end SolidityTables

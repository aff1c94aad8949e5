import SolidityTables.Proofs.Library.Index
import SolidityTables.Proofs.Library.Source

/-!
# The files that a run leaves

The files of a store are written one after another, and nothing compares their paths. Where two of
them lead to one place, the file there is the one that was written last.
-/

namespace SolidityTables

open Attempt

def Table.path (t : Table) : String :=
  Path.join t.codegen.outputDirectory (t.label ++ ".sol")

theorem Table.resolve_path {t : Table} (hlabel : '/' ∉ t.label.toList) (base : List String) :
    ∃ dir, Path.resolve base t.path = dir ++ [t.label ++ ".sol"] := by
  rw [path, Path.resolve_join, Path.resolve_relative (libraryName_relative hlabel),
    libraryName_components hlabel]
  exact ⟨_, libraryName_step t.label _⟩

namespace Store

def outputPaths (s : Store) : List String :=
  s.tables.map (fun x => x.2.path) ++
    ((if s.enums = [] then [] else [s.codegen.userTypesFilename]) ++
      if s.tables = [] then [] else [s.codegen.indexFilename])

/-- The files of a run and their texts: the libraries, the file of enums and the index. -/
def Outputs (s : Store) (types : List (String × UserType)) (cwd : String) (root : Location)
    (outputs : List (Location × String)) : Prop :=
  ∃ files written, s.libraries types = .ok files ∧ Plan.Rendered cwd (s.output root) files written ∧
    outputs = written ++ Plan.sharedFiles (s.output root) s files

variable {s : Store} {types : List (String × UserType)} {cwd r : String} {root : Location}
variable {outputs : List (Location × String)} {d d' : Disk} {report : Report}

theorem libraries_paths {files : List LibraryFile} (h : s.libraries types = .ok files) :
    files.map (·.path) = s.tables.map fun x => x.2.path := by
  rw [map_eq_map_iff]
  exact (libraries_files h).flip.imp fun _ _ hh => hh.1

theorem Outputs.locations (h : s.Outputs types cwd root outputs) :
    outputs.map (·.1) = s.outputPaths.map (s.output root).child := by
  obtain ⟨files, written, hfiles, hrendered, rfl⟩ := h
  have hpaths := libraries_paths hfiles
  have hwritten : written.map (·.1) = (files.map (·.path)).map (s.output root).child := by
    rw [List.map_map, map_eq_map_iff]
    exact hrendered.flip.imp fun _ _ hh => hh.1
  have hempty : files = [] ↔ s.tables = [] := by
    rw [← List.map_eq_nil_iff, hpaths, List.map_eq_nil_iff]
  rw [outputPaths, List.map_append, List.map_append, hwritten, hpaths, Plan.sharedFiles]
  simp only [hempty]
  split_ifs <;> rfl

theorem outputs_of_generate (h : s.generate cwd d root types = (d', .ok report)) :
    ∃ outputs, s.Outputs types cwd root outputs ∧ report.written = outputs.map (·.1) ∧
      Action.performAll d (outputs.flatMap Plan.writing) = (d', .ok ()) := by
  obtain ⟨files, written, hfiles, hrendered, hall, hreport⟩ := generate_eq_ok h
  exact ⟨_, ⟨files, written, hfiles, hrendered, rfl⟩, hreport, hall⟩

theorem Outputs.lead (h : s.Outputs types cwd (.ofString r) outputs) :
    ∀ w ∈ outputs, ∀ c ∈ w.1.parts, c ≠ "" ∧ c ≠ "." := by
  intro w hw
  have hlocation := List.mem_map_of_mem (f := (·.1)) hw
  rw [h.locations] at hlocation
  obtain ⟨p, -, hp⟩ := List.mem_map.mp hlocation
  rw [← hp]
  exact Location.child_lead (Location.child_lead (Location.ofString_lead r) _) p

theorem Outputs.places (h : s.Outputs types cwd (.ofString r) outputs)
    (hall : Action.performAll d (outputs.flatMap Plan.writing) = (d', .ok ())) :
    outputs.map (fun w => w.1.place d.current) =
      s.outputPaths.map (Path.resolve ((s.output (.ofString r)).reached d.current)) := by
  have hreached : ∀ w ∈ outputs, w.1.place d.current = w.1.reached d.current := by
    intro w hw
    obtain ⟨before, after, hsplit⟩ := List.append_of_mem hw
    obtain ⟨d₁, d₂, hdone, hwrite, -⟩ := Plan.performAll_writing hall hsplit
    have hplace := Disk.writeFile_place hwrite (h.lead w hw)
    rwa [hdone.current] at hplace
  calc outputs.map (fun w => w.1.place d.current)
      = (outputs.map (·.1)).map (Location.reached d.current) := by
        rw [List.map_map]
        exact List.map_congr_left hreached
    _ = s.outputPaths.map fun p => ((s.output (.ofString r)).child p).reached d.current := by
        rw [h.locations, List.map_map]
        rfl
    _ = _ := List.map_congr_left fun p _ => Location.reached_child_resolve _ p _

end Store

theorem Plan.file?_of_last {ws before after : List (Location × String)} {w : Location × String}
    {d d' : Disk} (h : Action.performAll d (ws.flatMap Plan.writing) = (d', .ok ()))
    (hws : ws = before ++ w :: after)
    (hlast : ∀ v ∈ after, v.1.place d.current ≠ w.1.place d.current) :
    d'.file? (w.1.place d.current) = some (Utf8.encode w.2) := by
  obtain ⟨done, -, hdone, hall⟩ := Action.performAll_done h
  rw [hall rfl] at hdone
  rw [hdone.files, Plan.written?_writing, hws, List.map_append, List.map_cons]
  exact Disk.overwrite_last (List.forall_mem_map.mpr hlast)

theorem Plan.file?_of_nodup {ws : List (Location × String)} {d d' : Disk}
    (h : Action.performAll d (ws.flatMap Plan.writing) = (d', .ok ()))
    (hws : (ws.map fun w => w.1.place d.current).Nodup) :
    ∀ w ∈ ws, d'.file? (w.1.place d.current) = some (Utf8.encode w.2) := by
  intro w hw
  obtain ⟨before, after, rfl⟩ := List.append_of_mem hw
  refine Plan.file?_of_last h rfl fun v hv hsame => ?_
  rw [List.map_append, List.map_cons] at hws
  have hnot := (List.nodup_cons.mp hws.of_append_right).1
  rw [← hsame] at hnot
  exact hnot (List.mem_map_of_mem hv)

theorem Path.nodup_resolve_iff {paths : List String} (h : ∀ p ∈ paths, Path.IsPlain p)
    (base : List String) :
    (paths.map (Path.resolve base)).Nodup ↔ (paths.map Path.components).Nodup := by
  have hresolve : paths.map (Path.resolve base) = (paths.map Path.components).map (base ++ ·) := by
    rw [List.map_map]
    exact List.map_congr_left fun p hp => (h p hp).resolve base
  rw [hresolve, List.nodup_map_iff (List.append_right_injective base)]

theorem Store.Accepted.labels {s : Store} (hs : s.Accepted) :
    (s.tables.map fun x => x.2.label).Nodup := by
  obtain ⟨d, hkeyed, hd⟩ := hs.declared
  have hlabels : s.tables.map (fun x => x.2.label) = d.tables.map (·.1) := by
    rw [map_eq_map_iff]
    exact hd.tables.flip.imp fun _ _ hh => hh.2.label
  rw [hlabels]
  exact hkeyed.tables

theorem Store.Accepted.libraries_apart {s : Store} (hs : s.Accepted) (base : List String) :
    s.tables.Pairwise fun x y => '/' ∉ x.2.label.toList → '/' ∉ y.2.label.toList →
      Path.resolve base x.2.path ≠ Path.resolve base y.2.path := by
  refine (List.pairwise_map.mp hs.labels).imp fun {x y} hne hx hy hh => hne ?_
  obtain ⟨dir, hdir⟩ := Table.resolve_path hx base
  obtain ⟨other, hother⟩ := Table.resolve_path hy base
  rw [hdir, hother] at hh
  have hname := (List.append_inj_right' hh rfl)
  exact (String.append_left_inj _).mp (List.singleton_inj.mp hname)

/-- The files of a run that succeeds lie where the paths of the configuration lead from the output
directory, and a file holds its text unless one that is written later lies in the same place. So
they are distinct and all hold their texts just if these paths resolve to distinct places. Paths
that do not lead up are told apart by their components, and the libraries of labels without slashes
never share a place. -/
theorem Store.generate_outputs (s : Store) (hs : s.Accepted) :
    (∀ types cwd r d d' report, s.generate cwd d (.ofString r) types = (d', .ok report) →
      ∃ outputs, s.Outputs types cwd (.ofString r) outputs ∧ report.written = outputs.map (·.1) ∧
        outputs.map (fun w => w.1.place d.current) =
          s.outputPaths.map (Path.resolve ((s.output (.ofString r)).reached d.current)) ∧
        (∀ before w after, outputs = before ++ w :: after →
          (∀ v ∈ after, v.1.place d.current ≠ w.1.place d.current) →
          d'.file? (w.1.place d.current) = some (Utf8.encode w.2)) ∧
        ((s.outputPaths.map (Path.resolve ((s.output (.ofString r)).reached d.current))).Nodup ↔
          (outputs.map fun w => w.1.place d.current).Nodup ∧
            ∀ w ∈ outputs, d'.file? (w.1.place d.current) = some (Utf8.encode w.2))) ∧
    ∀ base, ((∀ p ∈ s.outputPaths, Path.IsPlain p) →
        ((s.outputPaths.map (Path.resolve base)).Nodup ↔
          (s.outputPaths.map Path.components).Nodup)) ∧
      s.tables.Pairwise fun x y => '/' ∉ x.2.label.toList → '/' ∉ y.2.label.toList →
        Path.resolve base x.2.path ≠ Path.resolve base y.2.path := by
  refine ⟨fun types cwd r d d' report h => ?_, fun base =>
    ⟨fun hplain => Path.nodup_resolve_iff hplain base, hs.libraries_apart base⟩⟩
  obtain ⟨outputs, houtputs, hreport, hall⟩ := outputs_of_generate h
  have hplaces := houtputs.places hall
  refine ⟨outputs, houtputs, hreport, hplaces,
    fun before w after hsplit hlast => Plan.file?_of_last hall hsplit hlast, ?_⟩
  rw [← hplaces]
  exact ⟨fun hnodup => ⟨hnodup, Plan.file?_of_nodup hall hnodup⟩, fun hh => hh.1⟩

theorem generate_outputs_items : ∃ d' report outputs,
    itemStore.generate "/work" emptyProject (.ofString "src") itemStore.userTypes =
      (d', .ok report) ∧
    itemStore.Outputs itemStore.userTypes "/work" (.ofString "src") outputs ∧
    report.written = outputs.map (·.1) ∧
    outputs.map (fun w => w.1.place ["work"]) = [["work", "src", "codegen", "tables", "Item.sol"],
      ["work", "src", "codegen", "common.sol"], ["work", "src", "codegen", "index.sol"]] ∧
    ∀ w ∈ outputs, d'.file? (w.1.place ["work"]) = some (Utf8.encode w.2) := by
  have hrun : fault? (itemStore.generate "/work" emptyProject (.ofString "src")
      itemStore.userTypes).2 = none := by decide +kernel
  obtain ⟨report, hreport⟩ := fault?_eq_none.mp hrun
  have hgenerate : itemStore.generate "/work" emptyProject (.ofString "src") itemStore.userTypes =
      (_, .ok report) := Prod.ext rfl hreport
  obtain ⟨hends, -⟩ := Store.generate_outputs itemStore itemStore_accepted
  obtain ⟨outputs, houtputs, hwritten, hplaces, -, hdistinct⟩ := hends _ _ _ _ _ _ hgenerate
  exact ⟨_, report, outputs, hgenerate, houtputs, hwritten, hplaces,
    (hdistinct.mp (by decide)).2⟩

def corner : Json.Members :=
  [("tables", .obj [("index", .obj [("schema", .obj [("value", .str "uint8")]),
    ("codegen", .obj [("outputDirectory", .str ".")])])])]

def cornerStore : Store where
  space := ""
  tables := [("index", {
      label := "index", kind := .table, space := "", name := "index"
      schema := [("value", ⟨.uint8, "uint8"⟩)]
      key := [], codegen := ⟨".", false, false, false⟩, deploy := ⟨false⟩ })]
  userTypes := []
  enums := []
  codegen := ⟨"@latticexyz/store/src/", "common.sol", "codegen", "index.sol"⟩

/-- A library may be lost to the index in one and the same run. -/
theorem corner_lost : (Json.obj corner).WellFormed ∧ Store.define corner = .ok cornerStore ∧
    ∃ d' report file text, cornerStore.generate "/work" emptyProject (.ofString "src")
        cornerStore.userTypes = (d', .ok report) ∧
      cornerStore.libraries cornerStore.userTypes = .ok [file] ∧
      file.options.render "/work" = .ok text ∧
      report.written.map (Location.place ["work"]) =
        [["work", "src", "codegen", "index.sol"], ["work", "src", "codegen", "index.sol"]] ∧
      d'.file? ["work", "src", "codegen", "index.sol"] ≠ some (Utf8.encode text) := by
  have hdefine : Store.define corner = .ok cornerStore := by decide +kernel
  have hrun : fault? (cornerStore.generate "/work" emptyProject (.ofString "src")
      cornerStore.userTypes).2 = none := by decide +kernel
  obtain ⟨report, hreport⟩ := fault?_eq_none.mp hrun
  obtain ⟨d', hgenerate⟩ : ∃ d', cornerStore.generate "/work" emptyProject (.ofString "src")
      cornerStore.userTypes = (d', .ok report) := ⟨_, Prod.ext rfl hreport⟩
  obtain ⟨outputs, houtputs, hwritten, hall⟩ := Store.outputs_of_generate hgenerate
  have hlocations := houtputs.locations
  obtain ⟨files, written, hfiles, hrendered, rfl⟩ := houtputs
  rcases Store.libraries_files hfiles with _ | ⟨-, hnil⟩
  next file _ =>
    cases hnil
    obtain ⟨w, hw, -, htext⟩ := exists_of_mem_right hrendered.flip (List.mem_singleton_self file)
    have hindex := Plan.file?_of_last hall rfl (List.forall_mem_nil _)
    refine ⟨by simp [corner], hdefine, d', report, file, w.2, hgenerate, hfiles, htext, ?_, ?_⟩
    · rw [hwritten, hlocations]
      decide
    · intro hlost
      have hsame := Utf8.encode_injective (Option.some.inj (hlost.symm.trans hindex))
      exact LibraryOptions.render_ne_index htext [file] hsame

end SolidityTables

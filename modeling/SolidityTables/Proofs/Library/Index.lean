import SolidityTables.Proofs.Library.Imports

/-!
# Where the index leads

The index imports every library by its path as seen from the output directory, wherever the index
itself lies. So its imports lead to the libraries if it lies directly in that directory. From any
other place a path leads to a library only by way of the root.
-/

namespace SolidityTables

open Attempt

theorem Import.relativeTarget?_beside (p : String) (dir : List String) :
    relativeTarget? dir ("./" ++ p) = some ((Path.components p).foldl Path.step dir) := by
  have hdot : "./".toList.isPrefixOf ("./" ++ p).toList = true := by
    rw [String.toList_append, List.isPrefixOf_iff_prefix]
    exact List.prefix_append _ _
  rw [relativeTarget?, hdot, Bool.true_or, if_pos rfl, Path.resolve_dot_slash]

namespace Store

def output (s : Store) (root : Location) : Location :=
  root.child s.codegen.outputDirectory

def indexFile (s : Store) (root : Location) : Location :=
  (s.output root).child s.codegen.indexFilename

def indexDirectory (s : Store) (root : Location) (current : List String) : List String :=
  ((s.indexFile root).place current).dropLast

variable {s : Store} {root : Location} {current : List String} {dir label : String}

theorem indexDirectory_eq (hindex : Path.IsPlain s.codegen.indexFilename)
    (hne : Path.components s.codegen.indexFilename ≠ []) :
    s.indexDirectory root current =
      (s.output root).reached current ++ (Path.components s.codegen.indexFilename).dropLast := by
  rw [indexDirectory, indexFile, Location.place_child _ hindex hne,
    List.dropLast_append_of_ne_nil hne]

theorem libraryPath_reaches (hindex : Path.IsPlain s.codegen.indexFilename) {p : String}
    (hp : p = Path.join dir (label ++ ".sol"))
    (hplace : Path.isAbsolute p = true ∨ Path.components s.codegen.indexFilename ≠ []) :
    (Path.components p).foldl Path.step (s.indexDirectory root current) =
        ((s.output root).child p).place current ↔
      (Path.isAbsolute p = false ∧ (Path.components s.codegen.indexFilename).length = 1) ∨
        (s.indexDirectory root current).length ≤ (Path.Trail.ofParts (Path.components p)).up := by
  obtain ⟨front, name, hname⟩ := libraryPath_last dir label
  rw [← hp] at hname
  have hparts : ∃ before, ((s.output root).child p).parts = before ++ [name ++ ".sol"] := by
    rw [Location.child]
    split
    · exact ⟨(s.output root).parts ++ front, by
        rw [List.append_assoc, ← hname]
        rfl⟩
    · exact ⟨front, hname⟩
  obtain ⟨before, hbefore⟩ := hparts
  -- Both ways follow the same components, the one from the directory of the index and the other
  -- from the output directory above it, or from the root if the path is absolute.
  rw [Location.place_eq_reached hbefore (libraryName_step name), Location.reached_child,
    Path.Trail.foldl_step, Path.Trail.foldl_step]
  cases habsolute : Path.isAbsolute p with
  | true =>
    have hiff := (Path.Trail.ofParts (Path.components p)).follow_append_iff []
      (s.indexDirectory root current)
    rw [List.nil_append] at hiff
    rw [if_pos rfl, hiff]
    simp only [reduceCtorEq, false_and, false_or, or_iff_right_iff_imp]
    intro hroot
    rw [hroot]
    exact Nat.zero_le _
  | false =>
    have hne := hplace.resolve_left (by rw [habsolute]; exact Bool.false_ne_true)
    have hdirect : (Path.components s.codegen.indexFilename).dropLast = [] ↔
        (Path.components s.codegen.indexFilename).length = 1 := by
      have hpos := List.length_pos_of_ne_nil hne
      rw [← List.length_eq_zero_iff, List.length_dropLast]
      omega
    rw [if_neg Bool.false_ne_true, indexDirectory_eq hindex hne, Path.Trail.follow_append_iff,
      hdirect]
    simp only [true_and]

theorem libraryPath_down {p : String} (hp : p = Path.join dir (label ++ ".sol"))
    (hdir : Path.IsPlain dir) (hlabel : '/' ∉ label.toList) :
    Path.isAbsolute p = false ∧ (Path.Trail.ofParts (Path.components p)).up = 0 := by
  have hrelative := libraryName_relative hlabel
  have hnames : ∀ c ∈ Path.components p, Path.IsName c := by
    rw [hp, Path.components_join hrelative, libraryName_components hlabel, List.forall_mem_append,
      List.forall_mem_singleton]
    exact ⟨fun c hc => hdir.names hc, libraryName_isName hlabel⟩
  rw [Path.Trail.ofParts_names hnames, hp]
  exact ⟨Path.isAbsolute_join hdir.relative hrelative, rfl⟩

theorem plan_writes {types : List (String × UserType)} {files : List LibraryFile} {cwd : String}
    {p : Plan} {r : Report} (h : s.libraries types = .ok files)
    (hp : s.plan cwd root types = .ok p) (hr : p.result = .ok r) :
    (files ≠ [] → .file (s.indexFile root) (indexText files) ∈ p.actions) ∧
      ∀ f ∈ files, ∃ text, f.options.render cwd = .ok text ∧
        .file ((s.output root).child f.path) text ∈ p.actions := by
  rw [plan, h] at hp
  cases hp
  have hfile {w : Location × String} {ws : List (Location × String)} (hw : w ∈ ws) :
      Action.file w.1 w.2 ∈ ws.flatMap Plan.writing :=
    List.mem_flatMap.mpr ⟨w, hw, List.mem_cons_of_mem _ (List.mem_singleton_self _)⟩
  rcases Plan.rendered_or_fault cwd (s.output root) files with
    ⟨written, hrendered⟩ | ⟨before, f, after, written, fault, rfl, hrendered, hf⟩
  · rw [(Plan.ofLibraries_rendered root s hrendered).1]
    constructor
    · intro hfiles
      have hindex : (s.indexFile root, indexText files) ∈
          Plan.sharedFiles (s.output root) s files := by
        rw [Plan.sharedFiles, if_neg hfiles]
        exact List.mem_append_right _ (List.mem_singleton_self _)
      exact hfile (List.mem_append_right written hindex)
    · intro f hf
      obtain ⟨w, hw, hplace, htext⟩ := exists_of_mem_right hrendered.flip hf
      refine ⟨w.2, htext, ?_⟩
      rw [← hplace]
      exact hfile (List.mem_append_left _ hw)
  · rw [Plan.ofLibraries_fault root s hrendered hf] at hr
    cases hr

theorem index_not_output {types : List (String × UserType)} {files : List LibraryFile}
    {cwd r : String} {d d' : Disk} {report : Report}
    (hindex : Path.IsPlain s.codegen.indexFilename) (hfiles : s.libraries types = .ok files)
    (h : s.generate cwd d (.ofString r) types = (d', .ok report)) {f : LibraryFile} (hf : f ∈ files)
    (hrelative : Path.isAbsolute f.path = false) :
    Path.components s.codegen.indexFilename ≠ [] := by
  obtain ⟨files', written, hfiles', hrendered, hall, -⟩ := generate_eq_ok h
  rw [hfiles] at hfiles'
  cases hfiles'
  obtain ⟨w, hw, hplace, -⟩ := exists_of_mem_right hrendered.flip hf
  obtain ⟨before, after, rfl⟩ := List.append_of_mem hw
  obtain ⟨x, -, hpath, -⟩ := exists_of_mem_right (libraries_files hfiles) hf
  obtain ⟨front, name, hname⟩ := libraryPath_last x.2.codegen.outputDirectory x.2.label
  rw [← hpath] at hname
  -- The index is written last, and so after the library.
  have hlast : Plan.sharedFiles (s.output (.ofString r)) s files =
      Plan.sharedFiles (s.output (.ofString r)) s [] ++
        [(s.indexFile (.ofString r), indexText files)] := by
    rw [Plan.sharedFiles, Plan.sharedFiles, if_neg (List.ne_nil_of_mem hf), if_pos rfl,
      List.append_nil]
    rfl
  have hws : (before ++ w :: after) ++ Plan.sharedFiles (s.output (.ofString r)) s files =
      before ++ w :: ((after ++ Plan.sharedFiles (s.output (.ofString r)) s []) ++
        [(s.indexFile (.ofString r), indexText files)]) := by
    rw [hlast]
    simp only [List.append_assoc, List.cons_append]
  have hlibrary := Location.child_relative (s.output (.ofString r)) hrelative
  have hchild := Location.child_relative (s.output (.ofString r)) hindex.relative
  intro hempty
  refine Plan.not_above hall hws ?_ ?_ ?_
  · rw [hplace, indexFile, hchild]
    exact (congrArg Location.slashes hlibrary).symm
  · exact Location.child_lead (Location.child_lead (Location.ofString_lead r) _) _
  · have hparts : w.1.parts = ((s.output (.ofString r)).parts ++ front) ++ [name ++ ".sol"] := by
      rw [hplace, List.append_assoc, ← hname]
      exact congrArg Location.parts hlibrary
    rw [indexFile, hchild, hempty, List.append_nil, hparts, List.dropLast_concat]
    exact List.prefix_append _ _

end Store

/-- The index has a line for every library, which imports it by its path in the output directory.
From the directory of the index this leads to the library that is written just if the index lies
directly in the output directory and the path is relative, or if the path leads up to the root; it
is relative and does not lead up if the label has no slash. If a library lies below the output
directory, this is not the index itself, or no run succeeds. -/
theorem Store.index_imports (s : Store) (hindex : Path.IsPlain s.codegen.indexFilename)
    (types : List (String × UserType)) (files : List LibraryFile)
    (h : s.libraries types = .ok files) :
    indexText files = String.intercalate "\n" (fileHeader ++ "" :: files.map (fun f =>
      "import \x7b " ++ String.intercalate ", " f.indexLine.symbols ++ " \x7d from \"" ++
        ("./" ++ f.path) ++ "\";") ++ [""]) ∧
    (∀ root, List.Forall₂ (fun x file =>
      (∀ current, Path.isAbsolute file.path = true ∨
          Path.components s.codegen.indexFilename ≠ [] →
        (Import.relativeTarget? (s.indexDirectory root current) ("./" ++ file.path) =
            some (((s.output root).child file.path).place current) ↔
          (Path.isAbsolute file.path = false ∧
            (Path.components s.codegen.indexFilename).length = 1) ∨
          (s.indexDirectory root current).length ≤
            (Path.Trail.ofParts (Path.components file.path)).up)) ∧
      (Path.IsPlain x.2.codegen.outputDirectory → '/' ∉ x.2.label.toList →
        Path.isAbsolute file.path = false ∧
          (Path.Trail.ofParts (Path.components file.path)).up = 0)) s.tables files) ∧
    (∀ cwd root p r, s.plan cwd root types = .ok p → p.result = .ok r →
      (files ≠ [] → .file (s.indexFile root) (indexText files) ∈ p.actions) ∧
      ∀ f ∈ files, ∃ text, f.options.render cwd = .ok text ∧
        .file ((s.output root).child f.path) text ∈ p.actions) ∧
    ∀ cwd r d d' report, s.generate cwd d (.ofString r) types = (d', .ok report) →
      (∃ f ∈ files, Path.isAbsolute f.path = false) →
      Path.components s.codegen.indexFilename ≠ [] := by
  refine ⟨rfl, fun root => ?_, fun cwd root p r hp hr => plan_writes h hp hr, ?_⟩
  · apply (libraries_files h).imp
    intro x file hh
    obtain ⟨hpath, -⟩ := hh
    refine ⟨fun current hplace => ?_, libraryPath_down hpath⟩
    rw [Import.relativeTarget?_beside, Option.some_inj]
    exact libraryPath_reaches hindex hpath hplace
  · intro cwd r d d' report hrun hsome
    obtain ⟨f, hf, hrelative⟩ := hsome
    exact index_not_output hindex h hrun hf hrelative

theorem index_imports_items : ∃ file d' report,
    itemStore.libraries itemStore.userTypes = .ok [file] ∧
      itemStore.generate "/work" emptyProject (.ofString "src") itemStore.userTypes =
        (d', .ok report) ∧
      ∀ (root : Location) (current : List String),
        Import.relativeTarget? (itemStore.indexDirectory root current) ("./" ++ file.path) =
          some (((itemStore.output root).child file.path).place current) := by
  have hindex : Path.IsPlain itemStore.codegen.indexFilename := ⟨by decide, by decide⟩
  have hdir : Path.IsPlain itemTable.codegen.outputDirectory := ⟨by decide, by decide⟩
  have hrun : fault? (itemStore.generate "/work" emptyProject (.ofString "src")
      itemStore.userTypes).2 = none := by decide +kernel
  obtain ⟨report, hreport⟩ := fault?_eq_none.mp hrun
  obtain ⟨d', hgenerate⟩ : ∃ d', itemStore.generate "/work" emptyProject (.ofString "src")
      itemStore.userTypes = (d', .ok report) := ⟨_, Prod.ext rfl hreport⟩
  obtain ⟨files, written, hfiles, -⟩ := Store.generate_eq_ok hgenerate
  obtain ⟨-, hreaches, -, hnotOutput⟩ := Store.index_imports itemStore hindex _ files hfiles
  rcases hreaches (.ofString "src") with _ | ⟨⟨-, hdown⟩, hnil⟩
  next file _ =>
    cases hnil
    obtain ⟨hrelative, -⟩ := hdown hdir (by decide)
    have hne := hnotOutput _ _ _ _ _ hgenerate ⟨file, List.mem_singleton_self file, hrelative⟩
    refine ⟨file, d', report, hfiles, hgenerate, fun root current => ?_⟩
    rcases hreaches root with _ | ⟨⟨hleads, -⟩, -⟩
    exact (hleads current (.inr hne)).mpr (.inl ⟨hrelative, by decide⟩)

def shelved : Json.Members :=
  [("tables", .obj [("Counter", .obj [("schema", .obj [("value", .str "uint8")])])]),
   ("codegen", .obj [("indexFilename", .str "lib/index.sol")])]

def shelvedStore : Store where
  space := ""
  tables := [("Counter", {
      label := "Counter", kind := .table, space := "", name := "Counter"
      schema := [("value", ⟨.uint8, "uint8"⟩)]
      key := [], codegen := ⟨"tables", false, false, false⟩, deploy := ⟨false⟩ })]
  userTypes := []
  enums := []
  codegen := ⟨"@latticexyz/store/src/", "common.sol", "codegen", "lib/index.sol"⟩

/-- The index in a directory of its own imports a file that is not there. -/
theorem shelved_index : Store.define shelved = .ok shelvedStore ∧
    (∀ p ∈ ["codegen", "tables", "lib/index.sol"], Path.IsPlain p) ∧
    ∃ file d' report, shelvedStore.libraries shelvedStore.userTypes = .ok [file] ∧
      shelvedStore.generate "/work" emptyProject (.ofString "src") shelvedStore.userTypes =
        (d', .ok report) ∧
      ((shelvedStore.output (.ofString "src")).child file.path).place ["work"] =
        ["work", "src", "codegen", "tables", "Counter.sol"] ∧
      Import.relativeTarget? (shelvedStore.indexDirectory (.ofString "src") ["work"])
        ("./" ++ file.path) =
          some ["work", "src", "codegen", "lib", "tables", "Counter.sol"] ∧
      d'.get? ["work", "src", "codegen", "lib", "tables", "Counter.sol"] = none := by
  have hplain : ∀ p ∈ ["codegen", "tables", "lib/index.sol"],
      Path.isAbsolute p = false ∧ ".." ∉ Path.pieces p := by decide
  have hpaths : (shelvedStore.libraries shelvedStore.userTypes).map (fun files =>
      files.map fun f => f.path) = .ok ["tables/Counter.sol"] := by decide +kernel
  have hrun : fault? (shelvedStore.generate "/work" emptyProject (.ofString "src")
      shelvedStore.userTypes).2 = none := by decide +kernel
  obtain ⟨report, hreport⟩ := fault?_eq_none.mp hrun
  obtain ⟨files, hfiles, hone⟩ := map_eq_ok.mp hpaths
  obtain ⟨file, _, rfl, hpath, hnil⟩ := List.map_eq_cons_iff.mp hone
  cases List.map_eq_nil_iff.mp hnil
  refine ⟨by decide +kernel, fun p hp => ⟨(hplain p hp).1, (hplain p hp).2⟩, file, _, report,
    hfiles, Prod.ext rfl hreport, ?_, ?_, by decide +kernel⟩
  · rw [hpath]
    decide
  · rw [hpath]
    decide

end SolidityTables

import SolidityTables.Proofs.Library.ImportPath
import SolidityTables.Proofs.Library.Planning
import SolidityTables.Proofs.Library.Source

/-!
# Libraries as written from different directories

The path of an import is told through the working directory, of which nothing is left in it just if
its directory and its target climb alike. All that stays below does, and then the libraries of a
store are the same text wherever they are written from.
-/

namespace SolidityTables

open Attempt

namespace Path

/-- A relative path whose normal form does not begin with two dots. -/
structure StaysBelow (p : String) : Prop where
  relative : isAbsolute p = false
  below : (components (normal p)).head? ≠ some ".."

instance (p : String) : Decidable (StaysBelow p) :=
  decidable_of_iff (isAbsolute p = false ∧ (components (normal p)).head? ≠ some "..")
    ⟨fun h => ⟨h.1, h.2⟩, fun h => ⟨h.relative, h.below⟩⟩

/-- Two paths climb equally many levels, or both begin at the root. -/
structure ClimbAlike (p q : String) : Prop where
  rooted : isAbsolute p = isAbsolute q
  levels : isAbsolute p = false → (trail p).up = (trail q).up

section Places

variable {p q : String} {start target : List String}

theorem StaysBelow.up (h : StaysBelow p) : (trail p).up = 0 := by
  by_contra hup
  obtain ⟨n, hn⟩ := Nat.exists_eq_succ_of_ne_zero hup
  refine h.below ?_
  rw [components_normal, normalParts_eq, h.relative, Trail.spelled, hn]
  rfl

theorem StaysBelow.leadsDown (h : StaysBelow p) : LeadsDown p (trail p).down := by
  intro base
  rw [resolve_eq_follow, h.relative, Trail.follow, h.up]
  exact congrArg (· ++ _) (List.take_length ..)

def depth (p : String) (n : Nat) : Nat :=
  (if isAbsolute p then 0 else n - (trail p).up) + (trail p).down.length

theorem length_resolve (base : List String) (p : String) :
    (resolve base p).length = depth p base.length := by
  rw [resolve_eq_follow, Trail.follow, List.length_append, List.length_take, depth]
  split_ifs
  · simp
  · omega

theorem length_between (h : ∀ c ∈ target, IsName c) (start : List String) :
    target.length + 2 * (between start target).count ".." =
      start.length + (between start target).length := by
  obtain ⟨shared, up, down, rfl, rfl, hway⟩ := between_parts start target
  have hnone : ".." ∉ down := fun hmem => (h _ (List.mem_append_right _ hmem)).not_dots rfl
  rw [hway, List.count_append, List.count_replicate_self, List.count_eq_zero.mpr hnone]
  simp only [List.length_append, List.length_replicate]
  omega

theorem exists_depth (n : Nat) : ∃ cwd, isAbsolute cwd = true ∧ (resolve [] cwd).length = n := by
  have hnames : ∀ c ∈ List.replicate n "x", IsName c := by
    intro c hc
    rw [List.eq_of_mem_replicate hc]
    exact ⟨by decide, by decide, by decide, by decide⟩
  have hparts : components (String.intercalate "/" (List.replicate n "x")) =
      List.replicate n "x" := components_intercalate fun c hc =>
    ⟨(hnames c hc).nonempty, (hnames c hc).not_dot, (hnames c hc).no_slash⟩
  refine ⟨"/" ++ String.intercalate "/" (List.replicate n "x"), isAbsolute_append (by decide) _, ?_⟩
  have hroot : components ("/" ++ String.intercalate "/" (List.replicate n "x")) =
      components (String.intercalate "/" (List.replicate n "x")) := components_slashes 1 _
  rw [resolve_eq_components, ite_self, hroot, hparts, foldl_step_names hnames, List.nil_append,
    List.length_replicate]

theorem climbAlike_iff :
    ClimbAlike p q ↔ ∀ n m, depth q n + depth p m = depth q m + depth p n := by
  unfold depth
  constructor
  · intro h n m
    have hrooted := h.rooted
    have hlevels := h.levels
    cases hp : isAbsolute p with
    | true =>
      rw [← hrooted, hp]
      simp only [if_true]
    | false =>
      rw [← hrooted, hp, hlevels hp]
      simp only [Bool.false_eq_true, if_false]
      omega
  · intro h
    -- at this depth neither path climbs to the root, which each does from the root itself
    have hdeep := h 0 ((trail p).up + (trail q).up + 1)
    cases hp : isAbsolute p <;> cases hq : isAbsolute q <;>
      simp only [hp, hq, if_true, if_false, Bool.false_eq_true] at hdeep
    · exact ⟨by rw [hp, hq], fun _ => by omega⟩
    · omega
    · omega
    · exact ⟨by rw [hp, hq], fun hh => by simp [hp] at hh⟩

end Places

end Path

namespace Import

variable {cwd cwd' p : String} {i : Import}

theorem path_eq_of_unpackaged (h : isPackage i.target = false → i.path cwd = i.path cwd') :
    i.path cwd = i.path cwd' := by
  cases hpackage : isPackage i.target with
  | true => rw [path_of_package hpackage, path_of_package hpackage]
  | false => exact h hpackage

theorem path_eq_of_leadsDown {start target : List String}
    (hdirectory : Path.LeadsDown i.directory start) (htarget : Path.LeadsDown i.target target)
    (cwd cwd' : String) : i.path cwd = i.path cwd' := by
  refine path_eq_of_unpackaged fun hpackage => ?_
  rw [path_of_leadsDown hpackage hdirectory htarget, path_of_leadsDown hpackage hdirectory htarget]

theorem components_dotted (p : String) : Path.components (dotted p) = Path.components p := by
  rw [dotted]
  split_ifs
  · rfl
  · exact Path.components_dot_slash p

theorem path_of_climbAlike (hpackage : isPackage i.target = false)
    (h : Path.ClimbAlike i.directory i.target) (cwd : String) :
    i.path cwd = dotted (Path.relative
      (Path.between (Path.trail i.directory).down (Path.trail i.target).down)) := by
  have hdirectory := Path.resolve_eq_follow (Path.resolve [] cwd) i.directory
  have htarget := Path.resolve_eq_follow (Path.resolve [] cwd) i.target
  rw [Path.Trail.follow] at hdirectory htarget
  rw [← h.rooted] at htarget
  cases hp : Path.isAbsolute i.directory with
  | true =>
    rw [hp, if_pos rfl, List.take_nil] at hdirectory htarget
    exact path_of_shared hpackage hdirectory htarget
  | false =>
    rw [← h.levels hp] at htarget
    exact path_of_shared hpackage hdirectory htarget

theorem length_components_path (hcwd : Path.isAbsolute cwd = true)
    (hpackage : isPackage i.target = false) :
    Path.depth i.target (Path.resolve [] cwd).length +
        2 * (Path.components (i.path cwd)).count ".." =
      Path.depth i.directory (Path.resolve [] cwd).length +
        (Path.components (i.path cwd)).length := by
  have hnames := Path.absolute_names hcwd i.target
  have hfar := Path.length_between hnames (Path.components (Path.absolute cwd i.directory))
  rw [path_eq_way hcwd hpackage, components_dotted, Path.components_between hnames,
    ← Path.length_resolve, ← Path.length_resolve]
  simp only [Path.components_absolute hcwd] at hfar ⊢
  exact hfar

theorem path_stable_iff (i : Import) :
    (∀ cwd cwd', Path.isAbsolute cwd = true → Path.isAbsolute cwd' = true →
      i.path cwd = i.path cwd') ↔
    isPackage i.target = true ∨ Path.ClimbAlike i.directory i.target := by
  constructor
  · intro h
    cases hpackage : isPackage i.target with
    | true => exact .inl rfl
    | false =>
      -- a path tells how much deeper the target lies than the directory, and that is all we need
      refine .inr (Path.climbAlike_iff.mpr fun n m => ?_)
      obtain ⟨cwd, hcwd, rfl⟩ := Path.exists_depth n
      obtain ⟨cwd', hcwd', rfl⟩ := Path.exists_depth m
      have hfar := length_components_path hcwd hpackage
      have hfar' := length_components_path hcwd' hpackage
      rw [h cwd cwd' hcwd hcwd'] at hfar
      omega
  · rintro (hpackage | halike) cwd cwd' - -
    · rw [path_of_package hpackage, path_of_package hpackage]
    · refine path_eq_of_unpackaged fun hpackage => ?_
      rw [path_of_climbAlike hpackage halike, path_of_climbAlike hpackage halike]

end Import

theorem ImportLine.text_inj {symbols : List String} {p q : String} :
    (⟨symbols, p⟩ : ImportLine).text = (⟨symbols, q⟩ : ImportLine).text ↔ p = q := by
  simp only [ImportLine.text, String.append_left_inj, String.append_right_inj]

theorem LibrarySource.text_inj_import {s : LibrarySource} {i j : ImportLine} :
    text { s with typeImports := [i] } = text { s with typeImports := [j] } ↔ i.text = j.text := by
  simp only [text, lines, List.cons_ne_nil, if_false, List.map_cons, List.map_nil,
    List.append_assoc, fileText_append_inj]
  change fileText (i.text :: _) = fileText (j.text :: _) ↔ _
  rw [fileText_cons, fileText_cons, String.append_left_inj, String.append_left_inj]

namespace LibraryOptions

variable {codegen : StoreCodegen} {scope : Scope} {t : Table} {o : LibraryOptions}

def typeImports (cwd : String) (o : LibraryOptions) : List ImportLine :=
  o.imports.map fun i => ⟨[i.symbol], i.path cwd⟩

theorem source_eq_ok_of (cwd' : String) {cwd : String} {source : LibrarySource}
    (h : o.source cwd = .ok source) :
    o.source cwd' = .ok { source with typeImports := o.typeImports cwd' } := by
  simp only [LibraryOptions.source, bind_eq_ok, pure_eq_ok] at h ⊢
  obtain ⟨layout, hlayout, words, hwords, rfl⟩ := h
  exact ⟨layout, hlayout, words, hwords, rfl⟩

theorem source_congr {cwd cwd' : String} (h : o.typeImports cwd = o.typeImports cwd') :
    o.source cwd = o.source cwd' := by
  unfold typeImports at h
  rw [source, source, h]

theorem render_congr {cwd cwd' : String} (h : ∀ i ∈ o.imports, i.path cwd = i.path cwd') :
    o.render cwd = o.render cwd' := by
  have himports : o.typeImports cwd = o.typeImports cwd' :=
    List.map_congr_left fun i hi => by rw [h i hi]
  rw [render, render, source_congr himports]

theorem render_eq_iff {i : Import} {cwd cwd' text : String} (himports : o.imports = [i])
    (h : o.render cwd = .ok text) : o.render cwd' = .ok text ↔ i.path cwd' = i.path cwd := by
  have hone (dir : String) : o.typeImports dir = [⟨[i.symbol], i.path dir⟩] := by
    rw [typeImports, himports, List.map_singleton]
  obtain ⟨source, hsource, rfl⟩ := map_eq_ok.mp h
  have hrender (dir : String) := congrArg (·.map (·.text)) (source_eq_ok_of dir hsource)
  have htext : source.text = LibrarySource.text { source with typeImports := o.typeImports cwd } :=
    Except.ok.inj (h.symm.trans (hrender cwd))
  have hrender' : o.render cwd' =
      .ok (LibrarySource.text { source with typeImports := o.typeImports cwd' }) := hrender cwd'
  rw [hrender', htext, Except.ok.injEq, hone, hone, LibrarySource.text_inj_import,
    ImportLine.text_inj]

theorem ofNamed?_target {directory name : String} {n : NamedType} {i : Import}
    (h : Import.ofNamed? codegen directory name n = some i) : i.directory = directory ∧
      (i.target = Path.join codegen.outputDirectory codegen.userTypesFilename ∨
        ∃ u, n = .user u ∧ u.filePath ≠ "" ∧ i.target = u.filePath) := by
  cases n with
  | abi a => cases h
  | enum =>
    cases h
    exact ⟨rfl, .inl rfl⟩
  | user u =>
    rw [Import.ofNamed?] at h
    split_ifs at h with hnone
    cases h
    exact ⟨rfl, .inr ⟨u, rfl, hnone, rfl⟩⟩

theorem ofTable_import_target (h : ofTable codegen scope t = .ok o) {i : Import}
    (hi : i ∈ o.imports) :
    i.directory = Path.join codegen.outputDirectory t.codegen.outputDirectory ∧
      (i.target = Path.join codegen.outputDirectory codegen.userTypesFilename ∨
        ∃ x ∈ scope.userTypes, x.2.filePath ≠ "" ∧ i.target = x.2.filePath) := by
  obtain ⟨n, hn, hnamed⟩ := Option.bind_eq_some_iff.mp (ofTable_import h hi)
  obtain ⟨hdirectory, htypes | ⟨u, rfl, hfile, htarget⟩⟩ := ofNamed?_target hnamed
  · exact ⟨hdirectory, .inl htypes⟩
  · exact ⟨hdirectory, .inr ⟨_, Scope.mem_of_find?_user hn, hfile, htarget⟩⟩

end LibraryOptions

namespace Store

variable {s : Store} {types : List (String × UserType)}

structure TablesBelow (s : Store) : Prop where
  outputDirectory : Path.StaysBelow s.codegen.outputDirectory
  directories : ∀ x ∈ s.tables, Path.StaysBelow x.2.codegen.outputDirectory

/-- All that the libraries of a store import comes from packages, or stays below as they do. -/
structure Portable (s : Store) (types : List (String × UserType)) : Prop where
  typesFile : Import.isPackage s.typesPath = true ∨
    s.TablesBelow ∧ Path.StaysBelow s.codegen.userTypesFilename
  typeFiles : ∀ x ∈ types, x.2.filePath = "" ∨ Import.isPackage x.2.filePath = true ∨
    s.TablesBelow ∧ Path.StaysBelow x.2.filePath

theorem Portable.path_eq (h : s.Portable types) {x : String × Table} (hx : x ∈ s.tables)
    {o : LibraryOptions} (hplan : LibraryOptions.ofTable s.codegen ⟨s.enums, types⟩ x.2 = .ok o)
    {i : Import} (hi : i ∈ o.imports) (cwd cwd' : String) : i.path cwd = i.path cwd' := by
  obtain ⟨hdirectory, htarget⟩ := LibraryOptions.ofTable_import_target hplan hi
  have hbelow (hs : s.TablesBelow) {names : List String} (hi : Path.LeadsDown i.target names) :
      i.path cwd = i.path cwd' := by
    have hstart := hs.outputDirectory.leadsDown.join (hs.directories x hx).leadsDown
    rw [← hdirectory] at hstart
    exact Import.path_eq_of_leadsDown hstart hi cwd cwd'
  have hpackage (hi : Import.isPackage i.target = true) : i.path cwd = i.path cwd' := by
    rw [Import.path_of_package hi, Import.path_of_package hi]
  rcases htarget with htypes | ⟨u, hu, hfile, htarget⟩
  · obtain hfrom | ⟨hs, hfilename⟩ := h.typesFile
    · exact hpackage (htypes ▸ hfrom)
    · exact hbelow hs (htypes ▸ hs.outputDirectory.leadsDown.join hfilename.leadsDown)
  · obtain hnone | hfrom | ⟨hs, hfilepath⟩ := h.typeFiles u hu
    · exact absurd hnone hfile
    · exact hpackage (htarget ▸ hfrom)
    · exact hbelow hs (htarget ▸ hfilepath.leadsDown)

theorem Portable.render_eq (h : s.Portable types) {files : List LibraryFile}
    (hfiles : s.libraries types = .ok files) :
    ∀ file ∈ files, ∀ cwd cwd', file.options.render cwd = file.options.render cwd' := by
  intro file hfile cwd cwd'
  obtain ⟨x, hx, -, hplan⟩ := exists_of_mem_right (libraries_files hfiles) hfile
  exact LibraryOptions.render_congr fun i hi => h.path_eq hx hplan hi cwd cwd'

end Store

/-- The path of an import is the same from everywhere if its ends stay below, and from all working
directories just if it is that of a package or its ends climb alike. The libraries of a store are
the same if what they import comes from packages or stays below as they do. -/
theorem Store.render_anywhere :
    (∀ i : Import, Path.StaysBelow i.target → Path.StaysBelow i.directory →
      ∀ cwd cwd', i.path cwd = i.path cwd') ∧
    (∀ i : Import, (∀ cwd cwd', Path.isAbsolute cwd = true → Path.isAbsolute cwd' = true →
        i.path cwd = i.path cwd') ↔
      Import.isPackage i.target = true ∨ Path.ClimbAlike i.directory i.target) ∧
    ∀ s : Store, s.Accepted →
      (∀ types, s.Portable types → ∀ files, s.libraries types = .ok files →
        ∀ file ∈ files, ∀ cwd cwd', file.options.render cwd = file.options.render cwd') ∧
      (s.Portable s.userTypes → ∃ files, s.libraries s.userTypes = .ok files ∧
        ∀ file ∈ files, ∃ text, ∀ cwd, file.options.render cwd = .ok text) := by
  refine ⟨fun i htarget hdirectory cwd cwd' => ?_, Import.path_stable_iff,
    fun s hs => ⟨fun types h files hfiles => ?_, ?_⟩⟩
  · exact Import.path_eq_of_leadsDown hdirectory.leadsDown htarget.leadsDown cwd cwd'
  · exact h.render_eq hfiles
  · intro h
    obtain ⟨files, hfiles, hrender⟩ := hs.libraries_isOk "/"
    refine ⟨files, hfiles, fun file hfile => ?_⟩
    obtain ⟨text, htext⟩ := hrender file hfile
    exact ⟨text, fun cwd => (h.render_eq hfiles file hfile cwd "/").trans htext⟩

theorem Store.render_anywhere_items : ∃ file,
    itemStore.libraries [("Id", ⟨.static .address, "src/../Id.sol"⟩)] =
      .ok [file] ∧
    file.options.imports.map (·.target) = ["src/../Id.sol", "codegen/common.sol"] ∧
    ∀ cwd, file.options.render cwd = file.options.render "/work" := by
  have hplanned : (itemStore.libraries
      [("Id", ⟨.static .address, "src/../Id.sol"⟩)]).map (fun files =>
        files.map fun f => f.options.imports.map (·.target)) =
          .ok [["src/../Id.sol", "codegen/common.sol"]] := by decide +kernel
  obtain ⟨files, hfiles, hone⟩ := map_eq_ok.mp hplanned
  obtain ⟨file, _, rfl, htargets, hnil⟩ := List.map_eq_cons_iff.mp hone
  cases List.map_eq_nil_iff.mp hnil
  have htables : itemStore.TablesBelow := ⟨by decide +kernel, by decide +kernel⟩
  have hportable : itemStore.Portable
      [("Id", ⟨.static .address, "src/../Id.sol"⟩)] := by
    refine ⟨.inr ⟨htables, by decide +kernel⟩, List.forall_mem_singleton.mpr ?_⟩
    exact .inr (.inr ⟨htables, by decide +kernel⟩)
  obtain ⟨-, -, hstores⟩ := Store.render_anywhere
  obtain ⟨hsame, -⟩ := hstores itemStore itemStore_accepted
  exact ⟨file, hfiles, htargets, fun cwd =>
    hsame _ hportable _ hfiles file (List.mem_singleton_self _) cwd "/work"⟩

def Store.paths (s : Store) : List String :=
  s.codegen.outputDirectory :: s.codegen.userTypesFilename ::
    (s.tables.map (fun x => x.2.codegen.outputDirectory) ++ s.userTypes.map fun x => x.2.filePath)

def rooted : Json.Members :=
  [("userTypes", .obj [("Id", .obj [("type", .str "address"), ("filePath", .str "src/Id.sol")])]),
   ("tables", .obj [("Item", .obj [("schema", .obj [("id", .str "Id")])])]),
   ("codegen", .obj [("outputDirectory", .str "/gen@1")])]

def rootedStore : Store where
  space := ""
  tables := [("Item", {
      label := "Item", kind := .table, space := "", name := "Item"
      schema := [("id", ⟨.static .address, "Id"⟩)]
      key := [], codegen := ⟨"tables", false, false, false⟩, deploy := ⟨false⟩ })]
  userTypes := [("Id", ⟨.static .address, "src/Id.sol"⟩)]
  enums := []
  codegen := ⟨"@latticexyz/store/src/", "common.sol", "/gen@1", "index.sol"⟩

def climbing : Json.Members :=
  [("enums", .obj [("Rank", .arr [.str "Low", .str "High"])]),
   ("tables", .obj [("Player", .obj [("schema", .obj [("rank", .str "Rank")])])]),
   ("codegen", .obj [("outputDirectory", .str "./gen"),
     ("userTypesFilename", .str "@types/../../../common.sol")])]

def climbingStore : Store where
  space := ""
  tables := [("Player", {
      label := "Player", kind := .table, space := "", name := "Player"
      schema := [("rank", ⟨.uint8, "Rank"⟩)]
      key := [], codegen := ⟨"tables", false, false, false⟩, deploy := ⟨false⟩ })]
  userTypes := []
  enums := [("Rank", ["Low", "High"])]
  codegen := ⟨"@latticexyz/store/src/", "@types/../../../common.sol", "./gen", "index.sol"⟩

structure Store.Moves (s : Store) : Prop where
  accepted : s.Accepted
  paths : ∀ p ∈ s.paths, Path.StaysBelow p ∨ Import.isPackage p = true
  texts : ∃ file text, s.libraries s.userTypes = .ok [file] ∧ file.options.render "/" = .ok text ∧
    file.options.render "/work" ≠ .ok text

theorem Store.Accepted.render_ne {s : Store} (hs : s.Accepted) {i : Import} {cwd cwd' : String}
    (himports : (s.libraries s.userTypes).map (fun files => files.map fun f => f.options.imports) =
      .ok [[i]]) (hpath : i.path cwd' ≠ i.path cwd) :
    ∃ file text, s.libraries s.userTypes = .ok [file] ∧ file.options.render cwd = .ok text ∧
      file.options.render cwd' ≠ .ok text := by
  obtain ⟨files, hfiles, hrender⟩ := hs.libraries_isOk cwd
  obtain ⟨_, hplanned, hone⟩ := map_eq_ok.mp himports
  cases hfiles.symm.trans hplanned
  obtain ⟨file, _, rfl, hfile, hnil⟩ := List.map_eq_cons_iff.mp hone
  cases List.map_eq_nil_iff.mp hnil
  obtain ⟨text, htext⟩ := hrender file (List.mem_singleton_self _)
  refine ⟨file, text, hfiles, htext, fun hh => hpath ?_⟩
  exact (LibraryOptions.render_eq_iff hfile htext).mp hh

/-- It is the path that is imported which is told from the working directory or not, so paths that
look like packages one by one do not hold the libraries in place. -/
theorem Store.render_moves : rootedStore.Moves ∧ climbingStore.Moves := by
  have hrooted : Store.define rooted = .ok rootedStore := by decide +kernel
  have hclimbing : Store.define climbing = .ok climbingStore := by decide +kernel
  have haccepted : rootedStore.Accepted := .store (by simp [rooted]) hrooted
  have haccepted' : climbingStore.Accepted := .store (by simp [climbing]) hclimbing
  refine ⟨⟨haccepted, by decide +kernel, ?_⟩, ⟨haccepted', by decide +kernel, ?_⟩⟩
  · exact haccepted.render_ne (i := ⟨"Id", "src/Id.sol", "/gen@1/tables"⟩)
      (by decide +kernel) (by decide +kernel)
  · exact haccepted'.render_ne
      (i := ⟨"Rank", "./gen/@types/../../../common.sol", "./gen/tables"⟩)
      (by decide +kernel) (by decide +kernel)

end SolidityTables

import SolidityTables.Proofs.Disk.Run
import SolidityTables.Proofs.Path.Lexical

/-!
# Places of generated files

If the paths of a configuration are relative and do not lead up, the generated files lie below the
output directory by the components of these paths. A run that succeeds has found directories on the
way to every file, and none where a file is.
-/

namespace SolidityTables

open Attempt

section Places

variable {out dir file label : String} {current : List String}

theorem Location.place_concat (slashes : Nat) (parts : List String) (name : String)
    (current : List String) : Location.place current ⟨slashes, parts ++ [name]⟩ =
      parts.foldl Path.step (if slashes = 0 then current else []) ++ [name] := by
  rw [Location.place, List.dropLast_concat, List.getLast?_concat]
  rfl

def Location.reached (current : List String) (l : Location) : List String :=
  l.parts.foldl Path.step (if l.slashes = 0 then current else [])

theorem Location.place_eq_reached {l : Location} {front : List String} {name : String}
    (hparts : l.parts = front ++ [name]) (hname : ∀ dir, Path.step dir name = dir ++ [name]) :
    l.place current = l.reached current := by
  rw [Location.place, Location.reached, hparts, List.dropLast_concat, List.getLast?_concat,
    List.foldl_append, List.foldl_cons, List.foldl_nil, hname]
  rfl

theorem Location.reached_child (a : Location) (p : String) (current : List String) :
    (a.child p).reached current = (Path.components p).foldl Path.step
      (if Path.isAbsolute p then [] else a.reached current) := by
  cases habsolute : Path.isAbsolute p with
  | true =>
    have hslashes : (Location.ofString p).slashes ≠ 0 :=
      Location.leadingSlashes_absolute habsolute
    rw [Location.child, if_neg hslashes, Location.reached, if_neg hslashes]
    rfl
  | false =>
    rw [Location.child_relative a habsolute, Location.reached, List.foldl_append]
    rfl

theorem Location.reached_child_resolve (a : Location) (p : String) (current : List String) :
    (a.child p).reached current = Path.resolve (a.reached current) p := by
  rw [Location.reached_child, Path.resolve_eq_components]

theorem Location.place_child (root : Location) (hfile : Path.IsPlain file)
    (hne : Path.components file ≠ []) :
    (root.child file).place current = root.reached current ++ Path.components file := by
  have hnames : ∀ c ∈ (Path.components file).dropLast, Path.IsName c := fun c hc =>
    hfile.names (List.dropLast_subset _ hc)
  have hlast := List.dropLast_append_getLast hne
  rw [Location.child_relative root hfile.relative, ← hlast, ← List.append_assoc,
    Location.place_concat, List.foldl_append, Path.foldl_step_names hnames, List.append_assoc]
  rfl

theorem libraryName_ne (label short : String) (h : short.toList.length < 4) :
    label ++ ".sol" ≠ short := by
  intro hh
  have hlength := congrArg (fun p => p.toList.length) hh
  simp only [String.toList_append, List.length_append] at hlength
  have hsol : (".sol" : String).toList.length = 4 := rfl
  omega

theorem libraryName_step (label : String) (dir : List String) :
    Path.step dir (label ++ ".sol") = dir ++ [label ++ ".sol"] := by
  have hlead := not_or.mpr
    ⟨libraryName_ne label "" (by decide), libraryName_ne label "." (by decide)⟩
  rw [Path.step, if_neg hlead, if_neg (libraryName_ne label ".." (by decide))]

theorem libraryName_isName (hlabel : '/' ∉ label.toList) : Path.IsName (label ++ ".sol") := by
  refine ⟨libraryName_ne label "" (by decide), libraryName_ne label "." (by decide),
    libraryName_ne label ".." (by decide), ?_⟩
  rw [String.toList_append, List.mem_append, not_or]
  exact ⟨hlabel, by decide⟩

theorem libraryName_components (hlabel : '/' ∉ label.toList) :
    Path.components (label ++ ".sol") = [label ++ ".sol"] := by
  have hname := libraryName_isName hlabel
  rw [Path.components, Path.pieces_of_no_slash hname.no_slash]
  exact List.filter_cons_of_pos (by simpa using And.intro hname.nonempty hname.not_dot)

theorem libraryPath_last (dir label : String) : ∃ front name,
    Path.components (Path.join dir (label ++ ".sol")) = front ++ [name ++ ".sol"] := by
  have hlast : ∃ front name, Path.components (label ++ ".sol") = front ++ [name ++ ".sol"] := by
    by_cases hslash : '/' ∈ label.toList
    · -- The name is what follows the last slash.
      obtain ⟨name, front, hlabel, hname⟩ :=
        List.eq_append_cons_of_mem (List.mem_reverse.mpr hslash)
      have hsplit : label.toList = front.reverse ++ '/' :: name.reverse := by
        rw [← List.reverse_reverse label.toList, hlabel]
        simp
      have hpath : label ++ ".sol" =
          String.ofList front.reverse ++ "/" ++ (String.ofList name.reverse ++ ".sol") := by
        rw [← String.toList_inj]
        simp [hsplit]
      refine ⟨Path.components (String.ofList front.reverse), String.ofList name.reverse, ?_⟩
      rw [hpath, Path.components_append_slash, libraryName_components (by simpa using hname)]
    · exact ⟨[], label, libraryName_components hslash⟩
  cases habsolute : Path.isAbsolute (label ++ ".sol") with
  | true =>
    rw [Path.join, if_pos habsolute]
    exact hlast
  | false =>
    obtain ⟨front, name, hname⟩ := hlast
    rw [Path.components_join habsolute, hname, ← List.append_assoc]
    exact ⟨_, name, rfl⟩

theorem libraryName_relative (hlabel : '/' ∉ label.toList) :
    Path.isAbsolute (label ++ ".sol") = false := by
  by_cases hempty : label = ""
  · subst hempty
    decide
  · rw [Path.isAbsolute_append hempty]
    unfold Path.isAbsolute
    rw [decide_eq_false_iff_not]
    exact fun hh => hlabel (List.mem_of_head? hh)

theorem Table.location_parts {t : Table} (output : Location)
    (hdir : Path.IsPlain t.codegen.outputDirectory) (hlabel : '/' ∉ t.label.toList) :
    t.location output = ⟨output.slashes, output.parts ++
      Path.components t.codegen.outputDirectory ++ [t.label ++ ".sol"]⟩ := by
  have hname := libraryName_relative hlabel
  rw [Table.location, Location.child_relative output (Path.isAbsolute_join hdir.relative hname),
    Path.components_join hname, libraryName_components hlabel, List.append_assoc]

theorem Table.location_directory {t : Table} (output : Location)
    (hdir : Path.IsPlain t.codegen.outputDirectory) (hlabel : '/' ∉ t.label.toList) :
    ((t.location output).place current).dropLast =
      output.reached current ++ Path.components t.codegen.outputDirectory := by
  rw [location_parts output hdir hlabel, Location.place_concat, List.dropLast_concat,
    List.foldl_append, Path.foldl_step_names fun _ => hdir.names]
  rfl

end Places

section Successful

variable {d d' : Disk} {l : Location} {bytes : List UInt8}

theorem Disk.writeFile_place (h : d.writeFile l bytes = .ok d')
    (hparts : ∀ c ∈ l.parts, c ≠ "" ∧ c ≠ ".") : l.place d.current = l.reached d.current := by
  obtain ⟨-, -, -, ⟨name, hname, hdown⟩, -⟩ := Disk.writeFile_eq_ok h
  obtain ⟨front, hfront⟩ := List.getLast?_eq_some_iff.mp hname
  obtain ⟨hempty, hdot⟩ := hparts name (List.mem_of_getLast? hname)
  refine Location.place_eq_reached hfront fun dir => ?_
  rw [Path.step, if_neg (not_or.mpr ⟨hempty, hdot⟩), if_neg hdown]

theorem Disk.writeFile_ways (h : d.writeFile l bytes = .ok d') :
    (∀ front : Location, front.slashes = l.slashes → front.parts <+: l.parts.dropLast →
      d.get? (front.reached d.current) = some .directory) ∧
    ((∀ c ∈ l.parts, c ≠ "" ∧ c ≠ ".") → d.get? (l.reached d.current) ≠ some .directory) := by
  obtain ⟨-, -, hfile, -, dir, henter⟩ := Disk.writeFile_eq_ok h
  constructor
  · intro front hslashes hfront
    have hway := (Disk.enter_eq_ok henter).2 front.parts hfront
    rw [Location.reached, hslashes]
    exact hway
  · intro hparts
    rw [← Disk.writeFile_place h hparts]
    exact hfile

theorem Plan.not_above {ws before between after : List (Location × String)}
    {w v : Location × String}
    (h : Action.performAll d (ws.flatMap Plan.writing) = (d', .ok ()))
    (hws : ws = before ++ w :: (between ++ v :: after)) (hslashes : v.1.slashes = w.1.slashes)
    (hlead : ∀ c ∈ v.1.parts, c ≠ "" ∧ c ≠ ".") : ¬v.1.parts <+: w.1.parts.dropLast := by
  -- The disk as the first file finds it, as it leaves it, and as the second one finds it.
  obtain ⟨d₁, d₂, -, hfirst, hrest⟩ := Plan.performAll_writing h hws
  obtain ⟨d₃, d₄, hlater, hsecond, -⟩ := Plan.performAll_writing hrest rfl
  have hkept := Action.done_of_writeFile hfirst
  obtain ⟨hways, -⟩ := Disk.writeFile_ways hfirst
  obtain ⟨-, hplace⟩ := Disk.writeFile_ways hsecond
  intro habove
  have hdirectory := hways v.1 hslashes habove
  rw [← hkept.current, ← hlater.current] at hdirectory
  exact hplace hlead (hlater.directories _ (hkept.directories _ hdirectory))

theorem Location.ofString_lead (p : String) :
    ∀ c ∈ (Location.ofString p).parts, c ≠ "" ∧ c ≠ "." := by
  intro c hc
  simpa using (List.mem_filter.mp hc).2

theorem Location.child_lead {a : Location} (h : ∀ c ∈ a.parts, c ≠ "" ∧ c ≠ ".") (p : String) :
    ∀ c ∈ (a.child p).parts, c ≠ "" ∧ c ≠ "." := by
  rw [Location.child]
  split
  · exact List.forall_mem_append.mpr ⟨h, Location.ofString_lead p⟩
  · exact Location.ofString_lead p

variable {s : Store} {types : List (String × UserType)} {cwd r : String} {report : Report}

theorem Store.types_not_above (hfile : Path.IsPlain s.codegen.userTypesFilename)
    (henums : s.enums ≠ []) (h : s.generate cwd d (.ofString r) types = (d', .ok report))
    {x : String × Table} (hx : x ∈ s.tables) (hdir : Path.IsPlain x.2.codegen.outputDirectory)
    (hlabel : '/' ∉ x.2.label.toList) : ¬Path.components s.codegen.userTypesFilename <+:
      Path.components x.2.codegen.outputDirectory := by
  obtain ⟨files, written, hfiles, hrendered, hall, -⟩ := Store.generate_eq_ok h
  have hlocations := forall₂_comp (T := fun (y : String × Table) (w : Location × String) =>
    w.1 = y.2.location (Location.child (.ofString r) s.codegen.outputDirectory))
    (fun y f w hy hw => by rw [hw.1, hy.1]; rfl) (Store.libraries_files hfiles) hrendered
  obtain ⟨w, hw, hlocation⟩ := exists_of_mem_right hlocations.flip hx
  obtain ⟨before, after, rfl⟩ := List.append_of_mem hw
  rw [Plan.sharedFiles, if_neg henums, List.append_assoc, List.cons_append, List.singleton_append]
    at hall
  have hlead := Location.child_lead (Location.child_lead (Location.ofString_lead r)
    s.codegen.outputDirectory) s.codegen.userTypesFilename
  have hchild := Location.child_relative (Location.child (.ofString r) s.codegen.outputDirectory)
    hfile.relative
  have hparts := Table.location_parts (Location.child (.ofString r) s.codegen.outputDirectory) hdir
    hlabel
  intro habove
  refine Plan.not_above hall rfl ?_ hlead ?_
  · rw [hlocation, hparts, hchild]
  · rw [hlocation, hparts, hchild, List.dropLast_concat]
    exact (List.prefix_append_right_inj _).mpr habove

end Successful

end SolidityTables

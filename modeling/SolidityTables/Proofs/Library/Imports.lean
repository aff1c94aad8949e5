import SolidityTables.Proofs.Config.Tables
import SolidityTables.Proofs.Disk.Places

/-!
# Where imports lead

A library imports an enum by the way from its own directory to the file of the store's types. If
that way is not the path of a package it leads to the file that is written, wherever the root is.
-/

namespace SolidityTables

open Attempt

namespace Import

/-- The file that an import in a directory names, if its path is a relative one. -/
def relativeTarget? (dir : List String) (path : String) : Option (List String) :=
  if "./".toList.isPrefixOf path.toList || "../".toList.isPrefixOf path.toList then
    some (Path.resolve dir path)
  else none

variable {lead : String} {rest : List String}

theorem relativeTarget?_intercalate (hlead : lead = "." ∨ lead = "..") (hrest : rest ≠ [])
    (h : ∀ c ∈ rest, '/' ∉ c.toList) (dir : List String) :
    relativeTarget? dir (String.intercalate "/" (lead :: rest)) =
      some ((lead :: rest).foldl Path.step dir) := by
  have hparts : ∀ c ∈ lead :: rest, '/' ∉ c.toList := by
    refine List.forall_mem_cons.mpr ⟨?_, h⟩
    rcases hlead with rfl | rfl <;> decide
  have hne : lead ≠ "" := by rcases hlead with rfl | rfl <;> decide
  rw [relativeTarget?, Path.resolve_intercalate hne hparts, if_pos]
  obtain ⟨c, rest, rfl⟩ := List.exists_cons_of_ne_nil hrest
  rw [String.intercalate_cons_cons, String.toList_append, String.toList_append]
  rcases hlead with rfl | rfl <;> rfl

theorem relativeTarget?_between {base start target : List String}
    (htarget : ∀ c ∈ target, Path.IsName c) (habove : ¬target <+: start)
    (hdot : ∀ c rest, target = start ++ c :: rest → c.toList.head? ≠ some '.') :
    relativeTarget? (base ++ start) (dotted (Path.relative (Path.between start target))) =
      some (base ++ target) := by
  obtain ⟨shared, up, down, rfl, rfl, hway⟩ := Path.between_parts start target
  have hdown : ∀ c ∈ down, Path.IsName c := fun c hc => htarget c (List.mem_append_right _ hc)
  have hslash : ∀ c ∈ down, '/' ∉ c.toList := fun c hc => (hdown c hc).no_slash
  have hne : down ≠ [] := by
    intro hh
    subst hh
    rw [List.append_nil] at habove
    exact habove (List.prefix_append _ _)
  rw [hway]
  cases up with
  | nil =>
    obtain ⟨c, rest, rfl⟩ := List.exists_cons_of_ne_nil hne
    have hc := List.forall_mem_cons.mp hdown
    have hhead := hdot c rest (by rw [List.append_nil])
    rw [← Path.head?_intercalate hc.1.nonempty rest] at hhead
    have hpath : dotted (Path.relative (c :: rest)) =
        String.intercalate "/" ("." :: c :: rest) := by
      rw [Path.relative, if_neg (List.cons_ne_nil _ _), dotted, if_neg hhead,
        String.intercalate_cons_cons]
      rfl
    rw [List.length_nil, List.replicate_zero, List.nil_append, hpath,
      relativeTarget?_intercalate (.inl rfl) hne hslash, List.append_nil, List.foldl_cons]
    have hstep : Path.step (base ++ shared) "." = base ++ shared := rfl
    rw [hstep, Path.foldl_step_names hdown, List.append_assoc]
  | cons u up =>
    have hrest : List.replicate up.length ".." ++ down ≠ [] := by simp [hne]
    have hslashes : ∀ c ∈ List.replicate up.length ".." ++ down, '/' ∉ c.toList := by
      refine List.forall_mem_append.mpr ⟨fun c hc => ?_, hslash⟩
      rw [List.eq_of_mem_replicate hc]
      decide
    have hparts : List.replicate (u :: up).length ".." ++ down =
        ".." :: (List.replicate up.length ".." ++ down) := rfl
    have hpath : dotted (Path.relative (".." :: (List.replicate up.length ".." ++ down))) =
        String.intercalate "/" (".." :: (List.replicate up.length ".." ++ down)) := by
      have hhead : (String.intercalate "/"
          (".." :: (List.replicate up.length ".." ++ down))).toList.head? = some '.' :=
        Path.head?_intercalate (by decide) _
      rw [Path.relative, if_neg (List.cons_ne_nil _ _), dotted, if_pos hhead]
    rw [hparts, hpath, relativeTarget?_intercalate (.inr rfl) hrest hslashes, ← hparts,
      List.foldl_append, ← List.append_assoc base, Path.foldl_step_dots,
      Path.foldl_step_names hdown, List.append_assoc]

theorem path_of_package {i : Import} (h : isPackage i.target = true) (cwd : String) :
    i.path cwd = i.target :=
  if_pos h

theorem path_of_shared {i : Import} {cwd : String} {shared start target : List String}
    (hpackage : isPackage i.target = false)
    (hdirectory : Path.resolve (Path.resolve [] cwd) i.directory = shared ++ start)
    (htarget : Path.resolve (Path.resolve [] cwd) i.target = shared ++ target) :
    i.path cwd = dotted (Path.relative (Path.between start target)) := by
  rw [path, if_neg (by simp [hpackage])]
  dsimp only
  rw [hdirectory, htarget, Path.between_append]

theorem path_of_leadsDown {i : Import} {start target : List String}
    (hpackage : isPackage i.target = false) (hdirectory : Path.LeadsDown i.directory start)
    (htarget : Path.LeadsDown i.target target) (cwd : String) :
    i.path cwd = dotted (Path.relative (Path.between start target)) :=
  path_of_shared hpackage (hdirectory _) (htarget _)

theorem path_of_plain {i : Import} {out dir file : String} (hpackage : isPackage i.target = false)
    (hdirectory : i.directory = Path.join out dir) (htarget : i.target = Path.join out file)
    (hout : Path.IsPlain out) (hdir : Path.IsPlain dir) (hfile : Path.IsPlain file) (cwd : String) :
    i.path cwd = dotted (Path.relative (Path.between (Path.components dir)
      (Path.components file))) := by
  have hfrom : Path.LeadsDown i.directory (Path.components out ++ Path.components dir) :=
    hdirectory ▸ hout.leadsDown.join hdir.leadsDown
  have hto : Path.LeadsDown i.target (Path.components out ++ Path.components file) :=
    htarget ▸ hout.leadsDown.join hfile.leadsDown
  rw [path_of_leadsDown hpackage hfrom hto, Path.between_append]

end Import

section FirstPlaces

variable {α : Type} [BEq α] [LawfulBEq α]

theorem eraseDups_concat (l : List α) (a : α) :
    (l ++ [a]).eraseDups = l.eraseDups ++ if l.contains a then [] else [a] := by
  rw [List.eraseDups_append, List.cons_removeAll, List.nil_removeAll]
  cases l.contains a <;> rfl

theorem nodup_eraseDups (l : List α) : l.eraseDups.Nodup := by
  induction l using List.reverseRecOn with
  | nil => exact List.nodup_nil
  | append_singleton l a ih =>
    rw [eraseDups_concat]
    split_ifs with hseen
    · rwa [List.append_nil]
    · have hnew : a ∉ l.eraseDups := by simpa using hseen
      exact List.nodup_append'.mpr ⟨ih, List.nodup_singleton a, List.disjoint_singleton.mpr hnew⟩

end FirstPlaces

namespace Import

/-- What names call for, each at the first place of its name. -/
def called (import? : String → Option Import) (names : List String) : List Import :=
  names.eraseDups.filterMap import?

variable {import? : String → Option Import} {names : List String} {name : String} {i : Import}

theorem mem_called : i ∈ called import? names ↔ ∃ name ∈ names, import? name = some i := by
  simp only [called, List.mem_filterMap, List.mem_eraseDups]

theorem called_concat (seen : List String) (name : String) :
    called import? (seen ++ [name]) =
      called import? seen ++ if name ∈ seen then [] else (import? name).toList := by
  rw [called, eraseDups_concat, List.filterMap_append, ← called]
  by_cases hseen : name ∈ seen
  · rw [if_pos hseen, if_pos (by simpa using hseen), List.filterMap_nil]
  · rw [if_neg hseen, if_neg (by simpa using hseen)]
    cases hcall : import? name <;> simp [hcall]

section Symbols

variable (hsymbol : ∀ name i, import? name = some i → i.symbol = name)

include hsymbol

theorem any_called_iff (hcall : import? name = some i) (seen : List String) :
    (called import? seen).any (·.source = i.source) = true ↔ name ∈ seen := by
  simp only [List.any_eq_true, decide_eq_true_eq]
  constructor
  · intro hh
    obtain ⟨j, hj, hsource⟩ := hh
    obtain ⟨other, hother, hcalled⟩ := mem_called.mp hj
    have hsame : other = name := by
      rw [← hsymbol other j hcalled, ← hsymbol name i hcall]
      exact congrArg Prod.fst hsource
    rwa [← hsame]
  · exact fun hseen => ⟨i, mem_called.mpr ⟨name, hseen, hcall⟩, rfl⟩

theorem add_called (hcall : import? name = some i) (seen : List String) :
    add (called import? seen) i = called import? (seen ++ [name]) := by
  have hiff := any_called_iff hsymbol hcall seen
  rw [called_concat, add]
  by_cases hseen : name ∈ seen
  · rw [if_pos (hiff.mpr hseen), if_pos hseen, List.append_nil]
  · rw [if_neg (mt hiff.mp hseen), if_neg hseen, hcall, Option.toList_some]

theorem foldl_add_called (names seen : List String) :
    (names.filterMap import?).foldl add (called import? seen) =
      called import? (seen ++ names) := by
  induction names generalizing seen with
  | nil => rw [List.append_nil]; rfl
  | cons name names ih =>
    rw [List.append_cons, ← ih (seen ++ [name])]
    cases hcall : import? name with
    | none =>
      rw [List.filterMap_cons_none hcall, called_concat, hcall, Option.toList_none, ite_self,
        List.append_nil]
    | some i => rw [List.filterMap_cons_some hcall, List.foldl_cons, add_called hsymbol hcall]

theorem distinct_called (names : List String) :
    distinct (names.filterMap import?) = called import? names :=
  foldl_add_called hsymbol names []

theorem symbols_called (names : List String) : (called import? names).map (·.symbol) =
    names.eraseDups.filter fun name => (import? name).isSome := by
  rw [called, List.map_filterMap, ← List.filterMap_eq_filter]
  refine List.filterMap_congr fun name _ => ?_
  cases hcall : import? name with
  | none => simp [Option.guard, hcall]
  | some i => simp [Option.guard, hcall, hsymbol name i hcall]

end Symbols

end Import

def Table.typeNames (t : Table) : List String :=
  (t.keyFields ++ t.valueFields).map (·.2.declared)

namespace LibraryOptions

variable {codegen : StoreCodegen} {scope : Scope} {t : Table} {o : LibraryOptions}

theorem ofNamed?_spelled (codegen : StoreCodegen) (directory declared : String) (n : NamedType) :
    Import.ofNamed? codegen directory (TypeSpelling.ofNamed declared n).type n =
      Import.ofNamed? codegen directory declared n := by
  cases n <;> rfl

def nameImport? (codegen : StoreCodegen) (scope : Scope) (t : Table) (name : String) :
    Option Import :=
  (scope.find? name).bind
    (Import.ofNamed? codegen (Path.join codegen.outputDirectory t.codegen.outputDirectory) name)

theorem filterMap_nameImport? {xs : List (String × SchemaField)} {ys : List (NamedType × Field)}
    (h : List.Forall₂ (fun x y => scope.find? x.2.declared = some y.1 ∧
      y.2.type = (TypeSpelling.ofNamed x.2.declared y.1).type) xs ys) :
    ys.filterMap (fun y => Import.ofNamed? codegen
      (Path.join codegen.outputDirectory t.codegen.outputDirectory) y.2.type y.1) =
        (xs.map (·.2.declared)).filterMap (nameImport? codegen scope t) := by
  induction h with
  | nil => rfl
  | @cons x y _ _ hxy _ ih =>
    have hfield : nameImport? codegen scope t x.2.declared = Import.ofNamed? codegen
        (Path.join codegen.outputDirectory t.codegen.outputDirectory) y.2.type y.1 := by
      rw [nameImport?, hxy.1, Option.bind_some, hxy.2, ofNamed?_spelled]
    rw [List.map_cons, List.filterMap_cons, List.filterMap_cons, hfield, ih]

theorem ofNamed?_symbol {directory name : String} {n : NamedType} {i : Import}
    (h : Import.ofNamed? codegen directory name n = some i) : i.symbol = name := by
  cases n with
  | abi a => cases h
  | enum =>
    cases h
    rfl
  | user u =>
    rw [Import.ofNamed?] at h
    split_ifs at h
    cases h
    rfl

theorem nameImport?_symbol (name : String) (i : Import)
    (h : nameImport? codegen scope t name = some i) : i.symbol = name := by
  obtain ⟨n, -, hnamed⟩ := Option.bind_eq_some_iff.mp h
  exact ofNamed?_symbol hnamed

theorem ofTable_imports (h : ofTable codegen scope t = .ok o) :
    o.imports = Import.called (nameImport? codegen scope t) t.typeNames := by
  simp only [ofTable, bind_eq_ok, pure_eq_ok] at h
  obtain ⟨keys, hkeys, values, hvalues, rfl⟩ := h
  have hkey : List.Forall₂ (fun x y => scope.find? x.2.declared = some y.1 ∧
      y.2.type = (TypeSpelling.ofNamed x.2.declared y.1).type) t.keyFields keys := by
    apply (mapM_eq_ok.mp hkeys).imp
    intro x y hxy
    obtain ⟨hfind, -, hspelled⟩ := keyField_eq_ok.mp hxy
    exact ⟨hfind, by rw [hspelled]⟩
  have hvalue : List.Forall₂ (fun x y => scope.find? x.2.declared = some y.1 ∧
      y.2.type = (TypeSpelling.ofNamed x.2.declared y.1).type) t.valueFields values := by
    apply (mapM_eq_ok.mp hvalues).imp
    intro x y hxy
    obtain ⟨hfind, hspelled⟩ := valueField_eq_ok.mp hxy
    exact ⟨hfind, by rw [hspelled]⟩
  rw [← Import.distinct_called nameImport?_symbol, Table.typeNames,
    ← filterMap_nameImport? (List.rel_append hkey hvalue)]

def enumImport (codegen : StoreCodegen) (t : Table) (name : String) : Import :=
  ⟨name, Path.join codegen.outputDirectory codegen.userTypesFilename,
    Path.join codegen.outputDirectory t.codegen.outputDirectory⟩

theorem nameImport?_enum {name : String} (habi : ∀ a : SchemaType, a.name ≠ name)
    (henum : name ∈ scope.enums.map (·.1)) :
    nameImport? codegen scope t name = some (enumImport codegen t name) := by
  rw [nameImport?, Scope.find?_enum habi henum]
  rfl

theorem ofTable_import (h : ofTable codegen scope t = .ok o) {j : Import} (hj : j ∈ o.imports) :
    nameImport? codegen scope t j.symbol = some j := by
  rw [ofTable_imports h] at hj
  obtain ⟨name, -, hcall⟩ := Import.mem_called.mp hj
  rwa [nameImport?_symbol name j hcall]

theorem ofTable_enumImport_unique (h : ofTable codegen scope t = .ok o) {name : String}
    (habi : ∀ a : SchemaType, a.name ≠ name) (henum : name ∈ scope.enums.map (·.1)) :
    ∀ j ∈ o.imports, j.symbol = name → j = enumImport codegen t name := by
  intro j hj hsymbol
  have hcall := ofTable_import h hj
  rw [hsymbol, nameImport?_enum habi henum] at hcall
  exact (Option.some.inj hcall).symm

theorem ofTable_enumImport_mem (h : ofTable codegen scope t = .ok o) {name : String}
    (habi : ∀ a : SchemaType, a.name ≠ name) (henum : name ∈ scope.enums.map (·.1))
    (hx : x ∈ t.keyFields ++ t.valueFields) (hname : x.2.declared = name) :
    enumImport codegen t name ∈ o.imports := by
  rw [ofTable_imports h]
  exact Import.mem_called.mpr ⟨name, List.mem_map.mpr ⟨x, hx, hname⟩, nameImport?_enum habi henum⟩

theorem import_mem_lines {cwd : String} {source : LibrarySource} (h : o.source cwd = .ok source)
    {i : Import} (hi : i ∈ o.imports) :
    (⟨[i.symbol], i.path cwd⟩ : ImportLine).text ∈ source.lines := by
  simp only [LibraryOptions.source, bind_eq_ok, pure_eq_ok] at h
  obtain ⟨layout, -, words, -, rfl⟩ := h
  have hne : o.imports.map (fun i => (⟨[i.symbol], i.path cwd⟩ : ImportLine)) ≠ [] := by
    intro hh
    rw [List.map_eq_nil_iff.mp hh] at hi
    cases hi
  have hline := List.mem_map_of_mem (f := fun i : Import =>
    (⟨[i.symbol], i.path cwd⟩ : ImportLine).text) hi
  simp only [LibrarySource.lines, if_neg hne, List.map_map, List.mem_append]
  tauto

end LibraryOptions

namespace Store

/-- The file of the store's types would be a directory on the way to the library of a table. -/
def TypesAbove (s : Store) (t : Table) : Prop :=
  Path.components s.codegen.userTypesFilename <+: Path.components t.codegen.outputDirectory

/-- The file of the store's types lies in or below the directory of a table, under a name that
begins with a dot. -/
def TypesHidden (s : Store) (t : Table) : Prop :=
  ∃ c rest, Path.components s.codegen.userTypesFilename =
    Path.components t.codegen.outputDirectory ++ c :: rest ∧ c.toList.head? = some '.'

def typesPath (s : Store) : String :=
  Path.join s.codegen.outputDirectory s.codegen.userTypesFilename

variable {s : Store} {t : Table}

theorem Accepted.enum_not_abi (hs : s.Accepted) {name : String}
    (henum : name ∈ s.enums.map (·.1)) : ∀ a : SchemaType, a.name ≠ name := by
  obtain ⟨d, -, hd⟩ := hs.declared
  rw [hd.enums] at henum
  exact hd.names.notAbi name (List.mem_append_left _ henum)

theorem enumImport_package {name : String} (h : Import.isPackage s.typesPath = true)
    (cwd : String) : (LibraryOptions.enumImport s.codegen t name).path cwd = s.typesPath := by
  rw [Import.path]
  exact if_pos h

theorem enumImport_target {name : String}
    (hout : Path.IsPlain s.codegen.outputDirectory)
    (hfile : Path.IsPlain s.codegen.userTypesFilename)
    (hdir : Path.IsPlain t.codegen.outputDirectory) (hlabel : '/' ∉ t.label.toList)
    (hpackage : Import.isPackage s.typesPath = false) (habove : ¬s.TypesAbove t)
    (hhidden : ¬s.TypesHidden t) (cwd : String) (root : Location) (current : List String) :
    Import.relativeTarget?
        (((t.location (root.child s.codegen.outputDirectory)).place current).dropLast)
        ((LibraryOptions.enumImport s.codegen t name).path cwd) =
      some (((root.child s.codegen.outputDirectory).child s.codegen.userTypesFilename).place
        current) := by
  have hne : Path.components s.codegen.userTypesFilename ≠ [] := by
    intro hh
    rw [TypesAbove, hh] at habove
    exact habove List.nil_prefix
  have hdot : ∀ c rest, Path.components s.codegen.userTypesFilename =
      Path.components t.codegen.outputDirectory ++ c :: rest → c.toList.head? ≠ some '.' := by
    intro c rest hc hh
    exact hhidden ⟨c, rest, hc, hh⟩
  have hpath : (LibraryOptions.enumImport s.codegen t name).path cwd =
      Import.dotted (Path.relative (Path.between (Path.components t.codegen.outputDirectory)
        (Path.components s.codegen.userTypesFilename))) := by
    have htypes : (LibraryOptions.enumImport s.codegen t name).target = s.typesPath := rfl
    rw [← htypes] at hpackage
    exact Import.path_of_plain hpackage rfl rfl hout hdir hfile cwd
  rw [hpath, Table.location_directory _ hdir hlabel, Location.place_child _ hfile hne]
  exact Import.relativeTarget?_between (fun _ => hfile.names) habove hdot

end Store

/-- A library imports an enum of its fields by one path. It is left as it is if it is that of a
package. Otherwise it leads from the directory of the library to the file of the store's types, if
this is not hidden there; and it is not above, or no run succeeds. -/
theorem Store.enum_imports (s : Store) (hs : s.Accepted)
    (hout : Path.IsPlain s.codegen.outputDirectory)
    (hfile : Path.IsPlain s.codegen.userTypesFilename) (types : List (String × UserType)) :
    (∀ files, s.libraries types = .ok files → ∀ cwd, List.Forall₂ (fun x file =>
      Path.IsPlain x.2.codegen.outputDirectory → '/' ∉ x.2.label.toList →
      ∀ name ∈ s.enums.map (·.1), (∃ f ∈ x.2.schema, f.2.declared = name) →
      ∃ i ∈ file.options.imports, i.symbol = name ∧
        (∀ j ∈ file.options.imports, j.symbol = name → j = i) ∧
        (∀ text, file.options.render cwd = .ok text → ∃ source,
          file.options.source cwd = .ok source ∧
            text = String.intercalate "\n" (source.lines ++ [""]) ∧
            "import \x7b " ++ name ++ " \x7d from \"" ++ i.path cwd ++ "\";" ∈ source.lines) ∧
        (Import.isPackage s.typesPath = true → i.path cwd = s.typesPath) ∧
        (Import.isPackage s.typesPath = false → ¬s.TypesAbove x.2 → ¬s.TypesHidden x.2 →
          ∀ (root : Location) (current : List String), Import.relativeTarget?
            ((((root.child s.codegen.outputDirectory).child file.path).place current).dropLast)
            (i.path cwd) = some (((root.child s.codegen.outputDirectory).child
              s.codegen.userTypesFilename).place current))) s.tables files) ∧
    ∀ cwd r d d' report, s.enums ≠ [] →
      s.generate cwd d (.ofString r) types = (d', .ok report) →
      ∀ x ∈ s.tables, Path.IsPlain x.2.codegen.outputDirectory → '/' ∉ x.2.label.toList →
        ¬s.TypesAbove x.2 := by
  constructor
  · intro files h cwd
    apply ((List.forall₂_and_left _ _).mpr ⟨hs.resolved, libraries_files h⟩).imp
    intro x file hh hdir hlabel name henum huse
    obtain ⟨hx, hpath, hplan⟩ := hh
    obtain ⟨f, hf, hname⟩ := huse
    have habi := hs.enum_not_abi henum
    have huses : f ∈ x.2.keyFields ++ x.2.valueFields := hx.fields_perm.mem_iff.mpr hf
    have hmem := LibraryOptions.ofTable_enumImport_mem hplan habi henum huses hname
    refine ⟨LibraryOptions.enumImport s.codegen x.2 name, hmem, rfl,
      LibraryOptions.ofTable_enumImport_unique hplan habi henum, ?_,
      fun hpackage => enumImport_package hpackage cwd, ?_⟩
    · intro text htext
      obtain ⟨source, hsource, rfl⟩ := map_eq_ok.mp htext
      have hline := LibraryOptions.import_mem_lines hsource hmem
      have hsymbol : (LibraryOptions.enumImport s.codegen x.2 name).symbol = name := rfl
      rw [hsymbol] at hline
      exact ⟨source, hsource, rfl, hline⟩
    · intro hpackage habove hhidden root current
      rw [hpath]
      exact enumImport_target hout hfile hdir hlabel hpackage habove hhidden cwd root current
  · intro cwd r d d' report henums h x hx hdir hlabel
    exact types_not_above hfile henums h hx hdir hlabel

theorem enum_imports_items : ∃ file i d' report,
    itemStore.libraries itemStore.userTypes = .ok [file] ∧
      itemStore.generate "/work" emptyProject (.ofString "src") itemStore.userTypes =
        (d', .ok report) ∧
      i ∈ file.options.imports ∧ i.symbol = "Rank" ∧
      ∀ (root : Location) (current : List String), Import.relativeTarget?
        ((((root.child "codegen").child file.path).place current).dropLast) (i.path "/work") =
          some (((root.child "codegen").child "common.sol").place current) := by
  have hplain {p : String} (hp : Path.isAbsolute p = false ∧ ".." ∉ Path.pieces p) :
      Path.IsPlain p := ⟨hp.1, hp.2⟩
  have hdir : Path.IsPlain itemTable.codegen.outputDirectory := hplain (by decide)
  obtain ⟨himports, hruns⟩ := Store.enum_imports itemStore itemStore_accepted
    (hplain (by decide)) (hplain (by decide)) itemStore.userTypes
  have hrun : fault? (itemStore.generate "/work" emptyProject (.ofString "src")
      itemStore.userTypes).2 = none := by decide +kernel
  obtain ⟨report, hreport⟩ := fault?_eq_none.mp hrun
  obtain ⟨files, written, hfiles, -⟩ := Store.generate_eq_ok (Prod.ext rfl hreport)
  have habove := hruns "/work" "src" emptyProject _ report (by decide) (Prod.ext rfl hreport)
    ("Item", itemTable) (List.mem_singleton_self _) hdir (by decide)
  have hhidden : ¬itemStore.TypesHidden itemTable := by
    rintro ⟨c, rest, hc, -⟩
    have htypes : Path.components itemStore.codegen.userTypesFilename = ["common.sol"] := by decide
    have htables : Path.components itemTable.codegen.outputDirectory = ["tables"] := by decide
    rw [htypes, htables] at hc
    exact absurd (List.cons.inj hc).1 (by decide)
  rcases himports files hfiles "/work" with _ | ⟨hitem, hnil⟩
  cases hnil
  obtain ⟨i, hi, hsymbol, -, -, -, htarget⟩ := hitem hdir (by decide) "Rank" (by decide)
    ⟨("rank", ⟨.uint8, "Rank"⟩), by decide, rfl⟩
  exact ⟨_, i, _, report, hfiles, Prod.ext rfl hreport, hi, hsymbol,
    htarget (by decide) habove hhidden⟩

def pinned : Json.Members :=
  [("enums", .obj [("Rank", .arr [.str "Low", .str "High"])]),
   ("tables", .obj [("Player", .obj [("schema", .obj [("rank", .str "Rank")])])]),
   ("codegen", .obj [("outputDirectory", .str "gen@1")])]

def pinnedStore : Store where
  space := ""
  tables := [("Player", {
      label := "Player", kind := .table, space := "", name := "Player"
      schema := [("rank", ⟨.uint8, "Rank"⟩)]
      key := [], codegen := ⟨"tables", false, false, false⟩, deploy := ⟨false⟩ })]
  userTypes := []
  enums := [("Rank", ["Low", "High"])]
  codegen := ⟨"@latticexyz/store/src/", "common.sol", "gen@1", "index.sol"⟩

/-- An output directory that looks like a package is not told from the directory of the library. -/
theorem pinned_import : Store.define pinned = .ok pinnedStore ∧
    (∀ p ∈ ["gen@1", "tables", "common.sol"], Path.IsPlain p) ∧
    ∃ file i, pinnedStore.libraries pinnedStore.userTypes = .ok [file] ∧
      file.options.imports = [i] ∧ i.symbol = "Rank" ∧ i.path "/work" = "gen@1/common.sol" ∧
      ∀ dir, Import.relativeTarget? dir (i.path "/work") = none := by
  have himports : (pinnedStore.libraries pinnedStore.userTypes).map (fun files =>
      files.map fun f => f.options.imports) =
        .ok [[⟨"Rank", "gen@1/common.sol", "gen@1/tables"⟩]] := by decide +kernel
  obtain ⟨files, hfiles, hone⟩ := map_eq_ok.mp himports
  obtain ⟨file, _, rfl, hfile, hnil⟩ := List.map_eq_cons_iff.mp hone
  cases List.map_eq_nil_iff.mp hnil
  have hpath : Import.path "/work" ⟨"Rank", "gen@1/common.sol", "gen@1/tables"⟩ =
      "gen@1/common.sol" := by decide +kernel
  have hplain : ∀ p ∈ ["gen@1", "tables", "common.sol"],
      Path.isAbsolute p = false ∧ ".." ∉ Path.pieces p := by decide
  refine ⟨by decide +kernel, fun p hp => ⟨(hplain p hp).1, (hplain p hp).2⟩, file, _, hfiles, hfile,
    rfl, hpath, fun dir => ?_⟩
  rw [hpath]
  exact if_neg (by decide)

end SolidityTables

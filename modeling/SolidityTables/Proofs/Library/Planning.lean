import SolidityTables.Generate
import SolidityTables.Proofs.Config.Accepted
import SolidityTables.Proofs.Library.Expression
import SolidityTables.Proofs.Library.Field

/-!
# When libraries can be planned and written

The fields of a store are planned table by table, in each the key before the other fields, and the
first of them that has a fault ends the planning. A library that has been planned can be written
unless the given user types have made too many of its fields dynamic.
-/

namespace SolidityTables

open Attempt

/-- The fault of the first field that has one. -/
inductive FirstFault (scope : Scope) : List FieldUse → ConfigError → Prop
  | here {u : FieldUse} {us : List FieldUse} {e : ConfigError} (h : u.Fault scope e) :
    FirstFault scope (u :: us) e
  | later {u : FieldUse} {us : List FieldUse} {e : ConfigError} (hu : ∀ f, ¬u.Fault scope f)
    (h : FirstFault scope us e) : FirstFault scope (u :: us) e

section FirstFault

variable {scope : Scope} {us vs : List FieldUse} {e : ConfigError}

theorem firstFault_nil : ¬FirstFault scope [] e := by
  intro h
  cases h

theorem firstFault_cons {u : FieldUse} : FirstFault scope (u :: us) e ↔
    u.Fault scope e ∨ (∀ f, ¬u.Fault scope f) ∧ FirstFault scope us e := by
  constructor
  · intro h
    cases h with
    | here h => exact .inl h
    | later hu h => exact .inr ⟨hu, h⟩
  · intro hh
    rcases hh with h | ⟨hu, h⟩
    · exact .here h
    · exact .later hu h

theorem firstFault_append : FirstFault scope (us ++ vs) e ↔ FirstFault scope us e ∨
    (∀ u ∈ us, ∀ f, ¬u.Fault scope f) ∧ FirstFault scope vs e := by
  induction us with
  | nil => simp [firstFault_nil]
  | cons u us ih =>
    rw [List.cons_append, firstFault_cons, firstFault_cons, ih, List.forall_mem_cons]
    tauto

theorem forall_not_firstFault :
    (∀ e, ¬FirstFault scope us e) ↔ ∀ u ∈ us, ∀ e, ¬u.Fault scope e := by
  induction us with
  | nil => simp [firstFault_nil]
  | cons u us ih =>
    rw [List.forall_mem_cons, ← ih]
    simp only [firstFault_cons, not_or, not_and, forall_and]
    exact and_congr_right fun hu => ⟨fun h e => h e hu, fun h e _ => h e⟩

theorem isOk_iff_no_fault {α : Type} {x : Except ConfigError α}
    (h : ∀ e, x = .error e ↔ FirstFault scope us e) :
    (∃ a, x = .ok a) ↔ ∀ u ∈ us, ∀ e, ¬u.Fault scope e := by
  rw [isOk_iff_ne_error, ← forall_not_firstFault]
  exact forall_congr' fun e => not_congr (h e)

theorem mapM_eq_error_iff_firstFault {α β : Type} {f : α → Except ConfigError β}
    {g : α → List FieldUse} (h : ∀ x e, f x = .error e ↔ FirstFault scope (g x) e) (xs : List α) :
    xs.mapM f = .error e ↔ FirstFault scope (xs.flatMap g) e := by
  induction xs with
  | nil => simp [firstFault_nil, pure_eq_error]
  | cons x xs ih =>
    rw [List.mapM_cons, List.flatMap_cons, firstFault_append, bind_eq_error, h,
      ← isOk_iff_no_fault (h x), ← ih]
    simp only [bind_eq_error, pure_eq_error, and_false, exists_false, or_false, exists_and_right]

theorem mapM_eq_error_iff_firstFault_map {α β : Type} {f : α → Except ConfigError β}
    {g : α → FieldUse} (h : ∀ x e, f x = .error e ↔ (g x).Fault scope e) (xs : List α) :
    xs.mapM f = .error e ↔ FirstFault scope (xs.map g) e := by
  rw [List.map_eq_flatMap]
  apply mapM_eq_error_iff_firstFault
  intro x e
  simp only [h, firstFault_cons, firstFault_nil, and_false, or_false]

end FirstFault

namespace Table

def uses (t : Table) : List FieldUse :=
  t.keyFields.map (fun f => ⟨t.label, f.1, f.2.declared, true⟩) ++
    t.valueFields.map (fun f => ⟨t.label, f.1, f.2.declared, false⟩)

end Table

structure LibraryOptions.Plans (scope : Scope) (t : Table) (o : LibraryOptions) : Prop where
  keys : List.Forall₂ (fun x k => ∃ n, keyField scope t.label x = .ok (n, k)) t.keyFields o.keys
  fields : List.Forall₂ (fun x f => ∃ n, valueField scope x = .ok (n, f)) t.valueFields o.fields
  staticFields : o.staticFields = o.fields.filter (!·.isDynamic)
  dynamicFields : o.dynamicFields = o.fields.filter (·.isDynamic)

namespace LibraryOptions

variable {codegen : StoreCodegen} {scope : Scope} {t : Table} {o : LibraryOptions}

theorem plans_of_ofTable (h : ofTable codegen scope t = .ok o) : Plans scope t o := by
  simp only [ofTable, bind_eq_ok, pure_eq_ok] at h
  obtain ⟨keys, hkeys, values, hvalues, rfl⟩ := h
  refine ⟨?_, ?_, rfl, rfl⟩
  · rw [List.forall₂_map_right_iff]
    exact (mapM_eq_ok.mp hkeys).imp fun x y hxy => ⟨y.1, hxy⟩
  · rw [List.forall₂_map_right_iff]
    exact (mapM_eq_ok.mp hvalues).imp fun x y hxy => ⟨y.1, hxy⟩

namespace Plans

theorem exists_static (h : Plans scope t o) {k : Field} (hk : k ∈ o.keys) :
    ∃ b : StaticType, k.internal = b.name := by
  obtain ⟨x, -, n, hx⟩ := exists_of_mem_right h.keys hk
  obtain ⟨-, hstatic, hspelled⟩ := keyField_eq_ok.mp hx
  have hinternal : k.internal = n.base.name := by
    rw [hspelled]
    exact TypeSpelling.ofNamed_internal x.2.declared n
  obtain ⟨b, hb⟩ := SchemaType.exists_static hstatic
  rw [hb] at hinternal
  exact ⟨b, hinternal⟩

theorem keyWords_isOk (h : Plans scope t o) : ∃ words, o.keyWords = .ok words := by
  rw [keyWords, mapM_isOk]
  intro k hk
  obtain ⟨b, hb⟩ := h.exists_static hk
  exact ⟨b.word (k.unwrapped k.name), by rw [TypeSpelling.keyWord?_eq hb]⟩

theorem fields_length (h : Plans scope t o) :
    o.staticFields.length + o.dynamicFields.length = t.valueFields.length := by
  rw [h.staticFields, h.dynamicFields, h.fields.length_eq, Nat.add_comm,
    ← List.length_eq_length_filter_add]

theorem dynamicFields_length (h : Plans scope t o) : o.dynamicFields.length =
    (t.valueFields.filter fun f => scope.isDynamic f.2.declared).length := by
  have hdynamic : ∀ x f, (∃ n, valueField scope x = .ok (n, f)) →
      (scope.isDynamic x.2.declared = true ↔ f.isDynamic = true) := by
    intro x f hh
    obtain ⟨n, hx⟩ := hh
    obtain ⟨hn, hspelled⟩ := valueField_eq_ok.mp hx
    rw [Scope.isDynamic, hn, Option.any_some, hspelled, TypeSpelling.ofNamed_isDynamic]
  rw [h.dynamicFields]
  exact (List.rel_filter hdynamic h.fields).length_eq.symm

theorem byteLength_bounds (h : Plans scope t o) {n : Int}
    (hn : n ∈ o.staticFields.map (·.byteLength)) : 0 ≤ n ∧ n < 256 := by
  obtain ⟨f, hf, rfl⟩ := List.mem_map.mp hn
  rw [h.staticFields] at hf
  obtain ⟨x, -, m, hx⟩ := exists_of_mem_right h.fields (List.mem_of_mem_filter hf)
  obtain ⟨-, hspelled⟩ := valueField_eq_ok.mp hx
  have hlength := SchemaType.byteLength_le m.base
  rw [hspelled, TypeSpelling.ofNamed_byteLength]
  omega

theorem render_isOk (h : Plans scope t o) (cwd : String) (hvalues : t.valueFields.length ≤ 28)
    (hmost : (t.valueFields.filter fun f => scope.isDynamic f.2.declared).length ≤ 5) :
    ∃ text, o.render cwd = .ok text := by
  have hfields := h.fields_length
  rw [← h.dynamicFields_length] at hmost
  have hfits : FieldLayout.Fits (o.staticFields.map (·.byteLength)) o.dynamicFields.length := by
    refine ⟨by omega, by omega, ?_, fun n hn => h.byteLength_bounds hn⟩
    rw [List.length_map]
    omega
  obtain ⟨layout, hlayout⟩ := FieldLayout.encode_isOk.mpr hfits
  obtain ⟨words, hwords⟩ := h.keyWords_isOk
  simp only [render, source, map_eq_ok, bind_eq_ok, mapError_eq_ok, pure_eq_ok]
  exact ⟨_, _, ⟨layout, hlayout, words, hwords, rfl⟩, rfl⟩

theorem render_eq_error (h : Plans scope t o) (cwd : String) (hvalues : t.valueFields.length ≤ 28)
    (hmany : 5 < (t.valueFields.filter fun f => scope.isDynamic f.2.declared).length) :
    o.render cwd = .error (.layout (.counts .tooManyDynamicFields)) := by
  have hfields := h.fields_length
  rw [← h.dynamicFields_length] at hmany
  have hlayout : o.fieldLayout = .error (.counts .tooManyDynamicFields) := by
    apply FieldLayout.encode_of_tooManyDynamic
    · rw [List.length_map]
      omega
    · omega
  simp only [render, source, hlayout]
  rfl

end Plans

theorem ofTable_eq_error {e : ConfigError} :
    ofTable codegen scope t = .error e ↔ FirstFault scope t.uses e := by
  have hkeys (e : ConfigError) := mapM_eq_error_iff_firstFault_map (e := e)
    (g := fun f => ⟨t.label, f.1, f.2.declared, true⟩)
    (fun x e => keyField_eq_error scope t.label x e) t.keyFields
  have hvalues (e : ConfigError) := mapM_eq_error_iff_firstFault_map (e := e)
    (g := fun f => ⟨t.label, f.1, f.2.declared, false⟩)
    (fun x e => valueField_eq_error scope t.label x e) t.valueFields
  rw [Table.uses, firstFault_append, ← hkeys, ← hvalues, ← isOk_iff_no_fault hkeys]
  simp only [ofTable, bind_eq_error, pure_eq_error, and_false, exists_false, or_false,
    exists_and_right]

end LibraryOptions

def Store.uses (s : Store) : List FieldUse :=
  s.tables.flatMap fun x => x.2.uses

theorem Store.libraries_eq_error {s : Store} {types : List (String × UserType)} {e : ConfigError} :
    s.libraries types = .error e ↔ FirstFault ⟨s.enums, types⟩ s.uses e := by
  apply mapM_eq_error_iff_firstFault
  intro x e
  simp only [bind_eq_error, pure_eq_error, and_false, exists_false, or_false,
    LibraryOptions.ofTable_eq_error]

theorem Store.libraries_files {s : Store} {types : List (String × UserType)}
    {files : List LibraryFile} (h : s.libraries types = .ok files) :
    List.Forall₂ (fun x file => file.path = Path.join x.2.codegen.outputDirectory
        (x.2.label ++ ".sol") ∧
      LibraryOptions.ofTable s.codegen ⟨s.enums, types⟩ x.2 = .ok file.options) s.tables files := by
  apply (mapM_eq_ok.mp h).imp
  intro x file hfile
  obtain ⟨o, ho, hfile⟩ := bind_eq_ok.mp hfile
  cases pure_eq_ok.mp hfile
  exact ⟨rfl, ho⟩

theorem Store.libraries_eq_ok {s : Store} {types : List (String × UserType)}
    {files : List LibraryFile} (h : s.libraries types = .ok files) :
    List.Forall₂ (fun x file => file.options.Plans ⟨s.enums, types⟩ x.2) s.tables files :=
  (libraries_files h).imp fun _ _ hfile => LibraryOptions.plans_of_ofTable hfile.2

theorem FieldUse.no_fault_iff {scope : Scope} {u : FieldUse} : (∀ e, ¬u.Fault scope e) ↔
    scope.Knows u.declared ∧
      (u.inKey = true → ∀ t, scope.Resolves u.declared t → t.isDynamic = false) := by
  constructor
  · intro h
    refine ⟨by_contra fun hunknown => h _ (.unknown hunknown), fun hkey t ht => ?_⟩
    by_contra hdynamic
    exact h _ (.dynamic hkey ht (by simpa using hdynamic))
  · intro hh e he
    obtain ⟨hknown, hstatic⟩ := hh
    cases he with
    | unknown hunknown => exact hunknown hknown
    | dynamic hkey ht hdynamic => simp [hstatic hkey _ ht] at hdynamic

theorem Table.no_fault_iff {scope : Scope} {t : Table} :
    (∀ u ∈ t.uses, ∀ e, ¬u.Fault scope e) ↔
      (∀ f ∈ t.keyFields ++ t.valueFields, scope.Knows f.2.declared) ∧
        ∀ f ∈ t.keyFields, ∀ u, scope.Resolves f.2.declared u → u.isDynamic = false := by
  simp only [Table.uses, List.forall_mem_append, List.forall_mem_map, FieldUse.no_fault_iff,
    true_implies, Bool.false_eq_true, false_implies, and_true, forall_and, implies_true]

theorem Table.Resolved.no_fault {s : Store} {t : Table} (h : t.Resolved s) :
    ∀ u ∈ t.uses, ∀ e, ¬u.Fault s.scope e := by
  rw [Table.no_fault_iff]
  constructor
  · intro f hf
    have hmem : f ∈ t.schema := by
      rcases List.mem_append.mp hf with hf | hf
      · exact keyField_mem_schema hf
      · exact List.mem_of_mem_filter hf
    exact Scope.knows_iff_resolves.mpr ⟨_, h.types f hmem⟩
  · intro f hf u hu
    rw [← Scope.resolves_unique (h.types f (keyField_mem_schema hf)) hu]
    exact h.keyField_static hf

theorem Table.Resolved.dynamic_length {s : Store} {t : Table} (h : t.Resolved s) :
    (t.valueFields.filter fun f => s.scope.isDynamic f.2.declared).length ≤ 5 := by
  have hsame : t.valueFields.filter (fun f => s.scope.isDynamic f.2.declared) =
      t.valueFields.filter fun f => f.2.type.isDynamic := by
    apply List.filter_congr
    intro f hf
    exact Scope.isDynamic_of_resolves (h.types f (List.mem_of_mem_filter hf))
  rw [hsame]
  exact h.dynamicValues

theorem Plan.write_isOk {l : Location} {text : String} {p : Plan} :
    (∃ r, (p.write l text).result = .ok r) ↔ ∃ r, p.result = .ok r := by
  simp only [write, map_eq_ok]
  exact ⟨fun ⟨_, r, hr, _⟩ => ⟨r, hr⟩, fun ⟨r, hr⟩ => ⟨_, r, hr, rfl⟩⟩

theorem Plan.writeLibraries_isOk {cwd : String} {output : Location} {p : Plan}
    {files : List LibraryFile} : (∃ r, (p.writeLibraries cwd output files).result = .ok r) ↔
      (∃ r, p.result = .ok r) ∧ ∀ f ∈ files, ∃ text, f.options.render cwd = .ok text := by
  induction files with
  | nil => simp [writeLibraries]
  | cons f files ih =>
    rw [writeLibraries, List.forall_mem_cons]
    cases hrender : f.options.render cwd with
    | ok text =>
      dsimp only
      rw [write_isOk, ih]
      simp
    | error e => simp

theorem Plan.ofLibraries_isOk (cwd : String) (root : Location) (s : Store)
    (files : List LibraryFile) : (∃ r, (Plan.ofLibraries cwd root s files).result = .ok r) ↔
      ∀ f ∈ files, ∃ text, f.options.render cwd = .ok text := by
  simp only [ofLibraries, writeLibraries_isOk]
  apply and_iff_right
  split
  · split
    · exact ⟨_, rfl⟩
    · exact write_isOk.mpr ⟨_, rfl⟩
  · rw [write_isOk]
    split
    · exact ⟨_, rfl⟩
    · exact write_isOk.mpr ⟨_, rfl⟩

theorem Store.libraries_render {s : Store} (hs : s.Accepted) {types : List (String × UserType)}
    {files : List LibraryFile} (h : s.libraries types = .ok files) (cwd : String) :
    List.Forall₂ (fun x file =>
      if (x.2.valueFields.filter fun f => Scope.isDynamic ⟨s.enums, types⟩ f.2.declared).length ≤ 5
      then ∃ text, file.options.render cwd = .ok text
      else file.options.render cwd = .error (.layout (.counts .tooManyDynamicFields)))
      s.tables files := by
  apply ((List.forall₂_and_left _ _).mpr ⟨hs.resolved, libraries_eq_ok h⟩).imp
  intro x file hh
  obtain ⟨hx, hplans⟩ := hh
  split
  next hmost => exact hplans.render_isOk cwd hx.values hmost
  next hmany => exact hplans.render_eq_error cwd hx.values (Nat.lt_of_not_le hmany)

theorem Store.Accepted.libraries_isOk {s : Store} (hs : s.Accepted) (cwd : String) :
    ∃ files, s.libraries s.userTypes = .ok files ∧
      ∀ f ∈ files, ∃ text, f.options.render cwd = .ok text := by
  have hplanned : ∃ files, s.libraries s.userTypes = .ok files := by
    rw [isOk_iff_no_fault fun e => libraries_eq_error, uses, List.forall_mem_flatMap]
    exact fun x hx => (hs.resolved x hx).no_fault
  obtain ⟨files, hfiles⟩ := hplanned
  refine ⟨files, hfiles, fun f hf => ?_⟩
  obtain ⟨x, hx, hrender⟩ := exists_of_mem_right (libraries_render hs hfiles cwd) hf
  exact (if_pos (hs.resolved x hx).dynamic_length).mp hrender

theorem Store.Accepted.plan_isOk {s : Store} (hs : s.Accepted) (cwd : String) (root : Location) :
    ∃ plan r, s.plan cwd root s.userTypes = .ok plan ∧ plan.result = .ok r := by
  obtain ⟨files, hfiles, hrender⟩ := hs.libraries_isOk cwd
  obtain ⟨r, hr⟩ := (Plan.ofLibraries_isOk cwd root s files).mpr hrender
  exact ⟨_, r, bind_eq_ok.mpr ⟨files, hfiles, rfl⟩, hr⟩

def items : Json.Members :=
  [("userTypes", .obj [("Id", .obj [("type", .str "uint256")])]),
   ("enums", .obj [("Rank", .arr [.str "Low", .str "High"])]),
   ("tables", .obj [("Item", .obj [
     ("schema", .obj [("notes", .str "string"), ("id", .str "Id"), ("rank", .str "Rank"),
       ("parts", .str "uint32[]")]),
     ("key", .arr [.str "id"])])])]

def itemTable : Table where
  label := "Item"
  kind := .table
  space := ""
  name := "Item"
  schema := [("notes", ⟨.string, "string"⟩), ("id", ⟨.static (.uint ⟨31, by decide⟩), "Id"⟩),
    ("rank", ⟨.uint8, "Rank"⟩), ("parts", ⟨.array (.uint ⟨3, by decide⟩), "uint32[]"⟩)]
  key := ["id"]
  codegen := ⟨"tables", false, false, true⟩
  deploy := ⟨false⟩

def itemStore : Store where
  space := ""
  tables := [("Item", itemTable)]
  userTypes := [("Id", ⟨.static (.uint ⟨31, by decide⟩), ""⟩)]
  enums := [("Rank", ["Low", "High"])]
  codegen := ⟨"@latticexyz/store/src/", "common.sol", "codegen", "index.sol"⟩

theorem itemStore_accepted : itemStore.Accepted := by
  have hdefine : Store.define items = .ok itemStore := by decide +kernel
  exact .store (by simp [items]) hdefine

end SolidityTables

import SolidityTables.Proofs.Config.Identity
import SolidityTables.Proofs.Library.Functions

/-!
# The id of a table in its library

The checks on names count bytes, so an id holds the whole namespace and the whole name. A library
states the id of its table in one line, or in none if its methods take an id.
-/

namespace SolidityTables

open Attempt

/-- A text is the hexadecimal form of two letters, a whole namespace and a whole name, which are
filled up with zeros. -/
structure Resource.IsId (letters space name text : String) : Prop where
  digits : ∃ digits, text = "0x" ++ String.ofList digits ∧ digits.length = 64 ∧
    ∀ c ∈ digits, c ∈ "0123456789abcdef".toList
  space_size : Utf8.size space ≤ 14
  name_size : Utf8.size name ≤ 16
  bytes : Bytes.ofHex? text = some (Utf8.encode letters ++
    (Utf8.encode space ++ List.replicate (14 - Utf8.size space) 0) ++
    (Utf8.encode name ++ List.replicate (16 - Utf8.size name) 0))

def TableKind.letters : TableKind → String
  | table => "tb"
  | offchainTable => "ot"

theorem TableKind.resource_letters (k : TableKind) : k.resource.letters = k.letters := by
  cases k <;> rfl

namespace Resource

variable {r : Resource}

theorem word_eq (h : r.Fits) : r.word = Utf8.encode r.kind.letters ++
    (Utf8.encode r.space ++ List.replicate (14 - Utf8.size r.space) 0) ++
    (Utf8.encode r.name ++ List.replicate (16 - Utf8.size r.name) 0) := by
  have hkind : Bytes.padded 2 (Utf8.encode r.kind.letters) = Utf8.encode r.kind.letters := by
    cases r.kind <;> decide
  rw [word, hkind, Bytes.padded_of_le h.1, Bytes.padded_of_le h.2]
  rfl

theorem isId (h : r.Fits) : IsId r.kind.letters r.space r.name r.id := by
  refine ⟨Bytes.hex_isWord (word_length r), h.1, h.2, ?_⟩
  rw [id, Bytes.ofHex?_hex, word_eq h]

end Resource

theorem Table.Resolved.isId {s : Store} {t : Table} (h : t.Resolved s) :
    Resource.IsId t.kind.letters s.space t.name t.resource.id := by
  rw [← h.space, ← TableKind.resource_letters]
  exact Resource.isId h.fits

theorem System.Resolved.isId {w : World} {t : System} (h : t.Resolved w) :
    Resource.IsId "sy" w.space t.name t.resource.id := by
  rw [← h.space]
  exact Resource.isId h.fits

def idLine (id : String) : String :=
  "ResourceId constant _tableId = ResourceId.wrap(" ++ id ++ ");"

def idLines (lines : List String) : List String :=
  lines.filter (Line.begins "ResourceId constant ")

theorem LibrarySource.idLines_eq (s : LibrarySource) (h : ∀ m ∈ s.methods, m.Inner) :
    idLines s.lines = s.tableId.toList.map idLine := by
  have hbegins := @begins_declaration "ResourceId constant " (by decide)
  rw [idLines, s.filter_lines (by decide) (hbegins " " List.mem_cons_self) (by decide) h,
    s.filter_declarations fun start hstart => hbegins start (List.mem_cons_of_mem _ hstart),
    if_neg (by decide), if_pos (by decide), if_neg (by decide), if_neg (by decide),
    if_neg (by decide), List.nil_append, List.append_nil, List.append_nil, List.append_nil]
  rfl

theorem LibraryOptions.source_tableId {o : LibraryOptions} {cwd : String} {source : LibrarySource}
    (h : o.source cwd = .ok source) : source.tableId = o.tableIdText := by
  simp only [LibraryOptions.source, bind_eq_ok, mapError_eq_ok, pure_eq_ok] at h
  obtain ⟨_, -, _, -, rfl⟩ := h
  rfl

theorem LibraryOptions.ofTable_tableIdText {codegen : StoreCodegen} {scope : Scope} {t : Table}
    {o : LibraryOptions} (h : ofTable codegen scope t = .ok o) :
    o.tableIdText = if t.codegen.tableIdArgument then none else some t.resource.id := by
  simp only [ofTable, bind_eq_ok, pure_eq_ok] at h
  obtain ⟨_, -, _, -, rfl⟩ := h
  have hresource : TableId.resource ⟨t.space, t.name, decide (t.kind = .offchainTable)⟩ =
      t.resource := by
    rw [TableId.resource, Table.resource]
    cases t.kind <;> rfl
  rw [← hresource]
  cases t.codegen.tableIdArgument <;> rfl

/-- The ids of accepted tables and systems hold their whole namespaces and names. The file of a
table states its id in one line, or in none if its methods take an id, whichever user types are
given. -/
theorem resource_id_stated :
    (∀ s : Store, s.Accepted →
      (∀ x ∈ s.tables, Resource.IsId x.2.kind.letters s.space x.2.name x.2.resource.id) ∧
      ∀ types files, s.libraries types = .ok files →
        List.Forall₂ (fun x file => ∀ cwd text, file.options.render cwd = .ok text →
          ∃ source, file.options.source cwd = .ok source ∧
            text = String.intercalate "\n" (source.lines ++ [""]) ∧
            idLines source.lines = if x.2.codegen.tableIdArgument then []
              else [idLine x.2.resource.id]) s.tables files) ∧
    ∀ (ms : Json.Members) (w : World), (Json.obj ms).WellFormed → World.define ms = .ok w →
      ∀ x ∈ w.systems, Resource.IsId "sy" w.space x.2.name x.2.resource.id := by
  refine ⟨fun s hs => ⟨fun x hx => (hs.resolved x hx).isId, fun types files hfiles => ?_⟩,
    fun ms w hms h x hx => ?_⟩
  · apply (Store.libraries_files hfiles).imp
    intro x file hh cwd text htext
    obtain ⟨-, hplan⟩ := hh
    obtain ⟨source, hsource, rfl⟩ := map_eq_ok.mp htext
    refine ⟨source, hsource, rfl, ?_⟩
    rw [source.idLines_eq (LibraryOptions.source_inner hsource),
      LibraryOptions.source_tableId hsource, LibraryOptions.ofTable_tableIdText hplan]
    split <;> rfl
  · obtain ⟨-, d, -, hdefine⟩ := World.define_eq_ok.mp h
    exact ((WorldDeclaration.defines_of_define hdefine).resolved x hx).isId

theorem resource_id_stated_items :
    (∃ file text source, itemStore.libraries itemStore.userTypes = .ok [file] ∧
      file.options.render "/work" = .ok text ∧
      text = String.intercalate "\n" (LibrarySource.lines source ++ [""]) ∧
      idLines source.lines =
        [idLine "0x746200000000000000000000000000004974656d000000000000000000000000"]) ∧
    ∃ w, World.define contributions = .ok w ∧
      ∃ x ∈ w.systems, Resource.IsId "sy" w.space x.2.name x.2.resource.id := by
  obtain ⟨hstores, hworlds⟩ := resource_id_stated
  constructor
  · obtain ⟨files, hfiles, hrender⟩ := itemStore_accepted.libraries_isOk "/work"
    have hstated := (hstores itemStore itemStore_accepted).2 _ files hfiles
    rcases hstated with _ | ⟨hid, hnil⟩
    next file _ =>
      cases hnil
      obtain ⟨text, htext⟩ := hrender file (List.mem_singleton_self file)
      obtain ⟨source, -, hsource, hlines⟩ := hid "/work" text htext
      refine ⟨file, text, source, hfiles, htext, hsource, ?_⟩
      rw [hlines]
      decide +kernel
  · obtain ⟨w, hw, -, -, -, -, x, hx, -⟩ := contributions_define
    exact ⟨w, hw, x, hx, hworlds contributions w contributions_wellFormed hw x hx⟩

end SolidityTables

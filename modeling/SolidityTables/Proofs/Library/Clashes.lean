import SolidityTables.Proofs.Library.Overloads

/-!
# Tables with functions that are alike

Nothing compares the functions of a library with one another. Whether two of them are alike shows in
the table for which it is planned: in the names of its fields and, if it has no key, in whether its
functions take the id of the table.
-/

namespace SolidityTables

open Attempt

namespace Uppercase

theorem ofChar_ne_nil (c : Char) : ofChar c ≠ [] := by
  have hforms : ∀ x ∈ expansions, x.2 ≠ [] := by decide
  unfold ofChar
  split
  next form hfind =>
    intro hnil
    exact hforms _ (List.mem_of_find?_eq_some hfind) (List.map_eq_nil_iff.mp hnil)
  next =>
    split
    · exact List.cons_ne_nil _ _
    · exact List.cons_ne_nil _ _

theorem capitalize_eq_empty {s : String} : capitalize s = "" ↔ s = "" := by
  rw [← String.toList_eq_nil_iff (b := s)]
  unfold capitalize
  cases s.toList with
  | nil => simp
  | cons c cs => simp [← String.toList_eq_nil_iff, ofChar_ne_nil]

end Uppercase

def schemaTopics : List String :=
  ["FieldLayout", "KeySchema", "ValueSchema", "KeyNames", "FieldNames"]

namespace Table

def suffixes (t : Table) : List String :=
  t.valueFields.map fun f => Uppercase.capitalize f.1

/-- Two functions of the library of the table are alike: it has functions for single fields whose
names end in that of the field, and two of these names are the same, or the name of a field is
empty, or a getter that takes nothing is called like a function that tells the schema. -/
def Ambiguous (t : Table) : Prop :=
  t.kind = .table ∧ (t.codegen.dataStruct = true ∨ 1 < t.valueFields.length) ∧
    (¬t.suffixes.Nodup ∨ (∃ f ∈ t.valueFields, f.1 = "") ∨
      t.key = [] ∧ t.codegen.tableIdArgument = false ∧ ∃ n ∈ t.suffixes, n ∈ schemaTopics)

instance (t : Table) : Decidable t.Ambiguous :=
  inferInstanceAs (Decidable (_ ∧ _ ∧ (_ ∨ _ ∨ _ ∧ _ ∧ _)))

theorem empty_mem_suffixes {t : Table} :
    "" ∈ t.suffixes ↔ ∃ f ∈ t.valueFields, f.1 = "" := by
  simp only [suffixes, List.mem_map, Uppercase.capitalize_eq_empty]

end Table

namespace LibraryOptions

variable {codegen : StoreCodegen} {scope : Scope} {s : Store} {t : Table} {o : LibraryOptions}

theorem distinct_iff : o.Distinct ↔ (o.storedFields.map o.suffix).Nodup ∧
    (o.withRecordMethods = true → "" ∉ o.storedFields.map o.suffix) ∧
    (o.idParameters = [] → o.keys = [] →
      ∀ n ∈ o.storedFields.map o.suffix, n ∉ schemaTopics) := by
  have htopics : schemaFunctions.map (·.name) = schemaTopics.map ("get" ++ ·) := by decide
  have hschema (n : String) : "get" ++ n ∉ schemaFunctions.map (·.name) ↔ n ∉ schemaTopics := by
    rw [htopics]
    exact not_congr (List.mem_map_of_injective fun _ _ h => (String.append_right_inj _).mp h)
  have hrecord : "" ∉ o.storedFields.map o.suffix ↔ ∀ f ∈ o.storedFields, o.suffix f ≠ "" := by
    simp only [List.mem_map, not_exists, not_and, ne_eq]
  rw [hrecord]
  simp only [List.forall_mem_map, ← hschema]
  exact ⟨fun h => ⟨h.suffixes, h.record, h.schema⟩, fun ⟨hs, hr, hn⟩ => ⟨hs, hr, hn⟩⟩

structure Chosen (t : Table) (o : LibraryOptions) : Prop where
  getters : o.withGetters = true ↔ t.kind = .table
  record : t.kind = .table →
    (o.withRecordMethods = true ↔ t.codegen.dataStruct = true ∨ 1 < o.fields.length)
  suffixless : o.suffixless = true ↔ o.withRecordMethods = false ∧ o.fields.length = 1
  id : o.idParameters = [] ↔ t.codegen.tableIdArgument = false

theorem chosen_of_ofTable (h : ofTable codegen scope t = .ok o) : Chosen t o := by
  simp only [ofTable, bind_eq_ok, pure_eq_ok] at h
  obtain ⟨keys, -, values, -, rfl⟩ := h
  constructor
  case getters =>
    change (!decide (t.kind = .offchainTable)) = true ↔ t.kind = .table
    cases t.kind <;> decide
  case record =>
    intro hkind
    simp [hkind]
  case suffixless => simp
  case id =>
    unfold idParameters
    cases t.codegen.tableIdArgument <;> simp

namespace Plans

theorem fields_names (h : Plans scope t o) :
    o.fields.map (·.name) = t.valueFields.map (·.1) := by
  rw [map_eq_map_iff]
  apply h.fields.flip.imp
  intro f x hh
  obtain ⟨n, hx⟩ := hh
  rw [(valueField_eq_ok.mp hx).2]

theorem storedFields_perm (h : Plans scope t o) : o.storedFields.Perm o.fields := by
  rw [storedFields, h.staticFields, h.dynamicFields]
  have hsplit := List.filter_append_perm (fun f : Field => !f.isDynamic) o.fields
  simpa only [Bool.not_not] using hsplit

theorem suffixes_perm (h : Plans scope t o) (hs : o.suffixless = false) :
    (o.storedFields.map o.suffix).Perm t.suffixes := by
  have hnames : o.fields.map o.suffix = t.suffixes := by
    have hsuffix : o.suffix = Uppercase.capitalize ∘ fun f => f.name := by
      funext f
      rw [suffix, hs]
      rfl
    rw [hsuffix, ← List.map_map, h.fields_names, List.map_map]
    rfl
  rw [← hnames]
  exact h.storedFields_perm.map _

theorem distinct_of_single (h : Plans scope t o) (hc : Chosen t o)
    (hrecord : o.withRecordMethods = false) (hone : o.fields.length ≤ 1) : o.Distinct := by
  have hlength : o.storedFields.length ≤ 1 := h.storedFields_perm.length_eq ▸ hone
  -- The functions of the only field are called by their verbs alone.
  have hsuffix : ∀ f ∈ o.storedFields, o.suffix f = "" := by
    intro f hf
    have hpos := List.length_pos_of_mem (h.storedFields_perm.subset hf)
    have hless : o.suffixless = true := hc.suffixless.mpr ⟨hrecord, by omega⟩
    rw [suffix, hless]
    rfl
  constructor
  case suffixes =>
    rcases hl : o.storedFields with _ | ⟨f, _ | ⟨g, rest⟩⟩
    · exact List.nodup_nil
    · exact List.nodup_singleton _
    · simp [hl] at hlength
  case record =>
    intro hmethods
    rw [hrecord] at hmethods
    cases hmethods
  case schema =>
    intro _ _ f hf
    rw [hsuffix f hf]
    decide

theorem distinct_iff_of_many (h : Plans scope t o) (hc : Chosen t o) (ht : t.Resolved s)
    (hrecord : o.withRecordMethods = true) : o.Distinct ↔ t.suffixes.Nodup ∧
      (¬∃ f ∈ t.valueFields, f.1 = "") ∧
      (t.codegen.tableIdArgument = false → t.key = [] → ∀ n ∈ t.suffixes, n ∉ schemaTopics) := by
  have hless : o.suffixless = false := by
    by_contra hnot
    have hnone := (hc.suffixless.mp (Bool.of_not_eq_false hnot)).1
    rw [hrecord] at hnone
    cases hnone
  have hperm := h.suffixes_perm hless
  have hkeys : o.keys = [] ↔ t.key = [] := by
    rw [← h.keys_names ht.keyFields_names, List.map_eq_nil_iff]
  rw [distinct_iff, hperm.nodup_iff, hperm.mem_iff, hc.id, hkeys, ← Table.empty_mem_suffixes]
  simp only [hrecord, true_implies, hperm.mem_iff]

end Plans

theorem overloads_nodup_iff_table (h : ofTable codegen scope t = .ok o) (ht : t.Resolved s) :
    (o.functions.map Signature.overload).Nodup ↔ ¬t.Ambiguous := by
  have hplans := plans_of_ofTable h
  have hchosen := chosen_of_ofTable h
  have hlength : o.fields.length = t.valueFields.length := hplans.fields.length_eq.symm
  rw [overloads_nodup_iff, hchosen.getters, Table.Ambiguous, not_and]
  refine imp_congr_right fun hkind => ?_
  have hmany := hchosen.record hkind
  rw [hlength] at hmany
  rw [← hmany, not_and]
  cases hrecord : o.withRecordMethods with
  | true =>
    rw [hplans.distinct_iff_of_many hchosen ht hrecord]
    simp only [true_implies, not_or, not_not, not_and, not_exists]
    exact and_congr_right fun _ => and_congr_right fun _ =>
      ⟨fun h hkey hid => h hid hkey, fun h hid hkey => h hkey hid⟩
  | false =>
    have hone : o.fields.length ≤ 1 := by
      by_contra hnot
      have hmethods := hmany.mpr (.inr (by omega))
      rw [hrecord] at hmethods
      cases hmethods
    simp [hplans.distinct_of_single hchosen hrecord hone]

end LibraryOptions

/-- The functions that begin in the lines of a library are told apart by their names and the types
of what they take just if its table is not ambiguous. With the user types of the store all libraries
can be written. -/
theorem Store.functions_told_apart (s : Store) (hs : s.Accepted) :
    (∀ (types : List (String × UserType)) (files : List LibraryFile) (cwd : String),
      s.libraries types = .ok files →
      List.Forall₂ (fun x file => ∀ text, file.options.render cwd = .ok text →
        ∃ source, file.options.source cwd = .ok source ∧
          text = String.intercalate "\n" (source.lines ++ [""]) ∧
          List.Forall₂ Signature.BeginsIn file.options.functions (functionLines source.lines) ∧
          ((file.options.functions.map Signature.overload).Nodup ↔ ¬x.2.Ambiguous))
        s.tables files) ∧
    ∀ cwd, ∃ files, s.libraries s.userTypes = .ok files ∧
      ∀ file ∈ files, ∃ text, file.options.render cwd = .ok text := by
  refine ⟨fun types files cwd hfiles => ?_, hs.libraries_isOk⟩
  apply ((List.forall₂_and_left _ _).mpr ⟨hs.resolved, libraries_files hfiles⟩).imp
  intro x file hh text htext
  obtain ⟨hx, -, hoptions⟩ := hh
  obtain ⟨source, hsource, rfl⟩ := map_eq_ok.mp htext
  exact ⟨source, hsource, rfl, LibraryOptions.source_functions hsource,
    LibraryOptions.overloads_nodup_iff_table hoptions hx⟩

theorem functions_told_apart_items : ∃ (file : LibraryFile) (source : LibrarySource),
    itemStore.libraries itemStore.userTypes = .ok [file] ∧
      file.options.render "/work" = .ok (String.intercalate "\n" (source.lines ++ [""])) ∧
      List.Forall₂ Signature.BeginsIn file.options.functions (functionLines source.lines) ∧
      (file.options.functions.map Signature.overload).Nodup := by
  obtain ⟨htold, hwritten⟩ := Store.functions_told_apart itemStore itemStore_accepted
  obtain ⟨files, hfiles, hrender⟩ := hwritten "/work"
  rcases htold _ files "/work" hfiles with _ | ⟨hitem, hnil⟩
  next file _ =>
    cases hnil
    obtain ⟨text, htext⟩ := hrender file (List.mem_singleton_self file)
    obtain ⟨source, -, rfl, hbegins, hnodup⟩ := hitem text htext
    exact ⟨file, source, hfiles, htext, hbegins, hnodup.mpr (by decide)⟩

def twins : Json.Members :=
  [("tables", .obj [("Pair", .obj [
    ("schema", .obj [("value", .str "uint8"), ("Value", .str "uint8")])])])]

/-- Two functions of a library that is written may be alike. -/
theorem twins_functions_alike : ∃ (s : Store) (file : LibraryFile) (source : LibrarySource),
    Store.define twins = .ok s ∧ s.libraries s.userTypes = .ok [file] ∧
      file.options.render "/work" = .ok (String.intercalate "\n" (source.lines ++ [""])) ∧
      List.Forall₂ Signature.BeginsIn file.options.functions (functionLines source.lines) ∧
      ¬(file.options.functions.map Signature.overload).Nodup := by
  have hall : (do
      let s ← Store.define twins
      let files ← s.libraries s.userTypes
      return files.map fun (f : LibraryFile) => (fault? (f.options.render "/work"),
        decide (f.options.functions.map Signature.overload).Nodup)) = .ok [(none, false)] := by
    decide +kernel
  simp only [bind_eq_ok, pure_eq_ok] at hall
  obtain ⟨s, hs, files, hfiles, hmap⟩ := hall
  obtain ⟨file, _, rfl, hfile, hnil⟩ := List.map_eq_cons_iff.mp hmap
  cases List.map_eq_nil_iff.mp hnil
  obtain ⟨hnone, halike⟩ := Prod.mk.inj hfile
  obtain ⟨text, htext⟩ := fault?_eq_none.mp hnone
  obtain ⟨source, hsource, rfl⟩ := map_eq_ok.mp htext
  exact ⟨s, file, source, hs, hfiles, htext, LibraryOptions.source_functions hsource,
    of_decide_eq_false halike⟩

end SolidityTables

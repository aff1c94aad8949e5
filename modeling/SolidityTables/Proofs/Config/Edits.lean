import Mathlib.Data.List.Perm.Subperm
import SolidityTables.Proofs.Config.Extension
import SolidityTables.Proofs.Json.Document

/-!
# Edits of a configuration

Tables may be left out and put in another order, and enums and user types of new names may be added.
What is edited is one option of the configuration, and all others are read as before.
-/

namespace SolidityTables

open Attempt

namespace OptionName

variable {o : OptionName} {ms : Json.Members} {key : String} {j : Json}

def entries (o : OptionName) (ms : Json.Members) : Json.Members :=
  match o.given? ms with
  | some (.obj es) => es
  | _ => []

structure Spelled (o : OptionName) (key : String) (ms : Json.Members) : Prop where
  spelling : key ∈ o.spellings
  only : ∀ m ∈ ms, m.1 ∈ o.spellings → m.1 = key

theorem given?_eq_find? (o : OptionName) (ms : Json.Members) :
    o.given? ms = (o.find? ms).map (·.2) := by
  unfold given? find?
  cases ms.lookup o.camel with
  | some j => rfl
  | none => cases ms.lookup o.snake <;> rfl

theorem find?_put_other (h : key ∉ o.spellings) : o.find? (Json.put key j ms) = o.find? ms := by
  have hcamel : o.camel ≠ key := fun hh => h (hh ▸ List.mem_cons_self)
  have hsnake : o.snake ≠ key := fun hh => h (hh ▸ List.mem_cons_of_mem _ List.mem_cons_self)
  rw [find?, find?, Json.lookup_put, Json.lookup_put, if_neg hcamel, if_neg hsnake]

theorem find?_put (h : o.Spelled key ms) : o.find? (Json.put key j ms) = some (key, j) := by
  rw [find?, Json.lookup_put, Json.lookup_put]
  by_cases hcamel : o.camel = key
  · rw [if_pos hcamel, hcamel]
  · have hsnake : o.snake = key := by
      rcases List.mem_cons.mp h.spelling with hkey | hkey
      · exact absurd hkey.symm hcamel
      · exact (List.mem_singleton.mp hkey).symm
    -- The other spelling is looked for first, so it must not stand under another member.
    have hnone : ms.lookup o.camel = none := by
      rw [List.lookup_eq_none_iff]
      intro m hm
      rw [bne_iff_ne]
      intro hh
      exact hcamel (hh.trans (h.only m hm (hh ▸ List.mem_cons_self)))
    rw [if_neg hcamel, hnone, if_pos hsnake, hsnake]
    rfl

theorem entries_put {es : Json.Members} (h : o.Spelled key ms) :
    o.entries (Json.put key (.obj es) ms) = es := by
  rw [entries, given?_eq_find?, find?_put h]
  rfl

theorem entries_put_other (h : key ∉ o.spellings) :
    o.entries (Json.put key j ms) = o.entries ms := by
  rw [entries, given?_eq_find?, find?_put_other h, ← given?_eq_find?]
  rfl

theorem spelled_plain (name : String) (ms : Json.Members) :
    (OptionName.mk name name).Spelled name ms := by
  refine ⟨List.mem_cons_self, fun m _ hm => ?_⟩
  simpa [spellings] using hm

end OptionName

namespace Shape

variable {α : Type} {o : OptionName} {ms : Json.Members} {key : String} {j : Json}
variable {read : Reader α}

theorem option_put_other {default : α} (h : key ∉ o.spellings) :
    (option o read default).read (Json.put key j ms) = (option o read default).read ms := by
  simp only [option, OptionName.find?_put_other h]

theorem record_put_other (h : key ∉ o.spellings) :
    (record o read).read (Json.put key j ms) = (record o read).read ms := by
  simp only [record, OptionName.find?_put_other h]

theorem option_put {default a : α} (h : o.Spelled key ms) (hread : read j = .value a) :
    (option o read default).read (Json.put key j ms) = .value a := by
  simp only [option, OptionName.find?_put h, hread]
  rfl

theorem strangers_put {s : Shape α} (ho : o ∈ s.options) (h : o.Spelled key ms)
    (hothers : ∀ q ∈ s.options, q = o ∨ key ∉ q.spellings) (hms : s.strangers ms = []) :
    s.strangers (Json.put key j ms) = [] := by
  rw [strangers_eq_nil] at hms ⊢
  intro m hm
  by_cases hkey : m.1 = key
  · exact ⟨o, ho, j, by rw [hkey, OptionName.find?_put h]⟩
  · have hmem : m ∈ ms := (Json.mem_put hm).resolve_right fun hh => hkey (congrArg Prod.fst hh)
    obtain ⟨q, hq, i, hfind⟩ := hms m hmem
    -- The option that is put was under no other key before, and all others are found as before.
    rcases hothers q hq with rfl | hother
    · exact absurd (h.only m hmem (OptionName.find?_spelling hfind)) hkey
    · exact ⟨q, hq, i, (OptionName.find?_put_other hother).trans hfind⟩

theorem dictionary_read {es : List (String × α)}
    (h : (option o (.dictionary read) []).read ms = .value es) :
    List.Forall₂ (fun m e => m.1 = e.1 ∧ read m.2 = .value e.2) (o.entries ms) es := by
  rw [OptionName.entries]
  rcases option_read.mp h with ⟨j, hj, hread⟩ | ⟨hnone, rfl⟩
  · rw [hj]
    cases j with
    | obj es => exact Reader.entries_eq_value.mp hread
    | _ => cases hread
  · rw [hnone]
    exact .nil

end Shape

def enumsOption : OptionName := ⟨"enums", "enums"⟩

def userTypesOption : OptionName := ⟨"userTypes", "user_types"⟩

structure StoreDeclaration.ReadFrom (ms : Json.Members) (d : StoreDeclaration) : Prop where
  space : (Shape.option ⟨"namespace", "namespace"⟩ .text "").read ms = .value d.space
  tables : (Shape.option ⟨"tables", "tables"⟩
    (.dictionary (TableDeclaration.shape.reader "TableInput")) []).read ms = .value d.tables
  userTypes : (Shape.option userTypesOption
    (.dictionary (UserType.shape.reader UserType.title)) []).read ms = .value d.userTypes
  enums : (Shape.option enumsOption enumsReader []).read ms = .value d.enums
  codegen : (Shape.record ⟨"codegen", "codegen"⟩
    (StoreCodegen.shape.reader "StoreCodegen")).read ms = .value d.codegen

theorem StoreDeclaration.shape_read {ms : Json.Members} {d : StoreDeclaration} :
    StoreDeclaration.shape.read ms = .value d ↔ d.ReadFrom ms := by
  simp only [shape, declaredNames, Shape.seq_read, Shape.map_read]
  constructor
  · intro hh
    obtain ⟨_, ⟨_, ⟨_, ⟨_, ⟨space, hspace, rfl⟩, tables, htables, rfl⟩, types, htypes, rfl⟩,
      enums, henums, rfl⟩, codegen, hcodegen, rfl⟩ := hh
    exact ⟨hspace, htables, htypes, henums, hcodegen⟩
  · intro h
    exact ⟨_, ⟨_, ⟨_, ⟨_, ⟨_, h.space, rfl⟩, _, h.tables, rfl⟩, _, h.userTypes, rfl⟩,
      _, h.enums, rfl⟩, _, h.codegen, rfl⟩

theorem StoreDeclaration.options_accepted : ∀ o ∈ StoreDeclaration.shape.options,
    ∀ key ∈ o.spellings, OptionKey.isAccepted .store key = true := by decide +kernel

theorem StoreDeclaration.options_apart : ∀ o ∈ StoreDeclaration.shape.options,
    ∀ q ∈ StoreDeclaration.shape.options, q = o ∨ ∀ key ∈ o.spellings, key ∉ q.spellings := by
  decide

theorem declaredTables_eq_entries (ms : Json.Members) :
    declaredTables ms = OptionName.entries ⟨"tables", "tables"⟩ ms := by
  rw [OptionName.entries, OptionName.given?_plain]
  rfl

theorem Presents.put {ms : Json.Members} {d d' : StoreDeclaration} {o : OptionName} {key : String}
    {j : Json} (h : Presents .store StoreDeclaration.shape ms d)
    (ho : o ∈ StoreDeclaration.shape.options) (hkey : o.Spelled key ms)
    (htables : ∀ m ∈ declaredTables (Json.put key j ms), m ∈ declaredTables ms)
    (hread : d'.ReadFrom (Json.put key j ms)) :
    Presents .store StoreDeclaration.shape (Json.put key j ms) d' := by
  refine ⟨fun m hm => ?_, fun tables hlookup m hm => ?_, ?_⟩
  · rcases Json.mem_put hm with hm | rfl
    · exact h.keys m hm
    · exact StoreDeclaration.options_accepted o ho key hkey.spelling
  · have hmem : m ∈ declaredTables (Json.put key j ms) := by
      rw [declaredTables, hlookup]
      exact hm
    have hold := htables m hmem
    unfold declaredTables at hold
    split at hold
    next tables' hlookup' => exact h.overrides tables' hlookup' m hold
    next => cases hold
  · rw [Shape.members_eq_value]
    refine ⟨StoreDeclaration.shape_read.mpr hread, Shape.strangers_put ho hkey (fun q hq => ?_)
      (Shape.members_eq_value.mp h.shape).2⟩
    exact (StoreDeclaration.options_apart o ho q hq).imp_right fun hapart =>
      hapart key hkey.spelling

/-- A name under which an enum or a user type may be added to a configuration. -/
structure IsFresh (ms : Json.Members) (name : String) : Prop where
  unused : name ∉ (enumsOption.entries ms ++ userTypesOption.entries ms).map (·.1)
  identifier : Identifier.isIdentifier name = true
  notAbi : ∀ t : SchemaType, t.name ≠ name

theorem isFresh_iff {ms : Json.Members} {name : String} : IsFresh ms name ↔
    name ∉ (enumsOption.entries ms ++ userTypesOption.entries ms).map (·.1) ∧
    StoreDeclaration.isTypeName name = true := by
  rw [StoreDeclaration.isTypeName_iff]
  constructor
  · intro h
    exact ⟨h.unused, h.notAbi, h.identifier⟩
  · intro hh
    obtain ⟨hunused, hnotAbi, hidentifier⟩ := hh
    exact ⟨hunused, hidentifier, hnotAbi⟩

/-- One edit: some of the tables are kept, in any order, or an enum or a user type is added at any
place among those that are there. -/
inductive Edit (ms : Json.Members) : Json.Members → Prop
  | tables {tables : Json.Members} (h : tables.Subperm (declaredTables ms)) :
    Edit ms (Json.put "tables" (.obj tables) ms)
  | enum {before after : Json.Members} {name : String} {members : List String}
    (hentries : enumsOption.entries ms = before ++ after) (hname : IsFresh ms name)
    (hsome : members ≠ []) (hmost : members.length ≤ 256) (hdistinct : members.Nodup) :
    Edit ms (Json.put "enums" (.obj (before ++ (name, .arr (members.map .str)) :: after)) ms)
  | userType {key : String} {before after : Json.Members} {name : String} {j : Json} {u : UserType}
    (hkey : userTypesOption.Spelled key ms)
    (hentries : userTypesOption.entries ms = before ++ after)
    (hname : IsFresh ms name) (hread : UserType.shape.reader UserType.title j = .value u) :
    Edit ms (Json.put key (.obj (before ++ (name, j) :: after)) ms)

structure StoreDeclaration.Revised (d d' : StoreDeclaration) : Prop where
  space : d'.space = d.space
  codegen : d'.codegen = d.codegen
  tables : ∀ x ∈ d'.tables, x ∈ d.tables
  names : d.checkNames = .ok () → d'.checkNames = .ok ()
  types : ∀ (given : Option (List (String × UserType))) (n : String), d.scope.Knows n →
    Scope.find? ⟨d'.enums, given.getD d'.userTypes⟩ n =
      Scope.find? ⟨d.enums, given.getD d.userTypes⟩ n

namespace StoreDeclaration

variable {d : StoreDeclaration} {name : String}

theorem revised_tables {tables : List (String × TableDeclaration)}
    (h : ∀ x ∈ tables, x ∈ d.tables) : d.Revised { d with tables } :=
  ⟨rfl, rfl, h, id, fun _ _ _ => rfl⟩

theorem ne_of_knows {n : String} (hname : isTypeName name = true) (hunused : name ∉ d.typeNames)
    (hn : d.scope.Knows n) : n ≠ name := by
  rintro rfl
  rcases hn with ⟨t, ht⟩ | hn | hn
  · exact (isTypeName_iff.mp hname).1 t ht
  · exact hunused (List.mem_append_left _ hn)
  · exact hunused (List.mem_append_right _ hn)

theorem checkNames_of_added {d' : StoreDeclaration} (hname : isTypeName name = true)
    (hunused : name ∉ d.typeNames)
    (henums : ∀ n ∈ d'.enums.map (·.1), n = name ∨ n ∈ d.enums.map (·.1))
    (huserTypes : ∀ n ∈ d'.userTypes.map (·.1), n = name ∨ n ∈ d.userTypes.map (·.1))
    (hone : d'.enums = d.enums ∨ d'.userTypes = d.userTypes) (h : d.checkNames = .ok ()) :
    d'.checkNames = .ok () := by
  obtain ⟨hdisjoint, htypes⟩ := checkNames_eq_ok.mp h
  obtain ⟨hnoEnum, hnoUser⟩ := not_or.mp (mt List.mem_append.mpr hunused)
  refine checkNames_eq_ok.mpr ⟨fun n hn huser => ?_, fun n hn => ?_⟩
  -- One of the two lists is as it was, so a name in both is in both of before or the added one.
  · rcases hone with hsame | hsame
    · rw [hsame] at hn
      rcases huserTypes n huser with rfl | huser
      · exact hnoEnum hn
      · exact hdisjoint n hn huser
    · rw [hsame] at huser
      rcases henums n hn with rfl | hn
      · exact hnoUser huser
      · exact hdisjoint n hn huser
  · have hadded : n = name ∨ n ∈ d.typeNames := by
      rcases List.mem_append.mp hn with hn | hn
      · exact (henums n hn).imp_right (List.mem_append_left _)
      · exact (huserTypes n hn).imp_right (List.mem_append_right _)
    rcases hadded with rfl | hn
    · exact hname
    · exact htypes n hn

theorem mem_keys_insert {α : Type} {before after : List (String × α)} {a : α} {n : String} :
    n ∈ (before ++ (name, a) :: after).map (·.1) ↔ n = name ∨ n ∈ (before ++ after).map (·.1) := by
  simp only [List.map_append, List.map_cons, List.mem_append, List.mem_cons]
  tauto

theorem revised_enum {before after : List (String × List String)} {members : List String}
    (henums : d.enums = before ++ after) (hname : isTypeName name = true)
    (hunused : name ∉ d.typeNames) :
    d.Revised { d with enums := before ++ (name, members) :: after } := by
  refine ⟨rfl, rfl, fun _ => id, ?_, fun given n hn => ?_⟩
  · refine checkNames_of_added hname hunused (fun n hn => ?_) (fun _ => .inr) (.inr rfl)
    rw [henums]
    exact mem_keys_insert.mp hn
  · have hsame : n ∈ (before ++ (name, members) :: after).map (·.1) ↔ n ∈ d.enums.map (·.1) := by
      rw [mem_keys_insert, or_iff_right (ne_of_knows hname hunused hn), henums]
    simp only [Scope.find?, hsame]

theorem revised_userType {before after : List (String × UserType)} {u : UserType}
    (huserTypes : d.userTypes = before ++ after) (hname : isTypeName name = true)
    (hunused : name ∉ d.typeNames) :
    d.Revised { d with userTypes := before ++ (name, u) :: after } := by
  refine ⟨rfl, rfl, fun _ => id, ?_, fun given n hn => ?_⟩
  · refine checkNames_of_added hname hunused (fun _ => .inr) (fun n hn => ?_) (.inl rfl)
    rw [huserTypes]
    exact mem_keys_insert.mp hn
  · have hlookup := lookup_insert_of_ne (ne_of_knows hname hunused hn) before u after
    cases given with
    | none =>
      rw [← huserTypes] at hlookup
      simp only [Scope.find?, Option.getD_none, hlookup]
    | some types => rfl

end StoreDeclaration

section Presents

variable {ms ms' : Json.Members} {d : StoreDeclaration}

theorem enums_read {es : List (String × List String)}
    (h : (Shape.option enumsOption enumsReader []).read ms = .value es) :
    List.Forall₂ (fun m e => m.1 = e.1 ∧ Reader.list .text m.2 = .value e.2)
      (enumsOption.entries ms) es ∧ enumFault? es = none := by
  rcases Shape.option_read.mp h with ⟨j, hj, hread⟩ | ⟨hnone, rfl⟩
  · obtain ⟨hread, hvalid⟩ := Reading.check_eq_value.mp hread
    exact ⟨Shape.dictionary_read (Shape.option_read.mpr (.inl ⟨j, hj, hread⟩)), hvalid⟩
  · exact ⟨Shape.dictionary_read (Shape.option_read.mpr (.inr ⟨hnone, rfl⟩)), rfl⟩

theorem StoreDeclaration.ReadFrom.typeNames (h : d.ReadFrom ms) :
    d.typeNames = (enumsOption.entries ms ++ userTypesOption.entries ms).map (·.1) := by
  have henums := map_eq_map_iff.mpr ((enums_read h.enums).1.imp fun _ _ hh => hh.1)
  have huserTypes := map_eq_map_iff.mpr ((Shape.dictionary_read h.userTypes).imp fun _ _ hh => hh.1)
  rw [StoreDeclaration.typeNames, List.map_append, henums, huserTypes]

theorem StoreDeclaration.ReadFrom.put_tables (h : d.ReadFrom ms) {tables : Json.Members}
    (htables : tables.Subperm (declaredTables ms)) : ∃ d' : StoreDeclaration,
      d'.ReadFrom (Json.put "tables" (.obj tables) ms) ∧ d.Revised d' := by
  have hread := Shape.dictionary_read h.tables
  rw [← declaredTables_eq_entries] at hread
  obtain ⟨kept, hkept⟩ := exists_forall₂ fun m hm =>
    let ⟨e, _, he⟩ := exists_of_mem_right hread.flip (htables.subset hm)
    ⟨e, he⟩
  have hold : ∀ x ∈ kept, x ∈ d.tables := by
    intro x hx
    obtain ⟨m, hm, hlabel, hx⟩ := exists_of_mem_right hkept hx
    obtain ⟨y, hy, hlabel', hy'⟩ := exists_of_mem_right hread.flip (htables.subset hm)
    have hsame : x = y := Prod.ext (hlabel.symm.trans hlabel')
      (Reading.value.inj (hx.symm.trans hy'))
    rw [hsame]
    exact hy
  refine ⟨{ d with tables := kept }, ⟨?_, ?_, ?_, ?_, ?_⟩, StoreDeclaration.revised_tables hold⟩
  · exact (Shape.option_put_other (by decide)).trans h.space
  · exact Shape.option_put (OptionName.spelled_plain "tables" ms)
      (Reader.entries_eq_value.mpr hkept)
  · exact (Shape.option_put_other (by decide)).trans h.userTypes
  · exact (Shape.option_put_other (by decide)).trans h.enums
  · exact (Shape.record_put_other (by decide)).trans h.codegen

theorem StoreDeclaration.ReadFrom.put_enum (h : d.ReadFrom ms) {before after : Json.Members}
    {name : String} {members : List String} (hentries : enumsOption.entries ms = before ++ after)
    (hfresh : IsFresh ms name) (hmembers : members ≠ [] ∧ members.length ≤ 256 ∧ members.Nodup) :
    ∃ d' : StoreDeclaration, d'.ReadFrom (Json.put "enums"
      (.obj (before ++ (name, .arr (members.map .str)) :: after)) ms) ∧ d.Revised d' := by
  obtain ⟨hunused, hname⟩ := isFresh_iff.mp hfresh
  obtain ⟨hread, hvalid⟩ := enums_read h.enums
  rw [hentries] at hread
  have hlist : Reader.list .text (.arr (members.map .str)) = .value members :=
    (Reader.list_eq_value fun _ _ => Reader.text_eq_value).mpr rfl
  obtain ⟨front, back, henums, hadded⟩ := forall₂_insert hread
    (x := (name, .arr (members.map .str))) (y := (name, members)) ⟨rfl, hlist⟩
  have hvalid' : enumFault? (front ++ (name, members) :: back) = none := by
    rw [enumFault?_eq_none] at hvalid ⊢
    rw [henums, List.forall_mem_append] at hvalid
    rw [List.forall_mem_append, List.forall_mem_cons]
    exact ⟨hvalid.1, hmembers, hvalid.2⟩
  refine ⟨{ d with enums := front ++ (name, members) :: back }, ⟨?_, ?_, ?_, ?_, ?_⟩,
    StoreDeclaration.revised_enum henums hname (h.typeNames ▸ hunused)⟩
  · exact (Shape.option_put_other (by decide)).trans h.space
  · exact (Shape.option_put_other (by decide)).trans h.tables
  · exact (Shape.option_put_other (by decide)).trans h.userTypes
  · exact Shape.option_put (OptionName.spelled_plain "enums" ms)
      (Reading.check_eq_value.mpr ⟨Reader.entries_eq_value.mpr hadded, hvalid'⟩)
  · exact (Shape.record_put_other (by decide)).trans h.codegen

theorem StoreDeclaration.ReadFrom.put_userType (h : d.ReadFrom ms) {key : String}
    {before after : Json.Members} {name : String} {j : Json} {u : UserType}
    (hkey : userTypesOption.Spelled key ms)
    (hentries : userTypesOption.entries ms = before ++ after)
    (hfresh : IsFresh ms name) (hu : UserType.shape.reader UserType.title j = .value u) :
    ∃ d' : StoreDeclaration,
      d'.ReadFrom (Json.put key (.obj (before ++ (name, j) :: after)) ms) ∧ d.Revised d' := by
  obtain ⟨hunused, hname⟩ := isFresh_iff.mp hfresh
  have hread := Shape.dictionary_read h.userTypes
  rw [hentries] at hread
  obtain ⟨front, back, huserTypes, hadded⟩ := forall₂_insert hread
    (x := (name, j)) (y := (name, u)) ⟨rfl, hu⟩
  have hother : ∀ q ∈ StoreDeclaration.shape.options, q ≠ userTypesOption → key ∉ q.spellings := by
    intro q hq hne
    exact (StoreDeclaration.options_apart userTypesOption (by decide) q hq).resolve_left hne key
      hkey.spelling
  refine ⟨{ d with userTypes := front ++ (name, u) :: back }, ⟨?_, ?_, ?_, ?_, ?_⟩,
    StoreDeclaration.revised_userType huserTypes hname (h.typeNames ▸ hunused)⟩
  · exact (Shape.option_put_other (hother _ (by decide) (by decide))).trans h.space
  · exact (Shape.option_put_other (hother _ (by decide) (by decide))).trans h.tables
  · exact Shape.option_put hkey (Reader.entries_eq_value.mpr hadded)
  · exact (Shape.option_put_other (hother _ (by decide) (by decide))).trans h.enums
  · exact (Shape.record_put_other (hother _ (by decide) (by decide))).trans h.codegen

theorem Edit.presents (h : Edit ms ms') (hd : Presents .store StoreDeclaration.shape ms d) :
    ∃ d', Presents .store StoreDeclaration.shape ms' d' ∧ d.Revised d' ∧
      (declaredTables ms').Subperm (declaredTables ms) := by
  have hread := StoreDeclaration.shape_read.mp (Shape.members_eq_value.mp hd.shape).1
  have hkept (key : String) (j : Json) (hkey : key ≠ "tables") :
      (declaredTables (Json.put key j ms)).Subperm (declaredTables ms) := by
    rw [declaredTables_eq_entries, declaredTables_eq_entries, OptionName.entries_put_other]
    simpa [OptionName.spellings] using hkey
  cases h with
  | @tables tables htables =>
    have hkey := OptionName.spelled_plain "tables" ms
    have hdeclared : declaredTables (Json.put "tables" (.obj tables) ms) = tables := by
      rw [declaredTables_eq_entries, OptionName.entries_put hkey]
    obtain ⟨d', hread', hrevised⟩ := hread.put_tables htables
    rw [← hdeclared] at htables
    exact ⟨d', hd.put (by decide) hkey (fun _ => (htables.subset ·)) hread', hrevised, htables⟩
  | enum hentries hname hsome hmost hdistinct =>
    obtain ⟨d', hread', hrevised⟩ := hread.put_enum hentries hname ⟨hsome, hmost, hdistinct⟩
    refine ⟨d', ?_, hrevised, hkept "enums" _ (by decide)⟩
    exact hd.put (by decide) (OptionName.spelled_plain "enums" ms)
      (fun _ => ((hkept "enums" _ (by decide)).subset ·)) hread'
  | @userType key _ _ _ _ _ hkey hentries hname hu =>
    obtain ⟨d', hread', hrevised⟩ := hread.put_userType hkey hentries hname hu
    have hapart : ∀ k ∈ userTypesOption.spellings, k ≠ "tables" := by decide
    have hne := hapart key hkey.spelling
    refine ⟨d', ?_, hrevised, hkept key _ hne⟩
    exact hd.put (by decide) hkey (fun _ => ((hkept key _ hne).subset ·)) hread'

end Presents

end SolidityTables

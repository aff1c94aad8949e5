import SolidityTables.Proofs.Config.Tables

/-!
# Ids of accepted resources

A table or system is called by the name that is declared or else by the beginning of its label that
fits into sixteen bytes. Nothing compares the tables of a configuration, or its systems, with one
another. An id tells them apart as far as their kinds and names do: names that are given alike, or
labels that begin alike and are cut, lead to one id.
-/

namespace SolidityTables

open Attempt
open Resource (significant)

theorem TableKind.resource_injective {k l : TableKind} (h : k.resource = l.resource) : k = l := by
  cases k <;> cases l <;> first | rfl | cases h

theorem Table.Resolved.id_eq_iff {s : Store} {t u : Table} (ht : t.Resolved s)
    (hu : u.Resolved s) : t.resource.id = u.resource.id ↔
      t.kind = u.kind ∧ significant t.name = significant u.name := by
  rw [Resource.id_eq_iff ht.fits hu.fits]
  simp only [Table.resource, ht.space, hu.space, true_and]
  have hkinds : t.kind.resource = u.kind.resource ↔ t.kind = u.kind :=
    ⟨TableKind.resource_injective, congrArg TableKind.resource⟩
  rw [hkinds]

structure System.Resolved (w : World) (t : System) : Prop where
  space : t.space = w.space
  fits : t.resource.Fits

theorem System.Resolved.id_eq_iff {w : World} {t u : System} (ht : t.Resolved w)
    (hu : u.Resolved w) :
    t.resource.id = u.resource.id ↔ significant t.name = significant u.name := by
  rw [Resource.id_eq_iff ht.fits hu.fits]
  simp only [System.resource, ht.space, hu.space, true_and]

theorem System.Resolved.id_ne {w : World} {t : Table} {u : System} (ht : t.Resolved w.toStore)
    (hu : u.Resolved w) : t.resource.id ≠ u.resource.id := by
  intro h
  have hkind := ((Resource.id_eq_iff ht.fits hu.fits).mp h).1
  simp only [Table.resource, System.resource] at hkind
  cases hk : t.kind <;> simp [hk, TableKind.resource] at hkind

theorem WorldDeclaration.Defines.resolved {d : WorldDeclaration} {w : World} (h : d.Defines w) :
    ∀ x ∈ w.systems, x.2.Resolved w := by
  intro x hx
  obtain ⟨y, -, -, hy⟩ := exists_of_mem_right h.systems hx
  have hspace : x.2.space = w.space := hy.space.trans h.store.space.symm
  refine ⟨hspace, ?_, hy.fits⟩
  rw [System.resource, hspace, h.store.space, Utf8.size_eq]
  exact h.store.names.space

def explicitName (input : Json.Members) : Option Json :=
  match input.lookup "name" with
  | some .null => none
  | j => j

/-- A name has at most sixteen bytes, and is the one that is declared or else the longest beginning
of the label with as many bytes. -/
structure NamedBy (label : String) (input : Json.Members) (name : String) : Prop where
  size_le : name.utf8ByteSize ≤ 16
  given : match explicitName input with
    | some j => j = .str name
    | none => name.toList <+: label.toList ∧ ∀ s : String, s.toList <+: label.toList →
        s.utf8ByteSize ≤ 16 → s.toList <+: name.toList

structure Table.IdentifiedBy (label : String) (input : Json.Members) (t : Table) : Prop where
  kind : (input.lookup "type").getD (.str "table") =
    .str (if t.kind = .offchainTable then "offchainTable" else "table")
  name : NamedBy label input t.name
  label : t.label = label

structure System.IdentifiedBy (label : String) (input : Json.Members) (t : System) : Prop where
  name : NamedBy label input t.name
  label : t.label = label

section Names

variable {input : Json.Members}

theorem explicitName_read {name : Option String}
    (h : (Shape.option ⟨"name", "name"⟩ (.nullable .text) none).read input = .value name) :
    explicitName input = name.map .str := by
  rcases Shape.option_read.mp h with ⟨j, hj, hread⟩ | ⟨hnone, rfl⟩
  · rw [OptionName.given?_plain] at hj
    rcases Reader.nullable_eq_value.mp hread with ⟨rfl, rfl⟩ | ⟨-, s, hs, rfl⟩
    · rw [explicitName, hj]
      rfl
    · cases Reader.text_eq_value.mp hs
      rw [explicitName, hj]
      rfl
  · rw [OptionName.given?_plain] at hnone
    rw [explicitName, hnone]
    rfl

theorem namedBy_of_read {label name : String} {given : Option String}
    (hread : (Shape.option ⟨"name", "name"⟩ (.nullable .text) none).read input = .value given)
    (hname : name = given.getD (Resource.defaultName label)) (hsize : Utf8.size name ≤ 16) :
    NamedBy label input name := by
  have hexplicit := explicitName_read hread
  rw [Utf8.size_eq] at hsize
  cases given with
  | some n =>
    obtain rfl : name = n := hname
    exact ⟨hsize, by rw [hexplicit]; rfl⟩
  | none =>
    obtain rfl : name = Resource.defaultName label := hname
    have hlongest : Utf8.Longest 16 label (Resource.defaultName label) :=
      Utf8.truncate_longest 16 label
    refine ⟨hsize, ?_⟩
    rw [hexplicit]
    refine ⟨hlongest.begins, fun s hbegins hs => hlongest.of_begins hbegins ?_⟩
    rw [Utf8.size_eq]
    exact hs

theorem TableKind.reader_eq_value {j : Json} {k : TableKind} (h : reader j = .value k) :
    j = .str (if k = .offchainTable then "offchainTable" else "table") := by
  unfold reader at h
  split at h
  · cases h
    rfl
  · cases h
    rfl
  · cases h

theorem TableDeclaration.Defines.identifiedBy {d : TableDeclaration} {space label : String}
    {scope : Scope} {t : Table} (hread : shape.read input = .value d)
    (h : d.Defines space scope label t) : t.IdentifiedBy label input := by
  have hsize : Utf8.size t.name ≤ 16 := by
    rw [h.name]
    exact Resource.checkName_eq_ok.mp ((checks_eq_ok label h.schema).mpr h.sound).2.2
  simp only [shape, Shape.seq_read, Shape.map_read] at hread
  obtain ⟨_, ⟨_, ⟨_, ⟨_, ⟨_, ⟨_, -, rfl⟩, _, -, rfl⟩, kind, hkind, rfl⟩, name, hname, rfl⟩,
    _, -, rfl⟩, _, -, rfl⟩ := hread
  refine ⟨?_, namedBy_of_read hname h.name hsize, h.label⟩
  rw [h.kind]
  exact Shape.plain_read TableKind.reader_eq_value hkind

theorem SystemDeclaration.Defines.identifiedBy {d : SystemDeclaration} {space label : String}
    {t : System} (hread : shape.read input = .value d) (h : d.Defines space label t) :
    t.IdentifiedBy label input := by
  simp only [shape, Shape.seq_read, Shape.map_read] at hread
  obtain ⟨_, ⟨_, ⟨_, ⟨name, hname, rfl⟩, _, -, rfl⟩, _, -, rfl⟩, _, -, rfl⟩ := hread
  exact ⟨namedBy_of_read hname h.name h.fits, h.label⟩

end Names

def declaredSystems (ms : Json.Members) : Json.Members :=
  match ms.lookup "systems" with
  | some (.obj systems) => systems
  | _ => []

theorem Store.DefinedBy.tables_identified {ms : Json.Members} {s : Store} (h : s.DefinedBy ms) :
    List.Forall₂ (fun m x => ∃ input, m.2 = .obj input ∧ x.2.IdentifiedBy m.1 input)
      (declaredTables ms) s.tables := by
  obtain ⟨d, htaken, hd⟩ := h.taken
  refine forall₂_comp (fun m y x hm hx => ?_) htaken.tables hd.tables
  obtain ⟨hlabel, hread⟩ := hm
  obtain ⟨-, hdefines⟩ := hx
  obtain ⟨input, hinput, hread, -⟩ := Shape.reader_eq_value.mp hread
  rw [hlabel]
  exact ⟨input, hinput, hdefines.identifiedBy hread⟩

theorem World.systems_identified {ms : Json.Members} {w : World} (h : World.define ms = .ok w) :
    List.Forall₂ (fun m x => ∃ input, m.2 = .obj input ∧ x.2.IdentifiedBy m.1 input)
      (declaredSystems ms) w.systems := by
  obtain ⟨-, d, hpresents, hdefine⟩ := World.define_eq_ok.mp h
  have hread := Shape.entries_read
    (WorldDeclaration.shape_read (Shape.members_eq_value.mp hpresents.shape).1).2
  refine forall₂_comp (fun m y x hm hx => ?_) hread
    (WorldDeclaration.defines_of_define hdefine).systems
  obtain ⟨hlabel, hread⟩ := hm
  obtain ⟨-, hdefines⟩ := hx
  obtain ⟨input, hinput, hread, -⟩ := Shape.reader_eq_value.mp hread
  rw [hlabel]
  exact ⟨input, hinput, hdefines.identifiedBy hread⟩

/-- Tables and systems have the kinds and names that they are declared by. Two tables share an id
just if they are of one kind and their names differ in nothing but null characters at the end, two
systems just if their names do so, and a table and a system never. -/
theorem resource_id_eq_iff :
    (∀ (ms : Json.Members) (s : Store), (Json.obj ms).WellFormed → s.DefinedBy ms →
      List.Forall₂ (fun m x => ∃ input, m.2 = .obj input ∧ x.2.IdentifiedBy m.1 input)
        (declaredTables ms) s.tables ∧
      ∀ x ∈ s.tables, ∀ y ∈ s.tables, (x.2.resource.id = y.2.resource.id ↔
        x.2.kind = y.2.kind ∧ significant x.2.name = significant y.2.name)) ∧
    ∀ (ms : Json.Members) (w : World), (Json.obj ms).WellFormed → World.define ms = .ok w →
      List.Forall₂ (fun m x => ∃ input, m.2 = .obj input ∧ x.2.IdentifiedBy m.1 input)
        (declaredSystems ms) w.systems ∧
      (∀ x ∈ w.systems, ∀ y ∈ w.systems,
        (x.2.resource.id = y.2.resource.id ↔ significant x.2.name = significant y.2.name)) ∧
      ∀ x ∈ w.tables, ∀ y ∈ w.systems, x.2.resource.id ≠ y.2.resource.id := by
  constructor
  · intro ms s hms h
    have hresolved := (h.accepted hms).resolved
    refine ⟨h.tables_identified, fun x hx y hy => ?_⟩
    exact (hresolved x hx).id_eq_iff (hresolved y hy)
  · intro ms w hms h
    obtain ⟨-, d, -, hdefine⟩ := World.define_eq_ok.mp h
    have hsystems := (WorldDeclaration.defines_of_define hdefine).resolved
    have htables := (Store.Accepted.world hms h).resolved
    refine ⟨World.systems_identified h, fun x hx y hy => ?_, fun x hx y hy => ?_⟩
    · exact (hsystems x hx).id_eq_iff (hsystems y hy)
    · exact (hsystems y hy).id_ne (htables x hx)

def contributions : Json.Members :=
  [("tables", .obj [
    ("ContributionsByMember", .obj [("schema", .obj [("amount", .str "uint256")])]),
    ("ContributionsByMonth", .obj [("schema", .obj [("amount", .str "uint256")])])]),
   ("systems", .obj [("ContributionsByMember", .obj [])])]

theorem contributions_wellFormed : (Json.obj contributions).WellFormed := by
  simp [contributions]

theorem contributions_define : ∃ w, World.define contributions = .ok w ∧
    ∃ x ∈ w.tables, ∃ y ∈ w.tables, ∃ z ∈ w.systems,
      x.2.label ≠ y.2.label ∧ x.2.resource = y.2.resource ∧ z.2.name = x.2.name := by
  have h : (World.define contributions).map (fun w =>
        (w.tables.map fun x => (x.2.label, x.2.resource), w.systems.map (·.2.name))) =
      .ok ([("ContributionsByMember", ⟨.table, "", "ContributionsByM"⟩),
        ("ContributionsByMonth", ⟨.table, "", "ContributionsByM"⟩)], ["ContributionsByM"]) := by
    decide +kernel
  obtain ⟨w, hw, hresources⟩ := map_eq_ok.mp h
  obtain ⟨htables, hsystems⟩ := Prod.mk.inj hresources
  obtain ⟨x, _, hx, hxr, hrest⟩ := List.map_eq_cons_iff.mp htables
  obtain ⟨y, _, hy, hyr, -⟩ := List.map_eq_cons_iff.mp hrest
  obtain ⟨z, _, hz, hzn, -⟩ := List.map_eq_cons_iff.mp hsystems
  obtain ⟨hxl, hxr⟩ := Prod.mk.inj hxr
  obtain ⟨hyl, hyr⟩ := Prod.mk.inj hyr
  refine ⟨w, hw, x, by simp [hx], y, by simp [hx, hy], z, by simp [hz], ?_, hxr.trans hyr.symm, ?_⟩
  · rw [hxl, hyl]
    decide
  · exact hzn.trans (congrArg Resource.name hxr).symm

theorem contributions_share_id : ∃ w, World.define contributions = .ok w ∧
    ∃ x ∈ w.tables, ∃ y ∈ w.tables, x.2.label ≠ y.2.label ∧
      x.2.resource.id = y.2.resource.id := by
  obtain ⟨w, hw, x, hx, y, hy, -, -, hlabels, hresource, -⟩ := contributions_define
  exact ⟨w, hw, x, hx, y, hy, hlabels, congrArg Resource.id hresource⟩

theorem resource_id_eq_iff_contributions : ∃ w, World.define contributions = .ok w ∧
    ∃ x ∈ w.tables, ∃ y ∈ w.tables, ∃ z ∈ w.systems, x.2.label ≠ y.2.label ∧
      x.2.resource.id = y.2.resource.id ∧ x.2.name = z.2.name ∧
      x.2.resource.id ≠ z.2.resource.id := by
  obtain ⟨w, hw, x, hx, y, hy, z, hz, hlabels, hresource, hname⟩ := contributions_define
  obtain ⟨hstores, hworlds⟩ := resource_id_eq_iff
  obtain ⟨-, hids⟩ := hstores contributions w.toStore contributions_wellFormed (.inr ⟨w, hw, rfl⟩)
  have hkind := TableKind.resource_injective (congrArg Resource.kind hresource)
  have hnames : x.2.name = y.2.name := congrArg Resource.name hresource
  exact ⟨w, hw, x, hx, y, hy, z, hz, hlabels,
    (hids x hx y hy).mpr ⟨hkind, congrArg significant hnames⟩, hname.symm,
    (hworlds contributions w contributions_wellFormed hw).2.2 x hx z hz⟩

end SolidityTables

import SolidityTables.Proofs.Config.Tables
import SolidityTables.Proofs.Disk.Run
import SolidityTables.Proofs.Library.Clashes

/-!
# Classes of fields

Every field of a schema is planned once: in the key, or as a static or a dynamic field. The class of
a field and what goes with it, its length and the type of its elements, is that of the ABI type to
which its declared type is resolved, even if other user types are given than those of the store.
-/

namespace SolidityTables

open Attempt

/-- A field that is classified as one of an ABI type. -/
structure Field.Classified (t : SchemaType) (f : Field) : Prop where
  internal : f.internal = t.name
  dynamic : f.isDynamic = true ↔ t ∈ SchemaType.dynamic
  staticLength : f.isDynamic = false → 1 ≤ f.byteLength ∧ f.byteLength ≤ 32
  dynamicLength : f.isDynamic = true → f.byteLength = 0
  array : f.element.isSome = true ↔ ∃ e, t = .array e
  element : ∀ r, f.element = some r → ∃ e, t = .array e ∧ r = .ofAbi (.static e)
  elementLength : f.isDynamic = true → 1 ≤ f.elementLength

theorem SchemaType.element?_eq_none {t : SchemaType} (h : t.isDynamic = false) :
    t.element? = none := by
  obtain ⟨b, rfl⟩ := SchemaType.exists_static h
  rfl

namespace Field

theorem classified_of {t : SchemaType} {f : Field} (hinternal : f.internal = t.name)
    (hdynamic : f.isDynamic = t.isDynamic) (hlength : f.byteLength = t.byteLength)
    (helement : f.element = t.element?.map fun e => TypeSpelling.ofAbi (.static e)) :
    f.Classified t := by
  have hkind : f.isDynamic = true ↔ t ∈ SchemaType.dynamic := by
    rw [hdynamic, SchemaType.mem_dynamic]
  cases t with
  | static b =>
    have hstatic : f.isDynamic = false := hdynamic
    have hnone : f.element = none := helement
    have hbounds : 1 ≤ f.byteLength ∧ f.byteLength ≤ 32 := by
      have hlower := b.one_le_byteLength
      have hupper := b.byteLength_le
      rw [hlength, SchemaType.byteLength]
      omega
    exact ⟨hinternal, hkind, fun _ => hbounds, by simp [hstatic], by simp [hnone], by simp [hnone],
      by simp [hstatic]⟩
  | array b =>
    have hsome : f.element = some (.ofAbi (.static b)) := helement
    have hone : 1 ≤ f.elementLength := by
      rw [elementLength, hsome]
      exact Int.ofNat_le.mpr b.one_le_byteLength
    have hmany : f.isDynamic = true := hdynamic
    exact ⟨hinternal, hkind, by simp [hmany], fun _ => hlength, by simp [hsome],
      by simp [hsome, eq_comm], fun _ => hone⟩
  | bytes | string =>
    have hnone : f.element = none := helement
    have hone : f.elementLength = 1 := by
      rw [elementLength, hnone]
    have hmany : f.isDynamic = true := hdynamic
    exact ⟨hinternal, hkind, by simp [hmany], fun _ => hlength, by simp [hnone], by simp [hnone],
      fun _ => Int.le_of_eq hone.symm⟩

theorem classified_ofNamed (name declared : String) (n : NamedType) : Field.Classified n.base
    { TypeSpelling.ofNamed declared n with
      name, element := n.base.element?.map fun e => TypeSpelling.ofAbi (.static e) } := by
  apply classified_of
  case hinternal => exact TypeSpelling.ofNamed_internal declared n
  case hdynamic => exact TypeSpelling.ofNamed_isDynamic declared n
  case hlength => exact TypeSpelling.ofNamed_byteLength declared n
  case helement => rfl

end Field

/-- The fields of a library are those of the schema of its table, each once and in its class. -/
structure LibraryOptions.Classifies (scope : Scope) (t : Table) (o : LibraryOptions) : Prop where
  keys : List.Forall₂ (fun x k => k.name = x.1 ∧ k.isDynamic = false ∧
    ∃ type, scope.Resolves x.2.declared type ∧ k.Classified type) t.keyFields o.keys
  keyOrder : o.keys.map (·.name) = t.key
  fields : List.Forall₂ (fun x f => f.name = x.1 ∧
    ∃ type, scope.Resolves x.2.declared type ∧ f.Classified type) t.valueFields o.fields
  fieldOrder : o.fields.map (·.name) = (t.schema.map (·.1)).filter (· ∉ t.key)
  statics : o.staticFields.Sublist o.fields
  dynamics : o.dynamicFields.Sublist o.fields
  static : ∀ f ∈ o.staticFields, f.isDynamic = false
  dynamic : ∀ f ∈ o.dynamicFields, f.isDynamic = true
  disjoint : o.staticFields.Disjoint o.dynamicFields
  whole : (o.staticFields ++ o.dynamicFields).Perm o.fields
  distinct : (t.schema.map (·.1)).Nodup
  once : ((o.keys ++ (o.staticFields ++ o.dynamicFields)).map (·.name)).Perm (t.schema.map (·.1))

namespace LibraryOptions.Plans

variable {scope : Scope} {s : Store} {t : Table} {o : LibraryOptions}

theorem classifies (h : Plans scope t o) (ht : t.Resolved s) : o.Classifies scope t := by
  have hkeys := h.keys_names ht.keyFields_names
  have hwhole := h.storedFields_perm
  constructor
  case keys =>
    apply h.keys.imp
    intro x k hh
    obtain ⟨n, hx⟩ := hh
    obtain ⟨hn, hstatic, rfl⟩ := keyField_eq_ok.mp hx
    have hclassified := Field.classified_ofNamed x.1 x.2.declared n
    rw [SchemaType.element?_eq_none hstatic] at hclassified
    exact ⟨rfl, (TypeSpelling.ofNamed_isDynamic _ n).trans hstatic, n.base,
      Scope.resolves_iff.mpr ⟨n, hn, rfl⟩, hclassified⟩
  case keyOrder => exact hkeys
  case fields =>
    apply h.fields.imp
    intro x f hh
    obtain ⟨n, hx⟩ := hh
    obtain ⟨hn, rfl⟩ := valueField_eq_ok.mp hx
    exact ⟨rfl, n.base, Scope.resolves_iff.mpr ⟨n, hn, rfl⟩, Field.classified_ofNamed ..⟩
  case fieldOrder =>
    rw [h.fields_names, Table.valueFields, List.filter_map]
    rfl
  case statics =>
    rw [h.staticFields]
    exact List.filter_sublist
  case dynamics =>
    rw [h.dynamicFields]
    exact List.filter_sublist
  case static =>
    intro f hf
    rw [h.staticFields] at hf
    simpa using List.of_mem_filter hf
  case dynamic =>
    intro f hf
    rw [h.dynamicFields] at hf
    simpa using List.of_mem_filter hf
  case disjoint =>
    rw [h.staticFields, h.dynamicFields]
    intro f hs hd
    have hstatic := List.of_mem_filter hs
    rw [List.of_mem_filter hd] at hstatic
    cases hstatic
  case whole => exact hwhole
  case distinct => exact ht.names
  case once =>
    have hnames := (hwhole.map (·.name)).append_left (o.keys.map (·.name))
    rw [List.map_append]
    refine hnames.trans ?_
    rw [hkeys, ← ht.keyFields_names, h.fields_names, ← List.map_append]
    exact ht.fields_perm.map _

end LibraryOptions.Plans

theorem LibraryOptions.Classifies.recorded {s : Store} {t : Table} {o : LibraryOptions}
    (h : o.Classifies s.scope t) (ht : t.Resolved s) :
    List.Forall₂ (fun x f => f.name = x.1 ∧ f.Classified x.2.type) (t.keyFields ++ t.valueFields)
      (o.keys ++ o.fields) := by
  have hkeys := h.keys.imp fun _ _ hh => And.intro hh.1 hh.2.2
  have hschema : ∀ x ∈ t.keyFields ++ t.valueFields, x ∈ t.schema :=
    fun x hx => ht.fields_perm.subset hx
  have hall := (List.forall₂_and_left _ _).mpr ⟨hschema, List.rel_append hkeys h.fields⟩
  apply hall.imp
  intro x f hh
  obtain ⟨hx, hname, type, htype, hclassified⟩ := hh
  rw [Scope.resolves_unique htype (ht.types x hx)] at hclassified
  exact ⟨hname, hclassified⟩

/-- Every field of a schema is classified once, by the type that is resolved with the given user
types. With those of the store this is the type that the schema records. -/
theorem Store.fields_classified (s : Store) (hs : s.Accepted) :
    (∀ types files, s.libraries types = .ok files →
      List.Forall₂ (fun x file => file.options.Classifies ⟨s.enums, types⟩ x.2) s.tables files) ∧
    ∃ files, s.libraries s.userTypes = .ok files ∧
      List.Forall₂ (fun x file => List.Forall₂ (fun y f => f.name = y.1 ∧
          f.Classified y.2.type) (x.2.keyFields ++ x.2.valueFields)
        (file.options.keys ++ file.options.fields)) s.tables files := by
  constructor
  · intro types files h
    apply ((List.forall₂_and_left _ _).mpr ⟨hs.resolved, libraries_eq_ok h⟩).imp
    intro x file hh
    obtain ⟨hx, hplans⟩ := hh
    exact hplans.classifies hx
  · obtain ⟨files, hfiles, -⟩ := hs.libraries_isOk ""
    refine ⟨files, hfiles, ?_⟩
    apply ((List.forall₂_and_left _ _).mpr ⟨hs.resolved, libraries_eq_ok hfiles⟩).imp
    intro x file hh
    obtain ⟨hx, hplans⟩ := hh
    exact (hplans.classifies hx).recorded hx

theorem fields_classified_forum : forumStore.Accepted ∧ ∃ post reply : LibraryFile,
    forumStore.libraries longReplies = .ok [post, reply] ∧
      post.options.Classifies ⟨[], longReplies⟩ (forumTable "Post" "Note") ∧
      post.options.dynamicFields = [] ∧
      reply.options.Classifies ⟨[], longReplies⟩ (forumTable "Reply" "Memo") ∧
      reply.options.staticFields = [] := by
  have hplanned : (forumStore.libraries longReplies).map (fun files =>
      files.map fun f => (f.options.staticFields.length, f.options.dynamicFields.length)) =
        .ok [(6, 0), (0, 6)] := by decide +kernel
  obtain ⟨files, hfiles, hlengths⟩ := map_eq_ok.mp hplanned
  obtain ⟨post, _, rfl, hpost, hrest⟩ := List.map_eq_cons_iff.mp hlengths
  obtain ⟨reply, _, rfl, hreply, hnil⟩ := List.map_eq_cons_iff.mp hrest
  cases List.map_eq_nil_iff.mp hnil
  have hall := (Store.fields_classified forumStore forumStore_accepted).1 _ _ hfiles
  rcases hall with _ | ⟨hfirst, _ | ⟨hsecond, -⟩⟩
  exact ⟨forumStore_accepted, post, reply, hfiles, hfirst,
    List.eq_nil_of_length_eq_zero (congrArg Prod.snd hpost), hsecond,
    List.eq_nil_of_length_eq_zero (congrArg Prod.fst hreply)⟩

end SolidityTables

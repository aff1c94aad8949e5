import SolidityTables.Proofs.Library.Functions
import Mathlib.Data.List.Flatten

/-!
# Functions of one name

Functions of a library may share their name as long as they take values of different types. Those
that act on a store do so once for each variant, which takes one value more. Apart from that their
names tell them apart, unless two fields are capitalized alike, the name of a field is empty, or a
getter that takes nothing is called like a function that tells the schema.
-/

namespace SolidityTables

open Attempt

def Parameter.valueType (p : Parameter) : String :=
  match p.type.toList.dropSuffix? " memory".toList with
  | some front => String.ofList front
  | none => p.type

example : (⟨"uint8[] memory", "xs"⟩ : Parameter).valueType = "uint8[]" := by decide

/-- What no two functions of a library may have in common: the name and the types of what they
take. -/
def Signature.overload (f : Signature) : String × List String :=
  (f.name, f.params.map (·.valueType))

section Names

variable {fs gs : List Signature} {f g : Signature}

theorem Signature.name_eq_of_overload (h : f.overload = g.overload) : f.name = g.name :=
  congrArg Prod.fst h

theorem Signature.length_eq_of_overload (h : f.overload = g.overload) :
    f.params.length = g.params.length := by
  have htypes := congrArg (fun x => x.2.length) h
  simpa only [overload, List.length_map] using htypes

theorem disjoint_of_names {ns ms : List String} (hf : ∀ f ∈ fs, f.name ∈ ns)
    (hg : ∀ g ∈ gs, g.name ∈ ms) (h : ∀ n ∈ ns, n ∉ ms) :
    (fs.map Signature.overload).Disjoint (gs.map Signature.overload) := by
  intro x hxf hxg
  obtain ⟨f, hfmem, rfl⟩ := List.mem_map.mp hxf
  obtain ⟨g, hgmem, hgf⟩ := List.mem_map.mp hxg
  refine h f.name (hf f hfmem) ?_
  rw [← Signature.name_eq_of_overload hgf]
  exact hg g hgmem

theorem nodup_of_names (h : (fs.map (·.name)).Nodup) : (fs.map Signature.overload).Nodup := by
  apply List.Nodup.of_map Prod.fst
  rw [List.map_map]
  exact h

def fieldVerbs : List String :=
  ["get", "set", "length", "push", "pop"]

def verbs : List String :=
  fieldVerbs ++ ["register", "deleteRecord"]

theorem verbs_eq_of_isPrefix : ∀ v ∈ verbs, ∀ w ∈ verbs, v.toList <+: w.toList → v = w := by decide

theorem verb_append_inj {v w s t : String} (hv : v ∈ verbs) (hw : w ∈ verbs)
    (h : v ++ s = w ++ t) : v = w ∧ s = t := by
  have hchars : v.toList ++ s.toList = w.toList ++ t.toList := by
    rw [← String.toList_append, h, String.toList_append]
  have hverbs : v = w := by
    -- Of two verbs at the beginning of one name the shorter begins the longer.
    rcases List.prefix_or_prefix_of_prefix (List.prefix_append _ s.toList)
      (hchars ▸ List.prefix_append _ t.toList) with hpre | hpre
    · exact verbs_eq_of_isPrefix v hv w hw hpre
    · exact (verbs_eq_of_isPrefix w hw v hv hpre).symm
  subst hverbs
  exact ⟨rfl, (String.append_right_inj v).mp h⟩

end Names

namespace LibraryOptions

variable {o : LibraryOptions}

def family (o : LibraryOptions) (ops : List Signature) : List Signature :=
  o.variants.flatMap fun v => ops.map fun f => ⟨f.name, v ++ f.params⟩

theorem family_names {ops : List Signature} : ∀ g ∈ o.family ops, g.name ∈ ops.map (·.name) := by
  intro g hg
  obtain ⟨v, -, hgv⟩ := List.mem_flatMap.mp hg
  obtain ⟨f, hf, rfl⟩ := List.mem_map.mp hgv
  exact List.mem_map.mpr ⟨f, hf, rfl⟩

theorem sublist_family (o : LibraryOptions) (ops : List Signature) :
    ops.Sublist (o.family ops) := by
  have hfound : (ops.map fun f => (⟨f.name, [] ++ f.params⟩ : Signature)) = ops := List.map_id ops
  rw [family, variants, List.flatMap_cons, hfound]
  exact List.sublist_append_left _ _

theorem family_nodup {ops : List Signature} (h : (ops.map (·.name)).Nodup) :
    ((o.family ops).map Signature.overload).Nodup := by
  have hvariant (v : List Parameter) :
      ((ops.map fun f => (⟨f.name, v ++ f.params⟩ : Signature)).map Signature.overload).Nodup := by
    apply nodup_of_names
    rw [List.map_map]
    exact h
  rw [family, List.map_flatMap, List.nodup_flatMap]
  refine ⟨fun v _ => hvariant v, ?_⟩
  -- Functions of one name in two variants differ in how much they take.
  have hvariants : o.variants.Pairwise fun v w => v.length ≠ w.length := by
    unfold variants
    cases o.storeArgument <;> decide
  refine hvariants.imp fun {v w} hlength x hv hw => ?_
  obtain ⟨_, hfv, rfl⟩ := List.mem_map.mp hv
  obtain ⟨f, hf, rfl⟩ := List.mem_map.mp hfv
  obtain ⟨_, hgw, hgf⟩ := List.mem_map.mp hw
  obtain ⟨g, hg, rfl⟩ := List.mem_map.mp hgw
  have hname : g.name = f.name := congrArg Prod.fst hgf
  have hsame : g = f := List.inj_on_of_nodup_map h hg hf hname
  subst hsame
  have hcount := Signature.length_eq_of_overload hgf
  simp only [List.length_append] at hcount
  omega

def suffix (o : LibraryOptions) (f : Field) : String :=
  if o.suffixless then "" else Uppercase.capitalize f.name

theorem accessName_eq (o : LibraryOptions) (verb : String) (f : Field) :
    o.accessName verb f = verb ++ o.suffix f := by
  unfold accessName suffix
  cases o.suffixless with
  | true => exact (String.append_empty).symm
  | false => rfl

def recordOp (o : LibraryOptions) (name : String) (own : List Parameter) : Signature :=
  o.recordFunction [] name own

theorem recordFunction_common (v : List Parameter) (name : String) (own : List Parameter) :
    o.recordFunction v name own =
      ⟨(o.recordOp name own).name, v ++ (o.recordOp name own).params⟩ := by
  simp only [recordOp, recordFunction, List.nil_append, List.append_assoc]

def fieldOps (o : LibraryOptions) (f : Field) (dynamic : Bool) : List Signature :=
  [o.recordOp (o.accessName "get" f) [], o.recordOp (o.accessName "set" f) [⟨f.located, f.name⟩]] ++
    if dynamic && o.withDynamicFieldMethods then
      [o.recordOp (o.accessName "length" f) [], o.recordOp (o.accessName "push" f) [pushed f],
        o.recordOp (o.accessName "pop" f) []]
    else []

theorem fieldOps_names (f : Field) (dynamic : Bool) : ∃ vs : List String, vs.Sublist fieldVerbs ∧
    (o.fieldOps f dynamic).map (·.name) = vs.map (· ++ o.suffix f) := by
  unfold fieldOps
  simp only [accessName_eq]
  cases dynamic && o.withDynamicFieldMethods with
  | true => exact ⟨["get", "set", "length", "push", "pop"], by decide, rfl⟩
  | false => exact ⟨["get", "set"], by decide, rfl⟩

def sortedFields (o : LibraryOptions) : List (Field × Bool) :=
  o.staticFields.map (·, false) ++ o.dynamicFields.map (·, true)

theorem sortedFields_map_fst : o.sortedFields.map (·.1) = o.storedFields := by
  simp [sortedFields, storedFields, Function.comp_def]

theorem registerFunctions_family : o.registerFunctions = o.family [⟨"register", o.idParameters⟩] :=
  List.map_eq_flatMap

theorem deleteFunctions_family : o.deleteFunctions = o.family [o.recordOp "deleteRecord" []] := by
  simp only [deleteFunctions, recordFunction_common]
  exact List.map_eq_flatMap

def recordOps (o : LibraryOptions) : List Signature :=
  (if o.withGetters then [o.recordOp "get" []] else []) ++ [o.recordOp "set" o.recordData]

theorem recordOps_names : (o.recordOps.map (·.name)).Sublist ["get", "set"] := by
  unfold recordOps
  cases o.withGetters with
  | true => exact List.Sublist.refl _
  | false => exact List.sublist_cons_self _ _

theorem recordFunctions_family : o.recordFunctions = o.family o.recordOps := by
  unfold recordFunctions recordOps family
  simp only [recordFunction_common, List.map_append]
  cases o.withGetters <;> rfl

theorem fieldFunctions_family :
    o.fieldFunctions = o.sortedFields.flatMap fun x => o.family (o.fieldOps x.1 x.2) := by
  have hops (f : Field) (v : List Parameter) (dynamic : Bool) :
      (o.fieldOps f dynamic).map (fun g => (⟨g.name, v ++ g.params⟩ : Signature)) =
        o.accessFunctions f v ++
          if dynamic && o.withDynamicFieldMethods then o.arrayFunctions f v else [] := by
    unfold fieldOps accessFunctions arrayFunctions
    simp only [recordFunction_common v]
    cases dynamic && o.withDynamicFieldMethods <;> rfl
  simp only [sortedFields, List.flatMap_append, List.flatMap_map, family, hops, Bool.false_and,
    Bool.true_and, Bool.false_eq_true, if_false, List.append_nil]
  rfl

theorem functions_families : o.functions = schemaFunctions ++
    o.family [⟨"register", o.idParameters⟩] ++
    (if o.withGetters then
      o.sortedFields.flatMap fun x => o.family (o.fieldOps x.1 x.2) else []) ++
    (if o.withRecordMethods then o.family o.recordOps else []) ++
    o.family [o.recordOp "deleteRecord" []] := by
  rw [functions, registerFunctions_family, deleteFunctions_family, recordFunctions_family,
    fieldFunctions_family]

/-- The names of the functions for single fields tell them apart from all others. -/
structure Distinct (o : LibraryOptions) : Prop where
  suffixes : (o.storedFields.map o.suffix).Nodup
  record : o.withRecordMethods = true → ∀ f ∈ o.storedFields, o.suffix f ≠ ""
  schema : o.idParameters = [] → o.keys = [] → ∀ f ∈ o.storedFields,
    "get" ++ o.suffix f ∉ schemaFunctions.map (·.name)

theorem fieldOps_verb {f : Field} {dynamic : Bool} {g : Signature}
    (hg : g ∈ o.family (o.fieldOps f dynamic)) : ∃ v ∈ fieldVerbs, g.name = v ++ o.suffix f := by
  obtain ⟨vs, hvs, hnames⟩ := o.fieldOps_names f dynamic
  have hname := family_names g hg
  rw [hnames] at hname
  obtain ⟨v, hv, hvname⟩ := List.mem_map.mp hname
  exact ⟨v, hvs.subset hv, hvname.symm⟩

theorem fieldOps_nodup (f : Field) (dynamic : Bool) :
    ((o.family (o.fieldOps f dynamic)).map Signature.overload).Nodup := by
  apply family_nodup
  obtain ⟨vs, hvs, hnames⟩ := o.fieldOps_names f dynamic
  rw [hnames]
  apply (hvs.nodup (by decide)).map
  exact fun v w h => (String.append_left_inj _).mp h

def getter (o : LibraryOptions) (f : Field) : Signature :=
  o.recordOp ("get" ++ o.suffix f) []

theorem getters_sublist :
    (o.storedFields.map o.getter).Sublist
      (o.sortedFields.flatMap fun x => o.family (o.fieldOps x.1 x.2)) := by
  rw [← sortedFields_map_fst, List.map_map, List.map_eq_flatMap]
  apply List.Sublist.flatMap_right
  intro x _
  refine List.Sublist.trans ?_ (o.sublist_family _)
  rw [List.singleton_sublist, Function.comp_apply, getter, ← accessName_eq]
  simp [fieldOps]

theorem critical_sublist (h : o.withGetters = true) :
    (schemaFunctions ++ o.storedFields.map o.getter ++
      if o.withRecordMethods then [o.recordOp "get" []] else []).Sublist o.functions := by
  have hget : [o.recordOp "get" []].Sublist o.recordOps := by
    rw [recordOps, if_pos h]
    exact List.sublist_append_left _ _
  rw [functions_families, if_pos h]
  refine List.Sublist.trans ?_ (List.sublist_append_left _ _)
  refine (List.Sublist.append (List.sublist_append_left _ _) getters_sublist).append ?_
  split
  · exact hget.trans (o.sublist_family _)
  · exact List.Sublist.refl _

theorem distinct_of_nodup (h : (o.functions.map Signature.overload).Nodup)
    (hget : o.withGetters = true) : o.Distinct := by
  have hcritical := h.sublist ((critical_sublist hget).map Signature.overload)
  rw [List.map_append, List.map_append, List.map_map, List.nodup_append', List.nodup_append']
    at hcritical
  obtain ⟨⟨-, hgetters, hschema⟩, -, hrecord⟩ := hcritical
  constructor
  case suffixes =>
    apply List.Nodup.of_map fun s => (o.recordOp ("get" ++ s) []).overload
    rw [List.map_map]
    exact hgetters
  case record =>
    intro hmethods f hf hempty
    rw [if_pos hmethods] at hrecord
    refine hrecord (List.mem_append_right _ (List.mem_map_of_mem hf)) ?_
    rw [List.map_singleton, List.mem_singleton, Function.comp_apply, getter, hempty]
    rfl
  case schema =>
    intro hid hkeys f hf hname
    obtain ⟨g, hg, hgname⟩ := List.mem_map.mp hname
    have hnone : ∀ g ∈ schemaFunctions, g.params = [] := by decide
    have hgetter : o.getter f = g := by
      rw [getter, recordOp, recordFunction, hid, hkeys, ← hgname]
      exact congrArg (Signature.mk g.name) (hnone g hg).symm
    refine hschema (List.mem_map_of_mem hg) ?_
    rw [← hgetter]
    exact List.mem_map_of_mem (f := Signature.overload ∘ o.getter) hf

def fixedFunctions (o : LibraryOptions) : List Signature :=
  (schemaFunctions ++ o.family [⟨"register", o.idParameters⟩]) ++
    ((if o.withRecordMethods then o.family o.recordOps else []) ++
      o.family [o.recordOp "deleteRecord" []])

theorem functions_perm : o.functions.Perm
    ((if o.withGetters then o.sortedFields.flatMap fun x => o.family (o.fieldOps x.1 x.2)
      else []) ++ o.fixedFunctions) := by
  rw [functions_families, List.append_assoc, List.append_assoc]
  exact List.perm_append_comm_assoc _ _ _

theorem recordFunctions_names :
    ∀ g ∈ (if o.withRecordMethods then o.family o.recordOps else []), g.name ∈ ["get", "set"] := by
  intro g hg
  split at hg
  · exact recordOps_names.subset (family_names g hg)
  · cases hg

theorem fixedFunctions_nodup : (o.fixedFunctions.map Signature.overload).Nodup := by
  have hschema : ∀ g ∈ schemaFunctions, g.name ∈ schemaFunctions.map (·.name) :=
    fun g hg => List.mem_map_of_mem hg
  have hrecord : ((if o.withRecordMethods then o.family o.recordOps else []).map
      Signature.overload).Nodup := by
    split
    · exact family_nodup (recordOps_names.nodup (by decide))
    · exact List.nodup_nil
  have hregister : ∀ g ∈ o.family [⟨"register", o.idParameters⟩], g.name ∈ ["register"] :=
    family_names
  have hdelete : ∀ g ∈ o.family [o.recordOp "deleteRecord" []], g.name ∈ ["deleteRecord"] :=
    family_names
  simp only [fixedFunctions, List.map_append, List.nodup_append', List.disjoint_append_left,
    List.disjoint_append_right]
  refine ⟨⟨by decide, family_nodup (List.nodup_singleton _), ?_⟩,
    ⟨hrecord, family_nodup (List.nodup_singleton _), ?_⟩, ⟨?_, ?_⟩, ?_, ?_⟩
  · exact disjoint_of_names hschema hregister (by decide)
  · exact disjoint_of_names recordFunctions_names hdelete (by decide)
  · exact disjoint_of_names hschema recordFunctions_names (by decide)
  · exact disjoint_of_names hregister recordFunctions_names (by decide)
  · exact disjoint_of_names hschema hdelete (by decide)
  · exact disjoint_of_names hregister hdelete (by decide)

theorem fieldOps_params {f : Field} {dynamic : Bool} {g : Signature}
    (hg : g ∈ o.family (o.fieldOps f dynamic)) (hnone : g.params = []) :
    o.idParameters = [] ∧ o.keys = [] := by
  obtain ⟨v, -, hgv⟩ := List.mem_flatMap.mp hg
  obtain ⟨op, hop, rfl⟩ := List.mem_map.mp hgv
  have hrecord : ∃ name own, op = o.recordOp name own := by
    simp only [fieldOps, List.mem_append, List.mem_cons, List.not_mem_nil, or_false,
      List.mem_ite_nil_right] at hop
    rcases hop with (rfl | rfl) | ⟨-, rfl | rfl | rfl⟩ <;> exact ⟨_, _, rfl⟩
  obtain ⟨name, own, rfl⟩ := hrecord
  simp only [recordOp, recordFunction, List.append_eq_nil_iff, List.map_eq_nil_iff] at hnone
  obtain ⟨-, ⟨⟨-, hid⟩, hkeys⟩, -⟩ := hnone
  exact ⟨hid, hkeys⟩

namespace Distinct

variable {f : Field} {dynamic : Bool} {g r : Signature}

theorem schema_ne (h : o.Distinct) (hf : f ∈ o.storedFields)
    (hg : g ∈ o.family (o.fieldOps f dynamic)) (hr : r ∈ schemaFunctions) :
    g.overload ≠ r.overload := by
  have hnone : ∀ r ∈ schemaFunctions, r.params = [] := by decide
  have hgets : ∀ r ∈ schemaFunctions, ∀ v ∈ fieldVerbs, v.toList <+: r.name.toList → v = "get" := by
    decide
  -- A function like `r` takes nothing, so the name alone has to tell the two apart.
  intro hsame
  have hlength := Signature.length_eq_of_overload hsame
  rw [hnone r hr, List.length_nil, List.length_eq_zero_iff] at hlength
  obtain ⟨hid, hkeys⟩ := fieldOps_params hg hlength
  obtain ⟨v, hv, hname⟩ := fieldOps_verb hg
  rw [Signature.name_eq_of_overload hsame] at hname
  have hget : v = "get" := by
    apply hgets r hr v hv
    rw [hname, String.toList_append]
    exact List.prefix_append _ _
  subst hget
  exact h.schema hid hkeys f hf (hname ▸ List.mem_map_of_mem hr)

theorem record_ne (h : o.Distinct) (hmethods : o.withRecordMethods = true)
    (hf : f ∈ o.storedFields) (hg : g ∈ o.family (o.fieldOps f dynamic))
    (hr : r.name ∈ ["get", "set"]) : g.overload ≠ r.overload := by
  intro hsame
  obtain ⟨v, hv, hname⟩ := fieldOps_verb hg
  have hverb : ∀ w ∈ ["get", "set"], w ∈ verbs := by decide
  rw [Signature.name_eq_of_overload hsame, ← String.append_empty (s := r.name)] at hname
  have hempty := (verb_append_inj (hverb _ hr) (List.mem_append_left _ hv) hname).2
  exact h.record hmethods f hf hempty.symm

end Distinct

theorem fieldOps_ne {f : Field} {dynamic : Bool} {g r : Signature}
    (hg : g ∈ o.family (o.fieldOps f dynamic)) (hr : r.name ∈ ["register", "deleteRecord"]) :
    g.overload ≠ r.overload := by
  intro hsame
  obtain ⟨v, hv, hname⟩ := fieldOps_verb hg
  have hother : ∀ w ∈ ["register", "deleteRecord"], w ∉ fieldVerbs := by decide
  rw [Signature.name_eq_of_overload hsame, ← String.append_empty (s := r.name)] at hname
  have hverb := (verb_append_inj (List.mem_append_right _ hr) (List.mem_append_left _ hv) hname).1
  rw [← hverb] at hv
  exact hother _ hr hv

theorem Distinct.fixed_ne (h : o.Distinct) {f : Field} {dynamic : Bool} {g r : Signature}
    (hf : f ∈ o.storedFields) (hg : g ∈ o.family (o.fieldOps f dynamic))
    (hr : r ∈ o.fixedFunctions) : g.overload ≠ r.overload := by
  rw [fixedFunctions, List.mem_append, List.mem_append, List.mem_append] at hr
  rcases hr with (hr | hr) | hr | hr
  · exact h.schema_ne hf hg hr
  · have hname : r.name ∈ ["register"] := family_names r hr
    exact fieldOps_ne hg (List.mem_cons.mpr (.inl (List.mem_singleton.mp hname)))
  · have hname := recordFunctions_names r hr
    have hmethods : o.withRecordMethods = true := by
      by_contra hnot
      rw [if_neg hnot] at hr
      cases hr
    exact h.record_ne hmethods hf hg hname
  · have hname : r.name ∈ ["deleteRecord"] := family_names r hr
    exact fieldOps_ne hg (List.mem_cons_of_mem _ hname)

theorem Distinct.fields_nodup (h : o.Distinct) :
    ((o.sortedFields.flatMap fun x => o.family (o.fieldOps x.1 x.2)).map
      Signature.overload).Nodup := by
  rw [List.map_flatMap, List.nodup_flatMap]
  refine ⟨fun x _ => fieldOps_nodup x.1 x.2, ?_⟩
  have hsuffixes := h.suffixes
  rw [← sortedFields_map_fst, List.map_map, List.Nodup, List.pairwise_map] at hsuffixes
  refine hsuffixes.imp fun {x y} hne z hx hy => ?_
  obtain ⟨g, hg, rfl⟩ := List.mem_map.mp hx
  obtain ⟨r, hr, hsame⟩ := List.mem_map.mp hy
  obtain ⟨v, hv, hgname⟩ := fieldOps_verb hg
  obtain ⟨w, hw, hrname⟩ := fieldOps_verb hr
  rw [← Signature.name_eq_of_overload hsame, hrname] at hgname
  have hinj := verb_append_inj (List.mem_append_left _ hw) (List.mem_append_left _ hv) hgname
  exact hne hinj.2.symm

/-- No two functions of a library are alike just if the names of the functions for single fields, if
there are any, tell them apart from all others. -/
theorem overloads_nodup_iff :
    (o.functions.map Signature.overload).Nodup ↔ (o.withGetters = true → o.Distinct) := by
  constructor
  · exact distinct_of_nodup
  · intro h
    rw [(functions_perm.map Signature.overload).nodup_iff, List.map_append, List.nodup_append']
    by_cases hget : o.withGetters = true
    · have hdistinct := h hget
      rw [if_pos hget]
      refine ⟨hdistinct.fields_nodup, fixedFunctions_nodup, fun z hz hfixed => ?_⟩
      obtain ⟨g, hg, rfl⟩ := List.mem_map.mp hz
      obtain ⟨r, hr, hsame⟩ := List.mem_map.mp hfixed
      obtain ⟨x, hx, hgx⟩ := List.mem_flatMap.mp hg
      have hf : x.1 ∈ o.storedFields := by
        rw [← sortedFields_map_fst]
        exact List.mem_map_of_mem hx
      exact hdistinct.fixed_ne hf hgx hr hsame.symm
    · rw [if_neg hget]
      exact ⟨List.nodup_nil, fixedFunctions_nodup, List.disjoint_nil_left _⟩

end LibraryOptions

end SolidityTables

import Mathlib.Algebra.Ring.Int.Defs
import SolidityTables.Proofs.Library.Expression
import SolidityTables.Proofs.Library.Line
import SolidityTables.Proofs.Library.Planning
import SolidityTables.Proofs.Library.Source

/-!
# The order of fields in a library

Every part of a library goes by one order of the fields, the static ones before the dynamic ones,
and by the order of the key: the field layout, the schemas and names, the indices that accessors
pass on, the packing of records, the parameters and the words of the key.
-/

namespace SolidityTables

open Attempt

structure MethodSections where
  fieldLayout : Method
  keySchema : Method
  valueSchema : Method
  keyNames : Method
  fieldNames : Method
  registers : List Method
  accessors : List Method
  records : List Method
  deletions : List Method

def MethodSections.all (p : MethodSections) : List Method :=
  [p.fieldLayout, p.keySchema, p.valueSchema, p.keyNames, p.fieldNames] ++ p.registers ++
    p.accessors ++ p.records ++ p.deletions

def keyTuple? (lines : List String) : Option (Nat × List (Nat × String)) :=
  Line.array? "bytes32[] memory _keyTuple = new bytes32" "_keyTuple" lines

/-- The lines that pack the values of a record, by what is put into them. -/
def packingLines (statics lengths dynamics : List String) : List String :=
  ["    bytes memory _staticData = abi.encodePacked(" ++ String.intercalate ", " statics ++ ");"] ++
    if dynamics = [] then
      ["    EncodedLengths _encodedLengths;", "    bytes memory _dynamicData;"]
    else [
      "    EncodedLengths _encodedLengths = EncodedLengthsLib.pack(" ++
        String.intercalate ", " lengths ++ ");",
      "    bytes memory _dynamicData = abi.encodePacked(" ++
        String.intercalate ", " dynamics ++ ");"]

namespace Field

def stored (f : Field) (e : String) : String :=
  if f.unwrap = "" then e else calls [f.unwrap] e

/-- The length in bytes of a stored value of a dynamic field: an array has as many times the bytes
of an element as it has elements. -/
def storedLength (f : Field) (e : String) : String :=
  match f.element with
  | none => calls ["bytes"] (f.stored e) ++ ".length"
  | some t => f.stored e ++ ".length * " ++ toString t.byteLength

def storedBytes (f : Field) (e : String) : String :=
  if f.internal = "string" ∨ f.internal = "bytes" then calls ["bytes", ""] (f.stored e)
  else calls ["EncodeArray.encode", ""] (f.stored e)

variable {f : Field} {e : String}

theorem unwrapped_eq : f.unwrapped e = f.stored e := by
  unfold TypeSpelling.unwrapped stored
  split <;> rfl

theorem byteSize_eq : f.byteSize e = f.storedLength e := by
  unfold byteSize storedLength
  cases f.element <;> rfl

theorem encoded_of_dynamic (h : f.isDynamic = true) : f.encoded e = f.storedBytes e := by
  rw [TypeSpelling.encoded, h, Bool.not_true, if_neg Bool.false_ne_true]
  simp only [TypeSpelling.isRun, Bool.or_eq_true, decide_eq_true_eq]
  rfl

end Field

namespace LibraryOptions

/-- What the functions of each variant take first: nothing, or the store on which they act. -/
def variants (o : LibraryOptions) : List (List Parameter) :=
  [] :: if o.storeArgument then [[⟨"IStore", "_store"⟩]] else []

def idParameters (o : LibraryOptions) : List Parameter :=
  match o.tableId with
  | none => [⟨"ResourceId", "_tableId"⟩]
  | some _ => []

def accessorCalls (o : LibraryOptions) (verbs : List (String × String)) (fields : List Field) :
    List (String × Option (String × Nat)) :=
  fields.zipIdx.flatMap fun (f, i) => o.variants.flatMap fun _ => verbs.map fun (verb, function) =>
    (if o.suffixless then verb else verb ++ Uppercase.capitalize f.name, some (function, i))

def staticVerbs : List (String × String) :=
  [("get", "getStaticField"), ("set", "setStaticField")]

def dynamicVerbs (o : LibraryOptions) : List (String × String) :=
  [("get", "getDynamicField"), ("set", "setDynamicField")] ++
    if o.withDynamicFieldMethods then
      [("length", "getDynamicFieldLength"), ("push", "pushToDynamicField"),
        ("pop", "popFromDynamicField")]
    else []

def given (o : LibraryOptions) (f : Field) : String :=
  match o.struct with
  | some name => if name = "" then f.name else "_table." ++ f.name
  | none => f.name

variable {o : LibraryOptions} {words : List String}

theorem variants_eq : o.variants = o.stores.map (·.params) := by
  unfold variants stores
  cases o.storeArgument <;> rfl

theorem variants_flatMap {α : Type} (g : List Parameter → List α) :
    o.variants.flatMap g = o.stores.flatMap fun s => g s.params := by
  rw [variants_eq, List.flatMap_map]

theorem variants_map {α : Type} (g : List Parameter → α) :
    o.variants.map g = o.stores.map fun s => g s.params := by
  rw [variants_eq, List.map_map]
  rfl

theorem idParameters_eq : o.idParameters = o.idParams := by
  unfold idParameters idParams
  cases o.tableId <;> rfl

theorem accessorCalls_eq (verbs : List (String × String)) (fields : List Field) :
    o.accessorCalls verbs fields = fields.zipIdx.flatMap fun (f, i) => o.stores.flatMap fun _ =>
      verbs.map fun (verb, function) => (o.accessor verb f, some (function, i)) := by
  simp only [accessorCalls, variants_flatMap]
  rfl

theorem recordValue_eq (f : Field) : o.recordValue f = o.given f := by
  unfold recordValue given structName
  cases o.struct with
  | none => rfl
  | some name =>
    by_cases hname : name = ""
    · rw [Option.filter_some, if_neg (by simpa using hname)]
      exact (if_pos hname).symm
    · rw [Option.filter_some, if_pos (by simpa using hname)]
      exact (if_neg hname).symm

end LibraryOptions

/-- The parts of a library go by the fields in their order, and by the key. -/
structure FollowsOrder (key : List String) (o : LibraryOptions) (words : List String)
    (layout : String) (p : MethodSections) : Prop where
  layout : FieldLayout.decode layout = some ⟨(o.staticFields.map (·.byteLength)).sum,
    o.staticFields.length, o.dynamicFields.length, o.staticFields.map (·.byteLength)⟩
  valueSchema : p.valueSchema.name = "getValueSchema" ∧
    Line.array? "SchemaType[] memory _valueSchema = new SchemaType" "_valueSchema"
        p.valueSchema.body =
      some (o.staticFields.length + o.dynamicFields.length, Line.numbered
        ((o.staticFields ++ o.dynamicFields).map fun f => "SchemaType." ++ f.member))
  fieldNames : p.fieldNames.name = "getFieldNames" ∧
    Line.array? "fieldNames = new string" "fieldNames" p.fieldNames.body =
      some (o.staticFields.length + o.dynamicFields.length, Line.numbered
        ((o.staticFields ++ o.dynamicFields).map fun f => "\"" ++ f.name ++ "\""))
  accessors : p.accessors.map (fun m => (m.name, m.body[key.length + 2]?.bind Line.storeCall?)) =
    if o.withGetters then
      o.accessorCalls LibraryOptions.staticVerbs o.staticFields ++
        o.accessorCalls o.dynamicVerbs o.dynamicFields
    else []
  records : p.records.map (·.name) = if o.withRecordMethods then
      o.variants.flatMap fun _ => (if o.withGetters then ["get"] else []) ++ ["set"]
    else []
  packing : ∀ m ∈ p.records, m.name = "set" → m.body.take 3 = packingLines
    (o.staticFields.map fun f => f.stored (o.given f))
    (o.dynamicFields.map fun f => f.storedLength (o.given f))
    (o.dynamicFields.map fun f => f.storedBytes (o.given f))
  storing : ∀ m ∈ p.records, m.name = "set" → ∃ store ∈ ["StoreSwitch", "_store"],
    m.body.getLast? = some ("    " ++ store ++
      ".setRecord(_tableId, _keyTuple, _staticData, _encodedLengths, _dynamicData);")
  deletions : p.deletions.map (·.name) = o.variants.map fun _ => "deleteRecord"
  keys : o.keys.map (·.name) = key
  keyWords : List.Forall₂ (fun k word => ∃ t : StaticType, k.internal = t.name ∧
    word = t.word (k.stored k.name)) o.keys words
  keySchema : p.keySchema.name = "getKeySchema" ∧
    Line.array? "SchemaType[] memory _keySchema = new SchemaType" "_keySchema" p.keySchema.body =
      some (key.length, Line.numbered (o.keys.map fun k => "SchemaType." ++ k.member))
  keyNames : p.keyNames.name = "getKeyNames" ∧
    Line.array? "keyNames = new string" "keyNames" p.keyNames.body =
      some (key.length, Line.numbered (key.map fun k => "\"" ++ k ++ "\""))
  keyTuple : ∀ m ∈ p.accessors ++ p.deletions,
    keyTuple? m.body = some (key.length, Line.numbered words)
  recordKeyTuple : ∀ m ∈ p.records, m.name = "set" →
    keyTuple? (m.body.drop 4) = some (key.length, Line.numbered words)
  params : ∀ m ∈ p.accessors ++ p.records ++ p.deletions, ∃ v ∈ o.variants, ∃ own,
    m.params = v ++ o.idParameters ++ o.keys.map (fun k => ⟨k.located, k.name⟩) ++ own

section Lines

variable {words : List String}

theorem keyTuple?_keyLines (rest : List String) :
    keyTuple? (keyLines words ++ rest) = some (words.length, Line.numbered words) := by
  have hlines : keyLines words ++ rest =
      ("    " ++ "bytes32[] memory _keyTuple = new bytes32" ++ "[](" ++ toString words.length ++
        ");") :: (elementLines "_keyTuple" words ++ "" :: rest) := by
    simp [keyLines]
  rw [keyTuple?, hlines]
  apply Line.array?_lines
  intro line hline
  cases hline
  rfl

theorem keyLines_line (line : String) (rest : List String) :
    (keyLines words ++ line :: rest)[words.length + 2]? = some line := by
  have hlength : (keyLines words).length = words.length + 2 := by
    simp [keyLines, elementLines]
  rw [← hlength, List.getElem?_append_right (Nat.le_refl _), Nat.sub_self]
  rfl

theorem keyLines_call {lead function : String} (s : StoreChoice) (i : Nat)
    (arguments : List String) (tail : String) (rest : List String) (hlead : '(' ∉ lead.toList)
    (hfunction : '(' ∉ function.toList) (hdot : '.' ∉ function.toList) :
    (keyLines words ++ (lead ++ LibraryOptions.onRecord s function (toString i :: arguments) ++
      tail) :: rest)[words.length + 2]?.bind Line.storeCall? = some (function, i) := by
  rw [keyLines_line, Option.bind_some, Line.storeCall?_onRecord s i arguments tail hlead hfunction
    hdot]

end Lines

namespace LibraryOptions

variable {o : LibraryOptions} {words : List String}

/-- A method acts on the record of a key: so say its parameters, and its lines from a place on. -/
structure ActsOnRecord (o : LibraryOptions) (words : List String) (place : Nat) (m : Method) :
    Prop where
  params : ∃ s ∈ o.stores, ∃ own, m.params = o.recordParams s ++ own
  body : ∃ rest, m.body.drop place = keyLines words ++ rest

theorem ActsOnRecord.keyTuple {place : Nat} {m : Method} (h : o.ActsOnRecord words place m) :
    keyTuple? (m.body.drop place) = some (words.length, Line.numbered words) := by
  obtain ⟨rest, hbody⟩ := h.body
  rw [hbody, keyTuple?_keyLines]

theorem staticMethods_calls (s : StoreChoice) (f : Field) (i : Nat) :
    (o.staticMethods words s f i).map (fun m =>
        (m.name, m.body[words.length + 2]?.bind Line.storeCall?)) =
      staticVerbs.map fun (verb, function) => (o.accessor verb f, some (function, i)) := by
  simp only [staticMethods, staticVerbs, List.map_cons, List.map_nil, getField, setField]
  rw [keyLines_call s i _ _ _ (by decide) (by decide) (by decide),
    keyLines_call s i _ _ _ (by decide) (by decide) (by decide)]

theorem lengthMethod_call (s : StoreChoice) (f : Field) (i : Nat) :
    (o.lengthMethod words s f i).body[words.length + 2]?.bind Line.storeCall? =
      some ("getDynamicFieldLength", i) :=
  keyLines_call s i _ _ _ (by decide) (by decide) (by decide)

theorem pushMethod_call (s : StoreChoice) (f : Field) (i : Nat) :
    (o.pushMethod words s f i).body[words.length + 2]?.bind Line.storeCall? =
      some ("pushToDynamicField", i) := by
  unfold pushMethod
  cases f.element with
  | none => exact keyLines_call s i _ _ _ (by decide) (by decide) (by decide)
  | some t => exact keyLines_call s i _ _ _ (by decide) (by decide) (by decide)

theorem popMethod_call (s : StoreChoice) (f : Field) (i : Nat) :
    (o.popMethod words s f i).body[words.length + 2]?.bind Line.storeCall? =
      some ("popFromDynamicField", i) :=
  keyLines_call s i _ _ _ (by decide) (by decide) (by decide)

theorem dynamicMethods_calls (s : StoreChoice) (f : Field) (i : Nat) :
    (o.dynamicMethods words s f i).map (fun m =>
        (m.name, m.body[words.length + 2]?.bind Line.storeCall?)) =
      o.dynamicVerbs.map fun (verb, function) => (o.accessor verb f, some (function, i)) := by
  simp only [dynamicMethods, dynamicVerbs, List.map_append, List.map_cons, List.map_nil, getField,
    setField]
  rw [keyLines_call s i _ _ _ (by decide) (by decide) (by decide),
    keyLines_call s i _ _ _ (by decide) (by decide) (by decide)]
  cases o.withDynamicFieldMethods with
  | true =>
    simp only [if_true, List.map_cons, List.map_nil, lengthMethod_call, pushMethod_call,
      popMethod_call]
    rfl
  | false => rfl

theorem fieldMethods_calls : (o.fieldMethods words).map (fun m =>
      (m.name, m.body[words.length + 2]?.bind Line.storeCall?)) =
    o.accessorCalls staticVerbs o.staticFields ++
      o.accessorCalls o.dynamicVerbs o.dynamicFields := by
  simp only [fieldMethods, accessorCalls_eq, List.map_append, List.map_flatMap, staticMethods_calls,
    dynamicMethods_calls]

def accessors (o : LibraryOptions) (words : List String) : List Method :=
  if o.withGetters then o.fieldMethods words else []

def records (o : LibraryOptions) (words : List String) : List Method :=
  if o.withRecordMethods then o.stores.flatMap (o.recordMethods words) else []

theorem accessors_calls : (o.accessors words).map (fun m =>
      (m.name, m.body[words.length + 2]?.bind Line.storeCall?)) =
    if o.withGetters then
      o.accessorCalls staticVerbs o.staticFields ++ o.accessorCalls o.dynamicVerbs o.dynamicFields
    else [] := by
  unfold accessors
  cases o.withGetters with
  | true => exact fieldMethods_calls
  | false => rfl

theorem getField_acts {s : StoreChoice} (hs : s ∈ o.stores) (f : Field) (read : List String) :
    o.ActsOnRecord words 0 (o.getField words s f read) :=
  ⟨⟨s, hs, [], (List.append_nil _).symm⟩, ⟨read, rfl⟩⟩

theorem setField_acts {s : StoreChoice} (hs : s ∈ o.stores) (f : Field) (write : String) :
    o.ActsOnRecord words 0 (o.setField words s f write) :=
  ⟨⟨s, hs, [f.param], rfl⟩, ⟨[write], rfl⟩⟩

theorem pushMethod_acts {s : StoreChoice} (hs : s ∈ o.stores) (f : Field) (i : Nat) :
    o.ActsOnRecord words 0 (o.pushMethod words s f i) := by
  unfold pushMethod
  cases f.element with
  | none => exact ⟨⟨s, hs, _, rfl⟩, ⟨_, rfl⟩⟩
  | some t => exact ⟨⟨s, hs, _, rfl⟩, ⟨_, rfl⟩⟩

theorem fieldMethods_act : ∀ m ∈ o.fieldMethods words, o.ActsOnRecord words 0 m := by
  intro m hm
  simp only [fieldMethods, List.mem_append, List.mem_flatMap] at hm
  rcases hm with ⟨⟨f, i⟩, -, s, hs, hm⟩ | ⟨⟨f, i⟩, -, s, hs, hm⟩
  · simp only [staticMethods, List.mem_cons, List.not_mem_nil, or_false] at hm
    rcases hm with rfl | rfl
    · exact getField_acts hs f _
    · exact setField_acts hs f _
  · simp only [dynamicMethods, List.mem_append, List.mem_cons, List.not_mem_nil, or_false] at hm
    rcases hm with (rfl | rfl) | hm
    · exact getField_acts hs f _
    · exact setField_acts hs f _
    · split at hm
      · simp only [List.mem_cons, List.not_mem_nil, or_false] at hm
        rcases hm with rfl | rfl | rfl
        · exact ⟨⟨s, hs, [], (List.append_nil _).symm⟩, ⟨_, rfl⟩⟩
        · exact pushMethod_acts hs f i
        · exact ⟨⟨s, hs, [], (List.append_nil _).symm⟩, ⟨_, rfl⟩⟩
      · cases hm

theorem accessors_act : ∀ m ∈ o.accessors words, o.ActsOnRecord words 0 m := by
  unfold accessors
  split
  · exact fieldMethods_act
  · simp

theorem deletions_act : ∀ m ∈ o.stores.map (o.deleteRecord words), o.ActsOnRecord words 0 m := by
  intro m hm
  obtain ⟨s, hs, rfl⟩ := List.mem_map.mp hm
  exact ⟨⟨s, hs, [], (List.append_nil _).symm⟩, ⟨_, rfl⟩⟩

def packing (o : LibraryOptions) : List String :=
  packingLines (o.staticFields.map fun f => f.stored (o.given f))
    (o.dynamicFields.map fun f => f.storedLength (o.given f))
    (o.dynamicFields.map fun f => f.encoded (o.given f))

theorem packingLines_length (statics lengths dynamics : List String) :
    (packingLines statics lengths dynamics).length = 3 := by
  unfold packingLines
  split <;> rfl

theorem setRecord_body (s : StoreChoice) : (o.setRecord words s).body =
    o.packing ++ "" :: (keyLines words ++
      ["    " ++ onRecord s "setRecord" ["_staticData", "_encodedLengths", "_dynamicData"] ++
        ";"]) := by
  have hempty : o.dynamicFields.map (fun f => f.encoded (o.given f)) = [] ↔
      o.dynamicFields = [] := List.map_eq_nil_iff
  simp only [setRecord, packing, packingLines, hempty, dynamicDataLines, recordValue_eq,
    Field.byteSize_eq, Field.unwrapped_eq, List.append_assoc, List.cons_append, List.nil_append]

theorem setRecord_packing (s : StoreChoice) : (o.setRecord words s).body.take 3 = o.packing := by
  have hlength : o.packing.length = 3 := packingLines_length _ _ _
  rw [setRecord_body, ← hlength, List.take_left]

theorem setRecord_acts {s : StoreChoice} (hs : s ∈ o.stores) :
    o.ActsOnRecord words 4 (o.setRecord words s) := by
  have hfront : (o.packing ++ [""]).length = 4 := by
    rw [List.length_append, packing, packingLines_length]
    rfl
  have hdrop : (o.setRecord words s).body.drop 4 = keyLines words ++
      ["    " ++ onRecord s "setRecord" ["_staticData", "_encodedLengths", "_dynamicData"] ++
        ";"] := by
    rw [setRecord_body, List.append_cons, ← hfront, List.drop_left]
  exact ⟨⟨s, hs, _, rfl⟩, _, hdrop⟩

theorem setRecord_storing (s : StoreChoice) : (o.setRecord words s).body.getLast? =
    some ("    " ++ s.expression ++
      ".setRecord(_tableId, _keyTuple, _staticData, _encodedLengths, _dynamicData);") := by
  have hcall : "    " ++
      onRecord s "setRecord" ["_staticData", "_encodedLengths", "_dynamicData"] ++ ";" =
        "    " ++ s.expression ++
        ".setRecord(_tableId, _keyTuple, _staticData, _encodedLengths, _dynamicData);" := by
    cases s <;> rfl
  rw [setRecord_body, ← List.cons_append, ← List.append_assoc, List.getLast?_concat, hcall]

theorem mem_records {m : Method} (hm : m ∈ o.records words) :
    ∃ s ∈ o.stores, m = o.getRecord s ∨ m = o.setRecord words s := by
  unfold records at hm
  split at hm
  · obtain ⟨s, hs, hm⟩ := List.mem_flatMap.mp hm
    refine ⟨s, hs, ?_⟩
    rcases List.mem_append.mp hm with hm | hm
    · split at hm
      · exact .inl (List.mem_singleton.mp hm)
      · cases hm
    · exact .inr (List.mem_singleton.mp hm)
  · cases hm

theorem records_params : ∀ m ∈ o.records words, ∃ s ∈ o.stores, ∃ own,
    m.params = o.recordParams s ++ own := by
  intro m hm
  obtain ⟨s, hs, hm⟩ := mem_records hm
  rcases hm with rfl | rfl
  · exact ⟨s, hs, [], (List.append_nil _).symm⟩
  · exact ⟨s, hs, _, rfl⟩

theorem exists_variant {m : Method}
    (h : ∃ s ∈ o.stores, ∃ own, m.params = o.recordParams s ++ own) :
    ∃ v ∈ o.variants, ∃ own,
      m.params = v ++ o.idParameters ++ o.keys.map (fun k => ⟨k.located, k.name⟩) ++ own := by
  obtain ⟨s, hs, own, hown⟩ := h
  refine ⟨s.params, ?_, own, ?_⟩
  · rw [variants_eq]
    exact List.mem_map_of_mem hs
  · rw [hown, idParameters_eq]
    rfl

theorem records_set {m : Method} (hm : m ∈ o.records words) (hname : m.name = "set") :
    ∃ s ∈ o.stores, m = o.setRecord words s := by
  obtain ⟨s, hs, hm⟩ := mem_records hm
  rcases hm with rfl | rfl
  · have hget : (o.getRecord s).name = "get" := rfl
    rw [hget] at hname
    exact absurd hname (by decide)
  · exact ⟨s, hs, rfl⟩

theorem records_names : (o.records words).map (·.name) = if o.withRecordMethods then
      o.variants.flatMap fun _ => (if o.withGetters then ["get"] else []) ++ ["set"]
    else [] := by
  have hnames (s : StoreChoice) : (o.recordMethods words s).map (·.name) =
      (if o.withGetters then ["get"] else []) ++ ["set"] := by
    unfold recordMethods
    cases o.withGetters <;> rfl
  unfold records
  cases o.withRecordMethods with
  | true => simp only [if_true, variants_flatMap, List.map_flatMap, hnames]
  | false => rfl

theorem keyWords_eq_ok (h : o.keyWords = .ok words) :
    List.Forall₂ (fun k word => k.keyWord? k.name = some word) o.keys words := by
  apply (mapM_eq_ok.mp h).imp
  intro k word hword
  cases hk : k.keyWord? k.name with
  | none =>
    rw [hk] at hword
    cases hword
  | some w =>
    rw [hk] at hword
    exact congrArg some (Except.ok.inj hword)

namespace Plans

variable {scope : Scope} {t : Table}

theorem keys_names (h : Plans scope t o) (hkeys : t.keyFields.map (·.1) = t.key) :
    o.keys.map (·.name) = t.key := by
  rw [← hkeys, map_eq_map_iff]
  apply h.keys.flip.imp
  intro k x hh
  obtain ⟨n, hx⟩ := hh
  rw [(keyField_eq_ok.mp hx).2.2]

theorem storedFields_length (h : Plans scope t o) :
    o.fields.length = o.staticFields.length + o.dynamicFields.length := by
  rw [h.fields_length, h.fields.length_eq]

theorem keyWords_converted (h : Plans scope t o)
    (hwords : List.Forall₂ (fun k word => k.keyWord? k.name = some word) o.keys words) :
    List.Forall₂ (fun k word => ∃ t : StaticType, k.internal = t.name ∧
      word = t.word (k.stored k.name)) o.keys words := by
  have hstatic : ∀ k ∈ o.keys, ∃ t : StaticType, k.internal = t.name :=
    fun k hk => h.exists_static hk
  apply ((List.forall₂_and_left _ _).mpr ⟨hstatic, hwords⟩).imp
  intro k word hh
  obtain ⟨⟨t, ht⟩, hword⟩ := hh
  rw [TypeSpelling.keyWord?_eq ht] at hword
  exact ⟨t, ht, (Option.some.inj hword).symm⟩

theorem packing_eq (h : Plans scope t o) : o.packing =
    packingLines (o.staticFields.map fun f => f.stored (o.given f))
      (o.dynamicFields.map fun f => f.storedLength (o.given f))
      (o.dynamicFields.map fun f => f.storedBytes (o.given f)) := by
  have hbytes : o.dynamicFields.map (fun f => f.encoded (o.given f)) =
      o.dynamicFields.map fun f => f.storedBytes (o.given f) := by
    refine List.map_congr_left fun f hf => Field.encoded_of_dynamic ?_
    rw [h.dynamicFields] at hf
    exact (List.mem_filter.mp hf).2
  rw [packing, hbytes]

theorem followsOrder (h : Plans scope t o) (hkeys : t.keyFields.map (·.1) = t.key) {cwd : String}
    {source : LibrarySource} (hsource : o.source cwd = .ok source) :
    ∃ words p, source.methods = MethodSections.all p ∧
      FollowsOrder t.key o words source.fieldLayout p := by
  obtain ⟨hlayout, words, hwords, hmethods⟩ := source_eq_ok hsource
  have hnames := h.keys_names hkeys
  have hforall := keyWords_eq_ok hwords
  have hkeysLength : o.keys.length = t.key.length := by
    rw [← hnames, List.length_map]
  -- Unification finds the five methods that tell the schema; the other sections are named.
  refine ⟨words, ⟨_, _, _, _, _, o.stores.map o.register, o.accessors words, o.records words,
    o.stores.map (o.deleteRecord words)⟩, hmethods.trans rfl, ?_⟩
  have hvalues := h.storedFields_length
  constructor
  case layout =>
    have hdecode := FieldLayout.decode_encode hlayout
    rw [List.length_map] at hdecode
    exact hdecode
  case valueSchema =>
    refine ⟨rfl, ?_⟩
    rw [← hvalues]
    apply Line.array?_lines _ _ o.fields.length
    intro line hline
    cases hline
    rfl
  case fieldNames =>
    refine ⟨rfl, ?_⟩
    rw [← hvalues]
    exact Line.array?_all_lines _ _ o.fields.length _
  case accessors =>
    rw [← hkeysLength, hforall.length_eq]
    exact accessors_calls
  case records => exact records_names
  case storing =>
    intro m hm hname
    obtain ⟨s, -, rfl⟩ := records_set hm hname
    have hstore : s.expression ∈ ["StoreSwitch", "_store"] := by
      cases s <;> simp [StoreChoice.expression]
    exact ⟨s.expression, hstore, setRecord_storing s⟩
  case packing =>
    intro m hm hname
    obtain ⟨s, -, rfl⟩ := records_set hm hname
    rw [setRecord_packing, h.packing_eq]
  case deletions =>
    rw [variants_map]
    exact List.map_map
  case keys => exact hnames
  case keyWords => exact h.keyWords_converted hforall
  case keySchema =>
    refine ⟨rfl, ?_⟩
    rw [← hkeysLength]
    apply Line.array?_lines _ _ o.keys.length
    intro line hline
    cases hline
    rfl
  case keyNames =>
    refine ⟨rfl, ?_⟩
    have hquoted : o.keys.map (fun k => "\"" ++ k.name ++ "\"") =
        t.key.map fun k => "\"" ++ k ++ "\"" := by
      rw [← hnames, List.map_map]
      rfl
    rw [← hkeysLength, ← hquoted]
    exact Line.array?_all_lines _ _ o.keys.length _
  case keyTuple =>
    intro m hm
    rw [← hkeysLength, hforall.length_eq]
    rcases List.mem_append.mp hm with hm | hm
    · exact (accessors_act m hm).keyTuple
    · exact (deletions_act m hm).keyTuple
  case recordKeyTuple =>
    intro m hm hname
    rw [← hkeysLength, hforall.length_eq]
    obtain ⟨s, hs, rfl⟩ := records_set hm hname
    exact (setRecord_acts hs).keyTuple
  case params =>
    intro m hm
    apply exists_variant
    rcases List.mem_append.mp hm with hm | hm
    · rcases List.mem_append.mp hm with hm | hm
      · exact (accessors_act m hm).params
      · exact records_params m hm
    · exact (deletions_act m hm).params

end Plans

end LibraryOptions

end SolidityTables

import SolidityTables.Proofs.Library.Order

/-!
# The functions of a library

The lines with which the functions of a library begin are read from its file. They tell one function
after another, each with the store, the id and the key on which it acts before its own parameters.
-/

namespace SolidityTables

open Attempt

namespace Line

def begins (start line : String) : Bool :=
  start.toList.isPrefixOf line.toList

theorem begins_append {start front : String} (h : begins start front = true) (rest : String) :
    begins start (front ++ rest) = true := by
  unfold begins at *
  rw [List.isPrefixOf_iff_prefix] at *
  rw [String.toList_append]
  exact h.trans (List.prefix_append _ _)

theorem begins_of_begins {start front line : String} (h : begins front line = true)
    (hshort : begins front start = true → begins start front = true) :
    begins start line = begins start front := by
  unfold begins at *
  rw [Bool.eq_iff_iff]
  simp only [List.isPrefixOf_iff_prefix] at *
  refine ⟨fun hstart => ?_, fun hstart => hstart.trans h⟩
  exact (List.prefix_or_prefix_of_prefix hstart h).elim (fun hh => hh) hshort

def IsInner (line : String) : Prop :=
  line = "" ∨ begins "    " line = true

theorem IsInner.not_function {line : String} (h : IsInner line) :
    begins "  function " line = false := by
  rcases h with rfl | h
  · decide
  · obtain ⟨cs, hcs⟩ := List.isPrefixOf_iff_prefix.mp h
    rw [begins, ← hcs]
    rfl

end Line

def libraryLines (lines : List String) : List String :=
  (lines.dropWhile fun line => !Line.begins "library " line).takeWhile (· ≠ "\x7d")

/-- The lines with which the functions of the library in a file begin. -/
def functionLines (lines : List String) : List String :=
  (libraryLines lines).filter (Line.begins "  function ")

section Separated

variable {gs : List (List String)} {p : String → Bool}

theorem filter_separated (hp : p "" = false) :
    (separated gs).filter p = gs.flatMap (List.filter p) := by
  induction gs using separated.induct with
  | case1 => rfl
  | case2 g => simp [separated]
  | case3 g h rest ih =>
    rw [separated, List.filter_append, List.filter_cons_of_neg (by simp [hp]), ih,
      ← List.flatMap_cons]

theorem forall_separated {P : String → Prop} (hp : P "") (h : ∀ g ∈ gs, ∀ line ∈ g, P line) :
    ∀ line ∈ separated gs, P line := by
  induction gs using separated.induct with
  | case1 => simp [separated]
  | case2 g => exact h g (List.mem_singleton_self g)
  | case3 g h' rest ih =>
    rw [separated, List.forall_mem_append, List.forall_mem_cons]
    obtain ⟨hg, hrest⟩ := List.forall_mem_cons.mp h
    exact ⟨hg, hp, ih hrest⟩

end Separated

namespace Method

def Inner (m : Method) : Prop :=
  ∀ line ∈ m.body, Line.IsInner line

theorem header_begins (m : Method) : Line.begins "  function " m.header = true := by
  unfold header
  repeat apply Line.begins_append
  rfl

theorem Inner.filter_lines {m : Method} (h : m.Inner) :
    m.lines.filter (Line.begins "  function ") = [m.header] := by
  have hbody : m.body.filter (Line.begins "  function ") = [] := by
    rw [List.filter_eq_nil_iff]
    intro line hline
    rw [(h line hline).not_function]
    decide
  have hcomment : ["  /**", "   * @notice " ++ m.notice, "   */"].filter
      (Line.begins "  function ") = [] := by
    have hnotice : Line.begins "  function " ("   * @notice " ++ m.notice) = false := by
      simp only [Line.begins, String.toList_append]
      rfl
    rw [List.filter_cons_of_neg (by decide), List.filter_cons_of_neg (by simp [hnotice])]
    decide
  have hend : ["  \x7d"].filter (Line.begins "  function ") = [] := by decide
  rw [lines_eq, List.filter_append, hcomment, List.filter_cons_of_pos m.header_begins,
    List.filter_append, hbody, hend]
  rfl

theorem Inner.blank {m : Method} (h : m.Inner) :
    ∀ line ∈ m.lines, line = "" ∨ Line.begins " " line = true := by
  have hheader : Line.begins " " m.header = true := by
    unfold header
    repeat apply Line.begins_append
    rfl
  have hbody : ∀ line ∈ m.body, line = "" ∨ Line.begins " " line = true := by
    intro line hline
    rcases h line hline with rfl | hinner
    · exact .inl rfl
    · obtain ⟨cs, hcs⟩ := List.isPrefixOf_iff_prefix.mp hinner
      right
      rw [Line.begins, ← hcs]
      rfl
  rw [lines_eq]
  simp only [List.forall_mem_append, List.forall_mem_cons, List.not_mem_nil, false_implies,
    implies_true, and_true]
  exact ⟨⟨.inr rfl, .inr (Line.begins_append rfl _), .inr rfl⟩, .inr hheader, hbody, .inr rfl⟩

theorem Inner.not_end {m : Method} (h : m.Inner) : ∀ line ∈ m.lines, line ≠ "\x7d" := by
  intro line hline
  rcases h.blank line hline with rfl | hblank
  · decide
  · intro hh
    subst hh
    revert hblank
    decide

end Method

section Bodies

open Line

variable {words : List String}

theorem elementLines_inner (array : String) (values : List String) :
    ∀ line ∈ elementLines array values, IsInner line := by
  intro line hline
  obtain ⟨⟨value, i⟩, -, rfl⟩ := List.mem_map.mp hline
  right
  repeat apply begins_append
  rfl

theorem keyLines_inner {rest : List String} (h : ∀ line ∈ rest, IsInner line) :
    ∀ line ∈ keyLines words ++ rest, IsInner line := by
  simp only [keyLines, List.cons_append, List.append_assoc, List.nil_append, List.forall_mem_cons,
    List.forall_mem_append]
  refine ⟨.inr ?_, elementLines_inner _ _, .inl rfl, h⟩
  repeat apply begins_append
  rfl

theorem call_inner {lead : String} (h : begins "    " lead = true) (call tail : String) :
    IsInner (lead ++ call ++ tail) :=
  .inr (begins_append (begins_append h call) tail)

end Bodies

namespace LibraryOptions

open Line

variable {o : LibraryOptions} {words : List String}

theorem schemaMethods_inner : ∀ m ∈ o.schemaMethods, m.Inner := by
  have hallocation {lead : String} (h : begins "    " lead = true) (n : Nat) :
      IsInner (lead ++ toString n ++ ");") := call_inner h _ _
  simp only [schemaMethods, List.forall_mem_cons, Method.Inner, List.forall_mem_append,
    List.not_mem_nil, false_implies,
    implies_true, and_true]
  exact ⟨.inr rfl, ⟨⟨hallocation rfl _, elementLines_inner _ _⟩, .inr rfl⟩,
    ⟨⟨hallocation rfl _, elementLines_inner _ _⟩, .inr rfl⟩,
    ⟨hallocation rfl _, elementLines_inner _ _⟩, hallocation rfl _, elementLines_inner _ _⟩

theorem register_inner (s : StoreChoice) : (o.register s).Inner := by
  refine List.forall_mem_singleton.mpr (.inr ?_)
  repeat apply begins_append
  rfl

theorem staticMethods_inner (s : StoreChoice) (f : Field) (i : Nat) :
    ∀ m ∈ o.staticMethods words s f i, m.Inner := by
  simp only [staticMethods, List.forall_mem_cons, List.not_mem_nil, false_implies,
    implies_true, and_true]
  constructor
  · apply keyLines_inner
    simp only [List.forall_mem_cons, List.not_mem_nil, false_implies,
    implies_true, and_true]
    exact ⟨call_inner rfl _ _, call_inner rfl _ _⟩
  · apply keyLines_inner
    exact List.forall_mem_singleton.mpr (call_inner rfl _ _)

theorem dynamicMethods_inner (s : StoreChoice) (f : Field) (i : Nat) :
    ∀ m ∈ o.dynamicMethods words s f i, m.Inner := by
  simp only [dynamicMethods, List.forall_mem_append, List.forall_mem_cons, List.not_mem_nil,
    false_implies, implies_true, and_true]
  refine ⟨⟨?_, ?_⟩, ?_⟩
  · apply keyLines_inner
    simp only [List.forall_mem_cons, List.not_mem_nil, false_implies,
    implies_true, and_true]
    exact ⟨call_inner rfl _ _, call_inner rfl _ _⟩
  · apply keyLines_inner
    exact List.forall_mem_singleton.mpr (call_inner rfl _ _)
  · split
    · simp only [List.forall_mem_cons, List.not_mem_nil, false_implies,
    implies_true, and_true]
      refine ⟨?_, ?_, ?_⟩
      · apply keyLines_inner
        simp only [List.forall_mem_cons, List.not_mem_nil, false_implies,
    implies_true, and_true]
        exact ⟨call_inner rfl _ _, .inr rfl, call_inner rfl _ _, .inr rfl⟩
      · unfold pushMethod
        cases f.element with
        | none => exact keyLines_inner (List.forall_mem_singleton.mpr (call_inner rfl _ _))
        | some t => exact keyLines_inner (List.forall_mem_singleton.mpr (call_inner rfl _ _))
      · apply keyLines_inner
        exact List.forall_mem_singleton.mpr (call_inner rfl _ _)
    · simp

theorem getRecord_inner (s : StoreChoice) : (o.getRecord s).Inner := by
  intro line hline
  obtain ⟨f, -, rfl⟩ := List.mem_map.mp hline
  right
  repeat apply begins_append
  rfl

theorem packing_inner : ∀ line ∈ o.packing, IsInner line := by
  simp only [packing, packingLines, List.forall_mem_append, List.forall_mem_singleton]
  refine ⟨call_inner rfl _ _, ?_⟩
  split
  · simp only [List.forall_mem_cons, List.not_mem_nil, false_implies,
    implies_true, and_true]
    exact ⟨.inr rfl, .inr rfl⟩
  · simp only [List.forall_mem_cons, List.not_mem_nil, false_implies,
    implies_true, and_true]
    exact ⟨call_inner rfl _ _, call_inner rfl _ _⟩

theorem setRecord_inner (s : StoreChoice) : (o.setRecord words s).Inner := by
  rw [Method.Inner, setRecord_body]
  refine List.forall_mem_append.mpr ⟨packing_inner, List.forall_mem_cons.mpr ⟨.inl rfl, ?_⟩⟩
  apply keyLines_inner
  exact List.forall_mem_singleton.mpr (call_inner rfl _ _)

theorem fieldMethods_inner : ∀ m ∈ o.fieldMethods words, m.Inner := by
  intro m hm
  simp only [fieldMethods, List.mem_append, List.mem_flatMap] at hm
  rcases hm with ⟨⟨f, i⟩, -, s, -, hm⟩ | ⟨⟨f, i⟩, -, s, -, hm⟩
  · exact staticMethods_inner s f i m hm
  · exact dynamicMethods_inner s f i m hm

theorem methods_inner : ∀ m ∈ o.methods words, m.Inner := by
  intro m hm
  simp only [methods, List.mem_append] at hm
  rcases hm with (((hm | hm) | hm) | hm) | hm
  · exact schemaMethods_inner m hm
  · obtain ⟨s, -, rfl⟩ := List.mem_map.mp hm
    exact register_inner s
  · split at hm
    · exact fieldMethods_inner m hm
    · cases hm
  · have hrecord : m ∈ o.records words := hm
    obtain ⟨s, -, rfl | rfl⟩ := mem_records hrecord
    · exact getRecord_inner s
    · exact setRecord_inner s
  · obtain ⟨s, -, rfl⟩ := List.mem_map.mp hm
    exact keyLines_inner (List.forall_mem_singleton.mpr (call_inner rfl _ _))

end LibraryOptions

namespace LibrarySource

variable (s : LibrarySource)

def head : String := "library " ++ s.library ++ " \x7b"

theorem lines_split : ∃ front, s.lines = front ++ ["", s.head] ++
      separated (s.methods.map (·.lines)) ++ ["\x7d"] ++ castFunctions ∧
    ∀ line ∈ front, Line.begins "library " line = false := by
  have himport (i : ImportLine) : Line.begins "library " i.text = false := by
    simp only [ImportLine.text, Line.begins, String.toList_append, List.append_assoc]
    rfl
  refine ⟨_, rfl, ?_⟩
  simp only [List.forall_mem_append]
  refine ⟨⟨⟨⟨⟨⟨?header, ?comment⟩, ?storeImports⟩, ?typeImports⟩, ?tableId⟩, ?fieldLayout⟩, ?struct⟩
  case header => decide
  case comment => decide
  case storeImports => exact List.forall_mem_map.mpr fun i _ => himport i
  case typeImports =>
    split
    · simp
    · exact List.forall_mem_append.mpr ⟨by decide, List.forall_mem_map.mpr fun i _ => himport i⟩
  case tableId =>
    split
    · simp
    · refine List.forall_mem_cons.mpr ⟨by decide, List.forall_mem_singleton.mpr ?_⟩
      simp only [Line.begins, String.toList_append, List.append_assoc]
      rfl
  case fieldLayout =>
    refine List.forall_mem_cons.mpr ⟨by decide, List.forall_mem_singleton.mpr ?_⟩
    simp only [Line.begins, String.toList_append, List.append_assoc]
    rfl
  case struct =>
    split
    · simp
    · simp only [List.forall_mem_append, List.forall_mem_cons, List.forall_mem_map,
        List.not_mem_nil, false_implies, implies_true, and_true]
      refine ⟨⟨⟨by decide, ?_⟩, fun m _ => ?_⟩, by decide⟩
      · simp only [Line.begins, String.toList_append, List.append_assoc]
        rfl
      · simp only [Line.begins, String.toList_append, List.append_assoc]
        rfl

theorem libraryLines_eq (h : ∀ m ∈ s.methods, m.Inner) :
    libraryLines s.lines = s.head :: separated (s.methods.map (·.lines)) := by
  obtain ⟨front, hlines, hfront⟩ := s.lines_split
  have hhead : Line.begins "library " s.head = true := by
    unfold head
    repeat apply Line.begins_append
    rfl
  have hends : s.head ≠ "\x7d" := by
    intro hh
    rw [hh] at hhead
    revert hhead
    decide
  have hbody : ∀ line ∈ separated (s.methods.map (·.lines)), line ≠ "\x7d" := by
    refine forall_separated (by decide) fun g hg => ?_
    obtain ⟨m, hm, rfl⟩ := List.mem_map.mp hg
    exact (h m hm).not_end
  have hskip : ∀ line ∈ front ++ [""], (!Line.begins "library " line) = true := by
    intro line hline
    rcases List.mem_append.mp hline with hline | hline
    · rw [hfront line hline]
      rfl
    · rw [List.mem_singleton.mp hline]
      decide
  have hsplit : s.lines = (front ++ [""]) ++ (s.head ::
      (separated (s.methods.map (·.lines)) ++ "\x7d" :: castFunctions)) := by
    rw [hlines]
    simp
  rw [libraryLines, hsplit, List.dropWhile_append_of_pos hskip,
    List.dropWhile_cons_of_neg (by simp [hhead]), List.takeWhile_cons_of_pos (by simp [hends]),
    List.takeWhile_append_of_pos (by simpa using hbody), List.takeWhile_cons_of_neg (by decide),
    List.append_nil]

theorem functionLines_eq (h : ∀ m ∈ s.methods, m.Inner) :
    functionLines s.lines = s.methods.map (·.header) := by
  have hhead : Line.begins "  function " s.head = false := by
    simp only [head, Line.begins, String.toList_append, List.append_assoc]
    rfl
  rw [functionLines, libraryLines_eq s h, List.filter_cons_of_neg (by simp [hhead]),
    filter_separated (by decide), List.flatMap_map, List.map_eq_flatMap]
  exact List.flatMap_congr fun m hm => (h m hm).filter_lines

def importLines : List String :=
  (s.storeImports ++ s.typeImports).map fun i =>
    "import \x7b " ++ String.intercalate ", " i.symbols ++ " \x7d from \"" ++ i.path ++ "\";"

def declarations : List String :=
  s.importLines ++
    s.tableId.toList.map (fun id =>
      "ResourceId constant _tableId = ResourceId.wrap(" ++ id ++ ");") ++
    ["FieldLayout constant _fieldLayout = FieldLayout.wrap(" ++ s.fieldLayout ++ ");"] ++
    s.struct.toList.map (fun d => "struct " ++ d.1 ++ " \x7b") ++
    ["library " ++ s.library ++ " \x7b"]

def declarationStarts : List String :=
  ["import ", "ResourceId constant ", "FieldLayout constant ", "struct ", "library "]

theorem begins_declaration {start : String}
    (hshort : ∀ front ∈ " " :: declarationStarts,
      Line.begins front start = true → Line.begins start front = true) :
    ∀ front ∈ " " :: declarationStarts, ∀ line, Line.begins front line = true →
      Line.begins start line = Line.begins start front :=
  fun front hfront _ hline => Line.begins_of_begins hline (hshort front hfront)

theorem filter_declarations {p : String → Bool}
    (h : ∀ start ∈ declarationStarts, ∀ line, Line.begins start line = true → p line = p start) :
    s.declarations.filter p = (if p "import " then s.importLines else []) ++
      (if p "ResourceId constant " then s.tableId.toList.map fun id =>
        "ResourceId constant _tableId = ResourceId.wrap(" ++ id ++ ");" else []) ++
      (if p "FieldLayout constant " then
        ["FieldLayout constant _fieldLayout = FieldLayout.wrap(" ++ s.fieldLayout ++ ");"]
        else []) ++
      (if p "struct " then s.struct.toList.map fun d => "struct " ++ d.1 ++ " \x7b" else []) ++
      (if p "library " then ["library " ++ s.library ++ " \x7b"] else []) := by
  have hgroup (start : String) (hstart : start ∈ declarationStarts) {lines : List String}
      (hlines : ∀ line ∈ lines, Line.begins start line = true) :
      lines.filter p = if p start then lines else [] := by
    have hp : ∀ line ∈ lines, p line = p start :=
      fun line hl => h start hstart line (hlines line hl)
    split
    next htrue => exact List.filter_eq_self.mpr fun line hl => (hp line hl).trans htrue
    next hfalse => exact List.filter_eq_nil_iff.mpr fun line hl => by rwa [hp line hl]
  simp only [declarations, List.filter_append]
  rw [hgroup "import " (by decide) ?imports, hgroup "ResourceId constant " (by decide) ?id,
    hgroup "FieldLayout constant " (by decide) ?layout, hgroup "struct " (by decide) ?struct,
    hgroup "library " (by decide) ?library]
  case imports =>
    refine List.forall_mem_map.mpr fun i _ => ?_
    repeat apply Line.begins_append
    rfl
  case id =>
    refine List.forall_mem_map.mpr fun id _ => ?_
    repeat apply Line.begins_append
    rfl
  case layout =>
    refine List.forall_mem_singleton.mpr ?_
    repeat apply Line.begins_append
    rfl
  case struct =>
    refine List.forall_mem_map.mpr fun d _ => ?_
    repeat apply Line.begins_append
    rfl
  case library =>
    refine List.forall_mem_singleton.mpr ?_
    repeat apply Line.begins_append
    rfl

section Filter

variable {p : String → Bool}

theorem filter_methodLines (hempty : p "" = false)
    (hset : ∀ line, Line.begins " " line = true → p line = false)
    (h : ∀ m ∈ s.methods, m.Inner) : (separated (s.methods.map (·.lines))).filter p = [] := by
  have hnone : ∀ line ∈ separated (s.methods.map (·.lines)), p line = false := by
    refine forall_separated hempty (List.forall_mem_map.mpr fun m hm line hline => ?_)
    rcases (h m hm).blank line hline with rfl | hblank
    · exact hempty
    · exact hset line hblank
  exact List.filter_eq_nil_iff.mpr fun line hline => by simp [hnone line hline]

theorem filter_memberLines (hset : ∀ line, Line.begins " " line = true → p line = false)
    (members : List Parameter) : (members.map fun m => "  " ++ m.text ++ ";").filter p = [] := by
  refine List.filter_eq_nil_iff.mpr (List.forall_mem_map.mpr fun m _ => ?_)
  have hinner : Line.begins " " ("  " ++ m.text ++ ";") = true :=
    Line.begins_append (Line.begins_append rfl _) _
  simp [hset _ hinner]

theorem filter_lines (hempty : p "" = false)
    (hset : ∀ line, Line.begins " " line = true → p line = false)
    (hfixed : (fileHeader ++ (["// Import store internals", "// Import user types", "\x7d"] ++
      castFunctions)).filter p = []) (h : ∀ m ∈ s.methods, m.Inner) :
    s.lines.filter p = s.declarations.filter p := by
  have hskip (line : String) (rest : List String) :
      (["", line] ++ rest).filter p = [line].filter p ++ rest.filter p := by
    rw [List.filter_append, List.filter_cons_of_neg (by simp [hempty])]
  have hline (line : String) : ["", line].filter p = [line].filter p :=
    List.filter_cons_of_neg (by simp [hempty])
  simp only [List.filter_append, List.append_eq_nil_iff] at hfixed
  obtain ⟨hheader, hmarks, hcasts⟩ := hfixed
  have hmark : ∀ line ∈ ["// Import store internals", "// Import user types", "\x7d"],
      [line].filter p = [] := by
    intro line hmem
    exact List.filter_eq_nil_iff.mpr fun l hl =>
      List.filter_eq_nil_iff.mp hmarks l (List.mem_singleton.mp hl ▸ hmem)
  have htypes : (if s.typeImports = [] then []
      else ["", "// Import user types"] ++ s.typeImports.map (·.text)).filter p =
        (s.typeImports.map (·.text)).filter p := by
    split
    next hnone => rw [hnone, List.map_nil]
    next => rw [hskip, hmark _ (by simp), List.nil_append]
  have hstruct (name : String) (members : List Parameter) :
      (["", "struct " ++ name ++ " \x7b"] ++ members.map (fun m => "  " ++ m.text ++ ";") ++
        ["\x7d"]).filter p = ["struct " ++ name ++ " \x7b"].filter p := by
    rw [List.filter_append, hskip, filter_memberLines hset, hmark "\x7d" (by simp),
      List.append_nil, List.append_nil]
  unfold lines declarations importLines
  simp only [List.filter_append _ (List.map _ _), List.filter_append (_ ++ _), List.map_append,
    List.filter_append fileHeader, hheader, htypes, s.filter_methodLines hempty hset h, hcasts,
    hline, hmark "// Import store internals" (by simp), hmark "\x7d" (by simp), List.nil_append,
    List.append_nil]
  cases s.tableId with
  | none =>
    cases s.struct with
    | none => rfl
    | some d =>
      dsimp only
      rw [hstruct]
      rfl
  | some id =>
    dsimp only
    rw [hline]
    cases s.struct with
    | none => rfl
    | some d =>
      dsimp only
      rw [hstruct]
      rfl

end Filter

end LibrarySource

namespace LibraryOptions

def recordFunction (o : LibraryOptions) (variant : List Parameter) (name : String)
    (own : List Parameter) : Signature :=
  ⟨name, variant ++ o.idParameters ++ o.keys.map (fun k => ⟨k.located, k.name⟩) ++ own⟩

def schemaFunctions : List Signature :=
  ["getFieldLayout", "getKeySchema", "getValueSchema", "getKeyNames", "getFieldNames"].map (⟨·, []⟩)

def registerFunctions (o : LibraryOptions) : List Signature :=
  o.variants.map fun v => ⟨"register", v ++ o.idParameters⟩

def accessName (o : LibraryOptions) (verb : String) (f : Field) : String :=
  if o.suffixless then verb else verb ++ Uppercase.capitalize f.name

def accessFunctions (o : LibraryOptions) (f : Field) (variant : List Parameter) : List Signature :=
  [o.recordFunction variant (o.accessName "get" f) [],
    o.recordFunction variant (o.accessName "set" f) [⟨f.located, f.name⟩]]

def pushed (f : Field) : Parameter :=
  match f.element with
  | some t => ⟨t.type, "_element"⟩
  | none => ⟨f.internal ++ " memory", "_slice"⟩

def arrayFunctions (o : LibraryOptions) (f : Field) (variant : List Parameter) : List Signature :=
  [o.recordFunction variant (o.accessName "length" f) [],
    o.recordFunction variant (o.accessName "push" f) [pushed f],
    o.recordFunction variant (o.accessName "pop" f) []]

def fieldFunctions (o : LibraryOptions) : List Signature :=
  (o.staticFields.flatMap fun f => o.variants.flatMap fun v => o.accessFunctions f v) ++
    o.dynamicFields.flatMap fun f => o.variants.flatMap fun v =>
      o.accessFunctions f v ++ if o.withDynamicFieldMethods then o.arrayFunctions f v else []

def recordData (o : LibraryOptions) : List Parameter :=
  match o.struct with
  | some name => if name = "" then o.fields.map (fun f => ⟨f.located, f.name⟩)
    else [⟨name ++ " memory", "_table"⟩]
  | none => o.fields.map fun f => ⟨f.located, f.name⟩

def recordFunctions (o : LibraryOptions) : List Signature :=
  o.variants.flatMap fun v =>
    (if o.withGetters then [o.recordFunction v "get" []] else []) ++
      [o.recordFunction v "set" o.recordData]

def deleteFunctions (o : LibraryOptions) : List Signature :=
  o.variants.map fun v => o.recordFunction v "deleteRecord" []

/-- The functions of a library in their order. -/
def functions (o : LibraryOptions) : List Signature :=
  schemaFunctions ++ o.registerFunctions ++ (if o.withGetters then o.fieldFunctions else []) ++
    (if o.withRecordMethods then o.recordFunctions else []) ++ o.deleteFunctions

variable {o : LibraryOptions} {words : List String}

theorem recordFunction_eq (s : StoreChoice) (name : String) (own : List Parameter) :
    o.recordFunction s.params name own = ⟨name, o.recordParams s ++ own⟩ := by
  rw [recordFunction, idParameters_eq]
  rfl

theorem recordData_eq : o.recordData = o.dataParams := by
  unfold recordData dataParams structName
  cases o.struct with
  | none => rfl
  | some name =>
    by_cases hname : name = ""
    · rw [Option.filter_some, if_neg (by simpa using hname)]
      exact if_pos hname
    · rw [Option.filter_some, if_pos (by simpa using hname)]
      exact if_neg hname

theorem register_signature (s : StoreChoice) :
    (o.register s).signature = ⟨"register", s.params ++ o.idParameters⟩ := by
  rw [idParameters_eq]
  rfl

theorem deleteRecord_signature (s : StoreChoice) :
    (o.deleteRecord words s).signature = o.recordFunction s.params "deleteRecord" [] := by
  rw [recordFunction_eq, List.append_nil]
  rfl

theorem recordMethods_signature (s : StoreChoice) :
    (o.recordMethods words s).map Method.signature =
      (if o.withGetters then [o.recordFunction s.params "get" []] else []) ++
        [o.recordFunction s.params "set" o.recordData] := by
  simp only [recordFunction_eq, recordData_eq, List.append_nil]
  unfold recordMethods
  cases o.withGetters <;> rfl

theorem staticMethods_signature (s : StoreChoice) (f : Field) (i : Nat) :
    (o.staticMethods words s f i).map Method.signature = o.accessFunctions f s.params := by
  simp only [accessFunctions, recordFunction_eq, List.append_nil]
  rfl

theorem pushMethod_signature (s : StoreChoice) (f : Field) (i : Nat) :
    (o.pushMethod words s f i).signature =
      o.recordFunction s.params (o.accessName "push" f) [pushed f] := by
  rw [recordFunction_eq]
  unfold pushMethod pushed
  cases f.element <;> rfl

theorem dynamicMethods_signature (s : StoreChoice) (f : Field) (i : Nat) :
    (o.dynamicMethods words s f i).map Method.signature = o.accessFunctions f s.params ++
      if o.withDynamicFieldMethods then o.arrayFunctions f s.params else [] := by
  have hpush : (o.pushMethod words s f i).signature = _ := pushMethod_signature s f i
  simp only [accessFunctions, arrayFunctions, ← hpush, recordFunction_eq, List.append_nil]
  unfold dynamicMethods
  cases o.withDynamicFieldMethods <;> rfl

theorem fieldMethods_signature :
    (o.fieldMethods words).map Method.signature = o.fieldFunctions := by
  have hindex (fields : List Field) (g : Field → List Signature) :
      (fields.zipIdx.flatMap fun x => g x.1) = fields.flatMap g := by
    rw [← List.flatMap_map, List.zipIdx_map_fst]
  simp only [fieldMethods, List.map_append, List.map_flatMap, staticMethods_signature,
    dynamicMethods_signature, fieldFunctions, variants_flatMap]
  have hstatic := hindex o.staticFields fun f => o.stores.flatMap fun s =>
    o.accessFunctions f s.params
  have hdynamic := hindex o.dynamicFields fun f => o.stores.flatMap fun s =>
    o.accessFunctions f s.params ++
      if o.withDynamicFieldMethods then o.arrayFunctions f s.params else []
  exact congrArg₂ (· ++ ·) hstatic hdynamic

theorem methods_signature : (o.methods words).map Method.signature = o.functions := by
  have hregister : (o.stores.map o.register).map Method.signature = o.registerFunctions := by
    simp only [registerFunctions, variants_map, List.map_map, Function.comp_def,
      register_signature]
  have hdelete : (o.stores.map (o.deleteRecord words)).map Method.signature =
      o.deleteFunctions := by
    simp only [deleteFunctions, variants_map, List.map_map, Function.comp_def,
      deleteRecord_signature]
  have hrecords : (o.stores.flatMap (o.recordMethods words)).map Method.signature =
      o.recordFunctions := by
    simp only [recordFunctions, variants_flatMap, List.map_flatMap, recordMethods_signature]
  have hschema : o.schemaMethods.map Method.signature = schemaFunctions := rfl
  rw [methods, functions, List.map_append, List.map_append, List.map_append, List.map_append,
    hschema, hregister, hdelete, apply_ite (List.map Method.signature),
    apply_ite (List.map Method.signature), fieldMethods_signature, hrecords]
  rfl

theorem source_inner {cwd : String} {source : LibrarySource} (h : o.source cwd = .ok source) :
    ∀ m ∈ source.methods, m.Inner := by
  obtain ⟨-, words, -, hmethods⟩ := source_eq_ok h
  rw [hmethods]
  exact methods_inner

theorem source_functions {cwd : String} {source : LibrarySource} (h : o.source cwd = .ok source) :
    List.Forall₂ Signature.BeginsIn o.functions (functionLines source.lines) := by
  obtain ⟨-, words, -, hmethods⟩ := source_eq_ok h
  have hfunctions : (o.methods words).map Method.signature = o.functions := methods_signature
  rw [source.functionLines_eq (source_inner h), hmethods, ← hfunctions, List.forall₂_map_left_iff,
    List.forall₂_map_right_iff, List.forall₂_same]
  exact fun m _ => m.signature_beginsIn

theorem ofTable_offchain {codegen : StoreCodegen} {scope : Scope} {t : Table}
    (h : ofTable codegen scope t = .ok o) (hkind : t.kind = .offchainTable) :
    o.withGetters = false ∧ o.withRecordMethods = true := by
  simp only [ofTable, bind_eq_ok, pure_eq_ok] at h
  obtain ⟨keys, -, values, -, rfl⟩ := h
  simp [hkind]

theorem functions_of_offchain (hget : o.withGetters = false)
    (hrecord : o.withRecordMethods = true) :
    o.functions = schemaFunctions ++ o.registerFunctions ++
      o.variants.map (fun v => o.recordFunction v "set" o.recordData) ++ o.deleteFunctions := by
  simp only [functions, recordFunctions, hget, hrecord, Bool.false_eq_true, if_false, if_true,
    List.append_nil, List.nil_append, List.map_eq_flatMap]

end LibraryOptions

/-- A library that is written has just the functions that its options call for, in their order; each
begins in a line of its own. That of an offchain table has none that read and none for single
fields. -/
theorem LibraryOptions.render_functions :
    (∀ (o : LibraryOptions) (cwd text : String), o.render cwd = .ok text →
      ∃ source, o.source cwd = .ok source ∧
        text = String.intercalate "\n" (source.lines ++ [""]) ∧
        List.Forall₂ Signature.BeginsIn o.functions (functionLines source.lines)) ∧
    ∀ (s : Store) (types : List (String × UserType)) (files : List LibraryFile),
      s.libraries types = .ok files →
      List.Forall₂ (fun x file => x.2.kind = .offchainTable → file.options.functions =
        schemaFunctions ++ file.options.registerFunctions ++
          file.options.variants.map (fun v =>
            file.options.recordFunction v "set" file.options.recordData) ++
          file.options.deleteFunctions) s.tables files := by
  constructor
  · intro o cwd text h
    obtain ⟨source, hsource, rfl⟩ := map_eq_ok.mp h
    exact ⟨source, hsource, rfl, source_functions hsource⟩
  · intro s types files h
    apply (Store.libraries_files h).imp
    intro x file hfile hkind
    obtain ⟨hget, hrecord⟩ := ofTable_offchain hfile.2 hkind
    exact functions_of_offchain hget hrecord

def ledgerStore : Store :=
  { itemStore with tables := [("Item",
      { itemTable with kind := .offchainTable, codegen := ⟨"tables", false, true, true⟩ })] }

theorem render_functions_ledger : ∃ (file : LibraryFile) (text : String) (source : LibrarySource),
    ledgerStore.libraries ledgerStore.userTypes = .ok [file] ∧
      file.options.render "/work" = .ok text ∧
      text = String.intercalate "\n" (source.lines ++ [""]) ∧
      List.Forall₂ Signature.BeginsIn file.options.functions (functionLines source.lines) ∧
      file.options.functions = LibraryOptions.schemaFunctions ++ file.options.registerFunctions ++
        file.options.variants.map (fun v =>
          file.options.recordFunction v "set" file.options.recordData) ++
        file.options.deleteFunctions := by
  have hrendered : (ledgerStore.libraries ledgerStore.userTypes).map (fun files =>
      files.map fun f => fault? (f.options.render "/work")) = .ok [none] := by decide +kernel
  obtain ⟨files, hfiles, hnone⟩ := map_eq_ok.mp hrendered
  obtain ⟨file, _, rfl, hfile, hnil⟩ := List.map_eq_cons_iff.mp hnone
  cases List.map_eq_nil_iff.mp hnil
  obtain ⟨text, htext⟩ := fault?_eq_none.mp hfile
  obtain ⟨hrender, hoffchain⟩ := LibraryOptions.render_functions
  obtain ⟨source, -, hlines, hall⟩ := hrender file.options "/work" text htext
  rcases hoffchain _ _ _ hfiles with _ | ⟨hitem, -⟩
  exact ⟨file, text, source, hfiles, htext, hlines, hall, hitem rfl⟩

end SolidityTables

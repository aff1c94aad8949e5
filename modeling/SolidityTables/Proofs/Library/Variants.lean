import SolidityTables.Proofs.Library.Functions
import Mathlib.Data.List.Flatten
import Mathlib.Data.List.Perm.Basic

/-!
# The argument for a store

A library with an argument for the store has all that it has without: no line and no function is
taken away or changed. In addition it has, for every function that acts on the store that is found,
one that does the same to a store that it takes before all else.
-/

namespace SolidityTables

open Attempt

/-- The functions of the library in a file, each with the comment before it and up to the line that
closes it. -/
def functionTexts (lines : List String) : List (List String) :=
  (("" :: (libraryLines lines).tail).splitOn "  \x7d").dropLast.map fun piece =>
    piece.tail ++ ["  \x7d"]

theorem separated_cons (g : List String) (gs : List (List String)) :
    "" :: separated (g :: gs) = (g :: gs).flatMap ("" :: ·) := by
  induction gs generalizing g with
  | nil => rw [separated, List.flatMap_singleton]
  | cons h gs ih =>
    rw [separated, ih h]
    rfl

theorem separated_sublist {gs hs : List (List String)} (h : gs.Sublist hs) :
    (separated gs).Sublist (separated hs) := by
  have htail (gs : List (List String)) : separated gs = (gs.flatMap ("" :: ·)).tail := by
    cases gs with
    | nil => rfl
    | cons g gs => rw [← separated_cons, List.tail_cons]
  rw [htail, htail]
  exact (h.flatMap _).tail

theorem textLines_fileText (lines : List String) :
    textLines (fileText lines) = (lines ++ [""]).flatMap textLines :=
  cut_intercalate rfl (by simp)

namespace Method

def opening (m : Method) : List String :=
  ["  /**", "   * @notice " ++ m.notice, "   */", m.header] ++ m.body

theorem Inner.close_notMem {m : Method} (h : m.Inner) : "  \x7d" ∉ m.opening := by
  have hbegins {start line : String} (hline : Line.begins start line = true)
      (hclose : Line.begins start "  \x7d" = false) : "  \x7d" ≠ line := by
    rintro rfl
    rw [hline] at hclose
    cases hclose
  have hnotice : Line.begins "   " ("   * @notice " ++ m.notice) = true :=
    Line.begins_append rfl m.notice
  have hbody : "  \x7d" ∉ m.body := by
    intro hclose
    rcases h _ hclose with hempty | hinner
    · revert hempty
      decide
    · exact hbegins hinner rfl rfl
  simp only [opening, List.mem_append, List.mem_cons, List.not_mem_nil, or_false, not_or]
  exact ⟨⟨by decide, hbegins hnotice rfl, by decide, hbegins m.header_begins rfl⟩, hbody⟩

end Method

namespace LibrarySource

variable {s : LibrarySource}

theorem functionTexts_eq (h : ∀ m ∈ s.methods, m.Inner) (hsome : s.methods ≠ []) :
    functionTexts s.lines = s.methods.map (·.lines) := by
  have hended : "" :: separated (s.methods.map (·.lines)) =
      (s.methods.map ("" :: ·.opening)).flatMap (· ++ ["  \x7d"]) := by
    obtain ⟨m, ms, hmethods⟩ := List.exists_cons_of_ne_nil hsome
    rw [hmethods, List.map_cons, separated_cons, ← List.map_cons, List.flatMap_map,
      List.flatMap_map]
    rfl
  have hclose : ∀ piece ∈ s.methods.map ("" :: ·.opening), "  \x7d" ∉ piece := by
    refine List.forall_mem_map.mpr fun m hm => ?_
    exact List.not_mem_cons_of_ne_of_not_mem (by decide) (h m hm).close_notMem
  rw [functionTexts, libraryLines_eq s h, List.tail_cons, hended, splitOn_ended hclose,
    List.dropLast_concat, List.map_map]
  rfl

theorem lines_sublist {ms : List Method} (h : s.methods.Sublist ms) :
    s.lines.Sublist { s with methods := ms }.lines := by
  unfold lines
  refine .append (.append (.append (.refl _) ?_) (.refl _)) (.refl _)
  exact separated_sublist (h.map _)

theorem text_sublist {ms : List Method} (h : s.methods.Sublist ms) :
    (textLines s.text).Sublist (textLines { s with methods := ms }.text) := by
  rw [text, text, textLines_fileText, textLines_fileText]
  exact ((lines_sublist h).append (.refl _)).flatMap _

end LibrarySource

def getterLine (names : List String) (call : String × String) : String :=
  "    " ++ call.1 ++ " = " ++ call.2 ++ "(" ++ argumentList names ++ ");"

/-- What a method that takes the named parameters does on the store that is found, and what another
one does on a store that it takes before them. -/
inductive Redirected (names : List String) : List String → List String → Prop
  | call (front back : List String) (lead rest : String) : Redirected names
    (front ++ (lead ++ "StoreSwitch." ++ rest) :: back)
    (front ++ (lead ++ "_store." ++ rest) :: back)
  | getters (calls : List (String × String)) : Redirected names
    (calls.map (getterLine names)) (calls.map (getterLine ("_store" :: names)))

/-- A method that acts on the store that is found, and one that does the same on a given store. -/
structure Method.Counterpart (m m' : Method) : Prop where
  notice : m'.notice = m.notice
  name : m'.name = m.name
  params : m'.params = ⟨"IStore", "_store"⟩ :: m.params
  effect : m'.effect = m.effect
  body : Redirected (m.params.map (·.name)) m.body m'.body

namespace LibraryOptions

section Counterparts

variable {o : LibraryOptions} {words : List String}

theorem onRecord_redirected {names front back : List String} (lead function tail : String)
    (arguments : List String) : Redirected names
      (front ++ (lead ++ onRecord .found function arguments ++ tail) :: back)
      (front ++ (lead ++ onRecord .given function arguments ++ tail) :: back) := by
  have hcall (s : StoreChoice) : lead ++ onRecord s function arguments ++ tail =
      lead ++ (s.expression ++ ".") ++ (function ++ "(" ++
        String.intercalate ", " ("_tableId" :: "_keyTuple" :: arguments) ++ ")" ++ tail) := by
    simp only [onRecord, String.append_assoc]
  rw [hcall, hcall]
  exact .call front back lead _

theorem register_counterpart : (o.register .found).Counterpart (o.register .given) :=
  ⟨rfl, rfl, rfl, rfl, .call [] [] "    " ("registerTable(_tableId, _fieldLayout, " ++
    "getKeySchema(), getValueSchema(), getKeyNames(), getFieldNames());")⟩

theorem staticMethods_counterpart (f : Field) (i : Nat) :
    List.Forall₂ Method.Counterpart (o.staticMethods words .found f i)
      (o.staticMethods words .given f i) :=
  .cons ⟨rfl, rfl, rfl, rfl, onRecord_redirected ..⟩ <|
    .cons ⟨rfl, rfl, rfl, rfl, onRecord_redirected ..⟩ .nil

theorem pushMethod_counterpart (f : Field) (i : Nat) :
    (o.pushMethod words .found f i).Counterpart (o.pushMethod words .given f i) := by
  unfold pushMethod
  cases f.element with
  | none => exact ⟨rfl, rfl, rfl, rfl, onRecord_redirected ..⟩
  | some t => exact ⟨rfl, rfl, rfl, rfl, onRecord_redirected ..⟩

theorem dynamicMethods_counterpart (f : Field) (i : Nat) :
    List.Forall₂ Method.Counterpart (o.dynamicMethods words .found f i)
      (o.dynamicMethods words .given f i) := by
  unfold dynamicMethods
  refine List.rel_append ?accessors ?lengths
  case accessors =>
    exact .cons ⟨rfl, rfl, rfl, rfl, onRecord_redirected ..⟩ <|
      .cons ⟨rfl, rfl, rfl, rfl, onRecord_redirected ..⟩ .nil
  case lengths =>
    split
    · exact .cons ⟨rfl, rfl, rfl, rfl, onRecord_redirected ..⟩ <|
        .cons (pushMethod_counterpart f i) <|
        .cons ⟨rfl, rfl, rfl, rfl, onRecord_redirected ..⟩ .nil
    · exact .nil

theorem getRecord_counterpart : (o.getRecord .found).Counterpart (o.getRecord .given) := by
  refine ⟨rfl, rfl, rfl, rfl, ?_⟩
  have hbody (s : StoreChoice) : (o.getRecord s).body =
      (o.fields.map fun f => (o.recordValue f, o.accessor "get" f)).map
        (getterLine ((o.recordParams s).map (·.name))) := by
    rw [List.map_map]
    rfl
  rw [hbody, hbody]
  exact .getters _

theorem recordMethods_counterpart : List.Forall₂ Method.Counterpart
    (o.recordMethods words .found) (o.recordMethods words .given) := by
  unfold recordMethods
  refine List.rel_append ?get ?set
  case get =>
    split
    · exact .cons getRecord_counterpart .nil
    · exact .nil
  case set => exact .cons ⟨rfl, rfl, rfl, rfl, onRecord_redirected ..⟩ .nil

def groups (o : LibraryOptions) (words : List String) : List (StoreChoice → List Method) :=
  [fun s => [o.register s]] ++
    (if o.withGetters then
      (o.staticFields.zipIdx.map fun (f, i) s => o.staticMethods words s f i) ++
        o.dynamicFields.zipIdx.map fun (f, i) s => o.dynamicMethods words s f i
    else []) ++
    (if o.withRecordMethods then [o.recordMethods words] else []) ++
    [fun s => [o.deleteRecord words s]]

theorem methods_eq : o.methods words =
    o.schemaMethods ++ (o.groups words).flatMap fun g => o.stores.flatMap g := by
  rw [methods, groups, List.flatMap_append, List.flatMap_append, List.flatMap_append,
    List.flatMap_singleton, List.flatMap_singleton, List.map_eq_flatMap, List.map_eq_flatMap,
    apply_ite (List.flatMap _), apply_ite (List.flatMap _), List.flatMap_append, List.flatMap_map,
    List.flatMap_map, List.flatMap_singleton]
  simp only [List.append_assoc]
  rfl

theorem methods_found (h : o.storeArgument = false) : o.methods words =
    o.schemaMethods ++ (o.groups words).flatMap fun g => g .found := by
  simp only [methods_eq, stores, h, Bool.false_eq_true, if_false, List.flatMap_singleton]

theorem methods_given (h : o.storeArgument = true) : o.methods words =
    o.schemaMethods ++ (o.groups words).flatMap fun g => g .found ++ g .given := by
  simp only [methods_eq, stores, h, if_true, List.flatMap_cons, List.flatMap_nil, List.append_nil]

theorem groups_counterpart : ∀ g ∈ o.groups words,
    List.Forall₂ Method.Counterpart (g .found) (g .given) := by
  simp only [groups, List.forall_mem_append, List.forall_mem_singleton]
  refine ⟨⟨⟨?register, ?fields⟩, ?records⟩, ?delete⟩
  case register => exact .cons register_counterpart .nil
  case fields =>
    split
    · rw [List.forall_mem_append]
      exact ⟨List.forall_mem_map.mpr fun x _ => staticMethods_counterpart x.1 x.2,
        List.forall_mem_map.mpr fun x _ => dynamicMethods_counterpart x.1 x.2⟩
    · simp
  case records =>
    split
    · exact List.forall_mem_singleton.mpr recordMethods_counterpart
    · simp
  case delete => exact .cons ⟨rfl, rfl, rfl, rfl, onRecord_redirected ..⟩ .nil

end Counterparts

theorem source_storeArgument {o : LibraryOptions} {cwd : String} {source : LibrarySource}
    (h : o.source cwd = .ok source) : ∃ words, ∀ given,
      { o with storeArgument := given }.source cwd =
        .ok { source with methods := { o with storeArgument := given }.methods words } := by
  simp only [LibraryOptions.source, bind_eq_ok, mapError_eq_ok, pure_eq_ok] at h ⊢
  obtain ⟨layout, hlayout, words, hwords, rfl⟩ := h
  exact ⟨words, fun given => ⟨layout, hlayout, words, hwords, rfl⟩⟩

end LibraryOptions

/-- The library `b` has all that `a` has, and in addition a counterpart of each function of `a` but
those that tell the schema. -/
structure LibrarySource.Extends (schema : List Method) (a b : LibrarySource) : Prop where
  rest : b = { a with methods := b.methods }
  lines : a.lines.Sublist b.lines ∧
    (textLines (String.intercalate "\n" (a.lines ++ [""]))).Sublist
      (textLines (String.intercalate "\n" (b.lines ++ [""])))
  functions : (functionTexts a.lines).Sublist (functionTexts b.lines)
  texts : functionTexts a.lines = a.methods.map Method.lines ∧
    functionTexts b.lines = b.methods.map Method.lines
  counterparts : ∃ acting counterparts, a.methods = schema ++ acting ∧
    List.Forall₂ Method.Counterpart acting counterparts ∧
    b.methods.Perm (a.methods ++ counterparts)

end SolidityTables

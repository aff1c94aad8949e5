import SolidityTables.Library.Method
import Mathlib.Data.List.DropRight

/-!
# What lines of code say

Some lines of a method are read back: the length for which an array is allocated, the index and the
value that are set in it, and the function of the store that is called for a field of a record with
the index of the field.
-/

namespace SolidityTables.Line

def number? (cs : List Char) : Option (Nat × List Char) :=
  let digits := cs.takeWhile Char.isDigit
  if digits = [] then none else some (Nat.ofDigitChars 10 digits 0, cs.dropWhile Char.isDigit)

def allocation? (declaration line : String) : Option Nat := do
  let rest ← line.toList.dropPrefix? ("    " ++ declaration ++ "[](").toList
  let (n, rest) ← number? rest
  if rest = [')', ';'] then some n else none

def element? (array line : String) : Option (Nat × String) := do
  let rest ← line.toList.dropPrefix? ("    " ++ array ++ "[").toList
  let (i, rest) ← number? rest
  let value ← rest.dropPrefix? [']', ' ', '=', ' ']
  if value.getLast? = some ';' then some (i, String.ofList value.dropLast) else none

def elements (array : String) : List String → List (Nat × String)
  | [] => []
  | line :: lines => match element? array line with
    | some e => e :: elements array lines
    | none => []

/-- The length of an array that is allocated in the first line and filled in the next ones, and what
they set in it. -/
def array? (declaration array : String) : List String → Option (Nat × List (Nat × String))
  | [] => none
  | line :: lines => (allocation? declaration line).map (·, elements array lines)

/-- The function of the store that a line calls for a field of the record, and the index of the
field. -/
def storeCall? (line : String) : Option (String × Nat) := do
  let rest ← (line.toList.dropWhile (· ≠ '(')).dropPrefix? "(_tableId, _keyTuple, ".toList
  let (i, _) ← number? rest
  return (String.ofList ((line.toList.takeWhile (· ≠ '(')).rtakeWhile (· ≠ '.')), i)

theorem number?_toString (n : Nat) {c : Char} (hc : c.isDigit = false) (cs : List Char) :
    number? ((toString n).toList ++ c :: cs) = some (n, c :: cs) := by
  have hdigits : ∀ d ∈ Nat.toDigits 10 n, d.isDigit = true := fun d hd =>
    Nat.isDigit_of_mem_toDigits (by decide) (by decide) hd
  have htext : (toString n).toList = Nat.toDigits 10 n := by simp
  have htake : (Nat.toDigits 10 n ++ c :: cs).takeWhile Char.isDigit = Nat.toDigits 10 n := by
    rw [List.takeWhile_append_of_pos hdigits, List.takeWhile_cons_of_neg (by simp [hc]),
      List.append_nil]
  have hdrop : (Nat.toDigits 10 n ++ c :: cs).dropWhile Char.isDigit = c :: cs := by
    rw [List.dropWhile_append_of_pos hdigits, List.dropWhile_cons_of_neg (by simp [hc])]
  rw [htext, number?, htake, hdrop, if_neg Nat.toDigits_ne_nil, Nat.ofDigitChars_ten_toDigits]

theorem allocation?_line (declaration : String) (n : Nat) :
    allocation? declaration ("    " ++ declaration ++ "[](" ++ toString n ++ ");") = some n := by
  have htail : (");" : String).toList = ')' :: [';'] := rfl
  rw [allocation?, String.toList_append, String.toList_append, List.append_assoc,
    List.dropPrefix?_append_of_beq _ (beq_self_eq_true _), Option.bind_eq_bind, Option.bind_some,
    htail, number?_toString n (by decide)]
  rfl

theorem element?_line (array : String) (i : Nat) (value : String) :
    element? array ("    " ++ array ++ "[" ++ toString i ++ "] = " ++ value ++ ";") =
      some (i, value) := by
  have hequals : ("] = " : String).toList = ']' :: [' ', '=', ' '] := rfl
  have hend : (";" : String).toList = [';'] := rfl
  have htext : ("    " ++ array ++ "[" ++ toString i ++ "] = " ++ value ++ ";").toList =
      ("    " ++ array ++ "[").toList ++ ((toString i).toList ++ ']' :: ([' ', '=', ' '] ++
        (value.toList ++ [';']))) := by
    simp only [String.toList_append, hequals, hend, List.append_assoc, List.cons_append]
  have hvalue : ([']', ' ', '=', ' '] ++ (value.toList ++ [';'])).dropPrefix? [']', ' ', '=', ' '] =
      some (value.toList ++ [';']) := List.dropPrefix?_append_of_beq _ (beq_self_eq_true _)
  rw [element?, htext, List.dropPrefix?_append_of_beq _ (beq_self_eq_true _), Option.bind_eq_bind,
    Option.bind_some, number?_toString i (by decide), Option.bind_eq_bind, Option.bind_some]
  dsimp only
  rw [← List.cons_append, hvalue, Option.bind_some, List.getLast?_concat, List.dropLast_concat,
    String.ofList_toList]
  rfl

def numbered (values : List String) : List (Nat × String) :=
  values.zipIdx.map fun (value, i) => (i, value)

theorem elements_elementLines {array : String} {values rest : List String}
    (hrest : ∀ line ∈ rest.head?, element? array line = none) :
    elements array (elementLines array values ++ rest) = numbered values := by
  have hfrom (k : Nat) : elements array
      ((values.zipIdx k).map (fun (value, i) =>
        "    " ++ array ++ "[" ++ toString i ++ "] = " ++ value ++ ";") ++ rest) =
      (values.zipIdx k).map fun (value, i) => (i, value) := by
    induction values generalizing k with
    | nil =>
      cases rest with
      | nil => rfl
      | cons line rest =>
        rw [List.zipIdx_nil, List.map_nil, List.nil_append, elements, hrest line rfl]
        rfl
    | cons value values ih =>
      rw [List.zipIdx_cons, List.map_cons, List.map_cons, List.cons_append, elements,
        element?_line]
      exact congrArg (List.cons (k, value)) (ih (k + 1))
  exact hfrom 0

theorem array?_lines (declaration array : String) (n : Nat) (values rest : List String)
    (hrest : ∀ line ∈ rest.head?, element? array line = none) :
    array? declaration array (("    " ++ declaration ++ "[](" ++ toString n ++ ");") ::
      (elementLines array values ++ rest)) = some (n, numbered values) := by
  rw [array?, allocation?_line, elements_elementLines hrest, Option.map_some]

theorem array?_all_lines (declaration array : String) (n : Nat) (values : List String) :
    array? declaration array (("    " ++ declaration ++ "[](" ++ toString n ++ ");") ::
      elementLines array values) = some (n, numbered values) := by
  rw [← array?_lines declaration array n values [] (by simp), List.append_nil]

example : array? "keyNames = new string" "keyNames"
    ["    keyNames = new string[](2);", "    keyNames[0] = \"x\";", "    keyNames[1] = \"y\";"] =
      some (2, [(0, "\"x\""), (1, "\"y\"")]) := by decide +kernel

theorem expression_toList (s : StoreChoice) : '(' ∉ s.expression.toList := by
  cases s <;> decide

theorem rtakeWhile_after_dot {front function : List Char} (h : '.' ∉ function) :
    (front ++ '.' :: function).rtakeWhile (· ≠ '.') = function := by
  have hfunction : ∀ c ∈ function.reverse, (decide (c ≠ '.')) = true := by
    intro c hc
    rw [decide_eq_true_eq]
    intro hh
    subst hh
    exact h (List.mem_reverse.mp hc)
  rw [List.rtakeWhile, List.reverse_append, List.reverse_cons, List.append_assoc,
    List.takeWhile_append_of_pos hfunction, List.singleton_append,
    List.takeWhile_cons_of_neg (by simp), List.append_nil, List.reverse_reverse]

theorem exists_arguments (i : Nat) (arguments : List String) (tail : String) : ∃ c cs,
    c.isDigit = false ∧
      (String.intercalate ", " ("_tableId" :: "_keyTuple" :: toString i :: arguments) ++ ")" ++
        tail).toList = "_tableId, _keyTuple, ".toList ++ ((toString i).toList ++ c :: cs) := by
  cases arguments with
  | nil =>
    refine ⟨')', tail.toList, by decide, ?_⟩
    simp [String.intercalate_cons_cons, String.intercalate_singleton]
  | cons argument arguments =>
    refine ⟨',', ' ' :: (String.intercalate ", " (argument :: arguments) ++ ")" ++ tail).toList,
      by decide, ?_⟩
    simp [String.intercalate_cons_cons]

theorem storeCall?_onRecord {lead function : String} (s : StoreChoice) (i : Nat)
    (arguments : List String) (tail : String) (hlead : '(' ∉ lead.toList)
    (hfunction : '(' ∉ function.toList) (hdot : '.' ∉ function.toList) :
    storeCall? (lead ++ LibraryOptions.onRecord s function (toString i :: arguments) ++ tail) =
      some (function, i) := by
  obtain ⟨c, cs, hc, hcall⟩ := exists_arguments i arguments tail
  have hline : (lead ++ LibraryOptions.onRecord s function (toString i :: arguments) ++
      tail).toList = (lead.toList ++ s.expression.toList ++ '.' :: function.toList) ++
        ('(' :: ("_tableId, _keyTuple, ".toList ++ ((toString i).toList ++ c :: cs))) := by
    rw [← hcall]
    simp [LibraryOptions.onRecord]
  have hfront : ∀ d ∈ lead.toList ++ s.expression.toList ++ '.' :: function.toList,
      decide (d ≠ '(') = true := by
    intro d hd
    rw [decide_eq_true_eq]
    intro hh
    subst hh
    simp [hlead, hfunction, expression_toList] at hd
  have harguments : ('(' :: ("_tableId, _keyTuple, ".toList ++ ((toString i).toList ++ c :: cs))) =
      "(_tableId, _keyTuple, ".toList ++ ((toString i).toList ++ c :: cs) := rfl
  rw [storeCall?, hline, List.dropWhile_append_of_pos hfront, List.takeWhile_append_of_pos hfront,
    List.dropWhile_cons_of_neg (by simp), List.takeWhile_cons_of_neg (by simp), List.append_nil,
    rtakeWhile_after_dot hdot, harguments, List.dropPrefix?_append_of_beq _ (beq_self_eq_true _),
    Option.bind_eq_bind, Option.bind_some, number?_toString i hc, String.ofList_toList]
  rfl

example : storeCall?
    "    StoreSwitch.popFromDynamicField(_tableId, _keyTuple, 12, 1);" =
      some ("popFromDynamicField", 12) := by decide +kernel

end SolidityTables.Line

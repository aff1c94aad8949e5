import SolidityTables.Library.Source
import SolidityTables.Proofs.Attempt
import SolidityTables.Proofs.Split

/-!
# What a library file holds

The text of a library holds the line of its field layout and the lines of each of its methods: the
one in which it begins, its body and the one that closes it.
-/

namespace SolidityTables

open Attempt

theorem fileText_cons (line : String) (lines : List String) :
    fileText (line :: lines) = line ++ "\n" ++ fileText lines := by
  rw [fileText, fileText, List.cons_append]
  cases lines with
  | nil => rfl
  | cons next lines => exact String.intercalate_cons_cons ..

theorem fileText_append_inj {front lines others : List String} :
    fileText (front ++ lines) = fileText (front ++ others) ↔ fileText lines = fileText others := by
  induction front with
  | nil => rfl
  | cons line front ih =>
    rw [List.cons_append, List.cons_append, fileText_cons, fileText_cons, String.append_right_inj, ih]

/-- The lines of a text; what stands behind the last line feed counts as one. -/
def textLines (text : String) : List String :=
  cut '\n' text

theorem textLines_fileText_iff {lines : List String} :
    textLines (fileText lines) = lines ++ [""] ↔ ∀ line ∈ lines, '\n' ∉ line.toList := by
  have hempty : '\n' ∉ ("" : String).toList := List.not_mem_nil
  rw [textLines, fileText, cut_intercalate_iff rfl (by simp), List.forall_mem_append,
    List.forall_mem_singleton, and_iff_left hempty]

theorem infix_separated {g : List String} {gs : List (List String)} (h : g ∈ gs) :
    g <:+: separated gs := by
  induction gs using separated.induct with
  | case1 => cases h
  | case2 g' =>
    rw [List.mem_singleton.mp h]
    exact List.infix_rfl
  | case3 g' h' rest ih =>
    rw [separated]
    rcases List.mem_cons.mp h with rfl | h
    · exact (List.prefix_append _ _).isInfix
    · exact (ih h).trans ((List.suffix_cons _ _).trans (List.suffix_append _ _)).isInfix

structure Signature where
  name : String
  params : List Parameter
  deriving DecidableEq

inductive IsEffect : String → Prop
  | change : IsEffect ""
  | pure (returns : String) : IsEffect (" pure returns (" ++ returns ++ ")")
  | view (returns : String) : IsEffect (" view returns (" ++ returns ++ ")")

/-- A function begins in the line of a library that tells its name and what it takes. -/
def Signature.BeginsIn (f : Signature) (line : String) : Prop :=
  ∃ effect, IsEffect effect ∧ line = "  function " ++ f.name ++ "(" ++
    String.intercalate ", " (f.params.map fun p => p.type ++ " " ++ p.name) ++ ") internal" ++
      effect ++ " \x7b"

namespace Method

def signature (m : Method) : Signature := ⟨m.name, m.params⟩

def header (m : Method) : String :=
  "  function " ++ m.name ++ "(" ++ argumentList (m.params.map (·.text)) ++ ") internal" ++
    m.effect.text ++ " \x7b"

theorem lines_eq (m : Method) : m.lines =
    ["  /**", "   * @notice " ++ m.notice, "   */"] ++ m.header :: (m.body ++ ["  \x7d"]) := rfl

theorem signature_beginsIn (m : Method) : m.signature.BeginsIn m.header := by
  have hparams : (m.params.map (·.text)).filter (· ≠ "") = m.params.map (·.text) := by
    rw [List.filter_eq_self]
    intro text htext
    obtain ⟨p, -, rfl⟩ := List.mem_map.mp htext
    simp [Parameter.text]
  have heffect : IsEffect m.effect.text := by
    cases m.effect with
    | pure returns => exact .pure returns
    | view returns => exact .view returns
    | change => exact .change
  refine ⟨_, heffect, ?_⟩
  rw [header, argumentList, hparams]
  rfl

end Method

namespace LibrarySource

variable (s : LibrarySource)

theorem fieldLayout_mem_lines :
    "FieldLayout constant _fieldLayout = FieldLayout.wrap(" ++ s.fieldLayout ++ ");" ∈ s.lines := by
  simp [lines]

theorem method_infix_lines {m : Method} (hm : m ∈ s.methods) :
    m.header :: (m.body ++ ["  \x7d"]) <:+: s.lines := by
  have hmethod := infix_separated (List.mem_map_of_mem (f := Method.lines) hm)
  rw [m.lines_eq] at hmethod
  refine (List.suffix_append _ _).isInfix.trans (hmethod.trans ?_)
  unfold lines
  rw [List.append_assoc _ ["\x7d"]]
  exact List.infix_append _ _ _

end LibrarySource

theorem LibraryOptions.source_eq_ok {o : LibraryOptions} {cwd : String} {source : LibrarySource}
    (h : o.source cwd = .ok source) : o.fieldLayout = .ok source.fieldLayout ∧
      ∃ words, o.keyWords = .ok words ∧ source.methods = o.methods words := by
  simp only [LibraryOptions.source, bind_eq_ok, mapError_eq_ok, pure_eq_ok] at h
  obtain ⟨layout, hlayout, words, hwords, rfl⟩ := h
  exact ⟨hlayout, words, hwords, rfl⟩

theorem LibraryOptions.render_ne_index {o : LibraryOptions} {cwd text : String}
    (h : o.render cwd = .ok text) (files : List LibraryFile) : text ≠ indexText files := by
  obtain ⟨source, -, rfl⟩ := map_eq_ok.mp h
  have hlines : ∃ rest, source.lines =
      (fileHeader ++ [""]) ++ "// Import store internals" :: rest := by
    simp only [LibrarySource.lines, List.append_assoc]
    exact ⟨_, rfl⟩
  obtain ⟨rest, hlines⟩ := hlines
  have hindex : indexText files =
      fileText ((fileHeader ++ [""]) ++ files.map fun f => f.indexLine.text) := by
    rw [indexText, List.append_assoc]
    rfl
  rw [LibrarySource.text, hlines, hindex, ne_eq, fileText_append_inj, fileText_cons]
  intro hh
  have hhead := congrArg (fun text => text.toList.head?) hh
  cases files with
  | nil =>
    simp only [String.toList_append, List.append_assoc] at hhead
    cases hhead
  | cons file files =>
    rw [List.map_cons, fileText_cons, ImportLine.text] at hhead
    simp only [String.toList_append, List.append_assoc] at hhead
    cases hhead

end SolidityTables

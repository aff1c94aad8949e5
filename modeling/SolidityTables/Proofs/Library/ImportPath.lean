import SolidityTables.Proofs.Library.Imports
import SolidityTables.Proofs.Path.Normal

/-!
# Paths of imports

The path of an import that is not from a package is the way between the absolute forms of its
directory and its target, so it leads to the target if it is followed from the directory. It is
spelled as a relative path unless the target lies below the directory by a name that begins with a
dot, which is then taken for the dot of a relative path.
-/

namespace SolidityTables

namespace Import

variable {cwd p : String} {i : Import}

theorem isPackage_iff : isPackage p = true ↔ p.toList.head? ≠ some '.' ∧ '@' ∈ p.toList := by
  simp [isPackage]

theorem isPackage_eq_false_iff :
    isPackage p = false ↔ p.toList.head? = some '.' ∨ '@' ∉ p.toList := by
  rw [← Bool.not_eq_true, isPackage_iff, not_and_or, not_not]

theorem path_eq_way (hcwd : Path.isAbsolute cwd = true) (h : isPackage i.target = false) :
    i.path cwd = dotted (Path.relative (Path.between
      (Path.components (Path.absolute cwd i.directory))
      (Path.components (Path.absolute cwd i.target)))) := by
  rw [path, h, Path.components_absolute hcwd, Path.components_absolute hcwd]
  rfl

theorem resolve_dotted (h : Path.isAbsolute p = false) (dir : List String) :
    Path.resolve dir (dotted p) = Path.resolve dir p := by
  rw [dotted]
  split_ifs
  · rfl
  · rw [Path.resolve_dot_slash, Path.resolve_relative h]

/-- The path of an import that is not from a package is a way between normal forms, which there is
from every directory to every target, and leads to the target. That of a package is left as it
is. -/
theorem path_denotes (cwd : String) (hcwd : Path.isAbsolute cwd = true) (i : Import) :
    (i.target.toList.head? = some '.' ∨ '@' ∉ i.target.toList →
      ∃ way, Path.wayTo? cwd (Path.normal i.target) (Path.normal i.directory) = some way ∧
        i.path cwd = dotted way ∧
        Path.resolve (Path.components (Path.absolute cwd i.directory)) (i.path cwd) =
          Path.components (Path.absolute cwd i.target)) ∧
    (i.target.toList.head? ≠ some '.' → '@' ∈ i.target.toList → i.path cwd = i.target) := by
  constructor
  · intro h
    have hpath := path_eq_way hcwd (isPackage_eq_false_iff.mpr h)
    have hnames := Path.absolute_names hcwd i.target
    refine ⟨_, Path.wayTo?_normal hcwd i.target i.directory, hpath, ?_⟩
    rw [hpath, resolve_dotted (Path.isAbsolute_between hnames _), Path.resolve_between hnames]
  · intro hdot hat
    exact path_of_package (isPackage_iff.mpr ⟨hdot, hat⟩) cwd

theorem path_denotes_detours :
    Path.resolve ["gen", "tables"]
      (path "/work" ⟨"Id", "../..//lib/./Id.sol", "/gen//x/../tables"⟩) = ["lib", "Id.sol"] ∧
    path "/work" ⟨"Id", "@org/lib/Id.sol", "gen/tables"⟩ = "@org/lib/Id.sol" := by
  have hdirectory : Path.components (Path.absolute "/work" "/gen//x/../tables") =
      ["gen", "tables"] := by decide +kernel
  have htarget : Path.components (Path.absolute "/work" "../..//lib/./Id.sol") =
      ["lib", "Id.sol"] := by decide +kernel
  obtain ⟨hway, -⟩ := path_denotes "/work" (by decide)
    ⟨"Id", "../..//lib/./Id.sol", "/gen//x/../tables"⟩
  obtain ⟨_, -, -, hleads⟩ := hway (.inl (by decide))
  rw [hdirectory, htarget] at hleads
  exact ⟨hleads, (path_denotes "/work" (by decide) ⟨"Id", "@org/lib/Id.sol", "gen/tables"⟩).2
    (by decide) (by decide)⟩

/-- A path is spelled as one that is relative to the importing file. -/
def IsSpelledRelative (p : String) : Prop :=
  p = "." ∨ p = ".." ∨ "./".toList <+: p.toList ∨ "../".toList <+: p.toList

instance (p : String) : Decidable (IsSpelledRelative p) :=
  inferInstanceAs (Decidable (_ ∨ _))

section Spelling

variable {c : String} {rest : List String} {start target : List String}

theorem isSpelledRelative_dot_slash (p : String) : IsSpelledRelative ("./" ++ p) :=
  .inr (.inr (.inl (String.toList_append ▸ List.prefix_append _ _)))

theorem isSpelledRelative_up (rest : List String) :
    IsSpelledRelative (String.intercalate "/" (".." :: rest)) := by
  cases rest with
  | nil =>
    rw [String.intercalate_singleton]
    exact .inr (.inl rfl)
  | cons c rest =>
    rw [String.intercalate_cons_cons]
    exact .inr (.inr (.inr (String.toList_append ▸ List.prefix_append _ _)))

theorem IsSpelledRelative.head (h : IsSpelledRelative p) :
    (Path.pieces p).head? = some "." ∨ (Path.pieces p).head? = some ".." := by
  have hslash {lead : String} (hlead : '/' ∉ lead.toList) {tail : List Char}
      (hp : (lead ++ "/").toList ++ tail = p.toList) : (Path.pieces p).head? = some lead := by
    have htext : p = lead ++ "/" ++ String.ofList tail := by
      rw [← String.toList_inj, String.toList_append, String.toList_ofList, hp]
    rw [htext, Path.pieces_slash, Path.pieces_of_no_slash hlead]
    rfl
  rcases h with rfl | rfl | ⟨tail, hp⟩ | ⟨tail, hp⟩
  · exact .inl (by decide)
  · exact .inr (by decide)
  · exact .inl (hslash (by decide) hp)
  · exact .inr (hslash (by decide) hp)

theorem isSpelledRelative_down (h : ∀ d ∈ c :: rest, Path.IsName d) :
    IsSpelledRelative (dotted (String.intercalate "/" (c :: rest))) ↔
      c.toList.head? ≠ some '.' := by
  have hc := h c (List.mem_cons_self ..)
  rw [dotted, Path.head?_intercalate hc.nonempty]
  split_ifs with hdot
  · refine iff_of_false (fun hh => ?_) (not_not_intro hdot)
    have hhead := hh.head
    rw [Path.pieces_intercalate (List.cons_ne_nil _ _) fun d hd => (h d hd).no_slash,
      List.head?_cons, Option.some_inj, Option.some_inj] at hhead
    exact hhead.elim hc.not_dot hc.not_dots
  · exact iff_of_true (isSpelledRelative_dot_slash _) hdot

theorem isSpelledRelative_between (h : ∀ d ∈ target, Path.IsName d) (start : List String) :
    IsSpelledRelative (dotted (Path.relative (Path.between start target))) ↔
      ∀ c rest, target = start ++ c :: rest → c.toList.head? ≠ some '.' := by
  by_cases hbelow : start <+: target
  · obtain ⟨down, rfl⟩ := hbelow
    rw [Path.between_prefix]
    cases down with
    | nil => exact iff_of_true (.inl rfl) (by simp)
    | cons c rest =>
      have hdown := isSpelledRelative_down fun d hd => h d (List.mem_append_right _ hd)
      rw [Path.relative, if_neg (List.cons_ne_nil _ _), hdown]
      constructor
      · intro hc d rest' hd
        obtain ⟨rfl, -⟩ := List.cons.inj (List.append_cancel_left hd)
        exact hc
      · intro hall
        exact hall c rest rfl
  · obtain ⟨rest, hway⟩ := Path.between_up hbelow
    have hdots : (".." : String).toList.head? = some '.' := rfl
    rw [hway, Path.relative, if_neg (List.cons_ne_nil _ _), dotted,
      Path.head?_intercalate (by decide), if_pos hdots]
    refine iff_of_true (isSpelledRelative_up rest) fun c rest htarget => ?_
    exact absurd (htarget ▸ List.prefix_append _ _) hbelow

end Spelling

/-- The path of an import that is not from a package is spelled as a relative one just if the target
does not lie below the directory by a name that begins with a dot. If it does, the path is the way
down from the directory as it stands. -/
theorem path_spelled_iff (cwd : String) (hcwd : Path.isAbsolute cwd = true) (i : Import)
    (h : i.target.toList.head? = some '.' ∨ '@' ∉ i.target.toList) :
    (IsSpelledRelative (i.path cwd) ↔ ∀ c rest, Path.components (Path.absolute cwd i.target) =
      Path.components (Path.absolute cwd i.directory) ++ c :: rest → c.toList.head? ≠ some '.') ∧
    ∀ c rest, Path.components (Path.absolute cwd i.target) =
      Path.components (Path.absolute cwd i.directory) ++ c :: rest → c.toList.head? = some '.' →
        i.path cwd = String.intercalate "/" (c :: rest) := by
  have hpath := path_eq_way hcwd (isPackage_eq_false_iff.mpr h)
  have hnames := Path.absolute_names hcwd i.target
  constructor
  · rw [hpath]
    exact isSpelledRelative_between hnames _
  · intro c rest htarget hdot
    have hc := hnames c (htarget ▸ List.mem_append_right _ (List.mem_cons_self ..))
    rw [hpath, htarget, Path.between_prefix, Path.relative, if_neg (List.cons_ne_nil _ _), dotted,
      Path.head?_intercalate hc.nonempty, if_pos hdot]

theorem path_spelled_iff_common :
    IsSpelledRelative (path "/work" ⟨"Rank", "codegen/common.sol", "codegen/tables"⟩) := by
  have hdirectory : Path.components (Path.absolute "/work" "codegen/tables") =
      ["work", "codegen", "tables"] := by decide +kernel
  have htarget : Path.components (Path.absolute "/work" "codegen/common.sol") =
      ["work", "codegen", "common.sol"] := by decide +kernel
  obtain ⟨hspelled, -⟩ := path_spelled_iff "/work" (by decide)
    ⟨"Rank", "codegen/common.sol", "codegen/tables"⟩ (.inr (by decide))
  rw [hspelled, hdirectory, htarget]
  intro c rest hbelow
  simp at hbelow

/-- A file beside the library whose name begins with a dot is imported by its bare name. -/
theorem hidden_bare : path "/work" ⟨"Id", "codegen/tables/.Id.sol", "codegen/tables"⟩ = ".Id.sol" ∧
    isPackage "codegen/tables/.Id.sol" = false ∧ ¬IsSpelledRelative ".Id.sol" := by
  decide +kernel

end Import

end SolidityTables

import Mathlib.Data.List.Infix

/-!
# Texts in pieces

A text is cut wherever a character occurs. No piece holds that character, and pieces that are put
together with it are found again just if none of them holds it.
-/

namespace SolidityTables

def cut (sep : Char) (s : String) : List String :=
  (s.toList.splitOn sep).map String.ofList

variable {sep : Char} {s mark : String} {parts : List String}

theorem notMem_of_mem_splitOn {cs piece : List Char} (h : piece ∈ cs.splitOn sep) :
    sep ∉ piece := by
  induction cs generalizing piece with
  | nil =>
    rw [List.splitOn_nil, List.mem_singleton] at h
    rw [h]
    exact List.not_mem_nil
  | cons c cs ih =>
    rw [List.splitOn_cons_eq_if_modifyHead] at h
    by_cases hc : c = sep
    · rw [if_pos (beq_iff_eq.mpr hc)] at h
      rcases List.mem_cons.mp h with rfl | h
      · exact List.not_mem_nil
      · exact ih h
    · rw [if_neg (by simpa using hc)] at h
      cases hrest : cs.splitOn sep with
      | nil => exact absurd hrest (List.splitOn_ne_nil _ _)
      | cons first rest =>
        rw [hrest] at h ih
        rcases List.mem_cons.mp h with rfl | h
        · have hfirst := ih (List.mem_cons_self ..)
          simp only [List.mem_cons, not_or]
          exact ⟨Ne.symm hc, hfirst⟩
        · exact ih (List.mem_cons_of_mem _ h)

theorem notMem_of_mem_cut {piece : String} (h : piece ∈ cut sep s) : sep ∉ piece.toList := by
  obtain ⟨cs, hcs, rfl⟩ := List.mem_map.mp h
  rw [String.toList_ofList]
  exact notMem_of_mem_splitOn hcs

theorem splitOn_ended {α : Type} [BEq α] [LawfulBEq α] {sep : α} {pieces : List (List α)}
    (h : ∀ piece ∈ pieces, sep ∉ piece) :
    (pieces.flatMap (· ++ [sep])).splitOn sep = pieces ++ [[]] := by
  induction pieces with
  | nil => rfl
  | cons piece pieces ih =>
    obtain ⟨hpiece, hpieces⟩ := List.forall_mem_cons.mp h
    have hsplit : (piece ++ sep :: pieces.flatMap (· ++ [sep])).splitOn sep =
        piece.splitOn sep ++ (pieces.flatMap (· ++ [sep])).splitOn sep :=
      List.splitOnP_append_cons _ _ (beq_self_eq_true sep)
    rw [List.flatMap_cons, List.append_assoc, List.singleton_append, hsplit, ih hpieces,
      List.splitOn_eq_singleton hpiece]
    rfl

theorem cut_eq_singleton (h : sep ∉ s.toList) : cut sep s = [s] := by
  rw [cut, List.splitOn_eq_singleton h, List.map_singleton, String.ofList_toList]

theorem cut_intercalate (hmark : mark.toList = [sep]) (hparts : parts ≠ []) :
    cut sep (String.intercalate mark parts) = parts.flatMap (cut sep) := by
  induction parts with
  | nil => exact absurd rfl hparts
  | cons first rest ih =>
    cases rest with
    | nil => rw [String.intercalate_singleton, List.flatMap_singleton]
    | cons next rest =>
      have hjoined : cut sep (first ++ mark ++ String.intercalate mark (next :: rest)) =
          cut sep first ++ cut sep (String.intercalate mark (next :: rest)) := by
        rw [cut, cut, cut, ← List.map_append, String.toList_append, String.toList_append, hmark,
          List.append_assoc, List.singleton_append]
        exact congrArg _ (List.splitOnP_append_cons _ _ (beq_self_eq_true sep))
      rw [String.intercalate_cons_cons, hjoined, ih (List.cons_ne_nil next rest)]
      rfl

theorem cut_intercalate_iff (hmark : mark.toList = [sep]) (hparts : parts ≠ []) :
    cut sep (String.intercalate mark parts) = parts ↔ ∀ c ∈ parts, sep ∉ c.toList := by
  constructor
  · intro h c hc
    rw [← h] at hc
    exact notMem_of_mem_cut hc
  · intro h
    rw [cut_intercalate hmark hparts, List.flatMap_congr fun c hc => cut_eq_singleton (h c hc),
      List.flatMap_singleton']

end SolidityTables

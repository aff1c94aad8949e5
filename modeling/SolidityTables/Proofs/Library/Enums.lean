import SolidityTables.Proofs.Library.Planning
import SolidityTables.Proofs.Library.Source

/-!
# Numbers of enum members

The members of an enum are numbered in their order from zero, and are declared one in a line in this
order, so the place of a line is the number of its member. A member is any text: if it holds a line
feed then its line is broken, and the members after it come to stand in other places.
-/

namespace SolidityTables

/-- The numbers of the members of an enum: each has its place, which fits into a byte. -/
structure Numbers (members : List String) (values : List (String × Nat)) : Prop where
  order : values.map (·.1) = members
  places : values.map (·.2) = List.range members.length
  inverse : ∀ m i, values.lookup m = some i ↔ members[i]? = some m
  byte : ∀ v ∈ values, v.2 < 256

/-- The lines that declare an enum, after an empty one: each member stands in the line that its
number says, and all but the last with a comma. -/
structure DeclaresEnum (name : String) (values : List (String × Nat)) (lines : List String) :
    Prop where
  opening : lines.take 2 = ["", "enum " ++ name ++ " \x7b"]
  members : ∀ v ∈ values, lines[v.2 + 2]? =
    some ("  " ++ v.1 ++ if v.2 + 1 = values.length then "" else ",")
  closing : lines.drop (values.length + 2) = ["\x7d"]

section Enum

variable {name : String} {members : List String}

theorem numbers_zipIdx (hfew : members.length ≤ 256) (hdistinct : members.Nodup) :
    Numbers members members.zipIdx := by
  have hkeys : (members.zipIdx.map (·.1)).Nodup := by rwa [List.zipIdx_map_fst]
  refine ⟨List.zipIdx_map_fst .., ?_, fun m i => ?_, fun v hv => ?_⟩
  · rw [List.zipIdx_map_snd, List.range_eq_range']
  · rw [lookup_eq_some_iff_mem hkeys, List.mk_mem_zipIdx_iff_getElem?]
  · have hplace := List.snd_lt_of_mem_zipIdx hv
    omega

theorem declaresEnum_enumLines (name : String) (members : List String) :
    DeclaresEnum name members.zipIdx (enumLines name members) := by
  refine ⟨rfl, fun v hv => ?_, ?_⟩
  · have hplace := List.snd_lt_of_mem_zipIdx hv
    rw [List.mem_zipIdx_iff_getElem?] at hv
    rw [enumLines, List.append_assoc, List.cons_append, List.cons_append, List.nil_append,
      List.getElem?_cons_succ, List.getElem?_cons_succ, List.getElem?_append_left (by simpa),
      List.getElem?_map, List.getElem?_zipIdx, hv, List.length_zipIdx]
    by_cases hlast : v.2 + 1 = members.length
    · simp [hlast]
    · have hnext : v.2 + 1 < members.length := by omega
      simp [hlast, hnext]
  · rw [enumLines]
    refine List.drop_left' ?_
    rw [List.length_append, List.length_map, Nat.add_comm]
    rfl

theorem enumLines_unbroken : (∀ line ∈ enumLines name members, '\n' ∉ line.toList) ↔
    ∀ n ∈ name :: members, '\n' ∉ n.toList := by
  have hopening : '\n' ∉ ("enum " ++ name ++ " \x7b").toList ↔ '\n' ∉ name.toList := by simp
  have hmember (x : String × Nat) : '\n' ∉ ("  " ++ x.1 ++
      if x.2 + 1 < members.length then "," else "").toList ↔ '\n' ∉ x.1.toList := by
    split_ifs <;> simp
  have hmembers : (∀ x ∈ members.zipIdx, '\n' ∉ x.1.toList) ↔ ∀ m ∈ members, '\n' ∉ m.toList := by
    have hnames := List.forall_mem_map (l := members.zipIdx) (f := Prod.fst)
      (P := fun m : String => '\n' ∉ m.toList)
    rw [List.zipIdx_map_fst] at hnames
    exact hnames.symm
  simp only [enumLines, List.forall_mem_append, List.forall_mem_map, List.forall_mem_cons,
    hopening, hmember, hmembers]
  simp

end Enum

/-- The members of every enum of an accepted store are numbered in order from zero and declared in
this order, one to a line. These are the lines of the text just if no name holds a line feed. -/
theorem Store.enums_numbered (s : Store) (hs : s.Accepted) :
    (∀ e ∈ s.enums, 1 ≤ e.2.length ∧ e.2.length ≤ 256 ∧ e.2.Nodup) ∧
    List.Forall₂ (fun e v => v.1 = e.1 ∧ Numbers e.2 v.2) s.enums s.enumValues ∧
    ∃ blocks, List.Forall₂ (fun v lines => DeclaresEnum v.1 v.2 lines) s.enumValues blocks ∧
      s.userTypesText = fileText (fileHeader ++ blocks.flatten) ∧
      (textLines s.userTypesText = fileHeader ++ blocks.flatten ++ [""] ↔
        ∀ e ∈ s.enums, ∀ n ∈ e.1 :: e.2, '\n' ∉ n.toList) := by
  refine ⟨fun e he => ?_, ?_, s.enums.map fun e => enumLines e.1 e.2, ?_, ?_, ?_⟩
  · obtain ⟨hsome, hfew, hdistinct⟩ := hs.members e he
    exact ⟨List.length_pos_iff.mpr hsome, hfew, hdistinct⟩
  · rw [enumValues, List.forall₂_map_right_iff, List.forall₂_same]
    intro e he
    obtain ⟨-, hfew, hdistinct⟩ := hs.members e he
    exact ⟨rfl, numbers_zipIdx hfew hdistinct⟩
  · rw [enumValues, List.forall₂_map_left_iff, List.forall₂_map_right_iff, List.forall₂_same]
    exact fun e _ => declaresEnum_enumLines e.1 e.2
  · rfl
  · have hheader : ∀ line ∈ fileHeader, '\n' ∉ line.toList := by decide
    change textLines (fileText (fileHeader ++ (s.enums.map fun e => enumLines e.1 e.2).flatten)) =
      _ ↔ _
    rw [textLines_fileText_iff, List.forall_mem_append, and_iff_right hheader,
      List.forall_mem_flatten, List.forall_mem_map]
    simp only [enumLines_unbroken]

theorem Store.enums_numbered_items : ∃ block,
    DeclaresEnum "Rank" [("Low", 0), ("High", 1)] block ∧
      textLines itemStore.userTypesText = fileHeader ++ block ++ [""] := by
  obtain ⟨-, -, blocks, hblocks, -, hlines⟩ := Store.enums_numbered itemStore itemStore_accepted
  have hvalues : itemStore.enumValues = [("Rank", [("Low", 0), ("High", 1)])] := rfl
  rw [hvalues] at hblocks
  rcases hblocks with _ | ⟨hblock, hnil⟩
  cases hnil
  refine ⟨_, hblock, ?_⟩
  rw [hlines.mpr (by decide), List.flatten_singleton]

def broken : Json.Members :=
  [("enums", .obj [("Rank", .arr [.str "Low,\n  High", .str "Top"])])]

def brokenStore : Store where
  space := ""
  tables := []
  userTypes := []
  enums := [("Rank", ["Low,\n  High", "Top"])]
  codegen := ⟨"@latticexyz/store/src/", "common.sol", "codegen", "index.sol"⟩

/-- A member with a line feed moves those after it to lines with other numbers than their own. -/
theorem Store.enums_broken : Store.define broken = .ok brokenStore ∧ brokenStore.Accepted ∧
    brokenStore.enumValues = [("Rank", [("Low,\n  High", 0), ("Top", 1)])] ∧
    textLines brokenStore.userTypesText = fileHeader ++
      ["", "enum Rank \x7b", "  Low,", "  High,", "  Top", "\x7d"] ++ [""] ∧
    ¬∃ block, DeclaresEnum "Rank" [("Low,\n  High", 0), ("Top", 1)] block ∧
      textLines brokenStore.userTypesText = fileHeader ++ block ++ [""] := by
  have hdefine : Store.define broken = .ok brokenStore := by decide +kernel
  refine ⟨hdefine, .store (by simp [broken]) hdefine, rfl, by decide +kernel, ?_⟩
  rintro ⟨block, hblock, hlines⟩
  have hmember := List.mem_of_getElem? (hblock.members _ (List.mem_cons_self ..))
  have hline : "  Low,\n  High," ∈ textLines brokenStore.userTypesText := by
    rw [hlines]
    exact List.mem_append_left _ (List.mem_append_right _ hmember)
  exact notMem_of_mem_cut hline (by decide)

end SolidityTables

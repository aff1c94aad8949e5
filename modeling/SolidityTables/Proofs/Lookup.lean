import Mathlib.Data.List.Nodup

/-!
# Entries under keys

What is found under a key in a list of entries does not depend on the entries under other keys.
-/

namespace SolidityTables

section Lookup

variable {α β : Type} [BEq α] [LawfulBEq α] {k other : α}

theorem lookup_cons [DecidableEq α] (k other : α) (b : β) (l : List (α × β)) :
    ((k, b) :: l).lookup other = if other = k then some b else l.lookup other := by
  rw [List.lookup_cons]
  by_cases h : other = k
  · rw [beq_iff_eq.mpr h, if_pos h]
  · rw [beq_false_of_ne h, if_neg h]

theorem mem_of_lookup {l : List (α × β)} {b : β} (h : l.lookup k = some b) : (k, b) ∈ l := by
  obtain ⟨before, after, rfl, -⟩ := List.lookup_eq_some_iff.mp h
  exact List.mem_append_right before List.mem_cons_self

theorem mem_keys_iff {l : List (α × β)} : k ∈ l.map (·.1) ↔ ∃ b, l.lookup k = some b := by
  rw [← Option.isSome_iff_exists, List.lookup_isSome_iff, List.mem_map]
  exact exists_congr fun m => and_congr_right fun _ => by rw [beq_iff_eq, eq_comm]

theorem lookup_of_mem {l : List (α × β)} (hkeys : (l.map (·.1)).Nodup) {b : β} (h : (k, b) ∈ l) :
    l.lookup k = some b := by
  obtain ⟨before, after, rfl⟩ := List.append_of_mem h
  rw [List.lookup_eq_some_iff]
  refine ⟨before, after, rfl, fun p hp => ?_⟩
  rw [List.map_append, List.map_cons] at hkeys
  have hdisjoint := List.disjoint_of_nodup_append hkeys
  have hne : k ≠ p.1 := by
    intro hh
    subst hh
    exact hdisjoint (List.mem_map_of_mem hp) (List.mem_cons_self ..)
  simpa using hne

theorem lookup_eq_some_iff_mem {l : List (α × β)} (hkeys : (l.map (·.1)).Nodup) {b : β} :
    l.lookup k = some b ↔ (k, b) ∈ l :=
  ⟨mem_of_lookup, lookup_of_mem hkeys⟩

theorem lookup_perm {l l' : List (α × β)} (h : l.Perm l') (hkeys : (l.map (·.1)).Nodup) (k : α) :
    l.lookup k = l'.lookup k := by
  have hkeys' := (h.map (·.1)).nodup_iff.mp hkeys
  apply Option.ext
  intro b
  rw [lookup_eq_some_iff_mem hkeys, lookup_eq_some_iff_mem hkeys', h.mem_iff]

theorem lookup_insert_of_ne (h : other ≠ k) (before : List (α × β)) (b : β)
    (after : List (α × β)) :
    (before ++ (k, b) :: after).lookup other = (before ++ after).lookup other := by
  rw [List.lookup_append, List.lookup_append, List.lookup_cons, beq_false_of_ne h]

end Lookup

end SolidityTables

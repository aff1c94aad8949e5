import SolidityTables.Text.Utf8

/-!
# Encoded texts

A text is determined by its bytes, their number is the size of the text, and the longest beginning
that fits into some bytes does fit.
-/

namespace SolidityTables.Utf8

theorem encode_toByteArray (s : String) : (encode s).toByteArray = s.toByteArray := by
  rw [← String.utf8Encode_toList]
  rfl

theorem encode_injective {s t : String} (h : encode s = encode t) : s = t := by
  have hbytes := congrArg List.toByteArray h
  rw [encode_toByteArray, encode_toByteArray] at hbytes
  exact String.toByteArray_inj.mp hbytes

theorem size_eq (s : String) : size s = s.utf8ByteSize := by
  rw [String.utf8ByteSize, ← encode_toByteArray, List.size_toByteArray, size]

theorem encode_append (s t : String) : encode (s ++ t) = encode s ++ encode t := by
  simp [encode]

theorem encode_ofList (cs : List Char) :
    encode (String.ofList cs) = cs.flatMap String.utf8EncodeChar := by
  rw [encode, String.toList_ofList]

theorem encode_replicate_nul (n : Nat) :
    encode (String.ofList (List.replicate n '\x00')) = List.replicate n 0 := by
  have hchar : String.utf8EncodeChar '\x00' = [0] := by decide
  rw [encode_ofList]
  induction n with
  | zero => rfl
  | succ n ih => rw [List.replicate_succ, List.flatMap_cons, ih, hchar]; rfl

theorem length_le_size (s : String) : s.toList.length ≤ size s := by
  rw [size, encode]
  induction s.toList with
  | nil => exact Nat.le_refl 0
  | cons c cs ih =>
    have hc := c.utf8Size_pos
    rw [List.flatMap_cons, List.length_append, List.length_cons, String.length_utf8EncodeChar]
    omega

theorem fitting_size (room : Nat) (cs : List Char) :
    ((fitting room cs).flatMap String.utf8EncodeChar).length ≤ room := by
  induction cs generalizing room with
  | nil => exact Nat.zero_le room
  | cons c cs ih =>
    by_cases hc : c.utf8Size ≤ room
    · have := ih (room - c.utf8Size)
      rw [fitting, if_pos hc, List.flatMap_cons, List.length_append, String.length_utf8EncodeChar]
      omega
    · rw [fitting, if_neg hc]
      exact Nat.zero_le room

theorem truncate_size (room : Nat) (s : String) : size (truncate room s) ≤ room := by
  rw [size, truncate, encode_ofList]
  exact fitting_size room s.toList

theorem fitting_of_le {room : Nat} {cs : List Char}
    (h : (cs.flatMap String.utf8EncodeChar).length ≤ room) : fitting room cs = cs := by
  induction cs generalizing room with
  | nil => rfl
  | cons c cs ih =>
    rw [List.flatMap_cons, List.length_append, String.length_utf8EncodeChar] at h
    have hc : c.utf8Size ≤ room := by omega
    rw [fitting, if_pos hc, ih (by omega)]

theorem fitting_append (room : Nat) (cs : List Char) : ∃ rest, cs = fitting room cs ++ rest ∧
    ∀ c ∈ rest.head?,
      room < ((fitting room cs).flatMap String.utf8EncodeChar).length + c.utf8Size := by
  induction cs generalizing room with
  | nil => exact ⟨[], rfl, nofun⟩
  | cons c cs ih =>
    by_cases hc : c.utf8Size ≤ room
    · obtain ⟨rest, hrest, hnext⟩ := ih (room - c.utf8Size)
      rw [fitting, if_pos hc]
      refine ⟨rest, congrArg (c :: ·) hrest, fun d hd => ?_⟩
      have hroom := hnext d hd
      rw [List.flatMap_cons, List.length_append, String.length_utf8EncodeChar]
      omega
    · rw [fitting, if_neg hc]
      refine ⟨c :: cs, rfl, fun d hd => ?_⟩
      cases hd
      rw [List.flatMap_nil, List.length_nil]
      omega

/-- A text is the longest beginning of another one that takes up at most `room` bytes. -/
structure Longest (room : Nat) (s t : String) : Prop where
  begins : t.toList <+: s.toList
  size_le : size t ≤ room
  whole_or_full : t = s ∨ ∃ c rest, s.toList = t.toList ++ c :: rest ∧ room < size (t.push c)

theorem size_push (s : String) (c : Char) : size (s.push c) = size s + c.utf8Size := by
  simp [size, encode, String.length_utf8EncodeChar]

theorem size_le_of_begins {s t : String} (h : s.toList <+: t.toList) : size s ≤ size t := by
  obtain ⟨rest, hrest⟩ := h
  rw [size, size, encode, encode, ← hrest, List.flatMap_append, List.length_append]
  exact Nat.le_add_right _ _

theorem Longest.of_begins {room : Nat} {s t u : String} (h : Longest room s t)
    (hbegins : u.toList <+: s.toList) (hsize : size u ≤ room) : u.toList <+: t.toList := by
  rcases h.whole_or_full with rfl | ⟨c, rest, hrest, hfull⟩
  · exact hbegins
  · rcases List.prefix_or_prefix_of_prefix hbegins h.begins with hle | ⟨more, hmore⟩
    · exact hle
    · rw [← hmore, hrest, List.prefix_append_right_inj] at hbegins
      cases more with
      | nil => simp [← hmore]
      | cons d more =>
        obtain ⟨rfl, -⟩ := List.cons_prefix_cons.mp hbegins
        have hpush : (t.push d).toList <+: u.toList :=
          ⟨more, by rw [String.toList_push, List.append_assoc]; exact hmore⟩
        have := size_le_of_begins hpush
        omega

theorem truncate_longest (room : Nat) (s : String) : Longest room s (truncate room s) := by
  obtain ⟨rest, hrest, hnext⟩ := fitting_append room s.toList
  have hlist : (truncate room s).toList = fitting room s.toList := String.toList_ofList
  rw [← hlist] at hrest hnext
  refine ⟨⟨rest, hrest.symm⟩, truncate_size room s, ?_⟩
  cases rest with
  | nil =>
    rw [List.append_nil] at hrest
    exact .inl (String.toList_inj.mp hrest.symm)
  | cons c rest =>
    refine .inr ⟨c, rest, hrest, ?_⟩
    rw [size_push]
    exact hnext c rfl

theorem truncate_of_le {room : Nat} {s : String} (h : size s ≤ room) : truncate room s = s := by
  rw [truncate, fitting_of_le h, String.ofList_toList]

end SolidityTables.Utf8

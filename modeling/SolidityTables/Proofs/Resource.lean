import SolidityTables.Proofs.Bytes
import SolidityTables.Proofs.Decoding
import SolidityTables.Resource
import Mathlib.Data.List.DropRight

/-!
# What resource ids tell apart

An id holds the kind of a resource, its namespace and its name, the latter two filled up with zeros.
So of two resources whose parts fit, the ids are equal just if the kinds are and if the namespaces
and the names differ in nothing but null characters at the end. A label that does not fit is cut to
a name after the last of its characters that has room.
-/

namespace SolidityTables.Resource

open Utf8 (encode size)

/-- The characters of a text up to the last one that is not null. -/
def significant (s : String) : List Char :=
  s.toList.rdropWhile (· = '\x00')

theorem rdropWhile_append_nul (cs : List Char) (n : Nat) :
    (cs ++ List.replicate n '\x00').rdropWhile (· = '\x00') = cs.rdropWhile (· = '\x00') := by
  induction n with
  | zero => rw [List.replicate_zero, List.append_nil]
  | succ n ih =>
    rw [List.replicate_succ', ← List.append_assoc, List.rdropWhile_concat_pos _ _ _ (by decide), ih]

theorem exists_nul (s : String) :
    ∃ n, s = String.ofList (significant s) ++ String.ofList (List.replicate n '\x00') := by
  refine ⟨(s.toList.rtakeWhile (· = '\x00')).length, ?_⟩
  have hnul : s.toList.rtakeWhile (· = '\x00') =
      List.replicate (s.toList.rtakeWhile (· = '\x00')).length '\x00' := by
    apply List.eq_replicate_of_mem
    intro c hc
    simpa using List.mem_rtakeWhile_imp hc
  rw [← hnul, ← String.ofList_append, significant, List.rdropWhile_append_rtakeWhile,
    String.ofList_toList]

theorem padded_encode {width : Nat} {s : String} (h : size s ≤ width) :
    Bytes.padded width (encode s) =
      encode (s ++ String.ofList (List.replicate (width - size s) '\x00')) := by
  rw [Bytes.padded_of_le h, Utf8.encode_append, Utf8.encode_replicate_nul]
  rfl

theorem padded_significant {width : Nat} {s : String} (h : size s ≤ width) :
    Bytes.padded width (encode s) = encode (String.ofList (significant s)) ++
      List.replicate (width - size (String.ofList (significant s))) 0 := by
  obtain ⟨n, hn⟩ := exists_nul s
  have hencode : encode s = encode (String.ofList (significant s)) ++ List.replicate n 0 := by
    rw [← Utf8.encode_replicate_nul, ← Utf8.encode_append, ← hn]
  have hsize : size s = size (String.ofList (significant s)) + n := by
    rw [size, hencode, List.length_append, List.length_replicate]
    rfl
  have hrest : n + (width - size s) = width - size (String.ofList (significant s)) := by omega
  calc
    _ = encode s ++ List.replicate (width - size s) 0 := Bytes.padded_of_le h
    _ = _ := by rw [hencode, List.append_assoc, List.replicate_append_replicate, hrest]

theorem padded_eq_iff {width : Nat} {s t : String} (hs : size s ≤ width) (ht : size t ≤ width) :
    Bytes.padded width (encode s) = Bytes.padded width (encode t) ↔
      significant s = significant t := by
  rw [padded_encode hs, padded_encode ht]
  constructor
  · intro h
    have hl := congrArg String.toList (Utf8.encode_injective h)
    rw [String.toList_append, String.toList_append, String.toList_ofList,
      String.toList_ofList] at hl
    have := congrArg (List.rdropWhile (· = '\x00')) hl
    rwa [rdropWhile_append_nul, rdropWhile_append_nul] at this
  · intro h
    rw [← padded_encode hs, ← padded_encode ht, padded_significant hs, padded_significant ht, h]

def Fits (r : Resource) : Prop :=
  size r.space ≤ spaceBytes ∧ size r.name ≤ nameBytes

theorem letters_injective {k l : ResourceKind}
    (h : Bytes.padded 2 (encode k.letters) = Bytes.padded 2 (encode l.letters)) : k = l := by
  revert h
  cases k <;> cases l <;> decide

theorem id_eq_iff {r q : Resource} (hr : r.Fits) (hq : q.Fits) :
    r.id = q.id ↔ r.kind = q.kind ∧ significant r.space = significant q.space ∧
      significant r.name = significant q.name := by
  have hword : r.id = q.id ↔ r.word = q.word :=
    ⟨Bytes.hex_injective, congrArg Bytes.hex⟩
  rw [hword, ← padded_eq_iff hr.1 hq.1, ← padded_eq_iff hr.2 hq.2]
  constructor
  · intro h
    obtain ⟨hfront, hname⟩ := List.append_inj' h (by rw [Bytes.padded_length, Bytes.padded_length])
    obtain ⟨hkind, hspace⟩ :=
      List.append_inj' hfront (by rw [Bytes.padded_length, Bytes.padded_length])
    exact ⟨letters_injective hkind, hspace, hname⟩
  · intro hh
    obtain ⟨hkind, hspace, hname⟩ := hh
    rw [word, word, hkind, hspace, hname]

theorem defaultName_size (label : String) : size (defaultName label) ≤ nameBytes :=
  Utf8.truncate_size nameBytes label

theorem checkSpace_eq_ok {s : String} : checkSpace s = .ok () ↔ size s ≤ spaceBytes := by
  unfold checkSpace
  by_cases h : spaceBytes < size s
  · simp [h]
  · simp [h, Nat.not_lt.mp h]

theorem checkName_eq_ok {s : String} : checkName s = .ok () ↔ size s ≤ nameBytes := by
  unfold checkName
  by_cases h : nameBytes < size s
  · simp [h]
  · simp [h, Nat.not_lt.mp h]

theorem checkSpace_eq_error {s : String} {e : ConfigError} (h : checkSpace s = .error e) :
    e.kind = .general := by
  unfold checkSpace at h
  split at h
  · cases h
    rfl
  · cases h

theorem checkName_eq_error {s : String} {e : ConfigError} (h : checkName s = .error e) :
    e.kind = .general := by
  unfold checkName at h
  split at h
  · cases h
    rfl
  · cases h

theorem word_length (r : Resource) : r.word.length = 32 := by
  simp only [word, List.length_append, Bytes.padded_length]
  rfl

def firstChars (n : Nat) (s : String) : String :=
  String.ofList (s.toList.take n)

theorem padded_firstChars {width n : Nat} (h : width ≤ n) (s : String) :
    Bytes.padded width (encode (firstChars n s)) = Bytes.padded width (encode s) := by
  by_cases hn : s.toList.length ≤ n
  · rw [firstChars, List.take_of_length_le hn, String.ofList_toList]
  · have hlength : (firstChars n s).toList.length = n := by
      rw [firstChars, String.toList_ofList, List.length_take, Nat.min_eq_left (by omega)]
    have hsize := Utf8.length_le_size (firstChars n s)
    have hsplit : encode s =
        encode (firstChars n s) ++ encode (String.ofList (s.toList.drop n)) := by
      rw [← Utf8.encode_append, firstChars, ← String.ofList_append, List.take_append_drop,
        String.ofList_toList]
    rw [hsplit, Bytes.padded_append]
    rw [hlength] at hsize
    exact Nat.le_trans h hsize

theorem id_firstChars (kind : ResourceKind) (space name : String) {m n : Nat}
    (hm : spaceBytes ≤ m) (hn : nameBytes ≤ n) :
    id ⟨kind, firstChars m space, firstChars n name⟩ = id ⟨kind, space, name⟩ := by
  simp only [id, word, padded_firstChars hm, padded_firstChars hn]

theorem ofName_eq_ok {type : String} {kind : ResourceKind} :
    ResourceKind.ofName type = .ok kind ↔ kind.name = type := by
  constructor
  · intro h
    unfold ResourceKind.ofName at h
    split at h
    next found hfound =>
      cases h
      simpa using List.find?_some hfound
    next => cases h
  · rintro rfl
    cases kind <;> rfl

theorem ofName_isOk {type : String} : (∃ kind, ResourceKind.ofName type = .ok kind) ↔
    type ∈ ["table", "offchainTable", "namespace", "system"] := by
  simp only [ofName_eq_ok]
  constructor
  · intro hh
    obtain ⟨kind, rfl⟩ := hh
    cases kind <;> decide
  · intro h
    have hkinds : ["table", "offchainTable", "namespace", "system"] =
        [ResourceKind.table, .offchainTable, .space, .system].map (·.name) := rfl
    rw [hkinds] at h
    obtain ⟨kind, -, hkind⟩ := List.mem_map.mp h
    exact ⟨kind, hkind⟩

/-- The kinds of resources have four names. Every id is a word, and what is beyond the first
characters of a namespace or a name does not count. Ids of resources whose parts fit are equal just
if the kinds are, and the namespaces and names but for null characters at the end. -/
theorem ids_told_apart :
    (∀ type, (∃ kind, ResourceKind.ofName type = .ok kind) ↔
      type ∈ ["table", "offchainTable", "namespace", "system"]) ∧
    (∀ type kind, ResourceKind.ofName type = .ok kind → ∀ space name,
      Bytes.IsWord (id ⟨kind, space, name⟩) ∧
        id ⟨kind, firstChars 14 space, firstChars 16 name⟩ = id ⟨kind, space, name⟩) ∧
    ∀ type type' kind kind', ResourceKind.ofName type = .ok kind →
      ResourceKind.ofName type' = .ok kind' → ∀ space name space' name',
        size space ≤ 14 → size name ≤ 16 → size space' ≤ 14 → size name' ≤ 16 →
          (id ⟨kind, space, name⟩ = id ⟨kind', space', name'⟩ ↔ type = type' ∧
            significant space = significant space' ∧ significant name = significant name') := by
  refine ⟨fun type => ofName_isOk, fun type kind _ space name => ?_, ?_⟩
  · have hspace : spaceBytes ≤ 14 := by decide
    have hname : nameBytes ≤ 16 := by decide
    exact ⟨Bytes.hex_isWord (word_length _), id_firstChars kind space name hspace hname⟩
  · intro type type' kind kind' hkind hkind' space name space' name' hspace hname hspace' hname'
    have hsame : kind = kind' ↔ type = type' := by
      constructor
      · rintro rfl
        rw [← ofName_eq_ok.mp hkind, ← ofName_eq_ok.mp hkind']
      · rintro rfl
        exact Except.ok.inj (hkind.symm.trans hkind')
    have hfits : Fits ⟨kind, space, name⟩ := ⟨hspace, hname⟩
    have hfits' : Fits ⟨kind', space', name'⟩ := ⟨hspace', hname'⟩
    rw [id_eq_iff hfits hfits', hsame]

theorem ids_told_apart_tasks :
    id ⟨.table, "app\x00", "Tasks"⟩ = id ⟨.table, "app", "Tasks"⟩ ∧
      id ⟨.table, "app", "Tasks"⟩ ≠ id ⟨.table, "app", "\x00Tasks"⟩ ∧
      id ⟨.table, "app", "Tasks"⟩ ≠ id ⟨.offchainTable, "app", "Tasks"⟩ ∧
      Bytes.IsWord (id ⟨.table, "app", "Tasks"⟩) := by
  obtain ⟨-, hword, htold⟩ := ids_told_apart
  have htable : ResourceKind.ofName "table" = .ok .table := by rfl
  have hoffchain : ResourceKind.ofName "offchainTable" = .ok .offchainTable := by rfl
  refine ⟨?_, fun h => ?_, fun h => ?_, (hword _ _ htable "app" "Tasks").1⟩
  · exact (htold _ _ _ _ htable htable "app\x00" "Tasks" "app" "Tasks" (by decide) (by decide)
      (by decide) (by decide)).mpr (by decide)
  · exact absurd ((htold _ _ _ _ htable htable "app" "Tasks" "app" "\x00Tasks" (by decide)
      (by decide) (by decide) (by decide)).mp h) (by decide)
  · exact absurd ((htold _ _ _ _ htable hoffchain "app" "Tasks" "app" "Tasks" (by decide)
      (by decide) (by decide) (by decide)).mp h) (by decide)

/-- The default name of a label is the longest beginning of it that is accepted as a name: what its
first bytes stand for once those of a broken character are left out. A label that is a name is its
own default name. -/
theorem defaultName_longest (label : String) :
    Utf8.Longest 16 label (defaultName label) ∧
      (∀ s : String, s.toList <+: label.toList → checkName s = .ok () →
        s.toList <+: (defaultName label).toList) ∧
      (defaultName label).toList = Utf8.readable ((encode label).take 16) ∧
      checkName (defaultName label) = .ok () ∧
      defaultName (defaultName label) = defaultName label ∧
      (size label ≤ 16 → defaultName label = label) := by
  have hlongest : Utf8.Longest nameBytes label (defaultName label) := Utf8.truncate_longest _ label
  refine ⟨hlongest, fun s hbegins hname => ?_, ?_, ?_, ?_, fun h => Utf8.truncate_of_le h⟩
  · exact hlongest.of_begins hbegins (checkName_eq_ok.mp hname)
  · exact (Utf8.readable_take nameBytes label).symm
  · exact checkName_eq_ok.mpr hlongest.size_le
  · exact Utf8.truncate_of_le hlongest.size_le

theorem defaultName_longest_broken :
    Utf8.Longest 16 "A longer label \u20ac" "A longer label " ∧
      Utf8.readable ((encode "A longer label \u20ac").take 16) = "A longer label ".toList ∧
      defaultName "A longer label " = "A longer label " := by
  have hname : defaultName "A longer label \u20ac" = "A longer label " := by decide
  obtain ⟨hlongest, -, hreadable, -⟩ := defaultName_longest "A longer label \u20ac"
  rw [hname] at hlongest hreadable
  obtain ⟨-, -, -, -, -, hwhole⟩ := defaultName_longest "A longer label "
  exact ⟨hlongest, hreadable.symm, hwhole (by decide)⟩

end SolidityTables.Resource

import SolidityTables.Abi

/-!
# Names of ABI types

Types and their names determine each other: no two types share a name, and a name is looked up to
the type that has it. A value takes up at most thirty-two bytes of static data.
-/

namespace SolidityTables

theorem toDigits_injective {m n : Nat} (h : Nat.toDigits 10 m = Nat.toDigits 10 n) : m = n := by
  have hm := Nat.ofDigitChars_ten_toDigits (n := m)
  rw [h, Nat.ofDigitChars_ten_toDigits] at hm
  exact hm.symm

theorem Width.bytes_le (w : Width) : w.bytes ≤ 32 :=
  w.isLt

theorem Width.bytes_injective {v w : Width} (h : v.bytes = w.bytes) : v = w :=
  Fin.ext (Nat.succ.inj h)

namespace StaticType

theorem name_uint (w : Width) :
    (uint w).name.toList = ['u', 'i', 'n', 't'] ++ Nat.toDigits 10 (8 * w.bytes) := by
  simp [name]

theorem name_int (w : Width) :
    (int w).name.toList = ['i', 'n', 't'] ++ Nat.toDigits 10 (8 * w.bytes) := by
  simp [name]

theorem name_bytes (w : Width) :
    (bytes w).name.toList = ['b', 'y', 't', 'e', 's'] ++ Nat.toDigits 10 w.bytes := by
  simp [name]

theorem name_injective {t u : StaticType} (h : t.name = u.name) : t = u := by
  replace h := congrArg String.toList h
  have hbits {v w : Width} (hd : Nat.toDigits 10 (8 * v.bytes) = Nat.toDigits 10 (8 * w.bytes)) :
      v = w := by
    apply Width.bytes_injective
    have := toDigits_injective hd
    omega
  cases t <;> cases u <;>
    simp only [name, Nat.toString_eq_repr, String.toList_append, String.reduceToList,
      Nat.toList_repr, List.cons_append, List.nil_append, List.cons.injEq, Char.reduceEq,
      Nat.toDigits_ne_nil, List.nil_eq, reduceCtorEq, true_and, false_and, and_false] at h
  case uint.uint v w => rw [hbits h]
  case int.int v w => rw [hbits h]
  case bytes.bytes v w => rw [Width.bytes_injective (toDigits_injective h)]
  case bool.bool => rfl
  case address.address => rfl

theorem mem_all (t : StaticType) : t ∈ all := by
  cases t <;> simp [all, List.mem_finRange]

theorem bracket_notMem_name (t : StaticType) : '[' ∉ t.name.toList := by
  have hdigits (n : Nat) : '[' ∉ Nat.toDigits 10 n := by
    intro h
    have := Nat.isDigit_of_mem_toDigits (by decide) (by decide) h
    revert this
    decide
  cases t with
  | uint w => simp [name_uint, hdigits]
  | int w => simp [name_int, hdigits]
  | bytes w => simp [name_bytes, hdigits]
  | bool => decide
  | address => decide

theorem name_ne_bytes (t : StaticType) : t.name ≠ "bytes" := by
  intro h
  replace h := congrArg String.toList h
  cases t with
  | bytes w => simp [name_bytes, Nat.toDigits_ne_nil] at h
  | uint w => simp [name_uint] at h
  | int w => simp [name_int] at h
  | bool => simp [name] at h
  | address => simp [name] at h

theorem name_ne_string (t : StaticType) : t.name ≠ "string" := by
  intro h
  replace h := congrArg String.toList h
  cases t with
  | bytes w => simp [name_bytes] at h
  | uint w => simp [name_uint] at h
  | int w => simp [name_int] at h
  | bool => simp [name] at h
  | address => simp [name] at h

theorem byteLength_le (t : StaticType) : t.byteLength ≤ 32 := by
  cases t with
  | uint w | int w | bytes w => exact w.bytes_le
  | bool => decide
  | address => decide

theorem one_le_byteLength (t : StaticType) : 1 ≤ t.byteLength := by
  cases t with
  | uint w | int w | bytes w => exact Nat.le_add_left 1 w.val
  | bool => decide
  | address => decide

end StaticType

namespace SchemaType

theorem name_array (t : StaticType) : (array t).name.toList = t.name.toList ++ ['[', ']'] := by
  simp [name]

theorem bracket_mem_name_iff (t : SchemaType) : '[' ∈ t.name.toList ↔ ∃ e, t = array e := by
  cases t with
  | static t =>
    simp only [reduceCtorEq, exists_false, iff_false]
    exact t.bracket_notMem_name
  | array t => simp [name_array]
  | bytes => simp [name]
  | string => simp [name]

theorem name_injective {t u : SchemaType} (h : t.name = u.name) : t = u := by
  have hbracket := (bracket_mem_name_iff t).symm.trans (h ▸ bracket_mem_name_iff u)
  cases t with
  | array t =>
    obtain ⟨v, rfl⟩ := hbracket.mp ⟨t, rfl⟩
    have hl := congrArg String.toList h
    rw [name_array, name_array] at hl
    rw [StaticType.name_injective (String.toList_inj.mp (List.append_cancel_right hl))]
  | static t =>
    cases u with
    | static u => rw [StaticType.name_injective h]
    | array u => simp at hbracket
    | bytes => exact absurd h t.name_ne_bytes
    | string => exact absurd h t.name_ne_string
  | bytes =>
    cases u with
    | static u => exact absurd h.symm u.name_ne_bytes
    | array u => simp at hbracket
    | bytes => rfl
    | string => simp [name] at h
  | string =>
    cases u with
    | static u => exact absurd h.symm u.name_ne_string
    | array u => simp at hbracket
    | bytes => simp [name] at h
    | string => rfl

theorem mem_all (t : SchemaType) : t ∈ all := by
  cases t <;> simp [all, dynamic, StaticType.mem_all]

theorem exists_static {t : SchemaType} (h : t.isDynamic = false) : ∃ b, t = static b := by
  cases t with
  | static b => exact ⟨b, rfl⟩
  | array b | bytes | string => cases h

theorem mem_dynamic {t : SchemaType} : t ∈ dynamic ↔ t.isDynamic = true := by
  cases t <;> simp [dynamic, isDynamic, StaticType.mem_all]

theorem ofName?_eq_some {s : String} {t : SchemaType} : ofName? s = some t ↔ t.name = s := by
  constructor
  · intro h
    simpa using List.find?_some h
  · intro hh
    subst hh
    cases h : ofName? t.name with
    | none =>
      have := List.find?_eq_none.mp h t t.mem_all
      simp at this
    | some u =>
      have hu : u.name = t.name := by simpa using List.find?_some h
      rw [name_injective hu]

theorem ofName?_eq_none {s : String} : ofName? s = none ↔ ∀ t : SchemaType, t.name ≠ s := by
  rw [Option.eq_none_iff_forall_ne_some]
  exact forall_congr' fun t => not_congr ofName?_eq_some

theorem byteLength_le (t : SchemaType) : t.byteLength ≤ 32 := by
  cases t with
  | static t => exact t.byteLength_le
  | array t | bytes | string => exact Nat.zero_le 32

end SchemaType

end SolidityTables

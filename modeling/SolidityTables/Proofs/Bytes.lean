import SolidityTables.Proofs.Attempt
import SolidityTables.Text.Bytes

/-!
# Reading bytes back

The hexadecimal text of a run of bytes is read back to the run, and the big-endian form of a number
to the number, so neither loses anything.
-/

namespace SolidityTables.Bytes

open Attempt

def digitValue? (c : Char) : Option Nat :=
  if '0' ≤ c ∧ c ≤ '9' then some (c.toNat - 48)
  else if 'a' ≤ c ∧ c ≤ 'f' then some (c.toNat - 87)
  else none

def ofHexDigits? : List Char → Option (List UInt8)
  | [] => some []
  | h :: l :: cs => do
    return UInt8.ofNat (16 * (← digitValue? h) + (← digitValue? l)) :: (← ofHexDigits? cs)
  | [_] => none

def ofHex? (s : String) : Option (List UInt8) :=
  match s.toList with
  | '0' :: 'x' :: cs => ofHexDigits? cs
  | _ => none

theorem digitValue?_digit {n : Nat} (h : n < 16) : digitValue? (digit n) = some n := by
  revert n
  decide

theorem ofHexDigits?_hexDigits (bytes : List UInt8) :
    ofHexDigits? (hexDigits bytes) = some bytes := by
  induction bytes with
  | nil => rfl
  | cons b bytes ih =>
    have hb := b.toNat_lt
    have hhigh := digitValue?_digit (show b.toNat / 16 < 16 by omega)
    have hlow := digitValue?_digit (show b.toNat % 16 < 16 by omega)
    have hbyte : 16 * (b.toNat / 16) + b.toNat % 16 = b.toNat := by omega
    change ofHexDigits? (digit (b.toNat / 16) :: digit (b.toNat % 16) :: hexDigits bytes) = _
    simp only [ofHexDigits?, hhigh, hlow, ih, Option.bind_eq_bind, Option.bind_some, hbyte,
      UInt8.ofNat_toNat]
    rfl

theorem hexDigits_length (bytes : List UInt8) : (hexDigits bytes).length = 2 * bytes.length := by
  induction bytes with
  | nil => rfl
  | cons b bytes ih =>
    change (hexDigits bytes).length + 1 + 1 = 2 * (bytes.length + 1)
    omega

theorem digit_lower {n : Nat} (h : n < 16) : digit n ∈ "0123456789abcdef".toList := by
  revert n
  decide

theorem hexDigits_lower {bytes : List UInt8} :
    ∀ c ∈ hexDigits bytes, c ∈ "0123456789abcdef".toList := by
  refine List.forall_mem_flatMap.mpr fun b _ => ?_
  have hb := b.toNat_lt
  exact List.forall_mem_cons.mpr ⟨digit_lower (show b.toNat / 16 < 16 by omega),
    List.forall_mem_singleton.mpr (digit_lower (show b.toNat % 16 < 16 by omega))⟩

/-- The text of a word of 32 bytes. -/
def IsWord (text : String) : Prop :=
  ∃ digits, text = "0x" ++ String.ofList digits ∧ digits.length = 64 ∧
    ∀ c ∈ digits, c ∈ "0123456789abcdef".toList

theorem hex_isWord {bytes : List UInt8} (h : bytes.length = 32) : IsWord (hex bytes) :=
  ⟨hexDigits bytes, rfl, by rw [hexDigits_length, h], hexDigits_lower⟩

theorem ofHex?_hex (bytes : List UInt8) : ofHex? (hex bytes) = some bytes := by
  simp [ofHex?, hex, ofHexDigits?_hexDigits]

theorem hex_injective {a b : List UInt8} (h : hex a = hex b) : a = b := by
  have ha := ofHex?_hex a
  rw [h, ofHex?_hex] at ha
  exact (Option.some.inj ha).symm

theorem padded_length (width : Nat) (bytes : List UInt8) : (padded width bytes).length = width := by
  simp only [padded, List.length_append, List.length_take, List.length_replicate]
  omega

theorem padded_of_le {width : Nat} {bytes : List UInt8} (h : bytes.length ≤ width) :
    padded width bytes = bytes ++ List.replicate (width - bytes.length) 0 := by
  rw [padded, List.take_of_length_le h]

theorem padded_append {width : Nat} {bytes : List UInt8} (h : width ≤ bytes.length)
    (rest : List UInt8) : padded width (bytes ++ rest) = padded width bytes := by
  have hnone : width - bytes.length = 0 := by omega
  have hall : width - (bytes.length + rest.length) = 0 := by omega
  rw [padded, padded, List.take_append_of_le_length h, List.length_append, hnone, hall]

def toNat (bytes : List UInt8) : Nat :=
  bytes.foldl (fun n b => 256 * n + b.toNat) 0

theorem toNat_append_singleton (bytes : List UInt8) (b : UInt8) :
    toNat (bytes ++ [b]) = 256 * toNat bytes + b.toNat := by
  simp [toNat]

theorem toNat_ofNat {width n : Nat} (h : n < Nat.pow 256 width) : toNat (ofNat width n) = n := by
  induction width generalizing n with
  | zero =>
    have hn : n = 0 := by simpa using h
    rw [hn]
    rfl
  | succ width ih =>
    have hn : n / 256 < Nat.pow 256 width := by
      rw [Nat.div_lt_iff_lt_mul (by decide)]
      exact h
    rw [ofNat, toNat_append_singleton, ih hn, UInt8.toNat_ofNat']
    omega

theorem ofInt_eq_ok {width : Nat} {n : Int} {bytes : List UInt8} :
    ofInt width n = .ok bytes ↔
      0 ≤ n ∧ n.toNat < Nat.pow 256 width ∧ ofNat width n.toNat = bytes := by
  unfold ofInt
  split_ifs with hneg hbig
  · simp only [false_iff]
    omega
  · simp only [false_iff]
    omega
  · simp only [Except.ok.injEq]
    constructor
    · intro h
      exact ⟨by omega, by omega, h⟩
    · intro h
      exact h.2.2

theorem ofInts_eq_ok {ns : List Int} {bytes : List UInt8} :
    ofInts ns = .ok bytes ↔
      (∀ n ∈ ns, 0 ≤ n ∧ n < 256) ∧ ns.map (fun n => UInt8.ofNat n.toNat) = bytes := by
  induction ns generalizing bytes with
  | nil => simp [ofInts]
  | cons n ns ih =>
    rw [ofInts]
    split_ifs with hn
    · simp only [List.mem_cons, forall_eq_or_imp, false_iff]
      omega
    · have hn : 0 ≤ n ∧ n < 256 := by omega
      rw [bind_eq_ok, List.forall_mem_cons, List.map_cons]
      constructor
      · intro hh
        obtain ⟨rest, hrest, h⟩ := hh
        obtain ⟨hns, rfl⟩ := ih.mp hrest
        exact ⟨⟨hn, hns⟩, pure_eq_ok.mp h⟩
      · intro hh
        obtain ⟨⟨_, hns⟩, rfl⟩ := hh
        exact ⟨_, ih.mpr ⟨hns, rfl⟩, rfl⟩

end SolidityTables.Bytes

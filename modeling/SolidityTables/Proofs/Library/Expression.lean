import SolidityTables.Library.Expression
import SolidityTables.Proofs.Abi

/-!
# Expressions by type

How a value is converted is read off the name of the ABI type in which it is stored. The same
expressions are given here by the type itself, so that no name has to be looked at to tell which of
them a field has.
-/

namespace SolidityTables

/-- Calls of functions with one argument, the first of them outermost. -/
def calls (functions : List String) (e : String) : String :=
  functions.foldr (fun function argument => function ++ "(" ++ argument ++ ")") e

namespace StaticType

def word : StaticType → String → String
  | uint _ => calls ["bytes32", "uint256"]
  | int _ => calls ["bytes32", "uint256", "int256"]
  | bytes _ => calls ["bytes32"]
  | bool => calls ["_boolToBytes32"]
  | address => calls ["bytes32", "uint256", "uint160"]

def leading : StaticType → String → String
  | uint w => calls [(uint w).name, (bytes w).name]
  | int w => calls [(int w).name, (uint w).name, (bytes w).name]
  | bytes w => calls [(bytes w).name]
  | bool => calls ["_toBool", "uint8", "bytes1"]
  | address => calls ["address", "bytes20"]

theorem name_uint_int (w : Width) : "u" ++ (int w).name = (uint w).name :=
  String.append_assoc.symm

theorem uint_isPrefixOf (b : StaticType) :
    "uint".toList.isPrefixOf b.name.toList = (b matches .uint _) := by
  cases b <;> simp only [name_uint, name_int, name_bytes] <;> rfl

theorem int_isPrefixOf (b : StaticType) :
    "int".toList.isPrefixOf b.name.toList = (b matches .int _) := by
  cases b <;> simp only [name_uint, name_int, name_bytes] <;> rfl

theorem bytes_isPrefixOf (b : StaticType) :
    "bytes".toList.isPrefixOf b.name.toList = (b matches .bytes _) := by
  cases b <;> simp only [name_uint, name_int, name_bytes] <;> rfl

end StaticType

namespace SchemaType

def packed : SchemaType → String → String
  | static _ => calls ["abi.encodePacked", ""]
  | array _ => calls ["EncodeArray.encode", ""]
  | bytes | string => calls ["bytes", ""]

def unpacked (element : String) : SchemaType → String → String
  | array _, e =>
    calls ["SliceLib.getSubslice(" ++ e ++ ", 0, " ++ e ++ ".length).decodeArray_" ++ element] ""
  | t, e => calls [t.name] e

end SchemaType

namespace TypeSpelling

section Static

variable {t : TypeSpelling} {b : StaticType} (h : t.internal = b.name)
include h

theorem keyWord?_eq (e : String) : t.keyWord? e = some (b.word (t.unwrapped e)) := by
  rw [keyWord?, isUint, isInt, isBytes, h, b.uint_isPrefixOf, b.int_isPrefixOf, b.bytes_isPrefixOf]
  cases b <;> rfl

theorem decodedStatic_eq (hlength : t.byteLength = b.byteLength) (e : String) :
    t.decodedStatic e = t.wrapped (b.leading e) := by
  rw [decodedStatic, isUint, isInt, h, hlength, b.uint_isPrefixOf, b.int_isPrefixOf]
  cases b with
  | int w =>
    rw [StaticType.name_uint_int]
    rfl
  | _ => rfl

end Static

section Dynamic

variable {t : TypeSpelling} {b : SchemaType} (h : t.internal = b.name)
include h

theorem isRun_iff : t.isRun = true ↔ b = .bytes ∨ b = .string := by
  have hname (c : SchemaType) : b.name = c.name ↔ b = c :=
    ⟨SchemaType.name_injective, congrArg SchemaType.name⟩
  rw [isRun, h, Bool.or_eq_true, decide_eq_true_iff, decide_eq_true_iff, or_comm]
  exact or_congr (hname .bytes) (hname .string)

theorem encoded_eq (hdynamic : t.isDynamic = b.isDynamic) (e : String) :
    t.encoded e = b.packed (t.unwrapped e) := by
  have hrun := isRun_iff h
  rw [encoded, hdynamic]
  cases b with
  | static b => rfl
  | array b =>
    rw [if_neg (by simp [SchemaType.isDynamic]), if_neg (by simp [hrun])]
    rfl
  | bytes | string =>
    rw [if_neg (by simp [SchemaType.isDynamic]), if_pos (by simp [hrun])]
    rfl

end Dynamic

end TypeSpelling

theorem Field.decodedDynamic_eq {f : Field} {b : SchemaType} (h : f.internal = b.name)
    (hdynamic : b.isDynamic = true) (e : String) :
    f.decodedDynamic e = f.wrapped (b.unpacked f.elementName e) := by
  have hrun := TypeSpelling.isRun_iff h
  rw [decodedDynamic, h]
  cases b with
  | static b => cases hdynamic
  | array b =>
    rw [if_neg (by simp [hrun])]
    rfl
  | bytes | string =>
    rw [if_pos (by simp [hrun])]
    rfl

end SolidityTables

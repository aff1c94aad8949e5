import SolidityTables.FieldLayout
import SolidityTables.Proofs.Bytes

/-!
# Reading field layouts back

The text of a field layout is read back to what it was made of: the total length and the number of
the static fields, the number of the dynamic ones and the lengths. There is a layout whenever the
limits on the fields are kept and every length is that of a static type.
-/

namespace SolidityTables.FieldLayout

open Attempt

structure Contents where
  total : Int
  staticFields : Nat
  dynamicFields : Int
  lengths : List Int
  deriving DecidableEq, Repr

def ofWord? : List UInt8 → Option Contents
  | high :: low :: statics :: dynamics :: rest =>
    if (rest.drop statics.toNat).all (· = 0) then
      some ⟨Bytes.toNat [high, low], statics.toNat, dynamics.toNat,
        (rest.take statics.toNat).map fun b => Int.ofNat b.toNat⟩
    else none
  | _ => none

def decode (text : String) : Option Contents :=
  (Bytes.ofHex? text).bind ofWord?

theorem checkCounts_eq_ok {fields dynamicFields : Int} :
    checkCounts fields dynamicFields = .ok () ↔ fields ≤ 28 ∧ dynamicFields ≤ 5 := by
  unfold checkCounts maxFields maxDynamicFields
  split_ifs with hfields hdynamic
  · simp only [false_iff]
    omega
  · simp only [false_iff]
    omega
  · simp only [true_iff]
    omega

theorem checkCounts_eq_error {fields dynamicFields : Int} {e : ConfigError}
    (h : checkCounts fields dynamicFields = .error e) : e.kind = .general := by
  unfold checkCounts at h
  split_ifs at h
  · cases h
    rfl
  · cases h
    rfl

theorem total_bounds {lengths : List Int} (h : ∀ n ∈ lengths, 0 ≤ n ∧ n < 256) :
    0 ≤ total lengths ∧ total lengths ≤ 255 * lengths.length := by
  induction lengths with
  | nil => decide
  | cons n lengths ih =>
    obtain ⟨hn, hrest⟩ := List.forall_mem_cons.mp h
    have hsum : total (n :: lengths) = n + total lengths := rfl
    have := ih hrest
    rw [hsum, List.length_cons]
    omega

variable {lengths : List Int} {dynamicFields : Int} {w : List UInt8} {text : String}

/-- Fields have a layout: they are within the limits, and each length is that of a byte. -/
structure Fits (lengths : List Int) (dynamicFields : Int) : Prop where
  nonneg : 0 ≤ dynamicFields
  dynamic : dynamicFields ≤ 5
  fields : lengths.length + dynamicFields ≤ 28
  lengths : ∀ n ∈ lengths, 0 ≤ n ∧ n < 256

def bytes (lengths : List Int) (dynamicFields : Int) : List UInt8 :=
  Bytes.ofNat 2 (total lengths).toNat ++ Bytes.ofNat 1 lengths.length ++
    Bytes.ofNat 1 dynamicFields.toNat ++ lengths.map (fun n => UInt8.ofNat n.toNat)

theorem word_eq_ok : word lengths dynamicFields = .ok w ↔ Fits lengths dynamicFields ∧
    w = bytes lengths dynamicFields ++
      List.replicate (32 - (bytes lengths dynamicFields).length) 0 := by
  simp only [word, bind_eq_ok, mapError_eq_ok, pure_eq_ok]
  constructor
  · intro hh
    obtain ⟨_, hcounts, size, hsize, statics, hstatics, dynamics, hdynamics, each, heach, rfl⟩ := hh
    obtain ⟨hfields, hmost⟩ := checkCounts_eq_ok.mp hcounts
    obtain ⟨-, -, rfl⟩ := Bytes.ofInt_eq_ok.mp hsize
    obtain ⟨-, -, rfl⟩ := Bytes.ofInt_eq_ok.mp hstatics
    obtain ⟨hpos, -, rfl⟩ := Bytes.ofInt_eq_ok.mp hdynamics
    obtain ⟨hlengths, rfl⟩ := Bytes.ofInts_eq_ok.mp heach
    exact ⟨⟨hpos, hmost, hfields, hlengths⟩, rfl⟩
  · intro hh
    obtain ⟨⟨hpos, hmost, hfields, hlengths⟩, rfl⟩ := hh
    have htotal := total_bounds hlengths
    refine ⟨(), checkCounts_eq_ok.mpr ⟨hfields, hmost⟩,
      _, Bytes.ofInt_eq_ok.mpr ⟨htotal.1, ?_, rfl⟩,
      _, Bytes.ofInt_eq_ok.mpr ⟨Int.natCast_nonneg _, ?_, rfl⟩,
      _, Bytes.ofInt_eq_ok.mpr ⟨hpos, ?_, rfl⟩, _, Bytes.ofInts_eq_ok.mpr ⟨hlengths, rfl⟩, rfl⟩
    · simp only [Nat.pow_eq]
      omega
    · simp only [Nat.pow_eq]
      omega
    · simp only [Nat.pow_eq]
      omega

theorem encode_isOk : (∃ text, encode lengths dynamicFields = .ok text) ↔
    Fits lengths dynamicFields := by
  simp only [encode, map_eq_ok, word_eq_ok]
  constructor
  · intro hh
    obtain ⟨_, w, ⟨hfits, -⟩, -⟩ := hh
    exact hfits
  · intro hfits
    exact ⟨_, _, ⟨hfits, rfl⟩, rfl⟩

theorem encode_eq_error_counts {e : ConfigError} :
    encode lengths dynamicFields = .error (.counts e) ↔
      checkCounts (lengths.length + dynamicFields) dynamicFields = .error e := by
  simp only [encode, word, map_eq_error, bind_eq_error, mapError_eq_error, pure_eq_error,
    Error.counts.injEq, exists_eq_right, reduceCtorEq, and_false, exists_false, or_false]

theorem encode_of_tooManyFields (hmany : 28 < lengths.length + dynamicFields) :
    encode lengths dynamicFields = .error (.counts .tooManyFields) :=
  encode_eq_error_counts.mpr (if_pos hmany)

theorem encode_of_tooManyDynamic (hfields : lengths.length + dynamicFields ≤ 28)
    (hmany : 5 < dynamicFields) :
    encode lengths dynamicFields = .error (.counts .tooManyDynamicFields) :=
  encode_eq_error_counts.mpr ((if_neg (Int.not_lt.mpr hfields)).trans (if_pos hmany))

theorem encode_eq_error_range (hfields : lengths.length + dynamicFields ≤ 28)
    (hmost : dynamicFields ≤ 5) {e : Error} (h : encode lengths dynamicFields = .error e) :
    ∃ r, e = .range r := by
  cases e with
  | counts e =>
    have hcounts := encode_eq_error_counts.mp h
    rw [checkCounts_eq_ok.mpr ⟨hfields, hmost⟩] at hcounts
    cases hcounts
  | range r => exact ⟨r, rfl⟩

/-- The bytes of a word are the total length, the numbers of the fields, the lengths, and zeros. -/
def Holds (lengths : List Int) (dynamicFields : Int) (w : List UInt8) : Prop :=
  ∃ high low statics dynamics each,
    w = high :: low :: statics :: dynamics ::
      (each ++ List.replicate (28 - lengths.length) (0 : UInt8)) ∧
    Bytes.toNat [high, low] = total lengths ∧ statics.toNat = lengths.length ∧
    dynamics.toNat = dynamicFields ∧ each.map (fun b => Int.ofNat b.toNat) = lengths

theorem word_holds (h : word lengths dynamicFields = .ok w) : Holds lengths dynamicFields w := by
  obtain ⟨hfits, rfl⟩ := word_eq_ok.mp h
  obtain ⟨hpos, hmost, hfields, hlengths⟩ := hfits
  have htotal := total_bounds hlengths
  have hsize : (Bytes.toNat (Bytes.ofNat 2 (total lengths).toNat) : Int) = total lengths := by
    rw [Bytes.toNat_ofNat (by simp only [Nat.pow_eq]; omega)]
    omega
  have hstatics : (UInt8.ofNat lengths.length).toNat = lengths.length := by
    rw [UInt8.toNat_ofNat']
    omega
  have hdynamics : ((UInt8.ofNat dynamicFields.toNat).toNat : Int) = dynamicFields := by
    rw [UInt8.toNat_ofNat']
    omega
  have heach : (lengths.map fun n => UInt8.ofNat n.toNat).map (fun b => Int.ofNat b.toNat) =
      lengths := by
    rw [List.map_map, List.map_congr_left (g := id), List.map_id]
    intro n hn
    have := hlengths n hn
    simp only [Function.comp_apply, UInt8.toNat_ofNat', Int.ofNat_eq_natCast, id_eq]
    omega
  have hzeros : 32 - (bytes lengths dynamicFields).length = 28 - lengths.length := by
    have hlength : (bytes lengths dynamicFields).length = 4 + lengths.length := by
      simp only [bytes, Bytes.ofNat, List.length_append, List.length_map, List.length_cons,
        List.length_nil]
    omega
  refine ⟨UInt8.ofNat ((total lengths).toNat / 256), UInt8.ofNat (total lengths).toNat,
    UInt8.ofNat lengths.length, UInt8.ofNat dynamicFields.toNat,
    lengths.map fun n => UInt8.ofNat n.toNat, ?_, hsize, hstatics, hdynamics, heach⟩
  rw [hzeros]
  rfl

theorem Holds.length_eq (h : Holds lengths dynamicFields w) (hfields : lengths.length ≤ 28) :
    w.length = 32 := by
  obtain ⟨high, low, statics, dynamics, each, rfl, -, -, -, heach⟩ := h
  have hlength := congrArg List.length heach
  rw [List.length_map] at hlength
  simp only [List.length_cons, List.length_append, List.length_replicate]
  omega

theorem Holds.ofWord? (h : Holds lengths dynamicFields w) :
    ofWord? w = some ⟨total lengths, lengths.length, dynamicFields, lengths⟩ := by
  obtain ⟨high, low, statics, dynamics, each, rfl, htotal, hstatics, hdynamics, heach⟩ := h
  have hlength : statics.toNat = each.length := by
    rw [hstatics, ← heach, List.length_map]
  have hzeros : ((each ++ List.replicate (28 - lengths.length) (0 : UInt8)).drop
      statics.toNat).all (· = 0) = true := by
    rw [hlength, List.drop_left]
    simp
  rw [FieldLayout.ofWord?, if_pos hzeros, htotal, hdynamics, hlength, List.take_left, heach,
    ← hlength, hstatics]

theorem encode_holds (h : encode lengths dynamicFields = .ok text) : Bytes.IsWord text ∧
    ∃ w, Bytes.ofHex? text = some w ∧ Holds lengths dynamicFields w := by
  obtain ⟨w, hw, rfl⟩ := map_eq_ok.mp h
  have hfits := (word_eq_ok.mp hw).1
  have hholds := word_holds hw
  have hlength : lengths.length ≤ 28 := by
    have hpos := hfits.nonneg
    have hfields := hfits.fields
    omega
  exact ⟨Bytes.hex_isWord (hholds.length_eq hlength), w, Bytes.ofHex?_hex w, hholds⟩

theorem decode_encode (h : encode lengths dynamicFields = .ok text) :
    decode text = some ⟨total lengths, lengths.length, dynamicFields, lengths⟩ := by
  obtain ⟨-, w, hw, hholds⟩ := encode_holds h
  rw [decode, hw]
  exact hholds.ofWord?

end SolidityTables.FieldLayout

import SolidityTables.Proofs.Attempt
import SolidityTables.Proofs.Utf8

/-!
# Reading encoded texts

The bytes of a text are read back to its characters, and nothing else is read as a text. If the
bytes end in the middle of a character, the fault names those of its bytes that are there; once
these are left out, the characters before it are read as they were.
-/

namespace SolidityTables.Utf8

open Attempt

inductive Completes : Pending → List UInt8 → Char → Prop
  | last {p : Pending} {b : UInt8} {c : Char} (hb : p.next.1 ≤ b ∧ b ≤ p.next.2)
    (hlater : p.later = []) (hc : p.bits * 64 + (b.toNat - 0x80) = c.toNat) : Completes p [b] c
  | more {p : Pending} {b : UInt8} {next : Range} {later : List Range} {bs : List UInt8} {c : Char}
    (hb : p.next.1 ≤ b ∧ b ≤ p.next.2) (hlater : p.later = next :: later)
    (h : Completes ⟨p.read ++ [b], p.bits * 64 + (b.toNat - 0x80), next, later⟩ bs c) :
    Completes p (b :: bs) c

variable {p : Pending} {bs : List UInt8} {c : Char}

theorem decodeFrom_of_completes (h : Completes p bs c) (pos : Nat) (rest : List UInt8) :
    decodeFrom pos (some p) (bs ++ rest) =
      (decodeFrom (pos + bs.length) none rest).map (c :: ·) := by
  induction h generalizing pos with
  | @last p b c hb hlater hc =>
    rw [List.singleton_append, decodeFrom, if_pos hb]
    simp only [hlater, hc, Char.ofNat_toNat, List.length_singleton]
    cases decodeFrom (pos + 1) none rest <;> rfl
  | @more p b next later bs c hb hlater h ih =>
    rw [List.cons_append, decodeFrom, if_pos hb]
    simp only [hlater, ih, List.length_cons]
    rw [Nat.add_assoc, Nat.add_comm 1]

theorem decodeFrom_of_broken (h : Completes p bs c) (pos : Nat) {n : Nat}
    (hn : n < bs.length) : decodeFrom (p.read.length + pos) (some p) (bs.take n) =
      .error ⟨pos, p.read ++ bs.take n, .unexpectedEnd⟩ := by
  induction h generalizing n with
  | @last p b c hb hlater hc =>
    obtain rfl : n = 0 := Nat.lt_one_iff.mp hn
    simp [decodeFrom]
  | @more p b next later bs c hb hlater h ih =>
    cases n with
    | zero => simp [decodeFrom]
    | succ n =>
      have hrest := ih (Nat.lt_of_succ_lt_succ hn)
      simp only [List.length_append, List.length_singleton, List.append_assoc] at hrest
      rw [List.take_succ_cons, decodeFrom, if_pos hb]
      simp only [hlater]
      rw [Nat.add_right_comm, hrest]
      rfl

theorem lead_two {b : UInt8} (hfirst : 0xC2 ≤ b.toNat) (hlast : b.toNat ≤ 0xDF) :
    lead b = some ⟨[b], b.toNat - 0xC0, continuation, []⟩ := by
  have hb : 0xC2 ≤ b ∧ b ≤ 0xDF :=
    ⟨UInt8.le_iff_toNat_le.mpr hfirst, UInt8.le_iff_toNat_le.mpr hlast⟩
  rw [lead, if_pos hb]

theorem lead_three {b : UInt8} (hfirst : 0xE0 ≤ b.toNat) (hlast : b.toNat ≤ 0xEF) :
    lead b = some ⟨[b], b.toNat - 0xE0, if b.toNat = 0xE0 then (0xA0, 0xBF)
      else if b.toNat = 0xED then (0x80, 0x9F) else continuation, [continuation]⟩ := by
  simp only [lead, UInt8.le_iff_toNat_le, ← UInt8.toNat_inj, UInt8.reduceToNat]
  grind

theorem lead_four {b : UInt8} (hfirst : 0xF0 ≤ b.toNat) (hlast : b.toNat ≤ 0xF4) :
    lead b = some ⟨[b], b.toNat - 0xF0, if b.toNat = 0xF0 then (0x90, 0xBF)
      else if b.toNat = 0xF4 then (0x80, 0x8F) else continuation,
      [continuation, continuation]⟩ := by
  simp only [lead, UInt8.le_iff_toNat_le, ← UInt8.toNat_inj, UInt8.reduceToNat]
  grind

theorem toNat_ofNat {n : Nat} (h : n < 256) : (UInt8.ofNat n).toNat = n := by
  rw [UInt8.toNat_ofNat']
  exact Nat.mod_eq_of_lt h

theorem ofNat_between (first last : Nat) {n : Nat} (hwidth : last < 256) (hfirst : first ≤ n)
    (hlast : n ≤ last) :
    UInt8.ofNat first ≤ UInt8.ofNat n ∧ UInt8.ofNat n ≤ UInt8.ofNat last := by
  rw [UInt8.le_iff_toNat_le, UInt8.le_iff_toNat_le, toNat_ofNat hwidth, toNat_ofNat (by omega),
    toNat_ofNat (by omega)]
  exact ⟨hfirst, hlast⟩

theorem ofNat_mem_continuation {n : Nat} (h : n < 64) :
    continuation.1 ≤ UInt8.ofNat (n + 128) ∧ UInt8.ofNat (n + 128) ≤ continuation.2 :=
  ofNat_between 0x80 0xBF (by decide) (by omega) (by omega)

theorem utf8EncodeChar_of_ascii (h : c.toNat ≤ 0x7F) :
    String.utf8EncodeChar c = [UInt8.ofNat c.toNat] :=
  if_pos h

theorem utf8EncodeChar_two (hfirst : 0x7F < c.toNat) (hlast : c.toNat ≤ 0x7FF) :
    String.utf8EncodeChar c =
      [UInt8.ofNat (c.toNat / 64 % 32 + 192), UInt8.ofNat (c.toNat % 64 + 128)] :=
  (if_neg (Nat.not_le.mpr hfirst)).trans (if_pos hlast)

theorem utf8EncodeChar_three (hfirst : 0x7FF < c.toNat) (hlast : c.toNat ≤ 0xFFFF) :
    String.utf8EncodeChar c = [UInt8.ofNat (c.toNat / 4096 % 16 + 224),
      UInt8.ofNat (c.toNat / 64 % 64 + 128), UInt8.ofNat (c.toNat % 64 + 128)] := by
  have hone : ¬c.toNat ≤ 0x7F := by omega
  exact ((if_neg hone).trans (if_neg (Nat.not_le.mpr hfirst))).trans (if_pos hlast)

theorem utf8EncodeChar_four (hfirst : 0xFFFF < c.toNat) :
    String.utf8EncodeChar c = [UInt8.ofNat (c.toNat / 262144 % 8 + 240),
      UInt8.ofNat (c.toNat / 4096 % 64 + 128), UInt8.ofNat (c.toNat / 64 % 64 + 128),
      UInt8.ofNat (c.toNat % 64 + 128)] := by
  have hone : ¬c.toNat ≤ 0x7F := by omega
  have htwo : ¬c.toNat ≤ 0x7FF := by omega
  exact ((if_neg hone).trans (if_neg htwo)).trans (if_neg (Nat.not_le.mpr hfirst))

theorem exists_lead_two (hfirst : 0x7F < c.toNat) (hlast : c.toNat ≤ 0x7FF) :
    ∃ b bs p, String.utf8EncodeChar c = b :: bs ∧ 0x7F < b.toNat ∧ lead b = some p ∧
      p.read = [b] ∧ Completes p bs c := by
  have hencode := utf8EncodeChar_two hfirst hlast
  have hb := toNat_ofNat (n := c.toNat / 64 % 32 + 192) (by omega)
  have hb₁ := toNat_ofNat (n := c.toNat % 64 + 128) (by omega)
  refine ⟨_, _, _, hencode, by omega, lead_two (by omega) (by omega), rfl, ?_⟩
  refine .last (ofNat_mem_continuation (by omega)) rfl ?_
  simp only [hb, hb₁]
  omega

theorem exists_lead_three (hfirst : 0x7FF < c.toNat) (hlast : c.toNat ≤ 0xFFFF) :
    ∃ b bs p, String.utf8EncodeChar c = b :: bs ∧ 0x7F < b.toNat ∧ lead b = some p ∧
      p.read = [b] ∧ Completes p bs c := by
  have hvalid : c.toNat < 0xD800 ∨ 0xDFFF < c.toNat ∧ c.toNat < 0x110000 := c.valid
  have hencode := utf8EncodeChar_three hfirst hlast
  have hb := toNat_ofNat (n := c.toNat / 4096 % 16 + 224) (by omega)
  have hb₁ := toNat_ofNat (n := c.toNat / 64 % 64 + 128) (by omega)
  have hb₂ := toNat_ofNat (n := c.toNat % 64 + 128) (by omega)
  refine ⟨_, _, _, hencode, by omega, lead_three (by omega) (by omega), rfl, ?_⟩
  refine .more ?_ rfl (.last (ofNat_mem_continuation (by omega)) rfl ?_)
  · dsimp only
    split_ifs with hlow hhigh
    · exact ofNat_between 0xA0 0xBF (by decide) (by omega) (by omega)
    · exact ofNat_between 0x80 0x9F (by decide) (by omega) (by omega)
    · exact ofNat_mem_continuation (by omega)
  · simp only [hb, hb₁, hb₂]
    omega

theorem exists_lead_four (hfirst : 0xFFFF < c.toNat) :
    ∃ b bs p, String.utf8EncodeChar c = b :: bs ∧ 0x7F < b.toNat ∧ lead b = some p ∧
      p.read = [b] ∧ Completes p bs c := by
  have hvalid : c.toNat < 0xD800 ∨ 0xDFFF < c.toNat ∧ c.toNat < 0x110000 := c.valid
  have hencode := utf8EncodeChar_four hfirst
  have hb := toNat_ofNat (n := c.toNat / 262144 % 8 + 240) (by omega)
  have hb₁ := toNat_ofNat (n := c.toNat / 4096 % 64 + 128) (by omega)
  have hb₂ := toNat_ofNat (n := c.toNat / 64 % 64 + 128) (by omega)
  have hb₃ := toNat_ofNat (n := c.toNat % 64 + 128) (by omega)
  refine ⟨_, _, _, hencode, by omega, lead_four (by omega) (by omega), rfl, ?_⟩
  refine .more ?_ rfl (.more (ofNat_mem_continuation (by omega)) rfl
    (.last (ofNat_mem_continuation (by omega)) rfl ?_))
  · dsimp only
    split_ifs with hlow hhigh
    · exact ofNat_between 0x90 0xBF (by decide) (by omega) (by omega)
    · exact ofNat_between 0x80 0x8F (by decide) (by omega) (by omega)
    · exact ofNat_mem_continuation (by omega)
  · simp only [hb, hb₁, hb₂, hb₃]
    omega

theorem exists_lead (h : 0x7F < c.toNat) : ∃ b bs p, String.utf8EncodeChar c = b :: bs ∧
    0x7F < b.toNat ∧ lead b = some p ∧ p.read = [b] ∧ Completes p bs c := by
  by_cases htwo : c.toNat ≤ 0x7FF
  · exact exists_lead_two h htwo
  · by_cases hthree : c.toNat ≤ 0xFFFF
    · exact exists_lead_three (Nat.not_le.mp htwo) hthree
    · exact exists_lead_four (Nat.not_le.mp hthree)

theorem decodeFrom_ascii (pos : Nat) {b : UInt8} (h : b.toNat ≤ 0x7F) (rest : List UInt8) :
    decodeFrom pos none (b :: rest) =
      (decodeFrom (pos + 1) none rest).map (Char.ofNat b.toNat :: ·) := by
  have hb : b ≤ 0x7F := UInt8.le_iff_toNat_le.mpr h
  rw [decodeFrom, if_pos hb]
  cases decodeFrom (pos + 1) none rest <;> rfl

theorem decodeFrom_lead (pos : Nat) {b : UInt8} (h : 0x7F < b.toNat) (hlead : lead b = some p)
    (rest : List UInt8) : decodeFrom pos none (b :: rest) = decodeFrom (pos + 1) (some p) rest := by
  have hb : ¬b ≤ 0x7F := mt UInt8.le_iff_toNat_le.mp (Nat.not_le.mpr h)
  rw [decodeFrom, if_neg hb]
  simp only [hlead]

theorem decodeFrom_char (pos : Nat) (c : Char) (rest : List UInt8) :
    decodeFrom pos none (String.utf8EncodeChar c ++ rest) =
      (decodeFrom (pos + c.utf8Size) none rest).map (c :: ·) := by
  rw [← String.length_utf8EncodeChar c]
  by_cases hascii : c.toNat ≤ 0x7F
  · have hb := toNat_ofNat (show c.toNat < 256 by omega)
    rw [utf8EncodeChar_of_ascii hascii, List.singleton_append, decodeFrom_ascii pos (by omega), hb,
      Char.ofNat_toNat, List.length_singleton]
  · obtain ⟨b, bs, p, hencode, hb, hlead, -, hcompletes⟩ := exists_lead (Nat.not_le.mp hascii)
    rw [hencode, List.cons_append, decodeFrom_lead pos hb hlead,
      decodeFrom_of_completes hcompletes, List.length_cons, Nat.add_assoc, Nat.add_comm 1]

theorem decodeFrom_cut (pos : Nat) (c : Char) {n : Nat} (hpos : 0 < n) (hn : n < c.utf8Size) :
    decodeFrom pos none ((String.utf8EncodeChar c).take n) =
      .error ⟨pos, (String.utf8EncodeChar c).take n, .unexpectedEnd⟩ := by
  rw [← String.length_utf8EncodeChar c] at hn
  by_cases hascii : c.toNat ≤ 0x7F
  · rw [utf8EncodeChar_of_ascii hascii, List.length_singleton] at hn
    omega
  · obtain ⟨b, bs, p, hencode, hb, hlead, hread, hcompletes⟩ := exists_lead (Nat.not_le.mp hascii)
    obtain ⟨n, rfl⟩ := Nat.exists_eq_succ_of_ne_zero (Nat.pos_iff_ne_zero.mp hpos)
    rw [hencode, List.length_cons] at hn
    have hbroken := decodeFrom_of_broken hcompletes pos (Nat.lt_of_succ_lt_succ hn)
    rw [hread, List.length_singleton, Nat.add_comm] at hbroken
    rw [hencode, List.take_succ_cons, decodeFrom_lead pos hb hlead, hbroken]
    rfl

theorem decodeFrom_encode (pos : Nat) (cs : List Char) (rest : List UInt8) :
    decodeFrom pos none (cs.flatMap String.utf8EncodeChar ++ rest) =
      (decodeFrom (pos + (cs.flatMap String.utf8EncodeChar).length) none rest).map (cs ++ ·) := by
  induction cs generalizing pos with
  | nil => cases h : decodeFrom pos none rest <;> simp [Except.map, h]
  | cons c cs ih =>
    rw [List.flatMap_cons, List.append_assoc, decodeFrom_char, ih, List.length_append,
      String.length_utf8EncodeChar, Nat.add_assoc]
    cases decodeFrom (pos + (c.utf8Size + (cs.flatMap String.utf8EncodeChar).length)) none rest <;>
      rfl

theorem decode_encode (s : String) : decode (encode s) = .ok s.toList := by
  have h := decodeFrom_encode 0 s.toList []
  rw [List.append_nil] at h
  rw [decode, encode, h]
  simp [decodeFrom, Except.map]

section Sound

variable {b b₁ b₂ b₃ : UInt8} {pos : Nat} {cs : List Char}

theorem ofNat_eq {n : Nat} (h : n = b.toNat) : UInt8.ofNat n = b := by
  rw [h, UInt8.ofNat_toNat]

theorem toNat_char {n : Nat} (h : n < 0xD800 ∨ 0xDFFF < n ∧ n < 0x110000) :
    (Char.ofNat n).toNat = n := by
  rw [Char.ofNat, dif_pos h]
  rfl

theorem encode_two (hb : 0xC2 ≤ b.toNat ∧ b.toNat ≤ 0xDF)
    (hb₁ : 0x80 ≤ b₁.toNat ∧ b₁.toNat ≤ 0xBF)
    (hc : c.toNat = (b.toNat - 0xC0) * 64 + (b₁.toNat - 0x80)) :
    String.utf8EncodeChar c = [b, b₁] := by
  rw [utf8EncodeChar_two (by omega) (by omega), ofNat_eq (b := b) (by omega),
    ofNat_eq (b := b₁) (by omega)]

theorem encode_three (hb : 0xE0 ≤ b.toNat ∧ b.toNat ≤ 0xEF)
    (hb₁ : 0x80 ≤ b₁.toNat ∧ b₁.toNat ≤ 0xBF) (hb₂ : 0x80 ≤ b₂.toNat ∧ b₂.toNat ≤ 0xBF)
    (hlong : b.toNat = 0xE0 → 0xA0 ≤ b₁.toNat)
    (hc : c.toNat = ((b.toNat - 0xE0) * 64 + (b₁.toNat - 0x80)) * 64 + (b₂.toNat - 0x80)) :
    String.utf8EncodeChar c = [b, b₁, b₂] := by
  rw [utf8EncodeChar_three (by omega) (by omega), ofNat_eq (b := b) (by omega),
    ofNat_eq (b := b₁) (by omega), ofNat_eq (b := b₂) (by omega)]

theorem encode_four (hb : 0xF0 ≤ b.toNat ∧ b.toNat ≤ 0xF4)
    (hb₁ : 0x80 ≤ b₁.toNat ∧ b₁.toNat ≤ 0xBF) (hb₂ : 0x80 ≤ b₂.toNat ∧ b₂.toNat ≤ 0xBF)
    (hb₃ : 0x80 ≤ b₃.toNat ∧ b₃.toNat ≤ 0xBF) (hlong : b.toNat = 0xF0 → 0x90 ≤ b₁.toNat)
    (hc : c.toNat = (((b.toNat - 0xF0) * 64 + (b₁.toNat - 0x80)) * 64 + (b₂.toNat - 0x80)) * 64 +
      (b₃.toNat - 0x80)) :
    String.utf8EncodeChar c = [b, b₁, b₂, b₃] := by
  rw [utf8EncodeChar_four (by omega), ofNat_eq (b := b) (by omega),
    ofNat_eq (b := b₁) (by omega), ofNat_eq (b := b₂) (by omega), ofNat_eq (b := b₃) (by omega)]

theorem lead_range (h : lead b = some p) :
    (0xC2 ≤ b.toNat ∧ b.toNat ≤ 0xDF) ∨ (0xE0 ≤ b.toNat ∧ b.toNat ≤ 0xEF) ∨
      (0xF0 ≤ b.toNat ∧ b.toNat ≤ 0xF4) := by
  simp only [lead, UInt8.le_iff_toNat_le, ← UInt8.toNat_inj, UInt8.reduceToNat] at h
  grind

theorem decodeFrom_some_eq_ok (h : decodeFrom pos (some p) bs = .ok cs) :
    ∃ b rest, bs = b :: rest ∧ (p.next.1.toNat ≤ b.toNat ∧ b.toNat ≤ p.next.2.toNat) ∧
      match p.later with
      | [] => ∃ cs', cs = Char.ofNat (p.bits * 64 + (b.toNat - 0x80)) :: cs' ∧
          decodeFrom (pos + 1) none rest = .ok cs'
      | next :: later => decodeFrom (pos + 1)
          (some ⟨p.read ++ [b], p.bits * 64 + (b.toNat - 0x80), next, later⟩) rest = .ok cs := by
  cases bs with
  | nil => cases h
  | cons b rest =>
    rw [decodeFrom] at h
    split at h
    next hb =>
      refine ⟨b, rest, rfl, ⟨UInt8.le_iff_toNat_le.mp hb.1, UInt8.le_iff_toNat_le.mp hb.2⟩, ?_⟩
      dsimp only at h
      generalize p.later = later at h
      cases later with
      | nil =>
        obtain ⟨cs', hrest, hcs⟩ := bind_eq_ok.mp h
        exact ⟨cs', (pure_eq_ok.mp hcs).symm, hrest⟩
      | cons next later => exact h
    next => cases h

def ReadsFirst (bytes : List UInt8) (cs : List Char) : Prop :=
  ∃ c cs' rest pos, cs = c :: cs' ∧ bytes = String.utf8EncodeChar c ++ rest ∧
    decodeFrom pos none rest = .ok cs'

theorem readsFirst_two (hb : 0xC2 ≤ b.toNat ∧ b.toNat ≤ 0xDF) (hlead : lead b = some p)
    (h : decodeFrom pos (some p) bs = .ok cs) : ReadsFirst (b :: bs) cs := by
  rw [lead_two hb.1 hb.2] at hlead
  cases hlead
  obtain ⟨b₁, rest, rfl, hb₁, cs', rfl, hrest⟩ := decodeFrom_some_eq_ok h
  simp only [continuation, UInt8.reduceToNat] at hb₁
  have hchar := encode_two hb hb₁ (toNat_char (by omega))
  exact ⟨_, cs', rest, _, rfl, congrArg (· ++ rest) hchar.symm, hrest⟩

theorem readsFirst_three (hb : 0xE0 ≤ b.toNat ∧ b.toNat ≤ 0xEF) (hlead : lead b = some p)
    (h : decodeFrom pos (some p) bs = .ok cs) : ReadsFirst (b :: bs) cs := by
  rw [lead_three hb.1 hb.2] at hlead
  cases hlead
  obtain ⟨b₁, rest, rfl, hb₁, h⟩ := decodeFrom_some_eq_ok h
  obtain ⟨b₂, rest, rfl, hb₂, cs', rfl, hrest⟩ := decodeFrom_some_eq_ok h
  have hrange : (0x80 ≤ b₁.toNat ∧ b₁.toNat ≤ 0xBF) ∧ (b.toNat = 0xE0 → 0xA0 ≤ b₁.toNat) ∧
      (b.toNat = 0xED → b₁.toNat ≤ 0x9F) := by
    simp only [continuation] at hb₁
    split_ifs at hb₁ <;> simp only [UInt8.reduceToNat] at hb₁ <;> omega
  simp only [continuation, UInt8.reduceToNat] at hb₂
  have hchar := encode_three hb hrange.1 hb₂ hrange.2.1 (toNat_char (by omega))
  exact ⟨_, cs', rest, _, rfl, congrArg (· ++ rest) hchar.symm, hrest⟩

theorem readsFirst_four (hb : 0xF0 ≤ b.toNat ∧ b.toNat ≤ 0xF4) (hlead : lead b = some p)
    (h : decodeFrom pos (some p) bs = .ok cs) : ReadsFirst (b :: bs) cs := by
  rw [lead_four hb.1 hb.2] at hlead
  cases hlead
  obtain ⟨b₁, rest, rfl, hb₁, h⟩ := decodeFrom_some_eq_ok h
  obtain ⟨b₂, rest, rfl, hb₂, h⟩ := decodeFrom_some_eq_ok h
  obtain ⟨b₃, rest, rfl, hb₃, cs', rfl, hrest⟩ := decodeFrom_some_eq_ok h
  have hrange : (0x80 ≤ b₁.toNat ∧ b₁.toNat ≤ 0xBF) ∧ (b.toNat = 0xF0 → 0x90 ≤ b₁.toNat) ∧
      (b.toNat = 0xF4 → b₁.toNat ≤ 0x8F) := by
    simp only [continuation] at hb₁
    split_ifs at hb₁ <;> simp only [UInt8.reduceToNat] at hb₁ <;> omega
  simp only [continuation, UInt8.reduceToNat] at hb₂ hb₃
  have hchar := encode_four hb hrange.1 hb₂ hb₃ hrange.2.1 (toNat_char (by omega))
  exact ⟨_, cs', rest, _, rfl, congrArg (· ++ rest) hchar.symm, hrest⟩

theorem decodeFrom_first (h : decodeFrom pos none (b :: bs) = .ok cs) :
    ReadsFirst (b :: bs) cs := by
  by_cases hascii : b.toNat ≤ 0x7F
  · rw [decodeFrom_ascii pos hascii] at h
    obtain ⟨cs', hrest, rfl⟩ := map_eq_ok.mp h
    have hc := toNat_char (n := b.toNat) (by omega)
    refine ⟨_, cs', bs, _, rfl, ?_, hrest⟩
    rw [utf8EncodeChar_of_ascii (by omega), hc, UInt8.ofNat_toNat]
    rfl
  · cases hlead : lead b with
    | none =>
      have hb : ¬b ≤ 0x7F := mt UInt8.le_iff_toNat_le.mp hascii
      rw [decodeFrom, if_neg hb, hlead] at h
      cases h
    | some p =>
      rw [decodeFrom_lead pos (Nat.not_le.mp hascii) hlead] at h
      rcases lead_range hlead with hb | hb | hb
      · exact readsFirst_two hb hlead h
      · exact readsFirst_three hb hlead h
      · exact readsFirst_four hb hlead h

theorem decodeFrom_eq_ok (h : decodeFrom pos none bs = .ok cs) :
    bs = cs.flatMap String.utf8EncodeChar := by
  induction cs generalizing pos bs with
  | nil =>
    cases bs with
    | nil => rfl
    | cons b bs =>
      obtain ⟨c, cs', rest, pos', hcs, -, -⟩ := decodeFrom_first h
      cases hcs
  | cons c cs ih =>
    cases bs with
    | nil => cases h
    | cons b bs =>
      obtain ⟨c', cs', rest, pos', hcs, hbytes, hrest⟩ := decodeFrom_first h
      cases hcs
      rw [hbytes, ih hrest, List.flatMap_cons]

theorem decode_eq_ok_iff {s : String} : decode bs = .ok s.toList ↔ encode s = bs := by
  constructor
  · intro h
    exact (decodeFrom_eq_ok h).symm
  · intro h
    rw [← h, decode_encode]

end Sound

theorem lead_read {b : UInt8} (h : lead b = some p) : p.read = [b] := by
  unfold lead at h
  split_ifs at h <;> cases h <;> rfl

def Fault.Occurs (f : Fault) (start : Nat) (bytes : List UInt8) : Prop :=
  f.bytes ≠ [] ∧ ∃ before after, bytes = before ++ (f.bytes ++ after) ∧
    f.start = start + before.length

theorem Fault.Occurs.append {f : Fault} {start : Nat} {bytes : List UInt8} (front : List UInt8)
    (h : f.Occurs (start + front.length) bytes) : f.Occurs start (front ++ bytes) := by
  obtain ⟨hne, before, after, rfl, hstart⟩ := h
  refine ⟨hne, front ++ before, after, (List.append_assoc ..).symm, ?_⟩
  rw [hstart, List.length_append, Nat.add_assoc]

theorem Fault.occurs_first {read : List UInt8} (hread : read ≠ []) (start : Nat) (defect : Defect)
    (rest : List UInt8) : Fault.Occurs ⟨start, read, defect⟩ start (read ++ rest) :=
  ⟨hread, [], rest, rfl, rfl⟩

def readOf : Option Pending → List UInt8
  | none => []
  | some p => p.read

theorem decodeFrom_fault {start pos : Nat} {pending : Option Pending} {bytes : List UInt8}
    {f : Fault} (hpos : pos = start + (readOf pending).length)
    (hread : pending = none ∨ readOf pending ≠ []) (h : decodeFrom pos pending bytes = .error f) :
    f.Occurs start (readOf pending ++ bytes) := by
  fun_induction decodeFrom pos pending bytes generalizing start with
  | case1 => cases h
  | case2 pos p =>
    cases h
    have hstart : pos - p.read.length = start := by rw [hpos, readOf, Nat.add_sub_cancel]
    rw [hstart]
    exact Fault.occurs_first (hread.resolve_left (Option.some_ne_none p)) start _ []
  | case3 pos b bs hb ih =>
    have hrest := (bind_eq_error.mp h).resolve_right (by simp [pure_eq_error])
    exact (ih (congrArg (· + 1) hpos) (.inl rfl) hrest).append [b]
  | case4 pos b bs hb hlead =>
    cases h
    rw [hpos]
    exact Fault.occurs_first (List.cons_ne_nil b []) start _ bs
  | case5 pos b bs hb p hlead ih =>
    have hp : readOf (some p) = [b] := lead_read hlead
    rw [hp] at ih
    exact ih (congrArg (· + 1) hpos) (.inr (List.cons_ne_nil b [])) h
  | case6 pos p b bs hb bits hlater =>
    rename_i ih
    have hrest := (bind_eq_error.mp h).resolve_right (by simp [pure_eq_error])
    have hocc := @ih (start + (p.read ++ [b]).length)
      (by rw [hpos, readOf, readOf, List.length_append]; rfl) (.inl rfl) hrest
    have happend := hocc.append (p.read ++ [b])
    rwa [List.append_assoc] at happend
  | case7 pos p b bs hb bits next later hlater =>
    rename_i ih
    have hne : p.read ++ [b] ≠ [] := List.append_ne_nil_of_right_ne_nil _ (List.cons_ne_nil b [])
    have hocc := @ih start (by rw [hpos, readOf, readOf, List.length_append]; rfl) (.inr hne) h
    rwa [readOf, List.append_assoc] at hocc
  | case8 pos p b bs hb =>
    cases h
    have hstart : pos - p.read.length = start := by rw [hpos, readOf, Nat.add_sub_cancel]
    rw [hstart]
    exact Fault.occurs_first (hread.resolve_left (Option.some_ne_none p)) start _ (b :: bs)

theorem decode_fault {bytes : List UInt8} {f : Fault} (h : decode bytes = .error f) :
    f.Occurs 0 bytes :=
  @decodeFrom_fault 0 0 none bytes f rfl (.inl rfl) h

def Fault.around (f : Fault) (bytes : List UInt8) : List UInt8 :=
  bytes.take f.start ++ bytes.drop (f.start + f.bytes.length)

theorem Fault.around_append {f : Fault} {before : List UInt8} (h : f.start = before.length)
    (after : List UInt8) : f.around (before ++ (f.bytes ++ after)) = before ++ after := by
  rw [around, h, List.take_left, ← List.length_append, ← List.append_assoc, List.drop_left]

theorem Fault.around_length {f : Fault} {bytes : List UInt8} (h : f.Occurs 0 bytes) :
    (f.around bytes).length < bytes.length := by
  obtain ⟨hne, before, after, rfl, hstart⟩ := h
  have hpos := List.length_pos_iff.mpr hne
  rw [around_append (hstart.trans (Nat.zero_add _))]
  simp only [List.length_append]
  omega

/-- The characters that bytes stand for once those of every fault are left out. -/
def readable (bytes : List UInt8) : List Char :=
  match _h : decode bytes with
  | .ok cs => cs
  | .error f => readable (f.around bytes)
termination_by bytes.length
decreasing_by exact Fault.around_length (decode_fault _h)

theorem readable_of_ok {bytes : List UInt8} {cs : List Char} (h : decode bytes = .ok cs) :
    readable bytes = cs := by
  rw [readable]
  split
  next ds hds => rw [h] at hds; cases hds; rfl
  next f hf => rw [h] at hf; cases hf

theorem readable_of_fault {bytes : List UInt8} {f : Fault} (h : decode bytes = .error f) :
    readable bytes = readable (f.around bytes) := by
  rw [readable]
  split
  next ds hds => rw [h] at hds; cases hds
  next f hf => rw [h] at hf; cases hf; rfl

theorem take_flatMap (room : Nat) (cs : List Char) : ∃ c n, n < c.utf8Size ∧
    (cs.flatMap String.utf8EncodeChar).take room =
      (fitting room cs).flatMap String.utf8EncodeChar ++ (String.utf8EncodeChar c).take n := by
  induction cs generalizing room with
  | nil => exact ⟨'a', 0, by decide, by simp [fitting]⟩
  | cons c cs ih =>
    by_cases hc : c.utf8Size ≤ room
    · obtain ⟨d, n, hn, htake⟩ := ih (room - c.utf8Size)
      refine ⟨d, n, hn, ?_⟩
      rw [fitting, if_pos hc, List.flatMap_cons, List.flatMap_cons, List.take_append,
        List.take_of_length_le (by rwa [String.length_utf8EncodeChar]),
        String.length_utf8EncodeChar, htake, List.append_assoc]
    · refine ⟨c, room, Nat.not_le.mp hc, ?_⟩
      rw [fitting, if_neg hc, List.flatMap_cons, List.take_append_of_le_length]
      · rfl
      · rw [String.length_utf8EncodeChar]
        omega

theorem readable_cut (cs : List Char) (c : Char) {n : Nat} (hn : n < c.utf8Size) :
    readable (cs.flatMap String.utf8EncodeChar ++ (String.utf8EncodeChar c).take n) = cs := by
  have hread : decode (cs.flatMap String.utf8EncodeChar) = .ok cs := by
    have h := decode_encode (String.ofList cs)
    rwa [encode_ofList, String.toList_ofList] at h
  cases n with
  | zero =>
    rw [List.take_zero, List.append_nil]
    exact readable_of_ok hread
  | succ n =>
    have hfault := decodeFrom_encode 0 cs ((String.utf8EncodeChar c).take (n + 1))
    rw [decodeFrom_cut _ c (Nat.succ_pos n) hn, Nat.zero_add] at hfault
    have haround : Fault.around ⟨_, (String.utf8EncodeChar c).take (n + 1), .unexpectedEnd⟩
        (cs.flatMap String.utf8EncodeChar ++ ((String.utf8EncodeChar c).take (n + 1) ++ [])) =
          cs.flatMap String.utf8EncodeChar ++ [] := Fault.around_append rfl []
    rw [List.append_nil, List.append_nil] at haround
    rw [readable_of_fault hfault]
    exact (congrArg readable haround).trans (readable_of_ok hread)

theorem readable_take (room : Nat) (s : String) :
    readable ((encode s).take room) = (truncate room s).toList := by
  obtain ⟨c, n, hn, htake⟩ := take_flatMap room s.toList
  rw [encode, htake, readable_cut _ c hn, truncate, String.toList_ofList]

end SolidityTables.Utf8

import SolidityTables.Json.Token
import SolidityTables.Json.Value
import Mathlib.Data.List.Infix

/-!
# The spelling of numbers

A number is a whole number in decimal digits, then a fraction and an exponent, each of which may be
missing. It is read as far as it goes: what comes next is no digit and begins no fraction and no
exponent.
-/

namespace SolidityTables.Json

structure IsDigits (ds : List Char) : Prop where
  ne_nil : ds ≠ []
  isDigit : ∀ d ∈ ds, d.isDigit = true

structure IsWhole (ds : List Char) : Prop extends IsDigits ds where
  zero : ds.head? = some '0' → ds = ['0']

inductive IsFraction : List Char → List Char → Prop
  | absent : IsFraction [] []
  | present {ds : List Char} (h : IsDigits ds) : IsFraction ('.' :: ds) ds

inductive IsExponent : List Char → Int → Prop
  | plain {e : Char} {ds : List Char} (he : e = 'e' ∨ e = 'E') (h : IsDigits ds) :
    IsExponent (e :: ds) (natOfDigits ds)
  | plus {e : Char} {ds : List Char} (he : e = 'e' ∨ e = 'E') (h : IsDigits ds) :
    IsExponent (e :: '+' :: ds) (natOfDigits ds)
  | minus {e : Char} {ds : List Char} (he : e = 'e' ∨ e = 'E') (h : IsDigits ds) :
    IsExponent (e :: '-' :: ds) (-natOfDigits ds)

def signed (negative : Bool) (n : Nat) : Int :=
  if negative then -n else n

/-- A number without its sign, and its value; whole numbers have at most `limit` digits. -/
inductive IsNumber (limit : Nat) (negative : Bool) : List Char → Json → Prop
  | whole {ds : List Char} (h : IsWhole ds) (hlimit : ds.length ≤ limit) :
    IsNumber limit negative ds (.int (signed negative (natOfDigits ds)))
  | fraction {ds part : List Char} (h : IsWhole ds) (hpart : IsDigits part) :
    IsNumber limit negative (ds ++ '.' :: part)
      (.float (.ofDecimal negative (natOfDigits (ds ++ part)) (-part.length)))
  | exponent {ds f part e : List Char} {power : Int} (h : IsWhole ds) (hf : IsFraction f part)
    (he : IsExponent e power) :
    IsNumber limit negative (ds ++ f ++ e)
      (.float (.ofDecimal negative (natOfDigits (ds ++ part)) (power - part.length)))

/-- What comes next belongs to the number before it. -/
inductive Continues : List Char → Prop
  | digit {d : Char} {cs : List Char} (hd : d.isDigit = true) : Continues (d :: cs)
  | fraction {d : Char} {cs : List Char} (hd : d.isDigit = true) : Continues ('.' :: d :: cs)
  | exponent {e cs : List Char} {power : Int} (he : IsExponent e power) : Continues (e ++ cs)

variable {cs ds part rest : List Char}

theorem head_of_not_continues (h : ¬Continues rest) : ∀ d ∈ rest.head?, d.isDigit = false := by
  intro d hd
  obtain ⟨cs, rfl⟩ := List.head?_eq_some_iff.mp hd
  exact Bool.eq_false_iff.mpr fun hdigit => h (.digit hdigit)

theorem takeWhile_digits (h : ∀ d ∈ ds, d.isDigit = true)
    (hrest : ∀ d ∈ rest.head?, d.isDigit = false) :
    (ds ++ rest).takeWhile Char.isDigit = ds := by
  rw [List.takeWhile_append_of_pos h]
  cases rest with
  | nil => simp
  | cons d rest => simp [hrest d rfl]

theorem isDigits_takeWhile (h : cs.takeWhile Char.isDigit ≠ []) :
    IsDigits (cs.takeWhile Char.isDigit) :=
  ⟨h, fun d hd => List.all_eq_true.mp List.all_takeWhile d hd⟩

theorem head_dropWhile (cs : List Char) :
    ∀ d ∈ (cs.dropWhile Char.isDigit).head?, d.isDigit = false := by
  intro d hd
  have hstop := List.head?_dropWhile_not Char.isDigit cs
  rw [hd] at hstop
  exact hstop

def leadingWhole (cs : List Char) : List Char :=
  match cs with
  | '0' :: _ => ['0']
  | _ => cs.takeWhile Char.isDigit

theorem leadingWhole_append (h : IsWhole ds) (hrest : ∀ d ∈ rest.head?, d.isDigit = false) :
    leadingWhole (ds ++ rest) = ds := by
  unfold leadingWhole
  split
  next tail htail =>
    refine (h.zero ?_).symm
    have hhead := congrArg List.head? htail
    rwa [List.head?_append_of_ne_nil _ h.ne_nil] at hhead
  next => exact takeWhile_digits h.isDigit hrest

theorem leadingWhole_spec (h : leadingWhole cs ≠ []) : IsWhole (leadingWhole cs) ∧
    ∃ rest, cs = leadingWhole cs ++ rest ∧
      (leadingWhole cs ≠ ['0'] → ∀ d ∈ rest.head?, d.isDigit = false) := by
  unfold leadingWhole at *
  split
  next tail => exact ⟨⟨⟨by simp, by simp⟩, fun _ => rfl⟩, tail, rfl, fun hne => absurd rfl hne⟩
  next hzero =>
    have hne : cs.takeWhile Char.isDigit ≠ [] := by
      split at h
      next tail => exact absurd rfl (hzero tail)
      next => exact h
    refine ⟨⟨isDigits_takeWhile hne, fun hhead => ?_⟩,
      cs.dropWhile Char.isDigit, List.takeWhile_append_dropWhile.symm, fun _ => head_dropWhile cs⟩
    obtain ⟨tail, htail⟩ := List.head?_eq_some_iff.mp hhead
    obtain ⟨rest, hrest⟩ := List.takeWhile_prefix Char.isDigit (l := cs)
    rw [htail] at hrest
    exact absurd hrest.symm (hzero _)

theorem fraction_append (h : IsDigits part) (hrest : ∀ d ∈ rest.head?, d.isDigit = false) :
    fraction ('.' :: part ++ rest) = part := by
  obtain ⟨d, part, rfl⟩ := List.exists_cons_of_ne_nil h.ne_nil
  have hd := h.isDigit d List.mem_cons_self
  have htake := takeWhile_digits (fun x hx => h.isDigit x (List.mem_cons_of_mem d hx)) hrest
  simp [fraction, hd, htake]

theorem fraction_eq_nil (h : ¬Continues rest) : fraction rest = [] := by
  unfold fraction
  split
  next d cs =>
    split
    next hd => exact absurd (.fraction hd) h
    next => rfl
  next => rfl

def fractionWidth (part : List Char) : Nat :=
  if part = [] then 0 else part.length + 1

theorem fraction_spec (cs : List Char) : ∃ f rest, cs = f ++ rest ∧
    IsFraction f (fraction cs) ∧ f.length = fractionWidth (fraction cs) := by
  unfold fraction
  split
  next d cs =>
    split
    next hd =>
      refine ⟨'.' :: d :: cs.takeWhile Char.isDigit, cs.dropWhile Char.isDigit, ?_, ?_, ?_⟩
      · simp
      · refine .present ⟨by simp, ?_⟩
        rw [List.forall_mem_cons]
        exact ⟨hd, fun x hx => List.all_eq_true.mp List.all_takeWhile x hx⟩
      · simp [fractionWidth]
    next => exact ⟨[], _, rfl, .absent, rfl⟩
  next => exact ⟨[], _, rfl, .absent, rfl⟩

def power (below : Bool) (digits : List Char) : Int :=
  if below then Int.negOfNat (natOfDigits digits) else Int.ofNat (natOfDigits digits)

theorem exponent_spec {below : Bool} {digits : List Char} {width : Nat}
    (h : exponent cs = some (below, digits, width)) : ∃ e rest, cs = e ++ rest ∧
      e.length = width ∧ IsExponent e (power below digits) := by
  unfold exponent at h
  split at h
  next e tail =>
    split at h
    next he =>
      dsimp only at h
      split at h <;> dsimp only at h <;> split at h
      next => cases h
      next digits hne =>
        cases h
        refine ⟨e :: '-' :: digits.takeWhile Char.isDigit, digits.dropWhile Char.isDigit, ?_, ?_,
          .minus he (isDigits_takeWhile hne)⟩
        · simp
        · simp only [List.length_cons]
          omega
      next => cases h
      next digits hne =>
        cases h
        refine ⟨e :: '+' :: digits.takeWhile Char.isDigit, digits.dropWhile Char.isDigit, ?_, ?_,
          .plus he (isDigits_takeWhile hne)⟩
        · simp
        · simp only [List.length_cons]
          omega
      next => cases h
      next _ _ _ hne =>
        cases h
        refine ⟨e :: tail.takeWhile Char.isDigit, tail.dropWhile Char.isDigit, ?_, ?_,
          .plain he (isDigits_takeWhile hne)⟩
        · simp
        · simp only [List.length_cons]
          omega
    next => cases h
  next => cases h

theorem exponent_append {e : List Char} {p : Int} (h : IsExponent e p)
    (hrest : ∀ d ∈ rest.head?, d.isDigit = false) : ∃ below digits,
      exponent (e ++ rest) = some (below, digits, e.length) ∧ power below digits = p := by
  cases h with
  | @plain e ds he h =>
    have htake := takeWhile_digits h.isDigit hrest
    refine ⟨false, ds, ?_, rfl⟩
    simp only [exponent, List.cons_append, if_pos he]
    split
    next tail htail =>
      obtain ⟨d, ds, rfl⟩ := List.exists_cons_of_ne_nil h.ne_nil
      obtain ⟨rfl, -⟩ := List.cons.inj htail
      exact absurd (h.isDigit '-' List.mem_cons_self) (by decide)
    next tail htail =>
      obtain ⟨d, ds, rfl⟩ := List.exists_cons_of_ne_nil h.ne_nil
      obtain ⟨rfl, -⟩ := List.cons.inj htail
      exact absurd (h.isDigit '+' List.mem_cons_self) (by decide)
    next =>
      simp [htake, h.ne_nil, Nat.add_comm]
  | @plus e ds he h =>
    have htake := takeWhile_digits h.isDigit hrest
    refine ⟨false, ds, ?_, rfl⟩
    simp only [exponent, List.cons_append, if_pos he, htake, if_neg h.ne_nil, List.length_cons]
    rw [Nat.add_comm (1 + 1)]
  | @minus e ds he h =>
    have htake := takeWhile_digits h.isDigit hrest
    refine ⟨true, ds, ?_, rfl⟩
    simp only [exponent, List.cons_append, if_pos he, htake, if_neg h.ne_nil, List.length_cons]
    rw [Nat.add_comm (1 + 1)]

theorem exponent_eq_none (h : ¬Continues rest) : exponent rest = none := by
  cases hexp : exponent rest with
  | none => rfl
  | some found =>
    obtain ⟨below, digits, width⟩ := found
    obtain ⟨e, tail, rfl, -, he⟩ := exponent_spec hexp
    exact absurd (.exponent he) h

def numberBehind (negative : Bool) (ds rest : List Char) : Token × Nat :=
  let part := fraction rest
  match exponent (rest.drop (fractionWidth part)) with
  | some (below, digits, width) =>
    (.float (.ofDecimal negative (natOfDigits (ds ++ part)) (power below digits - part.length)),
      ds.length + fractionWidth part + width)
  | none =>
    if part = [] then
      if maxDigits < ds.length then (.long ds.length, ds.length)
      else (.int (signed negative (natOfDigits ds)), ds.length)
    else
      (.float (.ofDecimal negative (natOfDigits (ds ++ part)) (-part.length)),
        ds.length + fractionWidth part)

theorem number_eq (negative : Bool) (cs : List Char) : number negative cs =
    if leadingWhole cs = [] then none
    else some (numberBehind negative (leadingWhole cs) (cs.drop (leadingWhole cs).length)) := by
  unfold number
  extract_lets whole
  obtain ⟨ds, hds⟩ : ∃ ds, ds = whole := ⟨_, rfl⟩
  rw [show leadingWhole cs = ds from hds.symm, ← hds]
  clear_value whole
  subst hds
  split
  next => rfl
  next rest part partWidth n _ =>
    have hpart : partWidth = fractionWidth part := rfl
    clear_value partWidth
    subst hpart
    have hint : (if negative then Int.negOfNat n else Int.ofNat n) = signed negative n := by
      cases negative <;> simp [signed, Int.negOfNat_eq]
    rw [hint]
    change _ = some (match exponent (rest.drop (fractionWidth part)) with
      | some (below, digits, width) => _
      | none => _)
    cases exponent (rest.drop (fractionWidth part)) with
    | some found => rfl
    | none =>
      change _ = some (if part = [] then if maxDigits < ds.length then _ else _ else _)
      split_ifs <;> rfl

theorem IsExponent.head_not_digit {e : List Char} {p : Int} (h : IsExponent e p) :
    ∀ d ∈ (e ++ rest).head?, d.isDigit = false := by
  cases h with
  | plain he | plus he | minus he => rcases he with rfl | rfl <;> simp

theorem IsExponent.fraction_append {e : List Char} {p : Int} (h : IsExponent e p) :
    fraction (e ++ rest) = [] := by
  cases h with
  | plain he | plus he | minus he => rcases he with rfl | rfl <;> simp [fraction]

theorem IsExponent.append_digits {e : List Char} {p : Int} (h : IsExponent e p)
    (hds : ∀ d ∈ ds, d.isDigit = true) : ∃ q, IsExponent (e ++ ds) q := by
  have hdigits {front : List Char} (hfront : IsDigits front) : IsDigits (front ++ ds) :=
    ⟨by simp [hfront.ne_nil], fun d hd => (List.mem_append.mp hd).elim (hfront.isDigit d) (hds d)⟩
  cases h with
  | plain he h => exact ⟨_, .plain he (hdigits h)⟩
  | plus he h => exact ⟨_, .plus he (hdigits h)⟩
  | minus he h => exact ⟨_, .minus he (hdigits h)⟩

theorem exponent_ne_none {e : List Char} {p : Int} (h : IsExponent e p) (cs : List Char) :
    exponent (e ++ cs) ≠ none := by
  have hsplit := List.takeWhile_append_dropWhile (p := Char.isDigit) (l := cs)
  obtain ⟨q, hq⟩ := h.append_digits (List.all_eq_true.mp (List.all_takeWhile (l := cs)))
  obtain ⟨below, digits, hexp, -⟩ := exponent_append hq (head_dropWhile cs)
  rw [List.append_assoc, hsplit] at hexp
  simp [hexp]

theorem not_continues (hhead : ∀ d ∈ rest.head?, d.isDigit = false) (hpart : fraction rest = [])
    (hexp : exponent rest = none) : ¬Continues rest := by
  intro h
  cases h with
  | digit hd => simp [hhead _ rfl] at hd
  | fraction hd => simp [fraction, hd] at hpart
  | exponent he => exact exponent_ne_none he _ hexp

def Token.scalar? : Token → Option Json
  | .str s => some (.str s)
  | .int n => some (.int n)
  | .float x => some (.float x)
  | .null => some .null
  | .bool b => some (.bool b)
  | _ => none

theorem number_append {negative : Bool} (h : IsWhole ds)
    (hrest : ∀ d ∈ rest.head?, d.isDigit = false) :
    number negative (ds ++ rest) = some (numberBehind negative ds rest) := by
  rw [number_eq, leadingWhole_append h hrest, if_neg h.ne_nil, List.drop_left]

theorem number_whole (negative : Bool) (h : IsWhole ds) (hrest : ¬Continues rest) :
    number negative (ds ++ rest) = some (if maxDigits < ds.length then .long ds.length
      else .int (signed negative (natOfDigits ds)), ds.length) := by
  rw [number_append h (head_of_not_continues hrest)]
  simp only [numberBehind, fraction_eq_nil hrest, fractionWidth, if_true, List.drop_zero,
    exponent_eq_none hrest]
  split
  next => rfl
  next => rfl

theorem number_complete {limit : Nat} {negative : Bool} {lit : List Char} {v : Json}
    (h : IsNumber limit negative lit v) (hrest : ¬Continues rest) :
    ∃ t, number negative (lit ++ rest) = some (t, lit.length) ∧
      (t.scalar? = some v ∨ (∃ n, t = .long n) ∧ maxDigits < limit) := by
  have hhead := head_of_not_continues hrest
  cases h with
  | whole h hlimit =>
    refine ⟨_, number_whole negative h hrest, ?_⟩
    split
    next hlong => exact .inr ⟨⟨_, rfl⟩, hlong.trans_le hlimit⟩
    next => exact .inl rfl
  | @fraction ds part h hpart =>
    have hfraction := fraction_append hpart hhead
    have hwidth : fractionWidth part = ('.' :: part).length := by
      simp [fractionWidth, hpart.ne_nil]
    rw [List.append_assoc, number_append h (by simp), numberBehind]
    simp only [hfraction, hwidth, List.drop_left, exponent_eq_none hrest, if_neg hpart.ne_nil]
    exact ⟨_, by rw [List.length_append], .inl rfl⟩
  | @exponent ds f part e p h hf he =>
    obtain ⟨below, digits, hexp, rfl⟩ := exponent_append he hhead
    have hbehind : fraction (f ++ (e ++ rest)) = part ∧ fractionWidth part = f.length := by
      cases hf with
      | absent => exact ⟨he.fraction_append, rfl⟩
      | present hpart =>
        exact ⟨fraction_append hpart he.head_not_digit, by simp [fractionWidth, hpart.ne_nil]⟩
    have hdigit : ∀ d ∈ (f ++ (e ++ rest)).head?, d.isDigit = false := by
      cases hf with
      | absent => exact he.head_not_digit
      | present => simp
    rw [List.append_assoc, List.append_assoc, number_append h hdigit, numberBehind]
    simp only [hbehind, List.drop_left, hexp]
    exact ⟨_, by rw [List.length_append, List.length_append], .inl rfl⟩

theorem number_sound {negative : Bool} {t : Token} {width : Nat}
    (h : number negative cs = some (t, width)) : ∃ lit rest, cs = lit ++ rest ∧
      lit.length = width ∧ ((∃ v, IsNumber maxDigits negative lit v ∧ t.scalar? = some v) ∨
        t = .long width ∧ IsWhole lit ∧ maxDigits < width ∧ ¬Continues rest) := by
  rw [number_eq] at h
  split at h
  next => cases h
  next hne =>
    obtain ⟨hwhole, rest, hcs, hhead⟩ := leadingWhole_spec hne
    generalize leadingWhole cs = ds at *
    subst hcs
    obtain ⟨f, tail, rfl, hf, hwidth⟩ := fraction_spec rest
    rw [List.drop_left, numberBehind] at h
    generalize hfraction : fraction (f ++ tail) = part at *
    rw [← hwidth, List.drop_left] at h
    split at h
    next below digits _ hexp =>
      cases h
      obtain ⟨e, behind, rfl, rfl, he⟩ := exponent_spec hexp
      exact ⟨ds ++ f ++ e, behind, by simp, by simp [Nat.add_assoc],
        .inl ⟨_, .exponent hwhole hf he, rfl⟩⟩
    next hexp =>
      cases hf with
      | absent =>
        rw [if_pos rfl] at h
        split at h
        next hlong =>
          cases h
          have hzero : ds ≠ ['0'] := by
            intro hds
            simp [hds, maxDigits] at hlong
          exact ⟨ds, tail, rfl, rfl,
            .inr ⟨rfl, hwhole, hlong, not_continues (hhead hzero) hfraction hexp⟩⟩
        next hlimit =>
          cases h
          exact ⟨ds, tail, rfl, rfl, .inl ⟨_, .whole hwhole (Nat.le_of_not_lt hlimit), rfl⟩⟩
      | present hpart =>
        rw [if_neg hpart.ne_nil] at h
        cases h
        exact ⟨ds ++ '.' :: part, tail, by simp, by simp,
          .inl ⟨_, .fraction hwhole hpart, rfl⟩⟩

end SolidityTables.Json

import SolidityTables.Json.Token
import SolidityTables.Proofs.Attempt

/-!
# The spelling of strings

Between its quotes a string is spelled with plain characters and escapes. An escaped code unit that
is the first half of a pair makes one character with the second half if that is escaped right behind
it; any other half of a pair stands alone.
-/

namespace SolidityTables.Json

open Attempt

def StartsLow (cs : List Char) : Prop :=
  ∃ a b c d rest low, cs = '\\' :: 'u' :: a :: b :: c :: d :: rest ∧
    hex4? a b c d = some low ∧ isLow low = true

/-- What is written between the quotes, and the characters that it stands for. -/
inductive Quoted : List Char → List Char → Prop
  | nil : Quoted [] []
  | plain {c : Char} {cs vs : List Char} (hquote : c ≠ '"') (hslash : c ≠ '\\')
    (hcontrol : 0x1F < c.toNat) (h : Quoted cs vs) : Quoted (c :: cs) (c :: vs)
  | escape {c v : Char} {cs vs : List Char} (hc : escaped? c = some v) (h : Quoted cs vs) :
    Quoted ('\\' :: c :: cs) (v :: vs)
  | unit {a b c d : Char} {n : Nat} {cs vs : List Char} (hn : hex4? a b c d = some n)
    (halone : isHigh n = true → ¬StartsLow cs) (h : Quoted cs vs) :
    Quoted ('\\' :: 'u' :: a :: b :: c :: d :: cs) (unitChar n :: vs)
  | pair {a b c d e f g h : Char} {high low : Nat} {cs vs : List Char}
    (hhigh : hex4? a b c d = some high ∧ isHigh high = true)
    (hlow : hex4? e f g h = some low ∧ isLow low = true) (hrest : Quoted cs vs) :
    Quoted ('\\' :: 'u' :: a :: b :: c :: d :: '\\' :: 'u' :: e :: f :: g :: h :: cs)
      (Char.ofNat (0x10000 + (high - 0xD800) * 1024 + (low - 0xDC00)) :: vs)

variable {start pos : Nat} {cs vs rest : List Char}

theorem quoted_plain (h : ∀ c ∈ cs, c ≠ '"' ∧ c ≠ '\\' ∧ 0x1F < c.toNat) : Quoted cs cs := by
  induction cs with
  | nil => exact .nil
  | cons c cs ih =>
    obtain ⟨⟨hquote, hslash, hcontrol⟩, hcs⟩ := List.forall_mem_cons.mp h
    exact .plain hquote hslash hcontrol (ih hcs)

theorem after_eq_ok {c : Char} {width w : Nat} {s : Scanned} :
    Scanned.after c width s = .ok (vs, w) ↔
      ∃ tail n, s = .ok (tail, n) ∧ vs = c :: tail ∧ w = n + width := by
  unfold Scanned.after
  rw [map_eq_ok]
  simp [eq_comm]

theorem scanString_unit {a b c d next : Char} {n : Nat} (hn : hex4? a b c d = some n)
    (hnext : ∀ e f g h tail, next :: cs = '\\' :: 'u' :: e :: f :: g :: h :: tail →
      ∃ low, hex4? e f g h = some low ∧ (isHigh n = true → isLow low = false)) :
    scanString start pos ('\\' :: 'u' :: a :: b :: c :: d :: next :: cs) =
      Scanned.after (unitChar n) 6 (scanString start (pos + 6) (next :: cs)) := by
  by_cases hpair : ∃ e f g h last tail, next = '\\' ∧ cs = 'u' :: e :: f :: g :: h :: last :: tail
  · obtain ⟨e, f, g, h, last, tail, rfl, rfl⟩ := hpair
    obtain ⟨low, hlow, halone⟩ := hnext _ _ _ _ _ rfl
    simp only [scanString.eq_4, hn, hlow]
    split_ifs with hhigh hislow
    · simp [halone hhigh] at hislow
    · rfl
    · rfl
  · rw [scanString.eq_5]
    · simp only [hn]
    · intro e f g h last tail hslash hcs
      exact hpair ⟨e, f, g, h, last, tail, hslash, hcs⟩

theorem scanString_pair {a b c d e f g h next : Char} {high low : Nat}
    (hhigh : hex4? a b c d = some high ∧ isHigh high = true)
    (hlow : hex4? e f g h = some low ∧ isLow low = true) :
    scanString start pos
        ('\\' :: 'u' :: a :: b :: c :: d :: '\\' :: 'u' :: e :: f :: g :: h :: next :: cs) =
      Scanned.after (Char.ofNat (0x10000 + (high - 0xD800) * 1024 + (low - 0xDC00))) 12
        (scanString start (pos + 12) (next :: cs)) := by
  simp only [scanString.eq_4, hhigh, hlow, if_true]

theorem Quoted.hex_of_unit {e f g h : Char} {tail : List Char} (hq : Quoted cs vs)
    (hcs : cs ++ '"' :: rest = '\\' :: 'u' :: e :: f :: g :: h :: tail) :
    ∃ low front, hex4? e f g h = some low ∧ cs = '\\' :: 'u' :: e :: f :: g :: h :: front := by
  cases hq with
  | nil => simp at hcs
  | plain _ hslash => simp [hslash] at hcs
  | escape hc =>
    simp only [List.cons_append, List.cons.injEq] at hcs
    obtain ⟨-, rfl, -⟩ := hcs
    simp [escaped?] at hc
  | unit hn =>
    simp only [List.cons_append, List.cons.injEq] at hcs
    obtain ⟨-, -, rfl, rfl, rfl, rfl, -⟩ := hcs
    exact ⟨_, _, hn, rfl⟩
  | pair hhigh =>
    simp only [List.cons_append, List.cons.injEq] at hcs
    obtain ⟨-, -, rfl, rfl, rfl, rfl, -⟩ := hcs
    exact ⟨_, _, hhigh.1, rfl⟩

theorem scanString_complete (h : Quoted cs vs) :
    scanString start pos (cs ++ '"' :: rest) = .ok (vs, cs.length + 1) := by
  induction h generalizing pos with
  | nil => simp [scanString]
  | @plain c cs vs hquote hslash hcontrol _ ih =>
    rw [List.cons_append, scanString.eq_8]
    · rw [if_neg (Nat.not_le_of_lt hcontrol), ih]
      rfl
    all_goals simp [hquote, hslash]
  | @escape c v cs vs hc _ ih =>
    have hu : c ≠ 'u' := by
      rintro rfl
      simp [escaped?] at hc
    rw [List.cons_append, List.cons_append, scanString.eq_7]
    · simp only [hc, ih]
      rfl
    all_goals simp [hu]
  | @unit a b c d n cs vs hn halone h ih =>
    obtain ⟨next, tail, htail⟩ : ∃ next tail, cs ++ '"' :: rest = next :: tail :=
      List.exists_cons_of_ne_nil (by simp)
    simp only [List.cons_append, htail]
    rw [scanString_unit hn, ← htail, ih]
    · rfl
    · intro e f g k behind hbehind
      obtain ⟨low, front, hlow, rfl⟩ := h.hex_of_unit (htail.trans hbehind)
      refine ⟨low, hlow, fun hhigh => Bool.eq_false_iff.mpr fun hislow => ?_⟩
      exact halone hhigh ⟨e, f, g, k, front, low, rfl, hlow, hislow⟩
  | @pair a b c d e f g h high low cs vs hhigh hlow _ ih =>
    obtain ⟨next, tail, htail⟩ : ∃ next tail, cs ++ '"' :: rest = next :: tail :=
      List.exists_cons_of_ne_nil (by simp)
    simp only [List.cons_append, htail]
    rw [scanString_pair hhigh hlow, ← htail, ih]
    rfl

theorem after_sound {c : Char} {w : Nat} {s : Scanned} (front : List Char)
    (h : Scanned.after c front.length s = .ok (vs, w))
    (ih : ∀ {vs w}, s = .ok (vs, w) →
      ∃ body rest, cs = body ++ '"' :: rest ∧ w = body.length + 1 ∧ Quoted body vs)
    (hfront : ∀ body vs rest, cs = body ++ '"' :: rest → Quoted body vs →
      Quoted (front ++ body) (c :: vs)) :
    ∃ body rest, front ++ cs = body ++ '"' :: rest ∧ w = body.length + 1 ∧ Quoted body vs := by
  obtain ⟨tail, n, hs, rfl, rfl⟩ := after_eq_ok.mp h
  obtain ⟨body, rest, rfl, rfl, hq⟩ := ih hs
  refine ⟨front ++ body, rest, by simp, ?_, hfront body tail rest rfl hq⟩
  rw [List.length_append]
  omega

theorem scanString_sound {w : Nat} (h : scanString start pos cs = .ok (vs, w)) :
    ∃ body rest, cs = body ++ '"' :: rest ∧ w = body.length + 1 ∧ Quoted body vs := by
  fun_induction scanString start pos cs generalizing vs w
  case case2 =>
    cases h
    exact ⟨[], _, rfl, rfl, .nil⟩
  case case6 a b c d e f g k next cs high hhigh hishigh low hlow hislow ih =>
    exact after_sound ['\\', 'u', a, b, c, d, '\\', 'u', e, f, g, k] h ih
      fun _ _ _ _ hq => .pair ⟨hhigh, hishigh⟩ ⟨hlow, hislow⟩ hq
  case case7 a b c d e f g k next cs high hhigh _ low hlow hislow ih =>
    refine after_sound ['\\', 'u', a, b, c, d] h ih fun body vs rest hcs hq => .unit hhigh ?_ hq
    intro _ hstarts
    obtain ⟨e, f, g, k, tail, n, rfl, hn, hisn⟩ := hstarts
    simp only [List.cons_append, List.cons.injEq] at hcs
    obtain ⟨-, -, rfl, rfl, rfl, rfl, -⟩ := hcs
    rw [hlow] at hn
    cases hn
    exact hislow hisn
  case case8 a b c d e f g k next cs n hn hhigh ih =>
    exact after_sound ['\\', 'u', a, b, c, d] h ih
      fun _ _ _ _ hq => .unit hn (fun hishigh => absurd hishigh hhigh) hq
  case case10 a b c d next cs hpair n hn ih =>
    refine after_sound ['\\', 'u', a, b, c, d] h ih fun body vs rest hcs hq => .unit hn ?_ hq
    intro _ hstarts
    obtain ⟨e, f, g, k, tail, _, rfl, -, -⟩ := hstarts
    simp only [List.cons_append, List.cons.injEq] at hcs
    obtain ⟨hslash, hcs⟩ := hcs
    cases tail with
    | nil => exact hpair e f g k '"' rest hslash hcs
    | cons last tail => exact hpair e f g k last (tail ++ '"' :: rest) hslash hcs
  case case13 c cs _ _ _ v hc ih =>
    exact after_sound ['\\', c] h ih fun _ _ _ _ hq => .escape hc hq
  case case15 c cs hquote hnil _ _ _ hslash hcontrol ih =>
    refine after_sound [c] h ih fun body vs rest hcs hq =>
      .plain hquote (fun hc => ?_) (Nat.lt_of_not_le hcontrol) hq
    obtain ⟨next, tail, htail⟩ : ∃ next tail, cs = next :: tail :=
      List.exists_cons_of_ne_nil (by simp [hcs])
    exact hslash next tail hc htail
  all_goals cases h

end SolidityTables.Json

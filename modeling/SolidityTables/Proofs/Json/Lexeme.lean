import SolidityTables.Proofs.Json.Number
import SolidityTables.Proofs.Json.Quoted

/-!
# Lexemes

A lexeme spells a value that has no parts: a word, a string or a number. A text that begins with a
lexeme is cut behind it if what follows does not continue it, and a token tells from which text it
was cut.
-/

namespace SolidityTables.Json

def constants : List (String × Json) := [
  ("null", .null), ("true", .bool true), ("false", .bool false), ("NaN", .float .nan),
  ("Infinity", .float (.infinite false)), ("-Infinity", .float (.infinite true))]

inductive IsString : List Char → String → Prop
  | quoted {body vs : List Char} (h : Quoted body vs) :
    IsString ('"' :: (body ++ ['"'])) (String.ofList vs)

inductive Lexeme (limit : Nat) : List Char → Json → Prop
  | constant {word : String} {v : Json} (h : (word, v) ∈ constants) : Lexeme limit word.toList v
  | string {text : List Char} {s : String} (h : IsString text s) : Lexeme limit text (.str s)
  | number {text : List Char} {v : Json} (h : IsNumber limit false text v) : Lexeme limit text v
  | negative {text : List Char} {v : Json} (h : IsNumber limit true text v) :
    Lexeme limit ('-' :: text) v

theorem words_eq_constants : words.map (fun w => (w.1, w.2.scalar?)) =
    constants.map fun w => (w.1, some w.2) := rfl

variable {pos limit : Nat} {c : Char} {cs text rest : List Char} {v : Json}

def marks : List Char := ['\x7b', '\x7d', '[', ']', ',', ':']

theorem isString_plain {s : String}
    (h : ∀ c ∈ s.toList, c ≠ '"' ∧ c ≠ '\\' ∧ 0x1F < c.toNat) :
    IsString ('"' :: (s.toList ++ ['"'])) s := by
  have hstring := IsString.quoted (quoted_plain h)
  rwa [String.ofList_toList] at hstring

theorem first_mark (pos : Nat) (cs : List Char) (h : c ∈ marks) :
    Token.first pos c cs = (.mark c, 0) := if_pos h

theorem first_string (pos : Nat) {body vs : List Char} (h : Quoted body vs) (rest : List Char) :
    Token.first pos '"' (body ++ '"' :: rest) = (.str (String.ofList vs), body.length + 1) := by
  rw [Token.first, if_neg (by decide), if_pos rfl, scanString_complete h]

theorem first_constant {word : String} (h : (word, v) ∈ constants) (hc : word.toList = c :: cs)
    (rest : List Char) :
    ∃ t, (∀ pos, Token.first pos c (cs ++ rest) = (t, cs.length)) ∧ t.scalar? = some v := by
  simp only [constants, List.mem_cons, List.not_mem_nil, or_false, Prod.mk.injEq] at h
  rcases h with ⟨rfl, rfl⟩ | ⟨rfl, rfl⟩ | ⟨rfl, rfl⟩ | ⟨rfl, rfl⟩ | ⟨rfl, rfl⟩ | ⟨rfl, rfl⟩ <;>
  · simp at hc
    obtain ⟨rfl, rfl⟩ := hc
    simp [Token.first, words, Token.scalar?, ← String.length_toList]

theorem IsNumber.head_isDigit {negative : Bool} (h : IsNumber limit negative text v) :
    ∃ d tail, text = d :: tail ∧ d.isDigit = true := by
  have hhead {ds : List Char} (hds : IsWhole ds) (behind : List Char) :
      ∃ d tail, ds ++ behind = d :: tail ∧ d.isDigit = true := by
    obtain ⟨d, ds, rfl⟩ := List.exists_cons_of_ne_nil hds.ne_nil
    exact ⟨d, ds ++ behind, rfl, hds.isDigit d List.mem_cons_self⟩
  cases h with
  | whole h =>
    rw [← List.append_nil text]
    exact hhead h []
  | fraction h => exact hhead h _
  | exponent h =>
    rw [List.append_assoc]
    exact hhead h _

theorem digit_ne {d : Char} (hd : d.isDigit = true) (hc : c.isDigit = false) : d ≠ c := by
  rintro rfl
  simp [hd] at hc

theorem first_digit (hc : c.isDigit = true) : Token.first pos c cs =
    match number false (c :: cs) with
    | some (token, width) => (token, width - 1)
    | none => (.junk, 0) := by
  have hne {x : Char} (hx : x.isDigit = false) : c ≠ x := digit_ne hc hx
  have hwords : words.find? (·.1.toList.isPrefixOf (c :: cs)) = none := by
    have hne' {x : Char} (hx : x.isDigit = false) : x ≠ c := (hne hx).symm
    rw [List.find?_eq_none]
    simp [words, hne']
  rw [Token.first, if_neg (by simp [hne]), if_neg (hne (by decide)), hwords]
  dsimp only
  rewrite [if_neg (hne (by decide))]
  rfl

theorem first_minus (hcs : cs.head? ≠ some 'I') : Token.first pos '-' cs =
    match number true cs with
    | some (token, width) => (token, width)
    | none => (.junk, 0) := by
  have hwords : words.find? (·.1.toList.isPrefixOf ('-' :: cs)) = none := by
    rw [List.find?_eq_none]
    cases cs with
    | nil => simp [words]
    | cons d cs =>
      have hd : 'I' ≠ d := fun hd => hcs (congrArg some hd.symm)
      simp [words, hd]
  rw [Token.first, if_neg (by decide), if_neg (by decide), hwords]
  rfl

theorem first_complete (h : Lexeme limit (c :: cs) v) (hrest : ¬Continues rest) :
    ∃ t, (∀ pos, Token.first pos c (cs ++ rest) = (t, cs.length)) ∧
      (t.scalar? = some v ∨ (∃ n, t = .long n) ∧ maxDigits < limit) := by
  generalize htext : c :: cs = text at h
  cases h with
  | constant h =>
    obtain ⟨t, hfirst, ht⟩ := first_constant h htext.symm rest
    exact ⟨t, hfirst, .inl ht⟩
  | string h =>
    obtain @⟨body, vs, h⟩ := h
    obtain ⟨rfl, rfl⟩ := List.cons.inj htext
    refine ⟨.str (String.ofList vs), fun pos => ?_, .inl rfl⟩
    rw [List.append_assoc, List.singleton_append, first_string pos h]
    simp
  | number h =>
    subst htext
    obtain ⟨_, _, hhead, hdigit⟩ := h.head_isDigit
    obtain ⟨rfl, -⟩ := List.cons.inj hhead
    obtain ⟨t, hnumber, ht⟩ := number_complete h hrest
    rw [List.cons_append] at hnumber
    refine ⟨t, fun pos => ?_, ht⟩
    rw [first_digit hdigit, hnumber]
    rfl
  | @negative text v h =>
    obtain ⟨rfl, rfl⟩ := List.cons.inj htext
    obtain ⟨d, tail, rfl, hdigit⟩ := h.head_isDigit
    obtain ⟨t, hnumber, ht⟩ := number_complete h hrest
    refine ⟨t, fun pos => ?_, ht⟩
    rw [first_minus, hnumber]
    simpa using digit_ne hdigit (by decide)

/-- A token with the text that it was cut from and what is left behind it. -/
inductive Cut : List Char → Token → List Char → Prop
  | mark {c : Char} {rest : List Char} (h : c ∈ marks) : Cut [c] (.mark c) rest
  | scalar {text rest : List Char} {t : Token} {v : Json} (h : Lexeme maxDigits text v)
    (ht : t.scalar? = some v) : Cut text t rest
  | long {sign ds rest : List Char} (hsign : sign = [] ∨ sign = ['-']) (h : IsWhole ds)
    (hlong : maxDigits < ds.length) (hrest : ¬Continues rest) :
    Cut (sign ++ ds) (.long ds.length) rest
  | broken {text rest : List Char} {fault : StringFault} {index : Nat} :
    Cut text (.broken fault index) rest
  | junk {text rest : List Char} : Cut text .junk rest

theorem number_cut {negative : Bool} {sign : List Char} {t : Token} {w : Nat}
    (hsign : sign = [] ∧ negative = false ∨ sign = ['-'] ∧ negative = true)
    (h : number negative cs = some (t, w)) :
    ∃ text rest, cs = text ++ rest ∧ text.length = w ∧ 0 < w ∧ Cut (sign ++ text) t rest := by
  obtain ⟨text, rest, rfl, rfl, ⟨v, hv, ht⟩ | ⟨rfl, hwhole, hlong, hrest⟩⟩ := number_sound h
  · obtain ⟨_, _, htext, -⟩ := hv.head_isDigit
    refine ⟨text, rest, rfl, rfl, by simp [htext], ?_⟩
    rcases hsign with ⟨rfl, rfl⟩ | ⟨rfl, rfl⟩
    · exact .scalar (.number hv) ht
    · exact .scalar (.negative hv) ht
  · exact ⟨text, rest, rfl, rfl, Nat.zero_lt_of_lt hlong,
      .long (hsign.imp And.left And.left) hwhole hlong hrest⟩

theorem constant_of_word {word : String} {t : Token} (h : (word, t) ∈ words) :
    ∃ v, (word, v) ∈ constants ∧ t.scalar? = some v := by
  have hmem := List.mem_map_of_mem (f := fun w => (w.1, w.2.scalar?)) h
  rw [words_eq_constants] at hmem
  obtain ⟨⟨_, v⟩, hv, heq⟩ := List.mem_map.mp hmem
  obtain ⟨rfl, ht⟩ := Prod.mk.inj heq
  exact ⟨v, hv, ht.symm⟩

theorem words_ne_empty : ∀ w ∈ words, 0 < w.1.length := by
  simp [words, ← String.length_toList]

theorem first_sound {t : Token} {w : Nat} (h : Token.first pos c cs = (t, w)) :
    ∃ text rest, c :: cs = text ++ rest ∧ text.length = w + 1 ∧ Cut text t rest := by
  unfold Token.first at h
  split at h
  next hmark =>
    cases h
    exact ⟨[c], cs, rfl, rfl, .mark hmark⟩
  next =>
    split at h
    next hquote =>
      subst hquote
      split at h
      next vs width hscan =>
        cases h
        obtain ⟨body, rest, rfl, rfl, hq⟩ := scanString_sound hscan
        exact ⟨'"' :: (body ++ ['"']), rest, by simp, by simp, .scalar (.string (.quoted hq)) rfl⟩
      next =>
        cases h
        exact ⟨'"' :: cs, [], by simp, rfl, .broken⟩
    next =>
      split at h
      next word token hfind =>
        cases h
        obtain ⟨v, hv, ht⟩ := constant_of_word (List.mem_of_find?_eq_some hfind)
        have hprefix := List.find?_some hfind
        obtain ⟨rest, hrest⟩ := List.isPrefixOf_iff_prefix.mp hprefix
        refine ⟨word.toList, rest, hrest.symm, ?_, .scalar (.constant hv) ht⟩
        rw [String.length_toList]
        exact (Nat.sub_add_cancel (words_ne_empty _ (List.mem_of_find?_eq_some hfind))).symm
      next =>
        split at h
        next negative digits signed hsign =>
          split at h
          next token width hnumber =>
            cases h
            split at hsign
            next hminus =>
              cases hsign
              subst hminus
              obtain ⟨text, rest, rfl, rfl, -, hcut⟩ := number_cut (.inr ⟨rfl, rfl⟩) hnumber
              exact ⟨'-' :: text, rest, rfl, rfl, hcut⟩
            next =>
              cases hsign
              obtain ⟨text, rest, hcs, rfl, hw, hcut⟩ := number_cut (.inl ⟨rfl, rfl⟩) hnumber
              exact ⟨text, rest, hcs, (Nat.sub_add_cancel hw).symm, hcut⟩
          next =>
            cases h
            exact ⟨[c], cs, rfl, rfl, .junk⟩

def Begins (cs : List Char) (t : Token) (rest : List Char) : Prop :=
  ∀ pos, ∃ pos', tokensFrom pos cs = (pos, t) :: tokensFrom pos' rest

theorem begins_of_first {t : Token} (hc : isBlank c = false)
    (h : ∀ pos, Token.first pos c (cs ++ rest) = (t, cs.length)) :
    Begins (c :: cs ++ rest) t rest := by
  intro pos
  refine ⟨pos + 1 + cs.length, ?_⟩
  rw [List.cons_append, tokensFrom, if_neg (by simp [hc])]
  simp only [h, List.drop_left]

theorem begins_mark (h : c ∈ marks) (rest : List Char) : Begins (c :: rest) (.mark c) rest := by
  have hc : isBlank c = false := by
    simp only [marks, List.mem_cons, List.not_mem_nil, or_false] at h
    rcases h with rfl | rfl | rfl | rfl | rfl | rfl <;> rfl
  have hfirst (pos : Nat) : Token.first pos c ([] ++ rest) = (.mark c, ([] : List Char).length) :=
    first_mark pos rest h
  exact begins_of_first hc hfirst

theorem begins_string {s : String} (h : IsString text s) (rest : List Char) :
    Begins (text ++ rest) (.str s) rest := by
  obtain ⟨h⟩ := h
  refine begins_of_first rfl fun pos => ?_
  rw [List.append_assoc, List.singleton_append, first_string pos h]
  simp

theorem isBlank_digit (hc : c.isDigit = true) : isBlank c = false := by
  have hne {x : Char} (hx : x.isDigit = false) : c ≠ x := digit_ne hc hx
  simp [isBlank, hne]

theorem Lexeme.head_not_blank (h : Lexeme limit text v) :
    ∃ c cs, text = c :: cs ∧ isBlank c = false := by
  cases h with
  | constant h =>
    simp only [constants, List.mem_cons, List.not_mem_nil, or_false, Prod.mk.injEq] at h
    rcases h with ⟨rfl, rfl⟩ | ⟨rfl, rfl⟩ | ⟨rfl, rfl⟩ | ⟨rfl, rfl⟩ | ⟨rfl, rfl⟩ | ⟨rfl, rfl⟩ <;>
      simp [isBlank]
  | string h =>
    obtain ⟨h⟩ := h
    exact ⟨_, _, rfl, rfl⟩
  | number h =>
    obtain ⟨d, tail, rfl, hdigit⟩ := h.head_isDigit
    exact ⟨d, tail, rfl, isBlank_digit hdigit⟩
  | negative => exact ⟨_, _, rfl, rfl⟩

theorem begins_lexeme (h : Lexeme limit text v) (hrest : ¬Continues rest) :
    ∃ t, Begins (text ++ rest) t rest ∧
      (t.scalar? = some v ∨ (∃ n, t = .long n) ∧ maxDigits < limit) := by
  obtain ⟨c, cs, rfl, hc⟩ := h.head_not_blank
  obtain ⟨t, hfirst, ht⟩ := first_complete h hrest
  exact ⟨t, begins_of_first hc hfirst, ht⟩

theorem begins_long {sign ds : List Char} (hsign : sign = [] ∨ sign = ['-']) (h : IsWhole ds)
    (hlong : maxDigits < ds.length) (hrest : ¬Continues rest) :
    Begins (sign ++ ds ++ rest) (.long ds.length) rest := by
  have hnumber (negative : Bool) :
      number negative (ds ++ rest) = some (.long ds.length, ds.length) := by
    rw [number_whole negative h hrest, if_pos hlong]
  obtain ⟨d, ds, rfl⟩ := List.exists_cons_of_ne_nil h.ne_nil
  have hdigit := h.isDigit d List.mem_cons_self
  rcases hsign with rfl | rfl
  · refine begins_of_first (isBlank_digit hdigit) fun pos => ?_
    have hwhole := hnumber false
    rw [List.cons_append] at hwhole
    rw [first_digit hdigit, hwhole]
    rfl
  · change Begins ('-' :: (d :: ds) ++ rest) _ rest
    refine begins_of_first rfl fun pos => ?_
    rw [first_minus, hnumber]
    simpa using digit_ne hdigit (by decide)

theorem tokensFrom_blanks {b : List Char} (hb : ∀ c ∈ b, isBlank c = true) (pos : Nat)
    (cs : List Char) : ∃ pos', tokensFrom pos (b ++ cs) = tokensFrom pos' cs := by
  induction b generalizing pos with
  | nil => exact ⟨pos, rfl⟩
  | cons c b ih =>
    obtain ⟨hc, hb⟩ := List.forall_mem_cons.mp hb
    rw [List.cons_append, tokensFrom, if_pos hc]
    exact ih hb (pos + 1)

end SolidityTables.Json

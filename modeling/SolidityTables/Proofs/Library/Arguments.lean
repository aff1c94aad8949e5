import SolidityTables.Library.Method

/-!
# Lists of arguments

Fragments of a list of parameters or arguments are put together with commas, the empty ones left
out. A list that has been put together may stand in another one in place of its fragments. This is
how the parts for the store, the id and the key come together, each of which may be empty or hold
several arguments.
-/

namespace SolidityTables

def joinArguments (a b : String) : String :=
  if a = "" then b else if b = "" then a else a ++ ", " ++ b

/-- The pieces of a text between the places of a comma and a blank, from left to right. -/
def commaPieces : List Char → List (List Char)
  | ',' :: ' ' :: cs => [] :: commaPieces cs
  | c :: cs => (commaPieces cs).modifyHead (c :: ·)
  | [] => [[]]

def fragments (s : String) : List String :=
  (commaPieces s.toList).map String.ofList

variable {parts : List String}

theorem argumentList_singleton (s : String) : argumentList [s] = s := by
  by_cases h : s = "" <;> simp [argumentList, h]

theorem intercalate_eq_empty (h : ∀ p ∈ parts, p ≠ "") :
    String.intercalate ", " parts = "" ↔ parts = [] := by
  match parts, h with
  | [], _ => simp
  | [p], h => simpa using h p
  | p :: q :: rest, _ => simp [String.intercalate_cons_cons]

theorem argumentList_eq_empty_iff : argumentList parts = "" ↔ ∀ p ∈ parts, p = "" := by
  rw [argumentList, intercalate_eq_empty (by simp)]
  simp

theorem argumentList_append (xs ys : List String) :
    argumentList (xs ++ ys) = joinArguments (argumentList xs) (argumentList ys) := by
  have hempty (parts : List String) : argumentList parts = "" ↔ parts.filter (· ≠ "") = [] :=
    intercalate_eq_empty (by simp)
  simp only [joinArguments, hempty]
  simp only [argumentList, List.filter_append]
  by_cases hxs : xs.filter (· ≠ "") = []
  · rw [if_pos hxs, hxs, List.nil_append]
  · by_cases hys : ys.filter (· ≠ "") = []
    · rw [if_neg hxs, if_pos hys, hys, List.append_nil]
    · rw [if_neg hxs, if_neg hys, String.intercalate_append_of_ne_nil hxs hys]

theorem argumentList_nested (xs ys zs : List String) :
    argumentList (xs ++ [argumentList ys] ++ zs) = argumentList (xs ++ ys ++ zs) := by
  simp only [argumentList_append, argumentList_singleton]

theorem argumentList_flatten (groups : List (List String)) :
    argumentList (groups.map argumentList) = argumentList groups.flatten := by
  induction groups with
  | nil => rfl
  | cons group groups ih =>
    rw [List.map_cons, ← List.singleton_append, argumentList_append, argumentList_singleton, ih,
      List.flatten_cons, argumentList_append]

theorem argumentList_insert_empty (xs ys : List String) :
    argumentList (xs ++ "" :: ys) = argumentList (xs ++ ys) := by
  simp [argumentList]

theorem commaPieces_append {piece : List Char} (h : ',' ∉ piece) (rest : List Char) :
    commaPieces (piece ++ rest) = (commaPieces rest).modifyHead (piece ++ ·) := by
  induction piece with
  | nil => cases hrest : commaPieces rest <;> simp [hrest]
  | cons c piece ih =>
    rw [List.mem_cons, not_or] at h
    have hc : c ≠ ',' := Ne.symm h.1
    rw [List.cons_append, commaPieces, ih h.2]
    · cases commaPieces rest <;> simp
    · simp [hc]

theorem commaPieces_of_no_comma {piece : List Char} (h : ',' ∉ piece) :
    commaPieces piece = [piece] := by
  simpa [commaPieces] using commaPieces_append h []

theorem fragments_intercalate (hne : parts ≠ []) (h : ∀ p ∈ parts, ',' ∉ p.toList) :
    fragments (String.intercalate ", " parts) = parts := by
  induction parts with
  | nil => exact absurd rfl hne
  | cons first rest ih =>
    obtain ⟨hfirst, hrest⟩ := List.forall_mem_cons.mp h
    cases rest with
    | nil => simp [fragments, commaPieces_of_no_comma hfirst]
    | cons next rest =>
      have htail := ih (List.cons_ne_nil next rest) hrest
      have htext : (String.intercalate ", " (first :: next :: rest)).toList =
          first.toList ++ ',' :: ' ' :: (String.intercalate ", " (next :: rest)).toList := by
        simp [String.intercalate_cons_cons]
      rw [fragments] at htail
      rw [fragments, htext, commaPieces_append hfirst, commaPieces, List.modifyHead_cons,
        List.map_cons, htail, List.append_nil, String.ofList_toList]

namespace LibraryOptions

theorem recordParams_nested (o : LibraryOptions) (s : StoreChoice) (own : List Parameter)
    (spell : Parameter → String) :
    argumentList ((o.recordParams s ++ own).map spell) =
      argumentList [argumentList (s.params.map spell), argumentList (o.idParams.map spell),
        argumentList ((o.keys.map (·.param)).map spell), argumentList (own.map spell)] := by
  have hflat := argumentList_flatten [s.params.map spell, o.idParams.map spell,
    (o.keys.map (·.param)).map spell, own.map spell]
  rw [recordParams]
  simpa using hflat.symm

end LibraryOptions

/-- The laws of argument lists: nested lists count as their fragments, those for the store, the id
and the key of a method among them, an empty fragment counts as none, the whole is empty just if all
fragments are, and fragments without commas are found again. -/
theorem argumentList_laws :
    (∀ groups : List (List String),
      argumentList (groups.map argumentList) = argumentList groups.flatten) ∧
    (∀ (o : LibraryOptions) (s : StoreChoice) (own : List Parameter) (spell : Parameter → String),
      argumentList ((o.recordParams s ++ own).map spell) =
        argumentList [argumentList (s.params.map spell), argumentList (o.idParams.map spell),
          argumentList ((o.keys.map (·.param)).map spell), argumentList (own.map spell)]) ∧
    (∀ xs ys zs : List String,
      argumentList (xs ++ [argumentList ys] ++ zs) = argumentList (xs ++ ys ++ zs)) ∧
    (∀ xs ys : List String, argumentList (xs ++ "" :: ys) = argumentList (xs ++ ys)) ∧
    (∀ parts : List String, argumentList parts = "" ↔ ∀ p ∈ parts, p = "") ∧
    ∀ parts : List String, (∀ p ∈ parts, ',' ∉ p.toList) → argumentList parts ≠ "" →
      fragments (argumentList parts) = parts.filter (· ≠ "") := by
  refine ⟨argumentList_flatten, LibraryOptions.recordParams_nested, argumentList_nested,
    argumentList_insert_empty, fun _ => argumentList_eq_empty_iff, ?_⟩
  intro parts hcomma hne
  have hkept : parts.filter (· ≠ "") ≠ [] := by
    intro hnone
    exact hne (by rw [argumentList, hnone, String.intercalate_nil])
  exact fragments_intercalate hkept fun p hp => hcomma p (List.mem_filter.mp hp).1

theorem argumentList_laws_getter :
    (∀ p ∈ ["", "", "address owner", "uint32 index"], ',' ∉ p.toList) ∧
      argumentList ["", "", "address owner", "uint32 index"] ≠ "" ∧
      fragments (argumentList ["", "", "address owner", "uint32 index"]) =
        ["address owner", "uint32 index"] := by
  have hcomma : ∀ p ∈ ["", "", "address owner", "uint32 index"], ',' ∉ p.toList := by decide
  have hne : argumentList ["", "", "address owner", "uint32 index"] ≠ "" := by decide
  obtain ⟨-, -, -, -, -, hsplit⟩ := argumentList_laws
  exact ⟨hcomma, hne, hsplit _ hcomma hne⟩

end SolidityTables

import SolidityTables.Json.Document
import SolidityTables.Proofs.Json.Lexeme

/-!
# The grammar of documents

What a text denotes is told without a reader: by its lexemes, and by the values that stand in its
arrays and objects. How many digits a whole number has, and how many arrays and objects are around
one another, is limited. The limits are a part of the grammar, so that also a text that exceeds
those of the reader can be told from one that denotes nothing.
-/

namespace SolidityTables.Json

structure Limits where
  digits : Nat
  depth : Nat

def limits : Limits := ⟨maxDigits, maxOpen⟩

def IsBlanks (b : List Char) : Prop := ∀ c ∈ b, isBlank c = true

inductive IsName : List Char → String → Prop
  | padded {b text b' : List Char} {key : String} (hb : IsBlanks b) (h : IsString text key)
    (hb' : IsBlanks b') : IsName (b ++ text ++ b') key

structure Item where
  text : List Char
  value : Json

structure Member extends Item where
  name : List Char
  key : String

def Member.written (m : Member) : List Char := m.name ++ ':' :: m.text

def Member.entry (m : Member) : String × Json := (m.key, m.value)

/-- The value that a text denotes inside `k` arrays and objects. -/
inductive Spells (L : Limits) : Nat → List Char → Json → Prop
  | lexeme {k : Nat} {text : List Char} {v : Json} (h : Lexeme L.digits text v) : Spells L k text v
  | padded {k : Nat} {b text b' : List Char} {v : Json} (hb : IsBlanks b) (h : Spells L k text v)
    (hb' : IsBlanks b') : Spells L k (b ++ text ++ b') v
  | emptyArray {k : Nat} {b : List Char} (hk : k < L.depth) (hb : IsBlanks b) :
    Spells L k ('[' :: (b ++ [']'])) (.arr [])
  | array {k : Nat} {items : List Item} (hk : k < L.depth) (hne : items ≠ [])
    (h : ∀ x ∈ items, Spells L (k + 1) x.text x.value) :
    Spells L k ('[' :: ([','].intercalate (items.map Item.text) ++ [']']))
      (.arr (items.map Item.value))
  | emptyObject {k : Nat} {b : List Char} (hk : k < L.depth) (hb : IsBlanks b) :
    Spells L k ('\x7b' :: (b ++ ['\x7d'])) (.obj [])
  | object {k : Nat} {members : List Member} (hk : k < L.depth) (hne : members ≠ [])
    (hname : ∀ m ∈ members, IsName m.name m.key)
    (h : ∀ m ∈ members, Spells L (k + 1) m.text m.value) :
    Spells L k ('\x7b' :: ([','].intercalate (members.map Member.written) ++ ['\x7d']))
      (.obj (collect (members.map Member.entry)))

def front (texts : List (List Char)) : List Char := texts.flatMap (· ++ [','])

/-- A text that leads into open arrays and objects, up to where a value may stand. -/
inductive Leads (L : Limits) : List Frame → List Char → Prop
  | start {b : List Char} (hb : IsBlanks b) : Leads L [] b
  | element {frames : List Frame} {p b : List Char} {items : List Item} (hp : Leads L frames p)
    (hk : frames.length < L.depth)
    (h : ∀ x ∈ items, Spells L (frames.length + 1) x.text x.value) (hb : IsBlanks b) :
    Leads L (.array (items.map Item.value).reverse :: frames)
      (p ++ '[' :: (front (items.map Item.text) ++ b))
  | member {frames : List Frame} {p name b : List Char} {key : String} {members : List Member}
    (hp : Leads L frames p) (hk : frames.length < L.depth)
    (hnames : ∀ m ∈ members, IsName m.name m.key)
    (h : ∀ m ∈ members, Spells L (frames.length + 1) m.text m.value) (hname : IsName name key)
    (hb : IsBlanks b) :
    Leads L (.object (members.map Member.entry).reverse key :: frames)
      (p ++ '\x7b' :: (front (members.map Member.written) ++ (name ++ ':' :: b)))

def Overlong (text : List Char) (n : Nat) : Prop :=
  ∃ frames p sign ds rest, Leads limits frames p ∧ (sign = [] ∨ sign = ['-']) ∧ IsWhole ds ∧
    ds.length = n ∧ limits.digits < n ∧ ¬Continues rest ∧ text = p ++ (sign ++ ds ++ rest)

def opening (object : Bool) : Char := if object then '\x7b' else '['

def Overdeep (text : List Char) (object : Bool) : Prop :=
  ∃ frames p rest, Leads limits frames p ∧ limits.depth ≤ frames.length ∧
    text = p ++ opening object :: rest

variable {L : Limits} {b : List Char}

theorem IsBlanks.append {b' : List Char} (hb : IsBlanks b) (hb' : IsBlanks b') :
    IsBlanks (b ++ b') :=
  fun c hc => (List.mem_append.mp hc).elim (hb c) (hb' c)

theorem IsBlanks.singleton {c : Char} (hc : isBlank c = true) : IsBlanks [c] := by
  simpa [IsBlanks] using hc

theorem IsBlanks.nil : IsBlanks [] := by simp [IsBlanks]

theorem opening_mem (object : Bool) : opening object ∈ marks := by
  cases object <;> simp [opening, marks]

section Texts

variable {α : Type} (f : α → List Char) (xs : List α) (x : α)

theorem front_map_append : front ((xs ++ [x]).map f) = front (xs.map f) ++ (f x ++ [',']) := by
  simp [front]

theorem intercalate_map_append :
    [','].intercalate ((xs ++ [x]).map f) = front (xs.map f) ++ f x := by
  induction xs with
  | nil => simp [front]
  | cons y xs ih =>
    rw [List.cons_append, List.map_cons, List.intercalate_cons_of_ne_nil (by simp), ih]
    simp [front]

end Texts

end SolidityTables.Json

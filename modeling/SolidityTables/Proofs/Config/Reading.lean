import SolidityTables.Config.Declaration
import SolidityTables.Proofs.Attempt
import Mathlib.Data.List.Nodup

/-!
# What reading a configuration ensures

The keys of an object are distinct. A property of what is read from such values is put together as
the readers are: from the options of a record, the entries of a dictionary and the items of a list.
The tables, the fields of a table, the enums and the user types of a declaration have distinct
names.
-/

namespace SolidityTables

/-- The keys of every object are distinct. -/
inductive Json.WellFormed : Json → Prop
  | null : WellFormed .null
  | bool (b : Bool) : WellFormed (.bool b)
  | int (n : Int) : WellFormed (.int n)
  | float (x : Binary64) : WellFormed (.float x)
  | str (s : String) : WellFormed (.str s)
  | arr {js : List Json} (items : ∀ j ∈ js, WellFormed j) : WellFormed (.arr js)
  | obj {ms : Json.Members} (keys : (ms.map (·.1)).Nodup) (values : ∀ m ∈ ms, WellFormed m.2) :
    WellFormed (.obj ms)

namespace Json

@[simp] theorem wellFormed_str (s : String) : (str s).WellFormed := .str s

@[simp] theorem wellFormed_arr (js : List Json) :
    (arr js).WellFormed ↔ ∀ j ∈ js, j.WellFormed := by
  constructor
  · intro h
    cases h with
    | arr items => exact items
  · exact .arr

@[simp] theorem wellFormed_obj (ms : Members) :
    (obj ms).WellFormed ↔ (ms.map (·.1)).Nodup ∧ ∀ m ∈ ms, m.2.WellFormed := by
  constructor
  · intro h
    cases h with
    | obj keys values => exact ⟨keys, values⟩
  · exact fun h => .obj h.1 h.2

end Json

namespace Reading

variable {α β : Type}

theorem map_eq_value {x : Reading α} {f : α → β} {b : β} :
    f <$> x = .value b ↔ ∃ a, x = .value a ∧ f a = b := by
  change Reading.map f x = .value b ↔ _
  cases x with
  | value a => simp [Reading.map]
  | refused cs => simp [Reading.map]

theorem seq_eq_value {f : Reading (α → β)} {x : Reading α} {b : β} :
    f <*> x = .value b ↔ ∃ g a, f = .value g ∧ x = .value a ∧ g a = b := by
  change Reading.seq f x = .value b ↔ _
  cases f with
  | value g =>
    cases x with
    | value a => simp [Reading.seq]
    | refused cs => simp [Reading.seq]
  | refused cs =>
    cases x with
    | value a => simp [Reading.seq]
    | refused ds => simp [Reading.seq]

theorem within_eq_value {s : Step} {x : Reading α} {a : α} :
    x.within s = .value a ↔ x = .value a := by
  cases x with
  | value b => simp [within]
  | refused cs => simp [within]

theorem check_eq_value {fault? : α → Option Complaint.Fault} {x : Reading α} {a : α} :
    x.check fault? = .value a ↔ x = .value a ∧ fault? a = none := by
  cases x with
  | value b =>
    rw [check]
    cases hb : fault? b with
    | none =>
      simp only [value.injEq]
      constructor
      · intro hh
        subst hh
        exact ⟨rfl, hb⟩
      · exact fun h => h.1
    | some fault =>
      simp only [refuse, value.injEq, reduceCtorEq, false_iff, not_and]
      intro hh
      subst hh
      simp [hb]
  | refused cs => simp [check]

end Reading

structure Reader.Ensures {α : Type} (read : Reader α) (P : α → Prop) : Prop where
  of_read : ∀ {j a}, j.WellFormed → read j = .value a → P a

structure Shape.Ensures {α : Type} (s : Shape α) (P : α → Prop) : Prop where
  of_read : ∀ {ms a}, (Json.obj ms).WellFormed → s.read ms = .value a → P a

namespace Reader

variable {α β : Type} {read : Reader α} {P : α → Prop}

theorem entries_eq_value {ms : Json.Members} {es : List (String × α)} :
    entries read ms = .value es ↔
      List.Forall₂ (fun m e => m.1 = e.1 ∧ read m.2 = .value e.2) ms es := by
  induction ms generalizing es with
  | nil => simp [entries, eq_comm]
  | cons m ms ih =>
    obtain ⟨k, j⟩ := m
    rw [entries, List.forall₂_cons_left_iff]
    simp only [Reading.seq_eq_value, Reading.map_eq_value, Reading.within_eq_value, ih]
    constructor
    · intro hh
      obtain ⟨_, es, ⟨_, ⟨a, ha, rfl⟩, rfl⟩, hes, rfl⟩ := hh
      exact ⟨(k, a), es, ⟨rfl, ha⟩, hes, rfl⟩
    · intro hh
      obtain ⟨⟨_, a⟩, es, ⟨rfl, ha⟩, hes, rfl⟩ := hh
      exact ⟨_, es, ⟨_, ⟨a, ha, rfl⟩, rfl⟩, hes, rfl⟩

theorem items_eq_value {i : Nat} {js : List Json} {xs : List α} :
    items read i js = .value xs ↔ List.Forall₂ (fun j a => read j = .value a) js xs := by
  induction js generalizing i xs with
  | nil => simp [items, eq_comm]
  | cons j js ih =>
    rw [items, List.forall₂_cons_left_iff]
    simp only [Reading.seq_eq_value, Reading.map_eq_value, Reading.within_eq_value, ih]
    constructor
    · intro hh
      obtain ⟨_, xs, ⟨a, ha, rfl⟩, hxs, rfl⟩ := hh
      exact ⟨a, xs, ha, hxs, rfl⟩
    · intro hh
      obtain ⟨a, xs, ha, hxs, rfl⟩ := hh
      exact ⟨_, xs, ⟨a, ha, rfl⟩, hxs, rfl⟩

theorem text_eq_value {j : Json} {s : String} : text j = .value s ↔ j = .str s := by
  cases j with
  | str t => simp [text]
  | _ => simp [text, Reading.refuse]

theorem nullable_eq_value {j : Json} {x : Option α} : nullable read j = .value x ↔
    (j = .null ∧ x = none) ∨ (j ≠ .null ∧ ∃ a, read j = .value a ∧ x = some a) := by
  cases j with
  | null => simp [nullable, eq_comm]
  | _ => simp [nullable, Reading.map_eq_value, @eq_comm _ x]

section Written

variable {write : α → Json} (h : ∀ j a, read j = .value a ↔ j = write a)

include h

theorem list_eq_value {j : Json} {xs : List α} :
    list read j = .value xs ↔ j = .arr (xs.map write) := by
  cases j with
  | arr js =>
    simp only [list, items_eq_value, h, Json.arr.injEq]
    rw [← List.forall₂_map_right_iff, List.forall₂_eq_eq_eq]
  | _ => simp [list, Reading.refuse]

theorem dictionary_eq_value {j : Json} {es : List (String × α)} :
    dictionary read j = .value es ↔ j = .obj (es.map fun e => (e.1, write e.2)) := by
  have hentry (m : String × Json) (e : String × α) :
      m.1 = e.1 ∧ read m.2 = .value e.2 ↔ m = (e.1, write e.2) := by
    rw [h, Prod.ext_iff]
  cases j with
  | obj ms =>
    simp only [dictionary, entries_eq_value, hentry, Json.obj.injEq]
    rw [← List.forall₂_map_right_iff, List.forall₂_eq_eq_eq]
  | _ => simp [dictionary, Reading.refuse]

end Written

theorem Ensures.anything (read : Reader α) : read.Ensures fun _ => True :=
  ⟨fun _ _ => trivial⟩

theorem Ensures.dictionary (h : read.Ensures P) :
    (Reader.dictionary read).Ensures fun es => (es.map (·.1)).Nodup ∧ ∀ e ∈ es, P e.2 := by
  constructor
  intro j es hj hread
  cases hj with
  | @obj ms hkeys hvalues =>
    have hentries := entries_eq_value.mp hread
    have hnames : es.map (·.1) = ms.map (·.1) := by
      rw [Attempt.map_eq_map_iff]
      exact hentries.flip.imp fun _ _ hm => hm.1.symm
    refine ⟨hnames ▸ hkeys, fun e he => ?_⟩
    obtain ⟨m, hm, -, hread⟩ := Attempt.exists_of_mem_right hentries he
    exact h.of_read (hvalues m hm) hread
  | _ => cases hread

end Reader

theorem OptionName.find?_mem {o : OptionName} {ms : Json.Members} {key : String} {j : Json}
    (h : o.find? ms = some (key, j)) : ∃ m ∈ ms, m.2 = j := by
  have hlookup {k : String} (hk : ms.lookup k = some j) : ∃ m ∈ ms, m.2 = j := by
    obtain ⟨before, after, rfl, -⟩ := List.lookup_eq_some_iff.mp hk
    exact ⟨(k, j), by simp, rfl⟩
  unfold find? at h
  split at h
  next found hcamel =>
    cases h
    exact hlookup hcamel
  next =>
    obtain ⟨_, hsnake, hj⟩ := Option.map_eq_some_iff.mp h
    cases hj
    exact hlookup hsnake

/-- The value that a record holds under an option. -/
def OptionName.given? (o : OptionName) (ms : Json.Members) : Option Json :=
  (ms.lookup o.camel).or (ms.lookup o.snake)

theorem OptionName.find?_given (o : OptionName) (ms : Json.Members) :
    (∃ key j, o.find? ms = some (key, j) ∧ o.given? ms = some j) ∨
      (o.find? ms = none ∧ o.given? ms = none) := by
  unfold find? given?
  cases ms.lookup o.camel with
  | some j => exact .inl ⟨o.camel, j, rfl, rfl⟩
  | none =>
    cases ms.lookup o.snake with
    | some j => exact .inl ⟨o.snake, j, rfl, rfl⟩
    | none => exact .inr ⟨rfl, rfl⟩

namespace Shape

variable {α β : Type} {P : α → Prop} {Q : β → Prop}

section Read

variable {ms : Json.Members} {o : OptionName} {read : Reader α} {a : α} {b : β}

theorem map_read {s : Shape α} {f : α → β} :
    (f <$> s).read ms = .value b ↔ ∃ a, s.read ms = .value a ∧ f a = b := by
  change (Reading.value f <*> s.read ms) = .value b ↔ _
  simp only [Reading.seq_eq_value, Reading.value.injEq, exists_and_left, exists_eq_left']

theorem seq_read {f : Shape (α → β)} {x : Shape α} : (f <*> x).read ms = .value b ↔
    ∃ g, f.read ms = .value g ∧ ∃ a, x.read ms = .value a ∧ g a = b := by
  change f.read ms <*> x.read ms = .value b ↔ _
  simp only [Reading.seq_eq_value, exists_and_left]

theorem option_read {default : α} : (option o read default).read ms = .value a ↔
    (∃ j, o.given? ms = some j ∧ read j = .value a) ∨ (o.given? ms = none ∧ default = a) := by
  simp only [option]
  rcases o.find?_given ms with ⟨key, j, hfind, hgiven⟩ | ⟨hfind, hgiven⟩
  · rw [hfind, hgiven]
    simp [Reading.within_eq_value]
  · rw [hfind, hgiven]
    simp

theorem required_read : (required o read).read ms = .value a ↔
    ∃ j, o.given? ms = some j ∧ read j = .value a := by
  simp only [required]
  rcases o.find?_given ms with ⟨key, j, hfind, hgiven⟩ | ⟨hfind, hgiven⟩
  · rw [hfind, hgiven]
    simp [Reading.within_eq_value]
  · rw [hfind, hgiven]
    simp

theorem record_read : (record o read).read ms = .value a ↔
    read ((o.given? ms).getD (.obj [])) = .value a := by
  simp only [record]
  rcases o.find?_given ms with ⟨key, j, hfind, hgiven⟩ | ⟨hfind, hgiven⟩
  · rw [hfind, hgiven]
    exact Reading.within_eq_value
  · rw [hfind, hgiven]
    rfl

end Read

theorem Ensures.map {s : Shape α} {f : α → β} (h : s.Ensures P) (hf : ∀ a, P a → Q (f a)) :
    (f <$> s).Ensures Q := by
  constructor
  intro ms b hms hread
  obtain ⟨a, ha, rfl⟩ := map_read.mp hread
  exact hf a (h.of_read hms ha)

theorem Ensures.seq {f : Shape (α → β)} {x : Shape α} (hf : f.Ensures fun g => ∀ a, P a → Q (g a))
    (hx : x.Ensures P) : (f <*> x).Ensures Q := by
  constructor
  intro ms b hms hread
  obtain ⟨g, hg, a, ha, rfl⟩ := seq_read.mp hread
  exact hf.of_read hms hg a (hx.of_read hms ha)

theorem Ensures.skip {f : Shape (α → β)} {x : Shape α} (hf : f.Ensures fun g => ∀ a, Q (g a)) :
    (f <*> x).Ensures Q :=
  .seq (P := fun _ => True) ⟨fun hms hread a _ => hf.of_read hms hread a⟩ ⟨fun _ _ => trivial⟩

theorem wellFormed_find? {o : OptionName} {ms : Json.Members} {key : String} {j : Json}
    (hms : (Json.obj ms).WellFormed) (h : o.find? ms = some (key, j)) : j.WellFormed := by
  cases hms with
  | obj hkeys hvalues =>
    obtain ⟨m, hm, rfl⟩ := OptionName.find?_mem h
    exact hvalues m hm

theorem Ensures.option {o : OptionName} {read : Reader α} {default : α} (h : read.Ensures P)
    (hdefault : P default) : (Shape.option o read default).Ensures P := by
  constructor
  intro ms a hms hread
  simp only [Shape.option] at hread
  split at hread
  next key j hfind =>
    exact h.of_read (wellFormed_find? hms hfind) (Reading.within_eq_value.mp hread)
  next =>
    cases hread
    exact hdefault

theorem Ensures.required {o : OptionName} {read : Reader α} (h : read.Ensures P) :
    (Shape.required o read).Ensures P := by
  constructor
  intro ms a hms hread
  simp only [Shape.required] at hread
  split at hread
  next key j hfind =>
    exact h.of_read (wellFormed_find? hms hfind) (Reading.within_eq_value.mp hread)
  next => cases hread

theorem members_eq_value {s : Shape α} {ms : Json.Members} {a : α} :
    s.members ms = .value a ↔ s.read ms = .value a ∧ s.strangers ms = [] := by
  unfold members
  simp only [Reading.seq_eq_value, Reading.map_eq_value]
  cases hstrangers : s.strangers ms with
  | nil => simp [noStrangers]
  | cons k ks => simp [noStrangers]

theorem reader_eq_value {s : Shape α} {title : String} {j : Json} {a : α} :
    s.reader title j = .value a ↔
      ∃ ms, j = .obj ms ∧ s.read ms = .value a ∧ s.strangers ms = [] := by
  cases j with
  | obj ms => simp [reader, members_eq_value]
  | _ => simp [reader, Reading.refuse]

theorem Ensures.reader {s : Shape α} {title : String} (h : s.Ensures P) :
    (s.reader title).Ensures P := by
  constructor
  intro j a hj hread
  cases j with
  | obj ms => exact h.of_read hj (members_eq_value.mp hread).1
  | _ => cases hread

end Shape

theorem TableDeclaration.shape_ensures :
    TableDeclaration.shape.Ensures fun d => (d.schema.map (·.1)).Nodup := by
  unfold TableDeclaration.shape
  apply Shape.Ensures.skip
  apply Shape.Ensures.skip
  apply Shape.Ensures.skip
  apply Shape.Ensures.skip
  apply Shape.Ensures.skip
  apply Shape.Ensures.map (.required (.dictionary (.anything Reader.text)))
  intro schema h key kind name codegen deploy
  exact h.1

structure StoreDeclaration.Keyed (d : StoreDeclaration) : Prop where
  tables : (d.tables.map (·.1)).Nodup
  fields : ∀ t ∈ d.tables, (t.2.schema.map (·.1)).Nodup
  userTypes : (d.userTypes.map (·.1)).Nodup
  enums : (d.enums.map (·.1)).Nodup
  members : ∀ e ∈ d.enums, e.2 ≠ [] ∧ e.2.length ≤ 256 ∧ e.2.Nodup

theorem enumFault?_eq_none {es : List (String × List String)} : enumFault? es = none ↔
    ∀ e ∈ es, e.2 ≠ [] ∧ e.2.length ≤ 256 ∧ e.2.Nodup := by
  induction es with
  | nil => simp [enumFault?]
  | cons e es ih =>
    obtain ⟨name, members⟩ := e
    rw [enumFault?, List.forall_mem_cons, ← ih]
    split_ifs with hnone hmany hdistinct
    · simp [hnone]
    · simp [Nat.not_le.mpr hmany]
    · simp [hnone, Nat.not_lt.mp hmany, hdistinct]
    · simp [hdistinct]

theorem enumsReader_ensures : Reader.Ensures enumsReader fun es => (es.map (·.1)).Nodup ∧
    ∀ e ∈ es, e.2 ≠ [] ∧ e.2.length ≤ 256 ∧ e.2.Nodup := by
  constructor
  intro j es hj hread
  obtain ⟨hentries, hfault⟩ := Reading.check_eq_value.mp hread
  exact ⟨((Reader.Ensures.anything _).dictionary.of_read hj hentries).1,
    enumFault?_eq_none.mp hfault⟩

theorem declaredNames_ensures :
    declaredNames.Ensures fun f => ∀ codegen, (f codegen).Keyed := by
  unfold declaredNames
  have hnone {α : Type} : (([] : List (String × α)).map (·.1)).Nodup := List.nodup_nil
  refine Shape.Ensures.seq ?_ (.option enumsReader_ensures ⟨hnone, by simp⟩)
  refine Shape.Ensures.seq ?_ (.option (.dictionary (.anything _)) ⟨hnone, by simp⟩)
  refine Shape.Ensures.seq ?_
    (.option (.dictionary TableDeclaration.shape_ensures.reader) ⟨hnone, by simp⟩)
  apply Shape.Ensures.map (.option (.anything Reader.text) trivial)
  intro space _ tables htables userTypes huserTypes enums henums codegen
  exact ⟨htables.1, htables.2, huserTypes.1, henums.1, henums.2⟩

theorem StoreDeclaration.shape_ensures :
    StoreDeclaration.shape.Ensures StoreDeclaration.Keyed := by
  unfold StoreDeclaration.shape
  exact .skip declaredNames_ensures

theorem WorldDeclaration.shape_ensures :
    WorldDeclaration.shape.Ensures fun d => d.toStoreDeclaration.Keyed := by
  unfold WorldDeclaration.shape
  apply Shape.Ensures.skip
  apply Shape.Ensures.skip
  apply Shape.Ensures.skip
  apply Shape.Ensures.skip
  apply Shape.Ensures.skip
  apply Shape.Ensures.map declaredNames_ensures
  intro f h code deploy systems excluded modules
  exact h code.1

end SolidityTables

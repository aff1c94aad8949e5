import Mathlib.Data.List.Pairwise
import Mathlib.Logic.Relation
import SolidityTables.Proofs.Config.Edits

/-!
# How options are spelled

A record may hold an option under either of its two spellings and its keys in any order: what is
read from it is the same. A record that holds both spellings of an option, or a key that is no
spelling of one, is refused. This is so of every record in a configuration, however deep it is.
-/

namespace SolidityTables

open Attempt

/-- What a value consists of, as far as keys matter: a record with options, entries under any
names, or a value that is read as it stands. -/
inductive Form
  | plain
  | record (options : List (OptionName × Form))
  | dictionary (entry : Form)

section Forms

/-- In a record one key is spelled in the other way, or all keys are put in another order; or this
is done to a record inside. -/
inductive Respelled : Form → Json → Json → Prop
  | spell {options : List (OptionName × Form)} {o : OptionName} {f : Form} {key key' : String}
    {before after : Json.Members} {j : Json} (ho : (o, f) ∈ options) (hkey : key ∈ o.spellings)
    (hkey' : key' ∈ o.spellings) (habsent : key' ∉ (before ++ after).map (·.1)) :
    Respelled (.record options) (.obj (before ++ (key, j) :: after))
      (.obj (before ++ (key', j) :: after))
  | permute {options : List (OptionName × Form)} {ms ms' : Json.Members} (h : ms.Perm ms') :
    Respelled (.record options) (.obj ms) (.obj ms')
  | option {options : List (OptionName × Form)} {o : OptionName} {f : Form} {key : String}
    {before after : Json.Members} {j j' : Json} (ho : (o, f) ∈ options) (hkey : key ∈ o.spellings)
    (h : Respelled f j j') :
    Respelled (.record options) (.obj (before ++ (key, j) :: after))
      (.obj (before ++ (key, j') :: after))
  | entry {f : Form} {name : String} {before after : Json.Members} {j j' : Json}
    (h : Respelled f j j') :
    Respelled (.dictionary f) (.obj (before ++ (name, j) :: after))
      (.obj (before ++ (name, j') :: after))

/-- A record holds both spellings of an option, or a key that is no spelling of one; or a record
inside does. -/
inductive Misspelled : Form → Json → Prop
  | both {options : List (OptionName × Form)} {o : OptionName} {f : Form} {ms : Json.Members}
    (ho : (o, f) ∈ options) (hne : o.camel ≠ o.snake) (hcamel : o.camel ∈ ms.map (·.1))
    (hsnake : o.snake ∈ ms.map (·.1)) : Misspelled (.record options) (.obj ms)
  | unknown {options : List (OptionName × Form)} {ms : Json.Members} {m : String × Json}
    (hm : m ∈ ms) (h : ∀ x ∈ options, m.1 ∉ x.1.spellings) : Misspelled (.record options) (.obj ms)
  | option {options : List (OptionName × Form)} {o : OptionName} {f : Form} {ms : Json.Members}
    {m : String × Json} (ho : (o, f) ∈ options) (hm : m ∈ ms) (hkey : m.1 ∈ o.spellings)
    (h : Misspelled f m.2) : Misspelled (.record options) (.obj ms)
  | entry {f : Form} {ms : Json.Members} {m : String × Json} (hm : m ∈ ms)
    (h : Misspelled f m.2) : Misspelled (.dictionary f) (.obj ms)

variable {f : Form} {j j' : Json}

theorem wellFormed_replaced {before after : Json.Members} {name : String}
    (hj : (Json.obj (before ++ (name, j) :: after)).WellFormed) (hj' : j.WellFormed → j'.WellFormed) :
    (Json.obj (before ++ (name, j') :: after)).WellFormed := by
  rw [Json.wellFormed_obj, List.map_append, List.forall_mem_append, List.forall_mem_cons] at *
  obtain ⟨hkeys, hbefore, hvalue, hafter⟩ := hj
  exact ⟨hkeys, hbefore, hj' hvalue, hafter⟩

theorem Respelled.wellFormed (h : Respelled f j j') (hj : j.WellFormed) : j'.WellFormed := by
  induction h with
  | @spell _ _ _ key key' before after j _ _ _ habsent =>
    rw [Json.wellFormed_obj] at *
    rw [(List.perm_middle.map _).nodup_iff, List.map_cons, List.nodup_cons] at hj ⊢
    rw [List.forall_mem_append, List.forall_mem_cons] at *
    exact ⟨⟨habsent, hj.1.2⟩, hj.2⟩
  | permute h =>
    rw [Json.wellFormed_obj] at *
    exact ⟨(h.map _).nodup_iff.mp hj.1, fun m hm => hj.2 m (h.mem_iff.mpr hm)⟩
  | option _ _ _ ih => exact wellFormed_replaced hj ih
  | entry _ ih => exact wellFormed_replaced hj ih

theorem Respelled.record {options : List (OptionName × Form)}
    (h : Respelled (.record options) j j') : ∃ ms, j' = .obj ms := by
  cases h with
  | spell => exact ⟨_, rfl⟩
  | permute => exact ⟨_, rfl⟩
  | option => exact ⟨_, rfl⟩

theorem Respelled.symm (h : Respelled f j j') (hj : j.WellFormed) : Respelled f j' j := by
  induction h with
  | spell ho hkey hkey' _ =>
    have hkeys := ((Json.wellFormed_obj _).mp hj).1
    rw [(List.perm_middle.map _).nodup_iff, List.map_cons, List.nodup_cons] at hkeys
    exact .spell ho hkey' hkey hkeys.1
  | permute h => exact .permute h.symm
  | option ho hkey _ ih =>
    have hvalues := ((Json.wellFormed_obj _).mp hj).2
    exact .option ho hkey (ih (hvalues _ (List.mem_append_right _ List.mem_cons_self)))
  | entry _ ih =>
    have hvalues := ((Json.wellFormed_obj _).mp hj).2
    exact .entry (ih (hvalues _ (List.mem_append_right _ List.mem_cons_self)))

end Forms

namespace OptionName

variable {o : OptionName} {ms ms' : Json.Members} {j : Json} {key : String}

theorem given?_mem (h : o.given? ms = some j) : ∃ m ∈ ms, m.2 = j := by
  rw [given?_eq_find?, Option.map_eq_some_iff] at h
  obtain ⟨x, hx, rfl⟩ := h
  exact find?_mem hx

theorem find?_iff : (∃ j, o.find? ms = some (key, j)) ↔ key ∈ ms.map (·.1) ∧
    (key = o.camel ∨ key = o.snake ∧ o.camel ∉ ms.map (·.1)) := by
  simp only [mem_keys_iff]
  unfold find?
  cases hcamel : ms.lookup o.camel with
  | some i =>
    simp only [Option.some.injEq, Prod.mk.injEq, exists_eq', not_true, and_false, or_false]
    constructor
    · rintro ⟨_, rfl, rfl⟩
      exact ⟨⟨_, hcamel⟩, rfl⟩
    · rintro ⟨-, rfl⟩
      exact ⟨i, rfl, rfl⟩
  | none =>
    simp only [Option.map_eq_some_iff, Prod.mk.injEq, reduceCtorEq, exists_false, not_false_eq_true,
      and_true]
    constructor
    · rintro ⟨_, i, hsnake, rfl, rfl⟩
      exact ⟨⟨_, hsnake⟩, .inr rfl⟩
    · rintro ⟨⟨i, hkey⟩, rfl | rfl⟩
      · rw [hcamel] at hkey
        cases hkey
      · exact ⟨i, i, hkey, rfl, rfl⟩

theorem given?_insert_of_not_spelling {before after : Json.Members} (h : key ∉ o.spellings) :
    o.given? (before ++ (key, j) :: after) = o.given? (before ++ after) := by
  have hcamel : o.camel ≠ key := fun hh => h (hh ▸ List.mem_cons_self)
  have hsnake : o.snake ≠ key := fun hh => h (hh ▸ List.mem_cons_of_mem _ List.mem_cons_self)
  rw [given?, given?, lookup_insert_of_ne hcamel, lookup_insert_of_ne hsnake]

theorem given?_eq_some_iff (hkeys : (ms.map (·.1)).Nodup) : o.given? ms = some j ↔
    (o.camel, j) ∈ ms ∨ o.camel ∉ ms.map (·.1) ∧ (o.snake, j) ∈ ms := by
  have hnone : ms.lookup o.camel = none ↔ o.camel ∉ ms.map (·.1) := by
    rw [mem_keys_iff, ← Option.isSome_iff_exists, Option.not_isSome_iff_eq_none]
  rw [given?, Option.or_eq_some_iff, hnone, lookup_eq_some_iff_mem hkeys,
    lookup_eq_some_iff_mem hkeys]

theorem given?_perm (h : ms.Perm ms') (hkeys : (ms.map (·.1)).Nodup) :
    o.given? ms = o.given? ms' := by
  rw [given?, given?, lookup_perm h hkeys, lookup_perm h hkeys]

theorem spellings_of_ne {key' : String} (hkey : key ∈ o.spellings) (hkey' : key' ∈ o.spellings)
    (hne : key ≠ key') : ∀ k ∈ o.spellings, k = key ∨ k = key' := by
  simp only [spellings, List.mem_cons, List.not_mem_nil, or_false] at *
  grind

theorem given?_insert_of_alone {before after : Json.Members}
    (hkeys : ((before ++ (key, j) :: after).map (·.1)).Nodup) (hkey : key ∈ o.spellings)
    (h : ∀ m ∈ before ++ after, m.1 ∉ o.spellings) :
    o.given? (before ++ (key, j) :: after) = some j := by
  rw [given?_eq_some_iff hkeys]
  by_cases hcamel : o.camel = key
  · left
    rw [hcamel]
    exact List.mem_append_right _ List.mem_cons_self
  · right
    have hsnake : key = o.snake := by
      rcases List.mem_cons.mp hkey with hkey | hkey
      · exact absurd hkey.symm hcamel
      · exact List.mem_singleton.mp hkey
    refine ⟨fun hmem => ?_, hsnake ▸ List.mem_append_right _ List.mem_cons_self⟩
    obtain ⟨m, hm, hname⟩ := List.mem_map.mp hmem
    rcases List.mem_cons.mp (List.perm_middle.mem_iff.mp hm) with rfl | hm
    · exact hcamel hname.symm
    · exact h m hm (hname ▸ List.mem_cons_self)

theorem given?_respelled {q : OptionName} {key' : String} {before after : Json.Members}
    (hkeys : ((before ++ (key, j) :: after).map (·.1)).Nodup)
    (hkeys' : ((before ++ (key', j) :: after).map (·.1)).Nodup) (hkey : key ∈ o.spellings)
    (hkey' : key' ∈ o.spellings) (h : q = o ∨ ∀ k ∈ o.spellings, k ∉ q.spellings) :
    q.given? (before ++ (key, j) :: after) = q.given? (before ++ (key', j) :: after) := by
  by_cases hsame : key = key'
  · rw [hsame]
  rcases h with rfl | hother
  · have hnone {name : String}
        (hnodup : ((before ++ (name, j) :: after).map (·.1)).Nodup) :
        ∀ m ∈ before ++ after, m.1 ≠ name := by
      rw [(List.perm_middle.map _).nodup_iff, List.map_cons, List.nodup_cons] at hnodup
      rintro m hm rfl
      exact hnodup.1 (List.mem_map.mpr ⟨m, hm, rfl⟩)
    have hall : ∀ m ∈ before ++ after, m.1 ∉ q.spellings := fun m hm hspelling =>
      (spellings_of_ne hkey hkey' hsame m.1 hspelling).elim (hnone hkeys m hm) (hnone hkeys' m hm)
    rw [given?_insert_of_alone hkeys hkey hall, given?_insert_of_alone hkeys' hkey' hall]
  · rw [given?_insert_of_not_spelling (hother key hkey),
      given?_insert_of_not_spelling (hother key' hkey')]

theorem given?_replaced {j' : Json} {before after : Json.Members}
    (hkeys : ((before ++ (key, j) :: after).map (·.1)).Nodup) (hkey : key ∈ o.spellings) :
    o.given? (before ++ (key, j) :: after) = o.given? (before ++ (key, j') :: after) ∨
      o.given? (before ++ (key, j) :: after) = some j ∧
        o.given? (before ++ (key, j') :: after) = some j' := by
  have hself (i : Json) : (before ++ (key, i) :: after).lookup key = some i := by
    rw [List.map_append, List.map_cons] at hkeys
    refine lookup_of_mem ?_ (List.mem_append_right _ List.mem_cons_self)
    rw [List.map_append]
    exact hkeys
  have hother {k : String} (hne : k ≠ key) : (before ++ (key, j) :: after).lookup k =
      (before ++ (key, j') :: after).lookup k := by
    rw [lookup_insert_of_ne hne, lookup_insert_of_ne hne]
  unfold given?
  by_cases hcamel : o.camel = key
  · right
    rw [hcamel, hself, hself]
    exact ⟨rfl, rfl⟩
  · rw [hother hcamel]
    rcases List.mem_cons.mp hkey with hkey | hkey
    · exact absurd hkey.symm hcamel
    · rw [← List.mem_singleton.mp hkey, hself, hself]
      cases (before ++ (key, j') :: after).lookup o.camel with
      | some i => exact .inl rfl
      | none => exact .inr ⟨rfl, rfl⟩

end OptionName

namespace Shape

variable {α : Type} {s : Shape α} {ms ms' : Json.Members}

theorem strangers_eq_nil_iff_keys : s.strangers ms = [] ↔ ∀ k ∈ ms.map (·.1),
    ∃ o ∈ s.options, k = o.camel ∨ k = o.snake ∧ o.camel ∉ ms.map (·.1) := by
  rw [strangers_eq_nil, List.forall_mem_map]
  refine forall₂_congr fun m hm => exists_congr fun o => and_congr_right fun _ => ?_
  rw [OptionName.find?_iff, and_iff_right (List.mem_map_of_mem hm)]

theorem strangers_congr (h : ∀ k, k ∈ ms.map (·.1) ↔ k ∈ ms'.map (·.1))
    (hms : s.strangers ms = []) : s.strangers ms' = [] := by
  rw [strangers_eq_nil_iff_keys] at *
  simpa only [← h] using hms

theorem strangers_respelled {o : OptionName} {key key' : String} {before after : Json.Members}
    {j : Json} (ho : o ∈ s.options)
    (hothers : ∀ q ∈ s.options, q = o ∨ ∀ k ∈ o.spellings, k ∉ q.spellings)
    (hkey : key ∈ o.spellings) (hkey' : key' ∈ o.spellings)
    (hold : key ∉ (before ++ after).map (·.1)) (hnew : key' ∉ (before ++ after).map (·.1))
    (h : s.strangers (before ++ (key, j) :: after) = []) :
    s.strangers (before ++ (key', j) :: after) = [] := by
  rw [strangers_eq_nil_iff_keys] at h ⊢
  have hkeys (name : String) (k : String) : k ∈ (before ++ (name, j) :: after).map (·.1) ↔
      k = name ∨ k ∈ (before ++ after).map (·.1) := StoreDeclaration.mem_keys_insert
  simp only [hkeys] at h ⊢
  by_cases hsame : key = key'
  · rw [← hsame]
    exact h
  -- The two keys are the two spellings, so no other member is under a spelling of the option.
  have htwo := OptionName.spellings_of_ne hkey hkey' hsame
  have hcamel := htwo o.camel List.mem_cons_self
  intro k hk
  rcases hk with rfl | hk
  · refine ⟨o, ho, or_iff_not_imp_left.mpr fun hne => ⟨?_, ?_⟩⟩
    · exact List.mem_singleton.mp ((List.mem_cons.mp hkey').resolve_left hne)
    · rw [hcamel.resolve_right (Ne.symm hne)]
      exact not_or.mpr ⟨hsame, hold⟩
  · obtain ⟨q, hq, hfound⟩ := h k (.inr hk)
    rcases hothers q hq with rfl | hother
    · have hspelling : k ∈ q.spellings := by
        rcases hfound with rfl | ⟨rfl, -⟩
        · exact List.mem_cons_self
        · exact List.mem_cons_of_mem _ List.mem_cons_self
      rcases htwo k hspelling with rfl | rfl
      · exact absurd hk hold
      · exact absurd hk hnew
    · refine ⟨q, hq, hfound.imp_right fun hsnake => ⟨hsnake.1, not_or.mpr ⟨?_, ?_⟩⟩⟩
      · rintro rfl
        exact hother _ hkey' List.mem_cons_self
      · exact (not_or.mp hsnake.2).2

end Shape

/-- A reader follows a form if it takes from a value what it takes from a respelled one, and refuses
a misspelled one. -/
structure Reader.Follows {α : Type} (read : Reader α) (f : Form) : Prop where
  respelled : ∀ {j j' a}, j.WellFormed → Respelled f j j' → read j = .value a → read j' = .value a
  misspelled : ∀ {j a}, j.WellFormed → Misspelled f j → read j ≠ .value a

def Form.Alike (f : Form) (x y : Option Json) : Prop :=
  x = y ∨ ∃ j j', x = some j ∧ y = some j' ∧ Respelled f j j'

def Form.Apart (options : List (OptionName × Form)) : Prop :=
  options.Pairwise fun x y => ∀ key ∈ x.1.spellings, key ∉ y.1.spellings

instance (options : List (OptionName × Form)) : Decidable (Form.Apart options) :=
  inferInstanceAs (Decidable (options.Pairwise _))

theorem Form.Apart.eq_or {options : List (OptionName × Form)} (h : Apart options)
    {x y : OptionName × Form} (hx : x ∈ options) (hy : y ∈ options) :
    y = x ∨ ∀ key ∈ x.1.spellings, key ∉ y.1.spellings := by
  have : Std.Symm fun x y : OptionName × Form => ∀ key ∈ x.1.spellings, key ∉ y.1.spellings :=
    ⟨fun _ _ hapart key hy hx => hapart key hx hy⟩
  by_cases hsame : y = x
  · exact .inl hsame
  · exact .inr (List.Pairwise.forall h hx hy (Ne.symm hsame))

structure Shape.Follows {α : Type} (s : Shape α) (options : List (OptionName × Form)) : Prop where
  names : s.options = options.map (·.1)
  respelled : ∀ {ms ms' a}, (Json.obj ms).WellFormed →
    (∀ x ∈ options, x.2.Alike (x.1.given? ms) (x.1.given? ms')) →
    s.read ms = .value a → s.read ms' = .value a
  misspelled : ∀ {ms a j x}, (Json.obj ms).WellFormed → x ∈ options → x.1.given? ms = some j →
    Misspelled x.2 j → s.read ms ≠ .value a

namespace Reader

variable {α : Type} {read : Reader α} {f : Form}

theorem Follows.plain (read : Reader α) : read.Follows .plain := by
  constructor
  · intro j j' a _ h
    cases h
  · intro j a _ h
    cases h

theorem Follows.dictionary (h : read.Follows f) :
    (Reader.dictionary read).Follows (.dictionary f) := by
  constructor
  case respelled =>
    intro j j' es hj hrespelled hread
    cases hrespelled with
    | @entry _ name before after i i' hinner =>
      have hvalue := ((Json.wellFormed_obj _).mp hj).2 (name, i)
        (List.mem_append_right _ List.mem_cons_self)
      have hsame (ms : Json.Members) : List.Forall₂ (fun m' m => m'.1 = m.1 ∧
          ∀ a, read m.2 = .value a → read m'.2 = .value a) ms ms :=
        List.forall₂_same.mpr fun _ _ => ⟨rfl, fun _ => id⟩
      have hmembers : List.Forall₂ (fun m' m => m'.1 = m.1 ∧
          ∀ a, read m.2 = .value a → read m'.2 = .value a)
          (before ++ (name, i') :: after) (before ++ (name, i) :: after) :=
        List.rel_append (hsame before)
          (.cons ⟨rfl, fun _ => h.respelled hvalue hinner⟩ (hsame after))
      exact entries_eq_value.mpr (forall₂_comp
        (fun _ _ _ hm he => ⟨hm.1.trans he.1, hm.2 _ he.2⟩) hmembers (entries_eq_value.mp hread))
  case misspelled =>
    intro j es hj hmisspelled hread
    cases hmisspelled with
    | entry hm hinner =>
      have hvalue := ((Json.wellFormed_obj _).mp hj).2 _ hm
      obtain ⟨e, -, -, he⟩ := exists_of_mem_right (entries_eq_value.mp hread).flip hm
      exact h.misspelled hvalue hinner he

end Reader

namespace Shape

variable {α β : Type} {f : Form}

theorem wellFormed_given? {o : OptionName} {ms : Json.Members} {j : Json}
    (hms : (Json.obj ms).WellFormed) (h : o.given? ms = some j) : j.WellFormed := by
  obtain ⟨m, hm, rfl⟩ := OptionName.given?_mem h
  exact ((Json.wellFormed_obj ms).mp hms).2 m hm

theorem Follows.single {s : Shape α} {o : OptionName} {read : Reader α} {P : α → Prop}
    (hread : read.Follows f) (hoptions : s.options = [o])
    (h : ∀ {ms a}, s.read ms = .value a ↔
      (∃ j, o.given? ms = some j ∧ read j = .value a) ∨ (o.given? ms = none ∧ P a)) :
    s.Follows [(o, f)] := by
  constructor
  case names => exact hoptions
  case respelled =>
    intro ms ms' a hms halike hvalue
    rw [h] at hvalue ⊢
    rcases halike (o, f) List.mem_cons_self with hsame | ⟨j, j', hj, hj', hrespelled⟩
    · rwa [← hsame]
    · rcases hvalue with ⟨i, hi, hvalue⟩ | ⟨hnone, -⟩
      · cases hj.symm.trans hi
        exact .inl ⟨j', hj', hread.respelled (wellFormed_given? hms hj) hrespelled hvalue⟩
      · cases hj.symm.trans hnone
  case misspelled =>
    intro ms a j x hms hx hj hbad hvalue
    cases List.mem_singleton.mp hx
    rcases h.mp hvalue with ⟨i, hi, hvalue⟩ | ⟨hnone, -⟩
    · cases hj.symm.trans hi
      exact hread.misspelled (wellFormed_given? hms hj) hbad hvalue
    · cases hj.symm.trans hnone

theorem Follows.option {o : OptionName} {read : Reader α} (default : α) (h : read.Follows f) :
    (Shape.option o read default).Follows [(o, f)] :=
  .single h rfl option_read

theorem Follows.required {o : OptionName} {read : Reader α} (h : read.Follows f) :
    (Shape.required o read).Follows [(o, f)] :=
  .single (P := fun _ => False) h rfl (by simp [required_read])

theorem Follows.record {o : OptionName} {read : Reader α} (h : read.Follows f) :
    (Shape.record o read).Follows [(o, f)] := by
  refine .single (P := fun a => read (.obj []) = .value a) h rfl fun {ms a} => ?_
  rw [record_read]
  cases o.given? ms with
  | some j => simp
  | none => simp

theorem Follows.map {s : Shape α} {options : List (OptionName × Form)} (g : α → β)
    (h : s.Follows options) : (g <$> s).Follows options := by
  constructor
  case names => exact h.names
  case respelled =>
    intro ms ms' b hms halike hread
    obtain ⟨a, ha, hb⟩ := map_read.mp hread
    exact map_read.mpr ⟨a, h.respelled hms halike ha, hb⟩
  case misspelled =>
    intro ms b j x hms hx hj hbad hread
    obtain ⟨a, ha, -⟩ := map_read.mp hread
    exact h.misspelled hms hx hj hbad ha

theorem Follows.seq {g : Shape (α → β)} {s : Shape α} {front back : List (OptionName × Form)}
    (hg : g.Follows front) (hs : s.Follows back) : (g <*> s).Follows (front ++ back) := by
  constructor
  case names =>
    rw [List.map_append, ← hg.names, ← hs.names]
    rfl
  case respelled =>
    intro ms ms' b hms halike hread
    obtain ⟨hfront, hback⟩ := List.forall_mem_append.mp halike
    obtain ⟨k, hk, a, ha, hb⟩ := seq_read.mp hread
    exact seq_read.mpr ⟨k, hg.respelled hms hfront hk, a, hs.respelled hms hback ha, hb⟩
  case misspelled =>
    intro ms b j x hms hx hj hbad hread
    obtain ⟨k, hk, a, ha, -⟩ := seq_read.mp hread
    rcases List.mem_append.mp hx with hx | hx
    · exact hg.misspelled hms hx hj hbad hk
    · exact hs.misspelled hms hx hj hbad ha

section Members

variable {s : Shape α} {options : List (OptionName × Form)} {ms ms' : Json.Members}

theorem other_of_ne (happart : Form.Apart options) (hoptions : s.options = options.map (·.1))
    {x : OptionName × Form} (hx : x ∈ options) :
    ∀ q ∈ s.options, q = x.1 ∨ ∀ k ∈ x.1.spellings, k ∉ q.spellings := by
  rw [hoptions, List.forall_mem_map]
  exact fun y hy => (happart.eq_or hx hy).imp_left (congrArg Prod.fst)

theorem members_respelled (happart : Form.Apart options)
    (hoptions : s.options = options.map (·.1)) (hms : (Json.obj ms).WellFormed)
    (h : Respelled (.record options) (.obj ms) (.obj ms')) :
    (∀ x ∈ options, x.2.Alike (x.1.given? ms) (x.1.given? ms')) ∧
      (s.strangers ms = [] → s.strangers ms' = []) := by
  have hkeys := ((Json.wellFormed_obj ms).mp hms).1
  have hkeys' := ((Json.wellFormed_obj ms').mp (h.wellFormed hms)).1
  have hoption {x : OptionName × Form} (hx : x ∈ options) : x.1 ∈ s.options := by
    rw [hoptions]
    exact List.mem_map_of_mem hx
  cases h with
  | spell ho hkey hkey' habsent =>
    have hother := other_of_ne happart hoptions ho
    have hold := (List.perm_middle.map _).nodup_iff.mp hkeys
    rw [List.map_cons, List.nodup_cons] at hold
    exact ⟨fun x hx => .inl (OptionName.given?_respelled hkeys hkeys' hkey hkey'
      (hother x.1 (hoption hx))), strangers_respelled (hoption ho) hother hkey hkey' hold.1 habsent⟩
  | permute hperm =>
    exact ⟨fun x _ => .inl (OptionName.given?_perm hperm hkeys),
      strangers_congr fun k => (hperm.map _).mem_iff⟩
  | @option _ o f key before after i i' ho hkey hinner =>
    have hnames : (before ++ (key, i) :: after).map (·.1) =
        (before ++ (key, i') :: after).map (·.1) := by
      rw [List.map_append, List.map_append]
      rfl
    refine ⟨fun x hx => ?_, strangers_congr fun k => by rw [hnames]⟩
    rcases happart.eq_or ho hx with rfl | hother
    · exact (OptionName.given?_replaced hkeys hkey).imp_right fun hboth =>
        ⟨i, i', hboth.1, hboth.2, hinner⟩
    · left
      rw [OptionName.given?_insert_of_not_spelling (hother key hkey),
        OptionName.given?_insert_of_not_spelling (hother key hkey)]

theorem members_misspelled (happart : Form.Apart options)
    (hoptions : s.options = options.map (·.1)) (hms : (Json.obj ms).WellFormed)
    (hknown : s.strangers ms = []) (h : Misspelled (.record options) (.obj ms)) :
    ∃ x ∈ options, ∃ j, x.1.given? ms = some j ∧ Misspelled x.2 j := by
  -- What is under a spelling of an option is found there, since no other option has it.
  have hfound {x : OptionName × Form} (hx : x ∈ options) {key : String}
      (hkey : key ∈ x.1.spellings) (hmem : key ∈ ms.map (·.1)) :
      key = x.1.camel ∨ key = x.1.snake ∧ x.1.camel ∉ ms.map (·.1) := by
    obtain ⟨q, hq, hfind⟩ := strangers_eq_nil_iff_keys.mp hknown key hmem
    rcases other_of_ne happart hoptions hx q hq with rfl | hother
    · exact hfind
    · refine absurd ?_ (hother key hkey)
      rcases hfind with rfl | ⟨rfl, -⟩
      · exact List.mem_cons_self
      · exact List.mem_cons_of_mem _ List.mem_cons_self
  cases h with
  | both ho hne hcamel hsnake =>
    rcases hfound ho (List.mem_cons_of_mem _ List.mem_cons_self) hsnake with hsame | ⟨-, hnone⟩
    · exact absurd hsame.symm hne
    · exact absurd hcamel hnone
  | unknown hm hno =>
    obtain ⟨o, ho, hkey⟩ := List.mem_flatMap.mp (mem_spellings hknown _ hm)
    rw [hoptions] at ho
    obtain ⟨x, hx, rfl⟩ := List.mem_map.mp ho
    exact absurd hkey (hno x hx)
  | @option _ o f _ m ho hm hkey hinner =>
    refine ⟨(o, f), ho, m.2, ?_, hinner⟩
    rw [OptionName.given?_eq_some_iff ((Json.wellFormed_obj ms).mp hms).1]
    rcases hfound ho hkey (List.mem_map_of_mem hm) with hcamel | ⟨hsnake, hnone⟩
    · exact .inl (hcamel ▸ hm)
    · exact .inr ⟨hnone, hsnake ▸ hm⟩

end Members

theorem Follows.reader {s : Shape α} {options : List (OptionName × Form)} (title : String)
    (h : s.Follows options) (happart : Form.Apart options) :
    (s.reader title).Follows (.record options) := by
  constructor
  case respelled =>
    intro j j' a hj hrespelled hread
    obtain ⟨ms, rfl, hread, hknown⟩ := reader_eq_value.mp hread
    obtain ⟨ms', rfl⟩ := hrespelled.record
    obtain ⟨halike, hknown'⟩ := members_respelled happart h.names hj hrespelled
    exact reader_eq_value.mpr ⟨ms', rfl, h.respelled hj halike hread, hknown' hknown⟩
  case misspelled =>
    intro j a hj hmisspelled hread
    obtain ⟨ms, rfl, hread, hknown⟩ := reader_eq_value.mp hread
    obtain ⟨x, hx, i, hi, hinner⟩ := members_misspelled happart h.names hj hknown hmisspelled
    exact h.misspelled hj hx hi hinner hread

end Shape

end SolidityTables

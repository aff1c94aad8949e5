import SolidityTables.Generate
import SolidityTables.Proofs.Attempt
import SolidityTables.Proofs.Lookup
import Mathlib.Logic.Function.Basic

/-!
# Files on a disk

Making directories changes no file, and writing a file changes that one alone. So the files after
some actions are those from before, overwritten in turn by the files that were written. Actions that
fail have done so after a first part of them.
-/

namespace SolidityTables

open Attempt

/-- The place of a file by its location, if the way to it is made of directories. -/
def Location.place (current : List String) (l : Location) : List String :=
  l.parts.dropLast.foldl Path.step (if l.slashes = 0 then current else []) ++
    l.parts.getLast?.toList

namespace Disk

variable {d d' : Disk} {l : Location} {place : List String}

theorem lookup_putEntry (place other : List String) (e : Entry)
    (entries : List (List String × Entry)) :
    (putEntry place e entries).lookup other =
      if other = place then some e else entries.lookup other := by
  induction entries with
  | nil =>
    rw [putEntry, lookup_cons]
  | cons x entries ih =>
    obtain ⟨p, old⟩ := x
    by_cases hp : p = place
    · subst hp
      rw [putEntry, if_pos rfl, lookup_cons, lookup_cons]
      split_ifs <;> rfl
    · rw [putEntry, if_neg hp, lookup_cons, lookup_cons, ih]
      by_cases h : other = p
      · subst h
        rw [if_pos rfl, if_neg hp, if_pos rfl]
      · rw [if_neg h, if_neg h]

theorem get?_put (hplace : place ≠ []) (e : Entry) (other : List String) :
    (d.put place e).get? other = if other = place then some e else d.get? other := by
  by_cases hother : other = []
  · subst hother
    rw [if_neg (Ne.symm hplace)]
    rfl
  · simp only [get?, put, if_neg hother, lookup_putEntry]

def file? (d : Disk) (place : List String) : Option (List UInt8) :=
  match d.get? place with
  | some (.file bytes) => some bytes
  | _ => none

theorem file?_eq_some {bytes : List UInt8} :
    d.file? place = some bytes ↔ d.get? place = some (.file bytes) := by
  unfold file?
  split
  next b h => simp [h]
  next h =>
    constructor
    · intro hh
      cases hh
    · intro hh
      exact absurd hh (h bytes)

theorem file?_put_file (hplace : place ≠ []) (bytes : List UInt8) :
    (d.put place (.file bytes)).file? = Function.update d.file? place (some bytes) := by
  funext other
  by_cases h : other = place
  · subst h
    rw [Function.update_self, file?_eq_some, get?_put hplace, if_pos rfl]
  · rw [Function.update_of_ne h, file?, get?_put hplace, if_neg h, file?]

theorem file?_put_directory (hplace : place ≠ []) (hnew : d.get? place = none) :
    (d.put place .directory).file? = d.file? := by
  funext other
  by_cases h : other = place
  · subst h
    rw [file?, get?_put hplace, if_pos rfl, file?, hnew]
  · rw [file?, get?_put hplace, if_neg h, file?]

section Following

variable {dir dir' : List String} {cs : List String}

theorem enter_eq_ok (h : d.enter dir cs = .ok dir') : dir' = cs.foldl Path.step dir ∧
    ∀ front, front <+: cs → d.get? (front.foldl Path.step dir) = some .directory := by
  induction cs generalizing dir with
  | nil =>
    rw [enter] at h
    split at h
    next hdir =>
      cases h
      refine ⟨rfl, fun front hfront => ?_⟩
      rw [List.prefix_nil.mp hfront]
      exact hdir
    next => cases h
    next => cases h
  | cons c cs ih =>
    rw [enter] at h
    split at h
    next hdir =>
      obtain ⟨_, -, h⟩ := bind_eq_ok.mp h
      obtain ⟨hdir', hrest⟩ := ih h
      refine ⟨hdir', fun front hfront => ?_⟩
      rcases List.prefix_cons_iff.mp hfront with rfl | ⟨rest, rfl, hprefix⟩
      · exact hdir
      · exact hrest rest hprefix
    next => cases h
    next => cases h

theorem follow_eq_ok (h : d.follow l cs = .ok dir) :
    d.enter (if l.slashes = 0 then d.current else []) cs = .ok dir := by
  rw [follow] at h
  split at h
  · cases h
  · exact h

theorem place?_eq_ok_some (h : d.place? l = .ok (some place)) :
    place = l.place d.current ∧ place ≠ [] ∧ (∃ name, l.parts.getLast? = some name ∧ name ≠ "..") ∧
      ∃ dir, d.enter (if l.slashes = 0 then d.current else []) l.parts.dropLast = .ok dir := by
  obtain ⟨dir, hfollow, h⟩ := bind_eq_ok.mp h
  have henter := follow_eq_ok hfollow
  cases hlast : l.parts.getLast?.filter (· ≠ "..") with
  | none =>
    rw [hlast] at h
    cases h
  | some name =>
    rw [hlast] at h
    obtain ⟨_, -, h⟩ := bind_eq_ok.mp h
    have hplace : dir ++ [name] = place := Option.some.inj (pure_eq_ok.mp h)
    obtain ⟨hname, hdown⟩ := Option.filter_eq_some_iff.mp hlast
    refine ⟨?_, ?_, ⟨name, hname, by simpa using hdown⟩, dir, henter⟩
    · rw [← hplace, Location.place, hname, (enter_eq_ok henter).1]
      rfl
    · rw [← hplace]
      exact List.concat_ne_nil name dir

end Following

/-- A disk on which some directories have been made where nothing was. -/
structure Grows (d d' : Disk) : Prop where
  current : d'.current = d.current
  entries : ∀ {place e}, d.get? place = some e → d'.get? place = some e
  files : d'.file? = d.file?

namespace Grows

variable {d'' : Disk}

theorem refl (d : Disk) : d.Grows d := ⟨rfl, id, rfl⟩

theorem trans (h : d.Grows d') (h' : d'.Grows d'') : d.Grows d'' :=
  ⟨h'.current.trans h.current, fun he => h'.entries (h.entries he), h'.files.trans h.files⟩

end Grows

theorem makeDirectory_grows (h : d.makeDirectory l = .ok d') : d.Grows d' := by
  obtain ⟨where?, hwhere, h⟩ := bind_eq_ok.mp h
  cases where? with
  | none => cases h
  | some place =>
    obtain ⟨-, hplace, -⟩ := place?_eq_ok_some hwhere
    dsimp only at h
    cases hnew : d.get? place with
    | some e =>
      rw [hnew] at h
      cases h
    | none =>
      rw [hnew] at h
      cases pure_eq_ok.mp h
      refine ⟨rfl, fun {other e} he => ?_, file?_put_directory hplace hnew⟩
      have hne : other ≠ place := by
        intro hh
        subst hh
        rw [hnew] at he
        cases he
      rw [get?_put hplace, if_neg hne]
      exact he

theorem settle_grows {made : Except Fault Disk} (h : ∀ d', made = .ok d' → d.Grows d') :
    d.Grows (settle l d made).1 := by
  cases made with
  | ok made => exact h made rfl
  | error fault =>
    rw [settle]
    split
    · exact .refl d
    · exact .refl d

theorem ensureFirst_grows (l : Location) (n : Nat) (d : Disk) : d.Grows (ensureFirst l n d).1 := by
  induction n generalizing d with
  | zero => exact .refl d
  | succ n ih =>
    rw [ensureFirst]
    split
    next =>
      have habove := ih d
      cases hmade : ensureFirst l n d with
      | mk d₁ outcome =>
        rw [hmade] at habove
        cases outcome with
        | ok _ => exact habove.trans (settle_grows fun _ => makeDirectory_grows)
        | error e => exact habove
    next => exact settle_grows fun _ => makeDirectory_grows

theorem ensureDirectory_grows (d : Disk) (l : Location) : d.Grows (d.ensureDirectory l).1 :=
  ensureFirst_grows l _ d

theorem writeFile_eq_ok {bytes : List UInt8} (h : d.writeFile l bytes = .ok d') :
    d' = d.put (l.place d.current) (.file bytes) ∧ l.place d.current ≠ [] ∧
      d.get? (l.place d.current) ≠ some .directory ∧
      (∃ name, l.parts.getLast? = some name ∧ name ≠ "..") ∧
      ∃ dir, d.enter (if l.slashes = 0 then d.current else []) l.parts.dropLast = .ok dir := by
  obtain ⟨where?, hwhere, h⟩ := bind_eq_ok.mp h
  cases where? with
  | none => cases h
  | some place =>
    obtain ⟨rfl, hplace, hname, hdir⟩ := place?_eq_ok_some hwhere
    dsimp only at h
    split at h
    next => cases h
    next hfile =>
      cases pure_eq_ok.mp h
      exact ⟨rfl, hplace, hfile, hname, hdir⟩

def overwrite (files : List String → Option (List UInt8))
    (written : List (List String × List UInt8)) : List String → Option (List UInt8) :=
  written.foldl (fun files w => Function.update files w.1 (some w.2)) files

section Overwrite

variable {files : List String → Option (List UInt8)} {written : List (List String × List UInt8)}

theorem overwrite_of_unwritten (h : ∀ w ∈ written, w.1 ≠ place) :
    overwrite files written place = files place := by
  induction written generalizing files with
  | nil => rfl
  | cons w written ih =>
    obtain ⟨hw, hrest⟩ := List.forall_mem_cons.mp h
    exact (ih hrest).trans (Function.update_of_ne (Ne.symm hw) _ _)

theorem overwrite_last {before after : List (List String × List UInt8)} {bytes : List UInt8}
    (h : ∀ w ∈ after, w.1 ≠ place) :
    overwrite files (before ++ (place, bytes) :: after) place = some bytes := by
  have hsplit : overwrite files (before ++ (place, bytes) :: after) =
      overwrite (Function.update (overwrite files before) place (some bytes)) after := by
    rw [overwrite, List.foldl_append, List.foldl_cons]
    rfl
  rw [hsplit, overwrite_of_unwritten h, Function.update_self]

theorem overwrite_ne_none (h : files place ≠ none ∨ ∃ w ∈ written, w.1 = place) :
    overwrite files written place ≠ none := by
  induction written generalizing files with
  | nil => exact h.resolve_right (by simp)
  | cons w written ih =>
    change overwrite (Function.update files w.1 (some w.2)) written place ≠ none
    apply ih
    by_cases hw : w.1 = place
    · left
      rw [← hw, Function.update_self]
      exact Option.some_ne_none _
    · rw [Function.update_of_ne (Ne.symm hw)]
      rcases h with h | ⟨v, hv, hplace⟩
      · exact .inl h
      · rcases List.mem_cons.mp hv with rfl | hv
        · exact absurd hplace hw
        · exact .inr ⟨v, hv, hplace⟩

end Overwrite

end Disk

namespace Action

def written? (current : List String) : Action → Option (List String × List UInt8)
  | directory _ => none
  | file l text => some (l.place current, Utf8.encode text)

/-- A disk on which some actions have been done. -/
structure Done (d : Disk) (actions : List Action) (d' : Disk) : Prop where
  current : d'.current = d.current
  directories : ∀ place, d.get? place = some .directory → d'.get? place = some .directory
  files : d'.file? = Disk.overwrite d.file? (actions.filterMap (written? d.current))

variable {d d' d'' : Disk} {a : Action} {actions later : List Action}

theorem Done.append (h : Done d actions d') (h' : Done d' later d'') :
    Done d (actions ++ later) d'' := by
  refine ⟨h'.current.trans h.current, fun place hp => h'.directories place (h.directories place hp),
    ?_⟩
  rw [h'.files, h.files, h.current, List.filterMap_append, Disk.overwrite, Disk.overwrite,
    Disk.overwrite, List.foldl_append]

theorem done_of_grows (l : Location) (h : d.Grows d') : Done d [directory l] d' :=
  ⟨h.current, fun _ => h.entries, h.files⟩

theorem Done.none (h : d.Grows d') : Done d [] d' :=
  ⟨h.current, fun _ => h.entries, h.files⟩

theorem done_of_writeFile {l : Location} {text : String}
    (h : d.writeFile l (Utf8.encode text) = .ok d') : Done d [file l text] d' := by
  obtain ⟨rfl, hplace, hfile, -⟩ := Disk.writeFile_eq_ok h
  refine ⟨rfl, fun place hp => ?_, Disk.file?_put_file hplace _⟩
  have hne : place ≠ l.place d.current := by
    intro hh
    rw [hh] at hp
    exact hfile hp
  rw [Disk.get?_put hplace, if_neg hne]
  exact hp

theorem perform_done {r : Except Disk.Error Unit} (h : a.perform d = (d', r)) :
    (r = .ok () → Done d [a] d') ∧ (∀ e, r = .error e → Done d [] d') := by
  cases a with
  | directory l =>
    have hgrows := d.ensureDirectory_grows l
    rw [perform] at h
    rw [h] at hgrows
    exact ⟨fun _ => done_of_grows l hgrows, fun _ _ => .none hgrows⟩
  | file l text =>
    rw [perform] at h
    split at h
    next made hmade =>
      cases h
      refine ⟨fun _ => done_of_writeFile hmade, fun _ hh => ?_⟩
      cases hh
    next =>
      cases h
      refine ⟨fun hh => ?_, fun _ _ => .none (.refl d)⟩
      cases hh

theorem performAll_done {r : Except Disk.Error Unit} (h : performAll d actions = (d', r)) :
    ∃ done, done <+: actions ∧ Done d done d' ∧ (r = .ok () → done = actions) := by
  induction actions generalizing d with
  | nil =>
    cases h
    exact ⟨[], List.prefix_rfl, .none (.refl _), fun _ => rfl⟩
  | cons a actions ih =>
    rw [performAll] at h
    cases hstep : a.perform d with
    | mk d₁ outcome =>
      rw [hstep] at h
      obtain ⟨hok, herror⟩ := perform_done hstep
      cases outcome with
      | ok _ =>
        obtain ⟨done, hprefix, hdone, hall⟩ := ih h
        refine ⟨a :: done, (List.prefix_cons_inj a).mpr hprefix, (hok rfl).append hdone, ?_⟩
        intro hr
        rw [hall hr]
      | error e =>
        cases h
        refine ⟨[], List.nil_prefix, herror e rfl, fun hh => ?_⟩
        cases hh

theorem performAll_append (d : Disk) (actions later : List Action) :
    performAll d (actions ++ later) = match performAll d actions with
      | (d', .ok ()) => performAll d' later
      | failed => failed := by
  induction actions generalizing d with
  | nil => rfl
  | cons a actions ih =>
    rw [List.cons_append, performAll, performAll]
    cases a.perform d with
    | mk d₁ outcome =>
      cases outcome with
      | ok _ => exact ih d₁
      | error e => rfl

end Action

end SolidityTables

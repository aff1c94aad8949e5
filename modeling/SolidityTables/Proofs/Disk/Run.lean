import SolidityTables.Proofs.Disk.Files
import SolidityTables.Proofs.Library.Planning

/-!
# Runs

A plan writes the libraries in the order of the tables, then the file of enums and the index. If a
library has no source, the plan ends there, when the libraries before it have been written already.
So a configuration error leaves the disk as it was only as long as the given types keep all tables
within the limit on dynamic fields, or else the first table is one that they do not.
-/

namespace SolidityTables

open Attempt

namespace Plan

variable {cwd : String} {output : Location} {files before after : List LibraryFile}
variable {written : List (Location × String)}

def writing (w : Location × String) : List Action :=
  [.directory w.1.parent, .file w.1 w.2]

def Rendered (cwd : String) (output : Location) (files : List LibraryFile)
    (written : List (Location × String)) : Prop :=
  List.Forall₂ (fun f w => w.1 = output.child f.path ∧ f.options.render cwd = .ok w.2) files written

theorem rendered_or_fault (cwd : String) (output : Location) (files : List LibraryFile) :
    (∃ written, Rendered cwd output files written) ∨ ∃ before f after written e,
      files = before ++ f :: after ∧ Rendered cwd output before written ∧
        f.options.render cwd = .error e := by
  induction files with
  | nil => exact .inl ⟨[], .nil⟩
  | cons g files ih =>
    cases hg : g.options.render cwd with
    | error e => exact .inr ⟨[], g, files, [], e, rfl, .nil, hg⟩
    | ok text =>
      rcases ih with ⟨written, hw⟩ | ⟨before, f, after, written, e, rfl, hw, hf⟩
      · exact .inl ⟨(output.child g.path, text) :: written, .cons ⟨rfl, hg⟩ hw⟩
      · exact .inr ⟨g :: before, f, after, (output.child g.path, text) :: written, e, rfl,
          .cons ⟨rfl, hg⟩ hw, hf⟩

theorem writeLibraries_append (p : Plan) (h : Rendered cwd output before written)
    (after : List LibraryFile) :
    p.writeLibraries cwd output (before ++ after) =
      ⟨written.flatMap writing ++ (p.writeLibraries cwd output after).actions,
        (p.writeLibraries cwd output after).result.map fun r =>
          { r with written := written.map (·.1) ++ r.written }⟩ := by
  induction h with
  | nil =>
    cases hp : p.writeLibraries cwd output after with
    | mk actions result =>
      rw [List.nil_append, hp]
      cases result <;> rfl
  | cons hw _ ih =>
    obtain ⟨hplace, htext⟩ := hw
    rw [List.cons_append, writeLibraries, htext]
    dsimp only
    rw [ih, write, ← hplace]
    cases (p.writeLibraries cwd output after).result <;> rfl

theorem writeLibraries_fault (p : Plan) {f : LibraryFile} {e : SourceError}
    (h : f.options.render cwd = .error e) :
    p.writeLibraries cwd output (f :: after) =
      ⟨[.directory (output.child f.path).parent], .error (.ofSource e)⟩ := by
  rw [writeLibraries, h]

def sharedFiles (output : Location) (s : Store) (files : List LibraryFile) :
    List (Location × String) :=
  (if s.enums = [] then []
    else [(output.child s.codegen.userTypesFilename, s.userTypesText)]) ++
  if files = [] then [] else [(output.child s.codegen.indexFilename, indexText files)]

theorem ofLibraries_rendered (root : Location) (s : Store)
    (h : Rendered cwd (root.child s.codegen.outputDirectory) files written) :
    (ofLibraries cwd root s files).actions =
      (written ++ sharedFiles (root.child s.codegen.outputDirectory) s files).flatMap writing ∧
    ∃ notice, (ofLibraries cwd root s files).result = .ok
      ⟨(written ++ sharedFiles (root.child s.codegen.outputDirectory) s files).map (·.1),
        notice⟩ := by
  have happend (p : Plan) := writeLibraries_append p h []
  simp only [List.append_nil, writeLibraries] at happend
  rw [ofLibraries, happend, List.flatMap_append, List.map_append, sharedFiles]
  split_ifs <;> exact ⟨rfl, _, rfl⟩

theorem ofLibraries_fault (root : Location) (s : Store) {f : LibraryFile} {e : SourceError}
    (h : Rendered cwd (root.child s.codegen.outputDirectory) before written)
    (hf : f.options.render cwd = .error e) : ofLibraries cwd root s (before ++ f :: after) =
      ⟨written.flatMap writing ++
          [.directory ((root.child s.codegen.outputDirectory).child f.path).parent],
        .error (.ofSource e)⟩ := by
  rw [ofLibraries, writeLibraries_append _ h, writeLibraries_fault _ hf]
  rfl

theorem written?_writing (current : List String) (written : List (Location × String)) :
    (written.flatMap writing).filterMap (Action.written? current) =
      written.map fun w => (w.1.place current, Utf8.encode w.2) := by
  induction written with
  | nil => rfl
  | cons w written ih =>
    rw [List.flatMap_cons, List.filterMap_append, ih]
    rfl

theorem run_eq_config {p : Plan} {d d' : Disk} {e : ConfigError}
    (h : p.run d = (d', .error (.config e))) :
    p.result = .error (.config e) ∧ Action.Done d p.actions d' := by
  rw [run] at h
  cases hall : Action.performAll d p.actions with
  | mk d₁ outcome =>
    rw [hall] at h
    obtain ⟨done, -, hdone, hdoneAll⟩ := Action.performAll_done hall
    cases outcome with
    | error e' => cases h
    | ok _ =>
      rw [hdoneAll rfl] at hdone
      dsimp only at h
      obtain ⟨rfl, hresult⟩ := Prod.mk.inj h
      exact ⟨hresult, hdone⟩

theorem run_eq_ok {p : Plan} {d d' : Disk} {r : Report} (h : p.run d = (d', .ok r)) :
    Action.performAll d p.actions = (d', .ok ()) ∧ p.result = .ok r := by
  rw [run] at h
  cases hall : Action.performAll d p.actions with
  | mk d₁ outcome =>
    rw [hall] at h
    cases outcome with
    | error e => cases h
    | ok _ =>
      dsimp only at h
      obtain ⟨rfl, hresult⟩ := Prod.mk.inj h
      exact ⟨rfl, hresult⟩

theorem performAll_writing {ws before after : List (Location × String)} {w : Location × String}
    {d d' : Disk} (h : Action.performAll d (ws.flatMap writing) = (d', .ok ()))
    (hws : ws = before ++ w :: after) : ∃ d₁ d₂,
      Action.Done d (before.flatMap writing ++ [.directory w.1.parent]) d₁ ∧
      d₁.writeFile w.1 (Utf8.encode w.2) = .ok d₂ ∧
      Action.performAll d₂ (after.flatMap writing) = (d', .ok ()) := by
  have hactions : ws.flatMap writing = (before.flatMap writing ++ [.directory w.1.parent]) ++
      .file w.1 w.2 :: after.flatMap writing := by
    simp [hws, writing]
  rw [hactions, Action.performAll_append] at h
  cases hfirst : Action.performAll d (before.flatMap writing ++ [.directory w.1.parent]) with
  | mk d₁ outcome =>
    rw [hfirst] at h
    cases outcome with
    | error e => cases h
    | ok _ =>
      dsimp only at h
      rw [Action.performAll, Action.perform] at h
      obtain ⟨done, -, hdone, hall⟩ := Action.performAll_done hfirst
      rw [hall rfl] at hdone
      cases hwrite : d₁.writeFile w.1 (Utf8.encode w.2) with
      | error fault =>
        rw [hwrite] at h
        cases h
      | ok d₂ =>
        rw [hwrite] at h
        exact ⟨d₁, d₂, hdone, hwrite, h⟩

end Plan

theorem Store.generate_eq_ok {s : Store} {types : List (String × UserType)} {cwd : String}
    {root : Location} {d d' : Disk} {r : Report} (h : s.generate cwd d root types = (d', .ok r)) :
    ∃ files written, s.libraries types = .ok files ∧
      Plan.Rendered cwd (root.child s.codegen.outputDirectory) files written ∧
      Action.performAll d ((written ++
        Plan.sharedFiles (root.child s.codegen.outputDirectory) s files).flatMap Plan.writing) =
          (d', .ok ()) ∧
      r.written = (written ++
        Plan.sharedFiles (root.child s.codegen.outputDirectory) s files).map (·.1) := by
  rw [generate, plan] at h
  cases hfiles : s.libraries types with
  | error e =>
    rw [hfiles] at h
    cases h
  | ok files =>
    rw [hfiles] at h
    obtain ⟨hall, hresult⟩ := Plan.run_eq_ok h
    rcases Plan.rendered_or_fault cwd (root.child s.codegen.outputDirectory) files with
      ⟨written, hrendered⟩ | ⟨before, f, after, written, fault, rfl, hrendered, hf⟩
    · obtain ⟨hactions, notice, hreport⟩ := Plan.ofLibraries_rendered root s hrendered
      rw [hactions] at hall
      rw [hreport] at hresult
      cases hresult
      exact ⟨files, written, rfl, hrendered, hall, rfl⟩
    · rw [Plan.ofLibraries_fault root s hrendered hf] at hresult
      cases hresult

/-- The given types make more fields of a table dynamic than a layout has room for. -/
def Table.Overfull (scope : Scope) (t : Table) : Prop :=
  5 < (t.valueFields.filter fun f => scope.isDynamic f.2.declared).length

def Table.location (output : Location) (t : Table) : Location :=
  output.child (Path.join t.codegen.outputDirectory (t.label ++ ".sol"))

/-- What a configuration error leaves of a disk: all as it was if it is found while the libraries
are planned, and the libraries of the tables before if it is found where one is written. -/
inductive Store.Stopped (s : Store) (types : List (String × UserType)) (cwd : String)
    (root : Location) (d : Disk) : Disk → ConfigError → Prop
  | unplanned {e : ConfigError} (h : FirstFault ⟨s.enums, types⟩ s.uses e) :
    Stopped s types cwd root d d e
  | overfull {d' : Disk} {before after : List (String × Table)} {x : String × Table}
    {written : List (Location × String)} (htables : s.tables = before ++ x :: after)
    (hbefore : ∀ y ∈ before, ¬y.2.Overfull ⟨s.enums, types⟩)
    (hx : x.2.Overfull ⟨s.enums, types⟩)
    (hwritten : List.Forall₂ (fun y w =>
      w.1 = y.2.location (root.child s.codegen.outputDirectory) ∧
        ∃ o, LibraryOptions.ofTable s.codegen ⟨s.enums, types⟩ y.2 = .ok o ∧
          o.render cwd = .ok w.2) before written)
    (hfiles : d'.file? = Disk.overwrite d.file?
      (written.map fun w => (w.1.place d.current, Utf8.encode w.2))) :
    Stopped s types cwd root d d' .tooManyDynamicFields

theorem Store.Stopped.files_kept {s : Store} {types : List (String × UserType)} {cwd : String}
    {root : Location} {d d' : Disk} {e : ConfigError} (h : s.Stopped types cwd root d d' e)
    (htail : ∀ x ∈ s.tables.tail, ¬x.2.Overfull ⟨s.enums, types⟩) : d'.file? = d.file? := by
  cases h with
  | unplanned => rfl
  | @overfull _ before after x written htables hbefore hx hwritten hfiles =>
    cases before with
    | nil =>
      cases hwritten
      exact hfiles
    | cons y before =>
      have hmem : x ∈ s.tables.tail := by simp [htables]
      exact absurd hx (htail x hmem)

/-- What the library of a table comes to with the given types: where it is written and its text, or
that the table has too many dynamic fields. -/
inductive Store.LibraryOutcome (s : Store) (types : List (String × UserType)) (cwd : String)
    (x : String × Table) (file : LibraryFile) : Prop
  | rendered (hpath : file.path = Path.join x.2.codegen.outputDirectory (x.2.label ++ ".sol"))
    (hplan : LibraryOptions.ofTable s.codegen ⟨s.enums, types⟩ x.2 = .ok file.options)
    (hx : ¬x.2.Overfull ⟨s.enums, types⟩) (text : String)
    (htext : file.options.render cwd = .ok text)
  | overfull (hx : x.2.Overfull ⟨s.enums, types⟩)
    (htext : file.options.render cwd = .error (.layout (.counts .tooManyDynamicFields)))

section Generate

variable {s : Store} {types : List (String × UserType)} {cwd : String} {root : Location}
variable {d d' : Disk} {e : ConfigError} {files : List LibraryFile}

theorem Store.libraries_outcomes (hs : s.Accepted) (h : s.libraries types = .ok files)
    (cwd : String) : List.Forall₂ (s.LibraryOutcome types cwd) s.tables files := by
  apply List.Forall₂.mp _ (libraries_files h) (libraries_render hs h cwd)
  intro x file hh hrender
  obtain ⟨hpath, hplan⟩ := hh
  split at hrender
  next hmost =>
    obtain ⟨text, htext⟩ := hrender
    exact .rendered hpath hplan (Nat.not_lt.mpr hmost) text htext
  next hmany => exact .overfull (Nat.lt_of_not_le hmany) hrender

theorem Store.stopped_of_fault (hs : s.Accepted) {before after : List LibraryFile}
    {f : LibraryFile} {written : List (Location × String)}
    (hfiles : s.libraries types = .ok (before ++ f :: after))
    (hrendered : Plan.Rendered cwd (root.child s.codegen.outputDirectory) before written)
    (hf : f.options.render cwd = .error (.layout (.counts e)))
    (hdisk : d'.file? = Disk.overwrite d.file?
      (written.map fun w => (w.1.place d.current, Utf8.encode w.2))) :
    s.Stopped types cwd root d d' e := by
  obtain ⟨front, x, back, htables, hfront, hx, -⟩ :=
    forall₂_split (libraries_outcomes hs hfiles cwd)
  have hwritten := forall₂_comp (T := fun (y : String × Table) w => ¬y.2.Overfull ⟨s.enums, types⟩ ∧
    w.1 = y.2.location (root.child s.codegen.outputDirectory) ∧
      ∃ o, LibraryOptions.ofTable s.codegen ⟨s.enums, types⟩ y.2 = .ok o ∧
        o.render cwd = .ok w.2) (fun y file w hy hw => by
      obtain ⟨hplace, htext⟩ := hw
      cases hy with
      | rendered hpath hplan hlimit =>
        rw [hpath] at hplace
        exact ⟨hlimit, hplace, _, hplan, htext⟩
      | overfull _ hfault =>
        rw [hfault] at htext
        cases htext) hfront hrendered
  cases hx with
  | rendered _ _ _ text htext =>
    rw [htext] at hf
    cases hf
  | overfull hlimit hfault =>
    rw [hfault] at hf
    cases hf
    refine .overfull htables (fun y hy => ?_) hlimit (hwritten.imp fun _ _ hy => hy.2) hdisk
    obtain ⟨w, -, hw⟩ := exists_of_mem_right hwritten.flip hy
    exact hw.1

theorem Store.stopped_of_generate (hs : s.Accepted)
    (h : s.generate cwd d root types = (d', .error (.config e))) :
    s.Stopped types cwd root d d' e := by
  rw [generate, plan] at h
  cases hfiles : s.libraries types with
  | error e' =>
    rw [hfiles] at h
    cases h
    exact .unplanned (libraries_eq_error.mp hfiles)
  | ok files =>
    rw [hfiles] at h
    obtain ⟨hresult, hdone⟩ := Plan.run_eq_config h
    rcases Plan.rendered_or_fault cwd (root.child s.codegen.outputDirectory) files with
      ⟨written, hrendered⟩ | ⟨before, f, after, written, fault, rfl, hrendered, hf⟩
    · obtain ⟨-, notice, hok⟩ := Plan.ofLibraries_rendered root s hrendered
      rw [hok] at hresult
      cases hresult
    · rw [Plan.ofLibraries_fault root s hrendered hf] at hresult hdone
      have hdisk := hdone.files
      rw [List.filterMap_append, Plan.written?_writing] at hdisk
      simp only [List.filterMap_cons, Action.written?, List.filterMap_nil, List.append_nil] at hdisk
      cases fault with
      | layout cause =>
        cases cause with
        | counts e' =>
          cases hresult
          exact stopped_of_fault hs hfiles hrendered hf hdisk
        | range e' => cases hresult
      | key type => cases hresult

theorem Store.Stopped.not_own (hs : s.Accepted) : ¬s.Stopped s.userTypes cwd root d d' e := by
  intro h
  cases h with
  | unplanned h =>
    have hnone : ∀ u ∈ s.uses, ∀ e, ¬u.Fault s.scope e := by
      intro u hu
      obtain ⟨x, hx, hu⟩ := List.mem_flatMap.mp hu
      exact (hs.resolved x hx).no_fault u hu
    exact forall_not_firstFault.mpr hnone e h
  | @overfull _ before after x written htables hbefore hx hwritten hfiles =>
    have hmem : x ∈ s.tables := by simp [htables]
    exact absurd (hs.resolved x hmem).dynamic_length (Nat.not_le.mpr hx)

end Generate

/-- A configuration error that ends a run leaves the libraries of the tables before the one at which
it was found, and no other trace in the files; so none at all unless the given types make a table
after the first one overfull. With the user types of the store there is no such error. -/
theorem Store.generate_config_error (s : Store) (hs : s.Accepted) (cwd : String) (root : Location)
    (d : Disk) :
    (∀ types d' e, s.generate cwd d root types = (d', .error (.config e)) →
      s.Stopped types cwd root d d' e ∧
        ((∀ x ∈ s.tables.tail, ¬x.2.Overfull ⟨s.enums, types⟩) → d'.file? = d.file?)) ∧
    ∀ d' e, s.generate cwd d root s.userTypes ≠ (d', .error (.config e)) := by
  constructor
  · intro types d' e h
    have hstopped := stopped_of_generate hs h
    exact ⟨hstopped, hstopped.files_kept⟩
  · intro d' e h
    exact Stopped.not_own hs (stopped_of_generate hs h)

def forum : Json.Members :=
  [("userTypes", .obj [("Note", .obj [("type", .str "bytes32")]),
     ("Memo", .obj [("type", .str "bytes32")])]),
   ("tables", .obj [
     ("Post", .obj [("schema", .obj [("a", .str "Note"), ("b", .str "Note"), ("c", .str "Note"),
       ("d", .str "Note"), ("e", .str "Note"), ("f", .str "Note")])]),
     ("Reply", .obj [("schema", .obj [("a", .str "Memo"), ("b", .str "Memo"), ("c", .str "Memo"),
       ("d", .str "Memo"), ("e", .str "Memo"), ("f", .str "Memo")])])])]

def word : UserType := ⟨.static (.bytes (Fin.last 31)), ""⟩

def forumTable (label type : String) : Table where
  label
  kind := .table
  space := ""
  name := label
  schema := ["a", "b", "c", "d", "e", "f"].map fun field => (field, ⟨word.base, type⟩)
  key := []
  codegen := ⟨"tables", false, false, true⟩
  deploy := ⟨false⟩

def forumStore : Store where
  space := ""
  tables := [("Post", forumTable "Post" "Note"), ("Reply", forumTable "Reply" "Memo")]
  userTypes := [("Note", word), ("Memo", word)]
  enums := []
  codegen := ⟨"@latticexyz/store/src/", "common.sol", "codegen", "index.sol"⟩

theorem forumStore_accepted : forumStore.Accepted := by
  have hdefine : Store.define forum = .ok forumStore := by decide +kernel
  exact .store (by simp [forum]) hdefine

def emptyProject : Disk := ⟨["work"], [(["work"], .directory)]⟩

def longReplies : List (String × UserType) := [("Note", word), ("Memo", ⟨.string, ""⟩)]

def longPosts : List (String × UserType) := [("Note", ⟨.string, ""⟩), ("Memo", word)]

def forumRun (types : List (String × UserType)) : Disk × Except Failure Report :=
  forumStore.generate "/work" emptyProject (.ofString "src") types

theorem forumRun_longReplies :
    forumRun longReplies = ((forumRun longReplies).1, .error (.config .tooManyDynamicFields)) := by
  have hresult : (forumRun longReplies).2 = .error (.config .tooManyDynamicFields) := by
    decide +kernel
  rw [← hresult]

theorem forumRun_longPosts :
    forumRun longPosts = ((forumRun longPosts).1, .error (.config .tooManyDynamicFields)) := by
  have hresult : (forumRun longPosts).2 = .error (.config .tooManyDynamicFields) := by
    decide +kernel
  rw [← hresult]

/-- A configuration error may come after the library of an earlier table has been written. -/
theorem generate_leaves_library :
    forumStore.generate "/work" emptyProject (.ofString "src") longReplies =
      ((forumRun longReplies).1, .error (.config .tooManyDynamicFields)) ∧
    emptyProject.file? ["work", "src", "codegen", "tables", "Post.sol"] = none ∧
    (forumRun longReplies).1.file? ["work", "src", "codegen", "tables", "Post.sol"] ≠ none := by
  have hfile : ((forumRun longReplies).1.file?
      ["work", "src", "codegen", "tables", "Post.sol"]).isSome = true := by decide +kernel
  exact ⟨forumRun_longReplies, rfl, Option.isSome_iff_ne_none.mp hfile⟩

theorem generate_config_error_forum :
    forumStore.Stopped longReplies "/work" (.ofString "src") emptyProject
      (forumRun longReplies).1 .tooManyDynamicFields ∧
    forumRun longPosts =
      ((forumRun longPosts).1, .error (.config .tooManyDynamicFields)) ∧
    (forumRun longPosts).1.file? = emptyProject.file? := by
  obtain ⟨hends, -⟩ := Store.generate_config_error forumStore forumStore_accepted "/work"
    (.ofString "src") emptyProject
  have htail : ∀ x ∈ forumStore.tables.tail, (x.2.valueFields.filter fun f =>
      Scope.isDynamic ⟨forumStore.enums, longPosts⟩ f.2.declared).length ≤ 5 := by decide +kernel
  have hreplies := hends longReplies _ _ forumRun_longReplies
  have hposts := hends longPosts _ _ forumRun_longPosts
  exact ⟨hreplies.1, forumRun_longPosts, hposts.2 fun x hx => Nat.not_lt.mpr (htail x hx)⟩

end SolidityTables

import SolidityTables.Proofs.Disk.Confinement

/-!
# Runs that are repeated

What a run writes depends on neither the disk nor the root. When a run has succeeded, every
directory that it wants is there and every file lies where it is written, so the same run succeeds
again, makes no directory, and writes into every file what it holds.
-/

namespace SolidityTables

open Attempt

def Location.start (current : List String) (l : Location) : List String :=
  if l.slashes = 0 then current else []

namespace Disk

variable {d d' : Disk} {l : Location} {dir dir' place : List String}
variable {parts front : List String} {name : String}

structure Leads (d : Disk) (l : Location) (parts : List String) : Prop where
  short : Utf8.size l.text ≤ maxPath
  names : ∀ c ∈ parts, checkName c = .ok ()
  directories : ∀ front, front <+: parts →
    d.get? (front.foldl Path.step (l.start d.current)) = some .directory

theorem enter_names (h : d.enter dir parts = .ok dir') : ∀ c ∈ parts, checkName c = .ok () := by
  induction parts generalizing dir with
  | nil => exact List.forall_mem_nil _
  | cons c parts ih =>
    rw [enter] at h
    split at h
    next =>
      obtain ⟨_, hname, hrest⟩ := bind_eq_ok.mp h
      exact List.forall_mem_cons.mpr ⟨hname, ih hrest⟩
    next => cases h
    next => cases h

theorem enter_of_directories (hnames : ∀ c ∈ parts, checkName c = .ok ())
    (hdirectories : ∀ front, front <+: parts → d.get? (front.foldl Path.step dir) = some .directory) :
    d.enter dir parts = .ok (parts.foldl Path.step dir) := by
  induction parts generalizing dir with
  | nil =>
    have hdir := hdirectories [] List.nil_prefix
    rw [List.foldl_nil] at hdir
    rw [enter, hdir]
    rfl
  | cons c parts ih =>
    obtain ⟨hname, hrest⟩ := List.forall_mem_cons.mp hnames
    have hdir := hdirectories [] List.nil_prefix
    rw [List.foldl_nil] at hdir
    rw [enter, hdir]
    dsimp only
    rw [hname]
    exact ih hrest fun front hfront =>
      hdirectories (c :: front) ((List.prefix_cons_inj c).mpr hfront)

theorem follow_eq_ok_iff : d.follow l parts = .ok dir ↔
    d.Leads l parts ∧ dir = parts.foldl Path.step (l.start d.current) := by
  constructor
  · intro h
    have henter := follow_eq_ok h
    obtain ⟨hdir, hdirectories⟩ := enter_eq_ok henter
    refine ⟨⟨?_, enter_names henter, hdirectories⟩, hdir⟩
    rw [follow] at h
    split at h
    next => cases h
    next hshort => exact Nat.le_of_not_lt hshort
  · intro hh
    obtain ⟨hleads, rfl⟩ := hh
    rw [follow, if_neg (Nat.not_lt.mpr hleads.short)]
    exact enter_of_directories hleads.names hleads.directories

theorem isDirectory_iff : d.isDirectory l = true ↔ d.Leads l l.parts := by
  have hfollow (x : Except Fault (List String)) : x.toBool = true ↔ ∃ dir, x = .ok dir := by
    cases x <;> simp [Except.toBool]
  rw [isDirectory, hfollow]
  simp only [follow_eq_ok_iff, exists_and_left, exists_eq, and_true]

theorem leads_concat : d.Leads l (front ++ [name]) ↔ d.Leads l front ∧ checkName name = .ok () ∧
    d.get? ((front ++ [name]).foldl Path.step (l.start d.current)) = some .directory := by
  constructor
  · intro h
    obtain ⟨hfront, hname⟩ := List.forall_mem_append.mp h.names
    exact ⟨⟨h.short, hfront, fun f hf => h.directories f (hf.trans (List.prefix_append _ _))⟩,
      hname name (List.mem_singleton_self name), h.directories _ List.prefix_rfl⟩
  · intro hh
    obtain ⟨h, hname, hlast⟩ := hh
    refine ⟨h.short, List.forall_mem_append.mpr ⟨h.names, List.forall_mem_singleton.mpr hname⟩,
      fun f hf => ?_⟩
    rcases List.prefix_concat_iff.mp hf with rfl | hf
    · exact hlast
    · exact h.directories f hf

theorem place?_eq_ok_iff : d.place? l = .ok (some place) ↔ ∃ front name, l.parts = front ++ [name] ∧
    name ≠ ".." ∧ checkName name = .ok () ∧ d.Leads l front ∧
      place = front.foldl Path.step (l.start d.current) ++ [name] := by
  rw [place?, bind_eq_ok]
  simp only [follow_eq_ok_iff]
  constructor
  · intro hh
    obtain ⟨dir, ⟨hleads, rfl⟩, h⟩ := hh
    cases hlast : l.parts.getLast?.filter (· ≠ "..") with
    | none =>
      rw [hlast] at h
      cases h
    | some name =>
      rw [hlast] at h
      obtain ⟨_, hname, h⟩ := bind_eq_ok.mp h
      obtain ⟨hlast, hdown⟩ := Option.filter_eq_some_iff.mp hlast
      obtain ⟨front, hfront⟩ := List.getLast?_eq_some_iff.mp hlast
      rw [hfront, List.dropLast_concat] at hleads h
      exact ⟨front, name, hfront, by simpa using hdown, hname, hleads,
        (Option.some.inj (pure_eq_ok.mp h)).symm⟩
  · intro hh
    obtain ⟨front, name, hparts, hdown, hname, hleads, rfl⟩ := hh
    rw [hparts, List.dropLast_concat, List.getLast?_concat,
      Option.filter_some_pos (by simpa using hdown)]
    exact ⟨_, ⟨hleads, rfl⟩, bind_eq_ok.mpr ⟨_, hname, rfl⟩⟩

structure Within (d d' : Disk) : Prop where
  current : d'.current = d.current
  directories : ∀ place, d.get? place = some .directory → d'.get? place = some .directory

theorem Grows.within (h : d.Grows d') : d.Within d' := ⟨h.current, fun _ => h.entries⟩

theorem Within.leads (h : d.Within d') (hleads : d.Leads l parts) : d'.Leads l parts := by
  refine ⟨hleads.short, hleads.names, fun front hfront => ?_⟩
  rw [h.current]
  exact h.directories _ (hleads.directories front hfront)

theorem Within.place? (h : d.Within d') (hplace : d.place? l = .ok (some place)) :
    d'.place? l = .ok (some place) := by
  obtain ⟨front, name, hparts, hdown, hname, hleads, rfl⟩ := place?_eq_ok_iff.mp hplace
  refine place?_eq_ok_iff.mpr ⟨front, name, hparts, hdown, hname, h.leads hleads, ?_⟩
  rw [h.current]

theorem step_of_lead (h : name ≠ "" ∧ name ≠ ".") (hdown : name ≠ "..") :
    Path.step dir name = dir ++ [name] := by
  rw [Path.step, if_neg (not_or.mpr h), if_neg hdown]

theorem makeDirectory_leads (hlead : ∀ c ∈ l.parts, c ≠ "" ∧ c ≠ ".")
    (h : d.makeDirectory l = .ok d') : d'.Leads l l.parts := by
  have hgrows := makeDirectory_grows h
  obtain ⟨where?, hwhere, h⟩ := bind_eq_ok.mp h
  cases where? with
  | none => cases h
  | some place =>
    obtain ⟨-, hne, -⟩ := place?_eq_ok_some hwhere
    obtain ⟨front, name, hparts, hdown, hname, hleads, rfl⟩ := place?_eq_ok_iff.mp hwhere
    rw [hparts, List.forall_mem_append, List.forall_mem_singleton] at hlead
    dsimp only at h
    split at h
    next => cases h
    next =>
      cases pure_eq_ok.mp h
      rw [hparts]
      refine leads_concat.mpr ⟨hgrows.within.leads hleads, hname, ?_⟩
      rw [List.foldl_append, List.foldl_cons, List.foldl_nil, step_of_lead hlead.2 hdown,
        hgrows.current, get?_put hne, if_pos rfl]

theorem settle_leads (hlead : ∀ c ∈ l.parts, c ≠ "" ∧ c ≠ ".")
    (h : settle l d (d.makeDirectory l) = (d', .ok ())) : d'.Leads l l.parts := by
  cases hmade : d.makeDirectory l with
  | ok made =>
    rw [hmade] at h
    cases h
    exact makeDirectory_leads hlead hmade
  | error fault =>
    rw [hmade, settle] at h
    split at h
    next hthere =>
      cases h
      exact isDirectory_iff.mp hthere.2
    next => cases h

theorem ensureDirectory_leads (hlead : ∀ c ∈ l.parts, c ≠ "" ∧ c ≠ ".")
    (h : d.ensureDirectory l = (d', .ok ())) : l.parts = [] ∨ d'.Leads l l.parts := by
  rw [ensureDirectory] at h
  cases hn : l.parts.length with
  | zero => exact .inl (List.length_eq_zero_iff.mp hn)
  | succ n =>
    right
    rw [hn, ensureFirst, ← hn, List.take_length] at h
    split at h
    next =>
      split at h
      next => exact settle_leads hlead h
      next hfailed => exact absurd h (hfailed d')
    next => exact settle_leads hlead h

theorem makeDirectory_of_leads (hlead : ∀ c ∈ l.parts, c ≠ "" ∧ c ≠ ".") (hparts : l.parts ≠ [])
    (h : d.Leads l l.parts) : d.makeDirectory l = .error .present := by
  obtain ⟨front, name, hsplit⟩ := (List.eq_nil_or_concat' l.parts).resolve_left hparts
  rw [hsplit] at h hlead
  obtain ⟨hfront, hname, hthere⟩ := leads_concat.mp h
  by_cases hdown : name = ".."
  · have hnone : d.place? l = .ok none := by
      have hfollow := follow_eq_ok_iff.mpr ⟨hfront, rfl⟩
      rw [place?, hsplit, List.dropLast_concat, hfollow, List.getLast?_concat, hdown]
      rfl
    rw [makeDirectory, hnone]
    rfl
  · have hplace := place?_eq_ok_iff.mpr ⟨front, name, hsplit, hdown, hname, hfront, rfl⟩
    rw [List.foldl_append, List.foldl_cons, List.foldl_nil,
      step_of_lead (hlead name (by simp)) hdown] at hthere
    rw [makeDirectory, hplace]
    simp only [bind, Except.bind, hthere]

theorem ensureDirectory_of_leads (hlead : ∀ c ∈ l.parts, c ≠ "" ∧ c ≠ ".")
    (h : l.parts = [] ∨ d.Leads l l.parts) : d.ensureDirectory l = (d, .ok ()) := by
  rw [ensureDirectory]
  cases hn : l.parts.length with
  | zero => rfl
  | succ n =>
    have hparts : l.parts ≠ [] := by
      rw [← List.length_pos_iff, hn]
      exact n.succ_pos
    have hleads := h.resolve_left hparts
    rw [ensureFirst, ← hn, List.take_length, makeDirectory_of_leads hlead hparts hleads]
    exact if_pos ⟨by decide, isDirectory_iff.mpr hleads⟩

theorem writeFile_eq_ok_iff {bytes : List UInt8} : d.writeFile l bytes = .ok d' ↔
    ∃ place, d.place? l = .ok (some place) ∧ d.get? place ≠ some .directory ∧
      d' = d.put place (.file bytes) := by
  rw [writeFile, bind_eq_ok]
  constructor
  · intro hh
    obtain ⟨where?, hwhere, h⟩ := hh
    cases where? with
    | none => cases h
    | some place =>
      dsimp only at h
      split at h
      next => cases h
      next hfile => exact ⟨place, hwhere, hfile, (pure_eq_ok.mp h).symm⟩
  · intro hh
    obtain ⟨place, hplace, hfile, rfl⟩ := hh
    refine ⟨some place, hplace, ?_⟩
    dsimp only
    split
    next hthere => exact absurd hthere hfile
    next => rfl

section Overwrite

variable {files files' : List String → Option (List UInt8)}
variable {written : List (List String × List UInt8)}

theorem overwrite_congr (h : files place = files' place ∨ ∃ w ∈ written, w.1 = place) :
    overwrite files written place = overwrite files' written place := by
  induction written generalizing files files' with
  | nil => exact h.resolve_right (by simp)
  | cons w written ih =>
    change overwrite (Function.update files w.1 (some w.2)) written place =
      overwrite (Function.update files' w.1 (some w.2)) written place
    apply ih
    by_cases hw : w.1 = place
    · left
      rw [← hw, Function.update_self, Function.update_self]
    · rw [Function.update_of_ne (Ne.symm hw), Function.update_of_ne (Ne.symm hw)]
      refine h.imp_right fun hh => ?_
      obtain ⟨v, hv, hplace⟩ := hh
      exact ⟨v, (List.mem_cons.mp hv).resolve_left fun hvw => hw (hvw ▸ hplace), hplace⟩

theorem overwrite_overwrite (files : List String → Option (List UInt8))
    (written : List (List String × List UInt8)) :
    overwrite (overwrite files written) written = overwrite files written := by
  funext place
  by_cases h : ∃ w ∈ written, w.1 = place
  · exact overwrite_congr (.inr h)
  · exact overwrite_of_unwritten fun w hw hplace => h ⟨w, hw, hplace⟩

end Overwrite

theorem get?_congr (hfiles : d'.file? = d.file?)
    (hdirectories : ∀ place, d'.get? place = some .directory ↔ d.get? place = some .directory) :
    ∀ place, d'.get? place = d.get? place := by
  intro place
  apply Option.ext
  intro e
  cases e with
  | directory => exact hdirectories place
  | file bytes => rw [← file?_eq_some, ← file?_eq_some, hfiles]

end Disk

namespace Action

variable {d d' d'' : Disk} {a : Action} {actions : List Action}

def location : Action → Location
  | directory l => l
  | file l _ => l

/-- An action has nothing left to make: its directory is there, or there is a file where it writes
one. -/
def Settled (d : Disk) : Action → Prop
  | directory l => l.parts = [] ∨ d.Leads l l.parts
  | file l _ => ∃ place, d.place? l = .ok (some place) ∧ d.file? place ≠ none

theorem Done.within (h : Done d actions d') : d.Within d' := ⟨h.current, h.directories⟩

theorem Done.settled (h : Done d actions d') (ha : a.Settled d) : a.Settled d' := by
  cases a with
  | directory l => exact ha.imp_right h.within.leads
  | file l text =>
    obtain ⟨place, hplace, hfile⟩ := ha
    refine ⟨place, h.within.place? hplace, ?_⟩
    rw [h.files]
    exact Disk.overwrite_ne_none (.inl hfile)

theorem settled_of_perform (hlead : ∀ c ∈ a.location.parts, c ≠ "" ∧ c ≠ ".")
    (h : a.perform d = (d', .ok ())) : a.Settled d' := by
  have hdone := (perform_done h).1 rfl
  cases a with
  | directory l => exact Disk.ensureDirectory_leads hlead h
  | file l text =>
    rw [perform] at h
    split at h
    next made hwrite =>
      cases h
      obtain ⟨place, hplace, -, rfl⟩ := Disk.writeFile_eq_ok_iff.mp hwrite
      refine ⟨place, hdone.within.place? hplace, ?_⟩
      rw [Disk.file?_put_file (Disk.place?_eq_ok_some hplace).2.1, Function.update_self]
      exact Option.some_ne_none _
    next => cases h

theorem perform_of_settled (hlead : ∀ c ∈ a.location.parts, c ≠ "" ∧ c ≠ ".") (ha : a.Settled d) :
    ∃ d', a.perform d = (d', .ok ()) ∧
      ∀ place, d'.get? place = some .directory → d.get? place = some .directory := by
  cases a with
  | directory l => exact ⟨d, Disk.ensureDirectory_of_leads hlead ha, fun _ => id⟩
  | file l text =>
    obtain ⟨place, hplace, hfile⟩ := ha
    obtain ⟨hne, -⟩ := (Disk.place?_eq_ok_some hplace).2
    have hwrite : d.writeFile l (Utf8.encode text) =
        .ok (d.put place (.file (Utf8.encode text))) := by
      refine Disk.writeFile_eq_ok_iff.mpr ⟨place, hplace, fun hthere => hfile ?_, rfl⟩
      rw [Disk.file?, hthere]
    refine ⟨_, by rw [perform, hwrite], fun other hother => ?_⟩
    rw [Disk.get?_put hne] at hother
    split at hother
    next => cases hother
    next => exact hother

theorem settled_of_performAll (hlead : ∀ a ∈ actions, ∀ c ∈ a.location.parts, c ≠ "" ∧ c ≠ ".")
    (h : performAll d actions = (d', .ok ())) : ∀ a ∈ actions, a.Settled d' := by
  induction actions generalizing d with
  | nil => exact List.forall_mem_nil _
  | cons a actions ih =>
    obtain ⟨hfirst, hrest⟩ := List.forall_mem_cons.mp hlead
    rw [performAll] at h
    split at h
    next d₁ hstep =>
      obtain ⟨done, -, hdone, -⟩ := performAll_done h
      exact List.forall_mem_cons.mpr ⟨hdone.settled (settled_of_perform hfirst hstep), ih hrest h⟩
    next hfailed => exact absurd h (hfailed d')

theorem performAll_of_settled (hlead : ∀ a ∈ actions, ∀ c ∈ a.location.parts, c ≠ "" ∧ c ≠ ".")
    (h : ∀ a ∈ actions, a.Settled d) : ∃ d', performAll d actions = (d', .ok ()) ∧
      ∀ place, d'.get? place = some .directory → d.get? place = some .directory := by
  induction actions generalizing d with
  | nil => exact ⟨d, rfl, fun _ => id⟩
  | cons a actions ih =>
    obtain ⟨hfirst, hrest⟩ := List.forall_mem_cons.mp hlead
    obtain ⟨ha, hsettled⟩ := List.forall_mem_cons.mp h
    obtain ⟨d₁, hstep, hkept⟩ := perform_of_settled hfirst ha
    have hdone := (perform_done hstep).1 rfl
    obtain ⟨d₂, hall, hkept'⟩ := ih hrest fun b hb => hdone.settled (hsettled b hb)
    refine ⟨d₂, ?_, fun place hplace => hkept place (hkept' place hplace)⟩
    rw [performAll, hstep]
    exact hall

theorem performAll_again (hlead : ∀ a ∈ actions, ∀ c ∈ a.location.parts, c ≠ "" ∧ c ≠ ".")
    (h : performAll d actions = (d', .ok ())) : ∃ d'', performAll d' actions = (d'', .ok ()) ∧
      ∀ place, d''.get? place = d'.get? place := by
  obtain ⟨d'', hagain, hkept⟩ := performAll_of_settled hlead (settled_of_performAll hlead h)
  obtain ⟨done, -, hfirst, hall⟩ := performAll_done h
  obtain ⟨done', -, hsecond, hall'⟩ := performAll_done hagain
  rw [hall rfl] at hfirst
  rw [hall' rfl] at hsecond
  refine ⟨d'', hagain, Disk.get?_congr ?_ fun place => ⟨hkept place, hsecond.directories place⟩⟩
  rw [hsecond.files, hfirst.current, hfirst.files, Disk.overwrite_overwrite]

end Action

namespace Store

variable {s : Store} {types : List (String × UserType)} {cwd r : String} {root : Location}
variable {files : List (String × String)} {outputs : List (Location × String)}
variable {d d' : Disk} {report : Report}

def Texts (s : Store) (types : List (String × UserType)) (cwd : String)
    (files : List (String × String)) : Prop :=
  ∃ libraries texts, s.libraries types = .ok libraries ∧
    List.Forall₂ (fun f t => t.1 = f.path ∧ f.options.render cwd = .ok t.2) libraries texts ∧
    files = texts ++
      ((if s.enums = [] then [] else [(s.codegen.userTypesFilename, s.userTypesText)]) ++
        if libraries = [] then [] else [(s.codegen.indexFilename, indexText libraries)])

def located (s : Store) (root : Location) (files : List (String × String)) :
    List (Location × String) :=
  files.map fun f => ((s.output root).child f.1, f.2)

theorem Texts.paths (h : s.Texts types cwd files) : files.map (·.1) = s.outputPaths := by
  obtain ⟨libraries, texts, hlibraries, htexts, rfl⟩ := h
  have hpaths := libraries_paths hlibraries
  have htextPaths : texts.map (·.1) = libraries.map (·.path) := by
    rw [map_eq_map_iff]
    exact htexts.flip.imp fun _ _ ht => ht.1
  have hempty : libraries = [] ↔ s.tables = [] := by
    rw [← List.map_eq_nil_iff, hpaths, List.map_eq_nil_iff]
  rw [outputPaths, List.map_append, List.map_append, htextPaths, hpaths]
  simp only [hempty]
  split_ifs <;> rfl

theorem Outputs.texts (h : s.Outputs types cwd root outputs) :
    ∃ files, s.Texts types cwd files := by
  obtain ⟨libraries, written, hlibraries, hrendered, -⟩ := h
  have htext : ∀ f ∈ libraries, ∃ t : String × String,
      t.1 = f.path ∧ f.options.render cwd = .ok t.2 := by
    intro f hf
    obtain ⟨w, -, -, hw⟩ := exists_of_mem_right hrendered.flip hf
    exact ⟨(f.path, w.2), rfl, hw⟩
  obtain ⟨texts, htexts⟩ := exists_forall₂ htext
  exact ⟨_, libraries, texts, hlibraries, htexts, rfl⟩

theorem Outputs.eq_located (h : s.Outputs types cwd root outputs)
    (hfiles : s.Texts types cwd files) : outputs = s.located root files := by
  obtain ⟨libraries, texts, hlibraries, htexts, rfl⟩ := hfiles
  obtain ⟨others, written, hothers, hrendered, rfl⟩ := h
  cases hlibraries.symm.trans hothers
  have hwritten : written = s.located root texts := by
    refine (List.map_id written).symm.trans (map_eq_map_iff.mpr ?_)
    refine forall₂_comp (fun w f t hw ht => ?_) hrendered.flip htexts
    have htext := hw.2.symm.trans ht.2
    rw [ht.1]
    exact Prod.ext hw.1 (Except.ok.inj htext)
  rw [hwritten, located, located, List.map_append, List.map_append, Plan.sharedFiles]
  split_ifs <;> rfl

theorem plan_of_generate (h : s.generate cwd d root types = (d', .ok report)) :
    ∃ p outputs, s.plan cwd root types = .ok p ∧ s.Outputs types cwd root outputs ∧
      p.actions = outputs.flatMap Plan.writing ∧ p.result = .ok report ∧
      report.written = outputs.map (·.1) ∧ Action.performAll d p.actions = (d', .ok ()) := by
  rw [generate] at h
  cases hp : s.plan cwd root types with
  | error e =>
    rw [hp] at h
    cases h
  | ok p =>
    rw [hp] at h
    obtain ⟨hall, hresult⟩ := Plan.run_eq_ok h
    obtain ⟨libraries, hlibraries, hplan⟩ := bind_eq_ok.mp hp
    cases pure_eq_ok.mp hplan
    rcases Plan.rendered_or_fault cwd (s.output root) libraries with
      ⟨written, hrendered⟩ | ⟨before, f, after, written, fault, rfl, hrendered, hf⟩
    · obtain ⟨hactions, notice, hreport⟩ := Plan.ofLibraries_rendered root s hrendered
      rw [hreport] at hresult
      cases hresult
      exact ⟨_, _, rfl, ⟨libraries, written, hlibraries, hrendered, rfl⟩, hactions, hreport, rfl,
        hall⟩
    · rw [Plan.ofLibraries_fault root s hrendered hf] at hresult
      cases hresult

theorem Outputs.actions_lead (h : s.Outputs types cwd (.ofString r) outputs) :
    ∀ a ∈ outputs.flatMap Plan.writing, ∀ c ∈ a.location.parts, c ≠ "" ∧ c ≠ "." := by
  intro a ha
  obtain ⟨w, hw, ha⟩ := List.mem_flatMap.mp ha
  rcases List.mem_cons.mp ha with rfl | ha
  · exact fun c hc => h.lead w hw c (List.dropLast_subset _ hc)
  · cases List.mem_singleton.mp ha
    exact h.lead w hw

end Store

/-- The files that a run writes and their texts are the same for every root and every disk on which
it succeeds, and lie below the root by the same paths. Such a run changes no file that it does not
tell of, and if it is repeated it succeeds again, tells of the same files and leaves all as it
is. -/
theorem Store.generate_repeatable {s : Store} {types : List (String × UserType)} {cwd r : String}
    {d d' : Disk} {report : Report} (h : s.generate cwd d (.ofString r) types = (d', .ok report)) :
    (∃ files, files.map (·.1) = s.outputPaths ∧ ∀ r₁ d₁ d₁' report₁,
      s.generate cwd d₁ (.ofString r₁) types = (d₁', .ok report₁) →
        (∃ p, s.plan cwd (.ofString r₁) types = .ok p ∧
          p.actions = (s.located (.ofString r₁) files).flatMap Plan.writing ∧
          Action.performAll d₁ p.actions = (d₁', .ok ())) ∧
        report₁.written = (s.located (.ofString r₁) files).map (·.1)) ∧
    (∀ place, d'.file? place ≠ d.file? place →
      ∃ l ∈ report.written, place = l.place d.current) ∧
    ∃ d'', s.generate cwd d' (.ofString r) types = (d'', .ok report) ∧
      ∀ place, d''.get? place = d'.get? place := by
  obtain ⟨p, outputs, hp, houtputs, hactions, hresult, hwritten, hall⟩ := plan_of_generate h
  refine ⟨?_, fun place hplace => ?_, ?_⟩
  · obtain ⟨files, htexts⟩ := houtputs.texts
    refine ⟨files, htexts.paths, fun r₁ d₁ d₁' report₁ h₁ => ?_⟩
    obtain ⟨p₁, outputs₁, hp₁, houtputs₁, hactions₁, -, hwritten₁, hall₁⟩ := plan_of_generate h₁
    cases houtputs₁.eq_located htexts
    exact ⟨⟨p₁, hp₁, hactions₁, hall₁⟩, hwritten₁⟩
  · obtain ⟨l, text, -, -, hmem, -, -, hl⟩ := Action.performAll_changes hall hplace
    rw [hactions] at hmem
    rw [hwritten]
    exact ⟨l, List.mem_map_of_mem (f := (·.1)) (Plan.mem_writing hmem), hl⟩
  · rw [hactions] at hall
    obtain ⟨d'', hagain, hsame⟩ := Action.performAll_again houtputs.actions_lead hall
    refine ⟨d'', ?_, hsame⟩
    rw [generate, hp]
    dsimp only [Plan.run]
    rw [hactions, hagain, hresult]

theorem generate_repeatable_items : ∃ d' report,
    itemStore.generate "/work" emptyProject (.ofString "src") itemStore.userTypes =
      (d', .ok report) ∧
    (∀ place, d'.file? place ≠ emptyProject.file? place →
      ∃ l ∈ report.written, place = l.place ["work"]) ∧
    ∃ d'', itemStore.generate "/work" d' (.ofString "src") itemStore.userTypes =
        (d'', .ok report) ∧
      ∀ place, d''.get? place = d'.get? place := by
  have hrun : fault? (itemStore.generate "/work" emptyProject (.ofString "src")
      itemStore.userTypes).2 = none := by decide +kernel
  obtain ⟨report, hreport⟩ := fault?_eq_none.mp hrun
  have hgenerate : itemStore.generate "/work" emptyProject (.ofString "src") itemStore.userTypes =
      (_, .ok report) := Prod.ext rfl hreport
  obtain ⟨-, hchanges, hagain⟩ := Store.generate_repeatable hgenerate
  exact ⟨_, report, hgenerate, hchanges, hagain⟩

end SolidityTables

import SolidityTables.Main
import SolidityTables.Proofs.Json.Document
import SolidityTables.Proofs.Library.Planning
import Mathlib.Data.List.Infix

/-!
# How calls of the program end

Whatever a document holds, a configuration that is loaded from it is accepted, so everything that
follows from it is planned before the disk is touched, and only the disk can stop it then. Before
that nothing is written and nothing is told. There is one way out: an output root that is given as
two dashes stands for no root, which is found only when the libraries have been planned.
-/

namespace SolidityTables

open Attempt

theorem Action.performAll_eq_error {d d' : Disk} {actions : List Action} {e : Disk.Error}
    (h : performAll d actions = (d', .error e)) : ∃ before a after d₁,
      actions = before ++ a :: after ∧ performAll d before = (d₁, .ok ()) ∧
        a.perform d₁ = (d', .error e) := by
  induction actions generalizing d with
  | nil => cases h
  | cons a actions ih =>
    rw [performAll] at h
    cases hstep : a.perform d with
    | mk d₁ outcome =>
      rw [hstep] at h
      cases outcome with
      | ok _ =>
        obtain ⟨before, b, after, d₂, rfl, hbefore, hb⟩ := ih h
        refine ⟨a :: before, b, after, d₂, rfl, ?_, hb⟩
        rw [performAll, hstep]
        exact hbefore
      | error e' =>
        cases h
        exact ⟨[], a, actions, d, rfl, rfl, hstep⟩

def Plan.Refused (p : Plan) (d d' : Disk) (e : Disk.Error) : Prop :=
  ∃ before a after d₁, p.actions = before ++ a :: after ∧
    Action.performAll d before = (d₁, .ok ()) ∧ a.perform d₁ = (d', .error e)

theorem Store.Accepted.generate_eq_error {s : Store} (hs : s.Accepted) {cwd : String} {d d' : Disk}
    {root : Location} {f : Failure} (h : s.generate cwd d root s.userTypes = (d', .error f)) :
    ∃ p e, s.plan cwd root s.userTypes = .ok p ∧ f = .disk e ∧ p.Refused d d' e := by
  obtain ⟨p, r, hp, hr⟩ := hs.plan_isOk cwd root
  rw [generate, hp] at h
  dsimp only at h
  rw [Plan.run] at h
  cases hall : Action.performAll d p.actions with
  | mk d₁ outcome =>
    rw [hall] at h
    cases outcome with
    | ok _ =>
      dsimp only at h
      rw [hr] at h
      cases h
    | error e =>
      cases h
      exact ⟨p, e, hp, rfl, Action.performAll_eq_error hall⟩

theorem Disk.loadConfig_wellFormed {d : Disk} {l : Location} {ms : Json.Members}
    (h : d.loadConfig l = .ok ms) : (Json.obj ms).WellFormed := by
  obtain ⟨bytes, -, h⟩ := bind_eq_ok.mp h
  obtain ⟨text, -, h⟩ := bind_eq_ok.mp h
  unfold membersOfText at h
  split at h
  next hparse =>
    cases h
    exact Json.parse_wellFormed hparse
  all_goals cases h

namespace CommandLine

theorem Arguments.load_accepted {a : Arguments} {d : Disk} {s : Store} (h : a.load d = .ok s) :
    s.Accepted := by
  obtain ⟨ms, hms, h⟩ := bind_eq_ok.mp h
  have hwf := Disk.loadConfig_wellFormed hms
  have hdefine := mapError_eq_ok.mp h
  unfold Arguments.define at hdefine
  split at hdefine
  · obtain ⟨w, hw, rfl⟩ := map_eq_ok.mp hdefine
    exact .world hwf hw
  · exact .store hwf hdefine

section NoRoot

def dashedRoots : List String := ["--r=--", "--ro=--", "--roo=--", "--root=--"]

theorem namedRoot_eq_none {value : String} : namedRoot value = none ↔ value = "--" := by
  unfold namedRoot
  split
  next h => simp [h]
  next h => simp [h]

theorem State.run_root {s s' : State} {ws : List Word} (h : s.run ws = .ok s')
    (hs : s.root ≠ none) (hs' : s'.root = none) : .long .root (some "--") ∈ ws := by
  -- By induction on the words: as long as there is a root, only this option takes it away.
  have hlater {w : Word} {rest : List Word} (hrest : .long .root (some "--") ∈ rest) :
      .long .root (some "--") ∈ w :: rest := List.mem_cons_of_mem w hrest
  fun_induction State.run s ws with
  | case1 =>
    cases h
    exact absurd hs' hs
  | case2 s p rest _ ih => exact hlater (hlater (ih h hs))
  | case3 s p rest _ ih => exact hlater (hlater (ih h hs))
  | case4 s p rest _ _ ih => exact hlater (ih h hs)
  | case5 s p rest _ _ ih => exact hlater (ih h hs)
  | case6 s rest _ ih => exact hlater (ih h hs)
  | case7 s _ p rest ih => exact hlater (hlater (ih h hs))
  | case8 s _ rest _ ih => exact hlater (ih h hs)
  | case9 s rest ih => exact hlater (ih h hs)
  | case11 s cs rest _ ih => exact hlater (ih h hs)
  | case12 s value rest ih =>
    by_cases hvalue : value = "--"
    · subst hvalue
      exact List.mem_cons_self ..
    · exact hlater (ih h (mt namedRoot_eq_none.mp hvalue))
  | case13 s p rest ih => exact hlater (hlater (ih h (Option.some_ne_none _)))
  | case17 s rest ih => exact hlater (ih h hs)
  | case18 s rest ih => exact hlater (ih h hs)
  | _ => cases h

theorem mem_words {argv : List String} {ws : List Word} (h : words argv = some ws) {w : Word}
    (hw : w ∈ ws) : (∃ s ∈ argv, classify s = some w) ∨ ∃ p, w = .path p := by
  induction argv generalizing ws with
  | nil =>
    cases h
    cases hw
  | cons s argv ih =>
    obtain ⟨first, hfirst, h⟩ := Option.bind_eq_some_iff.mp h
    split at h
    next hdashes =>
      -- All arguments after two dashes are paths.
      cases h
      rcases List.mem_cons.mp hw with rfl | hw
      · exact .inl ⟨s, List.mem_cons_self .., hfirst⟩
      · obtain ⟨p, -, rfl⟩ := List.mem_map.mp hw
        exact .inr ⟨p, rfl⟩
    next =>
      obtain ⟨rest, hrest, h⟩ := Option.bind_eq_some_iff.mp h
      cases h
      rcases List.mem_cons.mp hw with rfl | hw
      · exact .inl ⟨s, List.mem_cons_self .., hfirst⟩
      · rcases ih hrest hw with ⟨t, ht, hclass⟩ | hpath
        · exact .inl ⟨t, List.mem_cons_of_mem _ ht, hclass⟩
        · exact .inr hpath

theorem cutValue_eq_some {cs name : List Char} {value : String}
    (h : cutValue cs = (name, some value)) : cs = name ++ '=' :: value.toList := by
  unfold cutValue at h
  split at h
  next => cases h
  next c rest hrest =>
    obtain ⟨rfl, hvalue⟩ := Prod.mk.inj h
    have hequals : c = '=' := by
      have hne : cs.dropWhile (· ≠ '=') ≠ [] := hrest ▸ List.cons_ne_nil c rest
      have hstop := List.head_dropWhile_not (· ≠ '=') hne
      simp only [hrest, List.head_cons] at hstop
      exact not_not.mp (of_decide_eq_false hstop)
    subst hequals
    rw [← Option.some.inj hvalue, String.toList_ofList, ← hrest]
    exact List.takeWhile_append_dropWhile.symm

theorem stranger_ne_long (s : String) (flag : Flag) (value : Option String) :
    stranger s ≠ .long flag value := by
  unfold stranger
  split
  · exact Word.noConfusion
  · exact Word.noConfusion

theorem classify_dashedRoot {s : String} (h : classify s = some (.long .root (some "--"))) :
    s ∈ dashedRoots := by
  have hcuts : ∀ name ∈ "--root".toList.inits,
      (longNames.filter (name.isPrefixOf ·.1.toList)).length = 1 →
        String.ofList (name ++ '=' :: "--".toList) ∈ dashedRoots := by decide
  have hroot : ∀ x ∈ longNames, x.2 = .root → x.1 = "--root" := by decide
  unfold classify at h
  split at h
  case h_1 => cases h
  case h_2 rest _ hs =>
    cases hcut : cutValue ('-' :: '-' :: rest) with
    | mk name value =>
      rw [hcut] at h
      dsimp only at h
      split at h
      next => exact absurd (Option.some.inj h) (stranger_ne_long s _ _)
      next n flag hfilter =>
        cases h
        obtain ⟨hmem, hprefix⟩ := List.mem_filter.mp
          (hfilter ▸ List.mem_singleton_self (n, Flag.root))
        have hname : name <+: "--root".toList := by
          rw [← hroot _ hmem rfl]
          exact List.isPrefixOf_iff_prefix.mp hprefix
        rw [← String.ofList_toList (s := s), hs, cutValue_eq_some hcut]
        exact hcuts name ((List.mem_inits _ _).mpr hname) (congrArg List.length hfilter)
      next => cases h
  case h_3 c rest _ _ =>
    split at h
    · cases h
    · exact absurd (Option.some.inj h) (stranger_ne_long s _ _)
  case h_4 => cases h

theorem parse_root {argv : List String} {a : Arguments} (h : parse argv = .ok a)
    (hroot : a.root = none) : ∃ s ∈ argv, s ∈ dashedRoots := by
  unfold parse at h
  split at h
  next => cases h
  next ws hws =>
    obtain ⟨s, hrun, h⟩ := bind_eq_ok.mp h
    split at h
    next => cases h
    next =>
      cases pure_eq_ok.mp h
      have hlost := State.run_root hrun (Option.some_ne_none _) hroot
      rcases mem_words hws hlost with ⟨t, ht, hclass⟩ | ⟨p, hp⟩
      · exact ⟨t, ht, classify_dashedRoot hclass⟩
      · cases hp

end NoRoot

/-- The output of a call is refused: the configuration was loaded and all files were planned, but
the disk does not let one of them or its directory be made. -/
def OutputRefused (cwd : String) (d : Disk) (argv : List String) (e : Disk.Error) : Prop :=
  ∃ a s root p, parse argv = .ok a ∧ a.load d = .ok s ∧ a.root = some root ∧
    s.plan cwd root s.userTypes = .ok p ∧ p.Refused d (call cwd d argv).disk e

section Call

variable {cwd : String} {d : Disk} {argv : List String} {a : Arguments}

theorem call_of_run_error {d' : Disk} {f : Failure} (ha : parse argv = .ok a)
    (h : a.run cwd d = (d', .error f)) : call cwd d argv = ⟨d', "", .failed f⟩ := by
  unfold call
  rw [ha]
  dsimp only
  rw [h]

theorem call_of_load_error {f : Failure} (ha : parse argv = .ok a) (h : a.load d = .error f) :
    call cwd d argv = ⟨d, "", .failed f⟩ := by
  refine call_of_run_error ha ?_
  rw [Arguments.run, h]

theorem call_of_noRoot {s : Store} (ha : parse argv = .ok a) (h : a.load d = .ok s)
    (hroot : a.root = none) : call cwd d argv = ⟨d, "", .failed .noRoot⟩ := by
  refine call_of_run_error ha ?_
  rw [Arguments.run, h, hroot]

theorem call_of_load {s : Store} {root : Location} (ha : parse argv = .ok a)
    (h : a.load d = .ok s) (hroot : a.root = some root) : (call cwd d argv).ending = .done ∨
      ∃ e, (call cwd d argv).ending = .failed (.disk e) ∧ OutputRefused cwd d argv e := by
  have hrun : a.run cwd d = s.generate cwd d root s.userTypes := by
    rw [Arguments.run, h, hroot]
  cases hgenerate : s.generate cwd d root s.userTypes with
  | mk d' result =>
    rw [hgenerate] at hrun
    cases result with
    | ok r =>
      left
      unfold call
      rw [ha]
      dsimp only
      rw [hrun]
    | error f =>
      obtain ⟨p, e, hp, rfl, hrefused⟩ := (Arguments.load_accepted h).generate_eq_error hgenerate
      have hcall := call_of_run_error ha hrun
      refine .inr ⟨e, by rw [hcall], a, s, root, p, ha, h, hroot, hp, ?_⟩
      rw [hcall]
      exact hrefused

end Call

/-- A call that does not ask for help and ends early leaves the disk as it was and tells nothing,
unless its output is refused. Once the configuration has been loaded nothing else can end the call,
except that two dashes for the output root do. -/
theorem call_failures (cwd : String) (d : Disk) (argv : List String) :
    (parse argv ≠ .error .help → (call cwd d argv).ending ≠ .done →
      (∃ e, (call cwd d argv).ending = .failed (.disk e) ∧ OutputRefused cwd d argv e) ∨
        (call cwd d argv).disk = d ∧ (call cwd d argv).printed = "") ∧
    ∀ a s, parse argv = .ok a → a.load d = .ok s →
      (call cwd d argv).ending = .done ∨
        (∃ e, (call cwd d argv).ending = .failed (.disk e) ∧ OutputRefused cwd d argv e) ∨
        call cwd d argv = ⟨d, "", .failed .noRoot⟩ ∧ ∃ s ∈ argv, s ∈ dashedRoots := by
  have hloaded : ∀ a s, parse argv = .ok a → a.load d = .ok s →
      (call cwd d argv).ending = .done ∨
        (∃ e, (call cwd d argv).ending = .failed (.disk e) ∧ OutputRefused cwd d argv e) ∨
        call cwd d argv = ⟨d, "", .failed .noRoot⟩ ∧ ∃ s ∈ argv, s ∈ dashedRoots := by
    intro a s ha hload
    cases hroot : a.root with
    | none => exact .inr (.inr ⟨call_of_noRoot ha hload hroot, parse_root ha hroot⟩)
    | some root => exact (call_of_load ha hload hroot).imp_right .inl
  refine ⟨fun hhelp hends => ?_, hloaded⟩
  cases ha : parse argv with
  | error stop =>
    right
    cases stop with
    | help => exact absurd ha hhelp
    | usage =>
      unfold call
      rw [ha]
      exact ⟨rfl, rfl⟩
  | ok a =>
    cases hload : a.load d with
    | error f =>
      right
      rw [call_of_load_error ha hload]
      exact ⟨rfl, rfl⟩
    | ok s =>
      rcases hloaded a s ha hload with hdone | hrefused | ⟨hcall, -⟩
      · exact absurd hdone hends
      · exact .inl hrefused
      · rw [hcall]
        exact .inr ⟨rfl, rfl⟩

def switchText : String :=
  "\x7b\"tables\": \x7b\"Switch\": \x7b\"schema\": \x7b\"on\": \"bool\"\x7d\x7d\x7d\x7d"

def switchProject (root : List (List String × Entry)) : Disk :=
  ⟨["work"], [(["work"], .directory),
    (["work", "mud.config.json"], .file (Utf8.encode switchText))] ++ root⟩

theorem switchProject_load (root : Option Location) (entries : List (List String × Entry)) :
    ∃ s, Arguments.load (switchProject entries) ⟨defaultConfig, root, false⟩ = .ok s := by
  have hread : (switchProject entries).readFile defaultConfig = .ok (Utf8.encode switchText) := rfl
  have hloaded : fault? (membersOfBytes defaultConfig (Utf8.encode switchText) >>= fun ms =>
      (Store.define ms).mapError Failure.config) = none := by decide +kernel
  obtain ⟨s, hs⟩ := fault?_eq_none.mp hloaded
  refine ⟨s, ?_⟩
  rw [Arguments.load, Disk.loadConfig, hread]
  exact hs

/-- Two dashes for the output root end a call when the configuration has been loaded. -/
theorem dashes_end_call : ∃ a s, parse ["--root=--"] = .ok a ∧ a.load (switchProject []) = .ok s ∧
    (call "/work" (switchProject []) ["--root=--"]).ending = .failed .noRoot := by
  have ha : parse ["--root=--"] = .ok ⟨defaultConfig, none, false⟩ := by decide
  obtain ⟨s, hs⟩ := switchProject_load none []
  exact ⟨_, s, ha, hs, by rw [call_of_noRoot ha hs rfl]⟩

theorem call_failures_switch :
    (∃ e, OutputRefused "/work" (switchProject [(["work", "src"], .file [])]) [] e) ∧
      (call "/work" (switchProject []) ["other.json"]).ending ≠ .done ∧
      (call "/work" (switchProject []) ["other.json"]).disk = switchProject [] ∧
      (call "/work" (switchProject []) ["other.json"]).printed = "" := by
  have ha : parse [] = .ok ⟨defaultConfig, some defaultRoot, false⟩ := by decide
  have hother : parse ["other.json"] = .ok ⟨.ofString "other.json", some defaultRoot, false⟩ := by
    decide
  have hblocked :
      (call "/work" (switchProject [(["work", "src"], .file [])]) []).ending ≠ .done := by
    decide +kernel
  have hmissing :
      Arguments.load (switchProject []) ⟨.ofString "other.json", some defaultRoot, false⟩ =
        .error (.disk ⟨.missing, "other.json"⟩) := rfl
  have hends : (call "/work" (switchProject []) ["other.json"]).ending ≠ .done := by
    rw [call_of_load_error hother hmissing]
    exact Ending.noConfusion
  obtain ⟨s, hs⟩ := switchProject_load (some defaultRoot) [(["work", "src"], .file [])]
  refine ⟨?_, hends, ?_⟩
  · rcases (call_failures _ _ _).2 _ s ha hs with hdone | ⟨e, -, hrefused⟩ | ⟨-, t, ht, -⟩
    · exact absurd hdone hblocked
    · exact ⟨e, hrefused⟩
    · cases ht
  · have hhelp : parse ["other.json"] ≠ .error .help := by decide
    rcases (call_failures "/work" (switchProject []) ["other.json"]).1 hhelp hends with
      ⟨e, -, a, s, root, p, ha, hload, -⟩ | hkept
    · rw [hother] at ha
      cases ha
      rw [hmissing] at hload
      cases hload
    · exact hkept

end CommandLine

end SolidityTables

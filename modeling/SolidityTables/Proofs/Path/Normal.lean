import SolidityTables.Proofs.Path.Lexical

/-!
# Normal forms of paths

The normal form of a path is the path without empty components and single dots, and with two dots
cancelled against the component before them. Where there is none they are dropped at the root and
kept elsewhere, so the normal form of a relative path is two dots some times and then names. It
leads where the path leads, and so does the way between the absolute forms of two paths.
-/

namespace SolidityTables

namespace Path

def normalStep (rooted : Bool) (parts : List String) (c : String) : List String :=
  if c = "" ∨ c = "." then parts
  else if c ≠ ".." ∨ (rooted = false ∧ parts = []) ∨ parts.getLast? = some ".." then parts ++ [c]
  else parts.dropLast

def normalParts (p : String) : List String :=
  (pieces p).foldl (normalStep (isAbsolute p)) []

/-- The normal form of a path, which is a dot if nothing else is left of it. -/
def normal (p : String) : String :=
  Location.text ⟨Location.leadingSlashes p.toList, normalParts p⟩

def absolute (cwd p : String) : String :=
  normal (join cwd p)

/-- The relative path that leads from a directory to a target, both as seen from a working
directory. The empty path is no target. -/
def wayTo? (cwd target directory : String) : Option String :=
  if target = "" then none
  else some (relative (between (components (absolute cwd directory))
    (components (absolute cwd target))))

namespace Trail

variable {parts : List String}

theorem ofParts_concat (parts : List String) (c : String) :
    ofParts (parts ++ [c]) = (ofParts parts).step c :=
  List.foldl_concat ..

theorem down_names (h : ∀ c ∈ parts, '/' ∉ c.toList) : ∀ c ∈ (ofParts parts).down, IsName c := by
  induction parts using List.reverseRecOn with
  | nil => exact List.forall_mem_nil _
  | append_singleton parts c ih =>
    obtain ⟨hparts, hlast⟩ := List.forall_mem_append.mp h
    have ih := ih hparts
    rw [ofParts_concat, step]
    split_ifs with hnowhere hup hdown
    · exact ih
    · exact List.forall_mem_nil _
    · exact fun d hd => ih d (List.mem_of_mem_dropLast hd)
    · rw [not_or] at hnowhere
      refine List.forall_mem_append.mpr ⟨ih, List.forall_mem_singleton.mpr ?_⟩
      exact ⟨hnowhere.1, hnowhere.2, hup, hlast c (List.mem_singleton_self c)⟩

theorem ofParts_replicate (n : Nat) : ofParts (List.replicate n "..") = ⟨n, []⟩ := by
  induction n with
  | zero => rfl
  | succ n ih =>
    rw [List.replicate_succ', ofParts_concat, ih]
    rfl

def spelled (rooted : Bool) (t : Trail) : List String :=
  (if rooted then [] else List.replicate t.up "..") ++ t.down

theorem spelled_up (rooted : Bool) (n : Nat) :
    spelled rooted ⟨n + 1, []⟩ = normalStep rooted (spelled rooted ⟨n, []⟩) ".." := by
  cases rooted with
  | true => rfl
  | false =>
    have hkept : List.replicate n ".." = [] ∨ (List.replicate n "..").getLast? = some ".." := by
      cases n with
      | zero => exact .inl rfl
      | succ n =>
        rw [List.replicate_succ', List.getLast?_concat]
        exact .inr rfl
    simp only [spelled, Bool.false_eq_true, if_false, List.append_nil]
    rw [normalStep, if_neg (by decide), if_pos (.inr (hkept.imp_left fun h => ⟨rfl, h⟩)),
      List.replicate_succ']

theorem spelled_down {rooted : Bool} {up : Nat} {down : List String} {c : String}
    (hc : IsName c) :
    spelled rooted ⟨up, down⟩ = normalStep rooted (spelled rooted ⟨up, down ++ [c]⟩) ".." := by
  have hfront : spelled rooted ⟨up, down ++ [c]⟩ = spelled rooted ⟨up, down⟩ ++ [c] :=
    (List.append_assoc ..).symm
  rw [hfront, normalStep, if_neg (by decide), if_neg, List.dropLast_concat]
  simp [hc.not_dots]

theorem spelled_step {t : Trail} (h : ∀ c ∈ t.down, IsName c) (rooted : Bool) (c : String) :
    spelled rooted (t.step c) = normalStep rooted (spelled rooted t) c := by
  obtain ⟨up, down⟩ := t
  by_cases hnowhere : c = "" ∨ c = "."
  · rw [step, normalStep, if_pos hnowhere, if_pos hnowhere]
  by_cases hup : c = ".."
  · subst hup
    rw [step, if_neg hnowhere, if_pos rfl]
    rcases List.eq_nil_or_concat' down with rfl | ⟨front, last, rfl⟩
    · exact spelled_up rooted up
    · rw [if_neg (by simp), List.dropLast_concat]
      exact spelled_down (h last (by simp))
  · rw [step, normalStep, if_neg hnowhere, if_neg hnowhere, if_neg hup, if_pos (.inl hup)]
    exact (List.append_assoc ..).symm

theorem foldl_normalStep (rooted : Bool) (h : ∀ c ∈ parts, '/' ∉ c.toList) :
    parts.foldl (normalStep rooted) [] = spelled rooted (ofParts parts) := by
  -- both are folds from the front, so the next component is the last one
  induction parts using List.reverseRecOn with
  | nil => cases rooted <;> rfl
  | append_singleton parts c ih =>
    obtain ⟨hparts, -⟩ := List.forall_mem_append.mp h
    rw [List.foldl_concat, ih hparts, ofParts_concat, spelled_step (down_names hparts)]

end Trail

section Forms

variable {p cwd c : String} {parts base : List String}

def trail (p : String) : Trail :=
  Trail.ofParts (pieces p)

theorem trail_names (p : String) : ∀ c ∈ (trail p).down, IsName c :=
  Trail.down_names fun _ => no_slash_of_mem_pieces

theorem normalParts_eq (p : String) : normalParts p = Trail.spelled (isAbsolute p) (trail p) :=
  Trail.foldl_normalStep _ fun _ => no_slash_of_mem_pieces

theorem resolve_eq_follow (base : List String) (p : String) :
    resolve base p = (trail p).follow (if isAbsolute p then [] else base) :=
  Trail.foldl_step ..

theorem foldl_step_replicate (n : Nat) (dir : List String) :
    (List.replicate n "..").foldl step dir = dir.take (dir.length - n) := by
  rw [Trail.foldl_step, Trail.ofParts_replicate, Trail.follow, List.append_nil]

theorem foldl_step_normalParts (base : List String) (p : String) :
    (normalParts p).foldl step (if isAbsolute p then [] else base) = resolve base p := by
  rw [normalParts_eq, resolve_eq_follow, Trail.spelled, List.foldl_append,
    foldl_step_names (trail_names p), Trail.follow]
  cases isAbsolute p with
  | true => simp
  | false => exact congrArg (· ++ _) (foldl_step_replicate _ _)

theorem mem_normalParts (h : c ∈ normalParts p) : c ≠ "" ∧ c ≠ "." ∧ '/' ∉ c.toList := by
  rw [normalParts_eq, Trail.spelled] at h
  rcases List.mem_append.mp h with h | h
  · split_ifs at h
    · cases h
    · rw [List.eq_of_mem_replicate h]
      decide
  · have hc := trail_names p c h
    exact ⟨hc.nonempty, hc.not_dot, hc.no_slash⟩

theorem components_slashes (n : Nat) (p : String) :
    components (String.ofList (List.replicate n '/') ++ p) = components p := by
  induction n with
  | zero => exact congrArg components String.empty_append
  | succ n ih =>
    have hslash : String.ofList (List.replicate (n + 1) '/') ++ p =
        "" ++ "/" ++ (String.ofList (List.replicate n '/') ++ p) := by
      simp [← String.toList_inj, List.replicate_succ]
    have hnone : components "" = [] := by decide
    rw [hslash, components_append_slash, hnone, List.nil_append, ih]

theorem components_intercalate (h : ∀ c ∈ parts, c ≠ "" ∧ c ≠ "." ∧ '/' ∉ c.toList) :
    components (String.intercalate "/" parts) = parts := by
  by_cases hparts : parts = []
  · subst hparts
    decide
  · rw [components, pieces_intercalate hparts fun c hc => (h c hc).2.2, List.filter_eq_self]
    intro c hc
    simpa using ⟨(h c hc).1, (h c hc).2.1⟩

theorem components_normal (p : String) : components (normal p) = normalParts p := by
  have hparts := components_intercalate fun c hc => mem_normalParts (p := p) hc
  have htext := components_slashes (Location.leadingSlashes p.toList)
    (String.intercalate "/" (normalParts p))
  rw [hparts] at htext
  rw [normal, Location.text]
  dsimp only
  split_ifs with hempty
  · rw [hempty] at htext
    rw [← htext]
    decide
  · exact htext

theorem normal_ne_empty (p : String) : normal p ≠ "" := by
  rw [normal, Location.text]
  dsimp only
  split_ifs with hempty
  · decide
  · exact hempty

theorem isAbsolute_normal (p : String) : isAbsolute (normal p) = isAbsolute p := by
  rw [normal, Location.text]
  dsimp only
  cases hp : isAbsolute p with
  | true =>
    obtain ⟨n, hn⟩ := Nat.exists_eq_succ_of_ne_zero (Location.leadingSlashes_absolute hp)
    rw [hn, List.replicate_succ, if_neg (by simp)]
    simp [isAbsolute]
  | false =>
    rw [Location.leadingSlashes_relative hp, List.replicate_zero, String.ofList_nil,
      String.empty_append]
    cases hparts : normalParts p with
    | nil => decide
    | cons c rest =>
      obtain ⟨hc, -, hslash⟩ := mem_normalParts (p := p) (hparts ▸ List.mem_cons_self ..)
      split_ifs
      · decide
      · exact isAbsolute_intercalate hc hslash rest

theorem resolve_normal (base : List String) (p : String) :
    resolve base (normal p) = resolve base p := by
  rw [resolve_eq_components, isAbsolute_normal, components_normal, foldl_step_normalParts]

theorem components_absolute (hcwd : isAbsolute cwd = true) (p : String) :
    components (absolute cwd p) = resolve (resolve [] cwd) p := by
  have hjoin : isAbsolute (join cwd p) = true := by
    cases hp : isAbsolute p with
    | true =>
      have hjoin : join cwd p = p := if_pos hp
      rw [hjoin, hp]
    | false => rw [isAbsolute_join_of_relative cwd hp, hcwd]
  have hnames := foldl_step_names (trail_names (join cwd p)) []
  rw [absolute, components_normal, ← resolve_join, ← foldl_step_normalParts, normalParts_eq, hjoin]
  exact hnames.symm

end Forms

section Ways

variable {cwd : String} {start target base : List String}

theorem resolve_names (hbase : ∀ c ∈ base, IsName c) (p : String) :
    ∀ c ∈ resolve base p, IsName c := by
  rw [resolve_eq_follow, Trail.follow]
  refine List.forall_mem_append.mpr ⟨fun c hc => ?_, trail_names p⟩
  have hc := List.mem_of_mem_take hc
  split_ifs at hc
  · cases hc
  · exact hbase c hc

theorem absolute_names (hcwd : isAbsolute cwd = true) (p : String) :
    ∀ c ∈ components (absolute cwd p), IsName c := by
  rw [components_absolute hcwd]
  exact resolve_names (resolve_names (List.forall_mem_nil _) cwd) p

theorem between_prefix (start down : List String) : between start (start ++ down) = down := by
  have hway := between_append start [] down
  rwa [List.append_nil] at hway

theorem between_up (h : ¬start <+: target) : ∃ rest, between start target = ".." :: rest := by
  obtain ⟨shared, up, down, rfl, rfl, hway⟩ := between_parts start target
  cases up with
  | nil =>
    rw [List.append_nil] at h
    exact absurd (List.prefix_append _ _) h
  | cons u up => exact ⟨_, hway⟩

theorem foldl_between (h : ∀ c ∈ target, IsName c) (start : List String) :
    (between start target).foldl step start = target := by
  obtain ⟨shared, up, down, rfl, rfl, hway⟩ := between_parts start target
  rw [hway, List.foldl_append, foldl_step_dots,
    foldl_step_names fun c hc => h c (List.mem_append_right _ hc)]

theorem mem_between (h : ∀ c ∈ target, IsName c) :
    ∀ c ∈ between start target, c ≠ "" ∧ c ≠ "." ∧ '/' ∉ c.toList := by
  obtain ⟨shared, up, down, rfl, rfl, hway⟩ := between_parts start target
  rw [hway]
  refine List.forall_mem_append.mpr ⟨fun c hc => ?_, fun c hc => ?_⟩
  · rw [List.eq_of_mem_replicate hc]
    decide
  · have hname := h c (List.mem_append_right _ hc)
    exact ⟨hname.nonempty, hname.not_dot, hname.no_slash⟩

theorem components_between (h : ∀ c ∈ target, IsName c) (start : List String) :
    components (relative (between start target)) = between start target := by
  rw [relative]
  split_ifs with hhere
  · rw [hhere]
    decide
  · exact components_intercalate (mem_between h)

theorem isAbsolute_between (h : ∀ c ∈ target, IsName c) (start : List String) :
    isAbsolute (relative (between start target)) = false := by
  cases hway : between start target with
  | nil => decide
  | cons c rest =>
    obtain ⟨hc, -, hslash⟩ := mem_between h c (hway ▸ List.mem_cons_self ..)
    exact isAbsolute_intercalate hc hslash rest

theorem resolve_between (h : ∀ c ∈ target, IsName c) (start : List String) :
    resolve start (relative (between start target)) = target := by
  rw [resolve_relative (isAbsolute_between h start), components_between h, foldl_between h]

theorem wayTo?_normal (hcwd : isAbsolute cwd = true) (target directory : String) :
    wayTo? cwd (normal target) (normal directory) =
      some (relative (between (components (absolute cwd directory))
        (components (absolute cwd target)))) := by
  rw [wayTo?, if_neg (normal_ne_empty target)]
  simp only [components_absolute hcwd, resolve_normal]

end Ways

end Path

end SolidityTables

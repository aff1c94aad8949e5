import SolidityTables.Path.Location
import SolidityTables.Proofs.Split

/-!
# Paths and their components

The components of a path say where it leads: those of two paths that are joined are put one after
the other, and the way from one place to another leads there if it is followed.
-/

namespace SolidityTables

namespace Path

/-- A component that leads one step down. -/
structure IsName (c : String) : Prop where
  nonempty : c ≠ ""
  not_dot : c ≠ "."
  not_dots : c ≠ ".."
  no_slash : '/' ∉ c.toList

structure IsPlain (p : String) : Prop where
  relative : isAbsolute p = false
  down : ".." ∉ pieces p

def components (p : String) : List String :=
  (pieces p).filter fun c => c ≠ "" ∧ c ≠ "."

section Pieces

variable {a b p c : String}

theorem pieces_slash (a b : String) : pieces (a ++ "/" ++ b) = pieces a ++ pieces b := by
  have hslash : ("/" : String).toList = ['/'] := rfl
  rw [pieces, String.toList_append, String.toList_append, hslash, List.append_assoc,
    List.singleton_append, List.splitOn_append_cons_self, List.map_append, pieces, pieces]

theorem pieces_of_no_slash (h : '/' ∉ p.toList) : pieces p = [p] := by
  rw [pieces, List.splitOn_eq_singleton h, List.map_singleton, String.ofList_toList]

theorem no_slash_of_mem_pieces (h : c ∈ pieces p) : '/' ∉ c.toList :=
  notMem_of_mem_cut h

theorem pieces_intercalate {parts : List String} (hparts : parts ≠ [])
    (h : ∀ c ∈ parts, '/' ∉ c.toList) : pieces (String.intercalate "/" parts) = parts :=
  (cut_intercalate_iff rfl hparts).mpr h

theorem components_append_slash (a b : String) :
    components (a ++ "/" ++ b) = components a ++ components b := by
  rw [components, pieces_slash, List.filter_append, components, components]

theorem isAbsolute_append (h : a ≠ "") (b : String) : isAbsolute (a ++ b) = isAbsolute a := by
  cases ha : a.toList with
  | nil => exact absurd (String.toList_eq_nil_iff.mp ha) h
  | cons c cs => rw [isAbsolute, isAbsolute, String.toList_append, ha, List.cons_append,
      List.head?_cons, List.head?_cons]

theorem isAbsolute_join_of_relative (a : String) (hb : isAbsolute b = false) :
    isAbsolute (join a b) = isAbsolute a := by
  rw [join, if_neg (by simp [hb])]
  by_cases hempty : a = ""
  · rw [if_pos (.inl hempty), hempty, String.empty_append, hb]
    rfl
  · split_ifs
    · exact isAbsolute_append hempty b
    · rw [String.append_assoc, isAbsolute_append hempty]

theorem isAbsolute_join (ha : isAbsolute a = false) (hb : isAbsolute b = false) :
    isAbsolute (join a b) = false := by
  rw [isAbsolute_join_of_relative a hb, ha]

theorem head?_intercalate (hc : c ≠ "") (rest : List String) :
    (String.intercalate "/" (c :: rest)).toList.head? = c.toList.head? := by
  cases rest with
  | nil => rw [String.intercalate_singleton]
  | cons d rest =>
    rw [String.intercalate_cons_cons, String.append_assoc, String.toList_append]
    cases hchars : c.toList with
    | nil => exact absurd (String.toList_eq_nil_iff.mp hchars) hc
    | cons x xs => rfl

theorem components_join (h : isAbsolute b = false) :
    components (join a b) = components a ++ components b := by
  rw [join, if_neg (by simp [h])]
  split_ifs with hend
  · rcases hend with rfl | hend
    · have hnone : components "" = [] := by decide
      rw [hnone, String.empty_append, List.nil_append]
    · obtain ⟨front, hfront⟩ := List.getLast?_eq_some_iff.mp hend
      have ha : a = String.ofList front ++ "/" := by
        rw [← String.toList_inj, String.toList_append, String.toList_ofList]
        exact hfront
      have hnone : components "" = [] := by decide
      have hempty := components_append_slash (String.ofList front) ""
      rw [String.append_empty, ← ha, hnone, List.append_nil] at hempty
      rw [hempty, ← components_append_slash, ← ha]
  · exact components_append_slash a b

theorem IsPlain.names (h : IsPlain p) (hc : c ∈ components p) : IsName c := by
  obtain ⟨hpieces, hlead⟩ := List.mem_filter.mp hc
  have hlead : c ≠ "" ∧ c ≠ "." := by simpa using hlead
  refine ⟨hlead.1, hlead.2, ?_, no_slash_of_mem_pieces hpieces⟩
  intro hh
  subst hh
  exact h.down hpieces

end Pieces

section Resolving

variable {base dir start target : List String} {p c : String}

theorem step_of_name (h : IsName c) (dir : List String) : step dir c = dir ++ [c] := by
  rw [step, if_neg (not_or.mpr ⟨h.nonempty, h.not_dot⟩), if_neg h.not_dots]

theorem foldl_step_names {names : List String} (h : ∀ c ∈ names, IsName c) (dir : List String) :
    names.foldl step dir = dir ++ names := by
  induction names generalizing dir with
  | nil => rw [List.foldl_nil, List.append_nil]
  | cons c names ih =>
    obtain ⟨hc, hrest⟩ := List.forall_mem_cons.mp h
    rw [List.foldl_cons, step_of_name hc, ih hrest, List.append_assoc, List.singleton_append]

theorem foldl_step_filter (parts dir : List String) :
    (parts.filter fun c => c ≠ "" ∧ c ≠ ".").foldl step dir = parts.foldl step dir := by
  induction parts generalizing dir with
  | nil => rfl
  | cons c parts ih =>
    by_cases hc : c ≠ "" ∧ c ≠ "."
    · rw [List.filter_cons_of_pos (by simpa using hc), List.foldl_cons, List.foldl_cons, ih]
    · have hstep : step dir c = dir := by
        rw [step, if_pos (by tauto)]
      rw [List.filter_cons_of_neg (by simpa using hc), List.foldl_cons, hstep, ih]

theorem resolve_eq_components (base : List String) (p : String) :
    resolve base p = (components p).foldl step (if isAbsolute p then [] else base) := by
  rw [resolve, components, foldl_step_filter]

theorem resolve_relative (h : isAbsolute p = false) (base : List String) :
    resolve base p = (components p).foldl step base := by
  rw [resolve_eq_components, if_neg (by simp [h])]

theorem resolve_join (base : List String) (a b : String) :
    resolve base (join a b) = resolve (resolve base a) b := by
  cases hb : isAbsolute b with
  | true =>
    have hjoin : join a b = b := if_pos hb
    rw [hjoin, resolve, resolve, if_pos hb, if_pos hb]
  | false =>
    rw [resolve_eq_components, isAbsolute_join_of_relative a hb, components_join hb,
      List.foldl_append, ← resolve_eq_components, resolve_relative hb]

theorem IsPlain.resolve (h : IsPlain p) (base : List String) :
    Path.resolve base p = base ++ components p := by
  rw [resolve_relative h.relative, foldl_step_names fun _ => h.names]

/-- A path leads down by the same names from every directory. -/
def LeadsDown (p : String) (names : List String) : Prop :=
  ∀ base, resolve base p = base ++ names

theorem IsPlain.leadsDown (h : IsPlain p) : LeadsDown p (components p) :=
  h.resolve

theorem LeadsDown.join {a b : String} {front back : List String} (ha : LeadsDown a front)
    (hb : LeadsDown b back) : LeadsDown (join a b) (front ++ back) := by
  intro base
  rw [resolve_join, ha, hb, List.append_assoc]

theorem between_parts (start target : List String) : ∃ shared up down, start = shared ++ up ∧
    target = shared ++ down ∧ between start target = List.replicate up.length ".." ++ down := by
  induction start generalizing target with
  | nil => exact ⟨[], [], target, rfl, rfl, rfl⟩
  | cons s start ih =>
    cases target with
    | nil => exact ⟨[], s :: start, [], rfl, rfl, rfl⟩
    | cons t target =>
      by_cases hst : s = t
      · subst hst
        obtain ⟨shared, up, down, rfl, rfl, hway⟩ := ih target
        exact ⟨s :: shared, up, down, rfl, rfl, by rw [between, if_pos rfl, hway]⟩
      · refine ⟨[], s :: start, t :: target, rfl, rfl, ?_⟩
        rw [between, if_neg hst, List.length_cons]

theorem between_append (shared start target : List String) :
    between (shared ++ start) (shared ++ target) = between start target := by
  induction shared with
  | nil => rfl
  | cons c shared ih => rw [List.cons_append, List.cons_append, between, if_pos rfl, ih]

theorem foldl_step_dots (dir up : List String) :
    (List.replicate up.length "..").foldl step (dir ++ up) = dir := by
  induction up using List.reverseRecOn with
  | nil => rw [List.append_nil]; rfl
  | append_singleton up c ih =>
    have hstep : step (dir ++ (up ++ [c])) ".." = dir ++ up := by
      rw [step, if_neg (by decide), if_pos rfl, ← List.append_assoc, List.dropLast_concat]
    rw [List.length_append, List.length_singleton, List.replicate_succ, List.foldl_cons, hstep, ih]

theorem isAbsolute_intercalate (hc : c ≠ "") (hslash : '/' ∉ c.toList) (rest : List String) :
    isAbsolute (String.intercalate "/" (c :: rest)) = false := by
  rw [isAbsolute, head?_intercalate hc, decide_eq_false_iff_not]
  exact fun hh => hslash (List.mem_of_head? hh)

theorem resolve_intercalate {rest : List String} (hc : c ≠ "")
    (h : ∀ d ∈ c :: rest, '/' ∉ d.toList) (dir : List String) :
    resolve dir (String.intercalate "/" (c :: rest)) = (c :: rest).foldl step dir := by
  rw [resolve, isAbsolute_intercalate hc (h c (List.mem_cons_self ..)),
    pieces_intercalate (List.cons_ne_nil _ _) h]
  rfl

theorem components_dot_slash (p : String) : components ("./" ++ p) = components p := by
  have hslash : "./" ++ p = "." ++ "/" ++ p := rfl
  have hdot : components "." = [] := by decide
  rw [hslash, components_append_slash, hdot, List.nil_append]

theorem resolve_dot_slash (dir : List String) (p : String) :
    resolve dir ("./" ++ p) = (components p).foldl step dir := by
  have habsolute : isAbsolute ("./" ++ p) = false := isAbsolute_append (by decide) p
  rw [resolve_relative habsolute, components_dot_slash]

end Resolving

/-- Where components lead from any directory: some levels up, and from there down by names. -/
structure Trail where
  up : Nat
  down : List String

namespace Trail

def step (t : Trail) (c : String) : Trail :=
  if c = "" ∨ c = "." then t
  else if c = ".." then if t.down = [] then ⟨t.up + 1, []⟩ else ⟨t.up, t.down.dropLast⟩
  else ⟨t.up, t.down ++ [c]⟩

def ofParts (parts : List String) : Trail :=
  parts.foldl step ⟨0, []⟩

def follow (t : Trail) (dir : List String) : List String :=
  dir.take (dir.length - t.up) ++ t.down

theorem follow_step (t : Trail) (c : String) (dir : List String) :
    (t.step c).follow dir = Path.step (t.follow dir) c := by
  unfold step Path.step
  split_ifs with hnowhere hup hdown
  · rfl
  · rw [follow, follow, hdown, List.append_nil, List.append_nil, List.dropLast_eq_take,
      List.length_take, List.take_take]
    have hlevels : dir.length - (t.up + 1) =
        min (min (dir.length - t.up) dir.length - 1) (dir.length - t.up) := by omega
    rw [← hlevels]
  · rw [follow, follow, List.dropLast_append_of_ne_nil hdown]
  · rw [follow, follow, List.append_assoc]

theorem foldl_step (parts dir : List String) :
    parts.foldl Path.step dir = (ofParts parts).follow dir := by
  induction parts using List.reverseRecOn with
  | nil => simp [ofParts, follow]
  | append_singleton parts c ih =>
    rw [ofParts, List.foldl_append, List.foldl_append, List.foldl_cons, List.foldl_cons,
      List.foldl_nil, List.foldl_nil, follow_step, ih, ofParts]

theorem ofParts_names {names : List String} (h : ∀ c ∈ names, IsName c) :
    ofParts names = ⟨0, names⟩ := by
  induction names using List.reverseRecOn with
  | nil => rfl
  | append_singleton names c ih =>
    obtain ⟨hnames, hlast⟩ := List.forall_mem_append.mp h
    have hc := hlast c (List.mem_singleton_self c)
    have hfront : names.foldl step ⟨0, []⟩ = ⟨0, names⟩ := ih hnames
    rw [ofParts, List.foldl_append, hfront, List.foldl_cons, List.foldl_nil, step,
      if_neg (not_or.mpr ⟨hc.nonempty, hc.not_dot⟩), if_neg hc.not_dots]

theorem follow_append_iff (t : Trail) (dir sub : List String) :
    t.follow (dir ++ sub) = t.follow dir ↔ sub = [] ∨ (dir ++ sub).length ≤ t.up := by
  rw [follow, follow, List.append_left_inj]
  constructor
  · intro hh
    have hlength := congrArg List.length hh
    simp only [List.length_take, List.length_append] at hlength
    rw [← List.length_eq_zero_iff, List.length_append]
    omega
  · rintro (rfl | hroot)
    · rw [List.append_nil]
    · have hdir : dir.length ≤ t.up := by
        rw [List.length_append] at hroot
        omega
      rw [Nat.sub_eq_zero_of_le hroot, Nat.sub_eq_zero_of_le hdir, List.take_zero, List.take_zero]

end Trail

end Path

namespace Location

variable {p : String}

theorem leadingSlashes_relative (h : Path.isAbsolute p = false) : leadingSlashes p.toList = 0 := by
  unfold Path.isAbsolute at h
  unfold leadingSlashes
  split
  next hp => simp [hp] at h
  next hp => simp [hp] at h
  next hp => simp [hp] at h
  next => rfl

theorem leadingSlashes_absolute (h : Path.isAbsolute p = true) :
    leadingSlashes p.toList ≠ 0 := by
  obtain ⟨rest, hrest⟩ := List.head?_eq_some_iff.mp (of_decide_eq_true h)
  rw [hrest]
  unfold leadingSlashes
  split
  next => decide
  next => decide
  next => decide
  next hnone => exact absurd rfl (hnone rest)

theorem child_relative (a : Location) (h : Path.isAbsolute p = false) :
    a.child p = ⟨a.slashes, a.parts ++ Path.components p⟩ := by
  have hslashes : (ofString p).slashes = 0 := leadingSlashes_relative h
  rw [child, if_pos hslashes]
  rfl

end Location

end SolidityTables

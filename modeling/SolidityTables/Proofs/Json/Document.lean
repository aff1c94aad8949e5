import SolidityTables.Json.Document
import SolidityTables.Proofs.Attempt
import SolidityTables.Proofs.Config.Reading
import SolidityTables.Proofs.Lookup

/-!
# Documents are well-formed

The members of an object are collected under distinct keys. While a document is read, all values in
its open arrays and objects are well-formed, and every token keeps them so; hence the value of a
document is well-formed.
-/

namespace SolidityTables.Json

open Attempt

section Collect

variable {key : String} {value : Json} {ms written : Members}

theorem put_keys (key : String) (value : Json) (ms : Members) : (put key value ms).map (·.1) =
    if key ∈ ms.map (·.1) then ms.map (·.1) else ms.map (·.1) ++ [key] := by
  induction ms with
  | nil => rfl
  | cons m ms ih =>
    obtain ⟨k, v⟩ := m
    by_cases hk : k = key
    · subst hk
      rw [put, if_pos rfl, List.map_cons, List.map_cons, if_pos (List.mem_cons_self ..)]
    · rw [put, if_neg hk, List.map_cons, ih, List.map_cons]
      simp only [List.mem_cons, Ne.symm hk, false_or]
      split <;> rfl

theorem lookup_put (key : String) (value : Json) (ms : Members) (other : String) :
    (put key value ms).lookup other = if other = key then some value else ms.lookup other := by
  induction ms with
  | nil => exact lookup_cons key other value []
  | cons m ms ih =>
    obtain ⟨k, v⟩ := m
    by_cases hk : k = key
    · subst hk
      rw [put, if_pos rfl, lookup_cons, lookup_cons]
      split_ifs <;> rfl
    · rw [put, if_neg hk, lookup_cons, lookup_cons, ih]
      by_cases h : other = k
      · subst h
        rw [if_pos rfl, if_neg hk, if_pos rfl]
      · rw [if_neg h, if_neg h]

theorem put_nodup (h : (ms.map (·.1)).Nodup) : ((put key value ms).map (·.1)).Nodup := by
  rw [put_keys]
  split
  next => exact h
  next hnew => exact List.concat_eq_append ▸ h.concat hnew

theorem mem_put {m : String × Json} (h : m ∈ put key value ms) : m ∈ ms ∨ m = (key, value) := by
  induction ms with
  | nil => exact .inr (List.mem_singleton.mp h)
  | cons x ms ih =>
    obtain ⟨k, v⟩ := x
    by_cases hk : k = key
    · subst hk
      rw [put, if_pos rfl] at h
      rcases List.mem_cons.mp h with rfl | h
      · exact .inr rfl
      · exact .inl (List.mem_cons_of_mem _ h)
    · rw [put, if_neg hk] at h
      rcases List.mem_cons.mp h with rfl | h
      · exact .inl (List.mem_cons_self ..)
      · exact (ih h).imp_left (List.mem_cons_of_mem _)

theorem empty_wellFormed : (obj []).WellFormed :=
  (wellFormed_obj []).mpr ⟨List.nodup_nil, fun _ hm => absurd hm List.not_mem_nil⟩

theorem collect_wellFormed (h : ∀ m ∈ written, m.2.WellFormed) :
    (obj (collect written)).WellFormed := by
  refine List.foldlRecOn (motive := fun ms => (obj ms).WellFormed) written _ empty_wellFormed ?_
  intro ms hms m hm
  obtain ⟨hkeys, hvalues⟩ := (wellFormed_obj ms).mp hms
  refine (wellFormed_obj _).mpr ⟨put_nodup hkeys, fun x hx => ?_⟩
  rcases mem_put hx with hx | rfl
  · exact hvalues x hx
  · exact h m hm

end Collect

def Frame.WellFormed : Frame → Prop
  | .array items => ∀ j ∈ items, j.WellFormed
  | .object members _ => ∀ m ∈ members, m.2.WellFormed

def Expected.WellFormed : Expected → Prop
  | .name members _ | .colon members _ => ∀ m ∈ members, m.2.WellFormed
  | .nothing result => result.WellFormed
  | .value | .element | .continuation => True

structure State.WellFormed (s : State) : Prop where
  frames : ∀ f ∈ s.frames, f.WellFormed
  expected : s.expected.WellFormed

namespace State

variable {stack : List Frame} {s s' : State} {pos : Nat} {token : Token}

theorem close_wellFormed {v : Json} (hv : v.WellFormed) (h : ∀ f ∈ stack, f.WellFormed) :
    (close v stack).WellFormed := by
  cases stack with
  | nil => exact ⟨h, hv⟩
  | cons f stack =>
    obtain ⟨hf, hstack⟩ := List.forall_mem_cons.mp h
    cases f with
    | array items =>
      exact ⟨List.forall_mem_cons.mpr ⟨List.forall_mem_cons.mpr ⟨hv, hf⟩, hstack⟩, trivial⟩
    | object members key =>
      exact ⟨List.forall_mem_cons.mpr ⟨List.forall_mem_cons.mpr ⟨hv, hf⟩, hstack⟩, trivial⟩

theorem enter_wellFormed {object : Bool} (h : ∀ f ∈ stack, f.WellFormed)
    (henter : enter object stack = .ok s) : s.WellFormed := by
  have hnone {α : Type} {P : α → Prop} : ∀ a ∈ ([] : List α), P a :=
    fun _ ha => absurd ha List.not_mem_nil
  unfold enter at henter
  split at henter
  · cases henter
  · split at henter
    · cases henter
      exact ⟨h, hnone⟩
    · cases henter
      exact ⟨List.forall_mem_cons.mpr ⟨hnone, h⟩, trivial⟩

theorem value_wellFormed (h : ∀ f ∈ stack, f.WellFormed)
    (hvalue : value pos stack token = .ok s) : s.WellFormed := by
  unfold value at hvalue
  split at hvalue
  case h_1 t =>
    cases hvalue
    exact close_wellFormed (.str t) h
  case h_2 n =>
    cases hvalue
    exact close_wellFormed (.int n) h
  case h_3 x =>
    cases hvalue
    exact close_wellFormed (.float x) h
  case h_4 =>
    cases hvalue
    exact close_wellFormed .null h
  case h_5 b =>
    cases hvalue
    exact close_wellFormed (.bool b) h
  case h_6 => exact enter_wellFormed h hvalue
  case h_7 => exact enter_wellFormed h hvalue
  all_goals cases hvalue

theorem step_wellFormed (h : s.WellFormed) (hstep : s.step pos token = .ok s') :
    s'.WellFormed := by
  obtain ⟨frames, expected⟩ := s
  obtain ⟨hframes, hexpected⟩ := h
  unfold step at hstep
  dsimp only at hframes hexpected hstep
  split at hstep
  case h_1 => exact value_wellFormed hframes hstep
  case h_2 =>
    cases hstep
    obtain ⟨-, hstack⟩ := List.forall_mem_cons.mp hframes
    exact close_wellFormed (.arr fun _ hj => absurd hj List.not_mem_nil) hstack
  case h_3 => exact value_wellFormed hframes hstep
  case h_4 =>
    cases hstep
    obtain ⟨hitems, hstack⟩ := List.forall_mem_cons.mp hframes
    exact close_wellFormed (.arr fun j hj => hitems j (List.mem_reverse.mp hj)) hstack
  case h_5 =>
    cases hstep
    exact ⟨hframes, trivial⟩
  case h_6 =>
    cases hstep
    obtain ⟨hmembers, hstack⟩ := List.forall_mem_cons.mp hframes
    have hobject := collect_wellFormed fun m hm => hmembers m (List.mem_reverse.mp hm)
    exact close_wellFormed hobject hstack
  case h_7 =>
    cases hstep
    obtain ⟨hmembers, hstack⟩ := List.forall_mem_cons.mp hframes
    exact ⟨hstack, hmembers⟩
  case h_9 =>
    cases hstep
    exact ⟨hframes, hexpected⟩
  case h_10 =>
    cases hstep
    exact close_wellFormed empty_wellFormed hframes
  case h_13 =>
    cases hstep
    exact ⟨List.forall_mem_cons.mpr ⟨hexpected, hframes⟩, trivial⟩
  all_goals cases hstep

theorem run_wellFormed {size : Nat} {ts : List (Nat × Token)} {j : Json} (h : s.WellFormed)
    (hrun : s.run size ts = .ok j) : j.WellFormed := by
  induction ts generalizing s with
  | nil =>
    have hfinish := mapError_eq_ok.mp hrun
    have hexpected := h.expected
    unfold finish at hfinish
    split at hfinish
    case h_6 result hresult =>
      cases hfinish
      rw [hresult] at hexpected
      exact hexpected
    all_goals cases hfinish
  | cons t ts ih =>
    obtain ⟨s', hstep, hrest⟩ := bind_eq_ok.mp hrun
    exact ih (step_wellFormed h hstep) hrest

end State

/-- The value of a document is well-formed: its objects have distinct keys. -/
theorem parse_wellFormed {text : List Char} {j : Json} (h : parse text = .ok j) :
    j.WellFormed := by
  have hstart : State.WellFormed ⟨[], .value⟩ := ⟨fun _ hf => absurd hf List.not_mem_nil, trivial⟩
  unfold parse at h
  split at h
  · cases h
  · exact State.run_wellFormed hstart h

end SolidityTables.Json

import Mathlib.Data.List.Forall2

/-!
# Attempts

An attempt gives a value or the reason why there is none. A chain of attempts succeeds if each of
them does, a traversal of a list if every step does; otherwise the reason is that of the first one
that fails.
-/

namespace SolidityTables.Attempt

variable {ε δ α β : Type}

theorem bind_eq_ok {x : Except ε α} {f : α → Except ε β} {b : β} :
    x >>= f = .ok b ↔ ∃ a, x = .ok a ∧ f a = .ok b := by
  cases x with
  | ok a => simp [bind, Except.bind]
  | error e => simp [bind, Except.bind]

theorem bind_eq_error {x : Except ε α} {f : α → Except ε β} {e : ε} :
    x >>= f = .error e ↔ x = .error e ∨ ∃ a, x = .ok a ∧ f a = .error e := by
  cases x with
  | ok a => simp [bind, Except.bind]
  | error d => simp [bind, Except.bind]

theorem pure_eq_ok {a b : α} : (pure a : Except ε α) = .ok b ↔ a = b := by
  simp [pure, Except.pure]

theorem pure_eq_error {a : α} {e : ε} : (pure a : Except ε α) = .error e ↔ False := by
  simp [pure, Except.pure]

theorem isOk_iff_ne_error {x : Except ε α} : (∃ a, x = .ok a) ↔ ∀ e, x ≠ .error e := by
  cases x with
  | ok a => simp
  | error e => simp

theorem isError_iff_ne_ok {x : Except ε α} : (∃ e, x = .error e) ↔ ∀ a, x ≠ .ok a := by
  cases x with
  | ok a => simp
  | error e => simp

theorem map_eq_ok {x : Except ε α} {f : α → β} {b : β} :
    x.map f = .ok b ↔ ∃ a, x = .ok a ∧ f a = b := by
  cases x with
  | ok a => simp [Except.map]
  | error e => simp [Except.map]

theorem map_eq_error {x : Except ε α} {f : α → β} {e : ε} : x.map f = .error e ↔ x = .error e := by
  cases x with
  | ok a => simp [Except.map]
  | error d => simp [Except.map]

theorem mapError_eq_ok {x : Except ε α} {f : ε → δ} {a : α} :
    x.mapError f = .ok a ↔ x = .ok a := by
  cases x with
  | ok b => simp [Except.mapError]
  | error e => simp [Except.mapError]

theorem mapError_eq_error {x : Except ε α} {f : ε → δ} {e : δ} :
    x.mapError f = .error e ↔ ∃ d, x = .error d ∧ f d = e := by
  cases x with
  | ok a => simp [Except.mapError]
  | error d => simp [Except.mapError]

theorem mapM_eq_ok {f : α → Except ε β} {xs : List α} {ys : List β} :
    xs.mapM f = .ok ys ↔ List.Forall₂ (fun x y => f x = .ok y) xs ys := by
  induction xs generalizing ys with
  | nil =>
    rw [List.mapM_nil, pure_eq_ok, List.forall₂_nil_left_iff]
    exact eq_comm
  | cons x xs ih =>
    rw [List.mapM_cons, bind_eq_ok, List.forall₂_cons_left_iff]
    constructor
    · intro hh
      obtain ⟨y, hy, h⟩ := hh
      obtain ⟨ys, hys, h⟩ := bind_eq_ok.mp h
      exact ⟨y, ys, hy, ih.mp hys, (pure_eq_ok.mp h).symm⟩
    · intro hh
      obtain ⟨y, ys, hy, hys, rfl⟩ := hh
      exact ⟨y, hy, bind_eq_ok.mpr ⟨ys, ih.mpr hys, rfl⟩⟩

theorem mapM_congr {f g : α → Except ε β} {xs : List α} (h : ∀ x ∈ xs, f x = g x) :
    xs.mapM f = xs.mapM g := by
  induction xs with
  | nil => rfl
  | cons x xs ih =>
    obtain ⟨hx, hxs⟩ := List.forall_mem_cons.mp h
    rw [List.mapM_cons, List.mapM_cons, hx, ih hxs]

theorem map_eq_map_iff {γ : Type} {f : α → γ} {g : β → γ} {xs : List α} {ys : List β} :
    xs.map f = ys.map g ↔ List.Forall₂ (fun x y => f x = g y) xs ys := by
  rw [← List.forall₂_eq_eq_eq, List.forall₂_map_left_iff, List.forall₂_map_right_iff]

theorem toOption_eq_some {x : Except ε α} {a : α} : x.toOption = some a ↔ x = .ok a := by
  cases x with
  | ok b => simp [Except.toOption]
  | error e => simp [Except.toOption]

theorem exists_of_mem_right {R : α → β → Prop} {xs : List α} {ys : List β} {y : β}
    (h : List.Forall₂ R xs ys) (hy : y ∈ ys) : ∃ x ∈ xs, R x y := by
  obtain ⟨i, hi, rfl⟩ := List.getElem_of_mem hy
  have hix : i < xs.length := by rwa [h.length_eq]
  exact ⟨xs[i], List.getElem_mem hix, h.get hix hi⟩

theorem exists_forall₂ {R : α → β → Prop} {xs : List α} (h : ∀ x ∈ xs, ∃ y, R x y) :
    ∃ ys, List.Forall₂ R xs ys := by
  induction xs with
  | nil => exact ⟨[], .nil⟩
  | cons x xs ih =>
    obtain ⟨⟨y, hy⟩, hrest⟩ := List.forall_mem_cons.mp h
    obtain ⟨ys, hys⟩ := ih hrest
    exact ⟨y :: ys, .cons hy hys⟩

theorem forall₂_split {R : α → β → Prop} {xs : List α} {before after : List β} {y : β}
    (h : List.Forall₂ R xs (before ++ y :: after)) : ∃ front x back, xs = front ++ x :: back ∧
      List.Forall₂ R front before ∧ R x y ∧ List.Forall₂ R back after := by
  induction before generalizing xs with
  | nil =>
    obtain ⟨x, back, hx, hback, rfl⟩ := List.forall₂_cons_right_iff.mp h
    exact ⟨[], x, back, rfl, .nil, hx, hback⟩
  | cons b before ih =>
    obtain ⟨a, rest, ha, hrest, rfl⟩ := List.forall₂_cons_right_iff.mp h
    obtain ⟨front, x, back, rfl, hfront, hx, hback⟩ := ih hrest
    exact ⟨a :: front, x, back, rfl, .cons ha hfront, hx, hback⟩

theorem forall₂_insert {R : α → β → Prop} {before after : List α} {ys : List β} {x : α} {y : β}
    (h : List.Forall₂ R (before ++ after) ys) (hxy : R x y) :
    ∃ front back, ys = front ++ back ∧
      List.Forall₂ R (before ++ x :: after) (front ++ y :: back) := by
  have hfront := (List.forall₂_take_append ys before after h.flip).flip
  have hback := (List.forall₂_drop_append ys before after h.flip).flip
  exact ⟨_, _, (List.take_append_drop before.length ys).symm,
    List.rel_append hfront (.cons hxy hback)⟩

theorem forall₂_comp {γ : Type} {R : α → β → Prop} {S : β → γ → Prop} {T : α → γ → Prop}
    (hT : ∀ a b c, R a b → S b c → T a c) {xs : List α} {ys : List β} {zs : List γ}
    (hxy : List.Forall₂ R xs ys) (hyz : List.Forall₂ S ys zs) : List.Forall₂ T xs zs := by
  induction hxy generalizing zs with
  | nil =>
    cases hyz
    exact .nil
  | cons hx _ ih =>
    cases hyz with
    | cons hz hrest => exact .cons (hT _ _ _ hx hz) (ih hrest)

theorem mapM_eq_ok_map {f : α → Except ε β} {source : β → α} {P : β → Prop} {xs : List α}
    {ys : List β} (h : ∀ x y, f x = .ok y ↔ source y = x ∧ P y) :
    xs.mapM f = .ok ys ↔ ys.map source = xs ∧ ∀ y ∈ ys, P y := by
  rw [mapM_eq_ok]
  simp only [h]
  induction ys generalizing xs with
  | nil => simp [List.forall₂_nil_right_iff, eq_comm]
  | cons y ys ih =>
    rw [List.forall₂_cons_right_iff, List.map_cons, List.forall_mem_cons]
    constructor
    · intro hh
      obtain ⟨x, xs, ⟨rfl, hy⟩, hys, rfl⟩ := hh
      obtain ⟨rfl, hall⟩ := ih.mp hys
      exact ⟨rfl, hy, hall⟩
    · intro hh
      obtain ⟨rfl, hy, hys⟩ := hh
      exact ⟨_, _, ⟨rfl, hy⟩, ih.mpr ⟨rfl, hys⟩, rfl⟩

def fault? : Except ε α → Option ε
  | .ok _ => none
  | .error e => some e

@[simp] theorem fault?_ok (a : α) : fault? (.ok a : Except ε α) = none := rfl

@[simp] theorem fault?_error (e : ε) : fault? (.error e : Except ε α) = some e := rfl

theorem fault?_eq_some {x : Except ε α} {e : ε} : fault? x = some e ↔ x = .error e := by
  cases x with
  | ok a => simp
  | error d => simp

theorem fault?_eq_none {x : Except ε α} : fault? x = none ↔ ∃ a, x = .ok a := by
  cases x with
  | ok a => simp
  | error e => simp

theorem fault?_bind {x : Except ε α} {f : α → Except ε β} {o : Option ε}
    (h : ∀ a, x = .ok a → fault? (f a) = o) : fault? (x >>= f) = (fault? x).or o := by
  cases x with
  | ok a => exact h a rfl
  | error e => rfl

theorem fault?_mapM (f : α → Except ε β) (xs : List α) :
    fault? (xs.mapM f) = xs.findSome? fun x => fault? (f x) := by
  induction xs with
  | nil => rfl
  | cons x xs ih =>
    rw [List.mapM_cons, List.findSome?_cons]
    cases hx : f x with
    | error e => rfl
    | ok y =>
      have hrest := fault?_bind (x := xs.mapM f) (f := fun ys => pure (y :: ys)) (o := none)
        fun _ _ => rfl
      rw [Option.or_none] at hrest
      exact hrest.trans ih

theorem mapM_isOk {f : α → Except ε β} {xs : List α} :
    (∃ ys, xs.mapM f = .ok ys) ↔ ∀ x ∈ xs, ∃ y, f x = .ok y := by
  rw [← fault?_eq_none, fault?_mapM, List.findSome?_eq_none_iff]
  exact forall₂_congr fun x _ => fault?_eq_none

theorem mapM_eq_error {f : α → Except ε β} {xs : List α} {e : ε} :
    xs.mapM f = .error e ↔ ∃ before x after, xs = before ++ x :: after ∧
      (∀ y ∈ before, ∃ z, f y = .ok z) ∧ f x = .error e := by
  rw [← fault?_eq_some, fault?_mapM, List.findSome?_eq_some_iff]
  simp only [fault?_eq_some, fault?_eq_none]
  constructor
  · intro hh
    obtain ⟨before, x, after, hxs, hx, hbefore⟩ := hh
    exact ⟨before, x, after, hxs, hbefore, hx⟩
  · intro hh
    obtain ⟨before, x, after, hxs, hbefore, hx⟩ := hh
    exact ⟨before, x, after, hxs, hx, hbefore⟩

end SolidityTables.Attempt

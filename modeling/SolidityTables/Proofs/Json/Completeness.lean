import SolidityTables.Proofs.Json.Soundness

/-!
# What a text denotes is read

Where a value may stand the reader gets over each text that denotes one, whatever limits the grammar
has; it is refused only if these exceed its own. With that the outcome of reading is known: the
value that the text denotes, or the limit that it exceeds.
-/

namespace SolidityTables.Json

def Refusal.IsLimit : Refusal → Prop
  | .long _ | .deep _ => True
  | .fault _ _ => False

def Limits.Exceed (L : Limits) : Prop := limits.digits < L.digits ∨ limits.depth < L.depth

/-- From a state and a text the reader gets to another state and the rest, or the limits are
exceeded and it is refused because of one. -/
def Passes (L : Limits) (s : State) (cs : List Char) (s' : State) (cs' : List Char) : Prop :=
  ∀ size pos, (∃ pos', s.run size (tokensFrom pos cs) = s'.run size (tokensFrom pos' cs')) ∨
    ∃ r, s.run size (tokensFrom pos cs) = .error r ∧ r.IsLimit ∧ L.Exceed

inductive Awaits : State → List Frame → Prop
  | value {frames : List Frame} : Awaits ⟨frames, .value⟩ frames
  | element {frames : List Frame} :
    Awaits ⟨.array [] :: frames, .element⟩ (.array [] :: frames)

def Readable (L : Limits) (k : Nat) (text : List Char) (v : Json) : Prop :=
  ∀ s frames rest, Awaits s frames → frames.length = k → ¬Continues rest →
    Passes L s (text ++ rest) (State.close v frames) rest

variable {L : Limits} {s s' s'' : State} {cs cs' cs'' text rest b : List Char} {t : Token}
  {frames : List Frame} {k : Nat} {v : Json}

theorem Passes.refl (s : State) (cs : List Char) : Passes L s cs s cs :=
  fun _ pos => .inl ⟨pos, rfl⟩

theorem Passes.trans (h : Passes L s cs s' cs') (h' : Passes L s' cs' s'' cs'') :
    Passes L s cs s'' cs'' := by
  intro size pos
  obtain ⟨pos', hrun⟩ | hrefused := h size pos
  · obtain ⟨pos'', hrun'⟩ | ⟨r, hrun', hr⟩ := h' size pos'
    · exact .inl ⟨pos'', hrun.trans hrun'⟩
    · exact .inr ⟨r, hrun.trans hrun', hr⟩
  · exact .inr hrefused

theorem Passes.blanks (hb : IsBlanks b) (s : State) (cs : List Char) :
    Passes L s (b ++ cs) s cs := by
  intro size pos
  obtain ⟨pos', hpos⟩ := tokensFrom_blanks hb pos cs
  exact .inl ⟨pos', congrArg (s.run size) hpos⟩

theorem Begins.passes (h : Begins cs t rest) (hstep : ∀ pos, s.step pos t = .ok s') :
    Passes L s cs s' rest := by
  intro size pos
  obtain ⟨pos', hpos⟩ := h pos
  refine .inl ⟨pos', ?_⟩
  rw [hpos, State.run, hstep]
  rfl

theorem passes_mark {c : Char} (hc : c ∈ marks) (rest : List Char)
    (hstep : ∀ pos, s.step pos (.mark c) = .ok s') : Passes L s (c :: rest) s' rest :=
  (begins_mark hc rest).passes hstep

theorem Begins.refused (h : Begins cs t rest) {r : Refusal}
    (hstep : ∀ pos, s.step pos t = .error r) (hr : r.IsLimit) (hL : L.Exceed) :
    Passes L s cs s' cs' := by
  intro size pos
  obtain ⟨pos', hpos⟩ := h pos
  refine .inr ⟨r, ?_, hr, hL⟩
  rw [hpos, State.run, hstep]
  rfl

theorem Awaits.step (h : Awaits s frames) (ht : t ≠ .mark ']') (pos : Nat) :
    s.step pos t = State.value pos frames t := by
  cases h with
  | value => rfl
  | element => exact step_element pos [] _ ht

theorem not_continues_cons {c : Char} (hdigit : c.isDigit = false) (hpoint : c ≠ '.')
    (he : c ≠ 'e') (hE : c ≠ 'E') (cs : List Char) : ¬Continues (c :: cs) := by
  intro h
  generalize hrest : c :: cs = rest at h
  cases h with
  | digit hd =>
    cases hrest
    simp [hdigit] at hd
  | fraction =>
    cases hrest
    exact hpoint rfl
  | exponent h =>
    cases h with
    | plain h | plus h | minus h =>
      cases hrest
      exact h.elim he hE

theorem not_continues_mark {c : Char} (h : c ∈ marks) (cs : List Char) : ¬Continues (c :: cs) := by
  simp only [marks, List.mem_cons, List.not_mem_nil, or_false] at h
  rcases h with rfl | rfl | rfl | rfl | rfl | rfl <;>
    exact not_continues_cons rfl (by decide) (by decide) (by decide) cs

theorem not_continues_blanks (hb : IsBlanks b) (hrest : ¬Continues rest) :
    ¬Continues (b ++ rest) := by
  cases b with
  | nil => exact hrest
  | cons c b =>
    have hc := hb c List.mem_cons_self
    simp only [isBlank, Bool.or_eq_true, decide_eq_true_eq] at hc
    rcases hc with ((rfl | rfl) | rfl) | rfl <;> exact not_continues_cons rfl (by decide)
      (by decide) (by decide) _

theorem readable_lexeme (h : Lexeme L.digits text v) : Readable L k text v := by
  intro s frames rest hs _ hrest
  obtain ⟨t, hbegins, ht | ⟨⟨n, rfl⟩, hL⟩⟩ := begins_lexeme h hrest
  · refine hbegins.passes fun pos => ?_
    have hne : t ≠ .mark ']' := by
      rintro rfl
      cases ht
    rw [hs.step hne, value_scalar pos frames ht]
  · exact hbegins.refused (fun pos => hs.step (by simp) pos) trivial (.inl hL)

theorem Readable.padded {b' : List Char} (hb : IsBlanks b) (h : Readable L k text v)
    (hb' : IsBlanks b') : Readable L k (b ++ text ++ b') v := by
  intro s frames rest hs hk hrest
  have hpasses := h s frames (b' ++ rest) hs hk (not_continues_blanks hb' hrest)
  rw [List.append_assoc, List.append_assoc]
  exact (Passes.blanks hb s _).trans (hpasses.trans (Passes.blanks hb' _ rest))

def State.entered (object : Bool) (frames : List Frame) : State :=
  if object then ⟨frames, .name [] true⟩ else ⟨.array [] :: frames, .element⟩

theorem Awaits.enters (h : Awaits s frames) (hk : frames.length < L.depth) (object : Bool)
    (rest : List Char) :
    Passes L s (opening object :: rest) (State.entered object frames) rest := by
  have hbegins : Begins (opening object :: rest) (.mark (opening object)) rest :=
    begins_mark (opening_mem object) rest
  have hstep (pos : Nat) : s.step pos (.mark (opening object)) = State.enter object frames := by
    rw [h.step (by cases object <;> simp [opening])]
    cases object <;> rfl
  by_cases hdepth : maxOpen ≤ frames.length
  · have hlimit : (Refusal.deep object).IsLimit := trivial
    refine hbegins.refused (fun pos => ?_) hlimit (.inr (Nat.lt_of_le_of_lt hdepth hk))
    rw [hstep, State.enter, if_pos hdepth]
  · refine hbegins.passes fun pos => ?_
    rw [hstep, State.enter, if_neg hdepth]
    cases object <;> rfl

theorem front_cons (text : List Char) (texts : List (List Char)) (rest : List Char) :
    front (text :: texts) ++ rest = text ++ ',' :: (front texts ++ rest) := by
  simp [front]

theorem items_pass {items : List Item} (h : ∀ x ∈ items, Readable L (k + 1) x.text x.value)
    {before : List Json} (hs : Awaits s (.array before :: frames)) (hk : frames.length = k)
    (rest : List Char) :
    ∃ s', Awaits s' (.array ((items.map Item.value).reverse ++ before) :: frames) ∧
      Passes L s (front (items.map Item.text) ++ rest) s' rest := by
  induction items generalizing s before with
  | nil => exact ⟨s, hs, .refl s rest⟩
  | cons x items ih =>
    obtain ⟨hx, hitems⟩ := List.forall_mem_cons.mp h
    have hvalue := hx s (.array before :: frames) (',' :: (front (items.map Item.text) ++ rest)) hs
      (by simp [hk]) (not_continues_mark (by simp [marks]) _)
    have hcomma : Passes L (State.close x.value (.array before :: frames))
        (',' :: (front (items.map Item.text) ++ rest))
        ⟨.array (x.value :: before) :: frames, .value⟩ (front (items.map Item.text) ++ rest) :=
      passes_mark (by simp [marks]) _ fun _ => rfl
    obtain ⟨s', hs', hpasses⟩ := ih hitems .value
    refine ⟨s', by simpa using hs', ?_⟩
    rw [List.map_cons, front_cons]
    exact hvalue.trans (hcomma.trans hpasses)

theorem readable_empty {object : Bool} {c : Char} (hk : k < L.depth) (hb : IsBlanks b)
    (hc : c ∈ marks) (hstep : ∀ pos frames,
      (State.entered object frames).step pos (.mark c) = .ok (State.close v frames)) :
    Readable L k (opening object :: (b ++ [c])) v := by
  intro s frames rest hs hlength _
  have hopen := hs.enters (hlength ▸ hk) object (b ++ c :: rest)
  have hclose : Passes L (State.entered object frames) (c :: rest) (State.close v frames) rest :=
    passes_mark hc rest fun pos => hstep pos frames
  rw [List.cons_append, List.append_assoc, List.singleton_append]
  exact hopen.trans ((Passes.blanks hb _ _).trans hclose)

theorem readable_array {items : List Item} (hk : k < L.depth) (hne : items ≠ [])
    (h : ∀ x ∈ items, Readable L (k + 1) x.text x.value) :
    Readable L k ('[' :: ([','].intercalate (items.map Item.text) ++ [']']))
      (.arr (items.map Item.value)) := by
  intro s frames rest hs hlength _
  obtain ⟨items, x, rfl⟩ := (List.eq_nil_or_concat' items).resolve_left hne
  have hlast := h x (by simp)
  have hopen := hs.enters (hlength ▸ hk) false
    (front (items.map Item.text) ++ (x.text ++ ']' :: rest))
  obtain ⟨s', hs', hitems⟩ := items_pass (fun y hy => h y (List.mem_append_left _ hy))
    .element hlength (x.text ++ ']' :: rest)
  have hvalue := hlast s' _ (']' :: rest) hs' (by simp [hlength])
    (not_continues_mark (by simp [marks]) rest)
  have hclose : Passes L (State.close x.value
      (.array ((items.map Item.value).reverse ++ []) :: frames)) (']' :: rest)
      (State.close (.arr (x.value :: ((items.map Item.value).reverse ++ [])).reverse) frames)
      rest := passes_mark (by simp [marks]) rest fun _ => rfl
  have hpasses := hopen.trans (hitems.trans (hvalue.trans hclose))
  rw [intercalate_map_append]
  simpa [opening] using hpasses

theorem name_passes {name : List Char} {key : String} (h : IsName name key) (before : Members)
    (atStart : Bool) (frames : List Frame) (rest : List Char) :
    Passes L ⟨frames, .name before atStart⟩ (name ++ ':' :: rest)
      ⟨.object before key :: frames, .value⟩ rest := by
  cases h with
  | @padded b text b' key hb h hb' =>
    have hname : Passes L ⟨frames, .name before atStart⟩ (text ++ (b' ++ ':' :: rest))
        ⟨frames, .colon before key⟩ (b' ++ ':' :: rest) :=
      (begins_string h _).passes fun _ => rfl
    have hcolon : Passes L ⟨frames, .colon before key⟩ (':' :: rest)
        ⟨.object before key :: frames, .value⟩ rest :=
      passes_mark (by simp [marks]) rest fun _ => rfl
    rw [List.append_assoc, List.append_assoc]
    exact (Passes.blanks hb _ _).trans (hname.trans ((Passes.blanks hb' _ _).trans hcolon))

theorem member_passes {m : Member} (hname : IsName m.name m.key)
    (h : Readable L (k + 1) m.text m.value) (before : Members) (atStart : Bool)
    (hk : frames.length = k) (hrest : ¬Continues rest) :
    Passes L ⟨frames, .name before atStart⟩ (m.written ++ rest)
      (State.close m.value (.object before m.key :: frames)) rest := by
  have hvalue := h _ (.object before m.key :: frames) rest .value (by simp [hk]) hrest
  have hpasses := (name_passes hname before atStart frames (m.text ++ rest)).trans hvalue
  simpa [Member.written] using hpasses

theorem members_pass {members : List Member} (hnames : ∀ m ∈ members, IsName m.name m.key)
    (h : ∀ m ∈ members, Readable L (k + 1) m.text m.value) (before : Members) (atStart : Bool)
    (hk : frames.length = k) (rest : List Char) :
    ∃ atStart', Passes L ⟨frames, .name before atStart⟩
      (front (members.map Member.written) ++ rest)
      ⟨frames, .name ((members.map Member.entry).reverse ++ before) atStart'⟩ rest := by
  induction members generalizing before atStart with
  | nil => exact ⟨atStart, .refl _ rest⟩
  | cons m members ih =>
    obtain ⟨hname, hnames⟩ := List.forall_mem_cons.mp hnames
    obtain ⟨hm, hmembers⟩ := List.forall_mem_cons.mp h
    have hnext : ¬Continues (',' :: (front (members.map Member.written) ++ rest)) :=
      not_continues_mark (by simp [marks]) _
    have hmember := member_passes hname hm before atStart hk hnext
    have hcomma : Passes L (State.close m.value (.object before m.key :: frames))
        (',' :: (front (members.map Member.written) ++ rest))
        ⟨frames, .name (m.entry :: before) false⟩ (front (members.map Member.written) ++ rest) :=
      passes_mark (by simp [marks]) _ fun _ => rfl
    obtain ⟨atStart', hpasses⟩ := ih hnames hmembers (m.entry :: before) false
    refine ⟨atStart', ?_⟩
    rw [List.map_cons, front_cons, List.map_cons, List.reverse_cons, List.append_assoc]
    exact hmember.trans (hcomma.trans hpasses)

theorem readable_object {members : List Member} (hk : k < L.depth) (hne : members ≠ [])
    (hnames : ∀ m ∈ members, IsName m.name m.key)
    (h : ∀ m ∈ members, Readable L (k + 1) m.text m.value) :
    Readable L k ('\x7b' :: ([','].intercalate (members.map Member.written) ++ ['\x7d']))
      (.obj (collect (members.map Member.entry))) := by
  intro s frames rest hs hlength _
  obtain ⟨members, m, rfl⟩ := (List.eq_nil_or_concat' members).resolve_left hne
  have hopen := hs.enters (hlength ▸ hk) true
    (front (members.map Member.written) ++ (m.written ++ '\x7d' :: rest))
  obtain ⟨atStart, hmembers⟩ := members_pass (fun x hx => hnames x (List.mem_append_left _ hx))
    (fun x hx => h x (List.mem_append_left _ hx)) [] true hlength (m.written ++ '\x7d' :: rest)
  have hend : ¬Continues ('\x7d' :: rest) := not_continues_mark (by simp [marks]) rest
  have hlast := member_passes (hnames m (by simp)) (h m (by simp))
    ((members.map Member.entry).reverse ++ []) atStart hlength hend
  have hclose : Passes L (State.close m.value
      (.object ((members.map Member.entry).reverse ++ []) m.key :: frames)) ('\x7d' :: rest)
      (State.close (.obj (collect (m.entry ::
        ((members.map Member.entry).reverse ++ [])).reverse)) frames) rest :=
    passes_mark (by simp [marks]) rest fun _ => rfl
  have hpasses := hopen.trans (hmembers.trans (hlast.trans hclose))
  rw [intercalate_map_append]
  simpa [opening] using hpasses

theorem Spells.readable (h : Spells L k text v) : Readable L k text v := by
  induction h with
  | lexeme h => exact readable_lexeme h
  | padded hb _ hb' ih => exact ih.padded hb hb'
  | emptyArray hk hb =>
    have hend (pos : Nat) (frames : List Frame) : (State.entered false frames).step pos
        (.mark ']') = .ok (State.close (.arr []) frames) := rfl
    exact readable_empty hk hb (by simp [marks]) hend
  | array hk hne _ ih => exact readable_array hk hne ih
  | emptyObject hk hb =>
    have hend (pos : Nat) (frames : List Frame) : (State.entered true frames).step pos
        (.mark '\x7d') = .ok (State.close (.obj []) frames) := rfl
    exact readable_empty hk hb (by simp [marks]) hend
  | object hk hne hnames _ ih => exact readable_object hk hne hnames ih

theorem Leads.passes {p : List Char} (h : Leads L frames p) (rest : List Char) :
    ∃ s, Awaits s frames ∧ Passes L ⟨[], .value⟩ (p ++ rest) s rest := by
  induction h generalizing rest with
  | start hb => exact ⟨_, .value, .blanks hb _ rest⟩
  | @element frames p b items _ hk hitems hb ih =>
    obtain ⟨s, hs, hfront⟩ := ih ('[' :: (front (items.map Item.text) ++ (b ++ rest)))
    have hopen := hs.enters hk false (front (items.map Item.text) ++ (b ++ rest))
    obtain ⟨s', hs', hpasses⟩ := items_pass (fun x hx => (hitems x hx).readable) .element rfl
      (b ++ rest)
    rw [List.append_nil] at hs'
    refine ⟨s', hs', ?_⟩
    have hall := hfront.trans (hopen.trans (hpasses.trans (.blanks hb s' rest)))
    simpa using hall
  | @member frames p name b key members _ hk hnames hmembers hname hb ih =>
    obtain ⟨s, hs, hfront⟩ := ih ('\x7b' :: (front (members.map Member.written) ++
      (name ++ ':' :: (b ++ rest))))
    have hopen := hs.enters hk true (front (members.map Member.written) ++
      (name ++ ':' :: (b ++ rest)))
    obtain ⟨atStart, hpasses⟩ := members_pass hnames (fun m hm => (hmembers m hm).readable) []
      true rfl (name ++ ':' :: (b ++ rest))
    rw [List.append_nil] at hpasses
    have hall := hfront.trans (hopen.trans (hpasses.trans ((name_passes hname _ _ _ _).trans
      (.blanks hb _ rest))))
    refine ⟨_, .value, ?_⟩
    simpa using hall

theorem run_byteOrderMark (size : Nat) (cs : List Char) :
    State.run size ⟨[], .value⟩ (tokens ('\uFEFF' :: cs)) = .error (.fault .expectedValue 0) := by
  have hfirst : Token.first 0 '\uFEFF' cs = (.junk, 0) := by
    have hnumber : number false ('\uFEFF' :: cs) = none := by
      simp [number_eq, leadingWhole]
    simp [Token.first, words, List.find?, List.isPrefixOf, hnumber]
  rw [tokens, tokensFrom, if_neg (by decide), hfirst]
  rfl

theorem parse_eq_run {text : List Char} {x : Except Refusal Json}
    (h : State.run text.length ⟨[], .value⟩ (tokens text) = x)
    (hx : ∀ fault index, x ≠ .error (.fault fault index)) : parse text = x := by
  unfold parse
  split
  next hmark =>
    obtain ⟨cs, rfl⟩ := List.head?_eq_some_iff.mp hmark
    rw [run_byteOrderMark] at h
    exact absurd h.symm (hx _ _)
  next => exact h

theorem not_continues_nil : ¬Continues [] := by
  intro h
  generalize hnil : ([] : List Char) = rest at h
  cases h with
  | digit | fraction => cases hnil
  | exponent he => cases he <;> cases hnil

theorem Refusal.IsLimit.ne_fault {r : Refusal} (h : r.IsLimit) (fault : Fault) (index : Nat) :
    r ≠ .fault fault index := by
  rintro rfl
  exact h

theorem Spells.parse {j : Json} (h : Spells L 0 text j) :
    parse text = .ok j ∨ ∃ r, parse text = .error r ∧ r.IsLimit ∧ L.Exceed := by
  have hreadable := h.readable _ [] [] .value rfl not_continues_nil text.length 0
  rw [List.append_nil] at hreadable
  obtain ⟨pos, hrun⟩ | ⟨r, hrun, hr, hL⟩ := hreadable
  · rw [tokensFrom] at hrun
    exact .inl (parse_eq_run hrun (by simp))
  · refine .inr ⟨r, parse_eq_run hrun fun fault index => ?_, hr, hL⟩
    simpa using hr.ne_fault fault index

theorem not_exceed : ¬limits.Exceed := fun h => h.elim (Nat.lt_irrefl _) (Nat.lt_irrefl _)

theorem Leads.parse {p : List Char} (h : Leads limits frames p) {r : Refusal} (hr : r.IsLimit)
    (hbegins : Begins cs t rest) (ht : t ≠ .mark ']')
    (hvalue : ∀ pos, State.value pos frames t = .error r) : parse (p ++ cs) = .error r := by
  obtain ⟨s, hs, hpasses⟩ := h.passes cs
  obtain ⟨pos, hrun⟩ | ⟨_, _, _, hL⟩ := hpasses (p ++ cs).length 0
  · obtain ⟨pos', hpos⟩ := hbegins pos
    rw [hpos, State.run, hs.step ht, hvalue] at hrun
    exact parse_eq_run hrun fun fault index => by simpa using hr.ne_fault fault index
  · exact absurd hL not_exceed

theorem parse_eq_ok_iff {j : Json} : parse text = .ok j ↔ Spells limits 0 text j := by
  constructor
  · intro h
    have hexplains := parse_explains text
    rwa [h] at hexplains
  · intro h
    rcases h.parse with hparse | ⟨_, _, _, hL⟩
    · exact hparse
    · exact absurd hL not_exceed

theorem Spells.unique {j j' : Json} (h : Spells limits 0 text j) (h' : Spells limits 0 text j') :
    j = j' := by
  have hparse := parse_eq_ok_iff.mpr h
  rw [parse_eq_ok_iff.mpr h'] at hparse
  exact (Except.ok.inj hparse).symm

theorem parse_eq_long_iff {n : Nat} : parse text = .error (.long n) ↔ Overlong text n := by
  constructor
  · intro h
    have hexplains := parse_explains text
    rwa [h] at hexplains
  · intro h
    obtain ⟨frames, p, sign, ds, rest, hp, hsign, hds, rfl, hlong, hrest, rfl⟩ := h
    exact hp.parse trivial (begins_long hsign hds hlong hrest) (by simp) fun _ => rfl

theorem parse_eq_deep_iff {object : Bool} :
    parse text = .error (.deep object) ↔ Overdeep text object := by
  constructor
  · intro h
    have hexplains := parse_explains text
    rwa [h] at hexplains
  · intro h
    obtain ⟨frames, p, rest, hp, hdepth, rfl⟩ := h
    have hbegins := begins_mark (opening_mem object) rest
    refine hp.parse trivial hbegins (by cases object <;> simp [opening]) fun pos => ?_
    have henter : State.enter object frames = .error (.deep object) := if_pos hdepth
    rw [← henter]
    cases object <;> rfl

theorem parse_eq_fault_iff : (∃ fault index, parse text = .error (.fault fault index)) ↔
    (∀ L j, ¬Spells L 0 text j) ∧ (∀ n, ¬Overlong text n) ∧ ∀ object, ¬Overdeep text object := by
  constructor
  · intro h
    obtain ⟨fault, index, h⟩ := h
    refine ⟨fun L j hspells => ?_, fun n hlong => ?_, fun object hdeep => ?_⟩
    · rcases hspells.parse with hok | ⟨r, herror, hr, -⟩
      · simp [h] at hok
      · rw [h] at herror
        cases herror
        exact hr
    · simp [parse_eq_long_iff.mpr hlong] at h
    · simp [parse_eq_deep_iff.mpr hdeep] at h
  · intro h
    obtain ⟨hspells, hlong, hdeep⟩ := h
    match hparse : parse text with
    | .ok j => exact absurd (parse_eq_ok_iff.mp hparse) (hspells limits j)
    | .error (.long n) => exact absurd (parse_eq_long_iff.mp hparse) (hlong n)
    | .error (.deep object) => exact absurd (parse_eq_deep_iff.mp hparse) (hdeep object)
    | .error (.fault fault index) => exact ⟨fault, index, rfl⟩

end SolidityTables.Json

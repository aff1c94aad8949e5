import SolidityTables.Proofs.Json.Grammar
import SolidityTables.Proofs.Attempt

/-!
# What is read is what the text denotes

Each state of the reader tells what has been read: the values and names that are kept in it are
those that the text up to there denotes. Every token keeps that so. At the end of the text the value
is the one that it denotes; a limit is exceeded only where the text exceeds it.
-/

namespace SolidityTables.Json

open Attempt

/-- A state tells what has been read. -/
inductive Reads (L : Limits) : State → List Char → Prop
  | value {frames : List Frame} {p : List Char} (hp : Leads L frames p) :
    Reads L ⟨frames, .value⟩ p
  | element {frames : List Frame} {p : List Char} (hp : Leads L (.array [] :: frames) p) :
    Reads L ⟨.array [] :: frames, .element⟩ p
  | closed {frames : List Frame} {p text : List Char} {v : Json} (hp : Leads L frames p)
    (h : Spells L frames.length text v) : Reads L (State.close v frames) (p ++ text)
  | name {frames : List Frame} {p b : List Char} {members : List Member} {atStart : Bool}
    (hp : Leads L frames p) (hk : frames.length < L.depth)
    (hnames : ∀ m ∈ members, IsName m.name m.key)
    (h : ∀ m ∈ members, Spells L (frames.length + 1) m.text m.value) (hb : IsBlanks b)
    (hstart : atStart = true → members = []) :
    Reads L ⟨frames, .name (members.map Member.entry).reverse atStart⟩
      (p ++ '\x7b' :: (front (members.map Member.written) ++ b))
  | colon {frames : List Frame} {p name : List Char} {key : String} {members : List Member}
    (hp : Leads L frames p) (hk : frames.length < L.depth)
    (hnames : ∀ m ∈ members, IsName m.name m.key)
    (h : ∀ m ∈ members, Spells L (frames.length + 1) m.text m.value) (hname : IsName name key) :
    Reads L ⟨frames, .colon (members.map Member.entry).reverse key⟩
      (p ++ '\x7b' :: (front (members.map Member.written) ++ name))

def Explains (text : List Char) : Except Refusal Json → Prop
  | .ok j => Spells limits 0 text j
  | .error (.long n) => Overlong text n
  | .error (.deep object) => Overdeep text object
  | .error (.fault _ _) => True

variable {L : Limits} {s s' : State} {frames : List Frame} {p text rest b : List Char} {pos : Nat}
  {t : Token} {v : Json}

theorem Leads.blanks (h : Leads L frames p) (hb : IsBlanks b) : Leads L frames (p ++ b) := by
  cases h with
  | start hp => exact .start (hp.append hb)
  | element hp hk h hb' =>
    have hleads := Leads.element hp hk h (hb'.append hb)
    simpa using hleads
  | member hp hk hnames h hname hb' =>
    have hleads := Leads.member hp hk hnames h hname (hb'.append hb)
    simpa using hleads

theorem IsName.blanks {key : String} (h : IsName text key) (hb : IsBlanks b) :
    IsName (text ++ b) key := by
  obtain ⟨hfront, h, hback⟩ := h
  have hname := IsName.padded hfront h (hback.append hb)
  simpa using hname

theorem Reads.blanks (h : Reads L s p) (hb : IsBlanks b) : Reads L s (p ++ b) := by
  cases h with
  | value hp => exact .value (hp.blanks hb)
  | element hp => exact .element (hp.blanks hb)
  | closed hp h =>
    have hread := Reads.closed hp (.padded .nil h hb)
    simpa using hread
  | name hp hk hnames h hb' hstart =>
    have hread := Reads.name hp hk hnames h (hb'.append hb) hstart
    simpa using hread
  | colon hp hk hnames h hname =>
    have hread := Reads.colon hp hk hnames h (hname.blanks hb)
    simpa using hread

theorem value_scalar (pos : Nat) (frames : List Frame) (h : t.scalar? = some v) :
    State.value pos frames t = .ok (State.close v frames) := by
  cases t with
  | str | int | float | null | bool =>
    cases h
    rfl
  | mark | broken | long | junk => cases h

theorem enter_reads {object : Bool} (hp : Leads limits frames p)
    (h : State.enter object frames = .ok s') : Reads limits s' (p ++ [opening object]) := by
  unfold State.enter at h
  split at h
  next => cases h
  next hk =>
    have hk : frames.length < limits.depth := Nat.lt_of_not_le hk
    cases object with
    | false =>
      cases h
      have hnone : ∀ x ∈ ([] : List Item), Spells limits (frames.length + 1) x.text x.value := by
        simp
      exact .element (.element hp hk hnone .nil)
    | true =>
      cases h
      have hnone : ∀ m ∈ ([] : List Member), IsName m.name m.key := by simp
      exact .name hp hk hnone (by simp) .nil fun _ => rfl

theorem enter_error {object : Bool} {r : Refusal} (h : State.enter object frames = .error r) :
    r = .deep object ∧ limits.depth ≤ frames.length := by
  unfold State.enter at h
  split at h
  next hdepth =>
    cases h
    exact ⟨rfl, hdepth⟩
  next => split at h <;> cases h

theorem value_mark (pos : Nat) (frames : List Frame) (c : Char) :
    State.value pos frames (.mark c) = (if c = '[' then State.enter false frames
      else if c = '\x7b' then State.enter true frames
      else .error (.fault .expectedValue pos)) := by
  unfold State.value
  split <;> simp_all

theorem value_reads (hp : Leads limits frames p) (hcut : Cut text t rest)
    (h : State.value pos frames t = .ok s') : Reads limits s' (p ++ text) := by
  cases hcut with
  | scalar hlexeme ht =>
    rw [value_scalar pos frames ht] at h
    cases h
    exact .closed hp (.lexeme hlexeme)
  | mark =>
    rw [value_mark] at h
    split_ifs at h with harray hobject
    · subst harray
      exact enter_reads hp h
    · subst hobject
      exact enter_reads hp h
  | long | broken | junk => cases h

theorem value_refusal (hp : Leads limits frames p) (hcut : Cut text t rest) {r : Refusal}
    (h : State.value pos frames t = .error r) : Explains (p ++ (text ++ rest)) (.error r) := by
  cases hcut with
  | scalar hlexeme ht =>
    rw [value_scalar pos frames ht] at h
    cases h
  | mark =>
    rw [value_mark] at h
    split_ifs at h with harray hobject
    · obtain ⟨rfl, hdepth⟩ := enter_error h
      subst harray
      exact ⟨frames, p, rest, hp, hdepth, rfl⟩
    · obtain ⟨rfl, hdepth⟩ := enter_error h
      subst hobject
      exact ⟨frames, p, rest, hp, hdepth, rfl⟩
    · cases h
      trivial
  | @long sign ds _ hsign hwhole hlong hrest =>
    cases h
    exact ⟨frames, p, sign, ds, rest, hp, hsign, hwhole, rfl, hlong, hrest, rfl⟩
  | broken | junk =>
    cases h
    trivial

theorem lexeme_string {s : String} {limit : Nat} (h : Lexeme limit text (.str s)) :
    IsString text s := by
  cases h with
  | constant h => simp [constants] at h
  | string h => exact h
  | number h => cases h
  | negative h => cases h

theorem Cut.mark_text {c : Char} (h : Cut text (.mark c) rest) : text = [c] := by
  cases h with
  | mark => rfl
  | scalar _ ht => cases ht

theorem Cut.string_text {key : String} (h : Cut text (.str key) rest) : IsString text key := by
  cases h with
  | scalar h ht =>
    cases ht
    exact lexeme_string h

theorem step_element (pos : Nat) (items : List Json) (frames : List Frame) (h : t ≠ .mark ']') :
    State.step pos ⟨.array items :: frames, .element⟩ t =
      State.value pos (.array items :: frames) t := by
  unfold State.step
  split <;> simp_all

theorem step_array (pos : Nat) (items : List Json) (frames : List Frame) (h : t ≠ .mark ']')
    (h' : t ≠ .mark ',') : State.step pos ⟨.array items :: frames, .continuation⟩ t =
      .error (.fault .expectedComma pos) := by
  unfold State.step
  split <;> simp_all

theorem step_object (pos : Nat) (members : Members) (key : String) (frames : List Frame)
    (h : t ≠ .mark '\x7d') (h' : t ≠ .mark ',') :
    State.step pos ⟨.object members key :: frames, .continuation⟩ t =
      .error (.fault .expectedComma pos) := by
  unfold State.step
  split <;> simp_all

section Next

variable {k : Nat} {items : List Item} {members : List Member} {name : List Char} {key : String}

theorem next_item (h : ∀ x ∈ items, Spells L k x.text x.value) (hb : IsBlanks b)
    (hv : Spells L k text v) :
    ∀ x ∈ items ++ [⟨b ++ text, v⟩], Spells L k x.text x.value := by
  have hlast := Spells.padded hb hv .nil
  rw [List.append_nil] at hlast
  simp only [List.mem_append, List.mem_singleton]
  rintro x (hx | rfl)
  · exact h x hx
  · exact hlast

theorem next_member (h : ∀ m ∈ members, Spells L k m.text m.value) (hb : IsBlanks b)
    (hv : Spells L k text v) :
    ∀ m ∈ members ++ [⟨⟨b ++ text, v⟩, name, key⟩], Spells L k m.text m.value := by
  have hlast := Spells.padded hb hv .nil
  rw [List.append_nil] at hlast
  simp only [List.mem_append, List.mem_singleton]
  rintro m (hm | rfl)
  · exact h m hm
  · exact hlast

theorem next_name (h : ∀ m ∈ members, IsName m.name m.key) (hname : IsName name key) (x : Item) :
    ∀ m ∈ members ++ [⟨x, name, key⟩], IsName m.name m.key := by
  simp only [List.mem_append, List.mem_singleton]
  rintro m (hm | rfl)
  · exact h m hm
  · exact hname

theorem spells_array (hk : k < L.depth) (h : ∀ x ∈ items, Spells L (k + 1) x.text x.value)
    (hb : IsBlanks b) (hv : Spells L (k + 1) text v) :
    Spells L k ('[' :: (front (items.map Item.text) ++ b ++ text ++ [']']))
      (.arr (v :: (items.map Item.value).reverse).reverse) := by
  have harray := Spells.array hk (by simp) (next_item h hb hv)
  rw [intercalate_map_append] at harray
  simpa using harray

theorem spells_object (hk : k < L.depth) (hnames : ∀ m ∈ members, IsName m.name m.key)
    (h : ∀ m ∈ members, Spells L (k + 1) m.text m.value) (hname : IsName name key)
    (hb : IsBlanks b) (hv : Spells L (k + 1) text v) :
    Spells L k ('\x7b' :: (front (members.map Member.written) ++ (name ++ ':' :: b) ++ text ++
      ['\x7d'])) (.obj (collect ((key, v) :: (members.map Member.entry).reverse).reverse)) := by
  have hobject := Spells.object hk (by simp) (next_name hnames hname ⟨b ++ text, v⟩)
    (next_member h hb hv)
  rw [intercalate_map_append] at hobject
  simpa [Member.written, Member.entry] using hobject

end Next

theorem closed_array {items : List Json} (hp : Leads limits (.array items :: frames) p)
    (hv : Spells limits (frames.length + 1) text v) {cut : List Char} (hcut : Cut cut t rest)
    (h : State.step pos ⟨.array (v :: items) :: frames, .continuation⟩ t = .ok s') :
    Reads limits s' (p ++ text ++ cut) := by
  cases hp with
  | @element _ p b items hp hk hitems hb =>
    by_cases hend : t = .mark ']'
    · subst hend
      cases h
      rw [hcut.mark_text]
      have hclosed := Reads.closed hp (spells_array hk hitems hb hv)
      simpa using hclosed
    · by_cases hcomma : t = .mark ','
      · subst hcomma
        cases h
        rw [hcut.mark_text]
        have hnext := Reads.value (.element hp hk (next_item hitems hb hv) .nil)
        rw [front_map_append] at hnext
        simpa using hnext
      · rw [step_array pos _ _ hend hcomma] at h
        cases h

theorem closed_object {members : Members} {key : String}
    (hp : Leads limits (.object members key :: frames) p)
    (hv : Spells limits (frames.length + 1) text v) {cut : List Char} (hcut : Cut cut t rest)
    (h : State.step pos ⟨.object ((key, v) :: members) key :: frames, .continuation⟩ t = .ok s') :
    Reads limits s' (p ++ text ++ cut) := by
  cases hp with
  | @member _ p name b key members hp hk hnames hmembers hname hb =>
    by_cases hend : t = .mark '\x7d'
    · subst hend
      cases h
      rw [hcut.mark_text]
      have hclosed := Reads.closed hp (spells_object hk hnames hmembers hname hb hv)
      simpa using hclosed
    · by_cases hcomma : t = .mark ','
      · subst hcomma
        cases h
        rw [hcut.mark_text]
        have hnext := Reads.name hp hk (next_name hnames hname ⟨b ++ text, v⟩)
          (next_member hmembers hb hv) .nil (fun h : false = true => Bool.noConfusion h)
        rw [front_map_append] at hnext
        simpa [Member.written, Member.entry] using hnext
      · rw [step_object pos _ _ _ hend hcomma] at h
        cases h

theorem closed_reads (hp : Leads limits frames p) (hv : Spells limits frames.length text v)
    {cut : List Char} (hcut : Cut cut t rest) (h : (State.close v frames).step pos t = .ok s') :
    Reads limits s' (p ++ text ++ cut) := by
  cases frames with
  | nil => cases h
  | cons frame frames =>
    cases frame with
    | array items => exact closed_array hp hv hcut h
    | object members key => exact closed_object hp hv hcut h

theorem Leads.array_start (h : Leads L (.array [] :: frames) p) : ∃ q b, Leads L frames q ∧
    frames.length < L.depth ∧ IsBlanks b ∧ p = q ++ '[' :: b := by
  generalize hitems : ([] : List Json) = items at h
  cases h with
  | @element _ q b items hq hk _ hb =>
    obtain rfl : items = [] := by simpa using hitems.symm
    exact ⟨q, b, hq, hk, hb, rfl⟩

theorem element_reads (hp : Leads limits (.array [] :: frames) p) (hcut : Cut text t rest)
    (h : State.step pos ⟨.array [] :: frames, .element⟩ t = .ok s') :
    Reads limits s' (p ++ text) := by
  by_cases hend : t = .mark ']'
  · subst hend
    cases h
    rw [hcut.mark_text]
    obtain ⟨q, b, hq, hk, hb, rfl⟩ := hp.array_start
    have hclosed := Reads.closed hq (.emptyArray hk hb)
    simpa using hclosed
  · rw [step_element pos _ _ hend] at h
    exact value_reads hp hcut h

theorem name_cases {ms : Members} {atStart : Bool}
    (h : State.step pos ⟨frames, .name ms atStart⟩ t = .ok s') :
    (∃ key, t = .str key ∧ s' = ⟨frames, .colon ms key⟩) ∨
      t = .mark '\x7d' ∧ atStart = true ∧ s' = State.close (.obj []) frames := by
  unfold State.step at h
  split at h <;> simp_all

theorem colon_cases {ms : Members} {key : String}
    (h : State.step pos ⟨frames, .colon ms key⟩ t = .ok s') :
    t = .mark ':' ∧ s' = ⟨.object ms key :: frames, .value⟩ := by
  unfold State.step at h
  split at h <;> simp_all

theorem step_reads (hs : Reads limits s p) (hcut : Cut text t rest)
    (h : s.step pos t = .ok s') : Reads limits s' (p ++ text) := by
  cases hs with
  | value hp => exact value_reads hp hcut h
  | element hp => exact element_reads hp hcut h
  | closed hp hv => exact closed_reads hp hv hcut h
  | @name _ p b members atStart hp hk hnames hmembers hb hstart =>
    obtain ⟨key, rfl, rfl⟩ | ⟨rfl, hempty, rfl⟩ := name_cases h
    · have hcolon := Reads.colon hp hk hnames hmembers (.padded hb hcut.string_text .nil)
      simpa using hcolon
    · rw [hcut.mark_text, hstart hempty]
      have hclosed := Reads.closed hp (.emptyObject hk hb)
      simpa [front] using hclosed
  | colon hp hk hnames hmembers hname =>
    obtain ⟨rfl, rfl⟩ := colon_cases h
    rw [hcut.mark_text]
    have hvalue := Reads.value (.member hp hk hnames hmembers hname .nil)
    simpa using hvalue

theorem step_fault {r : Refusal} (hvalue : s.expected ≠ .value) (helement : s.expected ≠ .element)
    (h : s.step pos t = .error r) : ∃ fault index, r = .fault fault index := by
  unfold State.step at h
  split at h <;> first | (cases h; exact ⟨_, _, rfl⟩) | simp_all

theorem step_refusal (hs : Reads limits s p) (hcut : Cut text t rest) {r : Refusal}
    (h : s.step pos t = .error r) : Explains (p ++ (text ++ rest)) (.error r) := by
  have hfault (hvalue : s.expected ≠ .value) (helement : s.expected ≠ .element) :
      Explains (p ++ (text ++ rest)) (.error r) := by
    obtain ⟨_, _, rfl⟩ := step_fault hvalue helement h
    trivial
  cases hs with
  | value hp => exact value_refusal hp hcut h
  | element hp =>
    by_cases hend : t = .mark ']'
    · subst hend
      cases h
    · rw [step_element pos _ _ hend] at h
      exact value_refusal hp hcut h
  | @closed frames _ _ v =>
    cases frames with
    | nil => exact hfault (by simp [State.close]) (by simp [State.close])
    | cons frame => cases frame <;> exact hfault (by simp [State.close]) (by simp [State.close])
  | name => exact hfault (by simp) (by simp)
  | colon => exact hfault (by simp) (by simp)

theorem finish_explains (hs : Reads limits s p) (size : Nat) :
    Explains p (s.finish.mapError (.fault · size)) := by
  cases hs with
  | @closed frames _ _ v hp hv =>
    cases frames with
    | nil =>
      cases hp with
      | start hb =>
        have hspells := Spells.padded hb hv .nil
        rw [List.append_nil] at hspells
        exact hspells
    | cons frame => cases frame <;> trivial
  | value | element | name | colon => trivial

theorem run_explains (hs : Reads limits s p) (size pos : Nat) (cs : List Char) :
    Explains (p ++ cs) (s.run size (tokensFrom pos cs)) := by
  fun_induction tokensFrom pos cs generalizing s p
  case case1 =>
    rw [List.append_nil]
    exact finish_explains hs size
  case case2 pos c cs hc ih =>
    have hread := ih (hs.blanks (.singleton hc))
    rwa [List.append_assoc] at hread
  case case3 pos c cs hc t w hfirst ih =>
    obtain ⟨text, rest, hcs, hw, hcut⟩ := first_sound hfirst
    have hdrop : cs.drop w = rest := by
      have htail := congrArg (List.drop (w + 1)) hcs
      rwa [List.drop_succ_cons, ← hw, List.drop_left] at htail
    rw [State.run]
    cases hstep : s.step pos t with
    | error r =>
      rw [hcs]
      exact step_refusal hs hcut hstep
    | ok s' =>
      have hread := ih (step_reads hs hcut hstep)
      rwa [hdrop, List.append_assoc, ← hcs, ← hdrop] at hread

theorem parse_explains (text : List Char) : Explains text (parse text) := by
  unfold parse
  split
  next => trivial
  next => exact run_explains (.value (.start .nil)) text.length 0 text

end SolidityTables.Json

import SolidityTables.Load
import SolidityTables.Proofs.Attempt
import SolidityTables.Proofs.Decoding
import SolidityTables.Proofs.Json.Completeness

/-!
# The outcome of loading

What comes of a file that can be read is told by its bytes alone: by the text that they encode, if
they do, and by what that text denotes. The file is loaded or refused with an error of the
configuration just if its bytes encode a text in which no number is too long and nothing too deep.
-/

namespace SolidityTables

open Attempt Json

/-- The text of a file: its characters, where every line ends in a line feed. -/
def FileText (bytes : List UInt8) (text : List Char) : Prop :=
  ∃ s, Utf8.encode s = bytes ∧ Newline.normalize s.toList = text

def Manageable (bytes : List UInt8) : Prop :=
  ∃ text, FileText bytes text ∧ (∀ n, ¬Overlong text n) ∧ ∀ object, ¬Overdeep text object

variable {l : Location} {bytes : List UInt8} {text : List Char} {d : Disk}

theorem membersOfBytes_of_text (h : FileText bytes text) :
    membersOfBytes l bytes = membersOfText l text := by
  obtain ⟨s, hs, rfl⟩ := h
  rw [membersOfBytes, Utf8.decode_eq_ok_iff.mpr hs]
  rfl

theorem membersOfBytes_of_fault {f : Utf8.Fault} (h : Utf8.decode bytes = .error f) :
    membersOfBytes l bytes = .error (.undecodable f) := by
  rw [membersOfBytes, h]
  rfl

theorem fileText_or_fault (bytes : List UInt8) :
    (∃ text, FileText bytes text) ∨ ∃ f, Utf8.decode bytes = .error f := by
  cases h : Utf8.decode bytes with
  | ok cs =>
    rw [← String.toList_ofList (l := cs)] at h
    exact .inl ⟨_, _, Utf8.decode_eq_ok_iff.mp h, rfl⟩
  | error f => exact .inr ⟨f, rfl⟩

theorem FileText.decode (h : FileText bytes text) (f : Utf8.Fault) :
    Utf8.decode bytes ≠ .error f := by
  obtain ⟨s, hs, -⟩ := h
  simp [Utf8.decode_eq_ok_iff.mpr hs]

theorem FileText.unique {text' : List Char} (h : FileText bytes text) (h' : FileText bytes text') :
    text = text' := by
  obtain ⟨s, hs, rfl⟩ := h
  obtain ⟨s', hs', rfl⟩ := h'
  have hdecode := Utf8.decode_eq_ok_iff.mpr hs'
  rw [Utf8.decode_eq_ok_iff.mpr hs] at hdecode
  rw [Except.ok.inj hdecode]

theorem FileText.exists_iff {P : List Char → Prop} (h : FileText bytes text) :
    (∃ text', FileText bytes text' ∧ P text') ↔ P text := by
  constructor
  · intro hexists
    obtain ⟨text', htext, hP⟩ := hexists
    rwa [h.unique htext]
  · exact fun hP => ⟨text, h, hP⟩

section Text

variable (l) (text)

theorem membersOfText_eq_ok {ms : Members} :
    membersOfText l text = .ok ms ↔ Spells limits 0 text (.obj ms) := by
  rw [← parse_eq_ok_iff]
  unfold membersOfText
  split <;> simp_all

theorem membersOfText_settled :
    ((∃ ms, membersOfText l text = .ok ms) ∨ ∃ e, membersOfText l text = .error (.config e)) ↔
      (∀ n, ¬Overlong text n) ∧ ∀ object, ¬Overdeep text object := by
  simp only [← parse_eq_long_iff, ← parse_eq_deep_iff]
  unfold membersOfText
  split <;> simp_all

theorem membersOfText_notObject : membersOfText l text = .error (.config (.notObject l.text)) ↔
    ∃ j, Spells limits 0 text j ∧ ∀ ms, j ≠ .obj ms := by
  simp only [← parse_eq_ok_iff]
  unfold membersOfText
  split <;> simp_all

theorem membersOfText_notJson :
    (∃ fault place, membersOfText l text = .error (.config (.notJson l.text fault place))) ↔
      (∀ L j, ¬Spells L 0 text j) ∧ (∀ n, ¬Overlong text n) ∧
        ∀ object, ¬Overdeep text object := by
  rw [← parse_eq_fault_iff]
  unfold membersOfText
  split <;> simp_all

theorem membersOfText_long (n : Nat) :
    membersOfText l text = .error (.longNumber n) ↔ Overlong text n := by
  rw [← parse_eq_long_iff]
  unfold membersOfText
  split <;> simp_all

theorem membersOfText_deep (object : Bool) :
    membersOfText l text = .error (.deepNesting object) ↔ Overdeep text object := by
  rw [← parse_eq_deep_iff]
  unfold membersOfText
  split <;> simp_all

theorem membersOfText_decoded (f : Utf8.Fault) :
    membersOfText l text ≠ .error (.undecodable f) := by
  unfold membersOfText
  split <;> simp

end Text

theorem Disk.loadConfig_of_read (h : d.readFile l = .ok bytes) :
    d.loadConfig l = membersOfBytes l bytes := by
  rw [Disk.loadConfig, h]
  rfl

/-- The outcome of loading a file by its bytes: an error that is not one of the configuration is
given just if they are no text, or if the text exceeds a limit. -/
theorem Disk.loadConfig_outcome (h : d.readFile l = .ok bytes) :
    (((∃ ms, d.loadConfig l = .ok ms) ∨ ∃ e, d.loadConfig l = .error (.config e)) ↔
      Manageable bytes) ∧
    (∀ ms, d.loadConfig l = .ok ms ↔
      ∃ text, FileText bytes text ∧ Spells limits 0 text (.obj ms)) ∧
    (d.loadConfig l = .error (.config (.notObject l.text)) ↔
      ∃ text, FileText bytes text ∧ ∃ j, Spells limits 0 text j ∧ ∀ ms, j ≠ .obj ms) ∧
    ((∃ fault place, d.loadConfig l = .error (.config (.notJson l.text fault place))) ↔
      ∃ text, FileText bytes text ∧ (∀ L j, ¬Spells L 0 text j) ∧ (∀ n, ¬Overlong text n) ∧
        ∀ object, ¬Overdeep text object) ∧
    ((∃ f, d.loadConfig l = .error (.undecodable f)) ↔ ¬∃ text, FileText bytes text) ∧
    (∀ n, d.loadConfig l = .error (.longNumber n) ↔
      ∃ text, FileText bytes text ∧ Overlong text n) ∧
    ∀ object, d.loadConfig l = .error (.deepNesting object) ↔
      ∃ text, FileText bytes text ∧ Overdeep text object := by
  rw [Disk.loadConfig_of_read h]
  rcases fileText_or_fault bytes with ⟨text, htext⟩ | ⟨f, hf⟩
  · simp only [membersOfBytes_of_text htext, Manageable, htext.exists_iff]
    refine ⟨membersOfText_settled l text, fun ms => membersOfText_eq_ok l text,
      membersOfText_notObject l text, membersOfText_notJson l text, ?_, membersOfText_long l text,
      membersOfText_deep l text⟩
    simpa [membersOfText_decoded] using ⟨text, htext⟩
  · have hnone (text : List Char) : ¬FileText bytes text := fun htext => htext.decode f hf
    simp [membersOfBytes_of_fault hf, Manageable, hnone]

def project (bytes : List UInt8) : Disk :=
  ⟨["work"], [(["work"], .directory), (["work", "mud.config.json"], .file bytes)]⟩

theorem project_read (bytes : List UInt8) :
    (project bytes).readFile defaultConfig = .ok bytes := rfl

def namespaceText : String := "\x7b\"namespace\": \"app\"\x7d"

def namespaceMember : Member where
  text := [' '] ++ '"' :: ("app".toList ++ ['"']) ++ []
  value := .str "app"
  name := [] ++ '"' :: ("namespace".toList ++ ['"']) ++ []
  key := "namespace"

theorem namespaceText_spells :
    Spells limits 0 namespaceText.toList (.obj [("namespace", .str "app")]) := by
  have hname : IsName namespaceMember.name namespaceMember.key :=
    .padded .nil (isString_plain (by simp)) .nil
  have hvalue : Spells limits 1 namespaceMember.text namespaceMember.value :=
    .padded (.singleton rfl) (.lexeme (.string (isString_plain (by simp)))) .nil
  have hnames : ∀ m ∈ [namespaceMember], IsName m.name m.key := by simpa using hname
  have hdepth : 0 < limits.depth := by decide
  have hobject := Spells.object hdepth (by simp) hnames (by simpa using hvalue)
  simpa [namespaceText, namespaceMember, Member.written, Member.entry, collect, put] using hobject

theorem loadConfig_outcome_namespace :
    (project (Utf8.encode namespaceText)).readFile defaultConfig =
      .ok (Utf8.encode namespaceText) ∧
    (project (Utf8.encode namespaceText)).loadConfig defaultConfig =
      .ok [("namespace", .str "app")] := by
  have hread := project_read (Utf8.encode namespaceText)
  have htext : FileText (Utf8.encode namespaceText) namespaceText.toList := by
    refine ⟨namespaceText, rfl, ?_⟩
    simp [namespaceText, Newline.normalize]
  exact ⟨hread, ((Disk.loadConfig_outcome hread).2.1 _).mpr ⟨_, htext, namespaceText_spells⟩⟩

def latinBytes : List UInt8 :=
  Utf8.encode "\x7b\"namespace\": \"caf" ++ 0xE9 :: Utf8.encode "\"\x7d"

/-- A file that is not UTF-8 is neither loaded nor refused with an error of the configuration. -/
theorem latin_escapes : (project latinBytes).readFile defaultConfig = .ok latinBytes ∧
    (project latinBytes).loadConfig defaultConfig =
      .error (.undecodable ⟨18, [0xE9], .invalidContinuation⟩) ∧
    ¬((∃ ms, (project latinBytes).loadConfig defaultConfig = .ok ms) ∨
      ∃ e, (project latinBytes).loadConfig defaultConfig = .error (.config e)) := by
  have hread := project_read latinBytes
  have hdecode : Utf8.decode latinBytes = .error ⟨18, [0xE9], .invalidContinuation⟩ := by
    decide
  have hload := Disk.loadConfig_of_read hread
  rw [membersOfBytes_of_fault hdecode] at hload
  exact ⟨hread, hload, by simp [hload]⟩

end SolidityTables

import Hazard.Counterexample.File
import Hazard.Proofs.JsonRoundTrip
/-!
# Saved counterexamples are loaded again

The file that a counterexample is saved to is read back without loss. Whether it is loaded is then
a matter of its version alone.
-/

namespace Hazard

open Json (Doc Value Fields natural?_number written)
open Json.Doc (carries_list carries_natural carries_pair carries_text readsAs_natural
  readsAs_record readsAs_text)

theorem Activation.carries_doc (activation : Activation) :
    activation.doc.Carries decode? activation := by
  refine ⟨_, readsAs_text activation.name, ?_⟩
  cases activation <;> rfl

namespace Counterexample

variable {counterexample : Counterexample}

theorem carries_byte (byte : UInt8) : (Doc.natural byte.toNat).Carries byte? byte := by
  have hbyte : byte.toNat ≤ 255 := Nat.le_of_lt_succ byte.toNat_lt
  obtain ⟨found, hfound, hdecode⟩ := carries_natural hbyte
  refine ⟨found, hfound, ?_⟩
  rw [byte?, hdecode, Option.map_some, UInt8.ofNat_toNat]

theorem carries_states (states : List Bytes) :
    (Doc.list (states.map stateDoc)).Carries (Value.list? (Value.list? byte?)) states :=
  carries_list fun _ _ => carries_list fun byte _ => carries_byte byte

theorem carries_activations (entries : List (String × Activation)) :
    (Doc.list (entries.map activationDoc)).Carries
      (Value.list? (Value.pair? Value.text? Activation.decode?)) entries :=
  carries_list fun entry _ => carries_pair (carries_text entry.1) entry.2.carries_doc

theorem fromUTF8?_toUTF8 (text : String) : String.fromUTF8? text.toUTF8 = some text :=
  dif_pos text.isValidUTF8

/-- The fields of a file, where the lists are given as they were read. -/
def fileMembers (counterexample : Counterexample) (faultSet entries states : Value) :
    List (String × Value) :=
  [("version", .number (written counterexample.version)),
    ("formula", .string (some counterexample.formula)),
    ("fault_set", faultSet), ("fault_activations", entries), ("states", states)]

theorem readsAs_doc {faultSet entries states : Value}
    (hfaultSet : (Doc.list (counterexample.faultSet.map .text)).ReadsAs faultSet)
    (hentries : (Doc.list (counterexample.faultActivations.map activationDoc)).ReadsAs entries)
    (hstates : (Doc.list (counterexample.states.map stateDoc)).ReadsAs states) :
    counterexample.doc.ReadsAs
      (.object (Fields.named (counterexample.fileMembers faultSet entries states))) :=
  readsAs_record (.cons ⟨rfl, readsAs_natural _⟩ (.cons ⟨rfl, readsAs_text _⟩
    (.cons ⟨rfl, hfaultSet⟩ (.cons ⟨rfl, hentries⟩ (.cons ⟨rfl, hstates⟩ .nil)))))

/-- The version must fit into 32 bits. -/
theorem decode?_fileMembers {faultSet entries states : Value}
    (hfaultSet : Value.list? Value.text? faultSet = some counterexample.faultSet)
    (hentries : Value.list? (Value.pair? Value.text? Activation.decode?) entries =
      some counterexample.faultActivations)
    (hstates : Value.list? (Value.list? byte?) states = some counterexample.states) :
    decode? (.object (Fields.named (counterexample.fileMembers faultSet entries states))) =
      if counterexample.version < UInt32.size then some counterexample else none := by
  have hfields : Fields.of? ["version", "formula", "fault_set", "fault_activations", "states"]
      (.object (Fields.named (counterexample.fileMembers faultSet entries states))) =
      some ⟨[some (.number (written counterexample.version)),
        some (.string (some counterexample.formula)), some faultSet, some entries, some states],
        false⟩ :=
    Fields.of?_named (counterexample.fileMembers faultSet entries states)
      (show ["version", "formula", "fault_set", "fault_activations", "states"].Nodup by decide)
  have hversion : Value.natural? (UInt32.size - 1) (.number (written counterexample.version)) =
      if counterexample.version < UInt32.size then some counterexample.version else none := by
    rw [natural?_number]
    exact if_congr (Nat.le_sub_one_iff_lt (by decide)) rfl rfl
  unfold decode?
  rw [hfields]
  generalize UInt32.size - 1 = limit at hversion ⊢
  split
  · next hfits =>
    rw [if_pos hfits] at hversion
    simp [Fields.required?, Fields.get, Value.text?, hversion, hfaultSet, hentries, hstates]
  · next hlarge =>
    rw [if_neg hlarge] at hversion
    simp [Fields.required?, Fields.get, hversion]

/-- A saved counterexample is loaded as it was. Where its version is not the current one the load
fails with that version, provided that it is one: a version has 32 bits. -/
theorem loadFile_fileText (counterexample : Counterexample) :
    loadFile (some counterexample.fileText.toUTF8) =
      if counterexample.version = currentVersion then .ok counterexample
      else if counterexample.version < UInt32.size then .error (.version counterexample.version)
      else .error .malformed := by
  obtain ⟨faultSet, hfaultSet, hnames⟩ :=
    carries_list fun name (_ : name ∈ counterexample.faultSet) => carries_text name
  obtain ⟨entries, hentries, hactivations⟩ := carries_activations counterexample.faultActivations
  obtain ⟨states, hstates, hbytes⟩ := carries_states counterexample.states
  have hparse := Doc.parse?_indented (readsAs_doc hfaultSet hentries hstates)
  have hdecode := decode?_fileMembers hnames hactivations hbytes
  have hload : loadFile (some counterexample.fileText.toUTF8) = load counterexample.fileText := by
    rw [loadFile, Option.bind_some, fromUTF8?_toUTF8]
  rw [hload, load, fileText, hparse, Option.bind_some, hdecode]
  by_cases hfits : counterexample.version < UInt32.size
  · rw [if_pos hfits, if_pos hfits]
  · have hother : counterexample.version ≠ currentVersion := by
      intro hcurrent
      rw [hcurrent] at hfits
      exact hfits (by decide)
    rw [if_neg hfits, if_neg hother, if_neg hfits]

end Counterexample

end Hazard

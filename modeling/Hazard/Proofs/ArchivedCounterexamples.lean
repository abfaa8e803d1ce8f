import Mathlib.Data.List.Pairwise
import Hazard.Analysis.Archive
import Hazard.Proofs.FaultNames
/-!
# One file for each counterexample

The counterexamples of an analysis are written one after the other, and a file that is written twice
keeps what was written last. So all of them are kept if their sets have different file names. A file
name does not always tell the set: the names in it are joined by a character that may occur in them,
and the name for a set without faults may be that of a fault.
-/

namespace Hazard

/-! ## Files written one after the other -/

namespace Folder

variable {folder : Folder}

/-- What is left of files that are written in turn: of each name the last. -/
def lasting (files : List (String × String)) : List (String × String) :=
  files.pwFilter fun earlier later => earlier.1 ≠ later.1

def put (folder : Folder) (file : String × String) : Folder :=
  { folder with files := folder.files.filter (·.1 != file.1) ++ [file] }

theorem lasting_cons_of_mem {file : String × String} {files : List (String × String)}
    (h : file.1 ∈ files.map Prod.fst) : lasting (file :: files) = lasting files := by
  obtain ⟨later, hlater, hname⟩ := List.mem_map.1 h
  apply List.pwFilter_cons_of_neg
  intro hall
  rw [List.forall_mem_pwFilter (by grind)] at hall
  exact hall later hlater hname.symm

theorem lasting_cons_of_not_mem {file : String × String} {files : List (String × String)}
    (h : file.1 ∉ files.map Prod.fst) : lasting (file :: files) = file :: lasting files := by
  apply List.pwFilter_cons_of_pos
  intro later hlater hname
  exact h (List.mem_map.2 ⟨later, (List.pwFilter_sublist files).subset hlater, hname.symm⟩)

theorem length_lasting {files : List (String × String)} :
    (lasting files).length = files.length ↔ (files.map Prod.fst).Nodup := by
  have hsublist : (lasting files).Sublist files := List.pwFilter_sublist files
  rw [hsublist.length_eq, lasting, List.pwFilter_eq_self, List.Nodup, List.pairwise_map]

theorem lasting_eq_self {files : List (String × String)} (h : (files.map Prod.fst).Nodup) :
    lasting files = files :=
  List.pwFilter_eq_self.2 (List.pairwise_map.1 h)

theorem files_foldl_put (files : List (String × String)) :
    (files.foldl put folder).files =
      folder.files.filter (fun file => decide (file.1 ∉ files.map Prod.fst)) ++ lasting files := by
  induction files generalizing folder with
  | nil => simp [lasting]
  | cons file rest ih =>
      have hkept : (folder.files.filter (·.1 != file.1)).filter
            (fun other => decide (other.1 ∉ rest.map Prod.fst)) =
          folder.files.filter fun other => decide (other.1 ∉ (file :: rest).map Prod.fst) := by
        rw [List.filter_filter]
        apply List.filter_congr
        intro other _
        rw [Bool.eq_iff_iff]
        simp [and_comm]
      rw [List.foldl_cons, ih, put, List.filter_append, hkept, List.append_assoc]
      by_cases hlater : file.1 ∈ rest.map Prod.fst
      · rw [lasting_cons_of_mem hlater, List.filter_cons_of_neg (by simpa using hlater)]
        rfl
      · rw [lasting_cons_of_not_mem hlater, List.filter_cons_of_pos (by simpa using hlater)]
        rfl

theorem folders_foldl_put (files : List (String × String)) :
    (files.foldl put folder).folders = folder.folders := by
  induction files generalizing folder with
  | nil => rfl
  | cons file rest ih => rw [List.foldl_cons, ih, put]

theorem admits_iff {accepts : String → Bool} {name : String} (h : '/' ∉ name.toList) :
    folder.admits accepts name = true ↔ accepts name = true ∧ name ∉ folder.folders := by
  simp [admits, h]

/-- Files are written as long as their names are admitted, which the files do not change. -/
theorem foldlM_write {β : Type} (accepts : String → Bool) (name text : β → String)
    (entries : List β) :
    entries.foldlM
        (fun (folder : Folder) entry => folder.write accepts (name entry) (text entry)) folder =
      if ∀ entry ∈ entries, folder.admits accepts (name entry) then
        some ((entries.map fun entry => (name entry, text entry)).foldl put folder)
      else none := by
  induction entries generalizing folder with
  | nil => simp
  | cons entry rest ih =>
      rw [List.foldlM_cons, write]
      by_cases hadmits : folder.admits accepts (name entry)
      · rw [if_pos hadmits]
        refine ih.trans (if_congr ?_ rfl rfl)
        rw [List.forall_mem_cons]
        exact ⟨fun hrest => ⟨hadmits, hrest⟩, fun hall => hall.2⟩
      · rw [if_neg hadmits, if_neg fun hall => hadmits (hall entry List.mem_cons_self)]
        rfl

end Folder

def Destination.cleared : Destination → Option Folder
  | .absent => some {}
  | .folder content => some { content with files := [] }
  | .file => none

theorem Destination.files_cleared {destination : Destination} {folder : Folder}
    (h : destination.cleared = some folder) : folder.files = [] := by
  cases destination with
  | absent => cases h; rfl
  | folder content => cases h; rfl
  | file => cases h

/-! ## Joined names -/

theorem joined_eq_empty {names : List String} (hnamed : ∀ name ∈ names, name ≠ "") :
    "_".intercalate names = "" ↔ names = [] := by
  cases names with
  | nil => simp
  | cons name rest =>
      have hname : name ≠ "" := hnamed name List.mem_cons_self
      cases rest with
      | nil => simpa using hname
      | cons next rest => simp

theorem joined_eq_emptyset {names : List String} :
    "_".intercalate names = "emptyset" ↔ names = ["emptyset"] := by
  cases names with
  | nil => simp
  | cons name rest =>
      cases rest with
      | nil => simp
      | cons next rest =>
          have hseparator : '_' ∈ ("_".intercalate (name :: next :: rest)).toList := by simp
          constructor
          · intro h
            rw [h] at hseparator
            exact absurd hseparator (by decide)
          · intro h
            cases h

theorem slash_not_mem_joined {names : List String} (h : ∀ name ∈ names, '/' ∉ name.toList) :
    '/' ∉ ("_".intercalate names).toList := by
  induction names with
  | nil => simp
  | cons name rest ih =>
      obtain ⟨hname, hrest⟩ := List.forall_mem_cons.1 h
      cases rest with
      | nil => simpa using hname
      | cons next rest => simpa [hname] using ih hrest

theorem split_joined {names : List String} (hsome : names ≠ [])
    (hplain : ∀ name ∈ names, '_' ∉ name.toList) :
    ("_".intercalate names).toList.splitOn '_' = names.map String.toList := by
  rw [String.toList_intercalate]
  exact List.splitOn_intercalate '_' (by simpa using hplain) (by simpa using hsome)

theorem eq_of_joined_eq {left right : List String}
    (hleft : ∀ name ∈ left, name ≠ "") (hright : ∀ name ∈ right, name ≠ "")
    (hplainLeft : ∀ name ∈ left, '_' ∉ name.toList)
    (hplainRight : ∀ name ∈ right, '_' ∉ name.toList)
    (h : "_".intercalate left = "_".intercalate right) : left = right := by
  have hiff : left = [] ↔ right = [] := by
    rw [← joined_eq_empty hleft, h, joined_eq_empty hright]
  by_cases hnone : left = []
  · rw [hnone, hiff.1 hnone]
  · have hmaps : left.map String.toList = right.map String.toList := by
      rw [← split_joined hnone hplainLeft, h, split_joined (hiff.not.1 hnone) hplainRight]
    exact List.map_injective_iff.2 (fun _ _ => String.toList_injective) hmaps

/-- The names of two sets that share a file: they read the same when joined, or there are none on
one side and only the reserved one on the other. -/
def NamedAlike (left right : List String) : Prop :=
  "_".intercalate left = "_".intercalate right ∨
    (left = [] ∧ right = ["emptyset"]) ∨ (left = ["emptyset"] ∧ right = [])

instance (left right : List String) : Decidable (NamedAlike left right) :=
  inferInstanceAs (Decidable (_ ∨ _))

theorem namedAlike_iff {left right : List String} (hleft : ∀ name ∈ left, name ≠ "")
    (hright : ∀ name ∈ right, name ≠ "") :
    NamedAlike left right ↔ (if left = [] then "emptyset" else "_".intercalate left) =
      if right = [] then "emptyset" else "_".intercalate right := by
  rw [NamedAlike]
  rcases eq_or_ne left [] with rfl | hsome
  · rcases eq_or_ne right [] with rfl | hother
    · simp
    · have hjoined : "_".intercalate right ≠ "" := (joined_eq_empty hright).not.2 hother
      rw [if_pos rfl, if_neg hother, eq_comm (a := "emptyset"), joined_eq_emptyset]
      simp [hother, hjoined.symm]
  · rcases eq_or_ne right [] with rfl | hother
    · have hjoined : "_".intercalate left ≠ "" := (joined_eq_empty hleft).not.2 hsome
      rw [if_neg hsome, if_pos rfl, joined_eq_emptyset]
      simp [hsome, hjoined]
    · rw [if_neg hsome, if_neg hother]
      simp [hsome, hother]

/-- Names that read alike are the same if none has the separator in it or is the reserved one. -/
theorem NamedAlike.eq {left right : List String} (h : NamedAlike left right)
    (hleft : ∀ name ∈ left, name ≠ "") (hright : ∀ name ∈ right, name ≠ "")
    (hplainLeft : ∀ name ∈ left, '_' ∉ name.toList ∧ name ≠ "emptyset")
    (hplainRight : ∀ name ∈ right, '_' ∉ name.toList ∧ name ≠ "emptyset") : left = right := by
  rcases h with h | ⟨-, rfl⟩ | ⟨rfl, -⟩
  · exact eq_of_joined_eq hleft hright (fun name hname => (hplainLeft name hname).1)
      (fun name hname => (hplainRight name hname).1) h
  · exact absurd rfl (hplainRight "emptyset" List.mem_cons_self).2
  · exact absurd rfl (hplainLeft "emptyset" List.mem_cons_self).2

/-! ## The files of an analysis -/

namespace AnalysisResults

variable {α : Type} {results : AnalysisResults α} {left right set : FaultSet}
  {accepts : String → Bool} {destination : Destination} {folder : Folder}

def files (results : AnalysisResults α) : List (String × String) :=
  results.counterexamples.map fun entry => (results.fileName entry.1, entry.2.fileText)

theorem names_files (results : AnalysisResults α) : results.files.map Prod.fst =
    results.counterexamples.map fun entry => results.fileName entry.1 := by
  rw [files, List.map_map]
  rfl

theorem save_eq (accepts : String → Bool) (results : AnalysisResults α)
    (destination : Destination) :
    results.save accepts destination = destination.cleared.bind fun cleared =>
      if ∀ entry ∈ results.counterexamples, cleared.admits accepts (results.fileName entry.1) then
        some (results.files.foldl Folder.put cleared)
      else none := by
  cases destination with
  | absent => exact Folder.foldlM_write _ _ _ _
  | folder content => exact Folder.foldlM_write _ _ _ _
  | file => rfl

theorem slash_not_mem_fileName (hflat : ∀ fault ∈ results.faults, '/' ∉ fault.name.toList)
    (set : FaultSet) : '/' ∉ (results.fileName set).toList := by
  have hnames : ∀ name ∈ results.names set, '/' ∉ name.toList := by
    intro name hname
    obtain ⟨position, fault, -, hfault, rfl⟩ := FaultSet.mem_names.1 hname
    exact hflat fault (List.mem_of_getElem? hfault)
  have hjoined : '/' ∉ ("_".intercalate (results.names set)).toList := slash_not_mem_joined hnames
  rw [fileName]
  generalize "_".intercalate (results.names set) = joined at hjoined ⊢
  split <;> simp [hjoined]

/-- Saving fails only for want of a folder, or where a file name is not accepted or that of a
subfolder. -/
theorem save_isSome_iff (hflat : ∀ fault ∈ results.faults, '/' ∉ fault.name.toList) :
    (results.save accepts destination).isSome ↔
      ∃ cleared, destination.cleared = some cleared ∧
        ∀ entry ∈ results.counterexamples, accepts (results.fileName entry.1) = true ∧
          results.fileName entry.1 ∉ cleared.folders := by
  rw [save_eq]
  simp only [Folder.admits_iff (slash_not_mem_fileName hflat _)]
  cases destination.cleared with
  | none => simp
  | some cleared => simp

theorem eq_of_save (h : results.save accepts destination = some folder) :
    ∃ cleared, destination.cleared = some cleared ∧
      folder = ⟨Folder.lasting results.files, cleared.folders⟩ := by
  rw [save_eq] at h
  obtain ⟨cleared, hcleared, h⟩ := Option.bind_eq_some_iff.1 h
  refine ⟨cleared, hcleared, ?_⟩
  obtain ⟨-, hfolder⟩ := Option.ite_none_right_eq_some.1 h
  obtain rfl := Option.some.inj hfolder
  have hfiles : (results.files.foldl Folder.put cleared).files = Folder.lasting results.files := by
    rw [Folder.files_foldl_put, Destination.files_cleared hcleared]
    rfl
  rw [← hfiles, ← Folder.folders_foldl_put results.files]

theorem names_ne_empty (hnamed : ∀ fault ∈ results.faults, fault.name ≠ "") (set : FaultSet) :
    ∀ name ∈ results.names set, name ≠ "" := by
  intro name hname
  obtain ⟨position, fault, -, hfault, rfl⟩ := FaultSet.mem_names.1 hname
  exact hnamed fault (List.mem_of_getElem? hfault)

theorem fileName_eq_iff (hnamed : ∀ fault ∈ results.faults, fault.name ≠ "") :
    results.fileName left = results.fileName right ↔
      NamedAlike (results.names left) (results.names right) := by
  have hleft := names_ne_empty hnamed left
  have hright := names_ne_empty hnamed right
  rw [namedAlike_iff hleft hright, fileName, fileName, String.append_left_inj]
  simp only [String.isEmpty_iff, joined_eq_empty hleft, joined_eq_empty hright]

/-- Do the counterexamples belong to declared faults whose names neither have the separator in them
nor are reserved? -/
def PlainlyNamed (results : AnalysisResults α) : Prop :=
  ∀ entry ∈ results.counterexamples,
    (∀ position, entry.1.contains position = true → position < results.faults.length) ∧
      ∀ name ∈ results.names entry.1, '_' ∉ name.toList ∧ name ≠ "emptyset"

theorem PlainlyNamed.nodup (h : results.PlainlyNamed)
    (hdistinct : (results.faults.map (·.name)).Nodup)
    (hnamed : ∀ fault ∈ results.faults, fault.name ≠ "")
    (hkeys : (results.counterexamples.map Prod.fst).Nodup) :
    (results.files.map Prod.fst).Nodup := by
  rw [names_files]
  apply List.Nodup.map_on _ hkeys.of_map
  intro left hleft right hright hsame
  obtain ⟨hdeclared, hplain⟩ := h left hleft
  obtain ⟨hdeclaredRight, hplainRight⟩ := h right hright
  have hnames := ((fileName_eq_iff hnamed).1 hsame).eq (names_ne_empty hnamed left.1)
    (names_ne_empty hnamed right.1) hplain hplainRight
  have hsets : left.1 = right.1 := FaultSet.eq_of_names_eq hdistinct hdeclared hdeclaredRight hnames
  exact List.inj_on_of_nodup_map hkeys hleft hright hsets

/-- Let the faults have different names, none of them empty or with a slash in it. Counterexamples
of different sets are saved if there can be a folder, the file system accepts their file names and
none is that of a subfolder. The folder then holds of each file name the counterexample that was
written last. That is a file for each of them exactly if no two sets have names that read alike.
They do not if all faults are declared and no name has the separator in it or is the reserved one.
-/
theorem saved_apart_iff_not_namedAlike (results : AnalysisResults α)
    (hdistinct : (results.faults.map (·.name)).Nodup)
    (hnamed : ∀ fault ∈ results.faults, fault.name ≠ "")
    (hflat : ∀ fault ∈ results.faults, '/' ∉ fault.name.toList)
    (hkeys : (results.counterexamples.map Prod.fst).Nodup) (accepts : String → Bool)
    (destination : Destination) :
    ((results.save accepts destination).isSome ↔
      ∃ cleared, destination.cleared = some cleared ∧
        ∀ entry ∈ results.counterexamples, accepts (results.fileName entry.1) = true ∧
          results.fileName entry.1 ∉ cleared.folders) ∧
    ∀ folder, results.save accepts destination = some folder →
      (∃ cleared, destination.cleared = some cleared ∧
        folder = ⟨Folder.lasting results.files, cleared.folders⟩) ∧
      (folder.files.length = results.counterexamples.length ↔
        results.counterexamples.Pairwise fun entry later =>
          ¬NamedAlike (results.names entry.1) (results.names later.1)) ∧
      (folder.files.length = results.counterexamples.length → folder.files = results.files) ∧
      (results.PlainlyNamed → folder.files = results.files) := by
  refine ⟨save_isSome_iff hflat, fun folder hsave => ?_⟩
  obtain ⟨cleared, hcleared, rfl⟩ := eq_of_save hsave
  have hlength : (Folder.lasting results.files).length = results.counterexamples.length ↔
      (results.files.map Prod.fst).Nodup := by
    rw [← Folder.length_lasting, files, List.length_map]
  have hpairwise : (results.files.map Prod.fst).Nodup ↔
      results.counterexamples.Pairwise fun entry later =>
        ¬NamedAlike (results.names entry.1) (results.names later.1) := by
    simp only [names_files, List.Nodup, List.pairwise_map, ne_eq, fileName_eq_iff hnamed]
  refine ⟨⟨cleared, hcleared, rfl⟩, hlength.trans hpairwise, fun hall => ?_, fun hplain => ?_⟩
  · exact Folder.lasting_eq_self (hlength.1 hall)
  · exact Folder.lasting_eq_self (hplain.nodup hdistinct hnamed hkeys)

def sample (names : List String) (sets : List FaultSet) : AnalysisResults Rat where
  faults := names.map fun name => { name }
  forced := .empty
  suppressed := .empty
  minimal := sets
  checked := sets
  counterexamples := sets.map fun set => (set, ⟨Counterexample.currentVersion, "safe", [], [], []⟩)
  exceptions := []
  complete := true
  heuristicCount := 0
  counts := {}

def tanks : AnalysisResults Rat := sample ["Valve", "Pump"] [.empty, .below 2]

/-- The counterexamples of no fault and of two faults, saved to a folder with an old file. -/
theorem saved_apart_iff_not_namedAlike_tanks :
    (tanks.faults.map (·.name)).Nodup ∧ (∀ fault ∈ tanks.faults, fault.name ≠ "") ∧
      (∀ fault ∈ tanks.faults, '/' ∉ fault.name.toList) ∧
      (tanks.counterexamples.map Prod.fst).Nodup ∧
      ∃ folder, tanks.save Folder.usual (.folder ⟨[("stale.json", "")], ["traces"]⟩) =
          some folder ∧
        folder.folders = ["traces"] ∧ folder.files.length = 2 ∧
        folder.files.map Prod.fst = ["emptyset.json", "Valve_Pump.json"] := by
  have hdistinct : (tanks.faults.map (·.name)).Nodup := by decide
  have hnamed : ∀ fault ∈ tanks.faults, fault.name ≠ "" := by decide
  have hflat : ∀ fault ∈ tanks.faults, '/' ∉ fault.name.toList := by decide
  have hkeys : (tanks.counterexamples.map Prod.fst).Nodup := by decide
  have haccepts : ∀ entry ∈ tanks.counterexamples,
      Folder.usual (tanks.fileName entry.1) = true ∧ tanks.fileName entry.1 ∉ ["traces"] := by
    decide +kernel
  have hapart : tanks.counterexamples.Pairwise fun entry later =>
      ¬NamedAlike (tanks.names entry.1) (tanks.names later.1) := by decide +kernel
  have hnames : tanks.files.map Prod.fst = ["emptyset.json", "Valve_Pump.json"] := by
    decide +kernel
  obtain ⟨hsaved, hfolder⟩ := saved_apart_iff_not_namedAlike tanks hdistinct hnamed hflat hkeys
    Folder.usual (.folder ⟨[("stale.json", "")], ["traces"]⟩)
  obtain ⟨folder, hsave⟩ := Option.isSome_iff_exists.1 (hsaved.2 ⟨_, rfl, haccepts⟩)
  obtain ⟨⟨cleared, hcleared, hcontent⟩, hlength, hfiles, -⟩ := hfolder folder hsave
  have hall := hlength.2 hapart
  refine ⟨hdistinct, hnamed, hflat, hkeys, folder, hsave, ?_, hall, ?_⟩
  · cases hcleared
    rw [hcontent]
  · rw [hfiles hall, hnames]

/-- The counterexamples of two faults, and of one whose name is theirs when joined. -/
def namesakes : AnalysisResults Rat :=
  sample ["A", "B", "A_B"] [.below 2, (IndexSet.below 3).diff (.below 2)]

/-- Of two counterexamples only one is left. -/
theorem overwritten_namesakes :
    (namesakes.faults.map (·.name)).Nodup ∧ (∀ fault ∈ namesakes.faults, fault.name ≠ "") ∧
      (∀ fault ∈ namesakes.faults, '/' ∉ fault.name.toList) ∧
      (namesakes.counterexamples.map Prod.fst).Nodup ∧ namesakes.counterexamples.length = 2 ∧
      (namesakes.save Folder.usual .absent).map (fun folder => folder.files.map Prod.fst) =
        some ["A_B.json"] := by
  decide +kernel

end AnalysisResults

end Hazard

import Mathlib.Data.List.Nodup
import Hazard.Fault.Set
import Hazard.Proofs.IndexSet
/-!
# Names of fault sets

The names of a set are those of its faults, in the order of declaration. Where all faults have
different names, they tell the set.
-/

namespace Hazard

namespace FaultSet

variable {α : Type} {faults : List (Fault α)} {left right set : FaultSet} {position : Nat}
  {fault : Fault α}

theorem mem_names {name : String} :
    name ∈ set.names faults ↔ ∃ position fault, set.contains position = true ∧
      faults[position]? = some fault ∧ fault.name = name := by
  simp only [names, List.mem_filterMap, Option.map_eq_some_iff, IndexSet.toList, List.mem_filter,
    List.mem_range]
  constructor
  · rintro ⟨position, ⟨-, hposition⟩, fault, hfault, hname⟩
    exact ⟨position, fault, hposition, hfault, hname⟩
  · rintro ⟨position, fault, hposition, hfault, hname⟩
    exact ⟨position, ⟨IndexSet.lt_of_contains hposition, hposition⟩, fault, hfault, hname⟩

theorem filterMap_range_names (faults : List (Fault α)) (count : Nat) :
    (List.range count).filterMap (fun position => (faults[position]?).map (·.name)) =
      (faults.take count).map (·.name) := by
  induction count with
  | zero => simp
  | succ count ih =>
      rw [List.range_succ, List.filterMap_append, ih, List.take_add_one, List.map_append]
      cases hfault : faults[count]? <;> simp [hfault]

theorem names_sublist (set : FaultSet) (faults : List (Fault α)) :
    (set.names faults).Sublist (faults.map (·.name)) := by
  have hmembers : set.toList.Sublist (List.range IndexSet.limit) := List.filter_sublist
  have hnames := hmembers.filterMap fun position => (faults[position]?).map (·.name)
  rw [filterMap_range_names] at hnames
  exact hnames.trans ((List.take_sublist _ faults).map _)

/-- A fault with a name of its own is in a set exactly if its name is one of the set's. -/
theorem name_mem_names_iff (hdistinct : (faults.map (·.name)).Nodup)
    (hfault : faults[position]? = some fault) :
    fault.name ∈ set.names faults ↔ set.contains position = true := by
  refine ⟨fun h => ?_, fun h => mem_names.2 ⟨position, fault, h, hfault, rfl⟩⟩
  obtain ⟨other, namesake, hother, hnamesake, hname⟩ := mem_names.1 h
  have hsame : (faults.map (·.name))[position]? = (faults.map (·.name))[other]? := by
    rw [List.getElem?_map, List.getElem?_map, hfault, hnamesake, Option.map_some, Option.map_some,
      hname]
  have hlt : position < (faults.map (·.name)).length := by
    rw [List.length_map]
    exact (List.getElem?_eq_some_iff.1 hfault).1
  rwa [(List.getElem?_inj hlt hdistinct).1 hsame]

theorem eq_of_names_eq (hdistinct : (faults.map (·.name)).Nodup)
    (hleft : ∀ position, left.contains position = true → position < faults.length)
    (hright : ∀ position, right.contains position = true → position < faults.length)
    (h : left.names faults = right.names faults) : left = right := by
  apply IndexSet.ext_contains
  intro position
  rw [Bool.eq_iff_iff]
  by_cases hdeclared : position < faults.length
  · have hfault := List.getElem?_eq_getElem hdeclared
    rw [← name_mem_names_iff hdistinct hfault, h, name_mem_names_iff hdistinct hfault]
  · exact ⟨fun hposition => absurd (hleft position hposition) hdeclared,
      fun hposition => absurd (hright position hposition) hdeclared⟩

end FaultSet

end Hazard

import Mathlib.Data.List.Nodup
import ProtocolBindings.Code.EmissionOrder

namespace ProtocolBindings

namespace Registry

variable {r : Registry} {a b e : Entry} {i j : Nat} {name : String}

def Schedules (r : Registry) (e : Entry) : Prop :=
  e ∈ r.entries ∧ e.external = false

def DependsOn (r : Registry) (a b : Entry) : Prop :=
  r.Schedules a ∧ r.Schedules b ∧ a ≠ b ∧ b.name ∈ a.dependencies

theorem nodup_entries (r : Registry) : r.entries.Nodup :=
  r.distinct.of_map

theorem eq_of_name (ha : a ∈ r.entries) (hb : b ∈ r.entries) (h : a.name = b.name) : a = b :=
  List.inj_on_of_nodup_map r.distinct ha hb h

theorem eq_of_getElem? (hi : r.entries[i]? = some e) (hj : r.entries[j]? = some e) : i = j := by
  have hlt := (List.getElem?_eq_some_iff.mp hi).1
  exact (List.getElem?_inj hlt r.nodup_entries).mp (hi.trans hj.symm)

theorem indexOf?_eq_some_iff :
    r.indexOf? name = some i ↔ ∃ e, r.entries[i]? = some e ∧ e.name = name := by
  constructor
  · intro h
    obtain ⟨hlt, hname, _⟩ := List.findIdx?_eq_some_iff_getElem.mp h
    exact ⟨r.entries[i], List.getElem?_eq_getElem hlt, by simpa using hname⟩
  · rintro ⟨e, hi, rfl⟩
    have he := List.mem_of_getElem? hi
    cases h : r.indexOf? e.name with
    | none =>
      have := List.findIdx?_eq_none_iff.mp h e he
      simp at this
    | some k =>
      obtain ⟨hlt, hname, _⟩ := List.findIdx?_eq_some_iff_getElem.mp h
      have hk : r.entries[k] = e := eq_of_name (List.getElem_mem hlt) he (by simpa using hname)
      have hki : k = i := eq_of_getElem? (hk ▸ List.getElem?_eq_getElem hlt) hi
      rw [hki]

theorem isScheduled_iff :
    r.isScheduled i = true ↔ ∃ e, r.entries[i]? = some e ∧ r.Schedules e := by
  unfold isScheduled
  cases h : r.entries[i]? with
  | none => simp
  | some e => simp [Schedules, List.mem_of_getElem? h]

theorem mem_scheduled : i ∈ r.scheduled ↔ ∃ e, r.entries[i]? = some e ∧ r.Schedules e := by
  rw [scheduled, List.mem_filter, isScheduled_iff]
  constructor
  · exact And.right
  · rintro ⟨e, hi, he⟩
    exact ⟨List.mem_range.mpr (List.getElem?_eq_some_iff.mp hi).1, e, hi, he⟩

theorem ascending_scheduled (r : Registry) : r.scheduled.Pairwise (· < ·) :=
  List.pairwise_lt_range.filter _

theorem nodup_scheduled (r : Registry) : r.scheduled.Nodup :=
  r.ascending_scheduled.imp Nat.ne_of_lt

theorem mem_prerequisites :
    j ∈ r.prerequisites i ↔
      ∃ a b, r.entries[i]? = some a ∧ r.entries[j]? = some b ∧ r.DependsOn a b := by
  unfold prerequisites
  cases hi : r.entries[i]? with
  | none => simp
  | some a =>
    have ha := List.mem_of_getElem? hi
    constructor
    · intro h
      cases hx : a.external with
      | true => simp [hx] at h
      | false =>
        simp only [hx, Bool.false_eq_true, if_false, List.mem_filter, List.mem_filterMap,
          Bool.and_eq_true, decide_eq_true_eq, isScheduled_iff] at h
        obtain ⟨⟨name, hname, hj⟩, hne, b, hb, hs⟩ := h
        obtain ⟨b', hb', rfl⟩ := indexOf?_eq_some_iff.mp hj
        obtain rfl : b' = b := by rw [hb] at hb'; cases hb'; rfl
        refine ⟨a, b', rfl, hb, ⟨ha, hx⟩, hs, ?_, hname⟩
        rintro rfl
        exact hne (eq_of_getElem? hb hi)
    · rintro ⟨a', b, ha', hb, ⟨_, hx⟩, hs, hne, hname⟩
      cases ha'
      simp only [hx, Bool.false_eq_true, if_false, List.mem_filter, List.mem_filterMap,
        Bool.and_eq_true, decide_eq_true_eq, isScheduled_iff]
      refine ⟨⟨b.name, hname, indexOf?_eq_some_iff.mpr ⟨b, hb, rfl⟩⟩, ?_, b, hb, hs⟩
      rintro rfl
      rw [hi] at hb
      cases hb
      exact hne rfl

def position (r : Registry) (e : Entry) : Nat :=
  r.entries.idxOf e

def entriesAt (r : Registry) (positions : List Nat) : List Entry :=
  positions.filterMap (r.entries[·]?)

theorem getElem?_position (he : e ∈ r.entries) : r.entries[r.position e]? = some e :=
  List.getElem?_idxOf he

theorem position_of_getElem? (h : r.entries[i]? = some e) : r.position e = i :=
  eq_of_getElem? (getElem?_position (List.mem_of_getElem? h)) h

theorem position_inj (ha : a ∈ r.entries) (hb : b ∈ r.entries)
    (h : r.position a = r.position b) : a = b := by
  have he := getElem?_position ha
  rw [h, getElem?_position hb] at he
  exact (Option.some.inj he).symm

theorem position_mem_prerequisites (ha : a ∈ r.entries) (hb : b ∈ r.entries) :
    r.position b ∈ r.prerequisites (r.position a) ↔ r.DependsOn a b := by
  rw [mem_prerequisites]
  constructor
  · rintro ⟨a', b', ha', hb', h⟩
    rw [getElem?_position ha] at ha'
    rw [getElem?_position hb] at hb'
    cases ha'
    cases hb'
    exact h
  · exact fun h => ⟨a, b, getElem?_position ha, getElem?_position hb, h⟩

theorem position_mem_scheduled (he : e ∈ r.entries) :
    r.position e ∈ r.scheduled ↔ r.Schedules e := by
  rw [mem_scheduled]
  constructor
  · rintro ⟨e', he', h⟩
    rw [getElem?_position he] at he'
    cases he'
    exact h
  · exact fun h => ⟨e, getElem?_position he, h⟩

theorem map_position_entriesAt {positions : List Nat} (h : ∀ i ∈ positions, i ∈ r.scheduled) :
    (r.entriesAt positions).map r.position = positions := by
  induction positions with
  | nil => rfl
  | cons i positions ih =>
    obtain ⟨e, hi, _⟩ := mem_scheduled.mp (h i List.mem_cons_self)
    have hrest := ih fun k hk => h k (List.mem_cons_of_mem i hk)
    rw [entriesAt, List.filterMap_cons_some hi, List.map_cons, position_of_getElem? hi]
    exact congrArg (i :: ·) hrest

theorem schedules_of_mem_entriesAt {positions : List Nat} (h : ∀ i ∈ positions, i ∈ r.scheduled)
    (he : e ∈ r.entriesAt positions) : r.Schedules e := by
  obtain ⟨i, hi, hie⟩ := List.mem_filterMap.mp he
  obtain ⟨e', hi', hs⟩ := mem_scheduled.mp (h i hi)
  rw [hie] at hi'
  cases hi'
  exact hs

end Registry

namespace DependencyGraph

/-- Both directions of the graph hold the same dependencies, and only between different scheduled
entries. -/
structure Consistent (g : DependencyGraph) : Prop where
  ascending_scheduled : g.scheduled.Pairwise (· < ·)
  scheduled_of_prerequisite : ∀ {i j}, j ∈ g.prerequisitesOf i → i ∈ g.scheduled
  prerequisite_scheduled : ∀ {i j}, j ∈ g.prerequisitesOf i → j ∈ g.scheduled
  prerequisite_ne : ∀ {i j}, j ∈ g.prerequisitesOf i → j ≠ i
  count_dependentsOf : ∀ i j, (g.dependentsOf j).count i = (g.prerequisitesOf i).count j

theorem Consistent.mem_dependentsOf {g : DependencyGraph} (h : g.Consistent) {i j : Nat} :
    i ∈ g.dependentsOf j ↔ j ∈ g.prerequisitesOf i := by
  rw [← List.count_pos_iff, h.count_dependentsOf, List.count_pos_iff]

theorem scheduled_ofRegistry (r : Registry) : (ofRegistry r).scheduled = r.scheduled := rfl

theorem prerequisitesOf_ofRegistry (r : Registry) (i : Nat) :
    (ofRegistry r).prerequisitesOf i = r.prerequisites i := by
  by_cases hi : i < r.size
  · simp [prerequisitesOf, ofRegistry, Array.getD, hi]
  · have hn : r.entries[i]? = none := List.getElem?_eq_none (Nat.le_of_not_lt hi)
    simp [prerequisitesOf, ofRegistry, Array.getD, hi, Registry.prerequisites, hn]

theorem size_addDependent (dependents : Array (List Nat)) (edge : Nat × List Nat) :
    (addDependent dependents edge).size = dependents.size := by
  obtain ⟨i, targets⟩ := edge
  unfold addDependent
  induction targets generalizing dependents with
  | nil => rfl
  | cons t targets ih => exact (ih _).trans (Array.size_modify ..)

theorem size_foldl_addDependent (edges : List (Nat × List Nat)) (dependents : Array (List Nat)) :
    (edges.foldl addDependent dependents).size = dependents.size := by
  induction edges generalizing dependents with
  | nil => rfl
  | cons edge edges ih => exact (ih _).trans (size_addDependent dependents edge)

theorem getD_modify {dependents : Array (List Nat)} {j : Nat} (hj : j < dependents.size) (t : Nat)
    (f : List Nat → List Nat) : (dependents.modify t f).getD j [] =
      if t = j then f (dependents.getD j []) else dependents.getD j [] := by
  simp [Array.getD, hj, Array.getElem_modify]

theorem count_addDependent (dependents : Array (List Nat)) (i k j : Nat) (targets : List Nat)
    (hj : j < dependents.size) :
    ((addDependent dependents (i, targets)).getD j []).count k =
      (dependents.getD j []).count k + if k = i then targets.count j else 0 := by
  unfold addDependent
  induction targets generalizing dependents with
  | nil => simp
  | cons t targets ih =>
    rw [List.foldl_cons, ih _ (by simpa using hj), getD_modify hj]
    by_cases ht : t = j
    · subst ht
      rw [if_pos rfl, List.count_append]
      by_cases hk : k = i
      · subst hk
        rw [if_pos rfl, if_pos rfl, List.count_singleton_self, List.count_cons_self]
        omega
      · rw [if_neg hk, if_neg hk, List.count_singleton, if_neg (by simpa using Ne.symm hk)]
    · rw [if_neg ht, List.count_cons_of_ne ht]

/-- After the first entries have been entered, their dependencies are there and no others. -/
theorem count_foldl_addDependent (r : Registry) (n j k : Nat) (hj : j < r.size) :
    ((((List.range n).map fun i => (i, r.prerequisites i)).foldl addDependent
      (Array.replicate r.size [])).getD j []).count k =
        if k < n then (r.prerequisites k).count j else 0 := by
  induction n with
  | zero => simp [Array.getD, hj]
  | succ n ih =>
    rw [List.range_succ, List.map_append, List.foldl_append, List.map_singleton,
      List.foldl_cons, List.foldl_nil,
      count_addDependent _ _ _ _ _ (by simpa [size_foldl_addDependent] using hj), ih]
    rcases Nat.lt_trichotomy k n with hk | rfl | hk
    · rw [if_pos hk, if_neg (Nat.ne_of_lt hk), if_pos (Nat.lt_succ_of_lt hk), Nat.add_zero]
    · rw [if_neg (Nat.lt_irrefl k), if_pos rfl, if_pos (Nat.lt_succ_self k), Nat.zero_add]
    · rw [if_neg (Nat.lt_asymm hk), if_neg (Nat.ne_of_gt hk), if_neg (Nat.not_lt.mpr hk)]

theorem consistent_ofRegistry (r : Registry) : (ofRegistry r).Consistent where
  ascending_scheduled := r.ascending_scheduled
  scheduled_of_prerequisite := by
    intro i j h
    rw [prerequisitesOf_ofRegistry, Registry.mem_prerequisites] at h
    obtain ⟨a, b, hi, _, hd⟩ := h
    exact Registry.mem_scheduled.mpr ⟨a, hi, hd.1⟩
  prerequisite_scheduled := by
    intro i j h
    rw [prerequisitesOf_ofRegistry, Registry.mem_prerequisites] at h
    obtain ⟨a, b, _, hj, hd⟩ := h
    exact Registry.mem_scheduled.mpr ⟨b, hj, hd.2.1⟩
  prerequisite_ne := by
    intro i j h
    rw [prerequisitesOf_ofRegistry, Registry.mem_prerequisites] at h
    obtain ⟨a, b, hi, hj, _, _, hne, _⟩ := h
    rintro rfl
    rw [hi] at hj
    cases hj
    exact hne rfl
  count_dependentsOf := by
    intro i j
    rw [prerequisitesOf_ofRegistry]
    by_cases hj : j < r.size
    · refine (count_foldl_addDependent r r.size j i hj).trans ?_
      split
      · rfl
      · next hi =>
        have hn : r.entries[i]? = none := List.getElem?_eq_none (Nat.le_of_not_lt hi)
        simp [Registry.prerequisites, hn]
    · have hd : (ofRegistry r).dependentsOf j = [] := by
        simp [dependentsOf, ofRegistry, Array.getD, size_foldl_addDependent, hj]
      have hp : j ∉ r.prerequisites i := by
        intro h
        obtain ⟨_, _, _, hb, _⟩ := Registry.mem_prerequisites.mp h
        exact hj (List.getElem?_eq_some_iff.mp hb).1
      rw [hd, List.count_nil, List.count_eq_zero_of_not_mem hp]

end DependencyGraph

end ProtocolBindings

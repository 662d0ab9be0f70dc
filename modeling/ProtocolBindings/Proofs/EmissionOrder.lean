import ProtocolBindings.Proofs.DependencyCycle
import ProtocolBindings.Proofs.Drafts

namespace ProtocolBindings

namespace Registry

open DependencyGraph

variable {r s : Registry} {order : List Entry} {positions : List Nat}

/-- An order of all scheduled entries, each one after those that it depends on. -/
structure IsEmission (r : Registry) (order : List Entry) : Prop where
  nodup : order.Nodup
  mem_iff : ∀ e, e ∈ order ↔ r.Schedules e
  after : ∀ a b, r.DependsOn a b → Precedes order b a

theorem isEmission_entriesAt (h : (ofRegistry r).Legal [] positions)
    (hp : positions.Perm r.scheduled) : r.IsEmission (r.entriesAt positions) where
  nodup := by
    have hn := h.nodup
    rw [← map_position_entriesAt fun i => hp.mem_iff.mp] at hn
    exact hn.of_map
  mem_iff := by
    intro e
    constructor
    · exact schedules_of_mem_entriesAt fun i => hp.mem_iff.mp
    · intro he
      have hi := (position_mem_scheduled he.1).mpr he
      exact List.mem_filterMap.mpr ⟨r.position e, hp.mem_iff.mpr hi, getElem?_position he.1⟩
  after := by
    intro a b hab
    obtain ⟨ha, hb, _, _⟩ := id hab
    have hi := (position_mem_scheduled ha.1).mpr ha
    have hj := (position_mem_prerequisites ha.1 hb.1).mpr hab
    rw [← prerequisitesOf_ofRegistry] at hj
    rcases h.prerequisite_before (hp.mem_iff.mpr hi) hj with hd | hd
    · cases hd
    · exact hd.filterMap (getElem?_position hb.1) (getElem?_position ha.1)

theorem IsEmission.legal (h : r.IsEmission order) :
    (ofRegistry r).Legal [] (order.map r.position) := by
  have hmem : ∀ e ∈ order, e ∈ r.entries := fun e he => ((h.mem_iff e).mp he).1
  apply legal_of_prerequisites_before
  · exact h.nodup.map_on fun a ha b hb => position_inj (hmem a ha) (hmem b hb)
  · intro i hi
    obtain ⟨e, he, rfl⟩ := List.mem_map.mp hi
    exact (position_mem_scheduled (hmem e he)).mpr ((h.mem_iff e).mp he)
  · intro i _ hd
    cases hd
  · intro i hi j hj
    obtain ⟨a, ha, rfl⟩ := List.mem_map.mp hi
    rw [prerequisitesOf_ofRegistry] at hj
    obtain ⟨a', b, ha', hb, hab⟩ := mem_prerequisites.mp hj
    rw [getElem?_position (hmem a ha)] at ha'
    cases ha'
    rw [← position_of_getElem? hb]
    exact .inr ((h.after a b hab).map r.position)

theorem IsEmission.perm (h : r.IsEmission order) : (order.map r.position).Perm r.scheduled := by
  rw [List.perm_ext_iff_of_nodup h.legal.nodup r.nodup_scheduled]
  intro i
  constructor
  · exact h.legal.scheduled
  · intro hi
    obtain ⟨e, he, hs⟩ := mem_scheduled.mp hi
    exact List.mem_map.mpr ⟨e, (h.mem_iff e).mpr hs, position_of_getElem? he⟩

theorem IsEmission.entriesAt_map_position (h : r.IsEmission order) :
    r.entriesAt (order.map r.position) = order := by
  rw [entriesAt, List.filterMap_map]
  conv_rhs => rw [← List.filterMap_some (l := order)]
  apply List.filterMap_congr
  intro e he
  exact getElem?_position ((h.mem_iff e).mp he).1

theorem IsEmission.precedes_of_transGen (h : r.IsEmission order) {a b : Entry}
    (hab : Relation.TransGen r.DependsOn a b) : Precedes order b a := by
  induction hab with
  | single hab => exact h.after _ _ hab
  | tail _ hbc ih => exact (h.after _ _ hbc).trans h.nodup ih

theorem IsEmission.acyclic (h : r.IsEmission order) (e : Entry) :
    ¬ Relation.TransGen r.DependsOn e e :=
  fun he => (h.precedes_of_transGen he).ne h.nodup rfl

theorem isEmission_of_emissionOrder (h : r.emissionOrder = .ok order) :
    r.IsEmission order ∧ ((ofRegistry r).Greedy [] (order.map r.position)) := by
  obtain ⟨positions, hgreedy, _, hcases⟩ := r.emissionOrder_cases
  rcases hcases with ⟨hp, hok⟩ | ⟨_, _, herror⟩
  · rw [h] at hok
    cases hok
    rw [map_position_entriesAt fun i => hp.mem_iff.mp]
    exact ⟨isEmission_entriesAt hgreedy.legal hp, hgreedy⟩
  · rw [h] at herror
    cases herror

theorem emissionOrder_of_acyclic (h : ∀ e, ¬ Relation.TransGen r.DependsOn e e) :
    ∃ order, r.emissionOrder = .ok order := by
  obtain ⟨positions, _, _, hcases⟩ := r.emissionOrder_cases
  rcases hcases with ⟨_, hok⟩ | ⟨⟨i, hs, hi⟩, hend, _⟩
  · exact ⟨_, hok⟩
  · obtain ⟨_, _, _, hcycle⟩ := (stuck_of_not_ready hend).closes_cycle
      (consistent_ofRegistry r) hs fun hm => hi (List.mem_reverse.mp hm)
    obtain ⟨e, he⟩ := (entryCycle_of_isCycle hcycle).transGen
    exact absurd he (h e)

/-- The emission succeeds just when no entry depends on itself through others, and then it is an
order of all scheduled entries in which each one comes after those that it depends on. -/
theorem emissionOrder_iff_acyclic (r : Registry) :
    ((∃ order, r.emissionOrder = .ok order) ↔ ∀ e, ¬ Relation.TransGen r.DependsOn e e) ∧
      ∀ order, r.emissionOrder = .ok order → r.IsEmission order := by
  refine ⟨⟨?_, emissionOrder_of_acyclic⟩, fun order h => (isEmission_of_emissionOrder h).1⟩
  rintro ⟨order, h⟩
  exact (isEmission_of_emissionOrder h).1.acyclic

/-- The same names in the same order, which depend on the same names. -/
def SameDependencies (r s : Registry) : Prop :=
  List.Forall₂ (fun a b => a.name = b.name ∧ a.external = b.external ∧
    ∀ n, n ∈ a.dependencies ↔ n ∈ b.dependencies) r.entries s.entries

theorem SameDependencies.symm (h : r.SameDependencies s) : s.SameDependencies r := by
  apply List.Forall₂.flip
  apply h.imp
  rintro a b ⟨hname, hexternal, hdeps⟩
  exact ⟨hname.symm, hexternal.symm, fun n => (hdeps n).symm⟩

theorem SameDependencies.getElem? (h : r.SameDependencies s) {i : Nat} {a : Entry}
    (ha : r.entries[i]? = some a) :
    ∃ b, s.entries[i]? = some b ∧ a.name = b.name ∧ a.external = b.external ∧
      ∀ n, n ∈ a.dependencies ↔ n ∈ b.dependencies := by
  obtain ⟨hi, rfl⟩ := List.getElem?_eq_some_iff.mp ha
  have hlen := List.Forall₂.length_eq h
  have hi' : i < s.entries.length := hlen ▸ hi
  exact ⟨s.entries[i], List.getElem?_eq_getElem hi', (List.forall₂_iff_get.mp h).2 i hi hi'⟩

theorem SameDependencies.scheduled_subset (h : r.SameDependencies s) {i : Nat}
    (hi : i ∈ r.scheduled) : i ∈ s.scheduled := by
  obtain ⟨a, ha, hs⟩ := mem_scheduled.mp hi
  obtain ⟨b, hb, _, hexternal, _⟩ := h.getElem? ha
  exact mem_scheduled.mpr ⟨b, hb, List.mem_of_getElem? hb, hexternal.symm.trans hs.2⟩

theorem SameDependencies.prerequisites_subset (h : r.SameDependencies s) {i j : Nat}
    (hj : j ∈ r.prerequisites i) : j ∈ s.prerequisites i := by
  obtain ⟨a, b, ha, hb, hsa, hsb, hne, hname⟩ := mem_prerequisites.mp hj
  obtain ⟨a', ha', _, hea, hdeps⟩ := h.getElem? ha
  obtain ⟨b', hb', hnb, heb, _⟩ := h.getElem? hb
  refine mem_prerequisites.mpr ⟨a', b', ha', hb', ?_, ?_, ?_, ?_⟩
  · exact ⟨List.mem_of_getElem? ha', hea.symm.trans hsa.2⟩
  · exact ⟨List.mem_of_getElem? hb', heb.symm.trans hsb.2⟩
  · rintro rfl
    have hij := eq_of_getElem? ha' hb'
    subst hij
    rw [ha] at hb
    exact hne (Option.some.inj hb)
  · exact hnb ▸ (hdeps b.name).mp hname

theorem SameDependencies.ready (h : r.SameDependencies s) {done : List Nat} {i : Nat} :
    (ofRegistry r).Ready done i ↔ (ofRegistry s).Ready done i := by
  have hready {r s : Registry} (h : r.SameDependencies s)
      (hi : (ofRegistry r).Ready done i) : (ofRegistry s).Ready done i := by
    refine ⟨h.scheduled_subset hi.1, hi.2.1, fun j hj => hi.2.2 j ?_⟩
    rw [prerequisitesOf_ofRegistry] at hj ⊢
    exact h.symm.prerequisites_subset hj
  exact ⟨hready h, hready h.symm⟩

theorem SameDependencies.greedy (h : r.SameDependencies s) {done : List Nat}
    (hr : (ofRegistry r).Greedy done positions) : (ofRegistry s).Greedy done positions := by
  induction positions generalizing done with
  | nil => trivial
  | cons i rest ih =>
    exact ⟨⟨h.ready.mp hr.1.1, fun k hk => hr.1.2 k (h.ready.mpr hk)⟩, ih hr.2⟩

theorem SameDependencies.scheduled_perm (h : r.SameDependencies s) :
    r.scheduled.Perm s.scheduled := by
  rw [List.perm_ext_iff_of_nodup r.nodup_scheduled s.nodup_scheduled]
  exact fun i => ⟨h.scheduled_subset, h.symm.scheduled_subset⟩

theorem SameDependencies.names_entriesAt (h : r.SameDependencies s) (positions : List Nat) :
    (r.entriesAt positions).map Entry.name = (s.entriesAt positions).map Entry.name := by
  rw [entriesAt, entriesAt, List.map_filterMap, List.map_filterMap]
  congr 1
  funext i
  cases hr : r.entries[i]? with
  | none =>
    cases hs : s.entries[i]? with
    | none => rfl
    | some b =>
      obtain ⟨a, ha, _⟩ := h.symm.getElem? hs
      rw [hr] at ha
      cases ha
  | some a =>
    obtain ⟨b, hb, hname, _⟩ := h.getElem? hr
    rw [hb, Option.map_some, Option.map_some, hname]

/-- The emission order is the least of all orders that keep to the dependencies, and any registry
with the same dependencies has the same one. -/
theorem emissionOrder_isLeast (h : r.emissionOrder = .ok order) :
    r.IsEmission order ∧
      (∀ other, r.IsEmission other → order.map r.position ≤ other.map r.position) ∧
      ∀ s, r.SameDependencies s → ∃ same, s.emissionOrder = .ok same ∧
        same.map s.position = order.map r.position ∧
        same.map Entry.name = order.map Entry.name := by
  obtain ⟨hr, hgreedy⟩ := isEmission_of_emissionOrder h
  refine ⟨hr, ?_, ?_⟩
  · intro other ho
    exact hgreedy.le_of_legal ho.legal (hr.perm.trans ho.perm.symm).length_eq
  · intro s hs
    have hperm := hr.perm.trans hs.scheduled_perm
    have hsame := isEmission_entriesAt (hs.greedy hgreedy).legal hperm
    obtain ⟨same, hok⟩ := emissionOrder_of_acyclic hsame.acyclic
    obtain ⟨hems, hgreedys⟩ := isEmission_of_emissionOrder hok
    have hlen := hems.perm.length_eq.trans hperm.length_eq.symm
    have heq : same.map s.position = order.map r.position := le_antisymm
      (hgreedys.le_of_legal (hs.greedy hgreedy).legal hlen)
      ((hs.greedy hgreedy).le_of_legal hgreedys.legal hlen.symm)
    refine ⟨same, hok, heq, ?_⟩
    rw [← hems.entriesAt_map_position, ← hr.entriesAt_map_position, heq]
    exact (hs.names_entriesAt _).symm

/-- Entries out of order, with dependencies that are repeated, on the entry itself, external or
missing. -/
def tangled : Registry where
  entries := [{ name := "C", dependencies := ["A"] }, { name := "A", dependencies := ["Outside"] },
    { name := "Outside", external := true },
    { name := "B", dependencies := ["Missing", "B", "A", "A"] }, { name := "D" }]
  distinct := by decide

theorem emissionOrder_tangled_isLeast :
    ∃ order, tangled.emissionOrder = .ok order ∧ order.map tangled.position = [1, 0, 3, 4] ∧
      ∀ other, tangled.IsEmission other → [1, 0, 3, 4] ≤ other.map tangled.position := by
  have h : (tangled.emissionOrder.map fun order => order.map tangled.position) =
      .ok [1, 0, 3, 4] := by
    decide +kernel
  obtain ⟨order, ho, hpositions⟩ := Except.map_eq_ok.mp h
  refine ⟨order, ho, hpositions, ?_⟩
  rw [← hpositions]
  exact (emissionOrder_isLeast ho).2.1

end Registry

end ProtocolBindings

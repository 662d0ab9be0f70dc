import ProtocolBindings.Proofs.Emission
import ProtocolBindings.Proofs.Walks

namespace ProtocolBindings

namespace DependencyGraph

variable {g : DependencyGraph} {emitted path unvisited cycle : List Nat} {i j current : Nat}

/-- Every scheduled entry that was not emitted waits for one that was not. -/
def Stuck (g : DependencyGraph) (emitted : List Nat) : Prop :=
  ∀ i ∈ g.scheduled, i ∉ emitted → ∃ j ∈ g.prerequisitesOf i, j ∉ emitted

/-- The walk along first dependencies that were not emitted, from an entry on, comes back to its
path and closes a cycle. The path is kept back to front. -/
inductive Closes (g : DependencyGraph) (emitted : List Nat) :
    List Nat → Nat → List Nat → Prop
  | back {path : List Nat} {current : Nat} : current ∈ path →
      Closes g emitted path current (path.reverse.dropWhile (· ≠ current) ++ [current])
  | next {path : List Nat} {current following : Nat} {cycle : List Nat} : current ∉ path →
      (g.prerequisitesOf current).find? (· ∉ emitted) = some following →
      Closes g emitted (current :: path) following cycle → Closes g emitted path current cycle

theorem Stuck.find? (h : g.Stuck emitted) (hs : i ∈ g.scheduled) (hi : i ∉ emitted) :
    ∃ j, (g.prerequisitesOf i).find? (· ∉ emitted) = some j ∧ j ∈ g.prerequisitesOf i ∧
      j ∉ emitted := by
  obtain ⟨k, hk, hke⟩ := h i hs hi
  cases hf : (g.prerequisitesOf i).find? (· ∉ emitted) with
  | none => exact absurd (List.find?_eq_none.mp hf k hk) (by simpa using hke)
  | some j => exact ⟨j, rfl, List.mem_of_find?_eq_some hf, by simpa using List.find?_some hf⟩

/-- As long as what was not visited is at hand, the walk closes a cycle. -/
theorem Stuck.closes_chase (h : g.Stuck emitted) (hg : g.Consistent) (hs : current ∈ g.scheduled)
    (he : current ∉ emitted) (hu : ∀ i ∈ g.scheduled, i ∈ unvisited ∨ i ∈ path) :
    g.Closes emitted path current (g.chase emitted unvisited path current) := by
  fun_induction chase g emitted unvisited path current with
  | case1 unvisited path current hp => exact .back hp
  | case2 unvisited path current hp hv following hf ih =>
    have hmem := List.mem_of_find?_eq_some hf
    refine .next hp hf (ih (hg.prerequisite_scheduled hmem) (by simpa using List.find?_some hf) ?_)
    intro i hi
    by_cases hic : i = current
    · exact .inr (hic ▸ List.mem_cons_self)
    · rcases hu i hi with hi | hi
      · exact .inl ((List.mem_erase_of_ne hic).mpr hi)
      · exact .inr (List.mem_cons_of_mem current hi)
  | case3 unvisited path current hp hv hf =>
    obtain ⟨j, hj, _⟩ := h.find? hs he
    rw [hf] at hj
    cases hj
  | case4 unvisited path current hp hv => exact absurd ((hu current hs).resolve_right hp) hv

/-- Entries that lead around, the first one again at the end. -/
structure IsCycle (g : DependencyGraph) (cycle : List Nat) : Prop where
  length : 3 ≤ cycle.length
  closed : cycle.head? = cycle.getLast?
  nodup : cycle.dropLast.Nodup
  scheduled : ∀ i ∈ cycle, i ∈ g.scheduled
  chain : cycle.IsChain fun i j => j ∈ g.prerequisitesOf i

theorem Closes.isCycle (h : g.Closes emitted path current cycle) (hg : g.Consistent)
    (hn : path.Nodup) (hs : ∀ i ∈ current :: path, i ∈ g.scheduled)
    (hc : (path.reverse ++ [current]).IsChain fun i j => j ∈ g.prerequisitesOf i) :
    g.IsCycle cycle := by
  induction h with
  | @back path current hp =>
    have hloop := isLoop_of_mem (List.nodup_reverse.mpr hn) hc (List.mem_reverse.mpr hp)
    refine ⟨?_, hloop.closed, hloop.nodup, ?_, hloop.chain⟩
    · apply hloop.three_le_length
      intro i hi
      exact hg.prerequisite_ne hi rfl
    · intro i hi
      apply hs i
      rcases List.mem_append.mp hi with hi | hi
      · have hpath := (List.dropWhile_suffix _).subset hi
        exact List.mem_cons_of_mem current (List.mem_reverse.mp hpath)
      · exact List.mem_singleton.mp hi ▸ List.mem_cons_self
  | @next path current following cycle hp hf _ ih =>
    have hj := List.mem_of_find?_eq_some hf
    refine ih (List.nodup_cons.mpr ⟨hp, hn⟩) ?_ ?_
    · intro i hi
      rcases List.mem_cons.mp hi with rfl | hi
      · exact hg.prerequisite_scheduled hj
      · exact hs i hi
    · rw [List.reverse_cons]
      exact isChain_concat hc hj

theorem Stuck.closes_cycle (h : g.Stuck emitted) (hg : g.Consistent) (hs : i ∈ g.scheduled)
    (hi : i ∉ emitted) : ∃ first, g.scheduled.find? (· ∉ emitted) = some first ∧
      g.Closes emitted [] first (g.cycle emitted) ∧ g.IsCycle (g.cycle emitted) := by
  cases hf : g.scheduled.find? (· ∉ emitted) with
  | none => exact absurd (List.find?_eq_none.mp hf i hs) (by simpa using hi)
  | some first =>
    have hfirst := List.mem_of_find?_eq_some hf
    have hcycle : g.cycle emitted = g.chase emitted g.scheduled [] first := by
      unfold cycle
      rw [hf]
    have hc : g.Closes emitted [] first (g.chase emitted g.scheduled [] first) :=
      h.closes_chase hg hfirst (by simpa using List.find?_some hf) fun k hk => .inl hk
    rw [hcycle]
    exact ⟨first, rfl, hc, hc.isCycle hg List.nodup_nil (by simpa using hfirst)
      (List.isChain_singleton _)⟩

theorem stuck_of_not_ready {order : List Nat} (h : ∀ i, ¬ g.Ready order i) :
    g.Stuck order.reverse := by
  intro i hs hi
  by_contra hall
  refine h i ⟨hs, fun hm => hi (List.mem_reverse.mpr hm), ?_⟩
  intro j hj
  by_contra hm
  exact hall ⟨j, hj, fun hr => hm (List.mem_reverse.mp hr)⟩

end DependencyGraph

namespace Registry

open DependencyGraph

variable {r : Registry} {e : Entry} {error : SchemaError}

theorem get?_eq_some_iff {name : String} :
    r.get? name = some e ↔ e ∈ r.entries ∧ e.name = name := by
  constructor
  · intro h
    exact ⟨List.mem_of_find?_eq_some h, by simpa using List.find?_some h⟩
  · rintro ⟨he, rfl⟩
    cases h : r.get? e.name with
    | none => exact absurd (List.find?_eq_none.mp h e he) (by simp)
    | some b =>
      have hb : b.name = e.name := by simpa using List.find?_some h
      rw [eq_of_name (List.mem_of_find?_eq_some h) he hb]

structure EntryCycle (r : Registry) (walk : List Entry) : Prop where
  length : 3 ≤ walk.length
  closed : walk.head? = walk.getLast?
  nodup : walk.dropLast.Nodup
  scheduled : ∀ a ∈ walk, r.Schedules a
  chain : walk.IsChain r.DependsOn

theorem entryCycle_of_isCycle {cycle : List Nat} (h : (ofRegistry r).IsCycle cycle) :
    r.EntryCycle (r.entriesAt cycle) := by
  have hmem : ∀ a ∈ r.entriesAt cycle, r.Schedules a := fun a =>
    schedules_of_mem_entriesAt h.scheduled
  have hpos := map_position_entriesAt (r := r) h.scheduled
  obtain ⟨hlength, hclosed, hnodup, _, hchain⟩ := h
  rw [← hpos] at hlength hclosed hnodup hchain
  refine ⟨by simpa using hlength, ?_, ?_, hmem, ?_⟩
  · rw [List.head?_map, List.getLast?_map] at hclosed
    cases hfirst : (r.entriesAt cycle).head? with
    | none => rw [List.head?_eq_none_iff.mp hfirst, List.getLast?_nil]
    | some a =>
      cases hlast : (r.entriesAt cycle).getLast? with
      | none => simp [hfirst, hlast] at hclosed
      | some b =>
        rw [hfirst, hlast] at hclosed
        have ha := hmem a (List.mem_of_head? hfirst)
        have hb := hmem b (List.mem_of_getLast? hlast)
        rw [position_inj ha.1 hb.1 (Option.some.inj hclosed)]
  · rw [← List.map_dropLast] at hnodup
    exact hnodup.of_map
  · rw [List.isChain_map] at hchain
    apply hchain.imp_of_mem_imp
    intro a b ha hb hab
    rwa [prerequisitesOf_ofRegistry, position_mem_prerequisites (hmem a ha).1 (hmem b hb).1] at hab

theorem EntryCycle.isLoop {walk : List Entry} (h : r.EntryCycle walk) :
    IsLoop r.DependsOn walk :=
  ⟨Nat.le_of_succ_le h.length, h.closed, h.nodup, h.chain⟩

theorem EntryCycle.transGen {walk : List Entry} (h : r.EntryCycle walk) :
    ∃ e, Relation.TransGen r.DependsOn e e := by
  obtain ⟨e, _, he⟩ := h.isLoop.transGen
  exact ⟨e, he⟩

/-- Names that lead around: each one is that of a scheduled entry that names the next among its
dependencies, and the first one stands again at the end. -/
structure NamesCycle (r : Registry) (names : List String) : Prop where
  length : 3 ≤ names.length
  closed : names.head? = names.getLast?
  nodup : names.dropLast.Nodup
  scheduled : ∀ n ∈ names, ∃ a, r.get? n = some a ∧ a.external = false
  depends : names.IsChain fun m n => ∃ a, r.get? m = some a ∧ n ∈ a.dependencies

theorem EntryCycle.names {walk : List Entry} (h : r.EntryCycle walk) :
    r.NamesCycle (walk.map Entry.name) where
  length := by simpa using h.length
  closed := by rw [List.head?_map, List.getLast?_map, h.closed]
  nodup := by
    rw [← List.map_dropLast]
    apply h.nodup.map_on
    intro a ha b hb
    have ha' := h.scheduled a (List.dropLast_subset _ ha)
    have hb' := h.scheduled b (List.dropLast_subset _ hb)
    exact eq_of_name ha'.1 hb'.1
  scheduled := by
    intro n hn
    obtain ⟨a, ha, rfl⟩ := List.mem_map.mp hn
    exact ⟨a, get?_eq_some_iff.mpr ⟨(h.scheduled a ha).1, rfl⟩, (h.scheduled a ha).2⟩
  depends := by
    rw [List.isChain_map]
    apply h.chain.imp
    intro a b hab
    exact ⟨a, get?_eq_some_iff.mpr ⟨hab.1.1, rfl⟩, hab.2.2.2⟩

/-- A failing emission reports a cycle of dependencies: that of the walk from the first entry that
was not emitted, which ends by coming back to its path. -/
theorem emissionOrder_error_isCycle (h : r.emissionOrder = .error error) :
    ∃ first names, error = .dependencyCycle names ∧ r.NamesCycle names ∧
      names = (r.entriesAt ((ofRegistry r).cycle (ofRegistry r).finish.emitted)).map Entry.name ∧
      r.scheduled.find? (· ∉ (ofRegistry r).finish.emitted) = some first ∧
      (ofRegistry r).Closes (ofRegistry r).finish.emitted [] first
        ((ofRegistry r).cycle (ofRegistry r).finish.emitted) := by
  obtain ⟨order, _, he, hcases⟩ := r.emissionOrder_cases
  rcases hcases with ⟨_, hok⟩ | ⟨⟨i, hs, hi⟩, hend, herror⟩
  · rw [h] at hok
    cases hok
  · rw [h] at herror
    cases herror
    obtain ⟨first, hfirst, hcloses, hcycle⟩ := (stuck_of_not_ready hend).closes_cycle
      (consistent_ofRegistry r) hs fun hm => hi (List.mem_reverse.mp hm)
    rw [he]
    exact ⟨first, _, rfl, (entryCycle_of_isCycle hcycle).names, rfl, hfirst, hcloses⟩

/-- `Top` leads into a cycle that it is not part of; `X` and `Y` name each other, finished entries
and themselves. -/
def deadlocked : Registry where
  entries := [{ name := "Leaf" }, { name := "Top", dependencies := ["Leaf", "X"] },
    { name := "X", dependencies := ["Leaf", "Missing", "Y", "Y"] },
    { name := "Y", dependencies := ["Y", "X"] }]
  distinct := by decide

theorem emissionOrder_error_deadlocked :
    deadlocked.emissionOrder = .error (.dependencyCycle ["X", "Y", "X"]) ∧
      deadlocked.NamesCycle ["X", "Y", "X"] := by
  have h : deadlocked.emissionOrder = .error (.dependencyCycle ["X", "Y", "X"]) := by
    decide +kernel
  obtain ⟨_, names, hnames, hcycle, _⟩ := emissionOrder_error_isCycle h
  cases hnames
  exact ⟨h, hcycle⟩

end Registry

end ProtocolBindings

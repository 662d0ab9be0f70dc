import ProtocolBindings.Proofs.EmissionOrder

namespace ProtocolBindings

namespace DependencyGraph

variable {g : DependencyGraph} {p : Progress} {i k : Nat} {told pending rest : List Nat}

/-- The progress once the first ready entry has been taken, and none of its dependents told. -/
def Progress.pop (p : Progress) (index : Nat) (rest : List Nat) : Progress :=
  { p with ready := rest, emitted := index :: p.emitted }

/-- A release that goes by the books: the entry has a count, which can be lowered, and it has been
neither ready nor emitted before. -/
structure Releasable (p : Progress) (k : Nat) : Prop where
  counted : k < p.waiting.size
  positive : 0 < p.waiting.getD k 0
  not_ready : k ∉ p.ready
  not_emitted : k ∉ p.emitted

/-- The books are balanced: they agree with the dependencies and with what has been emitted. -/
structure Balanced (r : Registry) (p : Progress) : Prop where
  /-- The count of an entry is that of its dependencies to come, repeated ones included. -/
  waiting : ∀ i < r.size, p.waiting[i]? = some ((r.prerequisites i).countP (· ∉ p.emitted))
  ready : ∀ i, i ∈ p.ready ↔ i ∈ r.scheduled ∧ i ∉ p.emitted ∧ p.waiting[i]? = some 0
  ascending : p.ready.Pairwise (· < ·)
  /-- No entry is emitted twice. -/
  once : p.emitted.Nodup
  scheduled : ∀ i ∈ p.emitted, i ∈ r.scheduled

theorem size_foldl_release (told : List Nat) (p : Progress) :
    (told.foldl release p).waiting.size = p.waiting.size := by
  induction told generalizing p with
  | nil => rfl
  | cons i told ih => exact (ih (release p i)).trans (Array.size_modify ..)

theorem size_step (g : DependencyGraph) (p : Progress) :
    (g.step p).waiting.size = p.waiting.size := by
  unfold step
  split
  · rfl
  · exact size_foldl_release _ _

theorem size_run (g : DependencyGraph) (n : Nat) (p : Progress) :
    (g.run n p).waiting.size = p.waiting.size := by
  induction n generalizing p with
  | zero => rfl
  | succ n ih => exact (ih (g.step p)).trans (g.size_step p)

theorem getElem?_waiting (h : i < p.waiting.size) : p.waiting[i]? = some (p.waiting.getD i 0) := by
  simp [Array.getD, h]

/-- While some dependents have still to be told, the next one can be. -/
theorem Sound.releasable (h : g.Sound (k :: pending) p) (hk : k < p.waiting.size)
    (he : k ∉ p.emitted) : Releasable p k := by
  have hpositive : 0 < p.waiting.getD k 0 := by
    rw [h.waiting k, List.count_cons_self]
    omega
  refine ⟨hk, hpositive, ?_, he⟩
  intro hr
  exact Nat.ne_of_gt hpositive ((h.ready k).mp hr).2.2

/-- Every release of a step goes by the books. -/
theorem Sound.releasable_in_step (h : g.Sound [] p) (hg : g.Consistent) (hr : p.ready = i :: rest)
    (hs : ∀ k ∈ g.scheduled, k < p.waiting.size) (hd : g.dependentsOf i = told ++ k :: pending) :
    Releasable (told.foldl DependencyGraph.release (p.pop i rest)) k := by
  have hcome : ∀ m ∈ told ++ k :: pending, m ∈ g.scheduled ∧ m ∉ i :: p.emitted := by
    intro m hm
    exact h.dependent_to_come hg hr (hd ▸ hm)
  obtain ⟨hscheduled, hemitted⟩ := hcome k (List.mem_append_right _ List.mem_cons_self)
  have hpop : g.Sound (told ++ k :: pending) (p.pop i rest) := hd ▸ h.pop hg hr
  have hsound := hpop.foldl_release fun m hm => hcome m (List.mem_append_left _ hm)
  apply hsound.releasable
  · rw [size_foldl_release]
    exact hs k hscheduled
  · rw [emitted_foldl_release]
    exact hemitted

theorem size_prerequisites_ofRegistry (r : Registry) :
    (ofRegistry r).prerequisites.size = r.size := by
  simp [ofRegistry]

theorem size_dependents_ofRegistry (r : Registry) : (ofRegistry r).dependents.size = r.size := by
  simp [ofRegistry, size_foldl_addDependent]

theorem size_waiting_ofRegistry (r : Registry) (n : Nat) :
    ((ofRegistry r).run n (ofRegistry r).start).waiting.size = r.size := by
  rw [size_run, start, Array.size_map, size_prerequisites_ofRegistry]

end DependencyGraph

namespace Registry

open DependencyGraph

variable {r : Registry} {i j : Nat}

theorem lt_size_of_mem_scheduled (h : i ∈ r.scheduled) : i < r.size :=
  List.mem_range.mp (List.mem_filter.mp h).1

theorem lt_size_of_mem_prerequisites (h : j ∈ r.prerequisites i) : j < r.size := by
  obtain ⟨_, b, _, hb, _⟩ := mem_prerequisites.mp h
  exact (List.getElem?_eq_some_iff.mp hb).1

theorem sound_run (r : Registry) (n : Nat) :
    (ofRegistry r).Sound [] ((ofRegistry r).run n (ofRegistry r).start) := by
  have hstart := sound_start (consistent_ofRegistry r)
  obtain ⟨_, _, _, hs, _⟩ := hstart.run (consistent_ofRegistry r) n
  exact hs

theorem ready_finish (r : Registry) : (ofRegistry r).finish.ready = [] := by
  obtain ⟨order, _, he, hend⟩ := finish_spec (consistent_ofRegistry r)
  rw [List.eq_nil_iff_forall_not_mem]
  intro i hi
  have hready : (ofRegistry r).Ready (ofRegistry r).finish.emitted i :=
    (sound_run r r.scheduled.length).mem_ready.mp hi
  rw [he] at hready
  obtain ⟨hs, hne, hall⟩ := hready
  refine hend i ⟨hs, fun hm => hne (List.mem_reverse.mpr hm), ?_⟩
  exact fun j hj => List.mem_reverse.mp (hall j hj)

theorem balanced_run (r : Registry) (n : Nat) :
    Balanced r ((ofRegistry r).run n (ofRegistry r).start) := by
  have hstart := sound_start (consistent_ofRegistry r)
  obtain ⟨order, hgreedy, he, hs, _⟩ := hstart.run (consistent_ofRegistry r) n
  have hcount {i : Nat} (hi : i < r.size) :=
    getElem?_waiting (Nat.lt_of_lt_of_eq hi (size_waiting_ofRegistry r n).symm)
  have hemitted := he.trans (List.append_nil order.reverse)
  refine ⟨?_, ?_, hs.ascending, ?_, ?_⟩
  · intro i hi
    rw [hcount hi, hs.waiting i, List.count_nil, Nat.add_zero, prerequisitesOf_ofRegistry]
  · intro i
    rw [hs.ready i, scheduled_ofRegistry]
    constructor
    · rintro ⟨hi, hne, hw⟩
      exact ⟨hi, hne, (hcount (lt_size_of_mem_scheduled hi)).trans (congrArg some hw)⟩
    · rintro ⟨hi, hne, hw⟩
      rw [hcount (lt_size_of_mem_scheduled hi)] at hw
      exact ⟨hi, hne, Option.some.inj hw⟩
  · rw [hemitted]
    exact List.nodup_reverse.mpr hgreedy.legal.nodup
  · intro i hi
    rw [hemitted, List.mem_reverse] at hi
    exact hgreedy.legal.scheduled hi

/-- The bookkeeping of an emission, for any dependencies. All positions in the graph are in range.
After any number of steps the books are balanced. A step then takes an entry that has not been taken
before, and none of its releases lowers a count of zero or makes an entry ready again; in the end no
entry is ready. -/
theorem emission_keeps_books (r : Registry) :
    (ofRegistry r).prerequisites.size = r.size ∧ (ofRegistry r).dependents.size = r.size ∧
    (∀ i ∈ r.scheduled, i < r.size) ∧ (∀ i, ∀ j ∈ r.prerequisites i, j < r.size) ∧
    (∀ n, let p := (ofRegistry r).run n (ofRegistry r).start
      Balanced r p ∧ ∀ i rest, p.ready = i :: rest →
        i < r.size ∧ i ∉ p.emitted ∧ ((ofRegistry r).step p).emitted = i :: p.emitted ∧
        ∀ told k pending, (ofRegistry r).dependentsOf i = told ++ k :: pending →
          Releasable (told.foldl release (p.pop i rest)) k) ∧
    (ofRegistry r).finish.ready = [] := by
  refine ⟨size_prerequisites_ofRegistry r, size_dependents_ofRegistry r,
    fun i => lt_size_of_mem_scheduled, fun i j => lt_size_of_mem_prerequisites, ?_, ready_finish r⟩
  intro n p
  have hbalanced : Balanced r p := balanced_run r n
  refine ⟨hbalanced, ?_⟩
  intro i rest hr
  obtain ⟨hi, hemitted, _⟩ := (hbalanced.ready i).mp (hr ▸ List.mem_cons_self)
  refine ⟨lt_size_of_mem_scheduled hi, hemitted, emitted_step hr, ?_⟩
  intro told k pending hd
  apply (sound_run r n).releasable_in_step (consistent_ofRegistry r) hr _ hd
  intro m hm
  rw [size_waiting_ofRegistry]
  exact lt_size_of_mem_scheduled hm

/-- The entry at position 3 names the one at position 1 twice, and the first step tells it twice. -/
theorem emission_keeps_books_tangled :
    let g := ofRegistry tangled
    g.start.ready = [1, 4] ∧ g.start.waiting = #[1, 0, 0, 2, 0] ∧ g.dependentsOf 1 = [0, 3, 3] ∧
      Balanced tangled g.start ∧
      Releasable ([0, 3].foldl release (g.start.pop 1 [4])) 3 := by
  intro g
  obtain ⟨hbalanced, hstep⟩ := (emission_keeps_books tangled).2.2.2.2.1 0
  have hr : g.start.ready = [1, 4] := by decide +kernel
  have hd : g.dependentsOf 1 = [0, 3, 3] := by decide +kernel
  obtain ⟨_, _, _, hreleasable⟩ := hstep 1 [4] hr
  exact ⟨hr, by decide +kernel, hd, hbalanced, hreleasable [0, 3] 3 [] hd⟩

end Registry

end ProtocolBindings

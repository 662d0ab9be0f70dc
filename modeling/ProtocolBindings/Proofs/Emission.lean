import Mathlib.Data.List.Lex
import Mathlib.Data.List.Perm.Subperm
import Mathlib.Order.Nat
import ProtocolBindings.Proofs.Dependencies
import ProtocolBindings.Proofs.Precedence

namespace ProtocolBindings

theorem mem_insertAscending {n m : Nat} {l : List Nat} :
    m ∈ insertAscending n l ↔ m = n ∨ m ∈ l := by
  induction l with
  | nil => simp [insertAscending]
  | cons k l ih =>
    unfold insertAscending
    split
    · exact List.mem_cons
    · split
      · next h => simp [h]
      · rw [List.mem_cons, List.mem_cons, ih, or_left_comm]

theorem pairwise_insertAscending {n : Nat} {l : List Nat} (h : l.Pairwise (· < ·)) :
    (insertAscending n l).Pairwise (· < ·) := by
  induction l with
  | nil => exact List.pairwise_singleton _ _
  | cons k l ih =>
    obtain ⟨hk, hl⟩ := List.pairwise_cons.mp h
    unfold insertAscending
    split
    · next hn =>
      refine List.pairwise_cons.mpr ⟨?_, h⟩
      intro m hm
      rcases List.mem_cons.mp hm with rfl | hm
      · exact hn
      · exact Nat.lt_trans hn (hk m hm)
    · split
      · exact h
      · next hn hne =>
        refine List.pairwise_cons.mpr ⟨?_, ih hl⟩
        intro m hm
        rcases mem_insertAscending.mp hm with rfl | hm
        · omega
        · exact hk m hm

namespace DependencyGraph

variable {g : DependencyGraph} {p : Progress} {i j k : Nat} {done pending order rest : List Nat}

/-- The entry may come next once others have been emitted. -/
def Ready (g : DependencyGraph) (done : List Nat) (i : Nat) : Prop :=
  i ∈ g.scheduled ∧ i ∉ done ∧ ∀ j ∈ g.prerequisitesOf i, j ∈ done

/-- Each entry may come next when its turn comes. -/
def Legal (g : DependencyGraph) (done : List Nat) : List Nat → Prop
  | [] => True
  | i :: rest => g.Ready done i ∧ g.Legal (i :: done) rest

/-- Each entry is the least of those that may come next. -/
def Greedy (g : DependencyGraph) (done : List Nat) : List Nat → Prop
  | [] => True
  | i :: rest => (g.Ready done i ∧ ∀ k, g.Ready done k → i ≤ k) ∧ g.Greedy (i :: done) rest

theorem Greedy.legal (h : g.Greedy done order) : g.Legal done order := by
  induction order generalizing done with
  | nil => trivial
  | cons i rest ih => exact ⟨h.1.1, ih h.2⟩

theorem Legal.scheduled (h : g.Legal done order) (hi : i ∈ order) : i ∈ g.scheduled := by
  induction order generalizing done with
  | nil => cases hi
  | cons k rest ih =>
    rcases List.mem_cons.mp hi with rfl | hi
    · exact h.1.1
    · exact ih h.2 hi

theorem Legal.not_mem (h : g.Legal done order) (hi : i ∈ order) : i ∉ done := by
  induction order generalizing done with
  | nil => cases hi
  | cons k rest ih =>
    rcases List.mem_cons.mp hi with rfl | hi
    · exact h.1.2.1
    · exact fun hd => ih h.2 hi (List.mem_cons_of_mem k hd)

theorem Legal.nodup (h : g.Legal done order) : order.Nodup := by
  induction order generalizing done with
  | nil => exact List.nodup_nil
  | cons k rest ih =>
    refine List.nodup_cons.mpr ⟨?_, ih h.2⟩
    intro hk
    exact h.2.not_mem hk List.mem_cons_self

theorem Legal.subperm (h : g.Legal done order) : order.Subperm g.scheduled :=
  List.subperm_of_subset h.nodup fun _ => h.scheduled

theorem Legal.prerequisite_before (h : g.Legal done order) (hi : i ∈ order)
    (hj : j ∈ g.prerequisitesOf i) : j ∈ done ∨ Precedes order j i := by
  induction order generalizing done with
  | nil => cases hi
  | cons k rest ih =>
    rcases List.mem_cons.mp hi with rfl | hr
    · exact .inl (h.1.2.2 j hj)
    · rcases ih h.2 hr with hd | hs
      · rcases List.mem_cons.mp hd with rfl | hd
        · exact .inr (precedes_cons_iff.mpr (.inl ⟨rfl, hr⟩))
        · exact .inl hd
      · exact .inr (precedes_cons_iff.mpr (.inr hs))

/-- An order of different scheduled entries in which none comes before its prerequisites is
legal. -/
theorem legal_of_prerequisites_before (hn : order.Nodup) (hs : ∀ i ∈ order, i ∈ g.scheduled)
    (hd : ∀ i ∈ order, i ∉ done)
    (hp : ∀ i ∈ order, ∀ j ∈ g.prerequisitesOf i, j ∈ done ∨ Precedes order j i) :
    g.Legal done order := by
  induction order generalizing done with
  | nil => trivial
  | cons k rest ih =>
    obtain ⟨hk, hrest⟩ := List.nodup_cons.mp hn
    refine ⟨⟨hs k List.mem_cons_self, hd k List.mem_cons_self, ?_⟩, ih hrest ?_ ?_ ?_⟩
    · intro j hj
      rcases hp k List.mem_cons_self j hj with h | h
      · exact h
      · rcases precedes_cons_iff.mp h with ⟨_, h⟩ | h
        · exact absurd h hk
        · exact absurd h.mem_right hk
    · exact fun i hi => hs i (List.mem_cons_of_mem k hi)
    · intro i hi hmem
      rcases List.mem_cons.mp hmem with rfl | hmem
      · exact hk hi
      · exact hd i (List.mem_cons_of_mem k hi) hmem
    · intro i hi j hj
      rcases hp i (List.mem_cons_of_mem k hi) j hj with h | h
      · exact .inl (List.mem_cons_of_mem k h)
      · rcases precedes_cons_iff.mp h with ⟨rfl, _⟩ | h
        · exact .inl List.mem_cons_self
        · exact .inr h

/-- Among orders of the same length the greedy one is the least. -/
theorem Greedy.le_of_legal {other : List Nat} (h : g.Greedy done order)
    (ho : g.Legal done other) (hl : order.length = other.length) : order ≤ other := by
  induction order generalizing done other with
  | nil => exact le_of_eq (List.length_eq_zero_iff.mp hl.symm).symm
  | cons i rest ih =>
    cases other with
    | nil => cases hl
    | cons k others =>
      rcases Nat.lt_or_eq_of_le (h.1.2 k ho.1) with hlt | rfl
      · exact le_of_lt (List.Lex.rel hlt)
      · exact List.cons_le_cons i (ih h.2 ho.2 (Nat.succ.inj hl))

/-- What holds of the progress while the dependents in `pending` have still to be told of the entry
emitted last. -/
structure Sound (g : DependencyGraph) (pending : List Nat) (p : Progress) : Prop where
  closed : ∀ i ∈ p.emitted, ∀ j ∈ g.prerequisitesOf i, j ∈ p.emitted
  waiting : ∀ i, p.waiting.getD i 0 =
    (g.prerequisitesOf i).countP (· ∉ p.emitted) + pending.count i
  ready : ∀ i, i ∈ p.ready ↔ i ∈ g.scheduled ∧ i ∉ p.emitted ∧ p.waiting.getD i 0 = 0
  ascending : p.ready.Pairwise (· < ·)

theorem Sound.mem_ready (h : g.Sound [] p) : i ∈ p.ready ↔ g.Ready p.emitted i := by
  rw [h.ready, h.waiting, List.count_nil, Nat.add_zero, List.countP_eq_zero]
  simp [Ready]

theorem waiting_start (g : DependencyGraph) (i : Nat) :
    g.start.waiting.getD i 0 = (g.prerequisitesOf i).length := by
  simp only [start, prerequisitesOf, Array.getD_eq_getD_getElem?, Array.getElem?_map]
  cases g.prerequisites[i]? <;> rfl

theorem sound_start (h : g.Consistent) : g.Sound [] g.start where
  closed := by
    intro i hi
    cases hi
  waiting := by
    intro i
    have hall : (g.prerequisitesOf i).countP (· ∉ g.start.emitted) =
        (g.prerequisitesOf i).length := by
      simp [start]
    rw [hall, waiting_start, List.count_nil, Nat.add_zero]
  ready := by
    intro i
    rw [waiting_start]
    simp [start]
  ascending := h.ascending_scheduled.filter _

@[simp] theorem emitted_release (p : Progress) (i : Nat) : (release p i).emitted = p.emitted := rfl

theorem waiting_release (p : Progress) (i k : Nat) :
    (release p i).waiting.getD k 0 =
      if k = i then p.waiting.getD k 0 - 1 else p.waiting.getD k 0 := by
  simp only [release, Array.getD_eq_getD_getElem?, Array.getElem?_modify, eq_comm (a := i)]
  split
  · cases p.waiting[k]? <;> rfl
  · rfl

theorem mem_ready_release : k ∈ (release p i).ready ↔
    (k = i ∧ p.waiting.getD i 0 - 1 = 0) ∨ k ∈ p.ready := by
  unfold release
  dsimp only
  split
  · next h => simp only [mem_insertAscending, h, and_true]
  · next h => simp only [h, and_false, false_or]

theorem Sound.release (h : g.Sound (i :: pending) p) (hs : i ∈ g.scheduled)
    (he : i ∉ p.emitted) : g.Sound pending (release p i) where
  closed := h.closed
  waiting := by
    intro k
    rw [waiting_release, h.waiting k, emitted_release]
    by_cases hk : k = i
    · subst hk
      simp
    · rw [if_neg hk, List.count_cons_of_ne (Ne.symm hk)]
  ready := by
    intro k
    rw [mem_ready_release, h.ready k, waiting_release, emitted_release]
    by_cases hk : k = i
    · subst hk
      have hne : p.waiting.getD k 0 ≠ 0 := by
        rw [h.waiting k, List.count_cons_self]
        omega
      rw [if_pos rfl]
      constructor
      · rintro (⟨_, hw⟩ | ⟨_, _, hw⟩)
        · exact ⟨hs, he, hw⟩
        · exact absurd hw hne
      · rintro ⟨_, _, hw⟩
        exact .inl ⟨rfl, hw⟩
    · simp [hk]
  ascending := by
    unfold DependencyGraph.release
    dsimp only
    split
    · exact pairwise_insertAscending h.ascending
    · exact h.ascending

theorem Sound.foldl_release {told : List Nat} (h : g.Sound (told ++ pending) p)
    (hs : ∀ i ∈ told, i ∈ g.scheduled ∧ i ∉ p.emitted) :
    g.Sound pending (told.foldl DependencyGraph.release p) := by
  induction told generalizing p with
  | nil => exact h
  | cons i told ih =>
    obtain ⟨hi, he⟩ := hs i List.mem_cons_self
    exact ih (h.release hi he) fun k hk => hs k (List.mem_cons_of_mem i hk)

theorem emitted_foldl_release (told : List Nat) (p : Progress) :
    (told.foldl release p).emitted = p.emitted := by
  induction told generalizing p with
  | nil => rfl
  | cons i told ih => exact ih (DependencyGraph.release p i)

theorem countP_not_mem_cons {done l : List Nat} (hi : i ∉ done) :
    l.countP (· ∉ done) = l.countP (· ∉ i :: done) + l.count i := by
  induction l with
  | nil => rfl
  | cons k l ih =>
    rw [List.countP_cons, List.countP_cons, List.count_cons, ih]
    by_cases hk : k = i
    · subst hk
      rw [if_pos (decide_eq_true hi), if_neg (by simp), if_pos (beq_self_eq_true k)]
      omega
    · have hsame : decide (k ∉ i :: done) = decide (k ∉ done) := by simp [hk]
      rw [hsame, if_neg (beq_iff_eq.not.mpr hk)]
      omega

/-- The first ready entry is taken, and its dependents are still to be told. -/
theorem Sound.pop (h : g.Sound [] p) (hg : g.Consistent) (hr : p.ready = i :: rest) :
    g.Sound (g.dependentsOf i) { p with ready := rest, emitted := i :: p.emitted } where
  closed := by
    intro k hk j hj
    rcases List.mem_cons.mp hk with rfl | hk
    · have hi : g.Ready p.emitted k := h.mem_ready.mp (hr ▸ List.mem_cons_self)
      exact List.mem_cons_of_mem k (hi.2.2 j hj)
    · exact List.mem_cons_of_mem i (h.closed k hk j hj)
  waiting := by
    intro k
    have hi : g.Ready p.emitted i := h.mem_ready.mp (hr ▸ List.mem_cons_self)
    rw [hg.count_dependentsOf]
    exact (h.waiting k).trans (countP_not_mem_cons hi.2.1)
  ready := by
    intro k
    have hk := h.ready k
    have hrest : ∀ m ∈ rest, i < m := (List.pairwise_cons.mp (hr ▸ h.ascending)).1
    rw [hr, List.mem_cons] at hk
    constructor
    · intro hm
      obtain ⟨hs, he, hw⟩ := hk.mp (.inr hm)
      refine ⟨hs, ?_, hw⟩
      intro hmem
      rcases List.mem_cons.mp hmem with rfl | hmem
      · exact Nat.lt_irrefl k (hrest k hm)
      · exact he hmem
    · rintro ⟨hs, he, hw⟩
      rw [List.mem_cons, not_or] at he
      exact (hk.mpr ⟨hs, he.2, hw⟩).resolve_left he.1
  ascending := (List.pairwise_cons.mp (hr ▸ h.ascending)).2

theorem step_of_ready (hr : p.ready = i :: rest) : g.step p =
    (g.dependentsOf i).foldl release { p with ready := rest, emitted := i :: p.emitted } := by
  unfold step
  rw [hr]

theorem step_of_not_ready (hr : p.ready = []) : g.step p = p := by
  unfold step
  rw [hr]

/-- The dependents of the entry that is taken are still to come. -/
theorem Sound.dependent_to_come (h : g.Sound [] p) (hg : g.Consistent) (hr : p.ready = i :: rest)
    (hk : k ∈ g.dependentsOf i) : k ∈ g.scheduled ∧ k ∉ i :: p.emitted := by
  have hi := hg.mem_dependentsOf.mp hk
  refine ⟨hg.scheduled_of_prerequisite hi, ?_⟩
  intro hmem
  rcases List.mem_cons.mp hmem with rfl | hmem
  · exact hg.prerequisite_ne hi rfl
  · have hready : g.Ready p.emitted i := h.mem_ready.mp (hr ▸ List.mem_cons_self)
    exact hready.2.1 (h.closed k hmem i hi)

theorem Sound.step (h : g.Sound [] p) (hg : g.Consistent) (hr : p.ready = i :: rest) :
    g.Sound [] (g.step p) := by
  have hpop := h.pop hg hr
  rw [step_of_ready hr]
  apply Sound.foldl_release
  · rwa [List.append_nil]
  · exact fun k => h.dependent_to_come hg hr

theorem emitted_step (hr : p.ready = i :: rest) : (g.step p).emitted = i :: p.emitted := by
  rw [step_of_ready hr, emitted_foldl_release]

theorem Sound.least_ready (h : g.Sound [] p) (hr : p.ready = i :: rest) (hk : g.Ready p.emitted k) :
    i ≤ k := by
  have hmem := h.mem_ready.mpr hk
  rw [hr] at hmem
  rcases List.mem_cons.mp hmem with rfl | hmem
  · exact Nat.le_refl k
  · exact Nat.le_of_lt ((List.pairwise_cons.mp (hr ▸ h.ascending)).1 k hmem)

theorem run_of_not_ready (hr : p.ready = []) (n : Nat) : g.run n p = p := by
  induction n with
  | zero => rfl
  | succ n ih => rw [run, step_of_not_ready hr, ih]

/-- Steps emit a greedy order, one entry each until there are none that may come next. -/
theorem Sound.run (h : g.Sound [] p) (hg : g.Consistent) (n : Nat) :
    ∃ order, g.Greedy p.emitted order ∧ (g.run n p).emitted = order.reverse ++ p.emitted ∧
      g.Sound [] (g.run n p) ∧ (order.length = n ∨ (g.run n p).ready = []) := by
  induction n generalizing p with
  | zero => exact ⟨[], trivial, rfl, h, .inl rfl⟩
  | succ n ih =>
    cases hr : p.ready with
    | nil =>
      rw [run_of_not_ready hr]
      exact ⟨[], trivial, rfl, h, .inr hr⟩
    | cons i rest =>
      obtain ⟨order, hgreedy, he, hs, hl⟩ := ih (h.step hg hr)
      rw [emitted_step hr] at hgreedy he
      refine ⟨i :: order, ⟨⟨?_, ?_⟩, hgreedy⟩, ?_, hs, ?_⟩
      · exact h.mem_ready.mp (hr ▸ List.mem_cons_self)
      · exact fun k hk => h.least_ready hr hk
      · rw [DependencyGraph.run, he]
        simp
      · rcases hl with hl | hl
        · exact .inl (congrArg Nat.succ hl)
        · exact .inr hl

/-- The emission ends where no entry may come next. -/
theorem finish_spec (hg : g.Consistent) :
    ∃ order, g.Greedy [] order ∧ g.finish.emitted = order.reverse ∧ ∀ i, ¬ g.Ready order i := by
  obtain ⟨order, hgreedy, he, hs, hl⟩ := (sound_start hg).run hg g.scheduled.length
  refine ⟨order, hgreedy, he.trans (List.append_nil _), ?_⟩
  intro i hi
  rcases hl with hl | hl
  · have hperm := hgreedy.legal.subperm.perm_of_length_le (Nat.le_of_eq hl.symm)
    exact hi.2.1 (hperm.mem_iff.mpr hi.1)
  · have hmem : i ∈ (g.run g.scheduled.length g.start).ready := by
      rw [hs.mem_ready, he]
      refine ⟨hi.1, ?_, fun j hj => ?_⟩
      · simpa [start] using hi.2.1
      · simpa [start] using hi.2.2 j hj
    rw [hl] at hmem
    cases hmem

end DependencyGraph

open DependencyGraph in
/-- Either every scheduled entry is emitted, or the emission stops at entries that wait for each
other. -/
theorem Registry.emissionOrder_cases (r : Registry) :
    ∃ order, (ofRegistry r).Greedy [] order ∧ (ofRegistry r).finish.emitted = order.reverse ∧
      (order.Perm r.scheduled ∧ r.emissionOrder = .ok (r.entriesAt order) ∨
        (∃ i ∈ r.scheduled, i ∉ order) ∧ (∀ i, ¬ (ofRegistry r).Ready order i) ∧
          r.emissionOrder = .error (.dependencyCycle
            ((r.entriesAt ((ofRegistry r).cycle order.reverse)).map Entry.name))) := by
  obtain ⟨order, hgreedy, he, hend⟩ := finish_spec (consistent_ofRegistry r)
  have hsub : order.Subperm r.scheduled := hgreedy.legal.subperm
  refine ⟨order, hgreedy, he, ?_⟩
  unfold emissionOrder
  simp only [he, List.length_reverse, List.reverse_reverse, scheduled_ofRegistry]
  split
  · next hlt =>
    refine .inr ⟨?_, hend, ?_⟩
    · by_contra hall
      have hsup : r.scheduled ⊆ order := fun i hi => by_contra fun hn => hall ⟨i, hi, hn⟩
      exact Nat.not_le.mpr hlt (List.subperm_of_subset r.nodup_scheduled hsup).length_le
    · rw [entriesAt, List.map_filterMap]
  · next hle => exact .inl ⟨hsub.perm_of_length_le (Nat.le_of_not_lt hle), rfl⟩

end ProtocolBindings

import ProtocolBindings.Types.ValueKind

namespace ProtocolBindings

namespace TypeSpec

/-- The second type is the only item of the first one, null markers apart. -/
inductive Unwraps : TypeSpec → TypeSpec → Prop
  | or {items : List TypeSpec} {item : TypeSpec} (h : live items = [item]) :
    Unwraps (.or items) item
  | tuple {items : List TypeSpec} {item : TypeSpec} (h : live items = [item]) :
    Unwraps (.tuple items) item

variable {t u : TypeSpec} {items : List TypeSpec}

theorem mem_live {item : TypeSpec} : item ∈ live items ↔ item ∈ items ∧ item.isNull = false := by
  simp [live, List.mem_filter]

theorem mem_of_live_eq {item : TypeSpec} (h : live items = [item]) :
    item ∈ items ∧ item.isNull = false := by
  rw [← mem_live, h]
  exact List.mem_singleton_self item

theorem Unwraps.isNull_eq_false (h : Unwraps t u) : u.isNull = false := by
  cases h with
  | or h => exact (mem_of_live_eq h).2
  | tuple h => exact (mem_of_live_eq h).2

theorem Unwraps.sizeOf_lt (h : Unwraps t u) : sizeOf u < sizeOf t := by
  cases h with
  | or h =>
    have hlt := List.sizeOf_lt_of_mem (mem_of_live_eq h).1
    rw [or.sizeOf_spec]
    omega
  | tuple h =>
    have hlt := List.sizeOf_lt_of_mem (mem_of_live_eq h).1
    rw [tuple.sizeOf_spec]
    omega

theorem unwrapping_induction {P : TypeSpec → Prop} (rest : ∀ t, (∀ u, ¬ Unwraps t u) → P t)
    (step : ∀ t u, Unwraps t u → P u → P t) (t : TypeSpec) : P t := by
  by_cases h : ∃ u, Unwraps t u
  · obtain ⟨u, hu⟩ := h
    have := hu.sizeOf_lt
    exact step t u hu (unwrapping_induction rest step u)
  · exact rest t (not_exists.mp h)
termination_by sizeOf t

theorem coreOfOnly_of_live_eq {item : TypeSpec} (h : live items = [item]) :
    coreOfOnly items = some item.core := by
  induction items with
  | nil => cases h
  | cons first items ih =>
    rw [coreOfOnly]
    by_cases hn : first.isNull = true
    · rw [if_pos hn]
      rw [live, List.filter_cons_of_neg (by simp [hn])] at h
      exact ih h
    · rw [if_neg hn]
      rw [live, List.filter_cons_of_pos (by simp [hn])] at h
      obtain ⟨rfl, hrest⟩ := List.cons.inj h
      rw [live, hrest]
      rfl

theorem exists_of_coreOfOnly {c : TypeSpec} (h : coreOfOnly items = some c) :
    ∃ item, live items = [item] := by
  induction items with
  | nil => cases h
  | cons first items ih =>
    rw [coreOfOnly] at h
    by_cases hn : first.isNull = true
    · rw [if_pos hn] at h
      rw [live, List.filter_cons_of_neg (by simp [hn])]
      exact ih h
    · rw [if_neg hn] at h
      rw [live, List.filter_cons_of_pos (by simp [hn])]
      split at h
      · next hrest => exact ⟨first, congrArg (first :: ·) (List.isEmpty_iff.mp hrest)⟩
      · cases h

theorem Unwraps.core_eq (h : Unwraps t u) : t.core = u.core := by
  cases h with
  | or h => rw [core, coreOfOnly_of_live_eq h, Option.getD_some]
  | tuple h => rw [core, coreOfOnly_of_live_eq h, Option.getD_some]

theorem core_eq_self (h : ∀ u, ¬ Unwraps t u) : t.core = t := by
  cases t with
  | or items =>
    rw [core]
    cases hc : coreOfOnly items with
    | none => rfl
    | some c =>
      obtain ⟨item, hl⟩ := exists_of_coreOfOnly hc
      exact (h item (.or hl)).elim
  | tuple items =>
    rw [core]
    cases hc : coreOfOnly items with
    | none => rfl
    | some c =>
      obtain ⟨item, hl⟩ := exists_of_coreOfOnly hc
      exact (h item (.tuple hl)).elim
  | _ => rw [core]

theorem not_unwraps_core (t : TypeSpec) : ∀ u, ¬ Unwraps t.core u := by
  induction t using unwrapping_induction with
  | rest t h =>
    rw [core_eq_self h]
    exact h
  | step t u h ih =>
    rw [h.core_eq]
    exact ih

end TypeSpec

end ProtocolBindings

import Mathlib.Data.List.Nodup

namespace ProtocolBindings

variable {α β : Type} {order rest : List α} {a b c k : α}

def Precedes (order : List α) (a b : α) : Prop :=
  [a, b].Sublist order

theorem precedes_cons_iff :
    Precedes (k :: rest) a b ↔ (a = k ∧ b ∈ rest) ∨ Precedes rest a b := by
  unfold Precedes
  rw [List.sublist_cons_iff]
  constructor
  · rintro (h | ⟨l, hl, hs⟩)
    · exact .inr h
    · cases hl
      exact .inl ⟨rfl, List.singleton_sublist.mp hs⟩
  · rintro (⟨rfl, h⟩ | h)
    · exact .inr ⟨[b], rfl, List.singleton_sublist.mpr h⟩
    · exact .inl h

theorem Precedes.mem_right (h : Precedes order a b) : b ∈ order :=
  h.subset (List.mem_cons_of_mem a List.mem_cons_self)

theorem Precedes.ne (h : Precedes order a b) (hn : order.Nodup) : a ≠ b := by
  have hab := hn.sublist h
  simpa using hab

theorem Precedes.trans (hn : order.Nodup) (hab : Precedes order a b) (hbc : Precedes order b c) :
    Precedes order a c := by
  induction order with
  | nil => cases hab
  | cons k rest ih =>
    obtain ⟨hk, hrest⟩ := List.nodup_cons.mp hn
    have hb : b ∈ rest := by
      rcases precedes_cons_iff.mp hab with ⟨_, hb⟩ | h
      · exact hb
      · exact h.mem_right
    have hbc' : Precedes rest b c := by
      rcases precedes_cons_iff.mp hbc with ⟨rfl, _⟩ | h
      · exact absurd hb hk
      · exact h
    rcases precedes_cons_iff.mp hab with ⟨rfl, _⟩ | h
    · exact precedes_cons_iff.mpr (.inl ⟨rfl, hbc'.mem_right⟩)
    · exact precedes_cons_iff.mpr (.inr (ih hrest h hbc'))

theorem Precedes.map (f : α → β) (h : Precedes order a b) :
    Precedes (order.map f) (f a) (f b) :=
  List.Sublist.map f h

theorem Precedes.filterMap {f : α → Option β} {x y : β} (h : Precedes order a b)
    (hx : f a = some x) (hy : f b = some y) : Precedes (order.filterMap f) x y := by
  have hs := List.Sublist.filterMap f h
  rw [List.filterMap_cons_some hx, List.filterMap_cons_some hy, List.filterMap_nil] at hs
  exact hs

theorem Precedes.filter {p : α → Bool} (h : Precedes order a b) (ha : p a = true)
    (hb : p b = true) : Precedes (order.filter p) a b := by
  have hs := List.Sublist.filter p h
  rw [List.filter_cons_of_pos ha, List.filter_cons_of_pos hb, List.filter_nil] at hs
  exact hs

end ProtocolBindings

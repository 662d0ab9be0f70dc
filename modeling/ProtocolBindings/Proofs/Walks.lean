import Mathlib.Data.List.Chain
import Mathlib.Logic.Relation

namespace ProtocolBindings

variable {α : Type} {R : α → α → Prop} {path walk : List α} {a b : α}

/-- A walk that ends where it began, and passes nothing else twice. -/
structure IsLoop (R : α → α → Prop) (walk : List α) : Prop where
  length : 2 ≤ walk.length
  closed : walk.head? = walk.getLast?
  nodup : walk.dropLast.Nodup
  chain : walk.IsChain R

theorem IsLoop.transGen (h : IsLoop R walk) : ∃ a ∈ walk, Relation.TransGen R a a := by
  obtain ⟨hlength, hclosed, _, hchain⟩ := h
  match walk with
  | [] | [_] => simp at hlength
  | a :: b :: rest =>
    have hlast : (b :: rest).getLast (List.cons_ne_nil b rest) = a := by
      rw [List.head?_cons, List.getLast?_cons_cons, List.getLast?_eq_getLast_of_ne_nil] at hclosed
      exact (Option.some.inj hclosed).symm
    obtain ⟨hab, hrest⟩ := List.isChain_cons_cons.mp hchain
    refine ⟨a, List.mem_cons_self, ?_⟩
    exact .head' hab (List.relationReflTransGen_of_exists_isChain_cons rest hrest hlast)

theorem IsLoop.imp (h : IsLoop R walk) {S : α → α → Prop} (hRS : ∀ a b, R a b → S a b) :
    IsLoop S walk :=
  { h with chain := h.chain.imp hRS }

theorem IsLoop.three_le_length (h : IsLoop R walk) (hR : ∀ a, ¬ R a a) : 3 ≤ walk.length := by
  obtain ⟨hlength, hclosed, _, hchain⟩ := h
  match walk with
  | [] | [_] => simp at hlength
  | [a, b] =>
    have hab : a = b := Option.some.inj hclosed
    exact absurd (List.isChain_pair.mp hchain) (hab ▸ hR a)
  | _ :: _ :: _ :: _ => simp

theorem isChain_concat (h : (path ++ [a]).IsChain R) (hab : R a b) :
    (path ++ [a] ++ [b]).IsChain R := by
  refine h.append (List.isChain_singleton _) ?_
  intro x hx y hy
  rw [List.getLast?_concat] at hx
  cases hx
  cases hy
  exact hab

variable [DecidableEq α]

theorem dropWhile_ne_eq_cons (h : a ∈ path) : ∃ rest, path.dropWhile (· ≠ a) = a :: rest := by
  induction path with
  | nil => cases h
  | cons b path ih =>
    by_cases hb : b = a
    · exact ⟨path, by simp [hb]⟩
    · obtain ⟨rest, hrest⟩ := ih ((List.mem_cons.mp h).resolve_left (Ne.symm hb))
      exact ⟨rest, by simpa [hb] using hrest⟩

/-- A walk that comes back to its path has closed a loop: the path from there on. -/
theorem isLoop_of_mem (hn : path.Nodup) (hc : (path ++ [a]).IsChain R) (ha : a ∈ path) :
    IsLoop R (path.dropWhile (· ≠ a) ++ [a]) := by
  obtain ⟨rest, hrest⟩ := dropWhile_ne_eq_cons ha
  obtain ⟨lead, hlead⟩ := List.dropWhile_suffix (l := path) (· ≠ a)
  rw [hrest] at hlead ⊢
  refine ⟨by simp, ?_, ?_, ?_⟩
  · rw [List.getLast?_concat]
    rfl
  · rw [List.dropLast_concat]
    exact (List.nodup_append.mp (hlead ▸ hn)).2.1
  · rw [← hlead, List.append_assoc] at hc
    exact hc.right_of_append

end ProtocolBindings

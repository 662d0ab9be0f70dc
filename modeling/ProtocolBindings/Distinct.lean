namespace ProtocolBindings

variable {α β : Type} [DecidableEq β]

/-- Keeps the first element of each key. -/
def distinctBy (key : α → β) : List α → List α
  | [] => []
  | a :: as => a :: (distinctBy key as).filter (key · ≠ key a)

theorem distinctBy_subset (key : α → β) (as : List α) : distinctBy key as ⊆ as := by
  induction as with
  | nil => exact List.Subset.refl _
  | cons a as ih =>
    rw [distinctBy]
    exact List.cons_subset_cons a (List.Subset.trans List.filter_sublist.subset ih)

theorem mem_distinctBy_id {b : β} {bs : List β} : b ∈ distinctBy id bs ↔ b ∈ bs := by
  induction bs with
  | nil => rfl
  | cons c bs ih =>
    rw [distinctBy, List.mem_cons, List.mem_cons, List.mem_filter, ih]
    by_cases h : b = c
    · simp [h]
    · simp [h]

/-- Adds an element at the end unless its key is there. -/
def addNew (key : α → β) (as : List α) (a : α) : List α :=
  if as.any (key · = key a) then as else as ++ [a]

/-- Adding one element after the other keeps the first of each key that is new. -/
theorem foldl_addNew (key : α → β) (as bs : List α) :
    bs.foldl (addNew key) as = as ++ (distinctBy key bs).filter (key · ∉ as.map key) := by
  induction bs generalizing as with
  | nil => exact (List.append_nil as).symm
  | cons b bs ih =>
    rw [List.foldl_cons, ih, distinctBy, addNew, List.filter_cons, List.filter_filter]
    by_cases hb : key b ∈ as.map key
    · have hany : as.any (key · = key b) = true := by simpa using hb
      rw [if_pos hany, if_neg (by simpa using hb)]
      congr 1
      apply List.filter_congr
      intro c _
      by_cases hc : key c = key b
      · simp [hc, List.mem_map.mp hb]
      · simp [hc]
    · have hany : ¬ as.any (key · = key b) = true := by simpa using hb
      rw [if_neg hany, if_pos (by simpa using hb), List.append_assoc, List.singleton_append]
      congr 2
      apply List.filter_congr
      intro c _
      rw [← Bool.decide_and, decide_eq_decide, List.map_append, List.mem_append, not_or]
      simp

/-- The first element whose key an earlier element has too. -/
def firstRepeated (seen : List β) : List β → Option β
  | [] => none
  | b :: bs => if b ∈ seen then some b else firstRepeated (b :: seen) bs

/-- The elements with a key that is not on a list. -/
def without (key : α → β) (passed : List β) (as : List α) : List α :=
  as.filter (key · ∉ passed)

/-- Passing one more of the elements left makes them fewer. -/
theorem length_without_lt {key : α → β} {passed more : List β} {as : List α} {a : α}
    (ha : a ∈ as) (hp : key a ∉ passed) (hm : key a ∈ more) :
    (without key (passed ++ more) as).length < (without key passed as).length := by
  induction as with
  | nil => cases ha
  | cons b bs ih =>
    have hle : (without key (passed ++ more) bs).length ≤ (without key passed bs).length := by
      have hs : without key (passed ++ more) bs =
          (without key passed bs).filter (key · ∉ more) := by
        simp [without, List.filter_filter, Bool.and_comm]
      rw [hs]
      exact List.length_filter_le _ _
    rcases List.mem_cons.mp ha with rfl | ha'
    · simp only [without, List.filter_cons, List.mem_append, hp, hm, or_true, not_true_eq_false,
        decide_false, not_false_eq_true, decide_true, if_true, List.length_cons] at hle ⊢
      exact Nat.lt_succ_of_le hle
    · have hlt := ih ha'
      by_cases hb : key b ∈ passed
      · simpa [without, hb] using hlt
      · by_cases hb' : key b ∈ more
        · simpa [without, hb, hb'] using Nat.lt_succ_of_lt hlt
        · simpa [without, hb, hb'] using hlt

end ProtocolBindings

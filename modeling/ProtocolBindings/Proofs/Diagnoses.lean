import ProtocolBindings.Proofs.Verification

namespace ProtocolBindings

/-- What comes again is found at its first repetition. -/
theorem exists_of_firstRepeated {β : Type} [DecidableEq β] {seen bs : List β} {b : β}
    (h : firstRepeated seen bs = some b) :
    ∃ before after, bs = before ++ b :: after ∧ (b ∈ before ∨ b ∈ seen) ∧
      firstRepeated seen before = none := by
  induction bs generalizing seen with
  | nil => cases h
  | cons c bs ih =>
    rw [firstRepeated] at h
    by_cases hc : c ∈ seen
    · rw [if_pos hc] at h
      cases h
      exact ⟨[], bs, rfl, .inr hc, rfl⟩
    · rw [if_neg hc] at h
      obtain ⟨before, after, rfl, hb, hn⟩ := ih h
      refine ⟨c :: before, after, rfl, ?_, ?_⟩
      · rw [List.mem_cons] at hb ⊢
        tauto
      · rw [firstRepeated, if_neg hc, hn]

namespace Schema

variable {schema : Schema} {s : Structure} {child : String} {p : TypeSpec} {e : SchemaError}
  {names : List String}

theorem exists_repeated_definition {name : String}
    (h : firstRepeated [] schema.definedNames = some name) :
    ∃ before after, schema.definedNames = before ++ name :: after ∧ name ∈ before ∧
      before.Nodup := by
  obtain ⟨before, after, hnames, hmem, hfirst⟩ := exists_of_firstRepeated h
  exact ⟨before, after, hnames, hmem.resolve_right List.not_mem_nil,
    (firstRepeated_eq_none.mp hfirst).1⟩

/-- How an error names a parent: by the name that it refers to, or else by its form. -/
def parentWord : TypeSpec → String
  | .reference name => name
  | other => other.kind.word

theorem parent_eq_error (h : schema.parent child p = .error e) :
    ¬ schema.IsStructure p ∧ e = .unknownParent child (parentWord p) := by
  constructor
  · intro hk
    obtain ⟨t, ht⟩ := (exists_parent_eq_ok child).mpr hk
    cases ht.symm.trans h
  · unfold parent at h
    split at h
    · split at h
      · cases h
      · cases h
        rfl
    · next hp =>
      cases h
      cases p with
      | reference name => exact absurd rfl (hp name)
      | _ => rfl

/-- The structure has a parent that is none, the first one in the model with the first of its
parents, under the names by which an error tells of them. -/
def FirstUnknown (schema : Schema) (child parent : String) : Prop :=
  ∃ before s after earlier p later,
    schema.structures = before ++ s :: after ∧ s.parents = earlier ++ p :: later ∧
    (∀ t ∈ before, ∀ q ∈ t.parents, schema.IsStructure q) ∧
    (∀ q ∈ earlier, schema.IsStructure q) ∧ ¬ schema.IsStructure p ∧
    child = s.name ∧ parent = parentWord p

theorem firstUnknown_of_firstUnknownParent (h : schema.firstUnknownParent = some e) :
    ∃ child parent, e = .unknownParent child parent ∧ schema.FirstUnknown child parent := by
  obtain ⟨before, s, after, hstructures, hs, hbefore⟩ := List.findSome?_eq_some_iff.mp h
  obtain ⟨earlier, p, later, hparents, hp, hearlier⟩ := List.findSome?_eq_some_iff.mp hs
  split at hp
  · cases hp
  · next d hd =>
    cases hp
    obtain ⟨hunknown, rfl⟩ := parent_eq_error hd
    refine ⟨s.name, parentWord p, rfl, before, s, after, earlier, p, later, hstructures, hparents,
      ?_, ?_, hunknown, rfl, rfl⟩
    · intro t ht q hq
      have hnone := List.findSome?_eq_none_iff.mp (hbefore t ht) q hq
      split at hnone
      · next hok => exact (exists_parent_eq_ok _).mp ⟨_, hok⟩
      · cases hnone
    · intro q hq
      have hnone := hearlier q hq
      split at hnone
      · next hok => exact (exists_parent_eq_ok _).mp ⟨_, hok⟩
      · cases hnone

/-- A structure of the name has the parent: the one at which a walk starts, or the one that the name
stands for. -/
def HasParentFrom (schema : Schema) (s : Structure) (child : String) (p : TypeSpec) : Prop :=
  ∃ t, (t = s ∨ schema.structure? child = some t) ∧ t.name = child ∧ p ∈ t.parents

theorem HasParent.hasParentFrom (h : schema.HasParent child p) :
    schema.HasParentFrom s child p := by
  obtain ⟨t, ht, hp⟩ := h
  exact ⟨t, .inr ht, (mem_structures_of_structure? ht).2, hp⟩

theorem HasParentFrom.hasParent (h : schema.HasParentFrom s child p)
    (hs : schema.structure? s.name = some s) : schema.HasParent child p := by
  obtain ⟨t, rfl | ht, rfl, hp⟩ := h
  · exact ⟨t, hs, hp⟩
  · exact ⟨t, ht, hp⟩

/-- A cycle met while fields are collected is a walk along parents that closes. -/
theorem isLoop_of_flatten (h : schema.flatten s = .error (.inheritanceCycle names)) :
    IsLoop (fun child parent => schema.HasParentFrom s child (.reference parent)) names := by
  obtain ⟨p, hp, hi⟩ := exists_of_flatten_eq_error h
  have hstart : schema.inherited ([] ++ [s.name]) s.name p =
      .error (.inheritanceCycle names) := hi
  rcases fault_of_inherited (schema.HasParentFrom s) (fun _ _ h => h.hasParentFrom) hstart
    (List.nodup_singleton _) (List.isChain_singleton _) ⟨s, .inl rfl, rfl, hp⟩ with
    ⟨_, _, _, he⟩ | ⟨_, he, hl⟩
  · obtain ⟨_, he⟩ := exists_of_parent_error he
    cases he
  · cases he
    exact hl

/-- The checks report a name that is defined twice, and the first such, whenever there is one; or
else the first parent that is no structure; or else a cycle. Cycles, also those met while the fields
of any structure are collected, are walks along parents that come back to their first name and pass
no other one twice. -/
theorem faults_are_precise (schema : Schema) :
    (∀ e, schema.verify = .error e →
      ((∃ name, e = .duplicateDefinition name) ↔ ¬ schema.definedNames.Nodup) ∧
      (∀ name, e = .duplicateDefinition name → ∃ before after,
        schema.definedNames = before ++ name :: after ∧ name ∈ before ∧ before.Nodup) ∧
      (schema.definedNames.Nodup →
        ((∃ child parent, e = .unknownParent child parent) ↔ ¬ schema.KnowsParents) ∧
        (∀ child parent, e = .unknownParent child parent → schema.FirstUnknown child parent) ∧
        (schema.KnowsParents → ∃ names, e = .inheritanceCycle names ∧
          IsLoop schema.Extends names))) ∧
      ∀ s names, schema.flatten s = .error (.inheritanceCycle names) →
        IsLoop (fun child parent => schema.HasParentFrom s child (.reference parent)) names ∧
        (schema.structure? s.name = some s → IsLoop schema.Extends names) := by
  constructor
  · intro e he
    rcases fault_of_verify he with ⟨name, hr, rfl⟩ | ⟨hd, hu | ⟨hk, names, rfl, hl⟩⟩
    · have hnot : ¬ schema.definedNames.Nodup := by
        intro hd
        rw [firstRepeated_eq_none.mpr ⟨hd, fun _ _ => List.not_mem_nil⟩] at hr
        cases hr
      refine ⟨iff_of_true ⟨name, rfl⟩ hnot, ?_, fun hd => absurd hd hnot⟩
      intro other h
      cases h
      exact exists_repeated_definition hr
    · have hnot : ¬ schema.KnowsParents := by
        intro hk
        rw [firstUnknownParent_eq_none.mpr hk] at hu
        cases hu
      obtain ⟨child, parent, rfl, hfirst⟩ := firstUnknown_of_firstUnknownParent hu
      refine ⟨iff_of_false ?_ (not_not.mpr hd), ?_, fun _ => ⟨iff_of_true ⟨child, parent, rfl⟩ hnot,
        ?_, fun hk => absurd hk hnot⟩⟩
      · rintro ⟨name, h⟩
        cases h
      · intro name h
        cases h
      · intro _ _ h
        cases h
        exact hfirst
    · refine ⟨iff_of_false ?_ (not_not.mpr hd), ?_, fun _ => ⟨iff_of_false ?_ (not_not.mpr hk), ?_,
        fun _ => ⟨names, rfl, hl⟩⟩⟩
      · rintro ⟨name, h⟩
        cases h
      · intro name h
        cases h
      · rintro ⟨child, parent, h⟩
        cases h
      · intro _ _ h
        cases h
  · intro s names h
    have hl := isLoop_of_flatten h
    exact ⟨hl, fun hs => hl.imp fun _ _ hp => hp.hasParent hs⟩

/-- Two structures that inherit from each other, reached after one that is in order and through one
that is not part of the circle. -/
def knots : Schema where
  structures := [
    { name := "Base" },
    { name := "Lead", bases := [.reference "Base", .reference "Ring"] },
    { name := "Ring", bases := [.reference "Base"], mixins := [.reference "Knot"] },
    { name := "Knot", bases := [.reference "Ring"] }]

def stray : Structure where
  name := "Stray"
  bases := [.reference "Knot"]

theorem faults_are_precise_knots :
    knots.verify = .error (.inheritanceCycle ["Ring", "Knot", "Ring"]) ∧
      knots.definedNames.Nodup ∧ knots.KnowsParents ∧
      IsLoop knots.Extends ["Ring", "Knot", "Ring"] ∧
      knots.flatten stray = .error (.inheritanceCycle ["Knot", "Ring", "Knot"]) ∧
      IsLoop (fun child parent => knots.HasParentFrom stray child (.reference parent))
        ["Knot", "Ring", "Knot"] := by
  have hverify : knots.verify = .error (.inheritanceCycle ["Ring", "Knot", "Ring"]) := by
    decide +kernel
  have hflatten : knots.flatten stray = .error (.inheritanceCycle ["Knot", "Ring", "Knot"]) := by
    cbv
  have hdistinct : knots.definedNames.Nodup := by decide
  have hknown : knots.KnowsParents := firstUnknownParent_eq_none.mp (by decide)
  obtain ⟨hchecks, hfields⟩ := knots.faults_are_precise
  obtain ⟨_, _, hothers⟩ := hchecks _ hverify
  obtain ⟨_, _, hcycle⟩ := hothers hdistinct
  obtain ⟨names, he, hloop⟩ := hcycle hknown
  cases he
  exact ⟨hverify, hdistinct, hknown, hloop, hflatten, (hfields _ _ hflatten).1⟩

end Schema

end ProtocolBindings

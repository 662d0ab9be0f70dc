import ProtocolBindings.Proofs.Inheritance

namespace ProtocolBindings

theorem firstRepeated_eq_none {β : Type} [DecidableEq β] {seen bs : List β} :
    firstRepeated seen bs = none ↔ bs.Nodup ∧ ∀ b ∈ bs, b ∉ seen := by
  induction bs generalizing seen with
  | nil => simp [firstRepeated]
  | cons b bs ih =>
    rw [firstRepeated]
    by_cases hb : b ∈ seen
    · simp [hb]
    · rw [if_neg hb, ih, List.nodup_cons, List.forall_mem_cons]
      constructor
      · rintro ⟨hn, hs⟩
        refine ⟨⟨fun hm => hs b hm List.mem_cons_self, hn⟩, hb, ?_⟩
        intro c hc hm
        exact hs c hc (List.mem_cons_of_mem b hm)
      · rintro ⟨⟨hm, hn⟩, _, hs⟩
        refine ⟨hn, ?_⟩
        intro c hc hcb
        rcases List.mem_cons.mp hcb with rfl | hcs
        · exact hm hc
        · exact hs c hc hcs

namespace Schema

variable {schema : Schema} {s t : Structure} {name : String} {e : SchemaError}

def Inherits (schema : Schema) (child parent : Structure) : Prop :=
  child ∈ schema.structures ∧ parent ∈ schema.structures ∧
    .reference parent.name ∈ child.parents

def KnowsParents (schema : Schema) : Prop :=
  ∀ s ∈ schema.structures, ∀ p ∈ s.parents, schema.IsStructure p

/-- One definition for each name, structures as parents, no structure among its own ancestors. -/
structure WellFormed (schema : Schema) : Prop where
  distinct : schema.definedNames.Nodup
  parents : schema.KnowsParents
  acyclic : ∀ s, ¬ Relation.TransGen schema.Inherits s s

theorem structure?_of_mem (hd : schema.definedNames.Nodup) (hs : s ∈ schema.structures) :
    schema.structure? s.name = some s := by
  have hnames : (schema.structures.map (·.name)).Nodup := by
    rw [definedNames, List.append_assoc] at hd
    exact (List.nodup_append.mp hd).1
  cases h : schema.structure? s.name with
  | none => exact absurd (List.find?_eq_none.mp h s hs) (by simp)
  | some t =>
    obtain ⟨ht, hn⟩ := mem_structures_of_structure? h
    rw [List.inj_on_of_nodup_map hnames ht hs hn]

theorem Inherits.names (hd : schema.definedNames.Nodup) (h : schema.Inherits s t) :
    schema.Extends s.name t.name :=
  ⟨s, structure?_of_mem hd h.1, h.2.2⟩

theorem exists_inherits_of_extends {parent : String} (h : schema.Extends name parent)
    (ht : schema.structure? parent = some t) :
    ∃ s, schema.structure? name = some s ∧ schema.Inherits s t := by
  obtain ⟨s, hs, hp⟩ := h
  obtain ⟨htm, rfl⟩ := mem_structures_of_structure? ht
  exact ⟨s, hs, (mem_structures_of_structure? hs).1, htm, hp⟩

theorem exists_transGen_of_extends {ancestor : String}
    (h : Relation.TransGen schema.Extends name ancestor)
    (ht : schema.structure? ancestor = some t) :
    ∃ s, schema.structure? name = some s ∧ Relation.TransGen schema.Inherits s t := by
  induction h generalizing t with
  | single h =>
    obtain ⟨s, hs, hst⟩ := exists_inherits_of_extends h ht
    exact ⟨s, hs, .single hst⟩
  | tail _ h ih =>
    obtain ⟨u, hu, hut⟩ := exists_inherits_of_extends h ht
    obtain ⟨s, hs, hsu⟩ := ih hu
    exact ⟨s, hs, hsu.tail hut⟩

/-- A circle of names is one of structures. -/
theorem exists_transGen_self (h : Relation.TransGen schema.Extends name name) :
    ∃ s, Relation.TransGen schema.Inherits s s := by
  obtain ⟨_, ⟨s, hs, _⟩, _⟩ := Relation.TransGen.head'_iff.mp h
  obtain ⟨t, ht, hloop⟩ := exists_transGen_of_extends h hs
  rw [hs] at ht
  cases ht
  exact ⟨s, hloop⟩

theorem acyclic_of_founded (hd : schema.definedNames.Nodup)
    (hf : ∀ s ∈ schema.structures, schema.Founded s.name) (s : Structure) :
    ¬ Relation.TransGen schema.Inherits s s := by
  intro h
  obtain ⟨_, hstep, _⟩ := Relation.TransGen.head'_iff.mp h
  apply (hf s hstep.1).not_transGen
  exact Relation.TransGen.lift Structure.name (fun _ _ hst => hst.names hd) _ _ h

theorem firstUnknownParent_eq_none : schema.firstUnknownParent = none ↔ schema.KnowsParents := by
  rw [firstUnknownParent, List.findSome?_eq_none_iff]
  refine forall₂_congr fun s _ => ?_
  rw [List.findSome?_eq_none_iff]
  refine forall₂_congr fun p _ => ?_
  rw [← exists_parent_eq_ok s.name]
  cases schema.parent s.name p with
  | ok t => simp
  | error e => simp

theorem founded_of_visit_structures (hd : schema.definedNames.Nodup)
    {structures : List { s // s ∈ schema.structures }} {after : List (String × Visit)}
    (h : structures.foldlM (fun state s => schema.visit [] state s.1 s.2) [] = .ok after) :
    schema.Marks [] after ∧ ∀ s ∈ structures, schema.Founded s.1.name := by
  refine Except.forall_of_foldlM ?_ h marks_nil
  intro state s after hstep hm
  exact founded_of_visit s.2 hstep hm (structure?_of_mem hd s.2)

theorem Faulty.exists_isLoop (h : schema.Faulty e) (hk : schema.KnowsParents) :
    ∃ names, e = .inheritanceCycle names ∧ IsLoop schema.Extends names := by
  cases h with
  | @unknown child p _ hp he =>
    obtain ⟨s, hs, hmem⟩ := hp
    obtain ⟨t, ht⟩ :=
      (exists_parent_eq_ok child).mpr (hk s (mem_structures_of_structure? hs).1 p hmem)
    rw [he] at ht
    cases ht
  | loop hl => exact ⟨_, rfl, hl⟩

theorem founded_of_verify (h : schema.verify = .ok ()) :
    schema.definedNames.Nodup ∧ schema.KnowsParents ∧
      ∀ s ∈ schema.structures, schema.Founded s.name := by
  unfold verify at h
  split at h
  · cases h
  · next hr =>
    split at h
    · cases h
    · next hu =>
      obtain ⟨_, hv, _⟩ := Except.bind_eq_ok.mp h
      refine ⟨(firstRepeated_eq_none.mp hr).1, firstUnknownParent_eq_none.mp hu, ?_⟩
      obtain ⟨_, hfounded⟩ := founded_of_visit_structures (firstRepeated_eq_none.mp hr).1 hv
      intro s hs
      exact hfounded ⟨s, hs⟩ (List.mem_attach _ _)

/-- The fault that is reported is the first one of three kinds. -/
theorem fault_of_verify (h : schema.verify = .error e) :
    (∃ n, firstRepeated [] schema.definedNames = some n ∧ e = .duplicateDefinition n) ∨
      schema.definedNames.Nodup ∧
        (schema.firstUnknownParent = some e ∨
          schema.KnowsParents ∧
            ∃ names, e = .inheritanceCycle names ∧ IsLoop schema.Extends names) := by
  unfold verify at h
  split at h
  · next n hr =>
    cases h
    exact .inl ⟨n, hr, rfl⟩
  · next hr =>
    refine .inr ⟨(firstRepeated_eq_none.mp hr).1, ?_⟩
    split at h
    · next hu =>
      cases h
      exact .inl hu
    · next hu =>
      have hd := (firstRepeated_eq_none.mp hr).1
      have hk := firstUnknownParent_eq_none.mp hu
      refine .inr ⟨hk, ?_⟩
      rcases Except.bind_eq_error.mp h with h | ⟨_, _, h⟩
      · obtain ⟨_, s, _, _, _, hbefore, hv⟩ := Except.exists_of_foldlM_eq_error h
        obtain ⟨hm, _⟩ := founded_of_visit_structures hd hbefore
        have hfaulty := faulty_of_visit s.2 hv hm (structure?_of_mem hd s.2) List.nodup_nil
          (List.isChain_singleton _)
        exact hfaulty.exists_isLoop hk
      · cases h

theorem WellFormed.not_isLoop (h : schema.WellFormed) {names : List String} :
    ¬ IsLoop schema.Extends names := by
  intro hl
  obtain ⟨_, _, hloop⟩ := hl.transGen
  obtain ⟨s, hs⟩ := exists_transGen_self hloop
  exact h.acyclic s hs

theorem WellFormed.verify (h : schema.WellFormed) : schema.verify = .ok () := by
  cases hv : schema.verify with
  | ok => rfl
  | error e =>
    rcases fault_of_verify hv with ⟨n, hr, _⟩ | ⟨_, hu | ⟨_, names, _, hl⟩⟩
    · rw [firstRepeated_eq_none.mpr ⟨h.distinct, fun _ _ => List.not_mem_nil⟩] at hr
      cases hr
    · rw [firstUnknownParent_eq_none.mpr h.parents] at hu
      cases hu
    · exact absurd hl h.not_isLoop

theorem wellFormed_of_verify (h : schema.verify = .ok ()) : schema.WellFormed := by
  obtain ⟨hd, hp, hf⟩ := founded_of_verify h
  exact ⟨hd, hp, acyclic_of_founded hd hf⟩

/-- The checks accept a model just when all names are defined once, all parents are structures, and
no structure is reached from itself along parents. -/
theorem verify_iff_wellFormed (schema : Schema) : schema.verify = .ok () ↔ schema.WellFormed :=
  ⟨wellFormed_of_verify, WellFormed.verify⟩

end Schema

end ProtocolBindings

import ProtocolBindings.Proofs.Faults
import ProtocolBindings.Proofs.Registration
import ProtocolBindings.Proofs.Verification

namespace ProtocolBindings

namespace Schema

variable {schema : Schema} {s : Structure} {properties : List Property}

theorem WellFormed.not_faulty (h : schema.WellFormed) {e : SchemaError} : ¬ schema.Faulty e := by
  intro hf
  obtain ⟨_, _, hl⟩ := hf.exists_isLoop h.parents
  exact h.not_isLoop hl

theorem WellFormed.exists_flatten (h : schema.WellFormed) (hs : s ∈ schema.structures) :
    ∃ properties, schema.flatten s = .ok properties := by
  cases hf : schema.flatten s with
  | ok properties => exact ⟨properties, rfl⟩
  | error e =>
    obtain ⟨p, hp, hi⟩ := exists_of_flatten_eq_error hf
    have hparent : schema.HasParent s.name p := ⟨s, structure?_of_mem h.distinct hs, hp⟩
    have hstart : schema.inherited ([] ++ [s.name]) s.name p = .error e := hi
    have hfaulty := faulty_of_inherited hstart (List.nodup_singleton _)
      (List.isChain_singleton _) hparent
    exact absurd hfaulty h.not_faulty

/-- Where the fields of a structure can be collected, its parents are known and end. -/
theorem founded_of_flatten (h : schema.flatten s = .ok properties) {p : TypeSpec}
    (hp : p ∈ s.parents) : ∃ t, schema.parent s.name p = .ok t ∧ schema.Founded t.name := by
  obtain ⟨further, hf, _⟩ := flatten_eq_ok.mp h
  obtain ⟨_, hi⟩ := Except.exists_of_mapM_eq_ok hf hp
  exact founded_of_inherited hi

theorem wellFormed_of_flatten (hd : schema.definedNames.Nodup)
    (h : ∀ s ∈ schema.structures, ∃ properties, schema.flatten s = .ok properties) :
    schema.WellFormed := by
  refine ⟨hd, ?_, acyclic_of_founded hd ?_⟩
  · intro s hs p hp
    obtain ⟨properties, hf⟩ := h s hs
    obtain ⟨t, ht, _⟩ := founded_of_flatten hf hp
    exact (exists_parent_eq_ok _).mp ⟨t, ht⟩
  · intro s hs
    obtain ⟨properties, hf⟩ := h s hs
    refine .intro s.name ?_
    rintro parent ⟨t, ht, hp⟩
    rw [structure?_of_mem hd hs] at ht
    cases ht
    obtain ⟨u, hu, hfounded⟩ := founded_of_flatten hf hp
    cases (parent_eq_ok.mp hu).1
    exact hfounded

theorem names_entities_perm (schema : Schema) :
    (schema.entities.map Entity.name).Perm schema.definedNames := by
  simp only [entities, definedNames, List.map_append, List.map_map]
  exact List.perm_append_comm.trans (by rw [List.append_assoc]; rfl)

theorem concernsDefinitions_of_verify {e : SchemaError} (h : schema.verify = .error e) :
    e.concernsDefinitions = true := by
  rcases fault_of_verify h with ⟨_, _, rfl⟩ | ⟨_, hu | ⟨_, _, rfl, _⟩⟩
  · rfl
  · obtain ⟨s, _, hs⟩ := List.exists_of_findSome?_eq_some hu
    obtain ⟨p, _, hp⟩ := List.exists_of_findSome?_eq_some hs
    split at hp
    · cases hp
    · next he =>
      cases hp
      obtain ⟨_, rfl⟩ := exists_of_parent_error he
      rfl
  · rfl

end Schema

namespace Context

variable {ctx : Context} {r : Registry} {entry : Entry} {entity : Entity}
  {before after : List Entity} {e : SchemaError}

theorem insert_of_generates (hd : ctx.schema.definedNames.Nodup)
    (hsplit : ctx.schema.entities = before ++ entity :: after)
    (hr : (before.foldlM ctx.register .empty).result = .ok r) (hg : ctx.Generates entity entry) :
    ∃ next, r.insert entry = .ok next := by
  have hnames := ctx.schema.names_entities_perm.nodup_iff.mpr hd
  rw [hsplit, List.map_append, List.map_cons] at hnames
  have hfresh : entry.name ∉ r.names := by
    rw [names_of_foldlM hr, hg.inversion.1]
    intro hm
    exact (List.nodup_append.mp hnames).2.2 _ hm _ List.mem_cons_self rfl
  exact ⟨_, dif_neg hfresh⟩

theorem isLocal_of_register (hw : ctx.schema.WellFormed)
    (hsplit : ctx.schema.entities = before ++ entity :: after)
    (hr : (before.foldlM ctx.register .empty).result = .ok r) :
    FailsOnly SchemaError.IsLocal (ctx.register r entity).result := by
  have hentry : FailsOnly SchemaError.IsLocal (ctx.entityEntry entity).result := by
    apply isLocal_of_entityEntry
    rintro s rfl
    have hmem : Entity.struct s ∈ ctx.schema.entities := by simp [hsplit]
    exact hw.exists_flatten (Schema.struct_mem_entities.mp hmem)
  apply hentry.result_bind
  intro entry hg e he
  obtain ⟨next, hn⟩ := insert_of_generates hw.distinct hsplit hr hg
  change r.insert entry = .error e at he
  rw [hn] at he
  cases he

/-- Of a model that passes the checks, only single definitions can be at fault. -/
theorem isLocal_of_registry (hw : ctx.schema.WellFormed) :
    FailsOnly SchemaError.IsLocal ctx.registry.result := by
  have hverify : FailsOnly SchemaError.IsLocal ctx.schema.verify :=
    hw.verify ▸ failsOnly_ok ()
  apply hverify.lift_bind
  intro _ _ e h
  rw [Draft.result_foldlM] at h
  obtain ⟨before, entity, after, r, hsplit, hr, he⟩ := Except.exists_of_foldlM_eq_error h
  rw [← Draft.result_foldlM] at hr
  exact isLocal_of_register hw hsplit hr e he

theorem registry_of_verify_error (h : ctx.schema.verify = .error e) :
    ctx.registry.result = .error e := by
  unfold registry
  rw [h]
  rfl

theorem verify_error_of_registry (h : ctx.registry.result = .error e)
    (he : e.concernsDefinitions = true) : ctx.schema.verify = .error e := by
  cases hv : ctx.schema.verify with
  | error d =>
    rw [registry_of_verify_error hv] at h
    cases h
    rfl
  | ok =>
    have hlocal := isLocal_of_registry (Schema.wellFormed_of_verify hv) e h
    rw [SchemaError.IsLocal, he] at hlocal
    cases hlocal

/-- For distinct names, the checks accept a model just when all fields can be collected. So faults
of names and of inheritance are those of the checks: after them no field list fails, and no entry is
refused by the registry. -/
theorem late_checks_unreachable (ctx : Context) :
    (ctx.schema.definedNames.Nodup →
      (ctx.schema.verify = .ok () ↔
        ∀ s ∈ ctx.schema.structures, ∃ properties, ctx.schema.flatten s = .ok properties)) ∧
    (∀ e, e.concernsDefinitions = true →
      (ctx.registry.result = .error e ↔ ctx.schema.verify = .error e)) ∧
    (∀ e, ctx.schema.verify = .error e →
      e.concernsDefinitions = true ∧ ctx.registry.result = .error e) ∧
    (ctx.schema.verify = .ok () →
      (∀ s ∈ ctx.schema.structures, ∃ properties, ctx.schema.flatten s = .ok properties) ∧
      ∀ before entity after, ctx.schema.entities = before ++ entity :: after →
        ∀ r entry, (before.foldlM ctx.register .empty).result = .ok r →
          ctx.Generates entity entry → ∃ next, r.insert entry = .ok next) := by
  refine ⟨?_, ?_, ?_, ?_⟩
  · intro hd
    constructor
    · intro hv s hs
      exact (Schema.wellFormed_of_verify hv).exists_flatten hs
    · intro hf
      exact (Schema.wellFormed_of_flatten hd hf).verify
  · intro e he
    exact ⟨fun h => verify_error_of_registry h he, registry_of_verify_error⟩
  · intro e h
    exact ⟨Schema.concernsDefinitions_of_verify h, registry_of_verify_error h⟩
  · intro hv
    have hw := Schema.wellFormed_of_verify hv
    refine ⟨fun s hs => hw.exists_flatten hs, ?_⟩
    intro before entity after hsplit r entry hr hg
    exact insert_of_generates hw.distinct hsplit hr hg

end Context

end ProtocolBindings

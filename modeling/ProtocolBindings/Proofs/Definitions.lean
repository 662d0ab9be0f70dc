import ProtocolBindings.Proofs.Agreement
import ProtocolBindings.Proofs.EmissionOrder
import ProtocolBindings.Proofs.LateChecks

namespace ProtocolBindings

namespace Schema

variable {schema other : Schema} {name : String} {entity : Entity}

theorem nodup_names_entities (hd : schema.definedNames.Nodup) :
    (schema.entities.map Entity.name).Nodup :=
  schema.names_entities_perm.nodup_iff.mpr hd

theorem mem_entities_of_lookup (h : schema.lookup name = some entity) :
    entity ∈ schema.entities ∧ entity.name = name := by
  unfold lookup at h
  split at h
  · next s hs =>
    cases h
    obtain ⟨hmem, hname⟩ := mem_structures_of_structure? hs
    exact ⟨struct_mem_entities.mpr hmem, hname⟩
  · split at h
    · next e he =>
      cases h
      have hname : e.name = name := by simpa using List.find?_some he
      exact ⟨enumeration_mem_entities.mpr (List.mem_of_find?_eq_some he), hname⟩
    · obtain ⟨a, ha, rfl⟩ := Option.map_eq_some_iff.mp h
      have hname : a.name = name := by simpa using List.find?_some ha
      exact ⟨alias_mem_entities.mpr (List.mem_of_find?_eq_some ha), hname⟩

theorem lookup_ne_none (h : entity ∈ schema.entities) : schema.lookup entity.name ≠ none := by
  intro hnone
  unfold lookup at hnone
  split at hnone
  · cases hnone
  · next hs =>
    split at hnone
    · cases hnone
    · next he =>
      have ha := Option.map_eq_none_iff.mp hnone
      match entity with
      | .struct s => simpa [Entity.name] using List.find?_eq_none.mp hs s (struct_mem_entities.mp h)
      | .enumeration e =>
        simpa [Entity.name] using List.find?_eq_none.mp he e (enumeration_mem_entities.mp h)
      | .alias a => simpa [Entity.name] using List.find?_eq_none.mp ha a (alias_mem_entities.mp h)

/-- Where names are distinct, a name stands for the definition that bears it. -/
theorem lookup_eq_some_iff (hd : schema.definedNames.Nodup) :
    schema.lookup name = some entity ↔ entity ∈ schema.entities ∧ entity.name = name := by
  constructor
  · exact mem_entities_of_lookup
  · rintro ⟨he, rfl⟩
    obtain ⟨found, hfound⟩ := Option.ne_none_iff_exists'.mp (lookup_ne_none he)
    obtain ⟨hmem, hname⟩ := mem_entities_of_lookup hfound
    rw [hfound, List.inj_on_of_nodup_map (nodup_names_entities hd) hmem he hname]

theorem lookup_congr (hd : schema.definedNames.Nodup) (ho : other.definedNames.Nodup)
    (h : ∀ entity, entity.name = name → (entity ∈ schema.entities ↔ entity ∈ other.entities)) :
    other.lookup name = schema.lookup name := by
  apply Option.ext
  intro entity
  rw [lookup_eq_some_iff hd, lookup_eq_some_iff ho]
  constructor
  · rintro ⟨he, hn⟩
    exact ⟨(h entity hn).mpr he, hn⟩
  · rintro ⟨he, hn⟩
    exact ⟨(h entity hn).mp he, hn⟩

end Schema

namespace Context

variable {ctx ctx' : Context} {r : Registry} {entity : Entity} {entry other : Entry}

theorem Generates.unique (h : ctx.Generates entity entry) (ho : ctx.Generates entity other) :
    entry = other :=
  Except.ok.inj (h.symm.trans ho)

theorem AgreesOn.generates {C : String → Prop} (h : ctx.AgreesOn ctx' C)
    (he : entity ∈ ctx.schema.entities) (hn : C entity.name) :
    ctx'.Generates entity = ctx.Generates entity := by
  funext entry
  rw [Generates, Generates, h.entityEntry he hn]

theorem wellFormed_of_registry (h : ctx.registry.result = .ok r) : ctx.schema.WellFormed := by
  obtain ⟨_, hv, _⟩ := Draft.result_bind_eq_ok.mp h
  exact Schema.wellFormed_of_verify hv

/-- A model becomes a registry just when it passes the checks and each definition has its code. -/
theorem exists_registry_iff :
    (∃ r, ctx.registry.result = .ok r) ↔ ctx.schema.WellFormed ∧
      ∀ entity ∈ ctx.schema.entities, ∃ entry, ctx.Generates entity entry := by
  constructor
  · rintro ⟨r, hr⟩
    refine ⟨wellFormed_of_registry hr, ?_⟩
    intro entity he
    obtain ⟨entry, _, hg⟩ := exists_entry_of_registry hr he
    exact ⟨entry, hg⟩
  · rintro ⟨hw, hall⟩
    cases h : ctx.registry.result with
    | ok r => exact ⟨r, rfl⟩
    | error e =>
      have hfold : (ctx.schema.entities.foldlM ctx.register .empty).result = .error e := by
        rwa [registry, hw.verify] at h
      rw [Draft.result_foldlM] at hfold
      obtain ⟨before, entity, after, r, hsplit, hr, he⟩ := Except.exists_of_foldlM_eq_error hfold
      rw [← Draft.result_foldlM] at hr
      obtain ⟨entry, hg⟩ := hall entity (by simp [hsplit])
      obtain ⟨next, hn⟩ := insert_of_generates hw.distinct hsplit hr hg
      have hok : (ctx.register r entity).result = .ok next :=
        Draft.result_bind_eq_ok.mpr ⟨entry, hg, hn⟩
      rw [hok] at he
      cases he

theorem mem_entries_iff (h : ctx.registry.result = .ok r) :
    entry ∈ r.entries ↔ ∃ entity ∈ ctx.schema.entities, ctx.Generates entity entry := by
  constructor
  · exact exists_entity_of_registry h
  · rintro ⟨entity, he, hg⟩
    obtain ⟨registered, hmem, hr⟩ := exists_entry_of_registry h he
    rwa [hg.unique hr]

end Context

namespace Registry

variable {r s : Registry}

theorem get?_congr (h : ∀ entry, entry ∈ r.entries ↔ entry ∈ s.entries) (name : String) :
    s.get? name = r.get? name := by
  apply Option.ext
  intro entry
  rw [get?_eq_some_iff, get?_eq_some_iff, h]

/-- Whether there is an emission order depends on the entries alone, not on their order. -/
theorem exists_emissionOrder_congr (h : ∀ entry, entry ∈ r.entries ↔ entry ∈ s.entries) :
    (∃ order, r.emissionOrder = .ok order) ↔ ∃ order, s.emissionOrder = .ok order := by
  have hdepends : r.DependsOn = s.DependsOn := by
    funext a b
    simp only [DependsOn, Schedules, h]
  constructor
  · rintro ⟨order, ho⟩
    have hacyclic := (isEmission_of_emissionOrder ho).1.acyclic
    rw [hdepends] at hacyclic
    exact emissionOrder_of_acyclic hacyclic
  · rintro ⟨order, ho⟩
    have hacyclic := (isEmission_of_emissionOrder ho).1.acyclic
    rw [← hdepends] at hacyclic
    exact emissionOrder_of_acyclic hacyclic

end Registry

end ProtocolBindings

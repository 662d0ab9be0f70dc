import ProtocolBindings.Proofs.EmissionOrder
import ProtocolBindings.Proofs.Registration

namespace ProtocolBindings

namespace Context

variable {ctx : Context} {names : List String} {name : String}

theorem exists_not_external_iff :
    (∃ entity ∈ ctx.schema.entities, ctx.isExternal entity = false ∧ entity.name = name) ↔
      (∃ e ∈ ctx.schema.enumerations, e.name = name) ∨
      (∃ s ∈ ctx.schema.structures, s.name = name) ∨
      ∃ a ∈ ctx.schema.aliases, a.name = name ∧ ctx.options.isBuiltin name = false := by
  constructor
  · rintro ⟨entity, hentity, hexternal, rfl⟩
    match entity with
    | .enumeration e => exact .inl ⟨e, Schema.enumeration_mem_entities.mp hentity, rfl⟩
    | .struct s => exact .inr (.inl ⟨s, Schema.struct_mem_entities.mp hentity, rfl⟩)
    | .alias a => exact .inr (.inr ⟨a, Schema.alias_mem_entities.mp hentity, rfl, hexternal⟩)
  · rintro (⟨e, he, rfl⟩ | ⟨s, hs, rfl⟩ | ⟨a, ha, rfl, hb⟩)
    · exact ⟨.enumeration e, Schema.enumeration_mem_entities.mpr he, rfl, rfl⟩
    · exact ⟨.struct s, Schema.struct_mem_entities.mpr hs, rfl, rfl⟩
    · exact ⟨.alias a, Schema.alias_mem_entities.mpr ha, hb, rfl⟩

theorem mem_emissionNames (h : ctx.emissionNames = .ok names) (name : String) :
    name ∈ names ↔
      ∃ entity ∈ ctx.schema.entities, ctx.isExternal entity = false ∧ entity.name = name := by
  obtain ⟨r, hr, h⟩ := Except.bind_eq_ok.mp h
  obtain ⟨order, ho, h⟩ := Except.bind_eq_ok.mp h
  cases h
  have hmem := (Registry.isEmission_of_emissionOrder ho).1.mem_iff
  rw [List.mem_map]
  constructor
  · rintro ⟨entry, he, rfl⟩
    obtain ⟨hentry, hscheduled⟩ := (hmem entry).mp he
    obtain ⟨entity, hentity, hg⟩ := exists_entity_of_registry hr hentry
    obtain ⟨hname, hexternal, _⟩ := hg.inversion
    exact ⟨entity, hentity, hexternal.symm.trans hscheduled, hname.symm⟩
  · rintro ⟨entity, hentity, hscheduled, rfl⟩
    obtain ⟨entry, hentry, hg⟩ := exists_entry_of_registry hr hentity
    obtain ⟨hname, hexternal, _⟩ := hg.inversion
    exact ⟨entry, (hmem entry).mpr ⟨hentry, hexternal.trans hscheduled⟩, hname⟩

/-- All enumerations and structures are emitted, and the aliases that are not built in. So the names
that are built in stay out just when no enumeration and no structure has one. -/
theorem emissionNames_builtin_iff (h : ctx.emissionNames = .ok names) :
    (∀ name, name ∈ names ↔
      (∃ e ∈ ctx.schema.enumerations, e.name = name) ∨
      (∃ s ∈ ctx.schema.structures, s.name = name) ∨
      ∃ a ∈ ctx.schema.aliases, a.name = name ∧ ctx.options.isBuiltin name = false) ∧
    ((∀ name ∈ names, ctx.options.isBuiltin name = false) ↔
      (∀ e ∈ ctx.schema.enumerations, ctx.options.isBuiltin e.name = false) ∧
      ∀ s ∈ ctx.schema.structures, ctx.options.isBuiltin s.name = false) := by
  have hmem := fun name => (mem_emissionNames h name).trans exists_not_external_iff
  refine ⟨hmem, ?_⟩
  constructor
  · intro hb
    constructor
    · intro e he
      exact hb e.name ((hmem _).mpr (.inl ⟨e, he, rfl⟩))
    · intro s hs
      exact hb s.name ((hmem _).mpr (.inr (.inl ⟨s, hs, rfl⟩)))
  · rintro ⟨henumerations, hstructures⟩ name hname
    rcases (hmem name).mp hname with ⟨e, he, rfl⟩ | ⟨s, hs, rfl⟩ | ⟨_, _, _, hb⟩
    · exact henumerations e he
    · exact hstructures s hs
    · exact hb

/-- An alias, an enumeration and a structure with the three names that are built in by default. -/
def shadowing : Context where
  options := {}
  schema := {
    structures := [{ name := "LSPAny" }]
    enumerations := [{ name := "LSPObject", values := [⟨"A", .integer 1, none⟩] }]
    aliases := [{ name := "LSPArray", type := .array (.reference "LSPAny") }] }

theorem emissionNames_builtin_iff_shadowing :
    ∃ names, shadowing.emissionNames = .ok names ∧ "LSPArray" ∉ names ∧
      ¬ ∀ name ∈ names, shadowing.options.isBuiltin name = false := by
  have h : shadowing.emissionNames = .ok ["LSPObject", "LSPAny"] := by decide +kernel
  refine ⟨_, h, by decide, ?_⟩
  intro hnames
  obtain ⟨_, hstructures⟩ := (emissionNames_builtin_iff h).2.mp hnames
  have hany := hstructures { name := "LSPAny" } (List.mem_singleton_self _)
  cases hany

/-- Two of the built-in names are emitted, so that the header defines `LSPAny` a second time. -/
theorem emissionNames_shadowing :
    shadowing.emissionNames = .ok ["LSPObject", "LSPAny"] ∧
      shadowing.options.isBuiltin "LSPObject" = true ∧
      shadowing.options.isBuiltin "LSPAny" = true ∧
      ∃ r order, shadowing.registry.result = .ok r ∧ r.emissionOrder = .ok order ∧
        ["using LSPAny = glz::json_t;", "struct LSPAny : detail::StructWrapper \x7b"] ⊆
          (shadowing.options.header order r.appendices).lines.toList := by
  have hheader : (do
      let r ← shadowing.registry.result
      let order ← r.emissionOrder
      return decide (["using LSPAny = glz::json_t;", "struct LSPAny : detail::StructWrapper \x7b"] ⊆
        (shadowing.options.header order r.appendices).lines.toList)) = .ok true := by
    decide +kernel
  obtain ⟨r, hr, h⟩ := Except.bind_eq_ok.mp hheader
  obtain ⟨order, ho, h⟩ := Except.bind_eq_ok.mp h
  refine ⟨by decide +kernel, rfl, rfl, r, order, hr, ho, ?_⟩
  exact of_decide_eq_true (Except.ok.inj h)

end Context

end ProtocolBindings

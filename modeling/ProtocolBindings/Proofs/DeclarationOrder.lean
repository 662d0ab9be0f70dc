import ProtocolBindings.Proofs.Definitions

namespace ProtocolBindings

/-- The same definitions; those of one kind may be declared in another order. -/
structure Schema.Rearranges (other schema : Schema) : Prop where
  structures : other.structures.Perm schema.structures
  enumerations : other.enumerations.Perm schema.enumerations
  aliases : other.aliases.Perm schema.aliases

namespace Schema.Rearranges

variable {schema other : Schema}

theorem symm (h : other.Rearranges schema) : schema.Rearranges other :=
  ⟨h.structures.symm, h.enumerations.symm, h.aliases.symm⟩

theorem entities (h : other.Rearranges schema) : other.entities.Perm schema.entities :=
  ((h.enumerations.map _).append (h.aliases.map _)).append (h.structures.map _)

theorem definedNames (h : other.Rearranges schema) :
    other.definedNames.Perm schema.definedNames :=
  ((h.structures.map _).append (h.enumerations.map _)).append (h.aliases.map _)

theorem inherits (h : other.Rearranges schema) : other.Inherits = schema.Inherits := by
  funext child parent
  rw [Inherits, Inherits, h.structures.mem_iff, h.structures.mem_iff]

theorem wellFormed (h : other.Rearranges schema) (hw : schema.WellFormed) : other.WellFormed where
  distinct := h.definedNames.nodup_iff.mpr hw.distinct
  parents := by
    intro s hs p hp
    obtain ⟨t, ht, heq⟩ := hw.parents s (h.structures.mem_iff.mp hs) p hp
    exact ⟨t, h.structures.mem_iff.mpr ht, heq⟩
  acyclic := by
    rw [h.inherits]
    exact hw.acyclic

theorem lookup (h : other.Rearranges schema) (hw : schema.WellFormed) (name : String) :
    other.lookup name = schema.lookup name :=
  lookup_congr hw.distinct (h.wellFormed hw).distinct fun _ _ => h.entities.mem_iff.symm

end Schema.Rearranges

namespace Context

variable {ctx : Context} {other : Schema}

theorem agreesOn_rearranged (h : other.Rearranges ctx.schema) (hw : ctx.schema.WellFormed) :
    ctx.AgreesOn { ctx with schema := other } fun _ => True where
  closed := ctx.closed_true
  lookup name _ := h.lookup hw name
  isBuiltin _ := rfl
  isPassThrough _ := rfl
  namespaceName := rfl

theorem registry_rearranged (h : other.Rearranges ctx.schema) {r : Registry}
    (hr : ctx.registry.result = .ok r) :
    ∃ s, (registry { ctx with schema := other }).result = .ok s ∧
      ∀ entry, entry ∈ r.entries ↔ entry ∈ s.entries := by
  obtain ⟨hw, hall⟩ := exists_registry_iff.mp ⟨r, hr⟩
  have hgenerates {entity : Entity} (he : entity ∈ other.entities) :
      Generates { ctx with schema := other } entity = ctx.Generates entity :=
    (agreesOn_rearranged h hw).generates (h.entities.mem_iff.mp he) trivial
  have hexists : ∃ s, (registry { ctx with schema := other }).result = .ok s := by
    apply exists_registry_iff.mpr
    refine ⟨h.wellFormed hw, ?_⟩
    intro entity he
    rw [hgenerates he]
    exact hall entity (h.entities.mem_iff.mp he)
  obtain ⟨s, hs⟩ := hexists
  refine ⟨s, hs, ?_⟩
  intro entry
  rw [mem_entries_iff hr, mem_entries_iff hs]
  constructor
  · rintro ⟨entity, he, hg⟩
    have ho : entity ∈ other.entities := h.entities.mem_iff.mpr he
    exact ⟨entity, ho, hgenerates ho ▸ hg⟩
  · rintro ⟨entity, he, hg⟩
    exact ⟨entity, h.entities.mem_iff.mp he, hgenerates he ▸ hg⟩

theorem emissionNames_rearranged (h : other.Rearranges ctx.schema)
    (he : ∃ names, ctx.emissionNames = .ok names) :
    ∃ names, emissionNames { ctx with schema := other } = .ok names := by
  obtain ⟨_, he⟩ := he
  obtain ⟨r, order, hr, ho, _⟩ := emissionNames_eq_ok.mp he
  obtain ⟨s, hs, hmem⟩ := registry_rearranged h hr
  obtain ⟨order', ho'⟩ := (Registry.exists_emissionOrder_congr hmem).mp ⟨order, ho⟩
  exact ⟨_, emissionNames_eq_ok.mpr ⟨s, order', hs, ho', rfl⟩⟩

/-- The order of the declarations decides neither whether a model passes the checks, becomes a
registry or can be put in order, nor what is registered under a name. -/
theorem rearranged_same_entries (ctx : Context) {other : Schema}
    (h : other.Rearranges ctx.schema) :
    (other.verify = .ok () ↔ ctx.schema.verify = .ok ()) ∧
    ((∃ s, (registry { ctx with schema := other }).result = .ok s) ↔
      ∃ r, ctx.registry.result = .ok r) ∧
    ((∃ names, emissionNames { ctx with schema := other } = .ok names) ↔
      ∃ names, ctx.emissionNames = .ok names) ∧
    ∀ r, ctx.registry.result = .ok r →
      ∃ s, (registry { ctx with schema := other }).result = .ok s ∧
        (∀ name, s.get? name = r.get? name) ∧
        ((∃ order, s.emissionOrder = .ok order) ↔ ∃ order, r.emissionOrder = .ok order) := by
  have hsymm : ctx.schema.Rearranges (Context.mk other ctx.options).schema := h.symm
  refine ⟨⟨?_, ?_⟩, ⟨?_, ?_⟩, ⟨?_, ?_⟩, ?_⟩
  · intro hv
    exact (hsymm.wellFormed (Schema.wellFormed_of_verify hv)).verify
  · intro hv
    exact (h.wellFormed (Schema.wellFormed_of_verify hv)).verify
  · rintro ⟨s, hs⟩
    obtain ⟨r, hr, _⟩ := registry_rearranged hsymm hs
    exact ⟨r, hr⟩
  · rintro ⟨r, hr⟩
    obtain ⟨s, hs, _⟩ := registry_rearranged h hr
    exact ⟨s, hs⟩
  · exact emissionNames_rearranged hsymm
  · exact emissionNames_rearranged h
  · intro r hr
    obtain ⟨s, hs, hmem⟩ := registry_rearranged h hr
    exact ⟨s, hs, Registry.get?_congr hmem, (Registry.exists_emissionOrder_congr hmem).symm⟩

def book : Structure where
  name := "Book"
  properties := [{ name := "title", type := .reference "Title" }]

def atlas : Structure where
  name := "Atlas"
  bases := [.reference "Book"]

def shelf (structures : List Structure) : Context where
  options := {}
  schema := {
    structures
    aliases := [{ name := "Title", type := .base "string" }] }

theorem rearranged_same_entries_shelf :
    (shelf [book, atlas]).emissionNames = .ok ["Title", "Book", "Atlas"] ∧
      ∃ r s, (shelf [book, atlas]).registry.result = .ok r ∧
        (shelf [atlas, book]).registry.result = .ok s ∧ r.names ≠ s.names ∧
        ∀ name, s.get? name = r.get? name := by
  have hnames : (shelf [book, atlas]).emissionNames = .ok ["Title", "Book", "Atlas"] := by
    decide +kernel
  have hswap : Schema.Rearranges (shelf [atlas, book]).schema (shelf [book, atlas]).schema :=
    ⟨.swap book atlas [], .nil, .refl _⟩
  obtain ⟨r, _, hr, _⟩ := emissionNames_eq_ok.mp hnames
  obtain ⟨_, _, _, hentries⟩ := rearranged_same_entries (shelf [book, atlas]) hswap
  obtain ⟨s, hs, hget, _⟩ := hentries r hr
  refine ⟨hnames, r, s, hr, hs, ?_, hget⟩
  rw [names_of_registry hr, names_of_registry hs]
  decide

end Context

end ProtocolBindings

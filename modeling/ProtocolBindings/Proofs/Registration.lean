import Mathlib.Data.List.Forall2
import Mathlib.Data.List.Nodup
import ProtocolBindings.Bindings
import ProtocolBindings.Proofs.Conversions
import ProtocolBindings.Proofs.Drafts

namespace ProtocolBindings

theorem Registry.entries_of_insert {r s : Registry} {entry : Entry} (h : r.insert entry = .ok s) :
    s.entries = r.entries ++ [entry] := by
  unfold insert at h
  split at h
  · cases h
  · cases h
    rfl

theorem Schema.enumeration_mem_entities {schema : Schema} {e : Enumeration} :
    .enumeration e ∈ schema.entities ↔ e ∈ schema.enumerations := by
  simp [entities]

theorem Schema.alias_mem_entities {schema : Schema} {a : TypeAlias} :
    .alias a ∈ schema.entities ↔ a ∈ schema.aliases := by
  simp [entities]

theorem Schema.struct_mem_entities {schema : Schema} {s : Structure} :
    .struct s ∈ schema.entities ↔ s ∈ schema.structures := by
  simp [entities]

/-- The names that a definition uses in its code or takes fields from. -/
def Entity.uses : Entity → List String
  | .enumeration _ => []
  | .alias a => a.type.references
  | .struct s => Context.structureDependencies s

theorem Enumeration.entry_eq_ok {options : Options} {e : Enumeration} {entry : Entry}
    (h : e.entry options = .ok entry) :
    entry.name = e.name ∧ entry.external = false ∧ entry.dependencies = [] ∧
      (options.isPassThrough e.name = false → e.ConvertedBy entry.implementation) := by
  unfold Enumeration.entry at h
  split at h
  · next hp =>
    cases h
    exact ⟨rfl, rfl, rfl, fun hn => absurd hp (by simp [hn])⟩
  · obtain ⟨representation, _, h⟩ := Except.bind_eq_ok.mp h
    obtain ⟨constants, _, h⟩ := Except.bind_eq_ok.mp h
    cases representation with
    | integer underlying =>
      have hwire : underlying.wire.text ∈ ["std::int32_t", "std::uint32_t"] := by
        cases underlying <;> decide
      cases h
      exact ⟨rfl, rfl, rfl, fun _ => e.convertedBy_castConversion hwire⟩
    | string underlying =>
      cases h
      exact ⟨rfl, rfl, rfl, fun _ => e.convertedBy_tableConversion _⟩

namespace Context

variable {ctx : Context} {entity : Entity} {entry : Entry} {r : Registry}

def Generates (ctx : Context) (entity : Entity) (entry : Entry) : Prop :=
  (ctx.entityEntry entity).result = .ok entry

def isExternal (ctx : Context) : Entity → Bool
  | .alias a => ctx.options.isBuiltin a.name
  | .enumeration _ | .struct _ => false

theorem forall₂_of_foldlM {entities : List Entity} {start : Registry}
    (h : (entities.foldlM ctx.register start).result = .ok r) :
    ∃ entries, List.Forall₂ ctx.Generates entities entries ∧
      r.entries = start.entries ++ entries := by
  induction entities generalizing start with
  | nil =>
    cases h
    exact ⟨[], .nil, (List.append_nil _).symm⟩
  | cons entity entities ih =>
    rw [List.foldlM_cons] at h
    obtain ⟨next, hn, h⟩ := Draft.result_bind_eq_ok.mp h
    obtain ⟨entry, he, hi⟩ := Draft.result_bind_eq_ok.mp hn
    obtain ⟨entries, hf, hr⟩ := ih h
    refine ⟨entry :: entries, .cons he hf, ?_⟩
    rw [hr, Registry.entries_of_insert hi, List.append_assoc, List.singleton_append]

theorem forall₂_of_registry (h : ctx.registry.result = .ok r) :
    List.Forall₂ ctx.Generates ctx.schema.entities r.entries := by
  obtain ⟨_, _, h⟩ := Draft.result_bind_eq_ok.mp h
  obtain ⟨entries, hf, hr⟩ := forall₂_of_foldlM h
  rw [hr]
  exact hf

theorem exists_entry_of_registry (h : ctx.registry.result = .ok r)
    (he : entity ∈ ctx.schema.entities) : ∃ entry ∈ r.entries, ctx.Generates entity entry :=
  exists_mem_of_forall₂ (forall₂_of_registry h) he

theorem exists_entity_of_registry (h : ctx.registry.result = .ok r) (he : entry ∈ r.entries) :
    ∃ entity ∈ ctx.schema.entities, ctx.Generates entity entry :=
  exists_mem_of_forall₂ (forall₂_of_registry h).flip he

/-- What an entry holds besides its code: its name, whether it is built in, and the names used apart
from its own. -/
theorem Generates.inversion (h : ctx.Generates entity entry) :
    entry.name = entity.name ∧ entry.external = ctx.isExternal entity ∧
      (entry.external = false →
        entry.dependencies = distinctBy id (entity.uses.filter (· ≠ entity.name))) :=
  match entity, h with
  | .enumeration e, h => by
    obtain ⟨hn, hx, hd, _⟩ := Enumeration.entry_eq_ok h
    exact ⟨hn, hx, fun _ => hd⟩
  | .alias a, h => by
    change (a.entry ctx.options).result = .ok entry at h
    unfold TypeAlias.entry at h
    split at h
    · next hb =>
      cases h
      exact ⟨rfl, hb.symm, nofun⟩
    · next hb =>
      obtain ⟨_, _, h⟩ := Draft.result_bind_eq_ok.mp h
      cases h
      exact ⟨rfl, ((Bool.not_eq_true _).mp hb).symm, fun _ => rfl⟩
  | .struct s, h => by
    obtain ⟨_, _, rfl⟩ := Except.map_eq_ok.mp h
    exact ⟨rfl, rfl, fun _ => rfl⟩

theorem names_of_foldlM {entities : List Entity} {start : Registry}
    (h : (entities.foldlM ctx.register start).result = .ok r) :
    r.names = start.names ++ entities.map Entity.name := by
  obtain ⟨entries, hf, hr⟩ := forall₂_of_foldlM h
  have hnames : entities.map Entity.name = entries.map Entry.name := by
    rw [← List.forall₂_eq_eq_eq, List.forall₂_map_left_iff, List.forall₂_map_right_iff]
    exact hf.imp fun _ _ hg => hg.inversion.1.symm
  rw [Registry.names, hr, List.map_append, hnames]
  rfl

theorem names_of_registry (h : ctx.registry.result = .ok r) :
    r.names = ctx.schema.entities.map Entity.name := by
  obtain ⟨_, _, h⟩ := Draft.result_bind_eq_ok.mp h
  exact names_of_foldlM h

theorem entity_eq_of_name (h : ctx.registry.result = .ok r) {other : Entity}
    (he : entity ∈ ctx.schema.entities) (ho : other ∈ ctx.schema.entities)
    (hn : entity.name = other.name) : entity = other := by
  have hd : (ctx.schema.entities.map Entity.name).Nodup := names_of_registry h ▸ r.distinct
  exact List.inj_on_of_nodup_map hd he ho hn

theorem Generates.mem_dependencies (h : ctx.Generates entity entry)
    (hx : entry.external = false) {name : String} :
    name ∈ entry.dependencies ↔ name ∈ entity.uses ∧ name ≠ entry.name := by
  obtain ⟨hn, _, hd⟩ := h.inversion
  rw [hd hx, mem_distinctBy_id, List.mem_filter, hn]
  simp

theorem emissionNames_eq_ok {names : List String} :
    ctx.emissionNames = .ok names ↔ ∃ r order, ctx.registry.result = .ok r ∧
      r.emissionOrder = .ok order ∧ names = order.map Entry.name := by
  constructor
  · intro h
    obtain ⟨r, hr, h⟩ := Except.bind_eq_ok.mp h
    obtain ⟨order, ho, h⟩ := Except.bind_eq_ok.mp h
    exact ⟨r, order, hr, ho, (Except.ok.inj h).symm⟩
  · rintro ⟨r, order, hr, ho, rfl⟩
    exact Except.bind_eq_ok.mpr ⟨r, hr, Except.bind_eq_ok.mpr ⟨order, ho, rfl⟩⟩

theorem compile_eq_ok {b : Bindings} :
    ctx.compile = .ok b ↔ ∃ r order, ctx.registry.result = .ok r ∧ r.emissionOrder = .ok order ∧
      b = { header := (ctx.options.header order r.appendices).text
            source := ctx.options.sourcePath.map fun _ => (ctx.options.source order).text
            gaps := ctx.registry.written } := by
  constructor
  · intro h
    obtain ⟨r, hr, h⟩ := Except.bind_eq_ok.mp h
    obtain ⟨order, ho, h⟩ := Except.bind_eq_ok.mp h
    exact ⟨r, order, hr, ho, (Except.ok.inj h).symm⟩
  · rintro ⟨r, order, hr, ho, rfl⟩
    exact Except.bind_eq_ok.mpr ⟨r, hr, Except.bind_eq_ok.mpr ⟨order, ho, rfl⟩⟩

theorem compile_eq_error {e : SchemaError} :
    ctx.compile = .error e ↔ ctx.registry.result = .error e ∨
      ∃ r, ctx.registry.result = .ok r ∧ r.emissionOrder = .error e := by
  constructor
  · intro h
    rcases Except.bind_eq_error.mp h with h | ⟨r, hr, h⟩
    · exact .inl h
    · rcases Except.bind_eq_error.mp h with h | ⟨_, _, h⟩
      · exact .inr ⟨r, hr, h⟩
      · cases h
  · rintro (h | ⟨r, hr, h⟩)
    · exact Except.bind_eq_error.mpr (.inl h)
    · exact Except.bind_eq_error.mpr (.inr ⟨r, hr, Except.bind_eq_error.mpr (.inl h)⟩)

end Context

end ProtocolBindings

import ProtocolBindings.Proofs.EmissionOrder
import ProtocolBindings.Proofs.NamesUsed
import ProtocolBindings.Proofs.Registration

namespace ProtocolBindings

variable {ctx : Context} {r : Registry} {order : List Entry} {E Y : Entry} {entity : Entity}

/-- Every scheduled entry of the name is the given one or stands before it. -/
def Registry.UpTo (r : Registry) (order : List Entry) (E : Entry) (name : String) : Prop :=
  ∀ X, r.Schedules X → X.name = name → X = E ∨ Precedes order X E

theorem Registry.upTo_self (hE : E ∈ r.entries) : r.UpTo order E E.name := by
  intro X hX hn
  exact .inl (eq_of_name hX.1 hE hn)

namespace Context

theorem Generates.upTo_of_mem_uses (hg : ctx.Generates entity Y) (hem : r.IsEmission order)
    (hY : r.Schedules Y) (hE : r.UpTo order E Y.name) {name : String}
    (hname : name ∈ entity.uses) : r.UpTo order E name := by
  intro X hX hn
  have hYE := hE Y hY rfl
  by_cases h : X = Y
  · rw [h]
    exact hYE
  · have hne : name ≠ Y.name := fun hne => h (r.eq_of_name hX.1 hY.1 (hn.trans hne))
    have hdep : X.name ∈ Y.dependencies := by
      rw [hn]
      exact (hg.mem_dependencies hY.2).mpr ⟨hname, hne⟩
    have hXY := hem.after Y X ⟨hY, hX, Ne.symm h, hdep⟩
    rcases hYE with rfl | hYE
    · exact .inr hXY
    · exact .inr (hXY.trans hem.nodup hYE)

theorem upTo_of_mem_uses (hr : ctx.registry.result = .ok r) (hem : r.IsEmission order)
    (he : entity ∈ ctx.schema.entities) (hx : ctx.isExternal entity = false)
    (hE : r.UpTo order E entity.name) {name : String} (hname : name ∈ entity.uses) :
    r.UpTo order E name := by
  obtain ⟨Y, hY, hg⟩ := exists_entry_of_registry hr he
  obtain ⟨hn, hexternal, _⟩ := hg.inversion
  rw [← hn] at hE
  exact hg.upTo_of_mem_uses hem ⟨hY, hexternal.trans hx⟩ hE hname

theorem closed_upTo (hr : ctx.registry.result = .ok r) (hem : r.IsEmission order) :
    ctx.Closed (r.UpTo order E) where
  aliases := by
    intro a ha hE hb name hn
    have hmem := Schema.alias_mem_entities.mpr ha
    exact upTo_of_mem_uses hr hem hmem hb hE (mem_distinctBy_id.mpr hn)
  parents := by
    intro s hs hE p hp name hn
    have hmem := Schema.struct_mem_entities.mpr hs
    apply upTo_of_mem_uses hr hem hmem rfl hE
    apply List.mem_append_left
    exact List.mem_flatMap.mpr ⟨p, hp, mem_distinctBy_id.mpr hn⟩
  properties := by
    intro s hs hE property hp name hn
    have hmem := Schema.struct_mem_entities.mpr hs
    apply upTo_of_mem_uses hr hem hmem rfl hE
    apply List.mem_append_right
    exact List.mem_flatMap.mpr ⟨property, hp, mem_distinctBy_id.mpr hn⟩

theorem Denotes.mem_entities {name : String} {e : Enumeration} (h : ctx.Denotes name e) :
    Entity.enumeration e ∈ ctx.schema.entities := by
  obtain ⟨n, _, _, he, _⟩ := h
  exact Schema.enumeration_mem_entities.mpr (mem_enumerations_of_lookup he).1

def rendered (ctx : Context) : Entity → List CppType
  | .enumeration _ => []
  | .alias a =>
    match (a.type.expression a.name).result with
    | .ok type => [type]
    | .error _ => []
  | .struct s => (ctx.structureDraft s).written.flatMap Fragment.types

def converted (ctx : Context) : Entity → List CppType
  | .enumeration _ | .alias _ => []
  | .struct s => (ctx.structureDraft s).written.flatMap Fragment.converted

theorem Closed.rendered_within {C : String → Prop} (hC : ctx.Closed C)
    (he : entity ∈ ctx.schema.entities) (hx : ctx.isExternal entity = false)
    (hn : C entity.name) : ∀ type ∈ ctx.rendered entity, type.Within C := by
  intro type ht
  match entity with
  | .enumeration e => cases ht
  | .alias a =>
    have ha := Schema.alias_mem_entities.mp he
    rw [rendered] at ht
    split at ht
    · next hexpression =>
      cases List.mem_singleton.mp ht
      exact (hC.aliases a ha hn hx).expression hexpression
    · cases ht
  | .struct s =>
    have hs := Schema.struct_mem_entities.mp he
    obtain ⟨f, hf, ht⟩ := List.mem_flatMap.mp ht
    exact (hC.writes_structureDraft hs hn f hf).1 type ht

theorem Closed.converted_denotes {C : String → Prop} (hC : ctx.Closed C)
    (he : entity ∈ ctx.schema.entities) (hn : C entity.name) :
    ∀ type ∈ ctx.converted entity, ∃ name e, type = .named name ∧ ctx.Denotes name e ∧
      C e.name ∧ entity ≠ .enumeration e := by
  intro type ht
  match entity with
  | .enumeration e => cases ht
  | .alias a => cases ht
  | .struct s =>
    have hs := Schema.struct_mem_entities.mp he
    obtain ⟨f, hf, ht⟩ := List.mem_flatMap.mp ht
    obtain ⟨hwithin, hconverted⟩ := hC.writes_structureDraft hs hn f hf
    obtain ⟨name, e, rfl, hdenotes⟩ := hconverted type ht
    have hname : C name :=
      hwithin _ (f.converted_subset_types ht) name (List.mem_singleton_self name)
    exact ⟨name, e, rfl, hdenotes, hC.of_denotes hdenotes hname, nofun⟩

/-- Every generated type stands after all others that its code names, and in particular after the
conversions of the enumerations whose values it reads or writes. -/
theorem declared_before_use (hr : ctx.registry.result = .ok r) (ho : r.emissionOrder = .ok order) :
    order.Nodup ∧ (∀ E ∈ order, ∃ entity ∈ ctx.schema.entities, ctx.Generates entity E) ∧
      ∀ entity ∈ ctx.schema.entities, ∀ E ∈ order, ctx.Generates entity E →
        (∀ type ∈ ctx.rendered entity, ∀ name ∈ type.names, name ≠ E.name →
          ∀ X, r.Schedules X → X.name = name → Precedes order X E) ∧
        ∀ type ∈ ctx.converted entity, ∃ name e X, type = .named name ∧ ctx.Denotes name e ∧
          ctx.Generates (.enumeration e) X ∧ e.ConvertedBy X.implementation ∧
          Precedes order X E := by
  have hem := (Registry.isEmission_of_emissionOrder ho).1
  refine ⟨hem.nodup, ?_, ?_⟩
  · intro E hE
    exact exists_entity_of_registry hr ((hem.mem_iff E).mp hE).1
  intro entity he E hE hg
  have hs := (hem.mem_iff E).mp hE
  have hC : ctx.Closed (r.UpTo order E) := closed_upTo hr hem
  obtain ⟨hname, hexternal, _⟩ := hg.inversion
  have hself : r.UpTo order E entity.name := hname ▸ Registry.upTo_self hs.1
  constructor
  · intro type ht name hn hne X hX hXn
    rcases hC.rendered_within he (hexternal.symm.trans hs.2) hself type ht name hn X hX hXn
      with rfl | hXE
    · exact absurd hXn.symm hne
    · exact hXE
  · intro type ht
    obtain ⟨name, e, rfl, hdenotes, hup, hne⟩ := hC.converted_denotes he hself type ht
    obtain ⟨X, hX, hgX⟩ := exists_entry_of_registry hr hdenotes.mem_entities
    obtain ⟨hXn, hXexternal, _⟩ := hgX.inversion
    refine ⟨name, e, X, rfl, hdenotes, hgX, ?_, ?_⟩
    · exact (Enumeration.entry_eq_ok hgX).2.2.2 hdenotes.isPassThrough
    · rcases hup X ⟨hX, hXexternal⟩ hXn with rfl | hXE
      · exact absurd (entity_eq_of_name hr he hdenotes.mem_entities (hname.symm.trans hXn)) hne
      · exact hXE

def wall : Structure := { name := "Wall", bases := [.reference "Surface"] }

/-- The field that `wall` inherits is a union behind one alias, and an alternative of it is an
enumeration behind another one. -/
def palette : Context where
  options := { builtins := [⟨"Any", "std::any"⟩] }
  schema := {
    structures := [wall,
      { name := "Surface"
        properties := [{ name := "paint", type := .reference "Paint" },
          { name := "texture", type := .reference "Any", optional := true }] }]
    enumerations := [{ name := "Color", values := [⟨"red", .string "r", none⟩] }]
    aliases := [{ name := "Any", type := .reference "Wall" },
      { name := "Paint", type := .or [.array (.base "string"), .reference "Shade"] },
      { name := "Shade", type := .reference "Color" }] }

theorem declared_before_use_palette :
    ∃ r order E, palette.registry.result = .ok r ∧ r.emissionOrder = .ok order ∧
      order.map Entry.name = ["Color", "Shade", "Paint", "Surface", "Wall"] ∧
      palette.Generates (.struct wall) E ∧
      CppType.named "Shade" ∈ palette.rendered (.struct wall) ∧
      (∀ X, r.Schedules X → X.name = "Shade" → Precedes order X E) ∧
      CppType.named "Shade" ∈ palette.converted (.struct wall) ∧
      ∃ e X, palette.Denotes "Shade" e ∧ e.ConvertedBy X.implementation ∧
        Precedes order X E := by
  have hnames : palette.emissionNames = .ok ["Color", "Shade", "Paint", "Surface", "Wall"] := by
    decide +kernel
  have hrendered : CppType.named "Shade" ∈ palette.rendered (.struct wall) := by decide +kernel
  have hconverted : CppType.named "Shade" ∈ palette.converted (.struct wall) := by decide +kernel
  have hwall : Entity.struct wall ∈ palette.schema.entities := by simp [Schema.entities, palette]
  obtain ⟨r, hr, h⟩ := Except.bind_eq_ok.mp hnames
  obtain ⟨order, ho, h⟩ := Except.bind_eq_ok.mp h
  obtain ⟨E, hE, hg⟩ := exists_entry_of_registry hr hwall
  have hs : r.Schedules E := ⟨hE, hg.inversion.2.1⟩
  have horder := ((Registry.isEmission_of_emissionOrder ho).1.mem_iff E).mpr hs
  obtain ⟨hnamed, hread⟩ := (declared_before_use hr ho).2.2 _ hwall E horder hg
  refine ⟨r, order, E, hr, ho, Except.ok.inj h, hg, hrendered, ?_, hconverted, ?_⟩
  · apply hnamed _ hrendered "Shade" (List.mem_singleton_self _)
    rw [hg.inversion.1]
    decide
  · obtain ⟨name, e, X, hn, hdenotes, _, hX, hXE⟩ := hread _ hconverted
    cases hn
    exact ⟨e, X, hdenotes, hX, hXE⟩

end Context

end ProtocolBindings

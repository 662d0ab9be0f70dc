import ProtocolBindings.Proofs.Definitions

namespace ProtocolBindings

namespace Registry

open DependencyGraph

variable {r s : Registry} {extra a b e : Entry} {order done rest : List Entry}

theorem ready_position_iff (hd : ∀ a ∈ done, a ∈ r.entries) (he : e ∈ r.entries) :
    (ofRegistry r).Ready (done.map r.position) (r.position e) ↔
      r.Schedules e ∧ e ∉ done ∧ ∀ b, r.DependsOn e b → b ∈ done := by
  have hmem {b : Entry} (hb : b ∈ r.entries) :
      r.position b ∈ done.map r.position ↔ b ∈ done := by
    constructor
    · intro h
      obtain ⟨c, hc, heq⟩ := List.mem_map.mp h
      rwa [← position_inj (hd c hc) hb heq]
    · exact List.mem_map_of_mem
  have hprerequisites : (∀ j ∈ (ofRegistry r).prerequisitesOf (r.position e),
      j ∈ done.map r.position) ↔ ∀ b, r.DependsOn e b → b ∈ done := by
    rw [prerequisitesOf_ofRegistry]
    constructor
    · intro h b hb
      have hj := (position_mem_prerequisites he hb.2.1.1).mpr hb
      exact (hmem hb.2.1.1).mp (h _ hj)
    · intro h j hj
      obtain ⟨a, b, ha, hb, hab⟩ := mem_prerequisites.mp hj
      rw [getElem?_position he] at ha
      cases ha
      rw [← position_of_getElem? hb]
      exact List.mem_map_of_mem (h b hab)
  rw [Ready, hprerequisites, scheduled_ofRegistry, position_mem_scheduled he, hmem he]

/-- A greedy order of all entries is the one that is emitted. -/
theorem emissionOrder_eq_of_greedy (h : r.IsEmission order)
    (hg : (ofRegistry r).Greedy [] (order.map r.position)) : r.emissionOrder = .ok order := by
  obtain ⟨emitted, hok⟩ := emissionOrder_of_acyclic h.acyclic
  obtain ⟨he, hge⟩ := isEmission_of_emissionOrder hok
  have hlen := (h.perm.trans he.perm.symm).length_eq
  have hpositions : emitted.map r.position = order.map r.position :=
    le_antisymm (hge.le_of_legal hg.legal hlen.symm) (hg.le_of_legal hge.legal hlen)
  rw [hok, ← he.entriesAt_map_position, hpositions, h.entriesAt_map_position]

/-- One more entry, on which none of the others depends. -/
structure Enlarges (s r : Registry) (extra : Entry) : Prop where
  inserts : ∃ before after, r.entries = before ++ after ∧ s.entries = before ++ extra :: after
  unused : ∀ e, r.Schedules e → extra.name ∉ e.dependencies

namespace Enlarges

theorem mem_entries (h : s.Enlarges r extra) : e ∈ s.entries ↔ e = extra ∨ e ∈ r.entries := by
  obtain ⟨before, after, hr, hs⟩ := h.inserts
  rw [hr, hs, List.mem_append, List.mem_cons, List.mem_append]
  tauto

theorem ne_extra (h : s.Enlarges r extra) (he : e ∈ r.entries) : e ≠ extra := by
  obtain ⟨before, after, hr, hs⟩ := h.inserts
  have hnodup := s.nodup_entries
  rw [hs, List.nodup_middle, List.nodup_cons, ← hr] at hnodup
  rintro rfl
  exact hnodup.1 he

theorem schedules_iff (h : s.Enlarges r extra) :
    r.Schedules e ↔ s.Schedules e ∧ e ≠ extra := by
  rw [Schedules, Schedules, h.mem_entries]
  constructor
  · rintro ⟨he, hx⟩
    exact ⟨⟨.inr he, hx⟩, h.ne_extra he⟩
  · rintro ⟨⟨he, hx⟩, hne⟩
    exact ⟨he.resolve_left hne, hx⟩

theorem dependsOn_iff (h : s.Enlarges r extra) (ha : r.Schedules a) :
    s.DependsOn a b ↔ r.DependsOn a b := by
  constructor
  · rintro ⟨_, hb, hne, hname⟩
    have hextra : b ≠ extra := by
      rintro rfl
      exact h.unused a ha hname
    exact ⟨ha, h.schedules_iff.mpr ⟨hb, hextra⟩, hne, hname⟩
  · rintro ⟨_, hb, hne, hname⟩
    exact ⟨(h.schedules_iff.mp ha).1, (h.schedules_iff.mp hb).1, hne, hname⟩

/-- The other entries follow each other as before. -/
theorem position_le (h : s.Enlarges r extra) (ha : a ∈ r.entries) (hb : b ∈ r.entries)
    (hab : s.position a ≤ s.position b) : r.position a ≤ r.position b := by
  have hane := h.ne_extra ha
  have hbne := h.ne_extra hb
  obtain ⟨before, after, hr, hs⟩ := h.inserts
  rw [position, position, hs, List.idxOf_append, List.idxOf_append,
    List.idxOf_cons_ne _ hane.symm, List.idxOf_cons_ne _ hbne.symm] at hab
  rw [position, position, hr, List.idxOf_append, List.idxOf_append]
  have hlt {c : Entry} (hc : c ∈ before) := List.idxOf_lt_length_of_mem hc
  grind

/-- Each step of the larger emission that does not emit the new entry is a step of the smaller
one. -/
theorem ready_iff (h : s.Enlarges r extra) (hd : ∀ a ∈ done, a ∈ s.entries) (he : e ∈ r.entries) :
    (ofRegistry s).Ready (done.map s.position) (s.position e) ↔
      (ofRegistry r).Ready ((done.filter (· ≠ extra)).map r.position) (r.position e) := by
  have hd' : ∀ a ∈ done.filter (· ≠ extra), a ∈ r.entries := by
    intro a ha
    rw [List.mem_filter, decide_eq_true_eq] at ha
    exact (h.mem_entries.mp (hd a ha.1)).resolve_left ha.2
  have hmem {b : Entry} (hb : b ∈ r.entries) : b ∈ done.filter (· ≠ extra) ↔ b ∈ done := by
    rw [List.mem_filter, decide_eq_true_eq]
    exact and_iff_left (h.ne_extra hb)
  rw [ready_position_iff hd (h.mem_entries.mpr (.inr he)), ready_position_iff hd' he, hmem he]
  have hschedules : s.Schedules e ↔ r.Schedules e := by
    rw [h.schedules_iff]
    exact (and_iff_left (h.ne_extra he)).symm
  rw [hschedules]
  apply and_congr_right
  intro hse
  apply and_congr_right
  intro _
  constructor
  · intro hall b hb
    exact (hmem hb.2.1.1).mpr (hall b ((h.dependsOn_iff hse).mpr hb))
  · intro hall b hb
    have hrb := (h.dependsOn_iff hse).mp hb
    exact (hmem hrb.2.1.1).mp (hall b hrb)

theorem greedy (h : s.Enlarges r extra) (done : List Entry) (hd : ∀ a ∈ done, a ∈ s.entries)
    (hrest : ∀ a ∈ rest, a ∈ s.entries)
    (hg : (ofRegistry s).Greedy (done.map s.position) (rest.map s.position)) :
    (ofRegistry r).Greedy ((done.filter (· ≠ extra)).map r.position)
      ((rest.filter (· ≠ extra)).map r.position) := by
  induction rest generalizing done with
  | nil => trivial
  | cons e rest ih =>
    obtain ⟨he, hrest⟩ := List.forall_mem_cons.mp hrest
    have hnext := ih (e :: done) (List.forall_mem_cons.mpr ⟨he, hd⟩) hrest hg.2
    by_cases hx : e = extra
    · subst hx
      simpa using hnext
    · have her := (h.mem_entries.mp he).resolve_left hx
      rw [List.filter_cons_of_pos (by simpa using hx)] at hnext ⊢
      refine ⟨⟨(h.ready_iff hd her).mp hg.1.1, ?_⟩, hnext⟩
      intro k hk
      obtain ⟨b, hb, hsb⟩ := mem_scheduled.mp hk.1
      rw [← position_of_getElem? hb] at hk ⊢
      exact h.position_le her hsb.1 (hg.1.2 _ ((h.ready_iff hd hsb.1).mpr hk))

/-- Without the new entry, the larger emission is the smaller one. -/
theorem emissionOrder (h : s.Enlarges r extra) (hs : s.emissionOrder = .ok order) :
    r.emissionOrder = .ok (order.filter (· ≠ extra)) := by
  obtain ⟨hem, hgreedy⟩ := isEmission_of_emissionOrder hs
  have hmem : ∀ e, e ∈ order.filter (· ≠ extra) ↔ r.Schedules e := by
    intro e
    rw [List.mem_filter, hem.mem_iff, decide_eq_true_eq, h.schedules_iff]
  apply emissionOrder_eq_of_greedy
  · refine ⟨hem.nodup.filter _, hmem, ?_⟩
    intro a b hab
    have hprecedes := hem.after a b ((h.dependsOn_iff hab.1).mpr hab)
    exact hprecedes.filter (decide_eq_true (h.ne_extra hab.2.1.1))
      (decide_eq_true (h.ne_extra hab.1.1))
  · have horder : ∀ a ∈ order, a ∈ s.entries := fun a ha => ((hem.mem_iff a).mp ha).1
    exact h.greedy [] (List.forall_mem_nil _) horder hgreedy

end Enlarges

end Registry

namespace Entity

variable {a : TypeAlias} {s : Structure} {t : TypeSpec} {name : String}

theorem mem_uses_alias : name ∈ uses (.alias a) ↔ name ∈ a.type.mentions :=
  mem_distinctBy_id

theorem mem_uses_struct : name ∈ uses (.struct s) ↔
    (∃ p ∈ s.parents, name ∈ p.mentions) ∨ ∃ p ∈ s.properties, name ∈ p.type.mentions := by
  rw [uses, Context.structureDependencies, List.mem_append, List.mem_flatMap, List.mem_flatMap]
  simp only [TypeSpec.references, mem_distinctBy_id]

end Entity

namespace Schema

variable {schema larger : Schema} {entity : Entity}

/-- One more definition, anywhere among those of its kind. -/
inductive Adds (schema : Schema) : Entity → Schema → Prop where
  | struct (s : Structure) (before after : List Structure)
    (h : schema.structures = before ++ after) :
    Adds schema (.struct s) { schema with structures := before ++ s :: after }
  | enumeration (e : Enumeration) (before after : List Enumeration)
    (h : schema.enumerations = before ++ after) :
    Adds schema (.enumeration e) { schema with enumerations := before ++ e :: after }
  | typeAlias (a : TypeAlias) (before after : List TypeAlias)
    (h : schema.aliases = before ++ after) :
    Adds schema (.alias a) { schema with aliases := before ++ a :: after }

namespace Adds

theorem exists_append (h : schema.Adds entity larger) :
    ∃ before after, schema.entities = before ++ after ∧
      larger.entities = before ++ entity :: after := by
  cases h with
  | struct s before after h =>
    refine ⟨schema.enumerations.map .enumeration ++ schema.aliases.map .alias ++
      before.map .struct, after.map .struct, ?_, ?_⟩
    · simp [entities, h]
    · simp [entities]
  | enumeration e before after h =>
    refine ⟨before.map .enumeration, after.map .enumeration ++ schema.aliases.map .alias ++
      schema.structures.map .struct, ?_, ?_⟩
    · simp [entities, h]
    · simp [entities]
  | typeAlias a before after h =>
    refine ⟨schema.enumerations.map .enumeration ++ before.map .alias,
      after.map .alias ++ schema.structures.map .struct, ?_, ?_⟩
    · simp [entities, h]
    · simp [entities]

theorem mem_entities (h : schema.Adds entity larger) {definition : Entity} :
    definition ∈ larger.entities ↔ definition = entity ∨ definition ∈ schema.entities := by
  obtain ⟨before, after, hs, hl⟩ := h.exists_append
  rw [hs, hl, List.mem_append, List.mem_cons, List.mem_append]
  tauto

theorem mem_structures (h : schema.Adds entity larger) {s : Structure}
    (hs : s ∈ schema.structures) : s ∈ larger.structures :=
  struct_mem_entities.mp (h.mem_entities.mpr (.inr (struct_mem_entities.mpr hs)))

theorem distinct (h : schema.Adds entity larger) (hd : larger.definedNames.Nodup) :
    schema.definedNames.Nodup ∧ ∀ definition ∈ schema.entities, definition.name ≠ entity.name := by
  obtain ⟨before, after, hs, hl⟩ := h.exists_append
  have hnames := nodup_names_entities hd
  rw [hl, List.map_append, List.map_cons, List.nodup_middle, List.nodup_cons, ← List.map_append,
    ← hs] at hnames
  refine ⟨schema.names_entities_perm.nodup_iff.mp hnames.2, ?_⟩
  intro definition hdef hname
  exact hnames.1 (hname ▸ List.mem_map_of_mem hdef)

/-- A model without one of its definitions passes the checks, unless it was a parent. -/
theorem wellFormed (h : schema.Adds entity larger)
    (hu : ∀ definition ∈ schema.entities, entity.name ∉ definition.uses)
    (hw : larger.WellFormed) : schema.WellFormed where
  distinct := (h.distinct hw.distinct).1
  parents := by
    intro s hs p hp
    have hmem := struct_mem_entities.mpr hs
    obtain ⟨t, ht, rfl⟩ := hw.parents s (h.mem_structures hs) p hp
    refine ⟨t, ?_, rfl⟩
    rcases h.mem_entities.mp (struct_mem_entities.mpr ht) with rfl | ht
    · have hused := Entity.mem_uses_struct.mpr (.inl ⟨_, hp, List.mem_singleton_self t.name⟩)
      exact absurd hused (hu _ hmem)
    · exact struct_mem_entities.mp ht
  acyclic := by
    intro s hs
    have hinherits : ∀ child parent, schema.Inherits child parent →
        larger.Inherits child parent := by
      rintro child parent ⟨hc, hp, href⟩
      exact ⟨h.mem_structures hc, h.mem_structures hp, href⟩
    exact hw.acyclic s (Relation.TransGen.mono hinherits s s hs)

theorem lookup (h : schema.Adds entity larger) (hd : larger.definedNames.Nodup) {name : String}
    (hn : name ≠ entity.name) : larger.lookup name = schema.lookup name := by
  apply lookup_congr (h.distinct hd).1 hd
  rintro definition rfl
  rw [h.mem_entities]
  constructor
  · exact .inr
  · intro hor
    refine hor.resolve_left ?_
    rintro rfl
    exact hn rfl

end Adds

end Schema

theorem exists_append_of_forall₂ {α β : Type} {R : α → β → Prop} {as bs : List α} {cs : List β}
    (h : List.Forall₂ R (as ++ bs) cs) :
    ∃ ds es, cs = ds ++ es ∧ List.Forall₂ R as ds ∧ List.Forall₂ R bs es :=
  ⟨cs.take as.length, cs.drop as.length, (List.take_append_drop _ _).symm,
    (List.forall₂_take_append cs as bs h.flip).flip,
    (List.forall₂_drop_append cs as bs h.flip).flip⟩

namespace Context

variable {ctx ctx' : Context} {entity : Entity} {larger : Schema} {r s : Registry}

theorem entries_unique {definitions : List Entity} {entries entries' : List Entry}
    (h : ∀ definition ∈ definitions, ctx'.Generates definition = ctx.Generates definition)
    (hf : List.Forall₂ ctx.Generates definitions entries)
    (hf' : List.Forall₂ ctx'.Generates definitions entries') : entries' = entries := by
  induction hf generalizing entries' with
  | nil => exact List.forall₂_nil_left_iff.mp hf'
  | cons hg _ ih =>
    obtain ⟨hd, hrest⟩ := List.forall_mem_cons.mp h
    obtain ⟨entry, rest, hg', hrest', rfl⟩ := List.forall₂_cons_left_iff.mp hf'
    rw [hd] at hg'
    rw [hg'.unique hg, ih hrest hrest']

theorem exists_inserted {before after : List Entity} {entries entries' : List Entry}
    (h : ∀ definition ∈ before ++ after, ctx'.Generates definition = ctx.Generates definition)
    (hf : List.Forall₂ ctx.Generates (before ++ after) entries)
    (hf' : List.Forall₂ ctx'.Generates (before ++ entity :: after) entries') :
    ∃ xs extra ys, entries = xs ++ ys ∧ entries' = xs ++ extra :: ys ∧
      ctx'.Generates entity extra := by
  obtain ⟨xs, ys, rfl, hx, hy⟩ := exists_append_of_forall₂ hf
  obtain ⟨xs', tail, rfl, hx', htail⟩ := exists_append_of_forall₂ hf'
  obtain ⟨extra, ys', hextra, hy', rfl⟩ := List.forall₂_cons_left_iff.mp htail
  have hbefore : xs' = xs := entries_unique (fun d hd => h d (List.mem_append_left _ hd)) hx hx'
  have hafter : ys' = ys := entries_unique (fun d hd => h d (List.mem_append_right _ hd)) hy hy'
  exact ⟨xs, extra, ys, rfl, by rw [hbefore, hafter], hextra⟩

theorem closed_of_unused {name : String}
    (hu : ∀ definition ∈ ctx.schema.entities, name ∉ definition.uses) :
    ctx.Closed (· ≠ name) where
  aliases := by
    rintro a ha _ _ _ hmem rfl
    exact hu _ (Schema.alias_mem_entities.mpr ha) (Entity.mem_uses_alias.mpr hmem)
  parents := by
    rintro s hs _ p hp _ hmem rfl
    exact hu _ (Schema.struct_mem_entities.mpr hs) (Entity.mem_uses_struct.mpr (.inl ⟨p, hp, hmem⟩))
  properties := by
    rintro s hs _ p hp _ hmem rfl
    exact hu _ (Schema.struct_mem_entities.mpr hs) (Entity.mem_uses_struct.mpr (.inr ⟨p, hp, hmem⟩))

theorem agreesOn_extended (h : ctx.schema.Adds entity larger) (hd : larger.definedNames.Nodup)
    (hu : ∀ definition ∈ ctx.schema.entities, entity.name ∉ definition.uses) :
    ctx.AgreesOn { ctx with schema := larger } (· ≠ entity.name) where
  closed := closed_of_unused hu
  lookup _ hn := h.lookup hd hn
  isBuiltin _ := rfl
  isPassThrough _ := rfl
  namespaceName := rfl

theorem registry_extended (h : ctx.schema.Adds entity larger)
    (hu : ∀ definition ∈ ctx.schema.entities, entity.name ∉ definition.uses)
    (hs : (registry { ctx with schema := larger }).result = .ok s) :
    ∃ r extra, ctx.registry.result = .ok r ∧ s.Enlarges r extra ∧ extra.name = entity.name := by
  obtain ⟨hw, hall⟩ := exists_registry_iff.mp ⟨s, hs⟩
  have hagree : ∀ definition ∈ ctx.schema.entities,
      Generates { ctx with schema := larger } definition = ctx.Generates definition := by
    intro definition hdef
    apply (agreesOn_extended h hw.distinct hu).generates hdef
    exact (h.distinct hw.distinct).2 definition hdef
  have hexists : ∃ r, ctx.registry.result = .ok r := by
    apply exists_registry_iff.mpr
    refine ⟨h.wellFormed hu hw, ?_⟩
    intro definition hdef
    rw [← hagree definition hdef]
    exact hall definition (h.mem_entities.mpr (.inr hdef))
  obtain ⟨r, hr⟩ := hexists
  obtain ⟨before, after, hsplit, hlarger⟩ := h.exists_append
  have hfr := forall₂_of_registry hr
  have hfs := forall₂_of_registry hs
  rw [hsplit] at hagree hfr
  rw [hlarger] at hfs
  obtain ⟨xs, extra, ys, hrs, hss, hextra⟩ := exists_inserted hagree hfr hfs
  have hname := hextra.inversion.1
  refine ⟨r, extra, hr, ⟨⟨xs, ys, hrs, hss⟩, ?_⟩, hname⟩
  intro e he hmem
  obtain ⟨definition, hdef, hg⟩ := exists_entity_of_registry hr he.1
  rw [hg.mem_dependencies he.2, hname] at hmem
  exact hu definition hdef hmem.1

/-- If a model can be compiled with a definition that nothing else refers to, then it can be
without it. All other names have the same entries in both, and are emitted in the same order. -/
theorem extended_same_entries (ctx : Context) {entity : Entity} {larger : Schema}
    (h : ctx.schema.Adds entity larger)
    (hu : ∀ definition ∈ ctx.schema.entities, entity.name ∉ definition.uses)
    {b : Bindings} (hb : compile { ctx with schema := larger } = .ok b) :
    (∃ bindings, ctx.compile = .ok bindings) ∧
    ∃ r s names more, ctx.registry.result = .ok r ∧
      (registry { ctx with schema := larger }).result = .ok s ∧
      ctx.emissionNames = .ok names ∧ emissionNames { ctx with schema := larger } = .ok more ∧
      (∀ name ∈ ctx.schema.definedNames, ∃ entry, r.get? name = some entry ∧
        s.get? name = some entry) ∧
      names = more.filter (· ≠ entity.name) := by
  obtain ⟨s, order, hs, hso, _⟩ := compile_eq_ok.mp hb
  obtain ⟨r, extra, hr, hext, hname⟩ := registry_extended h hu hs
  have hro := hext.emissionOrder hso
  refine ⟨⟨_, compile_eq_ok.mpr ⟨r, _, hr, hro, rfl⟩⟩, r, s, _, _, hr, hs,
    emissionNames_eq_ok.mpr ⟨r, _, hr, hro, rfl⟩, emissionNames_eq_ok.mpr ⟨s, _, hs, hso, rfl⟩,
    ?_, ?_⟩
  · intro name hdefined
    have hmem : name ∈ r.names := by
      rw [names_of_registry hr]
      exact ctx.schema.names_entities_perm.mem_iff.mpr hdefined
    obtain ⟨entry, he, rfl⟩ := List.mem_map.mp hmem
    exact ⟨entry, Registry.get?_eq_some_iff.mpr ⟨he, rfl⟩,
      Registry.get?_eq_some_iff.mpr ⟨hext.mem_entries.mpr (.inr he), rfl⟩⟩
  · rw [List.filter_map]
    congr 1
    apply List.filter_congr
    intro e he
    have hes := (((Registry.isEmission_of_emissionOrder hso).1.mem_iff e).mp he).1
    have hextra : extra ∈ s.entries := hext.mem_entries.mpr (.inl rfl)
    have hiff : e = extra ↔ e.name = entity.name := by
      rw [← hname]
      exact ⟨congrArg Entry.name, Registry.eq_of_name hes hextra⟩
    simp [hiff]

def lamp : Structure where
  name := "Lamp"
  properties := [{ name := "switch", type := .reference "Pen" }]

def desk (further : List Structure) : Context where
  options := {}
  schema := {
    structures := further ++ [
      { name := "Drawer", properties := [{ name := "pen", type := .reference "Pen" }] },
      { name := "Pen" }] }

theorem extended_same_entries_desk :
    (desk [lamp]).emissionNames = .ok ["Pen", "Lamp", "Drawer"] ∧
      (desk []).emissionNames = .ok ["Pen", "Drawer"] ∧
      ∃ r s entry, (desk []).registry.result = .ok r ∧ (desk [lamp]).registry.result = .ok s ∧
        r.get? "Drawer" = some entry ∧ s.get? "Drawer" = some entry := by
  have hlarger : (desk [lamp]).emissionNames = .ok ["Pen", "Lamp", "Drawer"] := by decide +kernel
  have hadds : (desk []).schema.Adds (.struct lamp) (desk [lamp]).schema :=
    .struct lamp [] (desk []).schema.structures rfl
  obtain ⟨s, order, hs, ho, _⟩ := emissionNames_eq_ok.mp hlarger
  have hcompile := compile_eq_ok.mpr ⟨s, order, hs, ho, rfl⟩
  obtain ⟨_, r, s', names, more, hr, hs', hnames, hmore, hentries, hfilter⟩ :=
    extended_same_entries (desk []) hadds (by decide) hcompile
  have hsame : more = ["Pen", "Lamp", "Drawer"] := Except.ok.inj (hmore.symm.trans hlarger)
  rw [hfilter, hsame] at hnames
  obtain ⟨entry, hre, hse⟩ := hentries "Drawer" (by decide)
  exact ⟨hlarger, hnames, r, s', entry, hr, hs', hre, hse⟩

end Context

end ProtocolBindings

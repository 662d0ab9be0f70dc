import ProtocolBindings.Bindings
import ProtocolBindings.Proofs.NamesUsed

namespace ProtocolBindings

variable {C : String → Prop}

theorem Except.mapM_congr {ε α β : Type} {f g : α → Except ε β} {as : List α}
    (h : ∀ a ∈ as, f a = g a) : as.mapM f = as.mapM g := by
  induction as with
  | nil => rfl
  | cons a as ih =>
    obtain ⟨ha, has⟩ := List.forall_mem_cons.mp h
    rw [List.mapM_cons, List.mapM_cons, ha, ih has]

theorem TypeSpec.Within.of_core_eq {t : TypeSpec} (h : t.Within C) {name : String}
    (hc : t.core = .reference name) : C name := by
  apply h
  rw [← TypeSpec.mentions_core, hc]
  exact List.mem_singleton_self name

namespace Schema

variable {schema schema' : Schema} {name : String}

theorem lookup_eq_struct {s : Structure} :
    schema.lookup name = some (.struct s) ↔ schema.structure? name = some s := by
  unfold lookup
  cases schema.structure? name with
  | some t => simp
  | none =>
    cases schema.enumerations.find? (·.name = name) with
    | some e => simp
    | none => simp

theorem structure?_congr (h : schema'.lookup name = schema.lookup name) :
    schema'.structure? name = schema.structure? name := by
  apply Option.ext
  intro s
  rw [← lookup_eq_struct, ← lookup_eq_struct, h]

end Schema

namespace Context

variable {ctx ctx' : Context} {owner scope : String} {path followed labels : List String}
  {index : Nat} {t : TypeSpec}

theorem trace_of_reference {name : String} (hc : t.core = .reference name) :
    ctx.trace owner followed t =
      if ctx.options.isBuiltin name then .ok (.aggregate, followed)
      else
        match ctx.schema.lookup name with
        | some (.enumeration e) =>
          .ok (if ctx.options.isPassThrough e.name then .primitive else .enumeration, followed)
        | some (.alias a) =>
          if name ∈ followed then .ok (.aggregate, followed)
          else ctx.trace owner (followed ++ [name]) a.type
        | some (.struct _) | none => .ok (.aggregate, followed) := by
  rw [trace]
  simp only [hc]
  split
  · rfl
  · split
    · next h => simp only [h]
    · next h => simp only [h, dite_eq_ite]
    · next h => simp only [h]
    · next h => simp only [h]

/-- What becomes of an alternative is determined: no two outcomes fit the same one. -/
theorem DraftsAlternative.unique {d d' : Draft Fragment (Option String)}
    (h : ctx.DraftsAlternative path scope index labels t d)
    (h' : ctx.DraftsAlternative path scope index labels t d') : d = d' := by
  cases h <;> cases h' <;> grind [Nests]

/-- The second context has the same definitions as the first one for a closed set of names, and its
options treat all names alike. -/
structure AgreesOn (ctx ctx' : Context) (C : String → Prop) : Prop where
  closed : ctx.Closed C
  lookup : ∀ name, C name → ctx'.schema.lookup name = ctx.schema.lookup name
  isBuiltin : ∀ name, ctx'.options.isBuiltin name = ctx.options.isBuiltin name
  isPassThrough : ∀ name, ctx'.options.isPassThrough name = ctx.options.isPassThrough name
  namespaceName : ctx'.options.namespaceName = ctx.options.namespaceName

theorem closed_true (ctx : Context) : ctx.Closed fun _ => True where
  aliases _ _ _ _ _ _ := trivial
  parents _ _ _ _ _ _ _ := trivial
  properties _ _ _ _ _ _ _ := trivial

theorem AgreesOn.trace (h : ctx.AgreesOn ctx' C) (ht : t.Within C) :
    ctx'.trace owner followed t = ctx.trace owner followed t := by
  -- Only a reference is looked up, and it is in the set because the type is within it.
  fun_induction Context.trace ctx owner followed t with
  | case10 followed t name hc hb => rw [trace_of_reference hc, h.isBuiltin, if_pos hb]
  | case11 followed t name hc hb e he =>
    rw [trace_of_reference hc, h.isBuiltin, if_neg hb, h.lookup name (ht.of_core_eq hc), he]
    simp only [h.isPassThrough]
  | case12 followed t name hc hb a ha hf =>
    rw [trace_of_reference hc, h.isBuiltin, if_neg hb, h.lookup name (ht.of_core_eq hc), ha]
    exact if_pos hf
  | case13 followed t name hc hb a ha hf ih =>
    obtain ⟨hmem, rfl⟩ := mem_aliases_of_lookup ha
    have hname : C a.name := ht.of_core_eq hc
    have htype : a.type.Within C := h.closed.aliases a hmem hname (by simpa using hb)
    rw [trace_of_reference hc, h.isBuiltin, if_neg hb, h.lookup _ hname, ha]
    exact (if_neg hf).trans (ih htype)
  | case14 followed t name hc hb s hs =>
    rw [trace_of_reference hc, h.isBuiltin, if_neg hb, h.lookup name (ht.of_core_eq hc), hs]
  | case15 followed t name hc hb hn =>
    rw [trace_of_reference hc, h.isBuiltin, if_neg hb, h.lookup name (ht.of_core_eq hc), hn]
  | _ =>
    rw [Context.trace]
    simp only [*]

theorem AgreesOn.alternative (h : ctx.AgreesOn ctx' C) (ht : t.Within C)
    (hnested : ∀ items followed, ctx.Nests path scope index labels t items followed →
      ctx'.union (path ++ followed) scope (unionName index) items =
        ctx.union (path ++ followed) scope (unionName index) items) :
    ctx'.alternative path scope index labels t = ctx.alternative path scope index labels t := by
  have htrace : ctx'.trace scope [] t = ctx.trace scope [] t := h.trace ht
  apply (ctx'.draftsAlternative path scope index labels t).unique
  have hdraft := ctx.draftsAlternative path scope index labels t
  generalize ctx.alternative path scope index labels t = draft at hdraft ⊢
  cases hdraft with
  | skipped hs => exact .skipped hs
  | untraced hs he => exact .untraced hs (htrace.trans he)
  | unnamed hs hk hi => exact .unnamed hs (htrace.trans hk) hi
  | taken hs hk hi hl => exact .taken hs (htrace.trans hk) hi hl
  | endless hs hk hi hl hp => exact .endless hs (htrace.trans hk) hi hl hp
  | nested hn =>
    rw [← hnested _ _ hn]
    exact .nested ⟨hn.accessible, htrace.trans hn.traced, hn.identifier, hn.fresh, hn.ends⟩
  | plain hs hk hi hl hkind => exact .plain hs (htrace.trans hk) hi hl hkind

theorem AgreesOn.union (h : ctx.AgreesOn ctx' C) {name : String} {items : List TypeSpec}
    (hi : ∀ item ∈ items, item.Within C) :
    ctx'.union path scope name items = ctx.union path scope name items := by
  revert hi
  apply ctx.union_induction
    (U := fun path scope name items => (∀ item ∈ items, item.Within C) →
      ctx'.union path scope name items = ctx.union path scope name items)
    (L := fun path scope index labels items => (∀ item ∈ items, item.Within C) →
      ctx'.alternatives path scope index labels items =
        ctx.alternatives path scope index labels items)
    (A := fun path scope index labels t => t.Within C →
      ctx'.alternative path scope index labels t = ctx.alternative path scope index labels t)
  · intro path scope name items ih hi
    rw [Context.union, Context.union, ih hi]
  · intro path scope index labels _
    rw [alternatives, alternatives]
  · intro path scope index labels t rest ih ihrest hi
    obtain ⟨ht, hrest⟩ := List.forall_mem_cons.mp hi
    rw [alternatives, alternatives, ih ht]
    congr 1
    funext label?
    exact ihrest label? hrest
  · intro path scope index labels t ih ht
    apply h.alternative ht
    intro items followed hn
    exact ih items followed hn (h.closed.trace_union ht hn.traced)

theorem AgreesOn.fieldType (h : ctx.AgreesOn ctx' C) {property : Property} {kind : ValueKind}
    (hp : property.type.Within C) (hk : ctx.trace owner [] property.type = .ok (kind, followed)) :
    ctx'.fieldType scope property index followed kind =
      ctx.fieldType scope property index followed kind := by
  cases kind with
  | union items =>
    have hunion : ctx'.union followed scope (unionName index) items =
        ctx.union followed scope (unionName index) items :=
      h.union (h.closed.trace_union hp hk)
    rw [Context.fieldType, Context.fieldType, hunion]
  | _ => rfl

theorem AgreesOn.field (h : ctx.AgreesOn ctx' C) {taken : List String} {property : Property}
    (hp : property.type.Within C) :
    ctx'.field scope taken index property = ctx.field scope taken index property := by
  unfold Context.field
  rw [h.trace hp]
  apply Draft.bind_congr
  intro _ _
  apply Draft.bind_congr
  rintro ⟨kind, followed⟩ hk
  apply Draft.bind_congr
  intro taken _
  rw [h.fieldType hp hk]

theorem AgreesOn.fields (h : ctx.AgreesOn ctx' C) {taken : List String}
    {properties : List Property} (hp : ∀ p ∈ properties, p.type.Within C) :
    ctx'.fields scope taken index properties = ctx.fields scope taken index properties := by
  induction properties generalizing taken index with
  | nil => rfl
  | cons property rest ih =>
    obtain ⟨hproperty, hrest⟩ := List.forall_mem_cons.mp hp
    rw [Context.fields, Context.fields, h.field hproperty]
    split
    · rw [ih hrest]
    · apply Draft.bind_congr
      rintro ⟨taken, setUp⟩ _
      dsimp only
      rw [ih hrest]

theorem AgreesOn.parent (h : ctx.AgreesOn ctx' C) {child : String} {p : TypeSpec}
    (hp : p.Within C) : ctx'.schema.parent child p = ctx.schema.parent child p := by
  cases p with
  | reference name =>
    have hname : C name := hp name (List.mem_singleton_self name)
    rw [Schema.parent, Schema.parent, Schema.structure?_congr (h.lookup name hname)]
  | _ => rfl

theorem AgreesOn.inherited (h : ctx.AgreesOn ctx' C) {child : String} {p : TypeSpec}
    (hp : p.Within C) :
    ctx'.schema.inherited path child p = ctx.schema.inherited path child p := by
  fun_induction Schema.inherited ctx.schema path child p with
  | case1 path child p e he =>
    rw [Schema.inherited_eq, h.parent hp, he]
    rfl
  | case2 path child p s hs hm =>
    rw [Schema.inherited_eq, h.parent hp, hs]
    exact if_pos hm
  | case3 path child p s hs hm ih =>
    have hname : C s.name := hp _ (Schema.name_mem_mentions_of_parent hs)
    have hparents := h.closed.parents s (Schema.mem_structures_of_parent hs) hname
    have hfurther : s.parents.mapM (ctx'.schema.inherited (path ++ [s.name]) s.name) =
        s.parents.mapM (ctx.schema.inherited (path ++ [s.name]) s.name) :=
      Except.mapM_congr fun q hq => ih q (hparents q hq)
    rw [Schema.inherited_eq, h.parent hp, hs, ← hfurther]
    exact if_neg hm

theorem AgreesOn.flatten (h : ctx.AgreesOn ctx' C) {s : Structure}
    (hs : s ∈ ctx.schema.structures) (hn : C s.name) :
    ctx'.schema.flatten s = ctx.schema.flatten s := by
  have hfurther : s.parents.mapM (ctx'.schema.inherited [s.name] s.name) =
      s.parents.mapM (ctx.schema.inherited [s.name] s.name) :=
    Except.mapM_congr fun p hp => h.inherited (h.closed.parents s hs hn p hp)
  rw [Schema.flatten_eq_inherited, Schema.flatten_eq_inherited, hfurther]

theorem AgreesOn.structureDraft (h : ctx.AgreesOn ctx' C) {s : Structure}
    (hs : s ∈ ctx.schema.structures) (hn : C s.name) :
    ctx'.structureDraft s = ctx.structureDraft s := by
  unfold Context.structureDraft
  rw [h.flatten hs hn]
  apply Draft.bind_congr
  intro properties hf
  rw [h.fields (h.closed.within_flatten hs hn hf)]

/-- The code of every definition in the set is the same, and so are its gaps and its faults. -/
theorem AgreesOn.entityEntry (h : ctx.AgreesOn ctx' C) {entity : Entity}
    (he : entity ∈ ctx.schema.entities) (hn : C entity.name) :
    ctx'.entityEntry entity = ctx.entityEntry entity := by
  match entity with
  | .enumeration e =>
    rw [Context.entityEntry, Context.entityEntry, Enumeration.entry, Enumeration.entry,
      h.isPassThrough, h.namespaceName]
  | .alias a =>
    rw [Context.entityEntry, Context.entityEntry, TypeAlias.entry, TypeAlias.entry, h.isBuiltin]
  | .struct s =>
    have hs : s ∈ ctx.schema.structures := by simpa [Schema.entities] using he
    rw [Context.entityEntry, Context.entityEntry, structureEntry, structureEntry,
      h.structureDraft hs hn]

end Context

end ProtocolBindings

import Mathlib.Logic.Relation
import ProtocolBindings.Proofs.Faults

namespace ProtocolBindings

namespace Context

/-- What is known of alternatives, given the aliases looked through for them, passes on to the
alternatives nested in these, and bounds the faults that they have. -/
structure FaultsWithin (ctx : Context) (Known : List String → TypeSpec → Prop)
    (P : SchemaError → Prop) : Prop where
  type : ∀ path scope t, Known path t → FailsOnly P (t.expression scope).result
  trace : ∀ path scope t, Known path t → FailsOnly P (ctx.trace scope [] t)
  unnamed : ∀ scope label, P (.invalidIdentifier scope label)
  taken : ∀ scope label, P (.nameCollision scope label)
  endless : ∀ path scope t items followed, Known path t →
    ctx.trace scope [] t = .ok (.union items, followed) → (∃ n ∈ followed, n ∈ path) →
    P (.endlessUnion scope)
  nested : ∀ path scope t items followed, Known path t →
    ctx.trace scope [] t = .ok (.union items, followed) →
    ∀ item ∈ items, Known (path ++ followed) item

variable {ctx : Context} {Known : List String → TypeSpec → Prop} {P : SchemaError → Prop}
  {owner scope name : String} {path followed after labels : List String} {index : Nat}
  {t u : TypeSpec} {items : List TypeSpec}

theorem FaultsWithin.alternative (h : ctx.FaultsWithin Known P) (hk : Known path t)
    (hnested : ∀ items followed, ctx.Nests path scope index labels t items followed →
      FailsOnly P (ctx.union (path ++ followed) scope (unionName index) items).result) :
    FailsOnly P (ctx.alternative path scope index labels t).result := by
  have hdraft := ctx.draftsAlternative path scope index labels t
  generalize ctx.alternative path scope index labels t = draft at hdraft ⊢
  cases hdraft with
  | skipped _ => exact failsOnly_ok none
  | untraced _ ht => exact failsOnly_error (h.trace path scope t hk _ ht)
  | unnamed _ _ _ => exact failsOnly_leaveAndFail (h.unnamed _ _)
  | taken _ _ _ _ => exact failsOnly_leaveAndFail (h.taken _ _)
  | endless _ ht _ _ hp =>
    apply failsOnly_error
    apply h.endless path scope t _ _ hk ht
    simpa using hp
  | nested hn =>
    apply (hnested _ _ hn).result_bind
    intro _ _
    apply failsOnly_writeAll
    exact failsOnly_ok _
  | plain _ _ _ _ _ =>
    apply (failsOnly_plainAlternative (h.type path scope t hk) _).result_bind
    rintro ⟨type, reading⟩ _
    apply failsOnly_writeAll
    exact failsOnly_ok _

/-- The faults of a union are within those of its alternatives. -/
theorem FaultsWithin.union (h : ctx.FaultsWithin Known P) (path : List String)
    (scope name : String) (items : List TypeSpec) :
    (∀ t ∈ items, Known path t) → FailsOnly P (ctx.union path scope name items).result := by
  apply ctx.union_induction
    (U := fun path scope name items =>
      (∀ t ∈ items, Known path t) → FailsOnly P (ctx.union path scope name items).result)
    (L := fun path scope index labels items =>
      (∀ t ∈ items, Known path t) →
        FailsOnly P (ctx.alternatives path scope index labels items).result)
    (A := fun path scope index labels t =>
      Known path t → FailsOnly P (ctx.alternative path scope index labels t).result)
  · intro path scope name items ih hk
    have htypes : FailsOnly P ((items.mapM (TypeSpec.expression (qualify scope name))).silent :
        Draft Fragment (List CppType)).result := by
      rw [Draft.result_silent, Draft.result_mapM]
      apply failsOnly_mapM
      intro t ht
      exact h.type path _ t (hk t ht)
    rw [Context.union]
    apply htypes.result_bind
    intro types _
    apply failsOnly_write
    apply (ih hk).result_bind
    intro _ _
    exact failsOnly_ok ()
  · intro path scope index labels _
    rw [alternatives]
    exact failsOnly_ok ()
  · intro path scope index labels t rest ih ihrest hk
    obtain ⟨ht, hrest⟩ := List.forall_mem_cons.mp hk
    rw [alternatives]
    apply (ih ht).result_bind
    intro label? _
    exact ihrest label? hrest
  · intro path scope index labels t ih hk
    apply h.alternative hk
    intro items followed hn
    exact ih items followed hn (h.nested path scope t items followed hk hn.traced)

section Endless

/-- Following a type leads through a name. -/
inductive Passes (ctx : Context) : TypeSpec → String → Prop
  | here {t : TypeSpec} {name : String} (ht : t.core = .reference name) : Passes ctx t name
  | through {t : TypeSpec} {name next : String} {a : TypeAlias} (ht : t.core = .reference next)
    (hb : ctx.options.isBuiltin next = false) (ha : ctx.schema.lookup next = some (.alias a))
    (h : Passes ctx a.type name) : Passes ctx t name

def IsAlternative (ctx : Context) (t u : TypeSpec) : Prop :=
  ∃ all, ctx.LeadsTo u (.or all) ∧ t ∈ TypeSpec.live all

/-- The alias stands for a union, and comes up again among its alternatives or further inside. -/
def ContainsItself (ctx : Context) (name : String) : Prop :=
  ∃ t, Relation.TransGen ctx.IsAlternative t (.reference name) ∧ ctx.Passes t name

theorem isAlternative_of_trace (h : ctx.trace owner followed t = .ok (.union items, after)) :
    ∀ item ∈ items, ctx.IsAlternative item t := by
  obtain ⟨all, hl, rfl⟩ := leadsTo_of_trace_union h
  intro item hm
  exact ⟨all, hl, hm⟩

/-- Every alias looked through on the way to a union stands for that union. -/
theorem passes_of_trace (h : ctx.trace owner followed t = .ok (.union items, after)) :
    ∃ more, after = followed ++ more ∧
      ∀ n ∈ more, ctx.Passes t n ∧ ∀ item ∈ items, ctx.IsAlternative item (.reference n) := by
  fun_induction trace ctx owner followed t with
  | case1 followed t name ht =>
    obtain ⟨_, _, hk⟩ := Except.map_eq_ok.mp h
    cases hk
  | case7 followed t all ht hne =>
    cases h
    exact ⟨[], (List.append_nil _).symm, List.forall_mem_nil _⟩
  | case11 followed t name ht hb e he =>
    split at h <;> cases h
  | case13 followed t name ht hb a ha hf ih =>
    obtain ⟨more, rfl, hmore⟩ := ih h
    have hb' : ctx.options.isBuiltin name = false := by simpa using hb
    refine ⟨name :: more, List.append_assoc _ _ _, List.forall_mem_cons.mpr ⟨⟨.here ht, ?_⟩, ?_⟩⟩
    · intro item hm
      obtain ⟨all, hl, hmem⟩ := isAlternative_of_trace h item hm
      exact ⟨all, .through rfl hb' ha hl, hmem⟩
    · intro n hn
      exact ⟨.through ht hb' ha (hmore n hn).1, (hmore n hn).2⟩
  | _ => cases h

/-- All aliases on the path stand for unions that have the alternative inside. -/
def EnclosedBy (ctx : Context) (path : List String) (t : TypeSpec) : Prop :=
  ∀ n ∈ path, Relation.TransGen ctx.IsAlternative t (.reference n)

variable (ctx) in
theorem faultsWithin_endless : ctx.FaultsWithin ctx.EnclosedBy
    fun e => ∀ owner, e = .endlessUnion owner → ∃ n, ctx.ContainsItself n where
  type _ scope t _ := (t.isTypeFault_of_expression scope).imp fun _ hf owner he => by
    cases he
    exact hf.elim
  trace _ scope t _ := (ctx.isTypeFault_of_trace scope [] t).imp fun _ hf owner he => by
    cases he
    exact hf.elim
  unnamed _ _ owner he := by cases he
  taken _ _ owner he := by cases he
  endless path scope t items followed hk ht hagain owner _ := by
    obtain ⟨n, hn, hp⟩ := hagain
    obtain ⟨_, rfl, hmore⟩ := passes_of_trace ht
    exact ⟨n, t, hk n hp, (hmore n hn).1⟩
  nested path scope t items followed hk ht item hm := by
    obtain ⟨_, rfl, hmore⟩ := passes_of_trace ht
    refine List.forall_mem_append.mpr ⟨?_, ?_⟩
    · intro n hn
      exact .head (isAlternative_of_trace ht item hm) (hk n hn)
    · intro n hn
      exact .single ((hmore n hn).2 item hm)

/-- A union has no end only if an alias contains itself. -/
theorem containsItself_of_union (hp : ∀ t ∈ items, ctx.EnclosedBy path t)
    (h : (ctx.union path scope name items).result = .error (.endlessUnion owner)) :
    ∃ n, ctx.ContainsItself n :=
  ctx.faultsWithin_endless.union path scope name items hp _ h owner rfl

end Endless

end Context

end ProtocolBindings

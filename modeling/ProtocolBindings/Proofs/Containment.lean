import ProtocolBindings.Proofs.AliasChains
import ProtocolBindings.Proofs.UnionFaults

namespace ProtocolBindings

open Relation (ReflTransGen TransGen)

namespace TypeSpec

/-- The type reaches a name through alternatives and only items. Does it pass a union of several
alternatives on the way? -/
inductive Reaches : TypeSpec → Bool → String → Prop
  | here (name : String) : Reaches (.reference name) false name
  | only {t u : TypeSpec} {wide : Bool} {name : String} (h : Unwraps t u)
    (hu : Reaches u wide name) : Reaches t wide name
  | item {items : List TypeSpec} {t : TypeSpec} {wide : Bool} {name : String}
    (hl : 2 ≤ (live items).length) (ht : t ∈ live items) (h : Reaches t wide name) :
    Reaches (.or items) true name

variable {t u : TypeSpec} {items : List TypeSpec} {wide : Bool} {name : String}

theorem Reaches.of_core (h : Reaches t.core wide name) : Reaches t wide name := by
  induction t using unwrapping_induction with
  | rest t ht =>
    rw [core_eq_self ht] at h
    exact h
  | step t u hu ih =>
    rw [hu.core_eq] at h
    exact .only hu (ih h)

theorem reaches_of_core_eq_reference (h : t.core = .reference name) : Reaches t false name := by
  apply Reaches.of_core
  rw [h]
  exact .here name

/-- What an alternative reaches, the type around it reaches too, through a union. -/
theorem Reaches.of_alternative (h : Reaches u wide name) (hc : t.core = .or items)
    (hu : u ∈ live items) : Reaches t true name := by
  apply Reaches.of_core
  rw [hc]
  refine .item ?_ hu h
  rcases hl : live items with _ | ⟨first, _ | ⟨second, rest⟩⟩
  · rw [hl] at hu
    cases hu
  · -- a single alternative would have been unwrapped
    exact absurd (hc ▸ .or hl) (not_unwraps_core t first)
  · exact Nat.le_add_left 2 _

mutual

def reached : TypeSpec → List (Bool × String)
  | .reference name => [(false, name)]
  | .or items =>
    if 2 ≤ (live items).length then (reachedByAll items).map fun r => (true, r.2)
    else reachedByAll items
  | .tuple items => if 2 ≤ (live items).length then [] else reachedByAll items
  | .base _ | .array _ | .map _ _ | .literal _ | .stringLiteral _ => []

def reachedByAll : List TypeSpec → List (Bool × String)
  | [] => []
  | item :: items => item.reached ++ reachedByAll items

end

theorem mem_reachedByAll {r : Bool × String} (ht : t ∈ items) (hr : r ∈ t.reached) :
    r ∈ reachedByAll items := by
  induction items with
  | nil => cases ht
  | cons item items ih =>
    rw [reachedByAll, List.mem_append]
    rcases List.mem_cons.mp ht with rfl | ht
    · exact .inl hr
    · exact .inr (ih ht)

theorem Reaches.mem_reached (h : Reaches t wide name) : (wide, name) ∈ t.reached := by
  induction h with
  | here name => exact List.mem_singleton_self _
  | only h _ ih =>
    cases h with
    | or hl =>
      rw [reached, if_neg (by simp [hl])]
      exact mem_reachedByAll (mem_of_live_eq hl).1 ih
    | tuple hl =>
      rw [reached, if_neg (by simp [hl])]
      exact mem_reachedByAll (mem_of_live_eq hl).1 ih
  | item hl ht _ ih =>
    rw [reached, if_pos hl]
    exact List.mem_map.mpr ⟨_, mem_reachedByAll (mem_live.mp ht).1 ih, rfl⟩

end TypeSpec

namespace Context

variable {ctx : Context} {owner scope name next : String} {path path' followed labels : List String}
  {index : Nat} {t u : TypeSpec} {items inner all : List TypeSpec} {a : TypeAlias}

section Circles

def Refers (ctx : Context) (wide : Bool) (name next : String) : Prop :=
  ∃ a b, ctx.AliasFor name a ∧ ctx.AliasFor next b ∧ a.type.Reaches wide next

def Linked (ctx : Context) (name next : String) : Prop :=
  ∃ wide, ctx.Refers wide name next

/-- Some aliases, each reached by the type of the one before, form a circle that passes through a
union of several alternatives. -/
def Entangled (ctx : Context) : Prop :=
  ∃ name next, ctx.Refers true name next ∧ ReflTransGen ctx.Linked next name

/-- The type stands below a union in the type of the alias. -/
def StandsIn (ctx : Context) (t : TypeSpec) (name : String) : Prop :=
  ∃ a, ctx.AliasFor name a ∧ ∀ wide next, t.Reaches wide next → a.type.Reaches true next

/-- An alias is linked to the last one that is looked through. -/
theorem exists_linked_of_leadsTo (ha : ctx.AliasFor name a) (h : ctx.LeadsTo a.type u) :
    ∃ last b, ReflTransGen ctx.Linked name last ∧ ctx.AliasFor last b ∧ b.type.core = u := by
  generalize ht : a.type = t at h
  induction h generalizing name a with
  | core t => exact ⟨name, a, .refl, ha, by rw [ht]⟩
  | @through t u next b hc hb hl _ ih =>
    have hnext : ctx.AliasFor next b := ⟨hb, hl⟩
    obtain ⟨last, c, hlinked, hlast, hcore⟩ := ih hnext rfl
    have hreach : a.type.Reaches false next := TypeSpec.reaches_of_core_eq_reference (ht ▸ hc)
    exact ⟨last, c, .head ⟨false, a, b, ha, hnext, hreach⟩ hlinked, hlast, hcore⟩

theorem standsIn_of_leadsTo (ha : ctx.AliasFor name a) (h : ctx.LeadsTo a.type (.or all))
    (ht : t ∈ TypeSpec.live all) :
    ∃ last, ReflTransGen ctx.Linked name last ∧ ctx.StandsIn t last := by
  obtain ⟨last, b, hlinked, hb, hcore⟩ := exists_linked_of_leadsTo ha h
  exact ⟨last, hlinked, b, hb, fun _ _ hreach => hreach.of_alternative hcore ht⟩

/-- Following alternatives further in, the alias in which they stand is still linked. -/
theorem StandsIn.alternative (h : ctx.StandsIn u name) (ht : ctx.IsAlternative t u) :
    ∃ last, ReflTransGen ctx.Linked name last ∧ ctx.StandsIn t last := by
  obtain ⟨all, hl, hmem⟩ := ht
  obtain ⟨a, ha, hreach⟩ := h
  generalize hu : TypeSpec.or all = v at hl
  cases hl with
  | core =>
    refine ⟨name, .refl, a, ha, ?_⟩
    intro wide next hnext
    exact hreach true next (hnext.of_alternative hu.symm hmem)
  | @through _ _ next b hc hb hl h =>
    have hnext : ctx.AliasFor next b := ⟨hb, hl⟩
    subst hu
    obtain ⟨last, hlinked, hstands⟩ := standsIn_of_leadsTo hnext h hmem
    have hlink : ctx.Linked name next :=
      ⟨true, a, b, ha, hnext, hreach false next (TypeSpec.reaches_of_core_eq_reference hc)⟩
    exact ⟨last, .head hlink hlinked, hstands⟩

theorem standsIn_of_transGen (h : TransGen ctx.IsAlternative t (.reference name)) :
    (∃ a, ctx.AliasFor name a) ∧
      ∃ last, ReflTransGen ctx.Linked name last ∧ ctx.StandsIn t last := by
  induction h using TransGen.head_induction_on with
  | single h =>
    obtain ⟨all, hl, hmem⟩ := h
    generalize hu : TypeSpec.or all = v at hl
    cases hl with
    | core => cases hu
    | @through _ _ _ b hc hb hl h =>
      cases hc
      subst hu
      exact ⟨⟨b, hb, hl⟩, standsIn_of_leadsTo ⟨hb, hl⟩ h hmem⟩
  | head h _ ih =>
    obtain ⟨hname, last, hlinked, hstands⟩ := ih
    obtain ⟨further, hfurther, hstands⟩ := hstands.alternative h
    exact ⟨hname, further, hlinked.trans hfurther, hstands⟩

theorem linked_of_passes (h : ctx.Passes t name) (ha : ctx.AliasFor name a) :
    ∃ first b, t.core = .reference first ∧ ctx.AliasFor first b ∧
      ReflTransGen ctx.Linked first name := by
  induction h with
  | here ht => exact ⟨_, a, ht, ha, .refl⟩
  | @through _ _ next b ht hb hl _ ih =>
    obtain ⟨first, c, hc, hfirst, hlinked⟩ := ih ha
    have hreach : b.type.Reaches false first := TypeSpec.reaches_of_core_eq_reference hc
    exact ⟨next, b, ht, ⟨hb, hl⟩, .head ⟨false, b, c, ⟨hb, hl⟩, hfirst, hreach⟩ hlinked⟩

/-- An alias that comes up among its own alternatives closes a circle. -/
theorem ContainsItself.entangled (h : ctx.ContainsItself name) : ctx.Entangled := by
  obtain ⟨t, hinside, hpasses⟩ := h
  obtain ⟨⟨a, ha⟩, last, hlinked, b, hb, hreach⟩ := standsIn_of_transGen hinside
  obtain ⟨first, c, hc, hfirst, hback⟩ := linked_of_passes hpasses ha
  have hrefers : ctx.Refers true last first :=
    ⟨b, c, hb, hfirst, hreach false first (TypeSpec.reaches_of_core_eq_reference hc)⟩
  exact ⟨last, first, hrefers, hback.trans hlinked⟩

/-- Names are numbered so that no alias reaches a greater one, nor an equal one through a union. -/
def Ranks (ctx : Context) (rank : String → Nat) : Prop :=
  ∀ a ∈ ctx.schema.aliases, ∀ r ∈ a.type.reached,
    rank r.2 ≤ rank a.name ∧ (r.1 = true → rank r.2 < rank a.name)

instance (rank : String → Nat) : Decidable (ctx.Ranks rank) :=
  inferInstanceAs (Decidable (∀ a ∈ ctx.schema.aliases, ∀ r ∈ a.type.reached,
    rank r.2 ≤ rank a.name ∧ (r.1 = true → rank r.2 < rank a.name)))

section Ranks

variable {rank : String → Nat} {wide : Bool}

theorem Ranks.of_refers (h : ctx.Ranks rank) (hr : ctx.Refers wide name next) :
    rank next ≤ rank name ∧ (wide = true → rank next < rank name) := by
  obtain ⟨a, _, ha, _, hreach⟩ := hr
  obtain ⟨hmem, rfl⟩ := mem_aliases_of_lookup ha.lookup
  exact h a hmem (wide, next) hreach.mem_reached

theorem Ranks.of_linked (h : ctx.Ranks rank) (hl : ReflTransGen ctx.Linked name next) :
    rank next ≤ rank name := by
  induction hl with
  | refl => exact Nat.le_refl _
  | tail _ hlink ih =>
    obtain ⟨wide, hr⟩ := hlink
    exact Nat.le_trans (h.of_refers hr).1 ih

theorem Ranks.not_entangled (h : ctx.Ranks rank) : ¬ ctx.Entangled := by
  rintro ⟨name, next, hr, hback⟩
  have hlt : rank next < rank name := (h.of_refers hr).2 rfl
  have hle : rank name ≤ rank next := h.of_linked hback
  exact Nat.not_lt_of_le hle hlt

end Ranks

end Circles

section Ending

/-- One of the alternatives is a union itself, so that the class of the union over `inner` is nested
in that of the union over `items`. -/
def UnionWithin (ctx : Context) (inner items : List TypeSpec) : Prop :=
  ∃ t ∈ items, skippedAlternative t = none ∧ ∃ owner, ctx.classify owner t = .ok (.union inner)

theorem Nests.unionWithin (h : ctx.Nests path scope index labels t inner followed)
    (ht : t ∈ items) : ctx.UnionWithin inner items :=
  ⟨t, ht, h.accessible, scope, classify_of_trace h.traced⟩

theorem enclosedBy_nil (ctx : Context) (t : TypeSpec) : ctx.EnclosedBy [] t := by
  intro n hn
  cases hn

theorem enclosedBy_of_trace (hk : ctx.EnclosedBy path t)
    (ht : ctx.trace owner [] t = .ok (.union items, followed)) :
    ∀ item ∈ items, ctx.EnclosedBy (path ++ followed) item :=
  ctx.faultsWithin_endless.nested path owner t items followed hk ht

/-- Unless aliases are entangled, no alias is looked through again further in. -/
theorem not_followed_again (h : ¬ ctx.Entangled) (hk : ctx.EnclosedBy path t)
    (ht : ctx.trace owner [] t = .ok (.union items, followed)) :
    ¬ followed.any (· ∈ path) = true := by
  intro hany
  obtain ⟨n, hn, hp⟩ := List.any_eq_true.mp hany
  obtain ⟨_, rfl, hmore⟩ := passes_of_trace ht
  exact h (ContainsItself.entangled ⟨t, hk n (of_decide_eq_true hp), (hmore n hn).1⟩)

/-- The nesting ends: with every union inside of another one there are fewer aliases left to look
through, or its alternatives are smaller. -/
theorem acc_unionWithin (h : ¬ ctx.Entangled) (path : List String) (items : List TypeSpec)
    (hk : ∀ t ∈ items, ctx.EnclosedBy path t) : Acc ctx.UnionWithin items := by
  induction hr : rank (ctx.unfollowed path).length (sizeOf ctx.schema.aliases)
    (3 * sizeOf items + 1) using Nat.strong_induction_on generalizing path items with
  | _ measure ih =>
    apply Acc.intro
    rintro inner ⟨t, hmem, _, owner, hclass⟩
    obtain ⟨⟨_, followed⟩, ht, rfl⟩ := Except.map_eq_ok.mp hclass
    have hsize : 3 * sizeOf t + 2 < 3 * sizeOf items + 1 := by
      have := List.sizeOf_lt_of_mem hmem
      omega
    apply ih _ _ (path ++ followed) inner (enclosedBy_of_trace (hk t hmem) ht) rfl
    rw [← hr]
    exact Nat.lt_trans (rank_lt_of_trace ht (not_followed_again h (hk t hmem) ht))
      (rank_lt_rank hsize)

theorem wellFounded_unionWithin (h : ¬ ctx.Entangled) : WellFounded ctx.UnionWithin := by
  apply WellFounded.intro
  intro items
  exact acc_unionWithin h [] items fun t _ => ctx.enclosedBy_nil t

/-- The aliases looked through on the way in make no difference to an alternative. -/
theorem alternative_eq_of_enclosed (h : ¬ ctx.Entangled) (hk : ctx.EnclosedBy path t)
    (hk' : ctx.EnclosedBy path' t)
    (hnested : ∀ items followed, ctx.Nests path scope index labels t items followed →
      ctx.union (path ++ followed) scope (unionName index) items =
        ctx.union (path' ++ followed) scope (unionName index) items) :
    ctx.alternative path scope index labels t = ctx.alternative path' scope index labels t := by
  apply DraftsAlternative.unique _ (ctx.draftsAlternative path' scope index labels t)
  have hdraft := ctx.draftsAlternative path scope index labels t
  generalize ctx.alternative path scope index labels t = draft at hdraft ⊢
  cases hdraft with
  | skipped hs => exact .skipped hs
  | untraced hs he => exact .untraced hs he
  | unnamed hs ht hi => exact .unnamed hs ht hi
  | taken hs ht hi hl => exact .taken hs ht hi hl
  | endless _ ht _ _ hp => exact absurd hp (not_followed_again h hk ht)
  | nested hn =>
    rw [hnested _ _ hn]
    have hends := not_followed_again h hk' hn.traced
    exact .nested ⟨hn.accessible, hn.traced, hn.identifier, hn.fresh, hends⟩
  | plain hs ht hi hl hkind => exact .plain hs ht hi hl hkind

theorem union_eq_of_enclosed (h : ¬ ctx.Entangled) (path : List String) (scope name : String)
    (items : List TypeSpec) : (∀ t ∈ items, ctx.EnclosedBy path t) →
    ∀ path', (∀ t ∈ items, ctx.EnclosedBy path' t) →
      ctx.union path scope name items = ctx.union path' scope name items := by
  apply ctx.union_induction
    (U := fun path scope name items => (∀ t ∈ items, ctx.EnclosedBy path t) →
      ∀ path', (∀ t ∈ items, ctx.EnclosedBy path' t) →
        ctx.union path scope name items = ctx.union path' scope name items)
    (L := fun path scope index labels items => (∀ t ∈ items, ctx.EnclosedBy path t) →
      ∀ path', (∀ t ∈ items, ctx.EnclosedBy path' t) →
        ctx.alternatives path scope index labels items =
          ctx.alternatives path' scope index labels items)
    (A := fun path scope index labels t => ctx.EnclosedBy path t →
      ∀ path', ctx.EnclosedBy path' t →
        ctx.alternative path scope index labels t = ctx.alternative path' scope index labels t)
  · intro path scope name items ih hk path' hk'
    rw [Context.union, Context.union, ih hk path' hk']
  · intro path scope index labels _ path' _
    rw [alternatives, alternatives]
  · intro path scope index labels t rest ih ihrest hk path' hk'
    obtain ⟨ht, hrest⟩ := List.forall_mem_cons.mp hk
    obtain ⟨ht', hrest'⟩ := List.forall_mem_cons.mp hk'
    rw [alternatives, alternatives, ih ht path' ht']
    apply Draft.bind_congr
    intro label? _
    exact ihrest label? hrest path' hrest'
  · intro path scope index labels t ih hk path' hk'
    apply alternative_eq_of_enclosed h hk hk'
    intro items followed hn
    exact ih items followed hn (enclosedBy_of_trace hk hn.traced) _
      (enclosedBy_of_trace hk' hn.traced)

/-- A union whose alternatives lie inside of the aliases looked through for it is not cut short. -/
theorem not_endless_of_union (h : ¬ ctx.Entangled) (hk : ∀ t ∈ items, ctx.EnclosedBy path t)
    (scope name : String) :
    FailsOnly (∀ owner, · ≠ .endlessUnion owner) (ctx.union path scope name items).result := by
  rintro _ he owner rfl
  obtain ⟨n, hn⟩ := containsItself_of_union hk he
  exact h hn.entangled

theorem not_endless_of_isTypeFault (e : SchemaError) (hf : e.IsTypeFault) (owner : String) :
    e ≠ .endlessUnion owner := by
  rintro rfl
  exact hf

theorem not_endless_of_field (h : ¬ ctx.Entangled) (scope : String) (taken : List String)
    (index : Nat) (property : Property) :
    FailsOnly (∀ owner, · ≠ .endlessUnion owner)
      (ctx.field scope taken index property).result := by
  refine ctx.failsOnly_field ?_ ?_ ?_
  · exact (ctx.isTypeFault_of_trace _ _ _).imp not_endless_of_isTypeFault
  · intro kind followed _
    refine failsOnly_claim ?_ _ _
    intro name owner he
    cases he
  · intro kind followed ht
    unfold fieldType
    split
    · have hinside := enclosedBy_of_trace (ctx.enclosedBy_nil property.type) ht
      apply (not_endless_of_union h hinside scope (unionName index)).result_bind
      intro _ _
      exact failsOnly_ok _
    · exact (property.type.isTypeFault_of_expression _).imp not_endless_of_isTypeFault

theorem not_endless_of_structureDraft (h : ¬ ctx.Entangled) (s : Structure) :
    FailsOnly (∀ owner, · ≠ .endlessUnion owner) (ctx.structureDraft s).result := by
  refine ctx.failsOnly_structureDraft ?_ ?_
  · refine (ctx.schema.concernsDefinitions_of_flatten s).imp ?_
    rintro _ hc owner rfl
    cases hc
  · intro properties _
    exact ctx.failsOnly_fields (not_endless_of_field h s.name) _ 0 properties

/-- Where no circle of aliases passes through a union of several alternatives, the unions that are
written inside of each other are nested only finitely deep. What was looked through before a union
makes no difference to it, and neither a union nor a structure is ever found to have no end. -/
theorem unions_end (h : ¬ ctx.Entangled) :
    WellFounded ctx.UnionWithin ∧
      (∀ path scope index labels t inner followed items, t ∈ items →
        ctx.Nests path scope index labels t inner followed → ctx.UnionWithin inner items) ∧
      (∀ owner t items followed scope name,
        ctx.trace owner [] t = .ok (.union items, followed) →
        ctx.union followed scope name items = ctx.union [] scope name items) ∧
      (∀ scope name items owner,
        (ctx.union [] scope name items).result ≠ .error (.endlessUnion owner)) ∧
      ∀ s owner, (ctx.structureDraft s).result ≠ .error (.endlessUnion owner) := by
  refine ⟨wellFounded_unionWithin h, ?_, ?_, ?_, ?_⟩
  · intro path scope index labels t inner followed items ht hn
    exact hn.unionWithin ht
  · intro owner t items followed scope name ht
    have hinside := enclosedBy_of_trace (ctx.enclosedBy_nil t) ht
    have houtside : ∀ u ∈ items, ctx.EnclosedBy [] u := fun u _ => ctx.enclosedBy_nil u
    exact union_eq_of_enclosed h followed scope name items hinside [] houtside
  · intro scope name items owner he
    have hinside : ∀ t ∈ items, ctx.EnclosedBy [] t := fun t _ => ctx.enclosedBy_nil t
    exact not_endless_of_union h hinside scope name _ he owner rfl
  · intro s owner he
    exact not_endless_of_structureDraft h s _ he owner rfl

def node : Structure where
  name := "Node"
  properties := [{ name := "value", type := .or [.reference "Value", .base "boolean"] }]

def valueTypes : List TypeSpec :=
  [.reference "Tree", .reference "Self", .reference "Left", .reference "Table", .reference "Node",
    .reference "Pair"]

/-- An alias of itself and two of each other, aliases that come back to themselves in an array, a
map and a tuple, and a union over all of them. -/
def groves : Context where
  options := {}
  schema := {
    structures := [node]
    aliases := [
      { name := "Self", type := .reference "Self" },
      { name := "Left", type := .tuple [.reference "Right"] },
      { name := "Right", type := .or [.null, .reference "Left"] },
      { name := "Tree", type := .or [.base "string", .array (.reference "Tree")] },
      { name := "Table", type := .map (.base "string") (.or [.reference "Table", .null]) },
      { name := "Pair", type := .tuple [.reference "Pair", .reference "Pair"] },
      { name := "Value", type := .or valueTypes }] }

theorem unions_end_groves :
    ¬ groves.Entangled ∧ WellFounded groves.UnionWithin ∧
      groves.UnionWithin [.base "string", .array (.reference "Tree")] valueTypes ∧
      groves.union ["Value"] "Node" "Value" valueTypes =
        groves.union [] "Node" "Value" valueTypes ∧
      (groves.structureDraft node).result.isOk = true ∧
      ∀ owner, (groves.structureDraft node).result ≠ .error (.endlessUnion owner) := by
  have hranks : groves.Ranks fun name => if name = "Value" then 1 else 0 := by decide
  have htrace : groves.trace "Node" [] (.reference "Value") =
      .ok (.union valueTypes, ["Value"]) := by
    cbv
  have htree : groves.classify "Node" (.reference "Tree") =
      .ok (.union [.base "string", .array (.reference "Tree")]) := by
    cbv
  obtain ⟨hwf, _, hfollowed, _, hstructure⟩ := unions_end hranks.not_entangled
  refine ⟨hranks.not_entangled, hwf, ?_, ?_, by decide +kernel, hstructure node⟩
  · exact ⟨.reference "Tree", List.mem_cons_self, rfl, "Node", htree⟩
  · exact hfollowed _ _ _ _ _ _ htrace

end Ending

end Context

end ProtocolBindings

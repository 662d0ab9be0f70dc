import ProtocolBindings.Bindings
import ProtocolBindings.Proofs.Classification
import ProtocolBindings.Proofs.Inheritance
import ProtocolBindings.Proofs.UnionDrafts

namespace ProtocolBindings

/-- Does the fault concern the names that are defined, or what they inherit from? -/
def SchemaError.concernsDefinitions : SchemaError → Bool
  | .duplicateDefinition _ | .unknownParent _ _ | .inheritanceCycle _ => true
  | _ => false

def SchemaError.IsLocal (e : SchemaError) : Prop :=
  e.concernsDefinitions = false

/-- The fault lies in a type: its base is not known, or it is a union without items. -/
def SchemaError.IsTypeFault : SchemaError → Prop
  | .unknownBaseType _ _ | .emptyUnion _ => True
  | _ => False

theorem SchemaError.IsTypeFault.isLocal {e : SchemaError} (h : e.IsTypeFault) : e.IsLocal := by
  cases e with
  | unknownBaseType => rfl
  | emptyUnion => rfl
  | _ => exact h.elim

open SchemaError (IsLocal IsTypeFault)

variable {α β ω : Type} {P Q : SchemaError → Prop}

/-- All faults at which a computation may stop satisfy a predicate. -/
def FailsOnly (P : SchemaError → Prop) (x : Except SchemaError α) : Prop :=
  ∀ e, x = .error e → P e

theorem failsOnly_ok (a : α) : FailsOnly P (.ok a) := by
  intro e h
  cases h

theorem failsOnly_error {e : SchemaError} (h : P e) : FailsOnly P (.error e : Except _ α) := by
  intro d hd
  cases hd
  exact h

theorem FailsOnly.imp {x : Except SchemaError α} (hx : FailsOnly P x) (h : ∀ e, P e → Q e) :
    FailsOnly Q x :=
  fun e he => h e (hx e he)

theorem FailsOnly.bind {x : Except SchemaError α} {f : α → Except SchemaError β}
    (hx : FailsOnly P x) (hf : ∀ a, x = .ok a → FailsOnly P (f a)) : FailsOnly P (x >>= f) := by
  intro e h
  rcases Except.bind_eq_error.mp h with h | ⟨a, ha, h⟩
  · exact hx e h
  · exact hf a ha e h

theorem FailsOnly.map {x : Except SchemaError α} (hx : FailsOnly P x) (f : α → β) :
    FailsOnly P (x.map f) := by
  intro e h
  cases x with
  | ok a => cases h
  | error d =>
    cases h
    exact hx e rfl

/-- Drafts stop where one of their parts does. -/
theorem FailsOnly.result_bind {x : Draft ω α} {f : α → Draft ω β} (hx : FailsOnly P x.result)
    (hf : ∀ a, x.result = .ok a → FailsOnly P (f a).result) : FailsOnly P (x >>= f).result := by
  rw [Draft.result_bind]
  exact hx.bind hf

theorem FailsOnly.lift_bind {x : Except SchemaError α} {f : α → Draft ω β} (hx : FailsOnly P x)
    (hf : ∀ a, x = .ok a → FailsOnly P (f a).result) :
    FailsOnly P (Draft.lift x >>= f).result := by
  rw [Draft.result_bind]
  exact hx.bind hf

/-- Writing never fails. -/
theorem failsOnly_write {w : ω} {f : Unit → Draft ω β} (h : FailsOnly P (f ()).result) :
    FailsOnly P (Draft.write w >>= f).result :=
  h

theorem failsOnly_writeAll {ws : List ω} {f : Unit → Draft ω β} (h : FailsOnly P (f ()).result) :
    FailsOnly P (Draft.writeAll ws >>= f).result :=
  h

theorem failsOnly_mapM {f : α → Except SchemaError β} {as : List α}
    (h : ∀ a ∈ as, FailsOnly P (f a)) : FailsOnly P (as.mapM f) := by
  intro e he
  obtain ⟨a, ha, hfa⟩ := Except.exists_of_mapM_eq_error he
  exact h a ha e hfa

section Types

variable (owner : String)

theorem isTypeFault_of_baseType (name : String) : FailsOnly IsTypeFault (baseType owner name) := by
  intro e h
  unfold baseType at h
  split at h <;> cases h
  trivial

theorem isTypeFault_of_collapse (wrapper : String) (types : List CppType) :
    FailsOnly IsTypeFault (collapse owner wrapper types) := by
  match types with
  | [] => exact failsOnly_error trivial
  | [_] | _ :: _ :: _ => exact failsOnly_ok _

namespace TypeSpec

mutual

theorem isTypeFault_of_expression :
    (t : TypeSpec) → FailsOnly IsTypeFault (t.expression owner).result
  | .base name => by
    rw [expression]
    exact (isTypeFault_of_baseType owner name).map _
  | .reference _ | .literal _ | .stringLiteral _ => failsOnly_ok _
  | .array element => by
    rw [expression]
    apply (isTypeFault_of_expression element).result_bind
    intro _ _
    exact failsOnly_ok _
  | .map key value => by
    rw [expression]
    apply (isTypeFault_of_expression key).result_bind
    intro _ _
    apply (isTypeFault_of_expression value).result_bind
    intro _ _
    exact failsOnly_ok _
  | .or items => by
    rw [expression]
    apply (isTypeFault_of_liveExpressions items).result_bind
    intro types _
    exact isTypeFault_of_collapse owner _ types
  | .tuple items => by
    rw [expression]
    apply (isTypeFault_of_liveExpressions items).result_bind
    intro types _
    exact isTypeFault_of_collapse owner _ types

theorem isTypeFault_of_liveExpressions :
    (items : List TypeSpec) → FailsOnly IsTypeFault (liveExpressions owner items).result
  | [] => failsOnly_ok _
  | item :: items => by
    rw [liveExpressions]
    split
    · exact isTypeFault_of_liveExpressions items
    · apply (isTypeFault_of_expression item).result_bind
      intro _ _
      apply (isTypeFault_of_liveExpressions items).result_bind
      intro _ _
      exact failsOnly_ok _

end

end TypeSpec

end Types

namespace Schema

theorem concernsDefinitions_of_inherited (schema : Schema) (path : List String) (child : String)
    (p : TypeSpec) :
    FailsOnly (·.concernsDefinitions = true) (schema.inherited path child p) := by
  fun_induction inherited schema path child p with
  | case1 path child p e he =>
    obtain ⟨_, rfl⟩ := exists_of_parent_error he
    exact failsOnly_error rfl
  | case2 => exact failsOnly_error rfl
  | case3 path child p s hs hp ih =>
    apply (failsOnly_mapM fun q _ => ih q).bind
    intro _ _
    exact failsOnly_ok _

theorem concernsDefinitions_of_flatten (schema : Schema) (s : Structure) :
    FailsOnly (·.concernsDefinitions = true) (schema.flatten s) := by
  rw [flatten_eq_inherited]
  exact (failsOnly_mapM fun q _ => schema.concernsDefinitions_of_inherited _ _ q).map _

end Schema

namespace Context

variable (ctx : Context)

theorem isTypeFault_of_trace (owner : String) (followed : List String) (t : TypeSpec) :
    FailsOnly IsTypeFault (ctx.trace owner followed t) := by
  fun_induction trace ctx owner followed t with
  | case1 followed t name ht => exact (isTypeFault_of_baseType owner name).map _
  | case6 | case8 => exact failsOnly_error trivial
  | case13 followed t name ht hb a ha hf ih => exact ih
  | _ => exact failsOnly_ok _

/-- What may stop the class of the union `scope`. A name is at fault in this union or in one inside
of it. -/
inductive UnionFault (scope : String) : SchemaError → Prop
  | type {e : SchemaError} (h : e.IsTypeFault) : UnionFault scope e
  | unnamed (inside label : String) : UnionFault scope (.invalidIdentifier (scope ++ inside) label)
  | taken (inside label : String) : UnionFault scope (.nameCollision (scope ++ inside) label)
  | endless (owner : String) : UnionFault scope (.endlessUnion owner)

theorem UnionFault.isLocal {scope : String} {e : SchemaError} (h : UnionFault scope e) :
    e.IsLocal := by
  cases h with
  | type h => exact h.isLocal
  | unnamed => rfl
  | taken => rfl
  | endless => rfl

theorem exists_qualify_eq_append (scope name : String) :
    ∃ inside, qualify scope name = scope ++ inside := by
  unfold qualify
  split
  · next h => exact ⟨name, by rw [String.isEmpty_iff.mp h, String.empty_append]⟩
  · exact ⟨"::" ++ name, String.append_assoc⟩

theorem UnionFault.of_qualify {scope name : String} {e : SchemaError}
    (h : UnionFault (qualify scope name) e) : UnionFault scope e := by
  obtain ⟨part, hq⟩ := exists_qualify_eq_append scope name
  rw [hq] at h
  cases h with
  | type h => exact .type h
  | unnamed inside label =>
    rw [String.append_assoc]
    exact .unnamed _ label
  | taken inside label =>
    rw [String.append_assoc]
    exact .taken _ label
  | endless owner => exact .endless owner

theorem failsOnly_leaveAndFail {e : SchemaError} (h : P e) :
    FailsOnly P (leaveAndFail e : Draft Fragment α).result :=
  failsOnly_error h

theorem failsOnly_plainAlternative {scope : String} {t : TypeSpec}
    (h : FailsOnly P (t.expression scope).result) (kind : ValueKind) :
    FailsOnly P (plainAlternative scope kind t).result := by
  have ht : FailsOnly P ((t.expression scope).mapWritten Fragment.gap).result := h
  unfold plainAlternative
  split
  · apply failsOnly_write
    apply ht.result_bind
    intro _ _
    exact failsOnly_ok _
  · apply ht.result_bind
    intro _ _
    exact failsOnly_ok _

theorem isTypeFault_of_plainAlternative (scope : String) (kind : ValueKind) (t : TypeSpec) :
    FailsOnly IsTypeFault (plainAlternative scope kind t).result :=
  failsOnly_plainAlternative (t.isTypeFault_of_expression scope) kind

theorem unionFault_of_alternative {path : List String} {scope : String} {index : Nat}
    {labels : List String} {t : TypeSpec}
    (hnested : ∀ items followed, ctx.Nests path scope index labels t items followed →
      FailsOnly (UnionFault (qualify scope (unionName index)))
        (ctx.union (path ++ followed) scope (unionName index) items).result) :
    FailsOnly (UnionFault scope) (ctx.alternative path scope index labels t).result := by
  have hdraft := ctx.draftsAlternative path scope index labels t
  generalize ctx.alternative path scope index labels t = draft at hdraft ⊢
  have hscope : scope ++ "" = scope := String.append_empty
  cases hdraft with
  | skipped _ => exact failsOnly_ok none
  | untraced _ ht => exact failsOnly_error (.type (ctx.isTypeFault_of_trace scope [] t _ ht))
  | @unnamed kind _ _ _ _ =>
    have h : UnionFault scope (.invalidIdentifier (scope ++ "") (accessorLabel index kind t)) :=
      .unnamed "" _
    rw [hscope] at h
    exact failsOnly_leaveAndFail h
  | @taken kind _ _ _ _ _ =>
    have h : UnionFault scope (.nameCollision (scope ++ "") (accessorLabel index kind t)) :=
      .taken "" _
    rw [hscope] at h
    exact failsOnly_leaveAndFail h
  | endless _ _ _ _ _ => exact failsOnly_error (.endless scope)
  | nested h =>
    apply ((hnested _ _ h).imp fun _ hf => hf.of_qualify).result_bind
    intro _ _
    apply failsOnly_writeAll
    exact failsOnly_ok _
  | @plain kind _ _ _ _ _ _ =>
    have hplain : FailsOnly (UnionFault scope) (plainAlternative scope kind t).result :=
      (isTypeFault_of_plainAlternative scope kind t).imp fun _ hf => .type hf
    apply hplain.result_bind
    rintro ⟨type, reading⟩ _
    apply failsOnly_writeAll
    exact failsOnly_ok _

theorem unionFault_of_union (path : List String) (scope name : String) (items : List TypeSpec) :
    FailsOnly (UnionFault (qualify scope name)) (ctx.union path scope name items).result := by
  apply ctx.union_induction
    (U := fun path scope name items =>
      FailsOnly (UnionFault (qualify scope name)) (ctx.union path scope name items).result)
    (L := fun path scope index labels items =>
      FailsOnly (UnionFault scope) (ctx.alternatives path scope index labels items).result)
    (A := fun path scope index labels t =>
      FailsOnly (UnionFault scope) (ctx.alternative path scope index labels t).result)
  · intro path scope name items ih
    have htypes : FailsOnly (UnionFault (qualify scope name))
        ((items.mapM (TypeSpec.expression (qualify scope name))).silent :
          Draft Fragment (List CppType)).result := by
      rw [Draft.result_silent, Draft.result_mapM]
      apply failsOnly_mapM
      intro t _
      exact (t.isTypeFault_of_expression _).imp fun _ hf => .type hf
    rw [union]
    apply htypes.result_bind
    intro types _
    apply failsOnly_write
    apply ih.result_bind
    intro _ _
    exact failsOnly_ok ()
  · intro path scope index labels
    rw [alternatives]
    exact failsOnly_ok ()
  · intro path scope index labels t rest ih ihrest
    rw [alternatives]
    apply ih.result_bind
    intro label? _
    exact ihrest label?
  · intro path scope index labels t ih
    exact ctx.unionFault_of_alternative ih

theorem failsOnly_claim {owner : String} (h : ∀ name, P (.nameCollision owner name))
    (taken names : List String) : FailsOnly P (claim owner taken names) := by
  induction names generalizing taken with
  | nil => exact failsOnly_ok taken
  | cons name names ih =>
    rw [claim]
    split
    · exact failsOnly_error (h name)
    · exact ih _

theorem isLocal_of_claim (owner : String) (taken names : List String) :
    FailsOnly IsLocal (claim owner taken names) :=
  failsOnly_claim (fun _ => rfl) taken names

/-- What may stop a field of class `scope`, where some names are taken. -/
inductive FieldFault (ctx : Context) (scope : String) (taken : List String) (index : Nat)
    (property : Property) : SchemaError → Prop
  | type {e : SchemaError} (h : e.IsTypeFault) : FieldFault ctx scope taken index property e
  | claim {e : SchemaError} {kind : ValueKind}
    (hk : ctx.classify (scope ++ "." ++ property.name) property.type = .ok kind)
    (h : claim scope taken (Field.memberNames { property, kind, index }) = .error e) :
    FieldFault ctx scope taken index property e
  | union {e : SchemaError} (h : UnionFault (qualify scope (unionName index)) e) :
    FieldFault ctx scope taken index property e

theorem FieldFault.isLocal {ctx : Context} {scope : String} {taken : List String} {index : Nat}
    {property : Property} {e : SchemaError} (h : ctx.FieldFault scope taken index property e) :
    e.IsLocal := by
  cases h with
  | type h => exact h.isLocal
  | claim _ h => exact isLocal_of_claim _ _ _ e h
  | union h => exact h.isLocal

theorem fieldFault_of_fieldType (scope : String) (taken : List String) (property : Property)
    (index : Nat) (followed : List String) (kind : ValueKind) :
    FailsOnly (ctx.FieldFault scope taken index property)
      (ctx.fieldType scope property index followed kind).result := by
  unfold fieldType
  split
  · next alternatives =>
    have hunion : FailsOnly (ctx.FieldFault scope taken index property)
        (ctx.union followed scope (unionName index) alternatives).result :=
      (ctx.unionFault_of_union _ _ _ _).imp fun _ hf => .union hf
    apply hunion.result_bind
    intro _ _
    exact failsOnly_ok _
  · exact (property.type.isTypeFault_of_expression _).imp fun _ hf => .type hf

/-- A field stops at its kind, at a name that it takes, or at its type. -/
theorem failsOnly_field {scope : String} {taken : List String} {index : Nat} {property : Property}
    (htrace : FailsOnly P (ctx.trace (scope ++ "." ++ property.name) [] property.type))
    (hclaim : ∀ kind followed,
      ctx.trace (scope ++ "." ++ property.name) [] property.type = .ok (kind, followed) →
      FailsOnly P (claim scope taken (Field.memberNames { property, kind, index })))
    (htype : ∀ kind followed,
      ctx.trace (scope ++ "." ++ property.name) [] property.type = .ok (kind, followed) →
      FailsOnly P (ctx.fieldType scope property index followed kind).result) :
    FailsOnly P (ctx.field scope taken index property).result := by
  unfold field
  apply failsOnly_writeAll
  apply htrace.lift_bind
  rintro ⟨kind, followed⟩ ht
  apply (hclaim kind followed ht).lift_bind
  intro _ _
  apply (htype kind followed ht).result_bind
  intro _ _
  apply failsOnly_writeAll
  exact failsOnly_ok _

theorem fieldFault_of_field (scope : String) (taken : List String) (index : Nat)
    (property : Property) :
    FailsOnly (ctx.FieldFault scope taken index property)
      (ctx.field scope taken index property).result := by
  refine ctx.failsOnly_field ?_ ?_ ?_
  · exact (ctx.isTypeFault_of_trace _ _ _).imp fun _ hf => .type hf
  · intro kind followed ht e he
    exact .claim (classify_of_trace ht) he
  · intro kind followed _
    exact ctx.fieldFault_of_fieldType scope taken property index followed kind

theorem failsOnly_fields {scope : String}
    (h : ∀ taken index property, FailsOnly P (ctx.field scope taken index property).result)
    (taken : List String) (index : Nat) (properties : List Property) :
    FailsOnly P (ctx.fields scope taken index properties).result := by
  induction properties generalizing taken index with
  | nil => exact failsOnly_ok _
  | cons property rest ih =>
    rw [fields]
    split
    · apply failsOnly_write
      exact ih _ _
    · apply (h _ _ _).result_bind
      intro _ _
      apply (ih _ _).result_bind
      intro _ _
      exact failsOnly_ok _

theorem isLocal_of_fields (scope : String) (taken : List String) (index : Nat)
    (properties : List Property) :
    FailsOnly IsLocal (ctx.fields scope taken index properties).result := by
  refine ctx.failsOnly_fields ?_ taken index properties
  intro taken index property
  exact (ctx.fieldFault_of_field _ _ _ _).imp fun _ hf => hf.isLocal

theorem failsOnly_structureDraft {s : Structure} (hflatten : FailsOnly P (ctx.schema.flatten s))
    (hfields : ∀ properties, ctx.schema.flatten s = .ok properties →
      FailsOnly P (ctx.fields s.name [s.name, "init"] 0 properties).result) :
    FailsOnly P (ctx.structureDraft s).result := by
  unfold structureDraft
  apply hflatten.lift_bind
  intro properties hp
  apply failsOnly_writeAll
  apply failsOnly_write
  apply (hfields properties hp).result_bind
  intro _ _
  apply failsOnly_write
  apply failsOnly_writeAll
  exact failsOnly_ok ()

/-- A structure whose fields can be collected has no fault but its own. -/
theorem isLocal_of_structureDraft {s : Structure} {properties : List Property}
    (h : ctx.schema.flatten s = .ok properties) :
    FailsOnly IsLocal (ctx.structureDraft s).result :=
  ctx.failsOnly_structureDraft (h ▸ failsOnly_ok properties)
    fun properties _ => ctx.isLocal_of_fields _ _ _ properties

end Context

namespace Enumeration

theorem isLocal_of_representation (e : Enumeration) : FailsOnly IsLocal e.representation := by
  have hu : FailsOnly IsLocal e.integerUnderlying := by
    unfold integerUnderlying
    dsimp only
    split
    · split
      · exact failsOnly_error rfl
      · split
        · exact failsOnly_error rfl
        · exact failsOnly_ok _
    · split
      · exact failsOnly_ok _
      · split
        · exact failsOnly_ok _
        · exact failsOnly_error rfl
  unfold representation
  split
  · split
    · exact failsOnly_ok _
    · exact failsOnly_error rfl
  · exact hu.map _

theorem isLocal_of_constantsFrom (owner : String) (taken : List String) (values : List EnumValue) :
    FailsOnly IsLocal (constantsFrom owner taken values) := by
  induction values generalizing taken with
  | nil => exact failsOnly_ok []
  | cons value values ih =>
    rw [constantsFrom]
    split
    · exact failsOnly_error rfl
    · split
      · exact failsOnly_error rfl
      · apply (ih _).bind
        intro _ _
        exact failsOnly_ok _

theorem isLocal_of_entry (options : Options) (e : Enumeration) :
    FailsOnly IsLocal (e.entry options) := by
  unfold entry
  split
  · exact failsOnly_ok _
  · apply e.isLocal_of_representation.bind
    intro representation _
    apply (isLocal_of_constantsFrom _ _ _).bind
    intro _ _
    cases representation with
    | integer => exact failsOnly_ok _
    | string => exact failsOnly_ok _

end Enumeration

theorem TypeAlias.isLocal_of_entry (options : Options) (a : TypeAlias) :
    FailsOnly IsLocal (a.entry options).result := by
  unfold TypeAlias.entry
  split
  · exact failsOnly_ok _
  · apply ((a.type.isTypeFault_of_expression a.name).imp fun _ hf => hf.isLocal).result_bind
    intro _ _
    exact failsOnly_ok _

/-- The code of a definition fails for a fault within it, unless inherited fields cannot be
collected. -/
theorem Context.isLocal_of_entityEntry {ctx : Context} {entity : Entity}
    (h : ∀ s, entity = .struct s → ∃ properties, ctx.schema.flatten s = .ok properties) :
    FailsOnly IsLocal (ctx.entityEntry entity).result := by
  match entity with
  | .enumeration e => exact e.isLocal_of_entry ctx.options
  | .alias a => exact a.isLocal_of_entry ctx.options
  | .struct s =>
    obtain ⟨properties, hp⟩ := h s rfl
    exact (ctx.isLocal_of_structureDraft hp).map _

end ProtocolBindings

import ProtocolBindings.Proofs.ClassScopes
import ProtocolBindings.Proofs.Faults

namespace ProtocolBindings

open Fragment (Reads reads_nil reads_member reads_of_isAside)

/-- Has the property accessors? One with a single string for its value has none. -/
def Property.isRetained (p : Property) : Bool :=
  match p.type with
  | .stringLiteral _ => false
  | _ => true

namespace Context

/-- The names that a property takes in class `scope`, by the kind of its values. -/
def propertyNames (ctx : Context) (scope : String) (index : Nat) (p : Property) : List String :=
  let accessor := Text.escapeReserved p.name
  accessor :: (if p.optional then ["has_" ++ accessor] else []) ++
    match ctx.classify (scope ++ "." ++ p.name) p.type with
    | .ok .primitive | .ok .enumeration => ["set_" ++ accessor]
    | .ok .aggregate => if p.optional then ["add_" ++ accessor] else []
    | .ok (.union _) =>
      (if p.optional then ["add_" ++ accessor] else []) ++ [unionName index]
    | .ok .placeholder | .error _ => []

def namesFrom (ctx : Context) (scope : String) (index : Nat) (properties : List Property) :
    List String :=
  ((properties.filter Property.isRetained).zipIdx index).flatMap fun (p, i) =>
    ctx.propertyNames scope i p

/-- The names in the class of a structure, as far as its fields can be collected. -/
def classNames (ctx : Context) (s : Structure) : List String :=
  s.name :: "init" ::
    match ctx.schema.flatten s with
    | .ok properties => ctx.namesFrom s.name 0 properties
    | .error _ => []

variable {ctx : Context} {scope : String} {taken : List String} {index : Nat}
  {property : Property} {properties : List Property}

theorem namesFrom_skipped {value : String} (ht : property.type = .stringLiteral value) :
    ctx.namesFrom scope index (property :: properties) = ctx.namesFrom scope index properties := by
  simp [namesFrom, Property.isRetained, ht]

theorem isRetained_of_ne (ht : ∀ value, property.type ≠ .stringLiteral value) :
    property.isRetained = true := by
  unfold Property.isRetained
  split
  · next value h => exact absurd h (ht value)
  · rfl

theorem namesFrom_cons (ht : ∀ value, property.type ≠ .stringLiteral value) :
    ctx.namesFrom scope index (property :: properties) =
      ctx.propertyNames scope index property ++ ctx.namesFrom scope (index + 1) properties := by
  simp [namesFrom, isRetained_of_ne ht]

/-- A field claims the names of its property. -/
theorem memberNames_eq_propertyNames {kind : ValueKind}
    (hk : ctx.classify (scope ++ "." ++ property.name) property.type = .ok kind) :
    Field.memberNames { property, kind, index } = ctx.propertyNames scope index property := by
  unfold propertyNames
  rw [hk]
  cases kind <;> simp [Field.memberNames, Field.accessor, Field.isAddable, ValueKind.isSettable,
    ValueKind.isAggregate]

end Context

def Fresh (taken names : List String) : Prop :=
  names.Nodup ∧ taken.Disjoint names

section Fresh

variable {owner : String} {taken names others after : List String}

theorem fresh_nil (taken : List String) : Fresh taken [] :=
  ⟨List.nodup_nil, List.disjoint_nil_right taken⟩

theorem fresh_append :
    Fresh taken (names ++ others) ↔ Fresh taken names ∧ Fresh (taken ++ names) others := by
  simp only [Fresh, List.nodup_append', List.disjoint_append_left, List.disjoint_append_right]
  tauto

theorem fresh_cons {name : String} :
    Fresh taken (name :: names) ↔ name ∉ taken ∧ Fresh (taken ++ [name]) names := by
  have hsingle : Fresh taken [name] ↔ name ∉ taken := by simp [Fresh]
  rw [← List.singleton_append, fresh_append, hsingle]

theorem Fresh.nodup_append_iff (h : Fresh taken names) :
    (taken ++ names).Nodup ↔ taken.Nodup := by
  rw [List.nodup_append']
  exact ⟨fun hn => hn.1, fun hn => ⟨hn, h.1, h.2⟩⟩

theorem claim_eq_ok :
    claim owner taken names = .ok after ↔ Fresh taken names ∧ after = taken ++ names := by
  induction names generalizing taken with
  | nil => simp [claim, fresh_nil, eq_comm]
  | cons name names ih =>
    rw [claim, fresh_cons]
    split
    · next hm => simp [hm]
    · next hm => simp [hm, ih]

/-- A claim fails at the first name that is taken or comes again. -/
theorem exists_of_claim_eq_error {e : SchemaError} (h : claim owner taken names = .error e) :
    ∃ before name rest, names = before ++ name :: rest ∧ e = .nameCollision owner name ∧
      name ∈ taken ++ before ∧ Fresh taken before := by
  induction names generalizing taken with
  | nil => cases h
  | cons first names ih =>
    rw [claim] at h
    split at h
    · next hm =>
      cases h
      exact ⟨[], first, names, rfl, rfl, List.mem_append_left _ hm, fresh_nil taken⟩
    · next hm =>
      obtain ⟨before, name, rest, rfl, rfl, hname, hfresh⟩ := ih h
      rw [List.append_assoc] at hname
      refine ⟨first :: before, name, rest, rfl, rfl, hname, ?_⟩
      exact fresh_cons.mpr ⟨hm, hfresh⟩

end Fresh

namespace Context

variable {ctx : Context} {scope : String} {taken : List String} {index : Nat}
  {property : Property} {properties : List Property} {ws : List Fragment}
  {setUp : List (CppType × String)}

theorem FieldBlocks.fresh (h : ctx.FieldBlocks scope taken index properties ws setUp) :
    Fresh taken (ctx.namesFrom scope index properties) := by
  induction h with
  | nil => exact fresh_nil _
  | skipped ht _ ih => rwa [namesFrom_skipped ht]
  | cons ht hk hc _ _ ih =>
    rw [memberNames_eq_propertyNames hk] at hc
    obtain ⟨hfirst, rfl⟩ := claim_eq_ok.mp hc
    rw [namesFrom_cons ht]
    exact fresh_append.mpr ⟨hfirst, ih⟩

/-- If the fault is a name that comes again in class `scope`, it is the first such among these
names. -/
def FirstCollision (scope : String) (taken names : List String) (e : SchemaError) : Prop :=
  ∀ name, e = .nameCollision scope name → ∃ before after, names = before ++ name :: after ∧
    name ∈ taken ++ before ∧ Fresh taken before

theorem FirstCollision.append {names others : List String} {e : SchemaError}
    (h : FirstCollision scope taken names e) : FirstCollision scope taken (names ++ others) e := by
  intro name he
  obtain ⟨before, after, rfl, hname, hfresh⟩ := h name he
  exact ⟨before, after ++ others, List.append_assoc _ _ _, hname, hfresh⟩

theorem FirstCollision.of_fresh {names others : List String} {e : SchemaError}
    (h : FirstCollision scope (taken ++ names) others e) (hf : Fresh taken names) :
    FirstCollision scope taken (names ++ others) e := by
  intro name he
  obtain ⟨before, after, rfl, hname, hfresh⟩ := h name he
  rw [List.append_assoc] at hname
  refine ⟨names ++ before, after, (List.append_assoc _ _ _).symm, hname, ?_⟩
  exact fresh_append.mpr ⟨hf, hfresh⟩

theorem UnionFault.exists_of_collision {owner name : String}
    (h : UnionFault scope (.nameCollision owner name)) : ∃ inside, owner = scope ++ inside := by
  cases h with
  | type h => exact h.elim
  | taken inside _ => exact ⟨inside, rfl⟩

theorem length_lt_length_qualify (scope : String) (index : Nat) :
    scope.length < (qualify scope (unionName index)).length := by
  unfold qualify
  split
  · next h =>
    rw [String.isEmpty_iff.mp h, unionName, String.length_append]
    exact Nat.add_pos_left (by decide) _
  · rw [String.length_append, String.length_append]
    have hmark : "::".length = 2 := rfl
    omega

theorem firstCollision_of_fieldFault {e : SchemaError}
    (h : ctx.FieldFault scope taken index property e) :
    FirstCollision scope taken (ctx.propertyNames scope index property) e := by
  rintro name rfl
  cases h with
  | type h => exact h.elim
  | claim hk h =>
    rw [memberNames_eq_propertyNames hk] at h
    obtain ⟨before, _, rest, hnames, he, hname, hfresh⟩ := exists_of_claim_eq_error h
    cases he
    exact ⟨before, rest, hnames, hname, hfresh⟩
  | union h =>
    -- the fault is in a class with a longer name, inside this one
    obtain ⟨inside, he⟩ := h.exists_of_collision
    have hlt := length_lt_length_qualify scope index
    have hlength := congrArg String.length he
    rw [String.length_append] at hlength
    omega

theorem firstCollision_of_fields (scope : String) (taken : List String) (index : Nat)
    (properties : List Property) :
    FailsOnly (FirstCollision scope taken (ctx.namesFrom scope index properties))
      (ctx.fields scope taken index properties).result := by
  induction properties generalizing taken index with
  | nil => exact failsOnly_ok _
  | cons property rest ih =>
    rw [fields]
    split
    · next ht =>
      apply failsOnly_write
      rw [namesFrom_skipped ht]
      exact ih taken index
    · next ht =>
      rw [namesFrom_cons ht]
      apply ((ctx.fieldFault_of_field scope taken index property).imp
        fun _ he => (firstCollision_of_fieldFault he).append).result_bind
      rintro ⟨after, _⟩ hfield
      obtain ⟨kind, _, _, hk, hc, _⟩ := field_of_ends ⟨rfl, hfield⟩
      rw [memberNames_eq_propertyNames hk] at hc
      obtain ⟨hfresh, rfl⟩ := claim_eq_ok.mp hc
      apply ((ih _ _).imp fun _ he => he.of_fresh hfresh).result_bind
      intro _ _
      exact failsOnly_ok _

/-- A name that is rejected in the class of a structure has come before; it is the first such. -/
theorem failsOnly_repeated (s : Structure) :
    FailsOnly (fun e => ∀ name, e = .nameCollision s.name name →
        ∃ before after, ctx.classNames s = before ++ name :: after ∧ name ∈ before ∧
          (s.name ≠ "init" → before.Nodup))
      (ctx.structureDraft s).result := by
  refine ctx.failsOnly_structureDraft ?_ ?_
  · rintro _ he name rfl
    cases ctx.schema.concernsDefinitions_of_flatten s _ he
  · intro properties hp e he name hn
    obtain ⟨before, after, hnames, hname, hfresh⟩ :=
      ctx.firstCollision_of_fields _ _ _ properties e he name hn
    refine ⟨[s.name, "init"] ++ before, after, ?_, hname, ?_⟩
    · simp [classNames, hp, hnames]
    · intro hs
      rw [hfresh.nodup_append_iff]
      simpa using hs

end Context

namespace Field

def nested (f : Field) : List String :=
  match f.kind with
  | .union _ => [unionName f.index]
  | _ => []

def functions (type : CppType) (f : Field) : List Signature :=
  [.getter (if f.property.optional then type.optional else type) f.accessor] ++
    (if f.property.optional then [.presence f.accessor] else []) ++
    (match f.kind with
      | .primitive | .enumeration => [.setter type f.accessor]
      | .union _ | .aggregate => if f.property.optional then [.adder type f.accessor] else []
      | .placeholder => [])

theorem memberNames_eq (type : CppType) (f : Field) :
    f.memberNames = (f.functions type).map Signature.name ++ f.nested := by
  obtain ⟨property, kind, index⟩ := f
  cases h : property.optional <;> cases kind <;>
    simp [memberNames, functions, nested, isAddable, ValueKind.isSettable, ValueKind.isAggregate, h,
      Signature.getter, Signature.presence, Signature.setter, Signature.adder]

theorem reads_members (scope : String) (type : CppType) (f : Field) :
    Reads (f.members scope type) (f.functions type) [] [] := by
  obtain ⟨property, kind, index⟩ := f
  cases kind with
  | primitive =>
    exact ((reads_member _ _ _).append ((reads_member _ _ _).ite _)).append (reads_member _ _ _)
  | enumeration =>
    exact ((reads_member _ _ _).append ((reads_member _ _ _).ite _)).append (reads_member _ _ _)
  | union items =>
    exact ((reads_member _ _ _).append ((reads_member _ _ _).ite _)).append
      ((reads_member _ _ _).ite _)
  | aggregate =>
    exact ((reads_member _ _ _).append ((reads_member _ _ _).ite _)).append
      ((reads_member _ _ _).ite _)
  | placeholder =>
    exact ((reads_member _ _ _).append ((reads_member _ _ _).ite _)).append reads_nil

end Field

namespace Context

def FieldUnion (ctx : Context) (scope : String) (properties : List Property) (position : Nat)
    (items : List TypeSpec) : Prop :=
  ∃ p, (properties.filter Property.isRetained)[position]? = some p ∧
    ctx.classify (scope ++ "." ++ p.name) p.type = .ok (.union items)

/-- What the fields of class `scope` add to it, from a position on: functions and nested unions
under the names of the properties, and the classes of these unions. -/
structure FieldScopes (ctx : Context) (scope : String) (index : Nat) (properties : List Property)
    (functions : List Signature) (nested : List String) (classes : List ClassScope) : Prop where
  names : (functions.map Signature.name ++ nested).Perm (ctx.namesFrom scope index properties)
  tidy : ∀ c ∈ classes, c.IsTidy
  alike_iff : (∃ c ∈ classes, c.name ∈ c.nested) ↔
    ∃ j items, ctx.FieldUnion scope properties j items ∧
      ctx.NestsAlike scope (unionName (index + j)) items

variable {ctx : Context} {scope : String} {taken : List String} {index : Nat}
  {property : Property} {properties : List Property} {ws : List Fragment} {kind : ValueKind}
  {setUp : List (CppType × String)} {functions : List Signature} {nested : List String}
  {classes : List ClassScope}

theorem fieldUnion_skipped {value : String} (ht : property.type = .stringLiteral value)
    {j : Nat} {items : List TypeSpec} : ctx.FieldUnion scope (property :: properties) j items ↔
      ctx.FieldUnion scope properties j items := by
  simp [FieldUnion, Property.isRetained, ht]

/-- A union among the fields is in the first of them or comes later. -/
theorem exists_fieldUnion_cons (ht : ∀ value, property.type ≠ .stringLiteral value)
    (hk : ctx.classify (scope ++ "." ++ property.name) property.type = .ok kind)
    {P : Nat → List TypeSpec → Prop} :
    (∃ j items, ctx.FieldUnion scope (property :: properties) j items ∧ P j items) ↔
      (∃ items, kind = .union items ∧ P 0 items) ∨
        ∃ j items, ctx.FieldUnion scope properties j items ∧ P (j + 1) items := by
  have hzero {items : List TypeSpec} :
      ctx.FieldUnion scope (property :: properties) 0 items ↔ kind = .union items := by
    simp [FieldUnion, isRetained_of_ne ht, hk]
  have hsucc {j : Nat} {items : List TypeSpec} :
      ctx.FieldUnion scope (property :: properties) (j + 1) items ↔
        ctx.FieldUnion scope properties j items := by
    simp [FieldUnion, isRetained_of_ne ht]
  rw [← Nat.or_exists_add_one]
  simp only [hzero, hsucc]

/-- A field with one string for its value adds nothing. -/
theorem FieldScopes.skip (h : ctx.FieldScopes scope index properties functions nested classes)
    {value : String} (ht : property.type = .stringLiteral value) :
    ctx.FieldScopes scope index (property :: properties) functions nested classes where
  names := by
    rw [namesFrom_skipped ht]
    exact h.names
  tidy := h.tidy
  alike_iff := by
    simp only [fieldUnion_skipped ht]
    exact h.alike_iff

theorem FieldScopes.cons
    (h : ctx.FieldScopes scope (index + 1) properties functions nested classes)
    (ht : ∀ value, property.type ≠ .stringLiteral value)
    (hk : ctx.classify (scope ++ "." ++ property.name) property.type = .ok kind)
    {inner : List ClassScope} (htidy : ∀ c ∈ inner, c.IsTidy)
    (halike : (∃ c ∈ inner, c.name ∈ c.nested) ↔
      ∃ items, kind = .union items ∧ ctx.NestsAlike scope (unionName index) items)
    (type : CppType) :
    ctx.FieldScopes scope index (property :: properties)
      (Field.functions type { property, kind, index } ++ functions)
      (Field.nested { property, kind, index } ++ nested) (inner ++ classes) where
  names := by
    rw [namesFrom_cons ht, ← memberNames_eq_propertyNames hk, Field.memberNames_eq type,
      List.map_append, List.append_assoc, List.append_assoc]
    apply List.Perm.append_left
    exact (List.perm_append_comm_assoc _ _ _).trans (h.names.append_left _)
  tidy := List.forall_mem_append.mpr ⟨htidy, h.tidy⟩
  alike_iff := by
    rw [exists_fieldUnion_cons ht hk]
    simp only [List.mem_append, or_and_right, exists_or]
    rw [h.alike_iff, halike]
    simp only [Nat.add_zero, Nat.add_assoc, Nat.add_comm 1]

theorem FieldSlot.reads {type : CppType} (h : ctx.FieldSlot scope index property kind type ws) :
    ∃ classes, Reads ws [] (Field.nested { property, kind, index }) classes ∧
      (∀ c ∈ classes, c.IsTidy) ∧
      ((∃ c ∈ classes, c.name ∈ c.nested) ↔
        ∃ items, kind = .union items ∧ ctx.NestsAlike scope (unionName index) items) := by
  cases h with
  | @union items _ h =>
    obtain ⟨classes, hr, hc⟩ := h.reads
    refine ⟨classes, hr, hc.tidy (unionName_not_mem_accessorNames index), ?_⟩
    rw [hc.alike_iff]
    simp
  | plain hu h =>
    refine ⟨[], ?_, by simp, by simp [hu]⟩
    have hn : Field.nested { property, kind, index } = [] := by
      unfold Field.nested
      split
      · next items hk => exact absurd hk (hu items)
      · rfl
    rw [hn]
    exact reads_of_isAside (isAside_map_gap _)

theorem FieldBlocks.reads (h : ctx.FieldBlocks scope taken index properties ws setUp) :
    ∃ functions nested classes, Reads ws functions nested classes ∧
      ctx.FieldScopes scope index properties functions nested classes := by
  induction h with
  | nil =>
    refine ⟨[], [], [], reads_nil, ?_⟩
    constructor <;> simp [namesFrom, FieldUnion]
  | skipped ht _ ih =>
    obtain ⟨functions, nested, classes, hr, hs⟩ := ih
    exact ⟨functions, nested, classes, hr, hs.skip ht⟩
  | @cons _ _ index property _ kind type _ _ _ ht hk _ slot _ ih =>
    obtain ⟨inner, hinner, htidy, halike⟩ := slot.reads
    obtain ⟨functions, nested, classes, hr, hs⟩ := ih
    have hcomment := reads_of_isAside (Field.isAside_comment property index)
    have hmembers := Field.reads_members scope type { property, kind, index }
    have hfield := ((hcomment.append hinner).append hmembers).append hr
    simp only [List.append_nil, List.nil_append] at hfield
    exact ⟨_, _, _, hfield, hs.cons ht hk htidy halike type⟩

/-- The classes of a structure: those of its unions, and then its own. -/
theorem classes_structureDraft {s : Structure} (h : (ctx.structureDraft s).Ends ws ()) :
    ∃ properties functions nested inner, ctx.schema.flatten s = .ok properties ∧
      Fragment.classes ws = inner ++ [⟨s.name, functions ++ [.initializer], nested⟩] ∧
      Fresh [s.name, "init"] (ctx.namesFrom s.name 0 properties) ∧
      ctx.FieldScopes s.name 0 properties functions nested inner := by
  obtain ⟨properties, _, setUp, hp, hfields, rfl⟩ := fieldBlocks_of_structureDraft h
  obtain ⟨functions, nested, inner, hr, hs⟩ := hfields.reads
  have hinitializer : Reads (.blank :: Fragment.member s.name .initializer (.setUp setUp))
      [.initializer] [] [] := reads_member s.name .initializer (.setUp setUp)
  have hclass := (hr.append hinitializer).inClass s.name .struct
  have hdocumentation := reads_of_isAside
    (isAside_map_comment (s.documentation.elim [] Text.blockComment))
  refine ⟨properties, functions, nested, inner, hp, ?_, hfields.fresh, hs⟩
  rw [(hdocumentation.append hclass).classes_eq]
  simp

theorem FieldScopes.memberNames_perm
    (h : ctx.FieldScopes scope index properties functions nested classes) :
    (ClassScope.mk scope (functions ++ [.initializer]) nested).memberNames.Perm
      ("init" :: ctx.namesFrom scope index properties) := by
  simp only [ClassScope.memberNames, List.map_append, List.append_assoc]
  exact List.perm_middle.trans (h.names.cons _)

theorem FieldScopes.names_perm {s : Structure} (hp : ctx.schema.flatten s = .ok properties)
    (h : ctx.FieldScopes s.name 0 properties functions nested classes) :
    (ClassScope.mk s.name (functions ++ [.initializer]) nested).names.Perm (ctx.classNames s) := by
  simp only [ClassScope.names, classNames, hp]
  exact h.memberNames_perm.cons s.name

theorem nodup_classNames_iff {s : Structure} (hp : ctx.schema.flatten s = .ok properties)
    (h : Fresh [s.name, "init"] (ctx.namesFrom s.name 0 properties)) :
    (ctx.classNames s).Nodup ↔ s.name ≠ "init" := by
  have hnames : ctx.classNames s = [s.name, "init"] ++ ctx.namesFrom s.name 0 properties := by
    simp [classNames, hp]
  rw [hnames, h.nodup_append_iff]
  simp

variable (ctx) in
/-- The class of a finished structure has just the names of its fields besides its own and that of
the initializer, and none of them twice unless the structure is called like the initializer. A name
that is rejected has come before. -/
theorem classNames_nodup_or_rejected (s : Structure) :
    (∀ entry, (ctx.structureEntry s).result = .ok entry →
      ((ctx.classNames s).Nodup ↔ s.name ≠ "init") ∧
        ∃ c, (Fragment.classes (ctx.structureDraft s).written).getLast? = some c ∧
          c.name = s.name ∧ c.names.Perm (ctx.classNames s)) ∧
    ∀ name, (ctx.structureEntry s).result = .error (.nameCollision s.name name) →
      ∃ before after, ctx.classNames s = before ++ name :: after ∧ name ∈ before ∧
        (s.name ≠ "init" → before.Nodup) := by
  constructor
  · intro entry h
    obtain ⟨_, hresult, _⟩ := Except.map_eq_ok.mp h
    obtain ⟨_, _, _, _, hp, hclasses, hfresh, hs⟩ := classes_structureDraft ⟨rfl, hresult⟩
    refine ⟨nodup_classNames_iff hp hfresh, _, ?_, rfl, hs.names_perm hp⟩
    rw [hclasses, List.getLast?_concat]
  · intro name h
    exact (ctx.failsOnly_repeated s).map _ _ h name rfl

def badge : Structure where
  name := "Badge"
  properties := [
    { name := "kind", type := .stringLiteral "badge" },
    { name := "label", type := .base "string", optional := true },
    { name := "value", type := .or [.base "string", .base "integer"], optional := true }]

/-- Two fields that meet because the first is called by a reserved word. -/
def twins : Structure where
  name := "Twins"
  properties := [
    { name := "delete", type := .base "string" }, { name := "delete_", type := .base "string" }]

def alone (s : Structure) : Context where
  options := {}
  schema := { structures := [s] }

theorem classNames_nodup_or_rejected_badge :
    (alone badge).classNames badge = ["Badge", "init", "label", "has_label", "set_label", "value",
        "has_value", "add_value", "Union1"] ∧
      ((alone badge).classNames badge).Nodup ∧
      ∃ before after, (alone twins).classNames twins = before ++ "delete_" :: after ∧
        "delete_" ∈ before ∧ (twins.name ≠ "init" → before.Nodup) := by
  have hbadge : ((alone badge).structureDraft badge).result = .ok () := by decide +kernel
  have htwins : ((alone twins).structureDraft twins).result =
      .error (.nameCollision "Twins" "delete_") := by decide +kernel
  have hnodup := ((alone badge).classNames_nodup_or_rejected badge).1 _
    (Except.map_eq_ok.mpr ⟨(), hbadge, rfl⟩)
  have hrejected := ((alone twins).classNames_nodup_or_rejected twins).2 "delete_"
    (congrArg (Except.map _) htwins)
  exact ⟨by decide +kernel, hnodup.1.mpr (by decide), hrejected⟩

def starter : Structure where
  name := "init"

theorem initializer_named_like_class :
    ((alone starter).structureDraft starter).result = .ok () ∧
      Fragment.classes ((alone starter).structureDraft starter).written =
        [⟨"init", [.initializer], []⟩] ∧
      ¬ ((alone starter).classNames starter).Nodup := by
  decide +kernel

end Context

end ProtocolBindings

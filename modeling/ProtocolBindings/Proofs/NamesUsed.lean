import ProtocolBindings.Proofs.Classification
import ProtocolBindings.Proofs.Inheritance
import ProtocolBindings.Proofs.UnionDrafts
import ProtocolBindings.Synthesis.Structure

namespace ProtocolBindings

variable {C : String → Prop}

def Signature.types (s : Signature) : List CppType :=
  s.result.toList ++ s.parameter.toList

def Body.types : Body → List CppType
  | .testAlternative type | .readAlternative _ type | .readField _ _ type _
  | .addField type _ => [type]
  | .setUp fields => fields.map (·.1)
  | .missingAlternative | .writeAlternative | .testField _ | .writeField _ _ => []

/-- The types whose values the definition converts as those of an enumeration. -/
def Definition.converted (d : Definition) : List CppType :=
  match d.body with
  | .readAlternative .enumeration type | .readField _ .enumeration type _ => [type]
  | .writeField true _ => d.signature.parameter.toList
  | _ => []

namespace Fragment

def types : Fragment → List CppType
  | .openClass _ (.union alternatives) => alternatives
  | .declare signature => signature.types
  | .define definition => definition.signature.types ++ definition.body.types
  | .openClass _ .struct | .gap _ | .comment _ | .blank | .closeClass | .leaveClass => []

def converted : Fragment → List CppType
  | .define definition => definition.converted
  | _ => []

theorem converted_subset_types (f : Fragment) : f.converted ⊆ f.types := by
  intro type ht
  match f with
  | .define ⟨scope, signature, body⟩ =>
    match body, ht with
    | .readAlternative .enumeration _, ht => exact List.mem_append_right _ ht
    | .readField _ .enumeration _ _, ht => exact List.mem_append_right _ ht
    | .writeField true _, ht => exact List.mem_append_left _ (List.mem_append_right _ ht)

end Fragment

theorem Field.eq_of_mem_comment {property : Property} {index : Nat} {f : Fragment}
    (hf : f ∈ Field.comment property index) : f = .blank ∨ ∃ line, f = .comment line := by
  unfold Field.comment at hf
  split at hf
  · rcases List.mem_append.mp hf with hf | hf
    · split at hf
      · cases hf
      · exact .inl (List.mem_singleton.mp hf)
    · obtain ⟨line, _, rfl⟩ := List.mem_map.mp hf
      exact .inr ⟨line, rfl⟩
  · cases hf

namespace Schema

variable {schema : Schema} {path : List String} {child : String} {p : TypeSpec}

theorem name_mem_mentions_of_parent {s : Structure} (h : schema.parent child p = .ok s) :
    s.name ∈ p.mentions := by
  unfold parent at h
  split at h
  · split at h
    · next found =>
      cases h
      rw [(mem_structures_of_structure? found).2]
      exact List.mem_singleton_self _
    · cases h
  · cases h

end Schema

namespace Context

variable {ctx : Context} {scope : String}

def NamesEnumeration (ctx : Context) (type : CppType) : Prop :=
  ∃ name e, type = .named name ∧ ctx.Denotes name e

/-- All names in the fragment satisfy a predicate, and all types that it converts name
enumerations. -/
def Accounts (ctx : Context) (C : String → Prop) (f : Fragment) : Prop :=
  (∀ type ∈ f.types, type.Within C) ∧ ∀ type ∈ f.converted, ctx.NamesEnumeration type

theorem accounts_of_types_eq_nil {f : Fragment} (ht : f.types = []) (hc : f.converted = []) :
    ctx.Accounts C f := by
  constructor
  · rw [ht]
    exact List.forall_mem_nil _
  · rw [hc]
    exact List.forall_mem_nil _

theorem accounts_member {signature : Signature} {body : Body}
    (hs : ∀ type ∈ signature.types, type.Within C) (hb : ∀ type ∈ body.types, type.Within C)
    (hc : ∀ type ∈ (Definition.mk scope signature body).converted, ctx.NamesEnumeration type) :
    ∀ f ∈ Fragment.member scope signature body, ctx.Accounts C f := by
  rw [Fragment.member, List.forall_mem_cons, List.forall_mem_singleton]
  refine ⟨⟨hs, List.forall_mem_nil _⟩, ?_, hc⟩
  exact List.forall_mem_append.mpr ⟨hs, hb⟩

theorem accounts_alternativeMembers {label : String} {type : CppType} {reading : Body}
    (kind : ValueKind) (ht : type.Within C) (hr : ∀ other ∈ reading.types, other.Within C)
    (hc : ∀ other ∈ (Definition.mk scope (.readAs type label) reading).converted,
      ctx.NamesEnumeration other) :
    ∀ f ∈ alternativeMembers scope label type kind reading, ctx.Accounts C f := by
  have hone : ∀ other ∈ [type], other.Within C := List.forall_mem_singleton.mpr ht
  unfold alternativeMembers
  rw [List.forall_mem_append, List.forall_mem_append, List.forall_mem_append]
  refine ⟨⟨⟨?_, ?_⟩, ?_⟩, ?_⟩
  · apply accounts_member
    · exact List.forall_mem_singleton.mpr (CppType.within_plain _)
    · exact hone
    · exact List.forall_mem_nil _
  · apply accounts_member
    · exact hone
    · exact hr
    · exact hc
  · cases kind with
    | primitive =>
      apply accounts_member
      · exact hone
      · exact List.forall_mem_nil _
      · exact List.forall_mem_nil _
    | _ => exact List.forall_mem_nil _
  · exact List.forall_mem_singleton.mpr (accounts_of_types_eq_nil rfl rfl)

theorem accounts_fieldMembers {type : CppType} {f : Field} (ht : type.Within C)
    (he : f.kind = .enumeration → ctx.NamesEnumeration type) :
    ∀ g ∈ f.members scope type, ctx.Accounts C g := by
  have hone : ∀ other ∈ [type], other.Within C := List.forall_mem_singleton.mpr ht
  have hslot : (if f.property.optional then type.optional else type).Within C := by
    split
    · exact ht.optional
    · exact ht
  unfold Field.members
  rw [List.forall_mem_append, List.forall_mem_append]
  refine ⟨⟨?_, ?_⟩, ?_⟩
  · apply accounts_member
    · exact List.forall_mem_singleton.mpr hslot
    · exact hone
    · cases hk : f.kind with
      | enumeration => exact List.forall_mem_singleton.mpr (he hk)
      | _ => exact List.forall_mem_nil _
  · split
    · apply accounts_member
      · exact List.forall_mem_singleton.mpr (CppType.within_plain _)
      · exact List.forall_mem_nil _
      · exact List.forall_mem_nil _
    · exact List.forall_mem_nil _
  · cases hk : f.kind with
    | primitive =>
      apply accounts_member
      · exact hone
      · exact List.forall_mem_nil _
      · exact List.forall_mem_nil _
    | enumeration =>
      apply accounts_member
      · exact hone
      · exact List.forall_mem_nil _
      · exact List.forall_mem_singleton.mpr (he hk)
    | placeholder => exact List.forall_mem_nil _
    | union _ | aggregate =>
      dsimp only
      split
      · apply accounts_member
        · exact hone
        · exact hone
        · exact List.forall_mem_nil _
      · exact List.forall_mem_nil _

/-- A predicate that passes from the name of each definition to the names that it uses. Aliases that
are built in use nothing. -/
structure Closed (ctx : Context) (C : String → Prop) : Prop where
  aliases : ∀ a ∈ ctx.schema.aliases, C a.name → ctx.options.isBuiltin a.name = false →
    a.type.Within C
  parents : ∀ s ∈ ctx.schema.structures, C s.name → ∀ p ∈ s.parents, p.Within C
  properties : ∀ s ∈ ctx.schema.structures, C s.name →
    ∀ property ∈ s.properties, property.type.Within C

theorem LeadsTo.within {t u : TypeSpec} (h : ctx.LeadsTo t u) (hC : ctx.Closed C)
    (ht : t.Within C) : u.Within C := by
  induction h with
  | core t =>
    unfold TypeSpec.Within
    rw [TypeSpec.mentions_core]
    exact ht
  | through hc hb ha _ ih =>
    obtain ⟨hmem, rfl⟩ := mem_aliases_of_lookup ha
    apply ih
    apply hC.aliases _ hmem _ hb
    apply ht
    rw [← TypeSpec.mentions_core, hc]
    exact List.mem_singleton_self _

theorem Closed.trace_union (hC : ctx.Closed C) {owner : String} {followed after : List String}
    {t : TypeSpec} {items : List TypeSpec} (ht : t.Within C)
    (h : ctx.trace owner followed t = .ok (.union items, after)) :
    ∀ item ∈ items, item.Within C := by
  obtain ⟨all, hl, rfl⟩ := leadsTo_of_trace_union h
  intro item hi name hn
  apply hl.within hC ht
  rw [TypeSpec.renders_mentions.union, List.mem_flatMap]
  exact ⟨item, (List.mem_filter.mp hi).1, hn⟩

theorem Closed.of_denotes (hC : ctx.Closed C) {name : String} {e : Enumeration}
    (h : ctx.Denotes name e) (hn : C name) : C e.name := by
  obtain ⟨n, hl, _, he, _⟩ := h
  rw [(mem_enumerations_of_lookup he).2]
  apply hl.within hC
  · exact List.forall_mem_singleton.mpr hn
  · exact List.mem_singleton_self n

theorem accounts_plainAlternative {kind : ValueKind} {followed : List String}
    {t : TypeSpec} (ht : t.Within C) (hk : ctx.trace scope [] t = .ok (kind, followed))
    {type : CppType} {reading : Body}
    (h : (plainAlternative scope kind t).result = .ok (type, reading)) (label : String) :
    ∀ f ∈ alternativeMembers scope label type kind reading, ctx.Accounts C f := by
  obtain ⟨he, hr⟩ := result_plainAlternative h
  have hw := ht.expression he
  rcases hr with rfl | rfl
  · apply accounts_alternativeMembers kind hw
    · exact List.forall_mem_nil _
    · exact List.forall_mem_nil _
  · apply accounts_alternativeMembers kind hw
    · exact List.forall_mem_singleton.mpr hw
    · cases kind with
      | enumeration => exact List.forall_mem_singleton.mpr (denotes_of_trace hk he)
      | _ => exact List.forall_mem_nil _

theorem Closed.writes_alternative (hC : ctx.Closed C) {path : List String} {index : Nat}
    {labels : List String} {t : TypeSpec} (ht : t.Within C)
    (hnested : ∀ items followed, ctx.Nests path scope index labels t items followed →
      (∀ item ∈ items, item.Within C) →
      (ctx.union (path ++ followed) scope (unionName index) items).Writes (ctx.Accounts C)) :
    (ctx.alternative path scope index labels t).Writes (ctx.Accounts C) := by
  have hgap : ∀ gap, ctx.Accounts C (.gap gap) := fun _ => accounts_of_types_eq_nil rfl rfl
  have hleave : ctx.Accounts C .leaveClass := accounts_of_types_eq_nil rfl rfl
  have hdraft := ctx.draftsAlternative path scope index labels t
  generalize ctx.alternative path scope index labels t = draft at hdraft ⊢
  cases hdraft with
  | skipped _ =>
    refine (Draft.writes_write (hgap _)).bind ?_
    exact fun _ _ => Draft.writes_pure _
  | untraced _ _ => exact Draft.writes_fail _
  | unnamed _ _ _ => exact writes_leaveAndFail hleave _
  | taken _ _ _ _ => exact writes_leaveAndFail hleave _
  | endless _ _ _ _ _ => exact Draft.writes_fail _
  | nested h =>
    have hw : (CppType.nested scope (unionName index)).Within C := CppType.within_nested _ _
    refine (hnested _ _ h (hC.trace_union ht h.traced)).bind ?_
    intro _ _
    refine (Draft.writes_writeAll ?_).bind ?_
    · apply accounts_alternativeMembers _ hw
      · exact List.forall_mem_singleton.mpr hw
      · exact List.forall_mem_nil _
    · exact fun _ _ => Draft.writes_pure _
  | plain _ hk _ _ _ =>
    refine (writes_plainAlternative hgap _ _ _).bind ?_
    rintro ⟨type, reading⟩ hp
    refine (Draft.writes_writeAll (accounts_plainAlternative ht hk hp _)).bind ?_
    exact fun _ _ => Draft.writes_pure _

theorem Closed.writes_union (hC : ctx.Closed C) (path : List String) (scope name : String)
    (items : List TypeSpec) : (∀ t ∈ items, t.Within C) →
    (ctx.union path scope name items).Writes (ctx.Accounts C) := by
  apply ctx.union_induction
    (U := fun path scope name items => (∀ t ∈ items, t.Within C) →
      (ctx.union path scope name items).Writes (ctx.Accounts C))
    (L := fun path scope index labels items => (∀ t ∈ items, t.Within C) →
      (ctx.alternatives path scope index labels items).Writes (ctx.Accounts C))
    (A := fun path scope index labels t => t.Within C →
      (ctx.alternative path scope index labels t).Writes (ctx.Accounts C))
  · intro path scope name items ih h
    rw [union]
    refine (Draft.writes_silent _).bind ?_
    intro types htypes
    rw [Draft.result_silent, Draft.result_mapM] at htypes
    have hwithin : ∀ type ∈ types, type.Within C := by
      intro type htype
      obtain ⟨t, ht, he⟩ := Except.exists_of_mem_mapM htypes htype
      exact (h t ht).expression he
    refine (Draft.writes_write ⟨hwithin, List.forall_mem_nil _⟩).bind ?_
    intro _ _
    refine (ih h).bind ?_
    exact fun _ _ => Draft.writes_write (accounts_of_types_eq_nil rfl rfl)
  · intro path scope index labels _
    rw [alternatives]
    exact Draft.writes_pure ()
  · intro path scope index labels t rest ih ihrest h
    rw [alternatives]
    rw [List.forall_mem_cons] at h
    refine (ih h.1).bind ?_
    exact fun label? _ => ihrest label? h.2
  · intro path scope index labels t ih ht
    exact hC.writes_alternative ht ih

section Fields

variable {owner : String} {kind : ValueKind} {followed taken : List String} {index : Nat}
  {property : Property} {properties : List Property}

theorem within_of_fieldType (hp : property.type.Within C) {type : CppType}
    (h : (ctx.fieldType scope property index followed kind).result = .ok type) :
    type.Within C := by
  unfold fieldType at h
  split at h
  · obtain ⟨_, _, h⟩ := Draft.result_bind_eq_ok.mp h
    cases h
    exact CppType.within_nested _ _
  · exact hp.expression h

theorem namesEnumeration_of_fieldType
    (hk : ctx.trace owner [] property.type = .ok (.enumeration, followed)) {type : CppType}
    (h : (ctx.fieldType scope property index followed .enumeration).result = .ok type) :
    ctx.NamesEnumeration type :=
  denotes_of_trace hk h

theorem Closed.writes_fieldType (hC : ctx.Closed C) (hp : property.type.Within C)
    (hk : ctx.trace owner [] property.type = .ok (kind, followed)) :
    (ctx.fieldType scope property index followed kind).Writes (ctx.Accounts C) := by
  unfold fieldType
  split
  · refine (hC.writes_union _ _ _ _ (hC.trace_union hp hk)).bind ?_
    exact fun _ _ => Draft.writes_pure _
  · exact Draft.writes_mapWritten fun _ => accounts_of_types_eq_nil rfl rfl

theorem accounts_comment (property : Property) (index : Nat) :
    ∀ f ∈ Field.comment property index, ctx.Accounts C f := by
  intro f hf
  rcases Field.eq_of_mem_comment hf with rfl | ⟨line, rfl⟩
  · exact accounts_of_types_eq_nil rfl rfl
  · exact accounts_of_types_eq_nil rfl rfl

theorem Closed.writes_field (hC : ctx.Closed C) (hp : property.type.Within C) :
    (ctx.field scope taken index property).Writes (ctx.Accounts C) := by
  refine (Draft.writes_writeAll (accounts_comment property index)).bind ?_
  intro _ _
  refine (Draft.writes_lift _).bind ?_
  rintro ⟨kind, followed⟩ hk
  refine (Draft.writes_lift _).bind ?_
  intro taken _
  refine (hC.writes_fieldType hp hk).bind ?_
  intro type htype
  refine (Draft.writes_writeAll ?_).bind ?_
  · apply accounts_fieldMembers (within_of_fieldType hp htype)
    rintro rfl
    exact namesEnumeration_of_fieldType hk htype
  · exact fun _ _ => Draft.writes_pure _

theorem within_of_field (hp : property.type.Within C) {after : List String}
    {setUp : List (CppType × String)}
    (h : (ctx.field scope taken index property).result = .ok (after, setUp)) :
    ∀ f ∈ setUp, f.1.Within C := by
  obtain ⟨_, _, h⟩ := Draft.result_bind_eq_ok.mp h
  obtain ⟨⟨kind, followed⟩, _, h⟩ := Draft.result_bind_eq_ok.mp h
  obtain ⟨_, _, h⟩ := Draft.result_bind_eq_ok.mp h
  obtain ⟨type, htype, h⟩ := Draft.result_bind_eq_ok.mp h
  obtain ⟨_, _, h⟩ := Draft.result_bind_eq_ok.mp h
  cases h
  split
  · exact List.forall_mem_singleton.mpr (within_of_fieldType hp htype)
  · exact List.forall_mem_nil _

theorem Closed.writes_fields (hC : ctx.Closed C) (hp : ∀ p ∈ properties, p.type.Within C) :
    (ctx.fields scope taken index properties).Writes (ctx.Accounts C) := by
  induction properties generalizing taken index with
  | nil => exact Draft.writes_pure _
  | cons property rest ih =>
    rw [List.forall_mem_cons] at hp
    rw [fields]
    split
    · refine (Draft.writes_write (accounts_of_types_eq_nil rfl rfl)).bind ?_
      exact fun _ _ => ih hp.2
    · refine (hC.writes_field hp.1).bind ?_
      intro _ _
      refine (ih hp.2).bind ?_
      exact fun _ _ => Draft.writes_pure _

theorem within_of_fields (hp : ∀ p ∈ properties, p.type.Within C)
    {setUp : List (CppType × String)}
    (h : (ctx.fields scope taken index properties).result = .ok setUp) :
    ∀ f ∈ setUp, f.1.Within C := by
  induction properties generalizing taken index setUp with
  | nil =>
    cases h
    exact List.forall_mem_nil _
  | cons property rest ih =>
    rw [List.forall_mem_cons] at hp
    rw [fields] at h
    split at h
    · obtain ⟨_, _, h⟩ := Draft.result_bind_eq_ok.mp h
      exact ih hp.2 h
    · obtain ⟨⟨after, first⟩, hf, h⟩ := Draft.result_bind_eq_ok.mp h
      obtain ⟨others, ho, h⟩ := Draft.result_bind_eq_ok.mp h
      cases h
      exact List.forall_mem_append.mpr ⟨within_of_field hp.1 hf, ih hp.2 ho⟩

end Fields

theorem Closed.within_inherited (hC : ctx.Closed C) {path : List String} {child : String}
    {p : TypeSpec} (hp : p.Within C) {properties : List Property}
    (h : ctx.schema.inherited path child p = .ok properties) :
    ∀ property ∈ properties, property.type.Within C := by
  induction path, child, p using Schema.inherited.induct ctx.schema generalizing properties with
  | case1 path child p e he =>
    obtain ⟨s, _, hs, _⟩ := Schema.exists_of_inherited h
    rw [he] at hs
    cases hs
  | case2 path child p s hs hm =>
    obtain ⟨t, _, ht, hn, _⟩ := Schema.exists_of_inherited h
    rw [hs] at ht
    cases ht
    exact absurd hm hn
  | case3 path child p s hs _ ih =>
    obtain ⟨t, further, ht, _, hf, rfl⟩ := Schema.exists_of_inherited h
    rw [hs] at ht
    cases ht
    have hmem := Schema.mem_structures_of_parent hs
    have hn : C s.name := hp _ (Schema.name_mem_mentions_of_parent hs)
    intro property hq
    rcases List.mem_append.mp hq with hq | hq
    · exact hC.properties s hmem hn property hq
    · obtain ⟨properties, hq', hq⟩ := List.mem_flatten.mp hq
      obtain ⟨q, hparent, hi⟩ := Except.exists_of_mem_mapM hf hq'
      exact ih q (hC.parents s hmem hn q hparent) hi property hq

theorem Closed.within_flatten (hC : ctx.Closed C) {s : Structure} (hs : s ∈ ctx.schema.structures)
    (hn : C s.name) {properties : List Property} (h : ctx.schema.flatten s = .ok properties) :
    ∀ property ∈ properties, property.type.Within C := by
  obtain ⟨further, hf, rfl⟩ := Schema.flatten_eq_ok.mp h
  intro property hp
  rcases List.mem_append.mp (distinctBy_subset _ _ hp) with hp | hp
  · exact hC.properties s hs hn property hp
  · obtain ⟨properties, hq, hp⟩ := List.mem_flatten.mp hp
    obtain ⟨p, hparent, hi⟩ := Except.exists_of_mem_mapM hf hq
    exact hC.within_inherited (hC.parents s hs hn p hparent) hi property hp

/-- The code of a structure uses only names in a closed predicate that holds of its own name. -/
theorem Closed.writes_structureDraft (hC : ctx.Closed C) {s : Structure}
    (hs : s ∈ ctx.schema.structures) (hn : C s.name) :
    (ctx.structureDraft s).Writes (ctx.Accounts C) := by
  refine (Draft.writes_lift _).bind ?_
  intro properties hproperties
  have hwithin := hC.within_flatten hs hn hproperties
  refine (Draft.writes_writeAll ?_).bind ?_
  · intro f hf
    obtain ⟨line, _, rfl⟩ := List.mem_map.mp hf
    exact accounts_of_types_eq_nil rfl rfl
  intro _ _
  refine (Draft.writes_write (accounts_of_types_eq_nil rfl rfl)).bind ?_
  intro _ _
  refine (hC.writes_fields hwithin).bind ?_
  intro setUp hsetUp
  refine (Draft.writes_write (accounts_of_types_eq_nil rfl rfl)).bind ?_
  intro _ _
  refine (Draft.writes_writeAll ?_).bind ?_
  · apply accounts_member
    · exact List.forall_mem_nil _
    · exact List.forall_mem_map.mpr (within_of_fields hwithin hsetUp)
    · exact List.forall_mem_nil _
  · exact fun _ _ => Draft.writes_write (accounts_of_types_eq_nil rfl rfl)

end Context

end ProtocolBindings

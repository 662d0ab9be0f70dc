import Mathlib.Data.List.Nodup
import ProtocolBindings.Options
import ProtocolBindings.Schema.Codec

namespace ProtocolBindings

theorem mapM_map_of_decodes {α β : Type} {encode : α → β} {decode : β → Option α} {as : List α}
    (h : ∀ a ∈ as, decode (encode a) = some a) : (as.map encode).mapM decode = some as := by
  induction as with
  | nil => rfl
  | cons a as ih =>
    obtain ⟨ha, has⟩ := List.forall_mem_cons.mp h
    rw [List.map_cons, List.mapM_cons, ha, ih has]
    rfl

theorem lookup_optionalField (key name : String) (value : Option Json) :
    (optionalField name value).lookup key = if key = name then value else none := by
  cases value with
  | none => simp [optionalField]
  | some v =>
    rw [optionalField, List.lookup_cons, List.lookup_nil]
    by_cases h : key = name
    · rw [beq_iff_eq.mpr h, if_pos h]
    · rw [beq_eq_false_iff_ne.mpr h, if_neg h]

theorem lookup_map_snd {γ α β : Type} (key : γ → String) (f : γ → α) (g : α → β) (name : String)
    (cs : List γ) : ((cs.map fun c => (key c, f c)).lookup name).map g =
      (cs.map fun c => (key c, g (f c))).lookup name := by
  induction cs with
  | nil => rfl
  | cons c cs ih =>
    rw [List.map_cons, List.map_cons, List.lookup_cons, List.lookup_cons]
    cases name == key c with
    | true => rfl
    | false => exact ih

theorem keys_optionalField (name : String) (value : Option Json) :
    ((optionalField name value).map Prod.fst).Sublist [name] := by
  cases value with
  | none => exact List.nil_sublist _
  | some v => exact .refl _

theorem keys_append {fields others : List (String × Json)} {names further : List String}
    (hf : (fields.map Prod.fst).Sublist names) (ho : (others.map Prod.fst).Sublist further) :
    ((fields ++ others).map Prod.fst).Sublist (names ++ further) := by
  rw [List.map_append]
  exact hf.append ho

theorem lookup_append_optionalField {fields : List (String × Json)} {name : String}
    {value : Option Json} (h : fields.lookup name = none) :
    (fields ++ optionalField name value).lookup name = value := by
  rw [List.lookup_append, h, lookup_optionalField, if_pos rfl, Option.none_or]

namespace Json

variable {whole v : Json} {α β : Type} {fields : List (String × Json)}
  {field : Option (Part whole)} {decode : Json → Option α}

theorem unrepeated_of_nodup {fields : List (String × α)} (h : (fields.map Prod.fst).Nodup)
    (names : List String) : unrepeated names fields = true := by
  rw [unrepeated, List.all_eq_true]
  intro name _
  have hcount : (fields.map Prod.fst).count name = (fields.filter (·.1 = name)).length := by
    rw [List.count, List.countP_map, List.countP_eq_length_filter]
    rfl
  rw [decide_eq_true_eq, ← hcount]
  exact List.nodup_iff_count_le_one.mp h name

/-- The fields of an object, each with the proof that it is a part of a larger value. -/
theorem exists_fields (fields : List (String × Json)) (h : sizeOf (object fields) ≤ sizeOf whole) :
    ∃ parts : List (String × Part whole), fields? (object fields) h = some parts ∧
      parts.map Prod.fst = fields.map Prod.fst ∧
      ∀ name, (parts.lookup name).map Subtype.val = fields.lookup name := by
  refine ⟨_, rfl, ?_, ?_⟩
  · conv_rhs => rw [← List.attach_map_subtype_val fields]
    rw [List.map_map, List.map_map]
    rfl
  · intro name
    rw [lookup_map_snd]
    conv_rhs => rw [← List.attach_map_subtype_val fields]

theorem record?_object {names : List String} {h : sizeOf (object fields) ≤ sizeOf whole}
    {read : (String → Option (Part whole)) → Option α} {a : α}
    (hk : (fields.map Prod.fst).Sublist names) (hn : names.Nodup)
    (hread : ∀ field, (∀ name, (field name).map Subtype.val = fields.lookup name) →
      read field = some a) : (record? names (object fields) h >>= read) = some a := by
  obtain ⟨parts, hparts, hkeys, hlookup⟩ := exists_fields fields h
  have hrecord : record? names (object fields) h = some (parts.lookup ·) := by
    unfold record?
    rw [hparts]
    exact if_pos (unrepeated_of_nodup (hkeys ▸ hn.sublist hk) names)
  rw [hrecord]
  exact hread _ hlookup

theorem required_eq (h : field.map Subtype.val = some v) :
    required field (fun p => decode p.1) = decode v := by
  obtain ⟨part, rfl, rfl⟩ := Option.map_eq_some_iff.mp h
  rfl

theorem withDefault_eq {default : α} (h : field.map Subtype.val = some v) :
    withDefault default field (fun p => decode p.1) = decode v := by
  obtain ⟨part, rfl, rfl⟩ := Option.map_eq_some_iff.mp h
  rfl

theorem nullable_eq {encode : α → Json} {a : Option α} (hnull : ∀ a, encode a ≠ .null)
    (hd : ∀ a, decode (encode a) = some a) (h : field.map Subtype.val = a.map encode) :
    nullable field (fun p => decode p.1) = some a := by
  cases a with
  | none =>
    rw [Option.map_none, Option.map_eq_none_iff] at h
    rw [h]
    rfl
  | some a =>
    obtain ⟨⟨v, hv⟩, rfl, hva⟩ := Option.map_eq_some_iff.mp h
    have heq : v = encode a := hva
    have hdecode : (decode v).map some = some (some a) := by rw [heq, hd, Option.map_some]
    have hne : v ≠ .null := heq ▸ hnull a
    unfold nullable
    split
    · next hpart =>
      cases hpart
      exact absurd rfl hne
    · next hpart =>
      cases hpart
      exact hdecode
    · next hpart => cases hpart

theorem listOf_eq {vs : List Json} {part : Part whole} (h : part.1 = .array vs) :
    listOf (fun p => decode p.1) part = vs.mapM decode := by
  obtain ⟨_, hv⟩ := part
  subst h
  rw [listOf, elements?, Option.bind_some, List.mapM_map]
  conv_rhs => rw [← List.attach_map_subtype_val vs, List.mapM_map]
  rfl

theorem required_list {vs : List Json} (h : field.map Subtype.val = some (.array vs)) :
    required field (listOf fun p => decode p.1) = vs.mapM decode := by
  obtain ⟨part, rfl, hpart⟩ := Option.map_eq_some_iff.mp h
  exact listOf_eq hpart

theorem withDefault_list {vs : List Json} {default : List α}
    (h : field.map Subtype.val = some (.array vs)) :
    withDefault default field (listOf fun p => decode p.1) = vs.mapM decode := by
  obtain ⟨part, rfl, hpart⟩ := Option.map_eq_some_iff.mp h
  exact listOf_eq hpart

end Json

open Json

theorem TypeSpec.listToJson_eq_map (ts : List TypeSpec) :
    TypeSpec.listToJson ts = ts.map TypeSpec.toJson := by
  induction ts with
  | nil => rfl
  | cons t ts ih => rw [TypeSpec.listToJson, List.map_cons, ih]

theorem Property.listToJson_eq_map (ps : List Property) :
    Property.listToJson ps = ps.map Property.toJson := by
  induction ps with
  | nil => rfl
  | cons p ps ih => rw [Property.listToJson, List.map_cons, ih]

theorem TypeKind.nodup_fieldNames (kind : TypeKind) : ("kind" :: kind.fieldNames).Nodup := by
  cases kind <;> decide

theorem TypeSpec.tagged?_object {nested : Bool} {word : String} {fields : List (String × Json)}
    {whole : Json} {h : sizeOf (object (("kind", .string word) :: fields)) ≤ sizeOf whole}
    {read : TypeKind × (String → Option (Part whole)) → Option TypeSpec} {t : TypeSpec}
    (kind : TypeKind) (hword : kind.word = word) (hkeys : fields.map Prod.fst = kind.fieldNames)
    (hread : ∀ field, (∀ name, (field name).map Subtype.val =
      (("kind", .string word) :: fields).lookup name) → read (kind, field) = some t) :
    (TypeSpec.tagged? nested (object (("kind", .string word) :: fields)) h >>= read) = some t := by
  obtain ⟨parts, hparts, hfst, hlookup⟩ := exists_fields (("kind", .string word) :: fields) h
  have hnodup : (parts.map Prod.fst).Nodup := by
    rw [hfst, List.map_cons, hkeys]
    exact kind.nodup_fieldNames
  obtain ⟨part, hpart, htag⟩ := Option.map_eq_some_iff.mp (hlookup "kind")
  have hof : TypeKind.ofJson? nested part.1 = some kind := by
    rw [htag, ← hword]
    exact kind.ofWord?_word
  have hguard (names : List String) : (guard (unrepeated names parts = true) : Option Unit) =
      some () := if_pos (unrepeated_of_nodup hnodup names)
  have htagged : TypeSpec.tagged? nested (object (("kind", .string word) :: fields)) h =
      some (kind, (parts.lookup ·)) := by
    unfold TypeSpec.tagged?
    rw [hparts]
    refine Option.bind_eq_some_iff.mpr ⟨(), hguard _, ?_⟩
    refine Option.bind_eq_some_iff.mpr ⟨part, hpart, ?_⟩
    refine Option.bind_eq_some_iff.mpr ⟨kind, hof, ?_⟩
    exact Option.bind_eq_some_iff.mpr ⟨(), hguard _, rfl⟩
  rw [htagged]
  exact hread _ hlookup

theorem nullable_string {whole : Json} {field : Option (Part whole)} {text : Option String}
    (h : field.map Subtype.val = text.map .string) :
    nullable field (string? ·.1) = some text :=
  nullable_eq (fun _ => Json.noConfusion) (fun _ => rfl) h

/-- A text that is missing is written as null, so that it does not become the usual one. -/
theorem withDefault_nullable_string {whole : Json} {field : Option (Part whole)}
    {usual text : Option String}
    (h : field.map Subtype.val = some ((text.map .string).getD .null)) :
    withDefault usual field (fun p => nullable (some p) (string? ·.1)) = some text := by
  obtain ⟨⟨v, _⟩, rfl, hv⟩ := Option.map_eq_some_iff.mp h
  cases text with
  | none =>
    cases hv
    rfl
  | some text =>
    cases hv
    rfl

mutual

theorem TypeSpec.ofJson?_toJson (nested : Bool) : (t : TypeSpec) →
    TypeSpec.ofJson? nested t.toJson = some t
  | .base name => by
    rw [TypeSpec.toJson, TypeSpec.ofJson?]
    apply TypeSpec.tagged?_object .base rfl rfl
    intro field hfield
    have hname : required (field "name") (string? ·.1) = some name := required_eq (hfield "name")
    simp only [hname, Option.bind_eq_bind, Option.bind_some, Option.pure_def]
  | .reference name => by
    rw [TypeSpec.toJson, TypeSpec.ofJson?]
    apply TypeSpec.tagged?_object .reference rfl rfl
    intro field hfield
    have hname : required (field "name") (string? ·.1) = some name := required_eq (hfield "name")
    simp only [hname, Option.bind_eq_bind, Option.bind_some, Option.pure_def]
  | .array element => by
    rw [TypeSpec.toJson, TypeSpec.ofJson?]
    apply TypeSpec.tagged?_object .array rfl rfl
    intro field hfield
    have helement : required (field "element") (fun p => TypeSpec.ofJson? true p.1) =
        some element :=
      (required_eq (hfield "element")).trans (TypeSpec.ofJson?_toJson true element)
    simp only [helement, Option.bind_eq_bind, Option.bind_some, Option.pure_def]
  | .map key value => by
    rw [TypeSpec.toJson, TypeSpec.ofJson?]
    apply TypeSpec.tagged?_object .map rfl rfl
    intro field hfield
    have hkey : required (field "key") (fun p => TypeSpec.ofJson? true p.1) = some key :=
      (required_eq (hfield "key")).trans (TypeSpec.ofJson?_toJson true key)
    have hvalue : required (field "value") (fun p => TypeSpec.ofJson? true p.1) = some value :=
      (required_eq (hfield "value")).trans (TypeSpec.ofJson?_toJson true value)
    simp only [hkey, hvalue, Option.bind_eq_bind, Option.bind_some, Option.pure_def]
  | .or items => by
    rw [TypeSpec.toJson, TypeSpec.ofJson?]
    apply TypeSpec.tagged?_object .or rfl rfl
    intro field hfield
    have hitems : required (field "items") (listOf fun p => TypeSpec.ofJson? true p.1) =
        some items := by
      rw [required_list (hfield "items"), TypeSpec.listToJson_eq_map]
      exact mapM_map_of_decodes fun t _ => TypeSpec.ofJson?_toJson true t
    simp only [hitems, Option.bind_eq_bind, Option.bind_some, Option.pure_def]
  | .tuple items => by
    rw [TypeSpec.toJson, TypeSpec.ofJson?]
    apply TypeSpec.tagged?_object .tuple rfl rfl
    intro field hfield
    have hitems : required (field "items") (listOf fun p => TypeSpec.ofJson? true p.1) =
        some items := by
      rw [required_list (hfield "items"), TypeSpec.listToJson_eq_map]
      exact mapM_map_of_decodes fun t _ => TypeSpec.ofJson?_toJson true t
    simp only [hitems, Option.bind_eq_bind, Option.bind_some, Option.pure_def]
  | .literal properties => by
    rw [TypeSpec.toJson, TypeSpec.ofJson?]
    apply TypeSpec.tagged?_object .literal rfl rfl
    intro field hfield
    obtain ⟨⟨_, hlt⟩, hvalue, rfl⟩ := Option.map_eq_some_iff.mp (hfield "value")
    simp only [hvalue, Option.bind_eq_bind, Option.bind_some]
    refine record?_object ?_ (by decide) ?_
    · exact .refl _
    intro inner hinner
    have hproperties : withDefault [] (inner "properties")
        (listOf fun p => Property.ofJson? true p.1) = some properties := by
      rw [withDefault_list (hinner "properties"), Property.listToJson_eq_map]
      exact mapM_map_of_decodes fun p _ => Property.ofJson?_toJson true p
    simp only [hproperties, Option.bind_some, Option.pure_def]
  | .stringLiteral value => by
    rw [TypeSpec.toJson, TypeSpec.ofJson?]
    apply TypeSpec.tagged?_object .stringLiteral rfl rfl
    intro field hfield
    have hvalue : required (field "value") (string? ·.1) = some value :=
      required_eq (hfield "value")
    simp only [hvalue, Option.bind_eq_bind, Option.bind_some, Option.pure_def]

theorem Property.ofJson?_toJson (nested : Bool) : (p : Property) →
    Property.ofJson? nested p.toJson = some p
  | ⟨name, type, optional, documentation⟩ => by
    rw [Property.toJson, Property.ofJson?]
    refine record?_object ?_ (by decide) ?_
    · exact keys_append (.refl _) (keys_optionalField _ _)
    intro field hfield
    have hname : required (field "name") (string? ·.1) = some name := required_eq (hfield "name")
    have htype : required (field "type") (fun p => TypeSpec.ofJson? nested p.1) = some type :=
      (required_eq (hfield "type")).trans (TypeSpec.ofJson?_toJson nested type)
    have hoptional : withDefault false (field "optional") (bool? ·.1) = some optional :=
      withDefault_eq (hfield "optional")
    have hdocumentation :=
      nullable_string ((hfield "documentation").trans (lookup_append_optionalField rfl))
    simp only [hname, htype, hoptional, hdocumentation, Option.bind_eq_bind, Option.bind_some,
      Option.pure_def]

end

theorem TypeSpec.mapM_ofJson? (nested : Bool) (ts : List TypeSpec) :
    (TypeSpec.listToJson ts).mapM (TypeSpec.ofJson? nested) = some ts := by
  rw [TypeSpec.listToJson_eq_map]
  exact mapM_map_of_decodes fun t _ => t.ofJson?_toJson nested

theorem TypeSpec.toJson_ne_null (t : TypeSpec) : t.toJson ≠ .null := by
  cases t <;> rw [TypeSpec.toJson] <;> exact Json.noConfusion

theorem Property.mapM_ofJson? (nested : Bool) (ps : List Property) :
    (Property.listToJson ps).mapM (Property.ofJson? nested) = some ps := by
  rw [Property.listToJson_eq_map]
  exact mapM_map_of_decodes fun p _ => p.ofJson?_toJson nested

theorem Structure.ofJson?_toJson (s : Structure) : Structure.ofJson? s.toJson = some s := by
  refine record?_object ?_ (by decide) ?_
  · exact keys_append (.refl _) (keys_optionalField _ _)
  intro field hfield
  have hname : required (field "name") (string? ·.1) = some s.name := required_eq (hfield "name")
  have hproperties : withDefault [] (field "properties") (listOf (Property.ofJson? false ·.1)) =
      some s.properties :=
    (withDefault_list (hfield "properties")).trans (Property.mapM_ofJson? false s.properties)
  have hbases : withDefault [] (field "extends") (listOf (TypeSpec.ofJson? false ·.1)) =
      some s.bases :=
    (withDefault_list (hfield "extends")).trans (TypeSpec.mapM_ofJson? false s.bases)
  have hmixins : withDefault [] (field "mixins") (listOf (TypeSpec.ofJson? false ·.1)) =
      some s.mixins :=
    (withDefault_list (hfield "mixins")).trans (TypeSpec.mapM_ofJson? false s.mixins)
  have hdocumentation :=
    nullable_string ((hfield "documentation").trans (lookup_append_optionalField rfl))
  simp only [hname, hproperties, hbases, hmixins, hdocumentation, Option.bind_eq_bind,
    Option.bind_some, Option.pure_def]

theorem EnumLiteral.ofJson?_toJson (v : EnumLiteral) :
    EnumLiteral.ofJson? v.toJson = some v := by
  cases v with
  | integer n =>
    have hrange := And.intro n.minValue_le_toInt n.toInt_le
    rw [EnumLiteral.toJson, EnumLiteral.ofJson?, if_pos hrange, n.ofInt_toInt]
  | string text => rfl

theorem EnumValue.ofJson?_toJson (v : EnumValue) : EnumValue.ofJson? v.toJson = some v := by
  refine record?_object ?_ (by decide) ?_
  · exact keys_append (.refl _) (keys_optionalField _ _)
  intro field hfield
  have hname : required (field "name") (string? ·.1) = some v.name := required_eq (hfield "name")
  have hvalue : required (field "value") (EnumLiteral.ofJson? ·.1) = some v.value :=
    (required_eq (hfield "value")).trans v.value.ofJson?_toJson
  have hdocumentation :=
    nullable_string ((hfield "documentation").trans (lookup_append_optionalField rfl))
  simp only [hname, hvalue, hdocumentation, Option.bind_eq_bind, Option.bind_some,
    Option.pure_def]

theorem Enumeration.ofJson?_toJson (e : Enumeration) :
    Enumeration.ofJson? e.toJson = some e := by
  refine record?_object ?_ (by decide) ?_
  · exact keys_append (keys_append (keys_append (.refl _) (keys_optionalField _ _)) (.refl _))
      (keys_optionalField _ _)
  intro field hfield
  simp only [List.lookup_append, lookup_optionalField] at hfield
  have hname : required (field "name") (string? ·.1) = some e.name := required_eq (hfield "name")
  have htype : nullable (field "type") (TypeSpec.ofJson? false ·.1) = some e.type := by
    apply nullable_eq TypeSpec.toJson_ne_null (TypeSpec.ofJson?_toJson false)
    rw [hfield]
    cases e.type with
    | none => rfl
    | some t => rfl
  have hvalues : required (field "values") (listOf (EnumValue.ofJson? ·.1)) = some e.values :=
    (required_list (hfield "values")).trans (mapM_map_of_decodes fun v _ => v.ofJson?_toJson)
  have hcustom : withDefault false (field "supportsCustomValues") (bool? ·.1) =
      some e.supportsCustomValues :=
    withDefault_eq (hfield "supportsCustomValues")
  have hdocumentation := nullable_string (hfield "documentation")
  simp only [hname, htype, hvalues, hcustom, hdocumentation, Option.bind_eq_bind,
    Option.bind_some, Option.pure_def]

theorem TypeAlias.ofJson?_toJson (a : TypeAlias) : TypeAlias.ofJson? a.toJson = some a := by
  refine record?_object ?_ (by decide) ?_
  · exact keys_append (.refl _) (keys_optionalField _ _)
  intro field hfield
  have hname : required (field "name") (string? ·.1) = some a.name := required_eq (hfield "name")
  have htype : required (field "type") (TypeSpec.ofJson? false ·.1) = some a.type :=
    (required_eq (hfield "type")).trans (a.type.ofJson?_toJson false)
  have hdocumentation :=
    nullable_string ((hfield "documentation").trans (lookup_append_optionalField rfl))
  simp only [hname, htype, hdocumentation, Option.bind_eq_bind, Option.bind_some,
    Option.pure_def]

theorem MetaData.ofJson?_toJson (m : MetaData) : MetaData.ofJson? m.toJson = some m := by
  refine record?_object (.refl _) (by decide) ?_
  intro field hfield
  have hversion : required (field "version") (string? ·.1) = some m.version :=
    required_eq (hfield "version")
  simp only [hversion, Option.bind_eq_bind, Option.bind_some, Option.pure_def]

theorem Builtin.ofJson?_toJson (b : Builtin) : Builtin.ofJson? b.toJson = some b := by
  refine record?_object (.refl _) (by decide) ?_
  intro field hfield
  have hname : required (field "name") (string? ·.1) = some b.name := required_eq (hfield "name")
  have hdefinition : required (field "definition") (string? ·.1) = some b.definition :=
    required_eq (hfield "definition")
  simp only [hname, hdefinition, Option.bind_eq_bind, Option.bind_some, Option.pure_def]

theorem Schema.ofJson?_toJson (s : Schema) : Schema.ofJson? s.toJson = some s := by
  refine record?_object ?_ (by decide) ?_
  · exact keys_append (keys_optionalField _ _) (.refl _)
  intro field hfield
  simp only [List.lookup_append, lookup_optionalField] at hfield
  have hmetaData : nullable (field "metaData") (MetaData.ofJson? ·.1) = some s.metaData := by
    apply nullable_eq (fun _ => Json.noConfusion) MetaData.ofJson?_toJson
    rw [hfield]
    exact Option.or_none
  have hstructures : withDefault [] (field "structures") (listOf (Structure.ofJson? ·.1)) =
      some s.structures :=
    (withDefault_list (hfield "structures")).trans
      (mapM_map_of_decodes fun s _ => s.ofJson?_toJson)
  have henumerations : withDefault [] (field "enumerations") (listOf (Enumeration.ofJson? ·.1)) =
      some s.enumerations :=
    (withDefault_list (hfield "enumerations")).trans
      (mapM_map_of_decodes fun e _ => e.ofJson?_toJson)
  have haliases : withDefault [] (field "typeAliases") (listOf (TypeAlias.ofJson? ·.1)) =
      some s.aliases :=
    (withDefault_list (hfield "typeAliases")).trans
      (mapM_map_of_decodes fun a _ => a.ofJson?_toJson)
  simp only [hmetaData, hstructures, henumerations, haliases, Option.bind_eq_bind,
    Option.bind_some, Option.pure_def]

theorem Options.ofJson?_toJson (o : Options) : Options.ofJson? o.toJson = some o := by
  refine record?_object (.refl _) (by decide) ?_
  intro field hfield
  have hstrings (texts : List String) : (texts.map Json.string).mapM string? = some texts :=
    mapM_map_of_decodes fun _ _ => rfl
  have hnamespace (usual : String) : withDefault usual (field "namespace") (string? ·.1) =
      some o.namespaceName :=
    withDefault_eq (hfield "namespace")
  have hheader (usual : String) : withDefault usual (field "headerPath") (string? ·.1) =
      some o.headerPath :=
    withDefault_eq (hfield "headerPath")
  have hsource (usual : Option String) : withDefault usual (field "sourcePath")
      (fun p => nullable (some p) (string? ·.1)) = some o.sourcePath :=
    withDefault_nullable_string (hfield "sourcePath")
  have hincludes (usual : List String) : withDefault usual (field "includes")
      (listOf (string? ·.1)) = some o.includes :=
    (withDefault_list (hfield "includes")).trans (hstrings o.includes)
  have hbase (usual : String) : withDefault usual (field "baseHeader") (string? ·.1) =
      some o.baseHeader :=
    withDefault_eq (hfield "baseHeader")
  have hpass (usual : List String) : withDefault usual (field "passThroughEnums")
      (listOf (string? ·.1)) = some o.passThroughEnums :=
    (withDefault_list (hfield "passThroughEnums")).trans (hstrings o.passThroughEnums)
  have hbuiltins (usual : List Builtin) : withDefault usual (field "builtins")
      (listOf (Builtin.ofJson? ·.1)) = some o.builtins :=
    (withDefault_list (hfield "builtins")).trans (mapM_map_of_decodes fun b _ => b.ofJson?_toJson)
  simp only [hnamespace, hheader, hsource, hincludes, hbase, hpass, hbuiltins,
    Option.bind_eq_bind, Option.bind_some, Option.pure_def]

end ProtocolBindings

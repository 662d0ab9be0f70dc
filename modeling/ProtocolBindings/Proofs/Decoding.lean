import ProtocolBindings.Proofs.RoundTrip
import ProtocolBindings.Proofs.Shapes

namespace ProtocolBindings

open Shape (Fits)

theorem fits_optionalField {α : Type} {shapes : List (String × Shape)} {name : String}
    {shape : Shape} {encode : α → Json} (hs : shapes.lookup name = some (.orNull shape))
    (h : ∀ a, shape.Fits (encode a)) (value : Option α) :
    ∀ field ∈ optionalField name (value.map encode),
      ∃ shape, shapes.lookup field.1 = some shape ∧ shape.Fits field.2 := by
  cases value with
  | none => exact List.forall_mem_nil _
  | some a => exact List.forall_mem_singleton.mpr ⟨_, hs, .orNull (h a)⟩

theorem TypeSpec.exists_fields_toJson (t : TypeSpec) :
    ∃ fields, t.toJson = .object (("kind", .string t.kind.word) :: fields) ∧
      fields.map Prod.fst = t.kind.fieldNames := by
  cases t with
  | _ => exact ⟨_, by rw [TypeSpec.toJson]; rfl, rfl⟩

theorem TypeSpec.fits_toJson (t : TypeSpec) : TypeSpec.shape.Fits t.toJson := by
  have hdecodes := t.ofJson?_toJson false
  obtain ⟨fields, hfields, hkeys⟩ := t.exists_fields_toJson
  rw [hfields] at hdecodes ⊢
  refine .tagged trivial ?_ ?_ ?_
  · rw [TypeKind.ofJson?, t.kind.ofWord?_word, Option.isSome_some]
  · rw [hkeys]
    exact (List.nodup_cons.mp t.kind.nodup_fieldNames).1
  · rw [hdecodes, Option.isSome_some]

theorem Property.fits_toJson (p : Property) : Schema.propertyShape.Fits p.toJson := by
  obtain ⟨name, type, optional, documentation⟩ := p
  rw [Property.toJson]
  refine .ofFields ?_ (by decide) (by simp) ?_
  · exact keys_append (.refl _) (keys_optionalField _ _)
  · simp only [List.forall_mem_append, List.forall_mem_cons]
    exact ⟨⟨⟨_, rfl, .text name⟩, ⟨_, rfl, type.fits_toJson⟩, ⟨_, rfl, .flag optional⟩,
      List.forall_mem_nil _⟩, fits_optionalField rfl Fits.text documentation⟩

theorem Structure.fits_toJson (s : Structure) : Schema.structureShape.Fits s.toJson := by
  refine .ofFields ?_ (by decide) (by simp) ?_
  · exact keys_append (.refl _) (keys_optionalField _ _)
  · rw [Property.listToJson_eq_map, TypeSpec.listToJson_eq_map, TypeSpec.listToJson_eq_map]
    simp only [List.forall_mem_append, List.forall_mem_cons]
    exact ⟨⟨⟨_, rfl, .text s.name⟩, ⟨_, rfl, .list_map Property.fits_toJson s.properties⟩,
      ⟨_, rfl, .list_map TypeSpec.fits_toJson s.bases⟩,
      ⟨_, rfl, .list_map TypeSpec.fits_toJson s.mixins⟩, List.forall_mem_nil _⟩,
      fits_optionalField rfl Fits.text s.documentation⟩

theorem EnumValue.fits_toJson (v : EnumValue) : Schema.enumValueShape.Fits v.toJson := by
  have hvalue : (EnumLiteral.ofJson? v.value.toJson).isSome = true := by
    rw [v.value.ofJson?_toJson, Option.isSome_some]
  refine .ofFields ?_ (by decide) (by simp) ?_
  · exact keys_append (.refl _) (keys_optionalField _ _)
  · simp only [List.forall_mem_append, List.forall_mem_cons]
    exact ⟨⟨⟨_, rfl, .text v.name⟩, ⟨_, rfl, .whole hvalue⟩, List.forall_mem_nil _⟩,
      fits_optionalField rfl Fits.text v.documentation⟩

theorem Enumeration.fits_toJson (e : Enumeration) : Schema.enumerationShape.Fits e.toJson := by
  refine .ofFields ?_ (by decide) (by simp) ?_
  · exact keys_append (keys_append (keys_append (.refl _) (keys_optionalField _ _)) (.refl _))
      (keys_optionalField _ _)
  · simp only [List.forall_mem_append, List.forall_mem_cons]
    exact ⟨⟨⟨⟨⟨_, rfl, .text e.name⟩, List.forall_mem_nil _⟩,
      fits_optionalField rfl TypeSpec.fits_toJson e.type⟩,
      ⟨_, rfl, .list_map EnumValue.fits_toJson e.values⟩, ⟨_, rfl, .flag e.supportsCustomValues⟩,
      List.forall_mem_nil _⟩, fits_optionalField rfl Fits.text e.documentation⟩

theorem TypeAlias.fits_toJson (a : TypeAlias) : Schema.aliasShape.Fits a.toJson := by
  refine .ofFields ?_ (by decide) (by simp) ?_
  · exact keys_append (.refl _) (keys_optionalField _ _)
  · simp only [List.forall_mem_append, List.forall_mem_cons]
    exact ⟨⟨⟨_, rfl, .text a.name⟩, ⟨_, rfl, a.type.fits_toJson⟩, List.forall_mem_nil _⟩,
      fits_optionalField rfl Fits.text a.documentation⟩

theorem Schema.fits_toJson (s : Schema) : Schema.shape.Fits s.toJson := by
  have hmetaData (m : MetaData) : Fits (.record [("version", .text)] ["version"]) m.toJson := by
    refine .ofFields (.refl _) (by decide) (by simp) ?_
    exact List.forall_mem_singleton.mpr ⟨_, rfl, .text m.version⟩
  refine .ofFields ?_ (by decide) (List.forall_mem_nil _) ?_
  · exact keys_append (keys_optionalField _ _) (.refl _)
  · simp only [List.forall_mem_append, List.forall_mem_cons]
    exact ⟨fits_optionalField rfl hmetaData s.metaData,
      ⟨_, rfl, .list_map Structure.fits_toJson s.structures⟩,
      ⟨_, rfl, .list_map Enumeration.fits_toJson s.enumerations⟩,
      ⟨_, rfl, .list_map TypeAlias.fits_toJson s.aliases⟩, List.forall_mem_nil _⟩

theorem Options.fits_toJson (o : Options) : Options.shape.Fits o.toJson := by
  have hbuiltin (b : Builtin) :
      Fits (.record [("name", .text), ("definition", .text)] ["name", "definition"]) b.toJson := by
    refine .ofFields (.refl _) (by decide) (by simp) ?_
    simp only [List.forall_mem_cons]
    exact ⟨⟨_, rfl, .text b.name⟩, ⟨_, rfl, .text b.definition⟩, List.forall_mem_nil _⟩
  have hsource : Fits (.orNull .text) ((o.sourcePath.map .string).getD .null) := by
    cases o.sourcePath with
    | none => exact .null
    | some path => exact .orNull (.text path)
  refine .ofFields (.refl _) (by decide) (List.forall_mem_nil _) ?_
  simp only [List.forall_mem_cons]
  exact ⟨⟨_, rfl, .text o.namespaceName⟩, ⟨_, rfl, .text o.headerPath⟩, ⟨_, rfl, hsource⟩,
    ⟨_, rfl, .list_map .text o.includes⟩, ⟨_, rfl, .text o.baseHeader⟩,
    ⟨_, rfl, .list_map .text o.passThroughEnums⟩, ⟨_, rfl, .list_map hbuiltin o.builtins⟩,
    List.forall_mem_nil _⟩

/-- The text says the value, in containers that are not nested too deep. -/
def Json.WrittenAs (v : Json) (text : String) : Prop :=
  (Reading.ofText text).document.value Document.depthLimit = .ok v ∧
    (Reading.ofText text).trailing = none

instance (v : Json) (text : String) : Decidable (v.WrittenAs text) :=
  inferInstanceAs (Decidable (_ ∧ _))

theorem Shape.decode_of_fits {α : Type} {shape : Shape} {ofJson? : Json → Option α} {v : Json}
    {a : α} {text : String} (hf : shape.Fits v) (ha : ofJson? v = some a) (h : v.WrittenAs text) :
    shape.decode ofJson? text = .ok a := by
  have hselect := Document.select_of_fits hf h.1
  refine Except.bind_eq_ok.mpr ⟨v, hselect, ?_⟩
  rw [ha, h.2]
  rfl

def catalog : Schema where
  structures := [{
    name := "A"
    properties := [{ name := "b", type := .reference "C", optional := true }] }]
  enumerations := [{ name := "C", values := [{ name := "x", value := .integer 1 }] }]

def catalogText : String :=
  "\x7b\"structures\":[\x7b\"name\":\"A\",\"properties\":[\x7b\"name\":\"b\"," ++
    "\"type\":\x7b\"kind\":\"reference\",\"name\":\"C\"\x7d,\"optional\":true\x7d]," ++
    "\"extends\":[],\"mixins\":[]\x7d],\"enumerations\":[\x7b\"name\":\"C\"," ++
    "\"values\":[\x7b\"name\":\"x\",\"value\":1\x7d],\"supportsCustomValues\":false\x7d]," ++
    "\"typeAliases\":[]\x7d"

theorem writtenAs_catalogText : catalog.toJson.WrittenAs catalogText := by
  decide +kernel

/-- The JSON form of every model and of all options decodes to what was encoded, as a value and out
of any text for it. -/
theorem decoding_undoes_encoding :
    (∀ s : Schema, Schema.ofJson? s.toJson = some s ∧
      ∀ text, s.toJson.WrittenAs text → Schema.ofText text = .ok s) ∧
    ∀ o : Options, Options.ofJson? o.toJson = some o ∧
      ∀ text, o.toJson.WrittenAs text → Options.ofText text = .ok o := by
  constructor
  · intro s
    exact ⟨s.ofJson?_toJson, fun _ => Shape.decode_of_fits s.fits_toJson s.ofJson?_toJson⟩
  · intro o
    exact ⟨o.ofJson?_toJson, fun _ => Shape.decode_of_fits o.fits_toJson o.ofJson?_toJson⟩

theorem decoding_undoes_encoding_catalog :
    Schema.ofJson? catalog.toJson = some catalog ∧ catalog.toJson.WrittenAs catalogText ∧
      Schema.ofText catalogText = .ok catalog := by
  obtain ⟨hvalue, htext⟩ := decoding_undoes_encoding.1 catalog
  exact ⟨hvalue, writtenAs_catalogText, htext catalogText writtenAs_catalogText⟩

end ProtocolBindings

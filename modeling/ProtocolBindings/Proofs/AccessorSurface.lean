import ProtocolBindings.Proofs.Outlines

namespace ProtocolBindings

/-- A field with accessors, and its type without the option. -/
structure Slot where
  property : Property
  kind : ValueKind
  /-- The position among the fields with accessors. -/
  index : Nat
  type : CppType

namespace Slot

variable (slot : Slot)

def text : String := slot.type.spelling

def accessor : String := Text.escapeReserved slot.property.name

def child : String := "n_.find_child(" ++ Text.quote slot.property.name ++ ")"

def newChild : String :=
  "n_.append_child() << ryml::key(" ++ Text.quote slot.property.name ++ ")"

def value (node : String) : String :=
  match slot.kind with
  | .primitive => "detail::NodeAsPrimitive<" ++ slot.text ++ ">(" ++ node ++ ")"
  | .enumeration => "detail::DeserializeEnum<" ++ slot.text ++ ">(" ++ node ++ ")"
  | .union _ | .aggregate => slot.text ++ "(" ++ node ++ ")"
  | .placeholder => slot.text ++ "\x7b\x7d"

def getter : Method :=
  if slot.property.optional then
    { result := some ("std::optional<" ++ slot.text ++ ">")
      name := slot.accessor
      statements := ["auto c = " ++ slot.child ++ ";",
        "if (c.invalid()) \x7b return std::nullopt; \x7d", "return " ++ slot.value "c" ++ ";"] }
  else
    { result := some slot.text
      name := slot.accessor
      statements := ["return " ++ slot.value slot.child ++ ";"] }

def presence : Method where
  result := some "bool"
  name := "has_" ++ slot.accessor
  isConst := true
  statements := ["return n_.has_child(" ++ Text.quote slot.property.name ++ ");"]

def setter : Method where
  result := none
  name := "set_" ++ slot.accessor
  parameter := some slot.text
  statements := ["auto c = " ++ slot.child ++ ";",
    "if (c.invalid()) \x7b c = " ++ slot.newChild ++ "; \x7d",
    match slot.kind with
    | .enumeration => "detail::SerializeEnum(val, c);"
    | _ => "detail::SetPrimitive(c, val);"]

def adder : Method where
  result := some slot.text
  name := "add_" ++ slot.accessor
  statements := ["auto w = " ++ slot.text ++ "(" ++ slot.newChild ++ ");", "w.init();", "return w;"]

/-- A getter, a test for presence if the field is optional, a setter for what is written in place,
and for an optional field with storage of its own a function that adds it. -/
def methods : List Method :=
  slot.getter :: (if slot.property.optional then [slot.presence] else []) ++
    match slot.kind with
    | .primitive | .enumeration => [slot.setter]
    | .union _ | .aggregate => if slot.property.optional then [slot.adder] else []
    | .placeholder => []

def holdsUnion : Bool :=
  match slot.kind with
  | .union _ => true
  | _ => false

/-- Is the field mandatory, with storage of its own? -/
def isSetUp : Bool :=
  match slot.kind with
  | .union _ | .aggregate => !slot.property.optional
  | _ => false

def start : String :=
  slot.text ++ "(" ++ slot.newChild ++ ").init();"

/-- A mandatory field is added with the type that it is read with. -/
theorem result_getter {slot : Slot} (h : slot.isSetUp = true) :
    slot.getter.result = some slot.text := by
  have hoptional : slot.property.optional = false := by
    unfold isSetUp at h
    split at h
    · simpa using h
    · simpa using h
    · cases h
  rw [getter, hoptional]
  rfl

end Slot

def initializer (slots : List Slot) : Method where
  result := none
  name := "init"
  statements := "StructWrapper::init();" :: (slots.filter Slot.isSetUp).map Slot.start
  isBlock := true

theorem CppType.spelling_optional (type : CppType) :
    type.optional.spelling = "std::optional<" ++ type.spelling ++ ">" := by
  have hopen : "std::optional" ++ "<" = "std::optional<" := by decide
  rw [optional, spelling, spellings, spellings, String.intercalate_singleton, hopen]

open Fragment (Depicts depicts_nil depicts_blank depicts_gaps depicts_lineComments depicts_member)

namespace Field

variable (scope : String) (type : CppType) (property : Property) (kind : ValueKind) (index : Nat)

theorem ofMember_getter :
    Method.ofMember (.getter (if property.optional then type.optional else type)
        (accessor ⟨property, kind, index⟩))
        (.readField property.optional kind.access type property.name) =
      Slot.getter ⟨property, kind, index, type⟩ := by
  cases ho : property.optional with
  | true =>
    have hstatements : (Body.readField true kind.access type property.name).statements =
        ["auto c = " ++ Slot.child ⟨property, kind, index, type⟩ ++ ";",
          "if (c.invalid()) \x7b return std::nullopt; \x7d",
          "return " ++ Slot.value ⟨property, kind, index, type⟩ "c" ++ ";"] := by
      rw [Body.statements, type.text_eq_spelling]
      cases kind <;> rfl
    rw [Method.ofMember, hstatements, Slot.getter, ho, Signature.prototype, if_pos rfl, if_pos rfl]
    exact congrArg (Method.mk · _ _) (congrArg (Prototype.mk · _ _ _)
      (congrArg some type.spelling_optional))
  | false =>
    have hstatements : (Body.readField false kind.access type property.name).statements =
        ["return " ++ Slot.value ⟨property, kind, index, type⟩
          (Slot.child ⟨property, kind, index, type⟩) ++ ";"] := by
      rw [Body.statements, type.text_eq_spelling]
      cases kind <;> rfl
    rw [Method.ofMember, hstatements, Slot.getter, ho]
    rfl

theorem ofMember_adder :
    Method.ofMember (.adder type (accessor ⟨property, kind, index⟩))
        (.addField type property.name) = Slot.adder ⟨property, kind, index, type⟩ := by
  rw [Method.ofMember, Body.statements, type.text_eq_spelling]
  rfl

theorem depicts_when {ws : List Fragment} {method : Method}
    (h : Depicts scope ws [.method method]) (condition : Bool) :
    Depicts scope (if condition then ws else [])
      ((if condition then [method] else []).map .method) := by
  cases condition with
  | true => exact h
  | false => exact depicts_nil scope

theorem depicts_members :
    Depicts scope (members scope type ⟨property, kind, index⟩)
      ((Slot.methods ⟨property, kind, index, type⟩).map .method) := by
  have hgetter := depicts_member scope
    (.getter (if property.optional then type.optional else type) (accessor ⟨property, kind, index⟩))
    (.readField property.optional kind.access type property.name)
  have hpresence := depicts_when scope
    (depicts_member scope (.presence (accessor ⟨property, kind, index⟩)) (.testField property.name))
    property.optional
  have hadder := depicts_member scope (.adder type (accessor ⟨property, kind, index⟩))
    (.addField type property.name)
  rw [ofMember_getter] at hgetter
  rw [ofMember_adder] at hadder
  rw [Slot.methods, List.map_append]
  cases kind with
  | primitive => exact (hgetter.append hpresence).append (depicts_member scope _ _)
  | enumeration => exact (hgetter.append hpresence).append (depicts_member scope _ _)
  | union items =>
    exact (hgetter.append hpresence).append (depicts_when scope hadder property.optional)
  | aggregate =>
    exact (hgetter.append hpresence).append (depicts_when scope hadder property.optional)
  | placeholder => exact (hgetter.append hpresence).append (depicts_nil scope)

/-- Before a field stand comments and blank lines only. -/
theorem depicts_fieldComment :
    ∃ asides, Depicts scope (comment property index) asides ∧ Piece.methods asides = [] ∧
      Piece.classes asides = [] := by
  unfold comment
  split
  · next doc _ =>
    have hcomments := depicts_lineComments scope doc
    have hmethods : Piece.methods ((Text.lines doc).map fun line =>
        .comment (Text.afterMark line)) = [] :=
      List.filterMap_eq_nil_iff.mpr (by simp [Piece.method?])
    have hclasses : Piece.classes ((Text.lines doc).map fun line =>
        .comment (Text.afterMark line)) = [] :=
      List.filter_eq_nil_iff.mpr (by simp [Piece.isInner])
    split
    · exact ⟨_, hcomments, hmethods, hclasses⟩
    · exact ⟨_, (depicts_blank scope).append hcomments, hmethods, hclasses⟩
  · exact ⟨[], depicts_nil scope, rfl, rfl⟩

end Field

theorem Piece.methods_map_method (methods : List Method) :
    Piece.methods (methods.map .method) = methods := by
  rw [Piece.methods, List.filterMap_map]
  exact List.filterMap_some

theorem Piece.classes_map_method (methods : List Method) :
    Piece.classes (methods.map .method) = [] :=
  List.filter_eq_nil_iff.mpr (by simp [isInner])

theorem Piece.methods_map_gap (gaps : List Gap) : Piece.methods (gaps.map .gap) = [] :=
  List.filterMap_eq_nil_iff.mpr (by simp [method?])

theorem Piece.classes_map_gap (gaps : List Gap) : Piece.classes (gaps.map .gap) = [] :=
  List.filter_eq_nil_iff.mpr (by simp [isInner])

namespace Context

/-- The type of a slot of a known kind in class `scope`. A union has a class inside this one, named
by the position. -/
def slotType (scope owner : String) (index : Nat) (t : TypeSpec) :
    ValueKind → Except SchemaError CppType
  | .union _ => .ok (.nested scope ("Union" ++ toString index))
  | _ => (t.expression owner).result

/-- The slot of a property at its position among those with accessors in class `scope`. -/
structure SlotOf (ctx : Context) (scope : String) (place : Property × Nat) (slot : Slot) :
    Prop where
  property : slot.property = place.1
  index : slot.index = place.2
  kind : ctx.classify (scope ++ "." ++ place.1.name) place.1.type = .ok slot.kind
  type : slotType scope (scope ++ "." ++ place.1.name) place.2 place.1.type slot.kind =
    .ok slot.type

/-- The class of the union that a field holds. -/
def UnionOf (ctx : Context) (scope : String) (slot : Slot) (c : Piece) : Prop :=
  ∃ items, slot.kind = .union items ∧
    ctx.UnionOutline scope ("Union" ++ toString slot.index) items c

variable {ctx : Context} {scope : String} {taken : List String} {index : Nat}
  {property : Property} {properties : List Property} {ws : List Fragment} {kind : ValueKind}
  {setUp : List (CppType × String)} {type : CppType} {slots : List Slot}

/-- A property at a position has one slot. -/
theorem rightUnique_slotOf : Relator.RightUnique (ctx.SlotOf scope) := by
  rintro place ⟨_, kind, _, type⟩ ⟨_, kind', _, type'⟩ ⟨rfl, rfl, hk, ht⟩ ⟨rfl, rfl, hk', ht'⟩
  cases hk.symm.trans hk'
  cases ht.symm.trans ht'
  rfl

theorem FieldSlot.outline (h : ctx.FieldSlot scope index property kind type ws)
    (hk : ctx.classify (scope ++ "." ++ property.name) property.type = .ok kind) :
    ctx.SlotOf scope (property, index) ⟨property, kind, index, type⟩ ∧
      ∃ own, Depicts scope ws own ∧ Piece.methods own = [] ∧
        List.Forall₂ (ctx.UnionOf scope)
          ([⟨property, kind, index, type⟩].filter Slot.holdsUnion) (Piece.classes own) := by
  cases h with
  | @union items _ h =>
    obtain ⟨outline, hdepicts, houtline⟩ := h.outline
    refine ⟨⟨rfl, rfl, hk, rfl⟩, [outline], hdepicts, ?_, ?_⟩
    · cases houtline
      rfl
    · have hclass : Piece.classes [outline] = [outline] := by
        cases houtline
        rfl
      rw [hclass]
      exact .cons ⟨items, rfl, houtline⟩ .nil
  | plain hu h =>
    have hgaps := depicts_gaps scope
      (property.type.expression (scope ++ "." ++ property.name)).written
    refine ⟨⟨rfl, rfl, hk, ?_⟩, _, hgaps, Piece.methods_map_gap _, ?_⟩
    · cases kind with
      | union items => exact absurd rfl (hu items)
      | _ => exact h
    · rw [Piece.classes_map_gap]
      cases kind with
      | union items => exact absurd rfl (hu items)
      | _ => exact .nil

/-- The fields of a class: their slots, in order, have the functions of the class, and those that
hold a union have its classes. -/
structure FieldsOutline (ctx : Context) (scope : String) (places : List (Property × Nat))
    (slots : List Slot) (content : List Piece) : Prop where
  fields : List.Forall₂ (ctx.SlotOf scope) places slots
  functions : Piece.methods content = slots.flatMap Slot.methods
  unions : List.Forall₂ (ctx.UnionOf scope) (slots.filter Slot.holdsUnion) (Piece.classes content)

theorem FieldBlocks.outline (h : ctx.FieldBlocks scope taken index properties ws setUp) :
    ∃ slots content, Depicts scope ws content ∧
      ctx.FieldsOutline scope ((properties.filter Property.isRetained).zipIdx index) slots content ∧
      setUp = (slots.filter Slot.isSetUp).map fun slot => (slot.type, slot.property.name) := by
  induction h with
  | nil => exact ⟨[], [], depicts_nil scope, ⟨.nil, rfl, .nil⟩, rfl⟩
  | @skipped _ _ property value _ _ _ ht _ ih =>
    obtain ⟨slots, content, hdepicts, houtline, hsetUp⟩ := ih
    have hskipped : ¬ property.isRetained = true := by simp [Property.isRetained, ht]
    have hgap := depicts_gaps scope [⟨scope ++ "." ++ property.name, .stringLiteral⟩]
    rw [List.filter_cons_of_neg hskipped]
    exact ⟨slots, _, hgap.append hdepicts, ⟨houtline.fields, houtline.functions, houtline.unions⟩,
      hsetUp⟩
  | @cons _ _ index property _ kind type _ _ _ ht hk _ slot _ ih =>
    obtain ⟨hslot, own, hown, hnone, hunion⟩ := slot.outline hk
    obtain ⟨slots, content, hdepicts, houtline, rfl⟩ := ih
    obtain ⟨asides, hasides, hmethods, hclasses⟩ :=
      Field.depicts_fieldComment scope property index
    have hmembers := Field.depicts_members scope type property kind index
    refine ⟨⟨property, kind, index, type⟩ :: slots, _,
      ((hasides.append hown).append hmembers).append hdepicts, ⟨?_, ?_, ?_⟩, ?_⟩
    · rw [List.filter_cons_of_pos (isRetained_of_ne ht), List.zipIdx_cons]
      exact .cons hslot houtline.fields
    · simp only [Piece.methods_append, hmethods, hnone, Piece.methods_map_method,
        houtline.functions, List.nil_append, List.flatMap_cons]
    · simp only [Piece.classes_append, hclasses, Piece.classes_map_method, List.nil_append,
        List.append_nil]
      rw [← List.singleton_append, List.filter_append]
      exact List.rel_append hunion houtline.unions
    · have hstart : Field.isSetUp { property, kind, index } =
          Slot.isSetUp ⟨property, kind, index, type⟩ := by
        cases kind <;> simp [Field.isSetUp, Slot.isSetUp, ValueKind.isAggregate]
      rw [List.filter_cons, hstart]
      split
      · rfl
      · rfl

theorem ofMember_initializer (slots : List Slot) :
    Method.ofMember .initializer (.setUp ((slots.filter Slot.isSetUp).map fun slot =>
      (slot.type, slot.property.name))) = initializer slots := by
  have hstarts : ∀ slot ∈ slots.filter Slot.isSetUp,
      slot.type.text ++ "(" ++ Body.append slot.property.name ++ ").init();" = slot.start := by
    intro slot _
    rw [slot.type.text_eq_spelling]
    rfl
  rw [Method.ofMember, Body.statements, List.map_map]
  exact congrArg (fun lines => Method.mk _ ("StructWrapper::init();" :: lines) true)
    (List.map_congr_left hstarts)

def classOf (s : Structure) (slots : List Slot) (inner : List Piece) : Piece :=
  .inner s.name none (inner ++ [.blank, .method (initializer slots)])

variable {s : Structure}

theorem outline_structureDraft (h : (ctx.structureDraft s).Ends ws ()) :
    ∃ properties slots inner, ctx.schema.flatten s = .ok properties ∧
      ctx.FieldsOutline s.name (properties.filter Property.isRetained).zipIdx slots inner ∧
      (Fragment.header .empty ws).lines.toList =
        s.documentation.elim [] Text.blockComment ++ (classOf s slots inner).headerLines ∧
      (Fragment.source .empty ws).lines.toList = (classOf s slots inner).sourceLines "" ∧
      Fragment.gaps ws = (classOf s slots inner).gaps := by
  obtain ⟨properties, _, _, hp, hfields, rfl⟩ := fieldBlocks_of_structureDraft h
  obtain ⟨slots, inner, hinner, houtline, rfl⟩ := hfields.outline
  have hinitializer := depicts_member s.name .initializer
    (.setUp ((slots.filter Slot.isSetUp).map fun slot => (slot.type, slot.property.name)))
  rw [ofMember_initializer] at hinitializer
  have hcontent : Depicts (qualified "" s.name) _ _ :=
    hinner.append ((depicts_blank s.name).append hinitializer)
  exact ⟨properties, slots, inner, hp, houtline, (hcontent.inClass .struct).documented _⟩

/-- The class of a structure has the functions of its retained fields, in the order of these, and
the initializer; a class inside it for every field that holds a union, named by position; and an
initializer that sets up the mandatory fields of unions and other aggregates, in the same order and
with the types that they are read with. This is what the header and the implementation consist of,
line by line. -/
theorem structure_has_accessor_surface {entry : Entry}
    (h : (ctx.structureEntry s).result = .ok entry) :
    ∃ properties slots inner,
      ctx.schema.flatten s = .ok properties ∧
      ctx.FieldsOutline s.name (properties.filter Property.isRetained).zipIdx slots inner ∧
      entry.header.lines.toList =
        s.documentation.elim [] Text.blockComment ++ (classOf s slots inner).headerLines ∧
      entry.implementation.lines.toList = (classOf s slots inner).sourceLines "" ∧
      (∃ before,
        entry.implementation.lines.toList = before ++ (initializer slots).definition s.name) ∧
      ∀ slot ∈ slots, slot.isSetUp = true → slot.getter.result = some slot.text := by
  obtain ⟨_, hresult, rfl⟩ := Except.map_eq_ok.mp h
  obtain ⟨properties, slots, inner, hp, houtline, hheader, hsource, _⟩ :=
    outline_structureDraft ⟨rfl, hresult⟩
  refine ⟨properties, slots, inner, hp, houtline, hheader, hsource, ?_,
    fun slot _ => Slot.result_getter⟩
  refine ⟨Piece.sourceLinesAll s.name inner, hsource.trans ?_⟩
  show Piece.sourceLinesAll s.name (inner ++ _) = _
  rw [Piece.sourceLinesAll_append]
  exact congrArg (_ ++ ·) (List.append_nil _)

/-- A structure with a field that is left out, one that holds a union through an alias, and one of
each kind besides; two of them are inherited. -/
def panel : Structure where
  name := "Panel"
  bases := [.reference "Widget"]
  properties := [
    { name := "kind", type := .stringLiteral "panel" },
    { name := "title", type := .reference "Label" },
    { name := "default", type := .literal [], optional := true },
    { name := "parts", type := .array (.reference "Widget"), optional := true }]

def widgets : Context where
  options := {}
  schema := {
    structures := [panel, {
      name := "Widget"
      properties := [
        { name := "tone", type := .reference "Tone", optional := true },
        { name := "frame", type := .map (.base "string") (.reference "Widget") }] }]
    enumerations := [{ name := "Tone", values := [{ name := "Dark", value := .string "dark" }] }]
    aliases := [{ name := "Label", type := .or [.base "string", .array (.base "string")] }] }

theorem structure_has_accessor_surface_panel :
    ∃ entry properties slots inner,
      (widgets.structureEntry panel).result = .ok entry ∧
      widgets.schema.flatten panel = .ok properties ∧
      widgets.FieldsOutline "Panel" (properties.filter Property.isRetained).zipIdx slots inner ∧
      entry.header.lines.toList = (classOf panel slots inner).headerLines ∧
      entry.header.lines.toList =
        ["struct Panel : detail::StructWrapper \x7b",
          "  using StructWrapper::StructWrapper;",
          "",
          "  struct Union0 : detail::UnionStructWrapper<std::string_view, " ++
            "std::vector<std::string_view>> \x7b",
          "    using UnionStructWrapper::UnionStructWrapper;",
          "",
          "    [[nodiscard]] bool holds_string() const;",
          "    [[nodiscard]] std::string_view as_string();",
          "    void set_string(std::string_view val);",
          "",
          "    [[nodiscard]] bool holds_array_string() const;",
          "    [[nodiscard]] std::vector<std::string_view> as_array_string();",
          "",
          "  \x7d;",
          "",
          "  [[nodiscard]] Panel::Union0 title();",
          "  [[nodiscard]] std::optional<LiteralStub> default_();",
          "  [[nodiscard]] bool has_default_() const;",
          "  [[nodiscard]] std::optional<std::vector<Widget>> parts();",
          "  [[nodiscard]] bool has_parts() const;",
          "  [[nodiscard]] std::vector<Widget> add_parts();",
          "  [[nodiscard]] std::optional<Tone> tone();",
          "  [[nodiscard]] bool has_tone() const;",
          "  void set_tone(Tone val);",
          "  [[nodiscard]] std::unordered_map<std::string_view, Widget> frame();",
          "",
          "  void init();",
          "\x7d;",
          ""] ∧
      entry.implementation.lines.toList = (classOf panel slots inner).sourceLines "" ∧
      entry.implementation.lines.toList.drop 15 =
        ["void Panel::init() \x7b",
          "  StructWrapper::init();",
          "  Panel::Union0(n_.append_child() << ryml::key(\"title\")).init();",
          "  std::unordered_map<std::string_view, Widget>(n_.append_child() << " ++
            "ryml::key(\"frame\")).init();",
          "\x7d",
          ""] := by
  have hdraft : (widgets.structureDraft panel).result = .ok () := by decide +kernel
  have hentry : (widgets.structureEntry panel).result = .ok _ :=
    Except.map_eq_ok.mpr ⟨(), hdraft, rfl⟩
  obtain ⟨properties, slots, inner, hp, houtline, hheader, hsource, _⟩ :=
    structure_has_accessor_surface hentry
  exact ⟨_, properties, slots, inner, hentry, hp, houtline, hheader, by decide +kernel, hsource,
    by decide +kernel⟩

end Context

end ProtocolBindings

import ProtocolBindings.Proofs.AccessorSurface

namespace ProtocolBindings

def scopeName (path : List String) : String :=
  path.foldl qualified ""

theorem scopeName_concat (path : List String) (name : String) :
    scopeName (path ++ [name]) = qualified (scopeName path) name :=
  List.foldl_append

/-- The lines of a header, read as declarations: the functions in their order, each with the classes
around it. -/
inductive Declares : List String → List (List String × Prototype) → Prop
  | nil : Declares [] []
  | blank {lines : List String} {declared : List (List String × Prototype)}
    (rest : Declares lines declared) : Declares ("" :: lines) declared
  | comment (text : String) {lines : List String} {declared : List (List String × Prototype)}
    (rest : Declares lines declared) : Declares (("//" ++ text) :: lines) declared
  | documentation (texts : List String) {lines : List String}
    {declared : List (List String × Prototype)} (rest : Declares lines declared) :
    Declares ("/**" :: (texts.map (" *" ++ ·) ++ " */" :: lines)) declared
  | function (p : Prototype) {lines : List String} {declared : List (List String × Prototype)}
    (rest : Declares lines declared) : Declares (p.declaration :: lines) (([], p) :: declared)
  | inner (name : String) (alternatives : Option (List String)) {content lines : List String}
    {inside declared : List (List String × Prototype)} (h : Declares content inside)
    (rest : Declares lines declared) :
    Declares (Piece.opening name alternatives ++ content.map (Text.indented 1) ++ "\x7d;" :: lines)
      (inside.map (fun d => (name :: d.1, d.2)) ++ declared)

/-- The lines of an implementation, read as definitions. What a function does is not looked at. -/
inductive Defines : List String → List Prototype → Prop
  | nil : Defines [] []
  | line (p : Prototype) (body : String) {lines : List String} {defined : List Prototype}
    (rest : Defines lines defined) :
    Defines ((p.heading ++ " \x7b " ++ body ++ " \x7d") :: lines) (p :: defined)
  | block (p : Prototype) (body : List String) {lines : List String} {defined : List Prototype}
    (rest : Defines lines defined) :
    Defines ((p.heading ++ " \x7b") :: (body.map (Text.indented 1) ++ "\x7d" :: "" :: lines))
      (p :: defined)

namespace Piece

mutual

def declared : Piece → List (List String × Prototype)
  | .gap _ | .comment _ | .blank => []
  | .method m => [([], m.toPrototype)]
  | .inner name _ content => (declaredAll content).map fun d => (name :: d.1, d.2)

def declaredAll : List Piece → List (List String × Prototype)
  | [] => []
  | piece :: pieces => piece.declared ++ declaredAll pieces

end

mutual

theorem declares_append {lines : List String} {after : List (List String × Prototype)}
    (rest : Declares lines after) : (piece : Piece) →
      Declares (piece.headerLines ++ lines) (piece.declared ++ after)
  | .gap _ => rest
  | .comment text => .comment text rest
  | .blank => .blank rest
  | .method m => .function m.toPrototype rest
  | .inner name alternatives content => by
    have hcontent := declaresAll_append .nil content
    rw [List.append_nil, List.append_nil] at hcontent
    have hclass := Declares.inner name alternatives hcontent (.blank rest)
    rw [headerLines, List.append_assoc]
    exact hclass

theorem declaresAll_append {lines : List String} {after : List (List String × Prototype)}
    (rest : Declares lines after) : (pieces : List Piece) →
      Declares (headerLinesAll pieces ++ lines) (declaredAll pieces ++ after)
  | [] => rest
  | piece :: pieces => by
    have hpieces := declares_append (declaresAll_append rest pieces) piece
    rwa [← List.append_assoc, ← List.append_assoc] at hpieces

end

end Piece

/-- The function declared inside of some classes, as it is defined outside of them. -/
def Prototype.definedIn (path : List String) (d : List String × Prototype) : Prototype :=
  d.2.within (scopeName (path ++ d.1))

theorem Method.defines_append (scope : String) (m : Method) {lines : List String}
    {after : List Prototype} (rest : Defines lines after) :
    Defines (m.definition scope ++ lines) (m.toPrototype.within scope :: after) := by
  unfold definition
  split
  · rw [List.cons_append, List.append_assoc]
    exact .block _ m.statements rest
  · exact .line _ _ rest

namespace Piece

mutual

theorem defines_append (path : List String) {lines : List String} {after : List Prototype}
    (rest : Defines lines after) : (piece : Piece) →
      Defines (piece.sourceLines (scopeName path) ++ lines)
        (piece.declared.map (Prototype.definedIn path) ++ after)
  | .gap _ | .comment _ | .blank => rest
  | .method m => by
    rw [declared, List.map_singleton, Prototype.definedIn, List.append_nil]
    exact m.defines_append (scopeName path) rest
  | .inner name alternatives content => by
    have hcontent := definesAll_append (path ++ [name]) rest content
    have hpath : Prototype.definedIn path ∘ (fun d => (name :: d.1, d.2)) =
        Prototype.definedIn (path ++ [name]) := by
      funext d
      rw [Function.comp_apply, Prototype.definedIn, Prototype.definedIn, List.append_cons]
    rw [declared, List.map_map, hpath, sourceLines, ← scopeName_concat]
    exact hcontent

theorem definesAll_append (path : List String) {lines : List String} {after : List Prototype}
    (rest : Defines lines after) : (pieces : List Piece) →
      Defines (sourceLinesAll (scopeName path) pieces ++ lines)
        ((declaredAll pieces).map (Prototype.definedIn path) ++ after)
  | [] => rest
  | piece :: pieces => by
    have hpieces := defines_append path (definesAll_append path rest pieces) piece
    rwa [← List.append_assoc, ← List.append_assoc, ← List.map_append] at hpieces

end

end Piece

theorem declares_documentation (documentation : Option String) {lines : List String}
    {declared : List (List String × Prototype)} (rest : Declares lines declared) :
    Declares (documentation.elim [] Text.blockComment ++ lines) declared := by
  cases documentation with
  | none => exact rest
  | some doc =>
    have hlines : (Text.lines doc).map (Text.commentLine " *") =
        ((Text.lines doc).map Text.afterMark).map (" *" ++ ·) := by
      rw [List.map_map]
      exact List.map_congr_left fun line _ => Text.commentLine_eq " *" line
    have hdocumentation := Declares.documentation ((Text.lines doc).map Text.afterMark) rest
    rw [← hlines] at hdocumentation
    rw [Option.elim_some, Text.blockComment, List.cons_append, List.append_assoc]
    exact hdocumentation

namespace Context

variable {ctx : Context}

/-- The functions that the header of a structure declares, with the classes around them, are those
that its implementation defines: in the same order, each with the same result, parameter and
constness, and under the name that is qualified by its classes. -/
theorem definitions_meet_declarations {s : Structure} {entry : Entry}
    (h : (ctx.structureEntry s).result = .ok entry) :
    ∃ properties slots inner, ctx.schema.flatten s = .ok properties ∧
      ctx.FieldsOutline s.name (properties.filter Property.isRetained).zipIdx slots inner ∧
      Declares entry.header.lines.toList (classOf s slots inner).declared ∧
      Defines entry.implementation.lines.toList
        ((classOf s slots inner).declared.map fun d => d.2.within (scopeName d.1)) := by
  obtain ⟨_, hresult, rfl⟩ := Except.map_eq_ok.mp h
  obtain ⟨properties, slots, inner, hp, houtline, hheader, hsource, _⟩ :=
    outline_structureDraft ⟨rfl, hresult⟩
  refine ⟨properties, slots, inner, hp, houtline, ?_, ?_⟩
  · have hdeclares := Piece.declares_append .nil (classOf s slots inner)
    rw [List.append_nil, List.append_nil] at hdeclares
    exact hheader ▸ declares_documentation s.documentation hdeclares
  · have hdefines := Piece.defines_append [] .nil (classOf s slots inner)
    rw [List.append_nil, List.append_nil] at hdefines
    exact hsource ▸ hdefines

def gauge : Structure where
  name := "Gauge"
  documentation := some "A level."
  properties := [{
    name := "level"
    type := .or [.base "integer", .or [.base "string", .array (.reference "Gauge")]]
    optional := true }]

def meters : Context where
  options := {}
  schema := { structures := [gauge] }

theorem definitions_meet_declarations_gauge :
    ∃ entry declared, (meters.structureEntry gauge).result = .ok entry ∧
      (entry.header.lines.toList.drop 13).take 12 =
        ["    struct Union1 : " ++
            "detail::UnionStructWrapper<std::string_view, std::vector<Gauge>> \x7b",
          "      using UnionStructWrapper::UnionStructWrapper;",
          "",
          "      [[nodiscard]] bool holds_string() const;",
          "      [[nodiscard]] std::string_view as_string();",
          "      void set_string(std::string_view val);",
          "",
          "      [[nodiscard]] bool holds_array_Gauge() const;",
          "      [[nodiscard]] std::vector<Gauge> as_array_Gauge();",
          "",
          "    \x7d;",
          ""] ∧
      (entry.implementation.lines.toList.drop 3).take 5 =
        ["bool Gauge::Union0::Union1::holds_string() const " ++
            "\x7b return detail::NodeHolds<std::string_view>(n_); \x7d",
          "std::string_view Gauge::Union0::Union1::as_string() " ++
            "\x7b return detail::NodeAsPrimitive<std::string_view>(n_); \x7d",
          "void Gauge::Union0::Union1::set_string(std::string_view val) " ++
            "\x7b detail::SetPrimitive(n_, val); \x7d",
          "bool Gauge::Union0::Union1::holds_array_Gauge() const " ++
            "\x7b return detail::NodeHolds<std::vector<Gauge>>(n_); \x7d",
          "std::vector<Gauge> Gauge::Union0::Union1::as_array_Gauge() " ++
            "\x7b return \x7bn_\x7d; \x7d"] ∧
      Declares entry.header.lines.toList declared ∧
      Defines entry.implementation.lines.toList
        (declared.map fun d => d.2.within (scopeName d.1)) := by
  have hdraft : (meters.structureDraft gauge).result = .ok () := by decide +kernel
  have hentry : (meters.structureEntry gauge).result = .ok _ :=
    Except.map_eq_ok.mpr ⟨(), hdraft, rfl⟩
  obtain ⟨properties, slots, inner, _, _, hdeclares, hdefines⟩ :=
    definitions_meet_declarations hentry
  exact ⟨_, _, hentry, by decide +kernel, by decide +kernel, hdeclares, hdefines⟩

end Context

end ProtocolBindings

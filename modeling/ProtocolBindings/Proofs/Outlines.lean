import ProtocolBindings.Proofs.Depictions
import ProtocolBindings.Proofs.MemberNames

namespace ProtocolBindings

def holdsMethod (label type : String) : Method where
  result := some "bool"
  name := "holds_" ++ label
  isConst := true
  statements := ["return detail::NodeHolds<" ++ type ++ ">(n_);"]

def asMethod (label type statement : String) : Method where
  result := some type
  name := "as_" ++ label
  statements := [statement]

def setMethod (label type : String) : Method where
  result := none
  name := "set_" ++ label
  parameter := some type
  statements := ["detail::SetPrimitive(n_, val);"]

/-- The accessors of an alternative; only a primitive one has a setter. -/
def alternativeMethods (label type statement : String) : ValueKind → List Method
  | .primitive => [holdsMethod label type, asMethod label type statement, setMethod label type]
  | _ => [holdsMethod label type, asMethod label type statement]

/-- How an alternative that is no union is read. There is no value for a map. -/
def readingStatement (t : TypeSpec) (type : String) (kind : ValueKind) : String :=
  match t, kind with
  | .map _ _, _ => "return \x7b\x7d;"
  | _, .primitive => "return detail::NodeAsPrimitive<" ++ type ++ ">(n_);"
  | _, .enumeration => "return detail::DeserializeEnum<" ++ type ++ ">(n_);"
  | _, .placeholder => "return LiteralStub\x7b\x7d;"
  | _, _ => "return \x7bn_\x7d;"

/-- The gaps of an alternative that has accessors: those in its type, and one for a map, which
cannot be read. -/
def alternativeGaps (scope : String) (t : TypeSpec) : List Gap :=
  match t with
  | .map _ _ => ⟨scope, .mapInUnion⟩ :: (t.expression scope).written
  | _ => (t.expression scope).written

inductive TypeSpec.LeftOut : TypeSpec → GapKind → Prop
  | literal {properties : List Property} : LeftOut (.literal properties) .literalInUnion
  | stringLiteral {value : String} : LeftOut (.stringLiteral value) .literalInUnion
  | tuple {items : List TypeSpec} : LeftOut (.tuple items) .tupleInUnion

theorem leftOut_iff {t : TypeSpec} {gap : GapKind} :
    t.LeftOut gap ↔ skippedAlternative t = some gap := by
  constructor
  · rintro (_ | _ | _) <;> rfl
  · intro h
    unfold skippedAlternative at h
    split at h
    · cases h
      exact .literal
    · cases h
      exact .stringLiteral
    · cases h
      exact .tuple
    · cases h

theorem not_leftOut {t : TypeSpec} (h : skippedAlternative t = none) (gap : GapKind) :
    ¬ t.LeftOut gap := by
  rw [leftOut_iff, h]
  exact (Option.some_ne_none gap).symm

namespace Context

/-- What an alternative of the union `scope` has in its class, and the label of its accessors. Where
it is a union itself, `Nested` tells what the class of that looks like. -/
inductive Share (ctx : Context) (Nested : String → String → List TypeSpec → Piece → Prop) :
    Option String → String → Nat → TypeSpec → List Piece → Prop
  | leftOut {scope : String} {index : Nat} {t : TypeSpec} {gap : GapKind} (h : t.LeftOut gap) :
    Share ctx Nested none scope index t [.gap ⟨scope, gap⟩]
  | plain {scope : String} {index : Nat} {t : TypeSpec} {kind : ValueKind} {type : CppType}
    (hs : ∀ gap, ¬ t.LeftOut gap) (hk : ctx.classify scope t = .ok kind)
    (hu : ∀ items, kind ≠ .union items) (ht : (t.expression scope).result = .ok type) :
    Share ctx Nested (some (accessorLabel index kind t)) scope index t
      ((alternativeGaps scope t).map .gap ++
        ((alternativeMethods (accessorLabel index kind t) type.spelling
          (readingStatement t type.spelling kind) kind).map .method ++ [.blank]))
  | union {scope : String} {index : Nat} {t : TypeSpec} {items : List TypeSpec} {nested : Piece}
    (hs : ∀ gap, ¬ t.LeftOut gap) (hk : ctx.classify scope t = .ok (.union items))
    (h : Nested scope ("Union" ++ toString index) items nested) :
    Share ctx Nested (some (accessorLabel index (.union items) t)) scope index t
      (nested :: ((alternativeMethods (accessorLabel index (.union items) t)
        (scope ++ "::" ++ ("Union" ++ toString index)) "return \x7bn_\x7d;" (.union items)).map
        .method ++ [.blank]))

/-- The shares of alternatives of the union `scope` from a position on, and their labels. -/
inductive Shares (ctx : Context) (Nested : String → String → List TypeSpec → Piece → Prop) :
    Nat → String → List TypeSpec → List String → List Piece → Prop
  | nil {scope : String} {index : Nat} : Shares ctx Nested index scope [] [] []
  | cons {scope : String} {index : Nat} {t : TypeSpec} {items : List TypeSpec}
    {label? : Option String} {labels : List String} {own content : List Piece}
    (first : ctx.Share Nested label? scope index t own)
    (rest : Shares ctx Nested (index + 1) scope items labels content) :
    Shares ctx Nested index scope (t :: items) (label?.toList ++ labels) (own ++ content)

/-- The class of the union `name` in `scope` holds the shares of all its alternatives, and nothing
else. Its labels are identifiers, no two of them alike. -/
inductive UnionOutline (ctx : Context) : String → String → List TypeSpec → Piece → Prop
  | intro {scope name : String} {items : List TypeSpec} {types : List CppType}
    {labels : List String} {content : List Piece}
    (ht : List.Forall₂ (fun t type => (t.expression (qualified scope name)).result = .ok type)
      items types)
    (h : ctx.Shares (UnionOutline ctx) 0 (qualified scope name) items labels content)
    (hi : ∀ label ∈ labels, Text.isIdentifier label = true) (hd : labels.Nodup) :
    UnionOutline ctx scope name items (.inner name (some (CppType.spellings types)) content)

theorem UnionOutline.induct {ctx : Context}
    {motive : String → String → List TypeSpec → Piece → Prop}
    (intro : ∀ scope name items types labels content,
      ctx.Shares motive 0 (qualified scope name) items labels content →
      motive scope name items (.inner name types content))
    {scope name : String} {items : List TypeSpec} {piece : Piece}
    (h : ctx.UnionOutline scope name items piece) : motive scope name items piece :=
  @UnionOutline.rec ctx (fun scope name items piece _ => motive scope name items piece)
    (fun index scope items labels content _ =>
      ctx.Shares motive index scope items labels content)
    (fun label? scope index t own _ => ctx.Share motive label? scope index t own)
    (fun _ _ _ _ ih => intro _ _ _ _ _ _ ih) .nil (fun _ _ first rest => .cons first rest)
    .leftOut .plain (fun hs hk _ ih => .union hs hk ih) scope name items piece h

end Context

open Fragment (Depicts depicts_nil depicts_blank depicts_gaps depicts_member)

/-- A value in a statement, with the fixed texts around it taken together. -/
theorem return_call_eq {opening closing before after : String} (type : String)
    (ho : "return " ++ before = opening) (hc : after ++ "n_" ++ ")" ++ ";" = closing) :
    "return " ++ (before ++ type ++ after ++ "n_" ++ ")") ++ ";" = opening ++ type ++ closing := by
  have hassoc (a b c d e f g : String) :
      a ++ (b ++ c ++ d ++ e ++ f) ++ g = a ++ b ++ c ++ (d ++ e ++ f ++ g) := by
    simp only [String.append_assoc]
  exact (hassoc ..).trans (congrArg₂ (· ++ type ++ ·) ho hc)

theorem statements_readAlternative {t : TypeSpec} {kind : ValueKind}
    (ht : ∀ key value, t ≠ .map key value) (type : CppType) :
    (Body.readAlternative kind.access type).statements =
      [readingStatement t type.spelling kind] := by
  have hread : readingStatement t type.spelling kind =
      readingStatement .null type.spelling kind := by
    cases t with
    | map key value => exact absurd rfl (ht key value)
    | _ => cases kind <;> rfl
  rw [hread, ← type.text_eq_spelling]
  cases kind with
  | primitive => exact congrArg (fun s => [s]) (return_call_eq type.text (by decide) (by decide))
  | enumeration => exact congrArg (fun s => [s]) (return_call_eq type.text (by decide) (by decide))
  | _ => rfl

theorem depicts_alternativeMembers (scope label : String) (type : CppType) (kind : ValueKind)
    {reading : Body} {statement : String} (hs : reading.statements = [statement])
    (hb : reading.isSetUp = false) :
    Depicts scope (alternativeMembers scope label type kind reading)
      ((alternativeMethods label type.spelling statement kind).map .method ++ [.blank]) := by
  have hholds : Method.ofMember (.holds label) (.testAlternative type) =
      holdsMethod label type.spelling := by
    rw [← type.text_eq_spelling]
    rfl
  have hreads : Method.ofMember (.readAs type label) reading =
      asMethod label type.spelling statement := by
    rw [Method.ofMember, hs, hb]
    rfl
  have hpair := (depicts_member scope (.holds label) (.testAlternative type)).append
    (depicts_member scope (.readAs type label) reading)
  rw [hholds, hreads] at hpair
  cases kind with
  | primitive =>
    exact (hpair.append (depicts_member scope (.setter type label) .writeAlternative)).append
      (depicts_blank scope)
  | _ => exact (hpair.append (depicts_nil scope)).append (depicts_blank scope)

theorem inversion_plainAlternative {scope : String} {kind : ValueKind} {t : TypeSpec}
    {type : CppType} {reading : Body}
    (h : (plainAlternative scope kind t).result = .ok (type, reading)) :
    (t.expression scope).result = .ok type ∧ reading.isSetUp = false ∧
      reading.statements = [readingStatement t type.spelling kind] ∧
      (plainAlternative scope kind t).written = (alternativeGaps scope t).map .gap := by
  obtain ⟨ht, _⟩ := result_plainAlternative h
  have hgaps : ((t.expression scope).mapWritten Fragment.gap).result = .ok type := ht
  refine ⟨ht, ?_⟩
  cases t with
  | map key value =>
    rw [plainAlternative, Draft.bind_of_ok rfl, Draft.bind_of_ok hgaps] at h ⊢
    cases h
    exact ⟨rfl, rfl, congrArg _ (List.append_nil _)⟩
  | _ =>
    rw [plainAlternative, Draft.bind_of_ok hgaps] at h ⊢
    · cases h
      refine ⟨rfl, statements_readAlternative ?_ type, List.append_nil _⟩
      intro _ _ he
      cases he
    all_goals
      intro _ _ he
      cases he

namespace Context

variable {ctx : Context}

/-- A class that these fragments show is outlined by the alternatives of the union. -/
def OutlinesUnion (ctx : Context) (scope name : String) (items : List TypeSpec)
    (ws : List Fragment) : Prop :=
  ∃ union, Depicts scope ws [union] ∧ ctx.UnionOutline scope name items union

theorem AlternativeBlock.outline {scope : String} {index : Nat} {t : TypeSpec}
    {label? : Option String} {ws : List Fragment}
    (h : ctx.AlternativeBlock ctx.OutlinesUnion label? scope index t ws) :
    ∃ own, Depicts scope ws own ∧ ctx.Share ctx.UnionOutline label? scope index t own := by
  cases h with
  | skipped hs => exact ⟨_, depicts_gaps scope [_], .leftOut (leftOut_iff.mpr hs)⟩
  | nested hs hk h =>
    obtain ⟨nested, hdepicts, ha⟩ := h
    exact ⟨_, hdepicts.append (depicts_alternativeMembers scope _ _ _ rfl rfl),
      .union (not_leftOut hs) hk ha⟩
  | plain hs hk hu h =>
    obtain ⟨ht, hb, hstatements, hw⟩ := inversion_plainAlternative h
    have hgaps := depicts_gaps scope (alternativeGaps scope t)
    rw [← hw] at hgaps
    exact ⟨_, hgaps.append (depicts_alternativeMembers scope _ _ _ hstatements hb),
      .plain (not_leftOut hs) hk hu ht⟩

/-- Labels are told from those in use before, and so from each other. -/
theorem AlternativeBlocks.outline {scope : String} {index : Nat} {used : List String}
    {items : List TypeSpec} {ws : List Fragment}
    (h : ctx.AlternativeBlocks ctx.OutlinesUnion index scope used items ws) :
    ∃ labels content, Depicts scope ws content ∧
      ctx.Shares ctx.UnionOutline index scope items labels content ∧
      (∀ label ∈ labels, Text.isIdentifier label = true) ∧ Fresh used labels := by
  induction h with
  | nil => exact ⟨[], [], depicts_nil _, .nil, List.forall_mem_nil _, fresh_nil _⟩
  | cons hl first _ ih =>
    obtain ⟨own, hown, hfirst⟩ := first.outline
    obtain ⟨labels, content, hcontent, hrest, hi, hf⟩ := ih
    refine ⟨_, _, hown.append hcontent, .cons hfirst hrest, ?_, ?_⟩
    · refine List.forall_mem_append.mpr ⟨?_, hi⟩
      intro label hm
      exact (hl label (Option.mem_toList.mp hm)).1
    · refine fresh_append.mpr ⟨?_, hf⟩
      refine ⟨Option.toList_nodup _, ?_⟩
      intro label hu hm
      exact (hl label (Option.mem_toList.mp hm)).2 hu

theorem UnionBlock.outline {scope name : String} {items : List TypeSpec} {ws : List Fragment}
    (h : ctx.UnionBlock scope name items ws) : ctx.OutlinesUnion scope name items ws := by
  refine UnionBlock.induct ?_ h
  intro scope name items types inner ht hblocks
  obtain ⟨labels, content, hcontent, hs, hi, hf⟩ := hblocks.outline
  rw [qualify_eq_qualified] at ht hcontent hs
  exact ⟨_, hcontent.inClass (.union _), .intro (Except.mapM_eq_ok.mp ht) hs hi hf.1⟩

/-- All that is written for a finished union is one class. It derives from the types of the
alternatives, one for each, and what stands in it falls into their shares: a gap in the name of the
union for a literal, a string literal or a tuple, and for any other a test and a reading under its
own label, a setter if it is primitive, and one class of this form if it is a union itself. -/
theorem union_falls_into_shares {path : List String} {scope name : String} {items : List TypeSpec}
    (h : (ctx.union path scope name items).result = .ok ()) :
    ∃ outline, ctx.UnionOutline scope name items outline ∧
      (∀ l, (Fragment.header l (ctx.union path scope name items).written).lines.toList =
        l.lines.toList ++ outline.headerLines.map (Text.indented l.level)) ∧
      (∀ l, l.level = 0 →
        (Fragment.source l (ctx.union path scope name items).written).lines.toList =
          l.lines.toList ++ outline.sourceLines scope) ∧
      Fragment.gaps (ctx.union path scope name items).written = outline.gaps := by
  obtain ⟨outline, hdepicts, houtline⟩ := (unionBlock_of_ends ⟨rfl, h⟩).outline
  refine ⟨outline, houtline, hdepicts.toList_lines_header, ?_, hdepicts.gaps_eq⟩
  intro l hl
  rw [Fragment.toList_lines_source hl, hdepicts.definitions_eq]

/-- A tuple, a map, a union of a single item and an alias of a union. -/
def mixture : List TypeSpec :=
  [.tuple [.base "string", .base "integer"], .map (.base "string") (.literal []),
    .or [.base "boolean", .null], .reference "Token"]

def tokens : Context where
  options := {}
  schema := { aliases := [{ name := "Token", type := .or [.base "integer", .base "string"] }] }

theorem union_falls_into_shares_mixture :
    (tokens.union [] "Message" "Union2" mixture).result = .ok () ∧
      Fragment.gaps (tokens.union [] "Message" "Union2" mixture).written =
        [⟨"Message::Union2", .tupleInUnion⟩, ⟨"Message::Union2", .mapInUnion⟩,
          ⟨"Message::Union2", .literal⟩] ∧
      (Fragment.header .empty (tokens.union [] "Message" "Union2" mixture).written).lines.toList =
        ["struct Union2 : " ++
            "detail::UnionStructWrapper<std::tuple<std::string_view, std::int32_t>, " ++
            "std::unordered_map<std::string_view, LiteralStub>, bool, Token> \x7b",
          "  using UnionStructWrapper::UnionStructWrapper;",
          "",
          "  [[nodiscard]] bool holds_map_Map1() const;",
          "  [[nodiscard]] std::unordered_map<std::string_view, LiteralStub> as_map_Map1();",
          "",
          "  [[nodiscard]] bool holds_or_Union2() const;",
          "  [[nodiscard]] bool as_or_Union2();",
          "  void set_or_Union2(bool val);",
          "",
          "  struct Union3 : detail::UnionStructWrapper<std::int32_t, std::string_view> \x7b",
          "    using UnionStructWrapper::UnionStructWrapper;",
          "",
          "    [[nodiscard]] bool holds_integer() const;",
          "    [[nodiscard]] std::int32_t as_integer();",
          "    void set_integer(std::int32_t val);",
          "",
          "    [[nodiscard]] bool holds_string() const;",
          "    [[nodiscard]] std::string_view as_string();",
          "    void set_string(std::string_view val);",
          "",
          "  \x7d;",
          "",
          "  [[nodiscard]] bool holds_or_Union3() const;",
          "  [[nodiscard]] Message::Union2::Union3 as_or_Union3();",
          "",
          "\x7d;",
          ""] ∧
      ∃ outline, tokens.UnionOutline "Message" "Union2" mixture outline ∧
        (Fragment.source .empty (tokens.union [] "Message" "Union2" mixture).written).lines.toList =
          outline.sourceLines "Message" := by
  have hmixture : (tokens.union [] "Message" "Union2" mixture).result = .ok () := by
    decide +kernel
  obtain ⟨outline, houtline, _, hsource, _⟩ := union_falls_into_shares hmixture
  exact ⟨hmixture, by decide +kernel, by decide +kernel, outline, houtline, hsource .empty rfl⟩

end Context

end ProtocolBindings

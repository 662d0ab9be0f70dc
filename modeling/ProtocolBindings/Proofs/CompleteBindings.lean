import ProtocolBindings.Proofs.CompleteClasses
import ProtocolBindings.Proofs.EmissionOrder
import ProtocolBindings.Proofs.SingleFile

namespace ProtocolBindings

open Text (lines unlines)

namespace Text

variable {text : String} {ls : List String}

/-- The lines stand in the text, one right after the other. -/
def HasLines (text : String) (ls : List String) : Prop :=
  ∃ before after, text = unlines (before ++ ls ++ after)

theorem HasLines.after (h : HasLines text ls) (before : List String) :
    HasLines (unlines before ++ text) ls := by
  obtain ⟨start, rest, rfl⟩ := h
  refine ⟨before ++ start, rest, ?_⟩
  rw [← unlines_append]
  simp only [List.append_assoc]

theorem HasLines.before (h : HasLines text ls) (after : List String) :
    HasLines (text ++ unlines after) ls := by
  obtain ⟨start, rest, rfl⟩ := h
  refine ⟨start, rest ++ after, ?_⟩
  rw [← unlines_append]
  simp only [List.append_assoc]

end Text

theorem joined_append (ls others : List Listing) :
    joined (ls ++ others) = joined ls ++ joined others := by
  rw [joined, List.map_append, String.join_append]
  rfl

theorem joined_eq_unlines (ls : List Listing) :
    joined ls = unlines (ls.flatMap fun l => l.lines.toList) := by
  induction ls with
  | nil => rfl
  | cons l ls ih => rw [joined_cons, ih, l.text_eq_unlines, List.flatMap_cons, Text.unlines_append]

theorem hasLines_joined {l : Listing} {ls : List Listing} (h : l ∈ ls) {block : List String}
    (hl : l.text = unlines block) : Text.HasLines (joined ls) block := by
  obtain ⟨first, rest, rfl⟩ := List.append_of_mem h
  have hblock : Text.HasLines (unlines block) block := ⟨[], [], by simp⟩
  rw [joined_append, joined_cons, hl, joined_eq_unlines first, joined_eq_unlines rest]
  exact (hblock.before _).after _

namespace Bindings

/-- The definitions stand in the source, or else in the header, where a line may be marked as
inline. -/
def Defines (bindings : Bindings) (definitions : List String) : Prop :=
  match bindings.source with
  | some source => Text.HasLines source definitions
  | none => ∃ block, Text.HasLines bindings.header block ∧
      List.Forall₂ (fun line marked => marked = line ∨ marked = "inline " ++ line)
        (lines (unlines definitions)) block

end Bindings

namespace Options

variable (options : Options) {order : List Entry} (appendices : List Listing) {E : Entry}

theorem hasLines_header (h : E ∈ order) :
    Text.HasLines (options.header order appendices).text E.header.lines.toList := by
  have hjoined := hasLines_joined (List.mem_map_of_mem h) E.header.text_eq_unlines
  rw [header_eq_append, Listing.text_append, Listing.text_foldl_append, Listing.text_eq_unlines,
    Listing.text_eq_unlines, List.map_append, String.join_append]
  apply Text.HasLines.before
  apply Text.HasLines.after
  rw [← joined, ← joined, joined_eq_unlines (ite _ _ _)]
  exact hjoined.before _

theorem hasLines_source (h : E ∈ order) :
    Text.HasLines (options.source order).text E.implementation.lines.toList := by
  have hjoined := hasLines_joined (List.mem_map_of_mem h) E.implementation.text_eq_unlines
  have hend : options.namespaceEnd ++ "\n" = unlines [options.namespaceEnd] := by
    rw [Text.unlines_cons]
    exact String.append_empty.symm
  rw [text_source, Listing.text_eq_unlines, String.append_assoc, hend]
  exact (hjoined.after _).before _

/-- Without a source file the header holds the definitions. -/
theorem hasLines_inlined (h : E ∈ order) (hs : options.sourcePath = none) :
    Text.HasLines (options.header order appendices).text
      ((lines (unlines E.implementation.lines.toList)).map inlineLine) := by
  have hjoined : Text.HasLines (joined (order.map (inlined ·.implementation))) _ :=
    hasLines_joined (List.mem_map_of_mem h) (text_inlined E.implementation)
  rw [← E.implementation.text_eq_unlines, header_eq_append, Listing.text_append,
    Listing.text_foldl_append, Listing.text_eq_unlines, Listing.text_eq_unlines, List.map_append,
    String.join_append, if_neg (by simp [hs])]
  apply Text.HasLines.before
  apply Text.HasLines.after
  rw [← joined, ← joined, joined_eq_unlines (order.map Entry.header)]
  exact hjoined.after _

end Options

namespace Context

variable {ctx : Context} {r : Registry} {order : List Entry} {E : Entry} {s : Structure}

theorem written_of_foldlM {entities : List Entity} {start : Registry}
    (h : (entities.foldlM ctx.register start).result = .ok r) :
    (entities.foldlM ctx.register start).written =
      entities.flatMap fun entity => (ctx.entityEntry entity).written := by
  induction entities generalizing start with
  | nil => rfl
  | cons entity entities ih =>
    rw [List.foldlM_cons] at h ⊢
    obtain ⟨next, hn, h⟩ := Draft.result_bind_eq_ok.mp h
    obtain ⟨entry, he, _⟩ := Draft.result_bind_eq_ok.mp hn
    have hregister : (ctx.register start entity).written = (ctx.entityEntry entity).written := by
      rw [register, Draft.bind_of_ok he]
      exact List.append_nil _
    rw [Draft.bind_of_ok hn, List.flatMap_cons, ← ih h, hregister]

/-- The gaps of a model are those of its definitions. -/
theorem written_of_registry (h : ctx.registry.result = .ok r) :
    ctx.registry.written =
      ctx.schema.entities.flatMap fun entity => (ctx.entityEntry entity).written := by
  obtain ⟨_, hv, h⟩ := Draft.result_bind_eq_ok.mp h
  rw [registry, Draft.bind_of_ok hv]
  exact written_of_foldlM h

theorem Generates.struct (h : ctx.Generates (.struct s) E) :
    (ctx.structureDraft s).result = .ok () ∧
      E.header = Fragment.header .empty (ctx.structureDraft s).written ∧
      E.implementation = Fragment.source .empty (ctx.structureDraft s).written := by
  obtain ⟨_, hr, rfl⟩ := Except.map_eq_ok.mp h
  exact ⟨hr, rfl, rfl⟩

/-- What an alias is declared with, unless it is built in. -/
theorem Generates.alias {a : TypeAlias} (hb : ctx.options.isBuiltin a.name = false)
    (h : ctx.Generates (.alias a) E) :
    ∃ type, (a.type.expression a.name).result = .ok type ∧
      (ctx.entityEntry (.alias a)).written = (a.type.expression a.name).written ∧
      E.header.lines.toList = a.documentation.elim [] Text.blockComment ++
        ["using " ++ a.name ++ " = " ++ type.spelling ++ ";", ""] := by
  change (a.entry ctx.options).result = .ok E at h
  change ∃ type, _ ∧ (a.entry ctx.options).written = _ ∧ _
  rw [TypeAlias.entry, if_neg (by simp [hb])] at h ⊢
  obtain ⟨type, he, h⟩ := Draft.result_bind_eq_ok.mp h
  cases h
  refine ⟨type, he, ?_, ?_⟩
  · rw [Draft.bind_of_ok he]
    exact List.append_nil _
  · simp [Entry.withDependencies, Entry.toList_lines_documented, Entry.level_documented,
      Listing.placed_zero, type.text_eq_spelling]

section Clean

variable (hr : ctx.registry.result = .ok r) (hgaps : ctx.registry.written = [])

include hr hgaps

theorem written_entityEntry {entity : Entity} (he : entity ∈ ctx.schema.entities) :
    (ctx.entityEntry entity).written = [] := by
  rw [written_of_registry hr] at hgaps
  exact List.flatMap_eq_nil_iff.mp hgaps entity he

theorem aliasesClean_of_registry : ctx.AliasesClean := by
  intro a ha hb
  have hmem := Schema.alias_mem_entities.mpr ha
  obtain ⟨E, _, hg⟩ := exists_entry_of_registry hr hmem
  obtain ⟨type, he, hwritten, _⟩ := hg.alias hb
  exact TypeSpec.literals_eq_nil he (hwritten.symm.trans (written_entityEntry hr hgaps hmem))

end Clean

theorem Generates.mem_of_emissionOrder {entity : Entity} (h : ctx.Generates entity E)
    (hE : E ∈ r.entries) (hx : ctx.isExternal entity = false) (ho : r.emissionOrder = .ok order) :
    E ∈ order := by
  have hscheduled : r.Schedules E := ⟨hE, h.inversion.2.1.trans hx⟩
  exact ((Registry.isEmission_of_emissionOrder ho).1.mem_iff E).mpr hscheduled

/-- The definitions of an entry stand in the bindings. -/
theorem defines_of_mem {bindings : Bindings}
    (hh : bindings.header = (ctx.options.header order r.appendices).text)
    (hs : bindings.source = ctx.options.sourcePath.map fun _ => (ctx.options.source order).text)
    (h : E ∈ order) : bindings.Defines E.implementation.lines.toList := by
  unfold Bindings.Defines
  rw [hs]
  cases hpath : ctx.options.sourcePath with
  | some path => exact ctx.options.hasLines_source h
  | none =>
    refine ⟨_, hh ▸ ctx.options.hasLines_inlined r.appendices h hpath, ?_⟩
    rw [List.forall₂_map_right_iff, List.forall₂_same]
    exact fun line _ => inlineLine_eq line

/-- Bindings without gaps are complete. Every structure has a class in which nothing is missing, all
of it in the header and the definitions; every alias that is not built in is declared; and nothing
in their types stands in for a literal. -/
theorem complete_of_no_gaps {bindings : Bindings} (h : ctx.compile = .ok bindings)
    (hgaps : bindings.gaps = []) :
    (∀ s ∈ ctx.schema.structures, ∃ properties slots inner,
      ctx.schema.flatten s = .ok properties ∧ ctx.CompleteClass s properties slots inner ∧
      Text.HasLines bindings.header
        (s.documentation.elim [] Text.blockComment ++ (classOf s slots inner).headerLines) ∧
      bindings.Defines ((classOf s slots inner).sourceLines "")) ∧
    ∀ a ∈ ctx.schema.aliases, ctx.options.isBuiltin a.name = false →
      a.type.literals = [] ∧
      ∃ type, (a.type.expression a.name).result = .ok type ∧ type.standIns = [] ∧
        Text.HasLines bindings.header (a.documentation.elim [] Text.blockComment ++
          ["using " ++ a.name ++ " = " ++ type.spelling ++ ";", ""]) := by
  obtain ⟨r, order, hr, ho, rfl⟩ := compile_eq_ok.mp h
  have hc := aliasesClean_of_registry hr hgaps
  constructor
  · intro s hs
    have hmem := Schema.struct_mem_entities.mpr hs
    obtain ⟨E, hE, hg⟩ := exists_entry_of_registry hr hmem
    obtain ⟨hdraft, hheader, himplementation⟩ := hg.struct
    have horder := hg.mem_of_emissionOrder hE rfl ho
    obtain ⟨properties, slots, inner, hflatten, hcomplete, hheaderLines, hsourceLines⟩ :=
      completeClass_of_structureDraft hc ⟨rfl, hdraft⟩ (written_entityEntry hr hgaps hmem)
    refine ⟨properties, slots, inner, hflatten, hcomplete, ?_, ?_⟩
    · rw [← hheaderLines, ← hheader]
      exact ctx.options.hasLines_header r.appendices horder
    · rw [← hsourceLines, ← himplementation]
      exact defines_of_mem rfl rfl horder
  · intro a ha hb
    obtain ⟨E, hE, hg⟩ := exists_entry_of_registry hr (Schema.alias_mem_entities.mpr ha)
    obtain ⟨type, he, _, hlines⟩ := hg.alias hb
    have horder := hg.mem_of_emissionOrder hE hb ho
    refine ⟨hc a ha hb, type, he, TypeSpec.standIns_eq_nil (hc a ha hb) he, ?_⟩
    rw [← hlines]
    exact ctx.options.hasLines_header r.appendices horder

def labelProperty : Property := { name := "label", type := .base "string", optional := true }

def strokeProperty : Property :=
  { name := "stroke", type := .or [.base "integer", .reference "Paint"] }

def canvas : Structure := { name := "Canvas", bases := [.reference "Shape"] }

def canvasSlots : List Slot :=
  [⟨labelProperty, .primitive, 0, .plain "std::string_view"⟩,
    ⟨strokeProperty, .union [.base "integer", .reference "Paint"], 1, .nested "Canvas" "Union1"⟩]

/-- A model without literals, in which a union has another one among its alternatives, behind an
alias. -/
def sketch : Context where
  options := {}
  schema := {
    structures := [canvas, { name := "Shape", properties := [labelProperty, strokeProperty] }]
    enumerations := [{ name := "Color", values := [⟨"red", .string "r", none⟩] }]
    aliases := [{ name := "Paint", type := .or [.reference "Color", .array (.base "string")] }] }

theorem complete_of_no_gaps_sketch :
    ∃ bindings inner types content, sketch.compile = .ok bindings ∧ bindings.gaps = [] ∧
      sketch.CompleteClass canvas [labelProperty, strokeProperty] canvasSlots inner ∧
      ClassIn "Canvas" inner "Canvas::Union1::Union1" types content ∧
      sketch.ReadsAll "Canvas::Union1::Union1" [.reference "Color", .array (.base "string")]
        types content ∧
      Text.HasLines bindings.header (classOf canvas canvasSlots inner).headerLines ∧
      Text.HasLines bindings.header
        ["using Paint = std::variant<Color, std::vector<std::string_view>>;", ""] := by
  have hclean : sketch.compile.map Bindings.gaps = .ok [] := by decide +kernel
  have hlabel : sketch.classify "Canvas.label" labelProperty.type = .ok .primitive := by cbv
  have hstroke : sketch.classify "Canvas.stroke" strokeProperty.type =
      .ok (.union [.base "integer", .reference "Paint"]) := by cbv
  have hpaint : sketch.classify "Canvas::Union1" (.reference "Paint") =
      .ok (.union [.reference "Color", .array (.base "string")]) := by cbv
  have hfields : sketch.schema.flatten canvas = .ok [labelProperty, strokeProperty] := by cbv
  obtain ⟨bindings, hcompile, hgaps⟩ := Except.map_eq_ok.mp hclean
  obtain ⟨hclasses, haliases⟩ := complete_of_no_gaps hcompile hgaps
  obtain ⟨properties, slots, inner, hflatten, hcomplete, hheader, _⟩ :=
    hclasses canvas List.mem_cons_self
  cases hfields.symm.trans hflatten
  have hslots : List.Forall₂ (sketch.SlotOf "Canvas") [(labelProperty, 0), (strokeProperty, 1)]
      canvasSlots :=
    .cons ⟨rfl, rfl, hlabel, rfl⟩ (.cons ⟨rfl, rfl, hstroke, rfl⟩ .nil)
  cases rightUnique_slotOf.forall₂ hcomplete.fields.fields hslots
  have hin : sketch.UnionIn "Canvas::Union1" [.base "integer", .reference "Paint"]
      "Canvas::Union1::Union1" [.reference "Color", .array (.base "string")] :=
    .inside (i := 1) rfl hpaint .here
  obtain ⟨types, content, hclass, hreads⟩ :=
    hcomplete.found _ (List.mem_cons_of_mem _ List.mem_cons_self) _ rfl _ _ hin
  obtain ⟨_, _, ht, _, hpaintLines⟩ := haliases _ List.mem_cons_self rfl
  cases ht
  exact ⟨bindings, inner, types, content, hcompile, hgaps, hcomplete, hclass, hreads, hheader,
    hpaintLines⟩

end Context

end ProtocolBindings

import ProtocolBindings.Proofs.AccessorSurface
import ProtocolBindings.Proofs.Condensing

namespace ProtocolBindings

namespace TypeSpec

theorem live_live (items : List TypeSpec) : live (live items) = live items := by
  apply List.filter_eq_self.mpr
  intro item hi
  rw [(mem_live.mp hi).2]
  rfl

theorem expression_or_live (owner : String) (items : List TypeSpec) :
    (TypeSpec.or (live items)).expression owner = (TypeSpec.or items).expression owner := by
  rw [← expression_condensed owner (.or (live items)), ← expression_condensed owner (.or items),
    condensed, condensed, condensedItems_eq_map, condensedItems_eq_map, live_live]

end TypeSpec

open TypeSpec (live live_live)

/-- The property with the null markers of its union left out. -/
def Property.withoutNull (p : Property) : Property :=
  match p.type with
  | .or items => { p with type := .or (live items) }
  | _ => p

theorem Property.name_withoutNull (p : Property) : p.withoutNull.name = p.name := by
  unfold withoutNull
  split <;> rfl

theorem Property.expression_withoutNull (owner : String) (p : Property) :
    p.withoutNull.type.expression owner = p.type.expression owner := by
  unfold withoutNull
  split
  · next items h => rw [h, TypeSpec.expression_or_live]
  · rfl

namespace Slot

variable (slot : Slot)

def withoutNull : Slot :=
  { slot with property := slot.property.withoutNull }

def readType : String :=
  if slot.property.optional then "std::optional<" ++ slot.text ++ ">" else slot.text

def prototypes : List Prototype :=
  slot.methods.map Method.toPrototype

theorem getter_mem : { result := some slot.readType, name := slot.accessor } ∈ slot.prototypes := by
  have hgetter : slot.getter.toPrototype =
      { result := some slot.readType, name := slot.accessor } := by
    unfold getter readType
    split
    · rfl
    · rfl
  rw [prototypes, methods, List.cons_append, List.map_cons, hgetter]
  exact List.mem_cons_self

theorem accessor_mem : slot.accessor ∈ slot.prototypes.map Prototype.name :=
  List.mem_map_of_mem slot.getter_mem

theorem presence_mem_iff {accessor : String} :
    { result := some "bool", name := "has_" ++ accessor, isConst := true } ∈ slot.prototypes ↔
      slot.property.optional = true ∧ slot.accessor = accessor := by
  obtain ⟨property, kind, index, type⟩ := slot
  cases ho : property.optional <;> cases kind <;>
    simp [prototypes, methods, ho, presence, getter, setter, adder, Slot.accessor, eq_comm]

end Slot

/-- In a list without repetition that is made up of parts, an element belongs to one part. -/
theorem eq_of_mem_of_nodup_flatMap {α β : Type} {f : α → List β} {as : List α} {a b : α} {x : β}
    (h : (as.flatMap f).Nodup) (ha : a ∈ as) (hb : b ∈ as) (hx : x ∈ f a) (hx' : x ∈ f b) :
    a = b := by
  by_contra hne
  have hdisjoint := (List.nodup_flatMap.mp h).2
  have : Std.Symm (Function.onFun List.Disjoint f) := ⟨fun _ _ hd _ hy hx => hd hx hy⟩
  exact hdisjoint.forall ha hb hne hx hx'

namespace Context

variable {ctx : Context} {scope : String} {place : Property × Nat} {places : List (Property × Nat)}
  {slot : Slot} {slots : List Slot}

theorem classify_or_live (ctx : Context) (owner : String) (items : List TypeSpec) :
    ctx.classify owner (.or (live items)) = ctx.classify owner (.or items) := by
  by_cases h : ∃ item, live items = [item]
  · obtain ⟨item, h⟩ := h
    have hcore : (TypeSpec.or (live items)).core = (TypeSpec.or items).core := by
      rw [(TypeSpec.Unwraps.or h).core_eq,
        (TypeSpec.Unwraps.or ((live_live items).trans h)).core_eq]
    rw [classify, classify, trace_of_core_eq hcore]
  · have hcore {all : List TypeSpec} (hl : live all = live items) :
        (TypeSpec.or all).core = .or all := by
      apply TypeSpec.core_eq_self
      intro u hu
      cases hu with
      | or hu => exact h ⟨u, hl.symm.trans hu⟩
    have hrest := hcore (live_live items)
    have hrest' : (TypeSpec.or items).core = .or items := hcore rfl
    rw [classify_at_rest, classify_at_rest, hrest, hrest', kindAtRest, kindAtRest, live_live]
    · intro name a hc
      rw [hrest'] at hc
      cases hc
    · intro name a hc
      rw [hrest] at hc
      cases hc

theorem classify_withoutNull (ctx : Context) (owner : String) (p : Property) :
    ctx.classify owner p.withoutNull.type = ctx.classify owner p.type := by
  unfold Property.withoutNull
  split
  · next items h => rw [h, classify_or_live]
  · rfl

theorem slotType_withoutNull (scope owner : String) (index : Nat) (p : Property)
    (kind : ValueKind) :
    slotType scope owner index p.withoutNull.type kind =
      slotType scope owner index p.type kind := by
  unfold slotType
  rw [Property.expression_withoutNull]

theorem SlotOf.withoutNull (h : ctx.SlotOf scope place slot) :
    ctx.SlotOf scope (place.1.withoutNull, place.2) slot.withoutNull where
  property := congrArg Property.withoutNull h.property
  index := h.index
  kind := by
    rw [classify_withoutNull, Property.name_withoutNull]
    exact h.kind
  type := by
    have htype := h.type
    rw [Property.name_withoutNull, slotType_withoutNull]
    exact htype

theorem SlotOf.names_eq (h : ctx.SlotOf scope place slot) :
    ∃ nested, ctx.propertyNames scope place.2 place.1 =
      slot.prototypes.map Prototype.name ++ nested := by
  obtain ⟨property, kind, index, type⟩ := slot
  obtain ⟨rfl, rfl, hk, _⟩ := h
  have hgetter : (Slot.getter ⟨place.1, kind, place.2, type⟩).name =
      Text.escapeReserved place.1.name := by
    unfold Slot.getter
    split
    · rfl
    · rfl
  unfold propertyNames
  dsimp only at hk
  rw [hk]
  cases ho : place.1.optional <;> cases kind <;>
    simp [Slot.prototypes, Slot.methods, ho, hgetter, Slot.presence, Slot.setter, Slot.adder,
      Slot.accessor]

theorem names_sublist (h : List.Forall₂ (ctx.SlotOf scope) places slots) :
    (slots.flatMap fun slot => slot.prototypes.map Prototype.name).Sublist
      (places.flatMap fun place => ctx.propertyNames scope place.2 place.1) := by
  induction h with
  | nil => exact List.Sublist.refl _
  | cons hslot _ ih =>
    obtain ⟨nested, hnames⟩ := hslot.names_eq
    rw [List.flatMap_cons, List.flatMap_cons, hnames]
    exact (List.sublist_append_left _ nested).append ih

def classPrototypes (slots : List Slot) : List Prototype :=
  slots.flatMap Slot.prototypes ++ [{ result := none, name := "init" }]

theorem prototypes_classOf {inner : List Piece}
    (h : ctx.FieldsOutline scope places slots inner) :
    (Piece.methods (inner ++ [.blank, .method (initializer slots)])).map Method.toPrototype =
      classPrototypes slots := by
  rw [Piece.methods_append, h.functions, List.map_append, List.map_flatMap]
  rfl

theorem names_classPrototypes (slots : List Slot) :
    (classPrototypes slots).map Prototype.name =
      (slots.flatMap fun slot => slot.prototypes.map Prototype.name) ++ ["init"] := by
  rw [classPrototypes, List.map_append, List.map_flatMap]
  rfl

/-- No two functions in the class of a structure have one name. -/
theorem nodup_names {s : Structure} {properties : List Property}
    (hfresh : Fresh [s.name, "init"] (ctx.namesFrom s.name 0 properties))
    (h : List.Forall₂ (ctx.SlotOf s.name) (properties.filter Property.isRetained).zipIdx slots) :
    ((classPrototypes slots).map Prototype.name).Nodup := by
  have hsub := names_sublist h
  rw [names_classPrototypes, List.nodup_append']
  refine ⟨hsub.nodup hfresh.1, List.nodup_singleton _, ?_⟩
  intro name hname hinit
  exact hfresh.2 (List.mem_cons_of_mem _ hinit) (hsub.subset hname)

section Accessors

variable (h : ((classPrototypes slots).map Prototype.name).Nodup) (hslot : slot ∈ slots)

include h hslot

/-- A field is read with one type. -/
theorem getter_mem_iff (type : String) :
    { result := some type, name := slot.accessor } ∈ classPrototypes slots ↔
      type = slot.readType := by
  have hgetter : { result := some slot.readType, name := slot.accessor } ∈ classPrototypes slots :=
    List.mem_append_left _ (List.mem_flatMap.mpr ⟨slot, hslot, slot.getter_mem⟩)
  constructor
  · intro hm
    have he := List.inj_on_of_nodup_map h hm hgetter rfl
    exact Option.some.inj (congrArg Prototype.result he)
  · rintro rfl
    exact hgetter

theorem presence_mem_iff :
    { result := some "bool", name := "has_" ++ slot.accessor, isConst := true } ∈
        classPrototypes slots ↔ slot.property.optional = true := by
  constructor
  · intro hm
    rcases List.mem_append.mp hm with hm | hm
    · obtain ⟨other, hother, hm⟩ := List.mem_flatMap.mp hm
      obtain ⟨ho, ha⟩ := other.presence_mem_iff.mp hm
      -- the two fields are read under one name, so they are the same
      rw [names_classPrototypes] at h
      have he := eq_of_mem_of_nodup_flatMap (List.nodup_append'.mp h).1 hslot hother
        slot.accessor_mem (ha ▸ other.accessor_mem)
      rw [he]
      exact ho
    · cases congrArg Prototype.result (List.mem_singleton.mp hm)
  · intro ho
    apply List.mem_append_left
    exact List.mem_flatMap.mpr ⟨slot, hslot, slot.presence_mem_iff.mpr ⟨ho, rfl⟩⟩

end Accessors

/-- A field is read with the type of its items without null markers. It is optional, and has a test
for its presence, exactly if the property says so, whether there is a null marker or not. -/
theorem null_marker_leaves_option {s : Structure} {entry : Entry}
    (h : (ctx.structureEntry s).result = .ok entry) :
    ∃ properties slots inner functions,
      ctx.schema.flatten s = .ok properties ∧
      ctx.FieldsOutline s.name (properties.filter Property.isRetained).zipIdx slots inner ∧
      entry.header.lines.toList =
        s.documentation.elim [] Text.blockComment ++ (classOf s slots inner).headerLines ∧
      functions =
        (Piece.methods (inner ++ [.blank, .method (initializer slots)])).map Method.toPrototype ∧
      ∀ slot ∈ slots,
        ctx.SlotOf s.name (slot.property.withoutNull, slot.index) slot.withoutNull ∧
        (∀ type, { result := some type, name := slot.accessor } ∈ functions ↔
          type = if slot.property.optional then "std::optional<" ++ slot.text ++ ">"
            else slot.text) ∧
        ({ result := some "bool", name := "has_" ++ slot.accessor, isConst := true } ∈ functions ↔
          slot.property.optional = true) := by
  obtain ⟨_, hresult, rfl⟩ := Except.map_eq_ok.mp h
  obtain ⟨properties, slots, inner, hp, houtline, hheader, _⟩ :=
    outline_structureDraft ⟨rfl, hresult⟩
  obtain ⟨_, _, _, _, hp', _, hfresh, _⟩ := classes_structureDraft ⟨rfl, hresult⟩
  cases hp.symm.trans hp'
  refine ⟨properties, slots, inner, classPrototypes slots, hp, houtline, hheader,
    (prototypes_classOf houtline).symm, ?_⟩
  intro slot hslot
  have hnodup := nodup_names hfresh houtline.fields
  obtain ⟨⟨property, index⟩, _, hof⟩ := exists_mem_of_forall₂ houtline.fields.flip hslot
  refine ⟨?_, getter_mem_iff hnodup hslot, presence_mem_iff hnodup hslot⟩
  rw [hof.property, hof.index]
  exact hof.withoutNull

/-- Two fields with null markers, the first mandatory and the second optional. -/
def memo : Structure where
  name := "Memo"
  properties := [
    { name := "label", type := .or [.base "string", .null] },
    { name := "origin", type := .or [.null, .base "string", .base "integer"], optional := true }]

theorem null_marker_leaves_option_memo :
    ∃ entry slots inner functions, ((alone memo).structureEntry memo).result = .ok entry ∧
      entry.header.lines.toList = (classOf memo slots inner).headerLines ∧
      functions =
        (Piece.methods (inner ++ [.blank, .method (initializer slots)])).map Method.toPrototype ∧
      (∀ type, { result := some type, name := "label" } ∈ functions ↔
        type = "std::string_view") ∧
      { result := some "bool", name := "has_label", isConst := true } ∉ functions ∧
      { result := some "std::optional<Memo::Union1>", name := "origin" } ∈ functions ∧
      { result := some "bool", name := "has_origin", isConst := true } ∈ functions := by
  have hdraft : ((alone memo).structureDraft memo).result = .ok () := by decide +kernel
  have hentry : ((alone memo).structureEntry memo).result = .ok _ :=
    Except.map_eq_ok.mpr ⟨(), hdraft, rfl⟩
  obtain ⟨properties, slots, inner, functions, hp, houtline, hheader, hfunctions, haccessors⟩ :=
    null_marker_leaves_option hentry
  have hproperties : (alone memo).schema.flatten memo = .ok memo.properties := by cbv
  cases hp.symm.trans hproperties
  have hslots : List.Forall₂ ((alone memo).SlotOf "Memo") memo.properties.zipIdx
      [⟨_, .primitive, 0, .plain "std::string_view"⟩,
        ⟨_, .union [.base "string", .base "integer"], 1, .nested "Memo" "Union1"⟩] :=
    .cons ⟨rfl, rfl, by cbv, rfl⟩ (.cons ⟨rfl, rfl, by cbv, rfl⟩ .nil)
  cases rightUnique_slotOf.forall₂ houtline.fields hslots
  obtain ⟨_, hread, hpresence⟩ := haccessors _ List.mem_cons_self
  obtain ⟨_, hread', hpresence'⟩ := haccessors _ (List.mem_cons_of_mem _ List.mem_cons_self)
  refine ⟨_, _, inner, functions, hentry, hheader, hfunctions, hread, ?_, (hread' _).mpr ?_,
    hpresence'.mpr rfl⟩
  · intro hm
    cases hpresence.mp hm
  · decide

/-- A label that may be null, in a field that is not marked as optional. -/
def note : Structure where
  name := "Note"
  properties := [{ name := "label", type := .or [.base "string", .null] }]

theorem null_marker_without_option :
    ∃ entry, ((alone note).structureEntry note).result = .ok entry ∧
      entry.header.lines.toList =
        ["struct Note : detail::StructWrapper \x7b",
          "  using StructWrapper::StructWrapper;",
          "",
          "  [[nodiscard]] std::string_view label();",
          "  void set_label(std::string_view val);",
          "",
          "  void init();",
          "\x7d;",
          ""] := by
  have hdraft : ((alone note).structureDraft note).result = .ok () := by decide +kernel
  exact ⟨_, Except.map_eq_ok.mpr ⟨(), hdraft, rfl⟩, by decide +kernel⟩

end Context

end ProtocolBindings

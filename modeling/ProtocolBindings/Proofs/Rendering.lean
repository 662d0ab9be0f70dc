import ProtocolBindings.Proofs.Drafts
import ProtocolBindings.Proofs.Unwrapping

namespace ProtocolBindings

variable {owner : String} {C : String → Prop}

namespace CppType

mutual

def names : CppType → List String
  | .word .model name => [name]
  | .word .language _ | .word .standIn _ | .nested _ _ => []
  | .template _ arguments => namesAll arguments

def namesAll : List CppType → List String
  | [] => []
  | type :: types => type.names ++ namesAll types

end

theorem namesAll_eq_flatMap (types : List CppType) : namesAll types = types.flatMap names := by
  induction types with
  | nil => rfl
  | cons type types ih => rw [namesAll, List.flatMap_cons, ih]

theorem names_optional (type : CppType) : type.optional.names = type.names := by
  simp [optional, names, namesAll]

end CppType

namespace TypeSpec

section Collections

variable {β : Type} {F : TypeSpec → List β} {G : CppType → List β}

/-- What is collected from a union or tuple comes from its items, and nothing from base types. -/
structure Collects (F : TypeSpec → List β) : Prop where
  union : ∀ items, F (.or items) = items.flatMap F
  tuple : ∀ items, F (.tuple items) = items.flatMap F
  base : ∀ name, F (.base name) = []

theorem Collects.null (h : Collects F) {t : TypeSpec} (hn : t.isNull = true) : F t = [] := by
  cases t with
  | base name => exact h.base name
  | _ => cases hn

theorem Collects.flatMap_live (h : Collects F) (items : List TypeSpec) :
    (live items).flatMap F = items.flatMap F := by
  induction items with
  | nil => rfl
  | cons item items ih =>
    cases hn : item.isNull with
    | true =>
      rw [live, List.filter_cons_of_neg (by simp [hn]), List.flatMap_cons, h.null hn]
      exact ih
    | false =>
      rw [live, List.filter_cons_of_pos (by simp [hn]), List.flatMap_cons, List.flatMap_cons]
      exact congrArg (F item ++ ·) ih

theorem Collects.eq_of_unwraps (h : Collects F) {t u : TypeSpec} (hu : Unwraps t u) :
    F t = F u := by
  cases hu with
  | or hl => rw [h.union, ← h.flatMap_live, hl, List.flatMap_singleton]
  | tuple hl => rw [h.tuple, ← h.flatMap_live, hl, List.flatMap_singleton]

/-- Nothing is lost when a single item stands for the union or tuple around it. -/
theorem Collects.eq_of_core (h : Collects F) (t : TypeSpec) : F t.core = F t := by
  induction t using unwrapping_induction with
  | rest t ht => rw [core_eq_self ht]
  | step t u hu ih => rw [hu.core_eq, ih, h.eq_of_unwraps hu]

/-- What is collected from a type expression is what the words of the C++ type give. -/
structure Renders (F : TypeSpec → List β) (G : CppType → List β) : Prop extends Collects F where
  array : ∀ element, F (.array element) = F element
  map : ∀ key value, F (.map key value) = F key ++ F value
  reference : ∀ name, F (.reference name) = G (.named name)
  literal : ∀ properties, F (.literal properties) = G (.standIn literalStub)
  stringLiteral : ∀ value, F (.stringLiteral value) = G (.standIn "std::string_view")
  plain : ∀ text, G (.plain text) = []
  template : ∀ name arguments, G (.template name arguments) = arguments.flatMap G

theorem Renders.of_collapse (h : Renders F G) {wrapper : String} {types : List CppType}
    {type : CppType} (hc : collapse owner wrapper types = .ok type) :
    G type = types.flatMap G := by
  match types with
  | [] => cases hc
  | [single] =>
    cases hc
    simp
  | _ :: _ :: _ =>
    cases hc
    exact h.template _ _

mutual

theorem Renders.expression (h : Renders F G) : (t : TypeSpec) → ∀ {type : CppType},
    (t.expression owner).result = .ok type → G type = F t
  | .base name, type, he => by
    obtain ⟨text, _, rfl⟩ := Except.map_eq_ok.mp he
    rw [h.plain, h.base]
  | .reference name, type, he => by
    cases he
    exact (h.reference name).symm
  | .array element, type, he => by
    obtain ⟨inner, hi, he⟩ := Draft.result_bind_eq_ok.mp he
    cases he
    rw [h.template, h.array, List.flatMap_singleton, h.expression element hi]
  | .map key value, type, he => by
    obtain ⟨k, hk, he⟩ := Draft.result_bind_eq_ok.mp he
    obtain ⟨v, hv, he⟩ := Draft.result_bind_eq_ok.mp he
    cases he
    rw [h.template, h.map, List.flatMap_cons, List.flatMap_singleton, h.expression key hk,
      h.expression value hv]
  | .or items, type, he => by
    obtain ⟨types, hi, he⟩ := Draft.result_bind_eq_ok.mp he
    rw [h.of_collapse he, h.union]
    exact h.liveExpressions items hi
  | .tuple items, type, he => by
    obtain ⟨types, hi, he⟩ := Draft.result_bind_eq_ok.mp he
    rw [h.of_collapse he, h.tuple]
    exact h.liveExpressions items hi
  | .literal properties, type, he => by
    cases he
    exact (h.literal properties).symm
  | .stringLiteral value, type, he => by
    cases he
    exact (h.stringLiteral value).symm

theorem Renders.liveExpressions (h : Renders F G) :
    (items : List TypeSpec) → ∀ {types : List CppType},
    (liveExpressions owner items).result = .ok types → types.flatMap G = items.flatMap F
  | [], types, he => by
    cases he
    rfl
  | item :: items, types, he => by
    rw [TypeSpec.liveExpressions] at he
    split at he
    · next hn =>
      rw [h.liveExpressions items he, List.flatMap_cons, h.null hn, List.nil_append]
    · obtain ⟨first, hf, he⟩ := Draft.result_bind_eq_ok.mp he
      obtain ⟨others, ho, he⟩ := Draft.result_bind_eq_ok.mp he
      cases he
      rw [List.flatMap_cons, List.flatMap_cons, h.expression item hf, h.liveExpressions items ho]

end

end Collections

theorem mentionsAll_eq_flatMap (items : List TypeSpec) :
    mentionsAll items = items.flatMap mentions := by
  induction items with
  | nil => rfl
  | cons item items ih => rw [mentionsAll, List.flatMap_cons, ih]

/-- The names in the C++ type are the references of the type expression. -/
theorem renders_mentions : Renders mentions CppType.names where
  union := mentionsAll_eq_flatMap
  tuple := mentionsAll_eq_flatMap
  base _ := rfl
  array _ := rfl
  map _ _ := rfl
  reference _ := rfl
  literal _ := rfl
  stringLiteral _ := rfl
  plain _ := rfl
  template _ := CppType.namesAll_eq_flatMap

theorem mentions_core (t : TypeSpec) : t.core.mentions = t.mentions :=
  renders_mentions.eq_of_core t

theorem liveExpressions_of_live_eq_nil {items : List TypeSpec} (h : live items = []) :
    liveExpressions owner items = pure [] := by
  induction items with
  | nil => rfl
  | cons item items ih =>
    by_cases hn : item.isNull = true
    · rw [live, List.filter_cons_of_neg (by simp [hn])] at h
      rw [liveExpressions, if_pos hn]
      exact ih h
    · rw [live, List.filter_cons_of_pos (by simp [hn])] at h
      cases h

theorem liveExpressions_of_live_eq {items : List TypeSpec} {item : TypeSpec}
    (h : live items = [item]) :
    liveExpressions owner items = item.expression owner >>= fun type => pure [type] := by
  induction items with
  | nil => cases h
  | cons first items ih =>
    by_cases hn : first.isNull = true
    · rw [live, List.filter_cons_of_neg (by simp [hn])] at h
      rw [liveExpressions, if_pos hn]
      exact ih h
    · rw [live, List.filter_cons_of_pos (by simp [hn])] at h
      obtain ⟨rfl, hrest⟩ := List.cons.inj h
      rw [liveExpressions, if_neg hn, liveExpressions_of_live_eq_nil hrest]
      simp only [pure_bind]

/-- A single item has the type of the union or tuple around it. -/
theorem Unwraps.expression_eq {t u : TypeSpec} (h : Unwraps t u) :
    t.expression owner = u.expression owner := by
  cases h with
  | or h =>
    rw [expression, liveExpressions_of_live_eq h, bind_assoc]
    simp only [pure_bind]
    exact bind_pure _
  | tuple h =>
    rw [expression, liveExpressions_of_live_eq h, bind_assoc]
    simp only [pure_bind]
    exact bind_pure _

theorem expression_core (t : TypeSpec) : t.core.expression owner = t.expression owner := by
  induction t using unwrapping_induction with
  | rest t ht => rw [core_eq_self ht]
  | step t u hu ih => rw [hu.core_eq, ih, hu.expression_eq]

end TypeSpec

def CppType.Within (C : String → Prop) (type : CppType) : Prop :=
  ∀ name ∈ type.names, C name

theorem CppType.within_plain (text : String) : (CppType.plain text).Within C :=
  nofun

theorem CppType.within_nested (scope name : String) : (CppType.nested scope name).Within C :=
  nofun

theorem CppType.Within.optional {type : CppType} (h : type.Within C) : type.optional.Within C := by
  unfold Within
  rw [names_optional]
  exact h

def TypeSpec.Within (C : String → Prop) (t : TypeSpec) : Prop :=
  ∀ name ∈ t.mentions, C name

theorem TypeSpec.Within.expression {t : TypeSpec} (h : t.Within C) {type : CppType}
    (he : (t.expression owner).result = .ok type) : type.Within C := by
  unfold CppType.Within
  rw [renders_mentions.expression t he]
  exact h

end ProtocolBindings

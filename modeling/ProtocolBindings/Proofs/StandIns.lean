import ProtocolBindings.Proofs.Classification

namespace ProtocolBindings

variable {owner : String}

namespace CppType

mutual

/-- The stand-ins in a type, from left to right. -/
def standIns : CppType → List String
  | .word .standIn text => [text]
  | .word .language _ | .word .model _ | .nested _ _ => []
  | .template _ arguments => standInsAll arguments

def standInsAll : List CppType → List String
  | [] => []
  | type :: types => type.standIns ++ standInsAll types

end

theorem standInsAll_eq_flatMap (types : List CppType) :
    standInsAll types = types.flatMap standIns := by
  induction types with
  | nil => rfl
  | cons type types ih => rw [standInsAll, List.flatMap_cons, ih]

end CppType

namespace TypeSpec

mutual

/-- The stand-ins for the literals in a type expression, from left to right. -/
def literals : TypeSpec → List String
  | .literal _ => [literalStub]
  | .stringLiteral _ => ["std::string_view"]
  | .array element => element.literals
  | .map key value => key.literals ++ value.literals
  | .or items => literalsAll items
  | .tuple items => literalsAll items
  | .base _ | .reference _ => []

def literalsAll : List TypeSpec → List String
  | [] => []
  | item :: items => item.literals ++ literalsAll items

end

theorem literalsAll_eq_flatMap (items : List TypeSpec) :
    literalsAll items = items.flatMap literals := by
  induction items with
  | nil => rfl
  | cons item items ih => rw [literalsAll, List.flatMap_cons, ih]

theorem renders_literals : Renders literals CppType.standIns where
  union := literalsAll_eq_flatMap
  tuple := literalsAll_eq_flatMap
  base _ := rfl
  array _ := rfl
  map _ _ := rfl
  reference _ := rfl
  literal _ := rfl
  stringLiteral _ := rfl
  plain _ := rfl
  template _ := CppType.standInsAll_eq_flatMap

theorem literals_core (t : TypeSpec) : t.core.literals = t.literals :=
  renders_literals.eq_of_core t

theorem standIns_eq_nil {t : TypeSpec} (h : t.literals = []) {type : CppType}
    (he : (t.expression owner).result = .ok type) : type.standIns = [] :=
  (renders_literals.expression t he).trans h

mutual

/-- A gap is recorded for each literal. -/
theorem length_written_expression : (t : TypeSpec) → ∀ {type : CppType},
    (t.expression owner).result = .ok type →
    (t.expression owner).written.length = t.literals.length
  | .base name, type, h => rfl
  | .reference name, type, h => rfl
  | .array element, type, h => by
    obtain ⟨inner, he, _⟩ := Draft.result_bind_eq_ok.mp h
    rw [expression, Draft.bind_of_ok he, literals, ← length_written_expression element he]
    exact congrArg List.length (List.append_nil _)
  | .map key value, type, h => by
    obtain ⟨k, hk, h⟩ := Draft.result_bind_eq_ok.mp h
    obtain ⟨v, hv, _⟩ := Draft.result_bind_eq_ok.mp h
    rw [expression, Draft.bind_of_ok hk, Draft.bind_of_ok hv, literals]
    simp [length_written_expression key hk, length_written_expression value hv]
  | .or items, type, h | .tuple items, type, h => by
    obtain ⟨types, hi, _⟩ := Draft.result_bind_eq_ok.mp h
    rw [expression, Draft.bind_of_ok hi, literals, ← length_written_liveExpressions items hi]
    exact congrArg List.length (List.append_nil _)
  | .literal _, type, h => rfl
  | .stringLiteral _, type, h => rfl

theorem length_written_liveExpressions : (items : List TypeSpec) → ∀ {types : List CppType},
    (liveExpressions owner items).result = .ok types →
    (liveExpressions owner items).written.length = (literalsAll items).length
  | [], types, h => rfl
  | item :: items, types, h => by
    rw [liveExpressions] at h ⊢
    rw [literalsAll, List.length_append]
    split at h
    · next hn =>
      rw [if_pos hn, length_written_liveExpressions items h, renders_literals.null hn]
      exact (Nat.zero_add _).symm
    · next hn =>
      obtain ⟨first, hf, h⟩ := Draft.result_bind_eq_ok.mp h
      obtain ⟨others, ho, _⟩ := Draft.result_bind_eq_ok.mp h
      rw [if_neg hn, Draft.bind_of_ok hf, Draft.bind_of_ok ho]
      simp [length_written_expression item hf, length_written_liveExpressions items ho]

end

theorem literals_eq_nil {t : TypeSpec} {type : CppType}
    (he : (t.expression owner).result = .ok type) (h : (t.expression owner).written = []) :
    t.literals = [] := by
  have hlength := length_written_expression t he
  rw [h] at hlength
  exact List.eq_nil_of_length_eq_zero hlength.symm

end TypeSpec

namespace Context

variable {ctx : Context} {followed after : List String} {t u : TypeSpec} {items : List TypeSpec}

/-- No alias that is generated has a literal in its type. -/
def AliasesClean (ctx : Context) : Prop :=
  ∀ a ∈ ctx.schema.aliases, ctx.options.isBuiltin a.name = false → a.type.literals = []

theorem LeadsTo.literals_eq_nil (h : ctx.LeadsTo t u) (hc : ctx.AliasesClean)
    (ht : t.literals = []) : u.literals = [] := by
  induction h with
  | core t =>
    rw [TypeSpec.literals_core]
    exact ht
  | through _ hb ha _ ih =>
    obtain ⟨hmem, rfl⟩ := mem_aliases_of_lookup ha
    exact ih (hc _ hmem hb)

theorem leadsTo_of_trace_placeholder
    (h : ctx.trace owner followed t = .ok (.placeholder, after)) :
    ∃ properties, ctx.LeadsTo t (.literal properties) := by
  fun_induction trace ctx owner followed t with
  | case1 followed t name ht =>
    obtain ⟨_, _, hk⟩ := Except.map_eq_ok.mp h
    cases hk
  | case3 followed t properties ht => exact ⟨properties, ht ▸ .core t⟩
  | case11 followed t name ht hb e he => split at h <;> cases h
  | case13 followed t name ht hb a ha hf ih =>
    obtain ⟨properties, hl⟩ := ih h
    exact ⟨properties, .through ht (by simpa using hb) ha hl⟩
  | _ => cases h

theorem AliasesClean.kind_ne_placeholder (hc : ctx.AliasesClean) {kind : ValueKind}
    (h : ctx.trace owner followed t = .ok (kind, after)) (ht : t.literals = []) :
    kind ≠ .placeholder := by
  rintro rfl
  obtain ⟨properties, hl⟩ := leadsTo_of_trace_placeholder h
  cases hl.literals_eq_nil hc ht

/-- What lies behind an alias is not part of a type expression, so that a union has the literals of
its alternatives at most. -/
theorem literals_of_trace_union (h : ctx.trace owner followed t = .ok (.union items, after))
    (hi : ∀ item ∈ items, item.literals = []) : t.literals = [] := by
  obtain ⟨all, hl, rfl⟩ := leadsTo_of_trace_union h
  rw [← TypeSpec.literals_core]
  generalize hu : TypeSpec.or all = u at hl
  cases hl with
  | core =>
    rw [← hu, TypeSpec.renders_literals.union, ← TypeSpec.renders_literals.flatMap_live]
    exact List.flatMap_eq_nil_iff.mpr hi
  | through ht _ _ _ =>
    rw [ht]
    rfl

end Context

end ProtocolBindings

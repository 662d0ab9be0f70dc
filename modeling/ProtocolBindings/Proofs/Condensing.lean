import ProtocolBindings.Proofs.AliasChains

namespace ProtocolBindings

namespace TypeSpec

/-- A single item stands for itself. -/
def unwrapped (wrap : List TypeSpec → TypeSpec) : List TypeSpec → TypeSpec
  | [item] => item
  | items => wrap items

mutual

/-- The type without null markers and single items in its unions and tuples. -/
def condensed : TypeSpec → TypeSpec
  | .base name => .base name
  | .reference name => .reference name
  | .array element => .array element.condensed
  | .map key value => .map key.condensed value.condensed
  | .or items => unwrapped .or (condensedItems items)
  | .tuple items => unwrapped .tuple (condensedItems items)
  | .literal properties => .literal (condensedProperties properties)
  | .stringLiteral value => .stringLiteral value

def condensedItems : List TypeSpec → List TypeSpec
  | [] => []
  | item :: items =>
    if item.isNull then condensedItems items else item.condensed :: condensedItems items

def condensedProperties : List Property → List Property
  | [] => []
  | ⟨name, type, optional, documentation⟩ :: properties =>
    ⟨name, type.condensed, optional, documentation⟩ :: condensedProperties properties

end

variable {owner : String} {t u : TypeSpec} {items : List TypeSpec} {wrap : List TypeSpec → TypeSpec}

theorem unwrapped_eq_wrap (h : ∀ item, items ≠ [item]) : unwrapped wrap items = wrap items := by
  unfold unwrapped
  split
  · next item => exact (h item rfl).elim
  · rfl

theorem condensedItems_eq_map (items : List TypeSpec) :
    condensedItems items = (live items).map condensed := by
  induction items with
  | nil => rfl
  | cons item items ih =>
    rw [condensedItems]
    by_cases hn : item.isNull = true
    · rw [if_pos hn, live, List.filter_cons_of_neg (by simp [hn])]
      exact ih
    · rw [if_neg hn, live, List.filter_cons_of_pos (by simp [hn]), List.map_cons]
      exact congrArg (item.condensed :: ·) ih

theorem condensedItems_ne_singleton (h : ∀ item, live items ≠ [item]) :
    ∀ item, condensedItems items ≠ [item] := by
  intro item hi
  rw [condensedItems_eq_map] at hi
  obtain ⟨only, ho, _⟩ := List.map_eq_singleton_iff.mp hi
  exact h only ho

theorem condensed_or (h : ∀ item, live items ≠ [item]) :
    (TypeSpec.or items).condensed = .or ((live items).map condensed) := by
  rw [condensed, unwrapped_eq_wrap (condensedItems_ne_singleton h), condensedItems_eq_map]

theorem condensed_tuple (h : ∀ item, live items ≠ [item]) :
    (TypeSpec.tuple items).condensed = .tuple ((live items).map condensed) := by
  rw [condensed, unwrapped_eq_wrap (condensedItems_ne_singleton h), condensedItems_eq_map]

theorem Unwraps.condensed_eq (h : Unwraps t u) : t.condensed = u.condensed := by
  cases h with
  | or h => rw [condensed, condensedItems_eq_map, h, List.map_singleton, unwrapped]
  | tuple h => rw [condensed, condensedItems_eq_map, h, List.map_singleton, unwrapped]

theorem condensed_core (t : TypeSpec) : t.core.condensed = t.condensed := by
  induction t using unwrapping_induction with
  | rest t h => rw [core_eq_self h]
  | step t u h ih => rw [h.core_eq, h.condensed_eq, ih]

theorem isNull_condensed (t : TypeSpec) : t.condensed.isNull = t.isNull := by
  induction t using unwrapping_induction with
  | rest t h =>
    cases t with
    | or items =>
      rw [condensed_or fun item hi => h item (.or hi)]
      rfl
    | tuple items =>
      rw [condensed_tuple fun item hi => h item (.tuple hi)]
      rfl
    | _ => rfl
  | step t u h ih =>
    rw [h.condensed_eq, ih, h.isNull_eq_false]
    cases h <;> rfl

theorem live_map_condensed (items : List TypeSpec) :
    live ((live items).map condensed) = (live items).map condensed := by
  apply List.filter_eq_self.mpr
  intro item hi
  obtain ⟨origin, ho, rfl⟩ := List.mem_map.mp hi
  rw [isNull_condensed, (mem_live.mp ho).2]
  rfl

theorem not_unwraps_condensed (t : TypeSpec) : ∀ u, ¬ Unwraps t.condensed u := by
  induction t using unwrapping_induction with
  | rest t h =>
    intro u hu
    cases t with
    | or items =>
      have hne : ∀ item, live items ≠ [item] := fun item hi => h item (.or hi)
      rw [condensed_or hne] at hu
      cases hu with
      | or hl =>
        rw [live_map_condensed] at hl
        obtain ⟨only, ho, _⟩ := List.map_eq_singleton_iff.mp hl
        exact hne only ho
    | tuple items =>
      have hne : ∀ item, live items ≠ [item] := fun item hi => h item (.tuple hi)
      rw [condensed_tuple hne] at hu
      cases hu with
      | tuple hl =>
        rw [live_map_condensed] at hl
        obtain ⟨only, ho, _⟩ := List.map_eq_singleton_iff.mp hl
        exact hne only ho
    | _ => cases hu
  | step t u h ih =>
    rw [h.condensed_eq]
    exact ih

theorem core_condensed (t : TypeSpec) : t.condensed.core = t.condensed :=
  core_eq_self (not_unwraps_condensed t)

theorem live_condensedItems (items : List TypeSpec) :
    live (condensedItems items) = condensedItems items := by
  rw [condensedItems_eq_map, live_map_condensed]

/-- What a single item shares with the union or tuple around it is kept. -/
theorem apply_unwrapped {β : Type} {G : TypeSpec → β} (hG : ∀ {t u}, Unwraps t u → G t = G u)
    (h : ∀ item, items = [item] → Unwraps (wrap items) item) :
    G (unwrapped wrap items) = G (wrap items) := by
  unfold unwrapped
  split
  · next item => exact (hG (h item rfl)).symm
  · rfl

theorem apply_condensed_or {β : Type} {G : TypeSpec → β} (hG : ∀ {t u}, Unwraps t u → G t = G u)
    (items : List TypeSpec) : G (TypeSpec.or items).condensed = G (.or (condensedItems items)) := by
  apply apply_unwrapped hG
  intro item hi
  exact .or ((live_condensedItems items).trans hi)

theorem apply_condensed_tuple {β : Type} {G : TypeSpec → β} (hG : ∀ {t u}, Unwraps t u → G t = G u)
    (items : List TypeSpec) :
    G (TypeSpec.tuple items).condensed = G (.tuple (condensedItems items)) := by
  apply apply_unwrapped hG
  intro item hi
  exact .tuple ((live_condensedItems items).trans hi)

section Mentions

mutual

theorem mentions_condensed : (t : TypeSpec) → t.condensed.mentions = t.mentions
  | .array element => mentions_condensed element
  | .map key value => congrArg₂ (· ++ ·) (mentions_condensed key) (mentions_condensed value)
  | .or items =>
    (apply_condensed_or renders_mentions.eq_of_unwraps items).trans
      (mentionsAll_condensedItems items)
  | .tuple items =>
    (apply_condensed_tuple renders_mentions.eq_of_unwraps items).trans
      (mentionsAll_condensedItems items)
  | .base _ | .reference _ | .literal _ | .stringLiteral _ => rfl

theorem mentionsAll_condensedItems :
    (items : List TypeSpec) → mentionsAll (condensedItems items) = mentionsAll items
  | [] => rfl
  | item :: items => by
    rw [condensedItems, mentionsAll]
    split
    · next hn =>
      rw [renders_mentions.null hn, List.nil_append]
      exact mentionsAll_condensedItems items
    · rw [mentionsAll, mentions_condensed item, mentionsAll_condensedItems items]

end

end Mentions

section Expressions

variable (owner) in
mutual

/-- A condensed type is written as before, with the same gaps or up to the same error. -/
theorem expression_condensed : (t : TypeSpec) →
    t.condensed.expression owner = t.expression owner
  | .array element => by
    rw [condensed, expression, expression, expression_condensed element]
  | .map key value => by
    rw [condensed, expression, expression, expression_condensed key, expression_condensed value]
  | .or items => by
    rw [apply_condensed_or Unwraps.expression_eq, expression, expression,
      liveExpressions_condensedItems items]
  | .tuple items => by
    rw [apply_condensed_tuple Unwraps.expression_eq, expression, expression,
      liveExpressions_condensedItems items]
  | .base _ | .reference _ | .literal _ | .stringLiteral _ => rfl

theorem liveExpressions_condensedItems : (items : List TypeSpec) →
    liveExpressions owner (condensedItems items) = liveExpressions owner items
  | [] => rfl
  | item :: items => by
    rw [condensedItems, liveExpressions]
    split
    · exact liveExpressions_condensedItems items
    · next hn =>
      rw [liveExpressions, isNull_condensed, if_neg hn, expression_condensed item,
        liveExpressions_condensedItems items]

end

end Expressions

end TypeSpec

def ValueKind.condensed : ValueKind → ValueKind
  | .union alternatives => .union (alternatives.map TypeSpec.condensed)
  | .primitive => .primitive
  | .enumeration => .enumeration
  | .aggregate => .aggregate
  | .placeholder => .placeholder

namespace Context

variable {ctx : Context} {owner name : String} {t : TypeSpec}

theorem kindAtRest_condensed (h : ∀ u, ¬ TypeSpec.Unwraps t u) :
    ctx.kindAtRest owner t.condensed =
      (ctx.kindAtRest owner t).map ValueKind.condensed := by
  cases t with
  | or items =>
    rw [TypeSpec.condensed_or fun item hi => h item (.or hi), kindAtRest, kindAtRest,
      TypeSpec.live_map_condensed]
    cases TypeSpec.live items <;> rfl
  | tuple items =>
    rw [TypeSpec.condensed_tuple fun item hi => h item (.tuple hi), kindAtRest, kindAtRest,
      TypeSpec.live_map_condensed]
    cases TypeSpec.live items <;> rfl
  | base name =>
    rw [TypeSpec.condensed, kindAtRest]
    cases baseType owner name <;> rfl
  | reference name =>
    rw [TypeSpec.condensed, kindAtRest]
    split
    · rfl
    · split
      · split <;> rfl
      · rfl
      · rfl
      · rfl
  | _ => rfl

theorem core_eq_of_condensed_eq (h : t.condensed = .reference name) : t.core = .reference name := by
  have hrest := TypeSpec.not_unwraps_core t
  rw [← TypeSpec.condensed_core] at h
  cases hc : t.core with
  | reference other =>
    rw [hc] at h
    exact h
  | or items =>
    rw [hc] at h hrest
    rw [TypeSpec.condensed_or fun item hi => hrest item (.or hi)] at h
    cases h
  | tuple items =>
    rw [hc] at h hrest
    rw [TypeSpec.condensed_tuple fun item hi => hrest item (.tuple hi)] at h
    cases h
  | _ =>
    rw [hc] at h
    cases h

/-- A type that is condensed to a reference is classified as that reference. -/
theorem classify_of_condensed_eq (ctx : Context) (owner : String)
    (h : t.condensed = .reference name) :
    ctx.classify owner t.condensed = ctx.classify owner t := by
  rw [classify, classify, trace_of_reference (core_eq_of_condensed_eq h), h,
    trace_of_reference (t := .reference name) rfl]

theorem classify_condensed (ctx : Context) (owner : String)
    (h : ∀ name, t.condensed ≠ .reference name) :
    ctx.classify owner t.condensed = (ctx.classify owner t).map ValueKind.condensed := by
  -- neither of the two types is looked through
  have hcore : ∀ name, t.core ≠ .reference name := by
    intro name hc
    apply h name
    rw [← TypeSpec.condensed_core, hc]
    rfl
  rw [classify_at_rest fun name a hc => (hcore name hc).elim,
    classify_at_rest fun name a hc => (h name (TypeSpec.core_condensed t ▸ hc)).elim,
    TypeSpec.core_condensed, ← TypeSpec.condensed_core,
    kindAtRest_condensed (TypeSpec.not_unwraps_core t)]

/-- Null markers and single items are invisible. A condensed type has the same C++ type, the same
references and the same gaps or error. Its kind is the same too: with condensed alternatives if the
type is a union itself, and with those of the alias if it is a reference. -/
theorem condensed_resolves_alike (ctx : Context) (owner : String) (optional : Bool)
    (t : TypeSpec) :
    t.condensed.slotExpression owner optional = t.slotExpression owner optional ∧
      t.condensed.references = t.references ∧
      (∀ name, t.condensed = .reference name →
        ctx.classify owner t.condensed = ctx.classify owner t) ∧
      ((∀ name, t.condensed ≠ .reference name) →
        ctx.classify owner t.condensed = (ctx.classify owner t).map ValueKind.condensed) := by
  refine ⟨?_, ?_, ?_, ?_⟩
  · rw [TypeSpec.slotExpression, TypeSpec.slotExpression, TypeSpec.expression_condensed]
  · rw [TypeSpec.references, TypeSpec.references, TypeSpec.mentions_condensed]
  · intro name h
    exact ctx.classify_of_condensed_eq owner h
  · intro h
    exact ctx.classify_condensed owner h

/-- An alias of a union with a null marker further in. -/
def grades : Context where
  options := {}
  schema := {
    aliases := [{
      name := "Grade"
      type := .or [.or [.base "string", .null], .base "integer"] }] }

theorem classify_grade : grades.classify "Report.grade" (.reference "Grade") =
    .ok (.union [.or [.base "string", .null], .base "integer"]) := by
  cbv

def mark : TypeSpec :=
  .or [.null, .or [.null, .base "string"], .array (.tuple [.literal [], .null])]

theorem condensed_resolves_alike_mark :
    mark.condensed = .or [.base "string", .array (.literal [])] ∧
      mark.condensed.slotExpression "Report.mark" true = mark.slotExpression "Report.mark" true ∧
      (mark.slotExpression "Report.mark" true).written = [⟨"Report.mark", .literal⟩] ∧
      grades.classify "Report.mark" mark.condensed =
        .ok (.union [.base "string", .array (.literal [])]) ∧
      grades.classify "Report.grade"
          (TypeSpec.tuple [.null, .or [.reference "Grade", .null]]).condensed =
        .ok (.union [.or [.base "string", .null], .base "integer"]) := by
  have hmark := grades.condensed_resolves_alike "Report.mark" true mark
  have hgrade := grades.condensed_resolves_alike "Report.grade" true
    (.tuple [.null, .or [.reference "Grade", .null]])
  have hkind : grades.classify "Report.mark" mark =
      .ok (.union [.or [.null, .base "string"], .array (.tuple [.literal [], .null])]) := by
    cbv
  have hwrapped : grades.classify "Report.grade" (.tuple [.null, .or [.reference "Grade", .null]]) =
      .ok (.union [.or [.base "string", .null], .base "integer"]) := by
    cbv
  refine ⟨rfl, hmark.1, rfl, ?_, ?_⟩
  · rw [hmark.2.2.2 (fun name h => by cases h), hkind]
    rfl
  · exact (hgrade.2.2.1 "Grade" rfl).trans hwrapped

theorem alias_alternatives_not_condensed :
    (TypeSpec.reference "Grade").condensed = .reference "Grade" ∧
      grades.classify "Report.grade" (TypeSpec.reference "Grade").condensed ≠
        (grades.classify "Report.grade" (.reference "Grade")).map ValueKind.condensed := by
  refine ⟨rfl, ?_⟩
  rw [TypeSpec.condensed, classify_grade]
  intro h
  cases h

end Context

end ProtocolBindings

import ProtocolBindings.Code.Fragment
import ProtocolBindings.Text.Identifier
import ProtocolBindings.Types.ValueKind

namespace ProtocolBindings

/-- The name of an accessor's alternative. Compound types carry their form in the name. -/
def alternativeLabel (index : Nat) : TypeSpec → String
  | .base name | .reference name => name
  | .array element => "array_" ++ alternativeLabel index element
  | .map _ _ => "map_Map" ++ toString index
  | .or _ => "or_Union" ++ toString index
  | .tuple _ => "tuple_Tuple" ++ toString index
  | .literal _ => "literal_Literal" ++ toString index
  | .stringLiteral _ => "stringLiteral_Literal" ++ toString index

/-- The name of an alternative of a known kind: unions are named alike behind any alias. -/
def accessorLabel (index : Nat) (kind : ValueKind) (t : TypeSpec) : String :=
  match kind with
  | .union _ => "or_Union" ++ toString index
  | _ => alternativeLabel index t

/-- The gap left by an alternative that gets no accessors. -/
def skippedAlternative : TypeSpec → Option GapKind
  | .literal _ | .stringLiteral _ => some .literalInUnion
  | .tuple _ => some .tupleInUnion
  | _ => none

/-- The name of a nested union by its position. -/
def unionName (index : Nat) : String :=
  "Union" ++ toString index

/-- A name inside a scope; the outermost scope has no name. -/
def qualify (scope name : String) : String :=
  if scope.isEmpty then name else scope ++ "::" ++ name

/-- How values of a kind are read. -/
def ValueKind.access : ValueKind → Access
  | .primitive => .primitive
  | .enumeration => .enumeration
  | .union _ | .aggregate => .wrapper
  | .placeholder => .placeholder

/-- The accessors of an alternative. -/
def alternativeMembers (scope label : String) (type : CppType) (kind : ValueKind)
    (reading : Body) : List Fragment :=
  Fragment.member scope (.holds label) (.testAlternative type) ++
    Fragment.member scope (.readAs type label) reading ++
    (match kind with
      | .primitive => Fragment.member scope (.setter type label) .writeAlternative
      | _ => []) ++
    [.blank]

/-- The type of an alternative that is no union, and how it is read. Maps cannot be read. -/
def plainAlternative (scope : String) (kind : ValueKind) (t : TypeSpec) :
    Draft Fragment (CppType × Body) :=
  match t with
  | .map _ _ => do
    .write (.gap ⟨scope, .mapInUnion⟩)
    let type ← (t.expression scope).mapWritten .gap
    return (type, .missingAlternative)
  | _ => do
    let type ← (t.expression scope).mapWritten .gap
    return (type, .readAlternative kind.access type)

/-- Stops at an error, back at the level around the class. -/
def leaveAndFail {α : Type} (e : SchemaError) : Draft Fragment α := do
  .write .leaveClass
  .fail e

namespace TypeSpec

theorem sizeOf_live_le (items : List TypeSpec) : sizeOf (live items) ≤ sizeOf items := by
  induction items with
  | nil => exact Nat.le_refl _
  | cons item items ih =>
    simp only [live, List.filter_cons] at ih ⊢
    split
    · simp only [List.cons.sizeOf_spec]
      omega
    · simp only [List.cons.sizeOf_spec]
      omega

theorem sizeOf_head_lt (t : TypeSpec) (rest : List TypeSpec) :
    3 * sizeOf t + 2 < 3 * sizeOf (t :: rest) := by
  rw [List.cons.sizeOf_spec]
  omega

theorem sizeOf_tail_lt (t : TypeSpec) (rest : List TypeSpec) :
    3 * sizeOf rest < 3 * sizeOf (t :: rest) := by
  rw [List.cons.sizeOf_spec]
  omega

mutual

theorem sizeOf_core_le : (t : TypeSpec) → sizeOf t.core ≤ sizeOf t
  | .or items => by
    rw [core]
    cases h : coreOfOnly items with
    | none => exact Nat.le_refl _
    | some c =>
      have := sizeOf_le_of_coreOfOnly items c h
      simp only [Option.getD_some, or.sizeOf_spec]
      omega
  | .tuple items => by
    rw [core]
    cases h : coreOfOnly items with
    | none => exact Nat.le_refl _
    | some c =>
      have := sizeOf_le_of_coreOfOnly items c h
      simp only [Option.getD_some, tuple.sizeOf_spec]
      omega
  | .base _ | .reference _ | .array _ | .map _ _ | .literal _ | .stringLiteral _ => by
    simp only [core, Nat.le_refl]

theorem sizeOf_le_of_coreOfOnly :
    (items : List TypeSpec) → ∀ c, coreOfOnly items = some c → sizeOf c ≤ sizeOf items
  | [], c, h => by simp [coreOfOnly] at h
  | item :: items, c, h => by
    have hitem := sizeOf_core_le item
    have hitems := sizeOf_le_of_coreOfOnly items
    rw [coreOfOnly] at h
    simp only [List.cons.sizeOf_spec]
    split at h
    · have := hitems c h
      omega
    · split at h
      · cases h
        omega
      · cases h

end

end TypeSpec

namespace Context

/-- Looking through aliases only adds aliases of the model to those followed. -/
theorem exists_append_of_trace {ctx : Context} {owner : String} {followed after : List String}
    {t : TypeSpec} {kind : ValueKind} (h : ctx.trace owner followed t = .ok (kind, after)) :
    ∃ more, after = followed ++ more ∧
      ∀ name ∈ more, ∃ a ∈ ctx.schema.aliases, a.name = name := by
  fun_induction trace ctx owner followed t with
  | case1 followed t name ht =>
    cases hb : baseType owner name with
    | error e => rw [hb] at h; cases h
    | ok b => rw [hb] at h; cases h; exact ⟨[], by simp, by simp⟩
  | case13 followed t name ht hb a ha hf ih =>
    obtain ⟨more, hm, hall⟩ := ih h
    refine ⟨name :: more, by simpa using hm, ?_⟩
    intro n hn
    rcases List.mem_cons.mp hn with rfl | hn
    · exact ⟨a, mem_aliases_of_lookup ha⟩
    · exact hall n hn
  | _ => cases h <;> exact ⟨[], by simp, by simp⟩

/-- A union found without looking through an alias lies inside the type. -/
theorem sizeOf_lt_of_trace {ctx : Context} {owner : String} {followed : List String}
    {t : TypeSpec} {items : List TypeSpec}
    (h : ctx.trace owner followed t = .ok (.union items, followed)) : sizeOf items < sizeOf t := by
  have hc := TypeSpec.sizeOf_core_le t
  rw [trace] at h
  split at h
  · next name _ =>
    cases hb : baseType owner name with
    | error e => rw [hb] at h; cases h
    | ok b => rw [hb] at h; cases h
  · cases h
  · cases h
  · cases h
  · cases h
  · next alternatives ht =>
    split at h
    · cases h
    · cases h
      have := TypeSpec.sizeOf_live_le alternatives
      rw [ht] at hc
      simp only [TypeSpec.or.sizeOf_spec] at hc
      omega
  · split at h <;> cases h
  · split at h
    · cases h
    · split at h
      · split at h <;> cases h
      · split at h
        · cases h
        · obtain ⟨more, hm, _⟩ := exists_append_of_trace h
          simp at hm
      · cases h
      · cases h

/-- Either a union lies inside the type, or fewer aliases are left once those looked through for it
are passed. -/
theorem descends_of_trace {ctx : Context} {owner : String} {path followed : List String}
    {t : TypeSpec} {items : List TypeSpec}
    (h : ctx.trace owner [] t = .ok (.union items, followed))
    (hp : ¬ followed.any (· ∈ path) = true) :
    followed = [] ∧ sizeOf items < sizeOf t ∨
      (ctx.unfollowed (path ++ followed)).length < (ctx.unfollowed path).length := by
  cases followed with
  | nil => exact .inl ⟨rfl, sizeOf_lt_of_trace h⟩
  | cons name rest =>
    obtain ⟨more, hm, hall⟩ := exists_append_of_trace h
    obtain ⟨a, ha, hn⟩ := hall name (by rw [← List.nil_append more, ← hm]; simp)
    simp only [List.any_cons, Bool.or_eq_true, not_or, decide_eq_true_eq] at hp
    exact .inr (length_without_lt ha (hn ▸ hp.1) (by simp [hn]))

/-- A union lies inside the type, or inside the type of an alias. -/
theorem sizeOf_lt_or_of_trace {ctx : Context} {owner : String} {followed after : List String}
    {t : TypeSpec} {items : List TypeSpec}
    (h : ctx.trace owner followed t = .ok (.union items, after)) :
    sizeOf items < sizeOf t ∨ sizeOf items < sizeOf ctx.schema.aliases := by
  fun_induction trace ctx owner followed t with
  | case1 followed t name ht =>
    cases hb : baseType owner name with
    | error e => rw [hb] at h; cases h
    | ok b => rw [hb] at h; cases h
  | case7 followed t alternatives ht hne =>
    cases h
    have hc := TypeSpec.sizeOf_core_le t
    have hl := TypeSpec.sizeOf_live_le alternatives
    rw [ht, TypeSpec.or.sizeOf_spec] at hc
    omega
  | case11 followed t name ht hb e he => split at h <;> cases h
  | case13 followed t name ht hb a ha hf ih =>
    have hmem := List.sizeOf_lt_of_mem (mem_aliases_of_lookup ha).1
    have htype : sizeOf a.type < sizeOf a := by
      cases a
      simp only [TypeAlias.mk.sizeOf_spec]
      omega
    rcases ih h with h | h
    · omega
    · exact .inr h
  | _ => cases h

/-- Counts the aliases left before the size, as long as no size is above the bound. -/
def rank (left bound size : Nat) : Nat :=
  left * (3 * bound + 3) + size

theorem rank_lt_rank {left bound size greater : Nat} (h : size < greater) :
    rank left bound size < rank left bound greater :=
  Nat.add_lt_add_left h _

theorem rank_lt_of_trace {ctx : Context} {owner : String} {path followed : List String}
    {t : TypeSpec} {items : List TypeSpec}
    (h : ctx.trace owner [] t = .ok (.union items, followed))
    (hp : ¬ followed.any (· ∈ path) = true) :
    rank (ctx.unfollowed (path ++ followed)).length (sizeOf ctx.schema.aliases)
        (3 * sizeOf items + 1) <
      rank (ctx.unfollowed path).length (sizeOf ctx.schema.aliases) (3 * sizeOf t + 2) := by
  unfold rank
  rcases descends_of_trace h hp with ⟨rfl, hs⟩ | hl
  · rw [List.append_nil]
    omega
  · have hm := Nat.mul_le_mul_right (3 * sizeOf ctx.schema.aliases + 3) (Nat.succ_le_of_lt hl)
    rw [Nat.succ_mul] at hm
    rcases sizeOf_lt_or_of_trace h with hs | hs
    · omega
    · omega

mutual

/-- Drafts the union `name` inside `scope`. `path` holds the aliases looked through so far. -/
def union (ctx : Context) (path : List String) (scope name : String)
    (alternatives : List TypeSpec) : Draft Fragment Unit := do
  let qualified := qualify scope name
  let types ← (alternatives.mapM (TypeSpec.expression qualified)).silent
  .write (.openClass name (.union types))
  ctx.alternatives path qualified 0 [] alternatives
  .write .closeClass
termination_by
  rank (ctx.unfollowed path).length (sizeOf ctx.schema.aliases) (3 * sizeOf alternatives + 1)
decreasing_by exact rank_lt_rank (Nat.lt_succ_self _)

/-- Drafts alternatives of the union `scope` from a position on, given the labels in use. -/
def alternatives (ctx : Context) (path : List String) (scope : String) (index : Nat)
    (labels : List String) : List TypeSpec → Draft Fragment Unit
  | [] => pure ()
  | t :: rest => do
    let label? ← ctx.alternative path scope index labels t
    ctx.alternatives path scope (index + 1) (labels ++ label?.toList) rest
termination_by rest =>
  rank (ctx.unfollowed path).length (sizeOf ctx.schema.aliases) (3 * sizeOf rest)
decreasing_by
  · exact rank_lt_rank (TypeSpec.sizeOf_head_lt t rest)
  · exact rank_lt_rank (TypeSpec.sizeOf_tail_lt t rest)

/-- Drafts one alternative, and gives its label if it has accessors. -/
def alternative (ctx : Context) (path : List String) (scope : String) (index : Nat)
    (labels : List String) (t : TypeSpec) : Draft Fragment (Option String) :=
  match skippedAlternative t with
  | some gap => do
    .write (.gap ⟨scope, gap⟩)
    return none
  | none =>
    match _h : ctx.trace scope [] t with
    | .error e => .fail e
    | .ok (kind, followed) =>
      let label := accessorLabel index kind t
      if !Text.isIdentifier label then leaveAndFail (.invalidIdentifier scope label)
      else if label ∈ labels then leaveAndFail (.nameCollision scope label)
      else
        match kind, _h with
        | .union items, _h =>
          if _hp : followed.any (· ∈ path) then .fail (.endlessUnion scope)
          else do
            let type := .nested scope (unionName index)
            ctx.union (path ++ followed) scope (unionName index) items
            .writeAll (alternativeMembers scope label type kind (.readAlternative .wrapper type))
            return some label
        | _, _ => do
          let (type, reading) ← plainAlternative scope kind t
          .writeAll (alternativeMembers scope label type kind reading)
          return some label
termination_by
  rank (ctx.unfollowed path).length (sizeOf ctx.schema.aliases) (3 * sizeOf t + 2)
decreasing_by exact rank_lt_of_trace _h _hp

end

end Context

end ProtocolBindings

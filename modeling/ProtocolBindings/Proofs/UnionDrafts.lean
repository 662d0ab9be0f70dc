import ProtocolBindings.Proofs.Drafts
import ProtocolBindings.Synthesis.Union

namespace ProtocolBindings

theorem result_plainAlternative {scope : String} {kind : ValueKind} {t : TypeSpec} {type : CppType}
    {reading : Body} (h : (plainAlternative scope kind t).result = .ok (type, reading)) :
    (t.expression scope).result = .ok type ∧
      (reading = .missingAlternative ∨ reading = .readAlternative kind.access type) := by
  unfold plainAlternative at h
  split at h
  · obtain ⟨_, _, h⟩ := Draft.result_bind_eq_ok.mp h
    obtain ⟨_, he, h⟩ := Draft.result_bind_eq_ok.mp h
    cases h
    exact ⟨he, .inl rfl⟩
  · obtain ⟨_, he, h⟩ := Draft.result_bind_eq_ok.mp h
    cases h
    exact ⟨he, .inr rfl⟩

theorem writes_plainAlternative {P : Fragment → Prop} (hgap : ∀ gap, P (.gap gap)) (scope : String)
    (kind : ValueKind) (t : TypeSpec) : (plainAlternative scope kind t).Writes P := by
  have hexpression : ((t.expression scope).mapWritten Fragment.gap).Writes P :=
    Draft.writes_mapWritten hgap
  unfold plainAlternative
  split
  · refine (Draft.writes_write (hgap _)).bind ?_
    intro _ _
    refine hexpression.bind ?_
    exact fun _ _ => Draft.writes_pure _
  · refine hexpression.bind ?_
    exact fun _ _ => Draft.writes_pure _

theorem writes_leaveAndFail {α : Type} {P : Fragment → Prop} (hleave : P .leaveClass)
    (e : SchemaError) : (leaveAndFail e : Draft Fragment α).Writes P := by
  refine (Draft.writes_write hleave).bind ?_
  exact fun _ _ => Draft.writes_fail e

namespace Context

variable {ctx : Context} {path followed : List String} {scope : String} {index : Nat}
  {labels : List String} {t : TypeSpec} {items : List TypeSpec}

/-- The alternative is a union itself, and becomes a class nested further in. -/
structure Nests (ctx : Context) (path : List String) (scope : String) (index : Nat)
    (labels : List String) (t : TypeSpec) (items : List TypeSpec) (followed : List String) :
    Prop where
  accessible : skippedAlternative t = none
  traced : ctx.trace scope [] t = .ok (.union items, followed)
  identifier : Text.isIdentifier (accessorLabel index (.union items) t) = true
  fresh : accessorLabel index (.union items) t ∉ labels
  ends : ¬ followed.any (· ∈ path) = true

/-- Everything that can become of an alternative. -/
inductive DraftsAlternative (ctx : Context) (path : List String) (scope : String) (index : Nat)
    (labels : List String) (t : TypeSpec) : Draft Fragment (Option String) → Prop
  | skipped {gap : GapKind} (h : skippedAlternative t = some gap) :
    DraftsAlternative ctx path scope index labels t (do
      .write (.gap ⟨scope, gap⟩)
      return none)
  | untraced {e : SchemaError} (hs : skippedAlternative t = none)
    (h : ctx.trace scope [] t = .error e) :
    DraftsAlternative ctx path scope index labels t (.fail e)
  | unnamed {kind : ValueKind} {followed : List String} (hs : skippedAlternative t = none)
    (ht : ctx.trace scope [] t = .ok (kind, followed))
    (h : Text.isIdentifier (accessorLabel index kind t) = false) :
    DraftsAlternative ctx path scope index labels t
      (leaveAndFail (.invalidIdentifier scope (accessorLabel index kind t)))
  | taken {kind : ValueKind} {followed : List String} (hs : skippedAlternative t = none)
    (ht : ctx.trace scope [] t = .ok (kind, followed))
    (hi : Text.isIdentifier (accessorLabel index kind t) = true)
    (h : accessorLabel index kind t ∈ labels) :
    DraftsAlternative ctx path scope index labels t
      (leaveAndFail (.nameCollision scope (accessorLabel index kind t)))
  | endless {items : List TypeSpec} {followed : List String} (hs : skippedAlternative t = none)
    (ht : ctx.trace scope [] t = .ok (.union items, followed))
    (hi : Text.isIdentifier (accessorLabel index (.union items) t) = true)
    (hl : accessorLabel index (.union items) t ∉ labels) (h : followed.any (· ∈ path) = true) :
    DraftsAlternative ctx path scope index labels t (.fail (.endlessUnion scope))
  | nested {items : List TypeSpec} {followed : List String}
    (h : ctx.Nests path scope index labels t items followed) :
    DraftsAlternative ctx path scope index labels t (do
      ctx.union (path ++ followed) scope (unionName index) items
      .writeAll (alternativeMembers scope (accessorLabel index (.union items) t)
        (.nested scope (unionName index)) (.union items)
        (.readAlternative .wrapper (.nested scope (unionName index))))
      return some (accessorLabel index (.union items) t))
  | plain {kind : ValueKind} {followed : List String} (hs : skippedAlternative t = none)
    (ht : ctx.trace scope [] t = .ok (kind, followed))
    (hi : Text.isIdentifier (accessorLabel index kind t) = true)
    (hl : accessorLabel index kind t ∉ labels) (hk : ∀ items, kind ≠ .union items) :
    DraftsAlternative ctx path scope index labels t (do
      let (type, reading) ← plainAlternative scope kind t
      .writeAll (alternativeMembers scope (accessorLabel index kind t) type kind reading)
      return some (accessorLabel index kind t))

theorem draftsAlternative (ctx : Context) (path : List String) (scope : String) (index : Nat)
    (labels : List String) (t : TypeSpec) :
    ctx.DraftsAlternative path scope index labels t
      (ctx.alternative path scope index labels t) := by
  rw [alternative]
  split
  · next gap h => exact .skipped h
  · next hs =>
    split
    · next e h => exact .untraced hs h
    · next kind followed ht =>
      dsimp only
      split
      · next h => exact .unnamed hs ht (by simpa using h)
      · next h =>
        have hi : Text.isIdentifier (accessorLabel index kind t) = true := by simpa using h
        split
        · next hl => exact .taken hs ht hi hl
        · next hl =>
          split
          · next items _ =>
            split
            · next hp => exact .endless hs ht hi hl hp
            · next hp => exact .nested ⟨hs, ht, hi, hl, hp⟩
          · next hk =>
            refine .plain hs ht hi hl ?_
            rintro items rfl
            exact hk items ht rfl HEq.rfl

section Types

variable {ctx : Context} {path : List String} {scope name : String} {alternatives : List TypeSpec}

theorem union_of_unresolved {e : SchemaError}
    (h : (alternatives.mapM (TypeSpec.expression (qualify scope name))).result = .error e) :
    ctx.union path scope name alternatives = .fail e := by
  have hs : ((alternatives.mapM (TypeSpec.expression (qualify scope name))).silent :
      Draft Fragment (List CppType)).result = .error e := h
  rw [union, Draft.bind_of_error hs]
  rfl

theorem union_of_resolved {types : List CppType}
    (h : (alternatives.mapM (TypeSpec.expression (qualify scope name))).result = .ok types) :
    ctx.union path scope name alternatives = (do
      .write (.openClass name (.union types))
      ctx.alternatives path (qualify scope name) 0 [] alternatives
      .write .closeClass) := by
  have hs : ((alternatives.mapM (TypeSpec.expression (qualify scope name))).silent :
      Draft Fragment (List CppType)).result = .ok types := h
  rw [union, Draft.bind_of_ok hs]
  rfl

end Types

/-- To show something of all unions, alternatives may be taken to have it in their nested ones. -/
theorem union_induction (ctx : Context)
    {U : List String → String → String → List TypeSpec → Prop}
    {L : List String → String → Nat → List String → List TypeSpec → Prop}
    {A : List String → String → Nat → List String → TypeSpec → Prop}
    (union : ∀ path scope name alternatives,
      L path (qualify scope name) 0 [] alternatives → U path scope name alternatives)
    (nil : ∀ path scope index labels, L path scope index labels [])
    (cons : ∀ path scope index labels t rest, A path scope index labels t →
      (∀ label? : Option String, L path scope (index + 1) (labels ++ label?.toList) rest) →
      L path scope index labels (t :: rest))
    (alternative : ∀ path scope index labels t,
      (∀ items followed, ctx.Nests path scope index labels t items followed →
        U (path ++ followed) scope (unionName index) items) → A path scope index labels t)
    (path : List String) (scope name : String) (alternatives : List TypeSpec) :
    U path scope name alternatives := by
  apply Context.union.induct ctx U L A
  · exact union
  · exact nil
  · exact cons
  -- One outcome of an alternative has a nested union; in the others there can be none.
  · intro path scope index labels t gap hg
    apply alternative
    intro items followed h
    rw [h.accessible] at hg
    cases hg
  · intro path scope index labels t _ e he
    apply alternative
    intro items followed h
    rw [h.traced] at he
    cases he
  · intro path scope index labels t _ kind followed ht _ hi
    apply alternative
    intro items followed h
    rw [h.traced] at ht
    cases ht
    change (!Text.isIdentifier (accessorLabel index (.union items) t)) = true at hi
    rw [h.identifier] at hi
    cases hi
  · intro path scope index labels t _ kind followed ht _ _ hl
    apply alternative
    intro items followed h
    rw [h.traced] at ht
    cases ht
    exact absurd hl h.fresh
  · intro path scope index labels t _ followed items ht hp _ _ _ _
    apply alternative
    intro items followed h
    rw [h.traced] at ht
    cases ht
    exact absurd hp h.ends
  · intro path scope index labels t _ followed items ht _ _ _ _ _ ih
    apply alternative
    intro items followed h
    rw [h.traced] at ht
    cases ht
    exact ih
  · intro path scope index labels t _ kind followed ht _ _ _ ht' hk
    apply alternative
    intro items followed h
    rw [h.traced] at ht
    cases ht
    exact absurd HEq.rfl (hk items ht' rfl)

end Context

end ProtocolBindings

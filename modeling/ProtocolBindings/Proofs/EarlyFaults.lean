import ProtocolBindings.Proofs.Resolution
import ProtocolBindings.Proofs.UnionFaults

namespace ProtocolBindings

def SchemaError.IsNameFault : SchemaError → Prop
  | .invalidIdentifier _ _ | .nameCollision _ _ => True
  | _ => False

namespace Context

variable {ctx : Context}

/-- A union either stops at the type of an alternative, with nothing written, or opens its class
with the types of all of them resolved. -/
theorem types_of_union (ctx : Context) (path : List String) (scope name : String)
    (items : List TypeSpec) :
    (∃ e, (∃ t ∈ items, (t.expression (qualify scope name)).result = .error e) ∧
        ctx.union path scope name items = .fail e) ∨
      ((∀ t ∈ items, t.resolves = true) ∧ (ctx.union path scope name items).written ≠ []) := by
  cases hr : (items.mapM (TypeSpec.expression (qualify scope name))).result with
  | error e => exact .inl ⟨e, Draft.exists_of_mapM_eq_error hr, union_of_unresolved hr⟩
  | ok types =>
    refine .inr ⟨?_, ?_⟩
    · intro t ht
      exact (TypeSpec.exists_expression_iff _ t).mp (Draft.exists_of_mapM_eq_ok hr t ht)
    · rw [union_of_resolved hr, Draft.bind_of_ok rfl]
      exact List.cons_ne_nil _ _

/-- Where types resolve, nothing but names can be at fault, or the union has no end. -/
theorem AliasesResolve.faultsWithin (h : ctx.AliasesResolve) :
    ctx.FaultsWithin (fun _ t => t.resolves = true)
      fun e => e.IsNameFault ∨ ∃ owner, e = .endlessUnion owner where
  type _ scope t ht := by
    obtain ⟨type, hk⟩ := (TypeSpec.exists_expression_iff scope t).mpr ht
    rw [hk]
    exact failsOnly_ok type
  trace _ scope t ht := by
    obtain ⟨found, hk⟩ := h.exists_trace scope [] ht
    rw [hk]
    exact failsOnly_ok found
  unnamed _ _ := .inl trivial
  taken _ _ := .inl trivial
  endless _ scope _ _ _ _ _ _ := .inr ⟨scope, rfl⟩
  nested _ _ _ _ _ ht htrace := h.alternatives ht htrace

/-- Where the types of aliases resolve, a fault in a type leaves header, source and gaps as they
were. Whatever stops a union later is a name, or an alias that contains itself. -/
theorem type_faults_come_first (haliases : ctx.AliasesResolve) (path : List String)
    (scope name : String) (items : List TypeSpec) (e : SchemaError)
    (he : (ctx.union path scope name items).result = .error e) :
    (e.IsTypeFault →
        (∃ t ∈ items, (t.expression (qualify scope name)).result = .error e) ∧
        (∀ l, Fragment.header l (ctx.union path scope name items).written = l) ∧
        (∀ l, Fragment.source l (ctx.union path scope name items).written = l) ∧
        Fragment.gaps (ctx.union path scope name items).written = []) ∧
      ((ctx.union path scope name items).written ≠ [] →
        e.IsNameFault ∨ (∃ owner, e = .endlessUnion owner) ∧
          ((∀ t ∈ items, ctx.EnclosedBy path t) → ∃ n, ctx.ContainsItself n)) := by
  rcases ctx.types_of_union path scope name items with ⟨d, hd, hu⟩ | ⟨hr, hw⟩
  · rw [hu] at he ⊢
    cases he
    exact ⟨fun _ => ⟨hd, fun _ => rfl, fun _ => rfl, rfl⟩, fun hw => absurd rfl hw⟩
  · have hlate := haliases.faultsWithin.union path scope name items hr e he
    constructor
    · intro ht
      rcases hlate with hn | ⟨owner, rfl⟩
      · cases e with
        | unknownBaseType => exact hn.elim
        | emptyUnion => exact hn.elim
        | _ => exact ht.elim
      · exact ht.elim
    · intro _
      refine hlate.imp_right ?_
      rintro ⟨owner, rfl⟩
      exact ⟨⟨owner, rfl⟩, fun hp => containsItself_of_union hp he⟩

/-- An alias of a union in which a label comes twice. -/
def pairs : Context where
  options := {}
  schema := { aliases := [{ name := "Pair", type := .or [.base "string", .base "string"] }] }

theorem type_faults_come_first_pairs :
    pairs.AliasesResolve ∧
      (pairs.union [] "Hover" "Union0" [.reference "Pair", .array (.base "float")]).result =
        .error (.unknownBaseType "float" "Hover::Union0") ∧
      (∀ l, Fragment.header l (pairs.union [] "Hover" "Union0"
        [.reference "Pair", .array (.base "float")]).written = l) ∧
      (pairs.union [] "Hover" "Union0" [.base "integer", .reference "Pair"]).result =
        .error (.nameCollision "Hover::Union0::Union1" "string") ∧
      (pairs.union [] "Hover" "Union0" [.base "integer", .reference "Pair"]).written.length = 17 ∧
      (SchemaError.nameCollision "Hover::Union0::Union1" "string").IsNameFault := by
  have haliases : pairs.AliasesResolve := by
    intro a ha _
    cases List.mem_singleton.mp ha
    exact (TypeSpec.exists_expression_iff "Pair" _).mpr rfl
  have hearly : (pairs.union [] "Hover" "Union0"
      [.reference "Pair", .array (.base "float")]).result =
        .error (.unknownBaseType "float" "Hover::Union0") := by decide +kernel
  have hlate : (pairs.union [] "Hover" "Union0" [.base "integer", .reference "Pair"]).result =
      .error (.nameCollision "Hover::Union0::Union1" "string") := by decide +kernel
  have hwritten : (pairs.union [] "Hover" "Union0"
      [.base "integer", .reference "Pair"]).written.length = 17 := by decide +kernel
  obtain ⟨_, hheader, _, _⟩ := (type_faults_come_first haliases _ _ _ _ _ hearly).1 trivial
  refine ⟨haliases, hearly, hheader, hlate, hwritten, ?_⟩
  have hne := List.ne_nil_of_length_eq_add_one hwritten
  rcases (type_faults_come_first haliases _ _ _ _ _ hlate).2 hne with h | ⟨⟨_, h⟩, _⟩
  · exact h
  · cases h

end Context

end ProtocolBindings

import ProtocolBindings.Proofs.Registration
import ProtocolBindings.Proofs.Resolution

namespace ProtocolBindings

theorem TypeAlias.exists_expression_of_entry {options : Options} {a : TypeAlias} {entry : Entry}
    (h : (a.entry options).result = .ok entry) (hb : options.isBuiltin a.name = false) :
    ∃ type, (a.type.expression a.name).result = .ok type := by
  rw [TypeAlias.entry, if_neg (by simp [hb])] at h
  obtain ⟨type, ht, _⟩ := Draft.result_bind_eq_ok.mp h
  exact ⟨type, ht⟩

def Schema.beforeStructures (schema : Schema) : List Entity :=
  schema.enumerations.map .enumeration ++ schema.aliases.map .alias

namespace Context

variable {ctx : Context} {r : Registry} {t : TypeSpec}

theorem aliasesResolve_of_foldlM
    (h : (ctx.schema.beforeStructures.foldlM ctx.register .empty).result = .ok r) :
    ctx.AliasesResolve := by
  obtain ⟨entries, hentries, _⟩ := forall₂_of_foldlM h
  intro a ha hb
  have hmem : .alias a ∈ ctx.schema.beforeStructures :=
    List.mem_append_right _ (List.mem_map_of_mem ha)
  obtain ⟨entry, _, hentry⟩ := exists_mem_of_forall₂ hentries hmem
  exact TypeAlias.exists_expression_of_entry hentry hb

/-- A type that resolves has a kind, and so have its alternatives. -/
theorem AliasesResolve.exists_classify (ha : ctx.AliasesResolve) (ht : t.resolves = true)
    (owner : String) :
    ∃ kind, ctx.classify owner t = .ok kind ∧
      ∀ alternatives, kind = .union alternatives → ∀ item ∈ alternatives, item.resolves = true := by
  obtain ⟨⟨kind, followed⟩, hk⟩ := ha.exists_trace owner [] ht
  refine ⟨kind, classify_of_trace hk, ?_⟩
  rintro alternatives rfl
  exact ha.alternatives ht hk

/-- Once the aliases are registered their types resolve, and where these do, a type that can be
written can be classified, whatever the slot. The same holds of its alternatives. -/
theorem classification_adds_no_faults (ctx : Context) :
    (∀ r, (ctx.schema.beforeStructures.foldlM ctx.register .empty).result = .ok r →
        ctx.AliasesResolve) ∧
      (ctx.AliasesResolve → ∀ t scope, (∃ type, (t.expression scope).result = .ok type) →
        ∀ owner, ∃ kind, ctx.classify owner t = .ok kind ∧
          ∀ alternatives, kind = .union alternatives → ∀ item ∈ alternatives,
            (∃ type, (item.expression owner).result = .ok type) ∧
              ∃ kind, ctx.classify owner item = .ok kind) := by
  constructor
  · intro r h
    exact aliasesResolve_of_foldlM h
  · intro ha t scope ht owner
    obtain ⟨kind, hk, hitems⟩ :=
      ha.exists_classify ((TypeSpec.exists_expression_iff scope t).mp ht) owner
    refine ⟨kind, hk, ?_⟩
    intro alternatives he item hm
    have hitem := hitems alternatives he item hm
    obtain ⟨kind', hk', _⟩ := ha.exists_classify hitem owner
    exact ⟨(TypeSpec.exists_expression_iff owner item).mpr hitem, kind', hk'⟩

/-- An alias of itself, a union that leads to it, and a built-in one that does not resolve. -/
def coils : Context where
  options := {}
  schema := {
    aliases := [
      { name := "Coil", type := .reference "Coil" },
      { name := "Winding", type := .tuple [.null, .or [.reference "Coil", .base "integer"]] },
      { name := "LSPAny", type := .base "float" }] }

theorem classification_adds_no_faults_coils :
    coils.AliasesResolve ∧
      (TypeSpec.expression "LSPAny" (.base "float")).result =
        .error (.unknownBaseType "float" "LSPAny") ∧
      ((TypeSpec.reference "Winding").expression "Motor.coil").result = .ok (.named "Winding") ∧
      ∃ kind, coils.classify "Motor.coil" (.reference "Winding") = .ok kind := by
  have hregistered :
      (coils.schema.beforeStructures.foldlM coils.register .empty).result.isOk = true := by
    decide +kernel
  obtain ⟨hfirst, hkind⟩ := coils.classification_adds_no_faults
  cases hr : (coils.schema.beforeStructures.foldlM coils.register .empty).result with
  | error e =>
    rw [hr] at hregistered
    cases hregistered
  | ok r =>
    have haliases := hfirst r hr
    obtain ⟨kind, hk, _⟩ := hkind haliases (.reference "Winding") "Motor.coil" ⟨_, rfl⟩ "Motor.coil"
    exact ⟨haliases, rfl, rfl, kind, hk⟩

end Context

end ProtocolBindings

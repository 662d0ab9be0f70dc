import ProtocolBindings.Proofs.Rendering
import ProtocolBindings.Synthesis.Union

namespace ProtocolBindings

namespace Context

variable {ctx : Context} {owner : String} {followed after : List String} {t u : TypeSpec}
  {items : List TypeSpec}

theorem classify_of_trace {kind : ValueKind} (h : ctx.trace owner [] t = .ok (kind, followed)) :
    ctx.classify owner t = .ok kind := by
  rw [classify, h]
  rfl

/-- Looking through aliases from one type to another one. -/
inductive LeadsTo (ctx : Context) : TypeSpec → TypeSpec → Prop
  | core (t : TypeSpec) : LeadsTo ctx t t.core
  | through {t u : TypeSpec} {name : String} {a : TypeAlias} (ht : t.core = .reference name)
    (hb : ctx.options.isBuiltin name = false) (ha : ctx.schema.lookup name = some (.alias a))
    (h : LeadsTo ctx a.type u) : LeadsTo ctx t u

theorem LeadsTo.of_core_eq (h : ctx.LeadsTo t u) {t' : TypeSpec} (he : t'.core = t.core) :
    ctx.LeadsTo t' u := by
  cases h with
  | core => exact he ▸ .core t'
  | through ht hb ha h => exact .through (he.trans ht) hb ha h

theorem leadsTo_of_trace_union
    (h : ctx.trace owner followed t = .ok (.union items, after)) :
    ∃ all, ctx.LeadsTo t (.or all) ∧ items = TypeSpec.live all := by
  fun_induction trace ctx owner followed t with
  | case1 followed t name ht =>
    obtain ⟨_, _, hk⟩ := Except.map_eq_ok.mp h
    cases hk
  | case7 followed t all ht hne =>
    cases h
    exact ⟨all, ht ▸ .core t, rfl⟩
  | case11 followed t name ht hb e he =>
    split at h <;> cases h
  | case13 followed t name ht hb a ha hf ih =>
    obtain ⟨all, hl, hi⟩ := ih h
    exact ⟨all, .through ht (by simpa using hb) ha hl, hi⟩
  | _ => cases h

theorem leadsTo_of_trace_enumeration
    (h : ctx.trace owner followed t = .ok (.enumeration, after)) :
    ∃ name e, ctx.LeadsTo t (.reference name) ∧ ctx.options.isBuiltin name = false ∧
      ctx.schema.lookup name = some (.enumeration e) ∧
      ctx.options.isPassThrough e.name = false := by
  fun_induction trace ctx owner followed t with
  | case1 followed t name ht =>
    obtain ⟨_, _, hk⟩ := Except.map_eq_ok.mp h
    cases hk
  | case11 followed t name ht hb e he =>
    split at h
    · cases h
    · next hp => exact ⟨name, e, ht ▸ .core t, by simpa using hb, he, by simpa using hp⟩
  | case13 followed t name ht hb a ha hf ih =>
    obtain ⟨n, e, hl, hn⟩ := ih h
    exact ⟨n, e, .through ht (by simpa using hb) ha hl, hn⟩
  | _ => cases h

/-- The name stands for a generated enumeration, perhaps through aliases. -/
def Denotes (ctx : Context) (name : String) (e : Enumeration) : Prop :=
  ∃ n, ctx.LeadsTo (.reference name) (.reference n) ∧ ctx.options.isBuiltin n = false ∧
    ctx.schema.lookup n = some (.enumeration e) ∧ ctx.options.isPassThrough e.name = false

theorem Denotes.isPassThrough {name : String} {e : Enumeration} (h : ctx.Denotes name e) :
    ctx.options.isPassThrough e.name = false := by
  obtain ⟨_, _, _, _, hp⟩ := h
  exact hp

theorem LeadsTo.core_eq_reference {n : String} (h : ctx.LeadsTo t (.reference n)) :
    ∃ name, t.core = .reference name := by
  generalize hu : TypeSpec.reference n = u at h
  cases h with
  | core => exact ⟨n, hu.symm⟩
  | through ht => exact ⟨_, ht⟩

theorem mem_enumerations_of_lookup {schema : Schema} {name : String} {e : Enumeration}
    (h : schema.lookup name = some (.enumeration e)) :
    e ∈ schema.enumerations ∧ e.name = name := by
  unfold Schema.lookup at h
  split at h
  · cases h
  · split at h
    · next found =>
      cases h
      have hn := List.find?_some found
      exact ⟨List.mem_of_find?_eq_some found, by simpa using hn⟩
    · obtain ⟨_, _, he⟩ := Option.map_eq_some_iff.mp h
      cases he

/-- An enumeration is rendered by one name that denotes it. -/
theorem denotes_of_trace (h : ctx.trace owner followed t = .ok (.enumeration, after))
    {scope : String} {type : CppType} (he : (t.expression scope).result = .ok type) :
    ∃ name e, type = .named name ∧ ctx.Denotes name e := by
  obtain ⟨n, e, hl, hn⟩ := leadsTo_of_trace_enumeration h
  obtain ⟨name, hc⟩ := hl.core_eq_reference
  rw [← TypeSpec.expression_core, hc] at he
  cases he
  exact ⟨name, e, rfl, n, hl.of_core_eq hc.symm, hn⟩

end Context

end ProtocolBindings

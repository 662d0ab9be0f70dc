import ProtocolBindings.Proofs.Classification

namespace ProtocolBindings

def baseNames : List String :=
  ["string", "RegExp", "DocumentUri", "URI", "decimal", "integer", "uinteger", "boolean"]

theorem exists_baseType_iff (owner name : String) :
    (∃ text, baseType owner name = .ok text) ↔ name ∈ baseNames := by
  unfold baseType
  split <;> simp_all [baseNames]

theorem exists_collapse_iff {owner wrapper : String} {types : List CppType} :
    (∃ type, collapse owner wrapper types = .ok type) ↔ types ≠ [] := by
  match types with
  | [] => simp [collapse]
  | [_] | _ :: _ :: _ => simp [collapse]

theorem Draft.exists_result_bind_iff {ω α β : Type} {x : Draft ω α} {f : α → Draft ω β} :
    (∃ b, (x >>= f).result = .ok b) ↔
      ∃ a, x.result = .ok a ∧ ∃ b, (f a).result = .ok b := by
  simp only [result_bind_eq_ok]
  exact ⟨fun ⟨b, a, ha, hb⟩ => ⟨a, ha, b, hb⟩, fun ⟨a, ha, b, hb⟩ => ⟨b, a, ha, hb⟩⟩

namespace TypeSpec

mutual

/-- Are all base types known, and is no union or tuple without items? -/
def resolves : TypeSpec → Bool
  | .base name => name ∈ baseNames
  | .reference _ | .literal _ | .stringLiteral _ => true
  | .array element => element.resolves
  | .map key value => key.resolves && value.resolves
  | .or items => !(live items).isEmpty && allResolve items
  | .tuple items => !(live items).isEmpty && allResolve items

def allResolve : List TypeSpec → Bool
  | [] => true
  | item :: items => (item.isNull || item.resolves) && allResolve items

end

theorem allResolve_iff {items : List TypeSpec} :
    allResolve items = true ↔ ∀ t ∈ live items, t.resolves = true := by
  induction items with
  | nil => simp [allResolve, live]
  | cons item items ih =>
    rw [allResolve, Bool.and_eq_true, ih]
    cases h : item.isNull with
    | true => simp [live, h]
    | false => simp [live, h]

variable {owner : String}

theorem length_liveExpressions {items : List TypeSpec} {types : List CppType}
    (h : (liveExpressions owner items).result = .ok types) :
    types.length = (live items).length := by
  induction items generalizing types with
  | nil =>
    cases h
    rfl
  | cons item items ih =>
    rw [liveExpressions] at h
    split at h
    · next hn =>
      rw [ih h, live, live, List.filter_cons_of_neg (by simp [hn])]
    · next hn =>
      obtain ⟨first, _, h⟩ := Draft.result_bind_eq_ok.mp h
      obtain ⟨others, ho, h⟩ := Draft.result_bind_eq_ok.mp h
      cases h
      rw [List.length_cons, ih ho, live, live, List.filter_cons_of_pos (by simp [hn]),
        List.length_cons]

/-- The items of a union or tuple are one type if all of them resolve and there are some. -/
theorem exists_collapse_liveExpressions_iff {wrapper : String} {items : List TypeSpec}
    (h : (∃ types, (liveExpressions owner items).result = .ok types) ↔ allResolve items = true) :
    (∃ type, (liveExpressions owner items >>= fun types =>
        Draft.lift (collapse owner wrapper types)).result = .ok type) ↔
      (!(live items).isEmpty && allResolve items) = true := by
  rw [Bool.and_eq_true, ← h]
  have hne {types : List CppType} (ht : (liveExpressions owner items).result = .ok types) :
      types ≠ [] ↔ (!(live items).isEmpty) = true := by
    rw [← List.length_pos_iff, length_liveExpressions ht, List.length_pos_iff]
    simp
  constructor
  · rintro ⟨type, ht⟩
    obtain ⟨types, htypes, ht⟩ := Draft.result_bind_eq_ok.mp ht
    exact ⟨(hne htypes).mp (exists_collapse_iff.mp ⟨type, ht⟩), types, htypes⟩
  · rintro ⟨hlive, types, htypes⟩
    obtain ⟨type, ht⟩ := exists_collapse_iff.mpr ((hne htypes).mpr hlive)
    exact ⟨type, Draft.result_bind_eq_ok.mpr ⟨types, htypes, ht⟩⟩

variable (owner) in
mutual

theorem exists_expression_iff : (t : TypeSpec) →
    ((∃ type, (t.expression owner).result = .ok type) ↔ t.resolves = true)
  | .base name => by
    rw [resolves, decide_eq_true_eq, ← exists_baseType_iff owner, expression]
    exact ⟨fun ⟨_, h⟩ => ⟨_, (Except.map_eq_ok.mp h).choose_spec.1⟩,
      fun ⟨text, h⟩ => ⟨_, Except.map_eq_ok.mpr ⟨text, h, rfl⟩⟩⟩
  | .reference _ | .literal _ | .stringLiteral _ => ⟨fun _ => rfl, fun _ => ⟨_, rfl⟩⟩
  | .array element => by
    rw [resolves, ← exists_expression_iff element, expression]
    simp only [Draft.exists_result_bind_iff, Draft.result_pure, Except.ok.injEq, exists_eq',
      and_true]
  | .map key value => by
    rw [resolves, Bool.and_eq_true, ← exists_expression_iff key, ← exists_expression_iff value,
      expression]
    simp only [Draft.exists_result_bind_iff, Draft.result_pure, Except.ok.injEq, exists_eq',
      and_true, exists_and_right]
  | .or items => exists_collapse_liveExpressions_iff (exists_liveExpressions_iff items)
  | .tuple items => exists_collapse_liveExpressions_iff (exists_liveExpressions_iff items)

theorem exists_liveExpressions_iff : (items : List TypeSpec) →
    ((∃ types, (liveExpressions owner items).result = .ok types) ↔ allResolve items = true)
  | [] => ⟨fun _ => rfl, fun _ => ⟨[], rfl⟩⟩
  | item :: items => by
    rw [liveExpressions, allResolve, Bool.and_eq_true, Bool.or_eq_true,
      ← exists_liveExpressions_iff items]
    split
    · next hn => simp [hn]
    · next hn =>
      rw [or_iff_right hn, ← exists_expression_iff item]
      simp only [Draft.exists_result_bind_iff, Draft.result_pure, Except.ok.injEq, exists_eq',
        and_true, exists_and_right]

end

theorem resolves_core {t : TypeSpec} (h : t.resolves = true) : t.core.resolves = true := by
  rw [← exists_expression_iff "", expression_core, exists_expression_iff]
  exact h

theorem resolves_of_mem_live {items : List TypeSpec} (h : (TypeSpec.or items).resolves = true)
    {t : TypeSpec} (ht : t ∈ live items) : t.resolves = true := by
  rw [resolves, Bool.and_eq_true] at h
  exact allResolve_iff.mp h.2 t ht

end TypeSpec

namespace Context

/-- The type of every alias resolves, built-in names apart. -/
def AliasesResolve (ctx : Context) : Prop :=
  ∀ a ∈ ctx.schema.aliases, ctx.options.isBuiltin a.name = false →
    ∃ type, (a.type.expression a.name).result = .ok type

variable {ctx : Context} {owner : String} {followed after : List String} {t u : TypeSpec}
  {items : List TypeSpec}

theorem AliasesResolve.of_lookup (ha : ctx.AliasesResolve) {name : String} {a : TypeAlias}
    (h : ctx.schema.lookup name = some (.alias a)) (hb : ctx.options.isBuiltin name = false) :
    a.type.resolves = true := by
  obtain ⟨hmem, rfl⟩ := mem_aliases_of_lookup h
  exact (TypeSpec.exists_expression_iff a.name a.type).mp (ha a hmem hb)

theorem LeadsTo.resolves (h : ctx.LeadsTo t u) (ha : ctx.AliasesResolve)
    (ht : t.resolves = true) : u.resolves = true := by
  induction h with
  | core t => exact TypeSpec.resolves_core ht
  | through _ hb hl _ ih => exact ih (ha.of_lookup hl hb)

theorem AliasesResolve.alternatives (ha : ctx.AliasesResolve) (ht : t.resolves = true)
    (h : ctx.trace owner followed t = .ok (.union items, after)) :
    ∀ item ∈ items, item.resolves = true := by
  obtain ⟨all, hl, rfl⟩ := leadsTo_of_trace_union h
  intro item hm
  exact TypeSpec.resolves_of_mem_live (hl.resolves ha ht) hm

/-- A type that resolves can be followed to its kind. -/
theorem AliasesResolve.exists_trace (ha : ctx.AliasesResolve) (owner : String)
    (followed : List String) (ht : t.resolves = true) :
    ∃ found, ctx.trace owner followed t = .ok found := by
  have hcore := TypeSpec.resolves_core ht
  fun_induction trace ctx owner followed t with
  | case1 followed t name hc =>
    rw [hc, TypeSpec.resolves, decide_eq_true_eq, ← exists_baseType_iff owner] at hcore
    obtain ⟨text, h⟩ := hcore
    exact ⟨_, Except.map_eq_ok.mpr ⟨text, h, rfl⟩⟩
  | case6 followed t items hc hl => simp [hc, TypeSpec.resolves, hl] at hcore
  | case8 followed t items hc hl => simp [hc, TypeSpec.resolves, hl] at hcore
  | case13 followed t name hc hb a hl hf ih =>
    have htype := ha.of_lookup hl (by simpa using hb)
    exact ih htype (TypeSpec.resolves_core htype)
  | _ => exact ⟨_, rfl⟩

end Context

end ProtocolBindings

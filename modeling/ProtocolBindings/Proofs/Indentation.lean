import ProtocolBindings.Proofs.Outlines

namespace ProtocolBindings

open Fragment (enclosing)

def SchemaError.nameOwner? : SchemaError → Option String
  | .invalidIdentifier owner _ | .nameCollision owner _ => some owner
  | _ => none

theorem SchemaError.IsTypeFault.nameOwner?_eq_none {e : SchemaError} (h : e.IsTypeFault) :
    e.nameOwner? = none := by
  cases e with
  | unknownBaseType => rfl
  | emptyUnion => rfl
  | _ => exact h.elim

/-- What stays open of the class of a union: the class with classes inside it, or nothing if it has
been left. -/
def stillOpen (name : String) : Option (List String) → List String
  | none => []
  | some inner => name :: inner

namespace Context

mutual

/-- Where the alternative at a position of the union `scope` stops, given the labels in use, and
which classes stay open inside that of the union, unless it is left. -/
inductive AlternativeStops (ctx : Context) :
    String → Nat → List String → TypeSpec → SchemaError → Option (List String) → Prop
  | unnamed {scope : String} {position : Nat} {labels : List String} {t : TypeSpec}
    {kind : ValueKind} (hs : skippedAlternative t = none) (hk : ctx.classify scope t = .ok kind)
    (hi : Text.isIdentifier (accessorLabel position kind t) = false) :
    AlternativeStops ctx scope position labels t
      (.invalidIdentifier scope (accessorLabel position kind t)) none
  | taken {scope : String} {position : Nat} {labels : List String} {t : TypeSpec}
    {kind : ValueKind} (hs : skippedAlternative t = none) (hk : ctx.classify scope t = .ok kind)
    (hl : accessorLabel position kind t ∈ labels) :
    AlternativeStops ctx scope position labels t
      (.nameCollision scope (accessorLabel position kind t)) none
  | unclassified {scope : String} {position : Nat} {labels : List String} {t : TypeSpec}
    {e : SchemaError} (hs : skippedAlternative t = none) (hk : ctx.classify scope t = .error e) :
    AlternativeStops ctx scope position labels t e (some [])
  | nested {scope : String} {position : Nat} {labels : List String} {t : TypeSpec}
    {items : List TypeSpec} {e : SchemaError} {inner : List String}
    (hs : skippedAlternative t = none) (hk : ctx.classify scope t = .ok (.union items))
    (h : UnionStops ctx scope (unionName position) items e inner) :
    AlternativeStops ctx scope position labels t e (some inner)

/-- Where the union `name` inside `scope` stops, and the classes that stay open, the outermost
first. The alternatives before have their shares in the class. -/
inductive UnionStops (ctx : Context) :
    String → String → List TypeSpec → SchemaError → List String → Prop
  | unresolved {scope name : String} {items : List TypeSpec} {e : SchemaError}
    (h : (items.mapM (TypeSpec.expression (qualify scope name))).result = .error e) :
    UnionStops ctx scope name items e []
  | alternative {scope name : String} {before after : List TypeSpec} {types : List CppType}
    {labels : List String} {content : List Piece} {t : TypeSpec} {e : SchemaError}
    {inner? : Option (List String)}
    (ht : ((before ++ t :: after).mapM (TypeSpec.expression (qualify scope name))).result =
      .ok types)
    (hb : ctx.Shares ctx.UnionOutline 0 (qualify scope name) before labels content)
    (h : AlternativeStops ctx (qualify scope name) before.length labels t e inner?) :
    UnionStops ctx scope name (before ++ t :: after) e (stillOpen name inner?)

end

variable {ctx : Context} {path labels : List String} {scope name : String} {index : Nat}
  {t : TypeSpec} {items : List TypeSpec} {e : SchemaError}

theorem share_of_alternative {label? : Option String}
    (h : (ctx.alternative path scope index labels t).result = .ok label?) :
    (∃ own, ctx.Share ctx.UnionOutline label? scope index t own) ∧
      ∀ opened,
        (ctx.alternative path scope index labels t).written.foldl enclosing opened = opened := by
  have hblock := alternativeBlock_of_ends
    (fun _ _ _ _ hu => (unionBlock_of_ends hu).outline) ⟨rfl, h⟩
  obtain ⟨own, hdepicts, hshare⟩ := hblock.2.outline
  exact ⟨⟨own, hshare⟩, hdepicts.closed⟩

/-- Classes are left open by a union: these, after those that were open before. -/
def LeavesOpen (ws : List Fragment) (opened : List String) : Prop :=
  ∀ before, ws.foldl enclosing before = before ++ opened

/-- Inside a class, this much of it is kept open by an alternative. -/
def KeepsOpen (ws : List Fragment) (inner? : Option (List String)) : Prop :=
  ∀ before name, ws.foldl enclosing (before ++ [name]) = before ++ stillOpen name inner?

theorem keepsOpen_leaveClass : KeepsOpen [.leaveClass] none := by
  intro before name
  exact List.dropLast_concat.trans (List.append_nil before).symm

theorem LeavesOpen.keepsOpen {ws : List Fragment} {inner : List String}
    (h : LeavesOpen ws inner) : KeepsOpen ws (some inner) := by
  intro before name
  rw [h, List.append_assoc]
  rfl

/-- Wherever the union stops, it leaves the classes open that belong to this place. -/
def StopsInPlace (ctx : Context) (path : List String) (scope name : String)
    (items : List TypeSpec) : Prop :=
  ∀ e, (ctx.union path scope name items).result = .error e →
    (∀ owner, e ≠ .endlessUnion owner) →
    ∃ opened, ctx.UnionStops scope name items e opened ∧
      LeavesOpen (ctx.union path scope name items).written opened

theorem stops_of_alternative (ht : ∃ type, (t.expression scope).result = .ok type)
    (hnested : ∀ items followed, ctx.Nests path scope index labels t items followed →
      ctx.StopsInPlace (path ++ followed) scope (unionName index) items)
    (h : (ctx.alternative path scope index labels t).result = .error e)
    (he : ∀ owner, e ≠ .endlessUnion owner) :
    ∃ inner?, ctx.AlternativeStops scope index labels t e inner? ∧
      KeepsOpen (ctx.alternative path scope index labels t).written inner? := by
  have hdraft := ctx.draftsAlternative path scope index labels t
  generalize ctx.alternative path scope index labels t = draft at hdraft h
  cases hdraft with
  | skipped _ => cases h
  | untraced hs htrace =>
    cases h
    have hopen : LeavesOpen [] [] := fun before => (List.append_nil before).symm
    exact ⟨_, .unclassified hs (congrArg (Except.map Prod.fst) htrace), hopen.keepsOpen⟩
  | unnamed hs htrace hi =>
    cases h
    exact ⟨_, .unnamed hs (classify_of_trace htrace) hi, keepsOpen_leaveClass⟩
  | taken hs htrace _ hl =>
    cases h
    exact ⟨_, .taken hs (classify_of_trace htrace) hl, keepsOpen_leaveClass⟩
  | endless _ _ _ _ _ =>
    cases h
    exact absurd rfl (he scope)
  | @nested items followed hn =>
    cases hu : (ctx.union (path ++ followed) scope (unionName index) items).result with
    | ok _ =>
      rw [Draft.bind_of_ok hu] at h
      cases h
    | error d =>
      rw [Draft.bind_of_error hu] at h ⊢
      cases h
      obtain ⟨inner, hstops, hopen⟩ := hnested items followed hn e hu he
      exact ⟨_, .nested hn.accessible (classify_of_trace hn.traced) hstops, hopen.keepsOpen⟩
  | @plain kind _ _ _ _ _ _ =>
    -- the type has been resolved before, so there is nothing left to fail
    obtain ⟨type, ht⟩ := ht
    have hplain : FailsOnly (fun _ => False) (plainAlternative scope kind t).result := by
      apply failsOnly_plainAlternative
      rw [ht]
      exact failsOnly_ok type
    refine (hplain.result_bind ?_ e h).elim
    intro _ _
    exact failsOnly_ok _

variable (ctx) in
theorem stopsInPlace (path : List String) (scope name : String) (items : List TypeSpec) :
    ctx.StopsInPlace path scope name items := by
  apply ctx.union_induction
    (U := ctx.StopsInPlace)
    (L := fun path scope index labels items =>
      (∀ t ∈ items, ∃ type, (t.expression scope).result = .ok type) → ∀ e,
      (ctx.alternatives path scope index labels items).result = .error e →
      (∀ owner, e ≠ .endlessUnion owner) →
      ∃ before t after more content inner?, items = before ++ t :: after ∧
        ctx.Shares ctx.UnionOutline index scope before more content ∧
        ctx.AlternativeStops scope (index + before.length) (labels ++ more) t e inner? ∧
        KeepsOpen (ctx.alternatives path scope index labels items).written inner?)
    (A := fun path scope index labels t =>
      (∃ type, (t.expression scope).result = .ok type) → ∀ e,
      (ctx.alternative path scope index labels t).result = .error e →
      (∀ owner, e ≠ .endlessUnion owner) →
      ∃ inner?, ctx.AlternativeStops scope index labels t e inner? ∧
        KeepsOpen (ctx.alternative path scope index labels t).written inner?)
  · intro path scope name items ih e h he
    cases hr : (items.mapM (TypeSpec.expression (qualify scope name))).result with
    | error d =>
      rw [union_of_unresolved hr] at h ⊢
      cases h
      exact ⟨[], .unresolved hr, fun before => (List.append_nil before).symm⟩
    | ok types =>
      rw [union_of_resolved hr] at h ⊢
      cases ha : (ctx.alternatives path (qualify scope name) 0 [] items).result with
      | ok _ =>
        rw [Draft.bind_of_ok rfl, Draft.bind_of_ok ha] at h
        cases h
      | error d =>
        rw [Draft.bind_of_ok rfl, Draft.bind_of_error ha] at h ⊢
        cases h
        obtain ⟨before, t, after, labels, content, inner?, rfl, hb, hstops, hkeeps⟩ :=
          ih (Draft.exists_of_mapM_eq_ok hr) e ha he
        rw [Nat.zero_add, List.nil_append] at hstops
        exact ⟨_, .alternative hr hb hstops, fun opened => hkeeps opened name⟩
  · intro path scope index labels _ e h
    rw [alternatives] at h
    cases h
  · intro path scope index labels t rest ih ihrest ht e h he
    obtain ⟨hfirst, hothers⟩ := List.forall_mem_cons.mp ht
    rw [alternatives] at h ⊢
    cases ha : (ctx.alternative path scope index labels t).result with
    | error d =>
      rw [Draft.bind_of_error ha] at h ⊢
      cases h
      obtain ⟨inner?, hstops, hkeeps⟩ := ih hfirst e ha he
      rw [← List.append_nil labels] at hstops
      exact ⟨[], t, rest, [], [], inner?, rfl, .nil, hstops, hkeeps⟩
    | ok label? =>
      obtain ⟨⟨own, hshare⟩, hsame⟩ := share_of_alternative ha
      rw [Draft.bind_of_ok ha] at h ⊢
      obtain ⟨before, u, after, more, content, inner?, rfl, hb, hstops, hkeeps⟩ :=
        ihrest label? hothers e h he
      refine ⟨t :: before, u, after, _, _, inner?, rfl, .cons hshare hb, ?_, ?_⟩
      · rwa [List.append_assoc, Nat.add_assoc, Nat.add_comm 1] at hstops
      · intro opened name
        rw [List.foldl_append, hsame]
        exact hkeeps opened name
  · intro path scope index labels t ih ht e h he
    exact stops_of_alternative ht ih h he

mutual

theorem AlternativeStops.length_le {scope : String} {position : Nat} {labels : List String}
    {t : TypeSpec} {e : SchemaError} {inner? : Option (List String)} {owner : String} :
    ctx.AlternativeStops scope position labels t e inner? →
      e.nameOwner? = some owner → scope.length ≤ owner.length
  | .unnamed _ _ _, rfl | .taken _ _ _, rfl => Nat.le_refl _
  | .unclassified _ hk, he => by
    have hf := (ctx.isTypeFault_of_trace scope [] t).map Prod.fst e hk
    rw [hf.nameOwner?_eq_none] at he
    cases he
  | .nested _ _ h, he =>
    Nat.le_trans (Nat.le_of_lt (length_lt_length_qualify scope position)) (h.length_le he)

/-- A name is at fault in the union itself or in one inside of it, which has a longer name. -/
theorem UnionStops.length_le {scope name : String} {items : List TypeSpec} {e : SchemaError}
    {opened : List String} {owner : String} : ctx.UnionStops scope name items e opened →
      e.nameOwner? = some owner → (qualify scope name).length ≤ owner.length
  | .unresolved h, he => by
    obtain ⟨t, _, ht⟩ := Draft.exists_of_mapM_eq_error h
    rw [(t.isTypeFault_of_expression _ e ht).nameOwner?_eq_none] at he
    cases he
  | .alternative _ _ h, he => h.length_le he

end

/-- All classes are closed again if a type of the union itself does not resolve, or a label of the
union itself is at fault. -/
theorem UnionStops.opened_eq_nil_iff {opened : List String}
    (h : ctx.UnionStops scope name items e opened) :
    opened = [] ↔
      (items.mapM (TypeSpec.expression (qualify scope name))).result = .error e ∨
        e.nameOwner? = some (qualify scope name) := by
  cases h with
  | unresolved h => exact iff_of_true rfl (.inl h)
  | alternative ht _ h =>
    simp only [ht, reduceCtorEq, false_or]
    cases h with
    | unnamed _ _ _ => exact iff_of_true rfl rfl
    | taken _ _ _ => exact iff_of_true rfl rfl
    | unclassified _ hk =>
      have hf := (ctx.isTypeFault_of_trace _ [] _).map Prod.fst e hk
      rw [hf.nameOwner?_eq_none]
      exact iff_of_false (List.cons_ne_nil _ _) (Option.some_ne_none _).symm
    | nested _ _ h =>
      refine iff_of_false (List.cons_ne_nil _ _) ?_
      intro he
      exact absurd (h.length_le he) (Nat.not_le.mpr (length_lt_length_qualify _ _))

/-- A finished union has the level of the header restored. One that stops has raised it by the
number of classes that it leaves open; so the level is restored just if nothing has been written, or
the name at fault is one of the union itself. -/
theorem level_after_union (ctx : Context) (path : List String) (scope name : String)
    (items : List TypeSpec) (l : Listing) :
    ((ctx.union path scope name items).result = .ok () →
        (Fragment.header l (ctx.union path scope name items).written).level = l.level) ∧
      ∀ e, (ctx.union path scope name items).result = .error e →
        (∀ owner, e ≠ .endlessUnion owner) →
        (∃ opened, ctx.UnionStops scope name items e opened ∧
          (Fragment.header l (ctx.union path scope name items).written).level =
            l.level + opened.length) ∧
        ((Fragment.header l (ctx.union path scope name items).written).level = l.level ↔
          (ctx.union path scope name items).written = [] ∨
            e.nameOwner? = some (qualify scope name)) := by
  have hlevel : (Fragment.header l (ctx.union path scope name items).written).level =
      ((ctx.union path scope name items).written.foldl enclosing
        (List.replicate l.level "")).length :=
    Fragment.level_header List.length_replicate.symm
  constructor
  · intro h
    obtain ⟨_, hdepicts, _⟩ := (unionBlock_of_ends ⟨rfl, h⟩).outline
    exact hdepicts.level l
  · intro e h he
    obtain ⟨opened, hstops, hopen⟩ := ctx.stopsInPlace path scope name items e h he
    rw [hopen, List.length_append, List.length_replicate] at hlevel
    refine ⟨⟨opened, hstops, hlevel⟩, ?_⟩
    constructor
    · intro hsame
      have hnil : opened = [] := List.eq_nil_of_length_eq_zero (by omega)
      apply (hstops.opened_eq_nil_iff.mp hnil).imp_left
      intro hr
      rw [union_of_unresolved hr]
      rfl
    · rintro (hw | ho)
      · rw [hw]
        rfl
      · rw [hlevel, hstops.opened_eq_nil_iff.mpr (.inr ho)]
        rfl

def unaided : Context where
  options := {}
  schema := {}

/-- The first alternative is a union in which a label comes twice. -/
def doubled : List TypeSpec :=
  [.or [.base "string", .base "string"], .base "integer"]

theorem level_after_union_doubled :
    (unaided.union [] "Hover" "Union0" doubled).result =
        .error (.nameCollision "Hover::Union0::Union0" "string") ∧
      (∃ opened, unaided.UnionStops "Hover" "Union0" doubled
          (.nameCollision "Hover::Union0::Union0" "string") opened ∧ opened.length = 1) ∧
      (unaided.union [] "Hover" "Union0" [.base "string", .base "string"]).result =
        .error (.nameCollision "Hover::Union0" "string") ∧
      ∀ l, (Fragment.header l (unaided.union [] "Hover" "Union0"
        [.base "string", .base "string"]).written).level = l.level := by
  have hinner : (unaided.union [] "Hover" "Union0" doubled).result =
      .error (.nameCollision "Hover::Union0::Union0" "string") := by decide +kernel
  have hown : (unaided.union [] "Hover" "Union0" [.base "string", .base "string"]).result =
      .error (.nameCollision "Hover::Union0" "string") := by decide +kernel
  have hlevel : (Fragment.header {} (unaided.union [] "Hover" "Union0" doubled).written).level =
      1 := by decide +kernel
  obtain ⟨⟨opened, hstops, hopened⟩, _⟩ :=
    (unaided.level_after_union [] "Hover" "Union0" doubled {}).2 _ hinner (by simp)
  have hone : 0 + opened.length = 1 := hopened.symm.trans hlevel
  refine ⟨hinner, ⟨opened, hstops, (Nat.zero_add _).symm.trans hone⟩, hown, ?_⟩
  intro l
  exact ((unaided.level_after_union [] "Hover" "Union0" _ l).2 _ hown (by simp)).2.mpr (.inr rfl)

theorem nested_fault_raises_level :
    (unaided.union [] "Hover" "Union0" doubled).result =
        .error (.nameCollision "Hover::Union0::Union0" "string") ∧
      (Fragment.header { level := 1 } (unaided.union [] "Hover" "Union0" doubled).written).level =
        2 := by
  decide +kernel

end Context

end ProtocolBindings

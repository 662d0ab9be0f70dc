import ProtocolBindings.Proofs.Classification
import ProtocolBindings.Proofs.NamesUsed
import ProtocolBindings.Proofs.UnionDrafts
import ProtocolBindings.Synthesis.Structure

namespace ProtocolBindings

namespace Draft

variable {ω ω' α β : Type} {x : Draft ω α} {f : α → Draft ω β} {ws : List ω} {a b : α}

/-- The draft comes to a result, with these records. -/
structure Ends (x : Draft ω α) (ws : List ω) (a : α) : Prop where
  written : x.written = ws
  result : x.result = .ok a

theorem Ends.bind {b : β} (h : (x >>= f).Ends ws b) :
    ∃ a first rest, ws = first ++ rest ∧ x.Ends first a ∧ (f a).Ends rest b := by
  obtain ⟨a, ha, hb⟩ := result_bind_eq_ok.mp h.result
  have hw : ws = x.written ++ (f a).written := by rw [← h.written, bind_of_ok ha]
  exact ⟨a, _, _, hw, ⟨rfl, ha⟩, ⟨rfl, hb⟩⟩

theorem Ends.of_pure (h : (pure a : Draft ω α).Ends ws b) : ws = [] ∧ b = a := by
  cases h.written
  cases h.result
  exact ⟨rfl, rfl⟩

theorem Ends.of_lift {y : Except SchemaError α} (h : (lift y : Draft ω α).Ends ws a) :
    ws = [] ∧ y = .ok a :=
  ⟨h.written.symm, h.result⟩

theorem Ends.of_silent {y : Draft ω' α} (h : (y.silent : Draft ω α).Ends ws a) :
    ws = [] ∧ y.result = .ok a :=
  ⟨h.written.symm, h.result⟩

theorem Ends.of_write {w : ω} {u : Unit} (h : (write w).Ends ws u) : ws = [w] :=
  h.written.symm

theorem Ends.of_writeAll {records : List ω} {u : Unit} (h : (writeAll records).Ends ws u) :
    ws = records :=
  h.written.symm

end Draft

/-- The fragment neither opens nor closes a class, and neither declares nor defines a function. -/
def Fragment.IsAside : Fragment → Prop
  | .gap _ | .comment _ | .blank => True
  | _ => False

theorem isAside_map_gap (gaps : List Gap) : ∀ f ∈ gaps.map Fragment.gap, f.IsAside := by
  intro f hf
  obtain ⟨_, _, rfl⟩ := List.mem_map.mp hf
  trivial

theorem isAside_map_comment (lines : List String) :
    ∀ f ∈ lines.map Fragment.comment, f.IsAside := by
  intro f hf
  obtain ⟨_, _, rfl⟩ := List.mem_map.mp hf
  trivial

theorem isAside_plainAlternative (scope : String) (kind : ValueKind) (t : TypeSpec) :
    ∀ f ∈ (plainAlternative scope kind t).written, f.IsAside :=
  writes_plainAlternative (fun _ => trivial) scope kind t

theorem Field.isAside_comment (property : Property) (index : Nat) :
    ∀ f ∈ Field.comment property index, f.IsAside := by
  intro f hf
  rcases Field.eq_of_mem_comment hf with rfl | ⟨_, rfl⟩
  · trivial
  · trivial

namespace Context

/-- The code of one alternative of the union `scope`, and the label of its accessors. An alternative
that is a union itself has a class of its own, for which `Nested` stands. -/
inductive AlternativeBlock (ctx : Context)
    (Nested : String → String → List TypeSpec → List Fragment → Prop) :
    Option String → String → Nat → TypeSpec → List Fragment → Prop
  | skipped {scope : String} {index : Nat} {t : TypeSpec} {gap : GapKind}
    (h : skippedAlternative t = some gap) :
    AlternativeBlock ctx Nested none scope index t [.gap ⟨scope, gap⟩]
  | nested {scope : String} {index : Nat} {t : TypeSpec} {items : List TypeSpec}
    {own : List Fragment} (hs : skippedAlternative t = none)
    (hk : ctx.classify scope t = .ok (.union items))
    (h : Nested scope (unionName index) items own) :
    AlternativeBlock ctx Nested (some (accessorLabel index (.union items) t)) scope index t
      (own ++ alternativeMembers scope (accessorLabel index (.union items) t)
        (.nested scope (unionName index)) (.union items)
        (.readAlternative .wrapper (.nested scope (unionName index))))
  | plain {scope : String} {index : Nat} {t : TypeSpec} {kind : ValueKind} {type : CppType}
    {reading : Body} (hs : skippedAlternative t = none)
    (hk : ctx.classify scope t = .ok kind) (hu : ∀ items, kind ≠ .union items)
    (h : (plainAlternative scope kind t).result = .ok (type, reading)) :
    AlternativeBlock ctx Nested (some (accessorLabel index kind t)) scope index t
      ((plainAlternative scope kind t).written ++
        alternativeMembers scope (accessorLabel index kind t) type kind reading)

/-- The code of alternatives of the union `scope` from a position on, given the labels in use. -/
inductive AlternativeBlocks (ctx : Context)
    (Nested : String → String → List TypeSpec → List Fragment → Prop) :
    Nat → String → List String → List TypeSpec → List Fragment → Prop
  | nil {scope : String} {index : Nat} {labels : List String} :
    AlternativeBlocks ctx Nested index scope labels [] []
  | cons {scope : String} {index : Nat} {labels : List String} {t : TypeSpec}
    {items : List TypeSpec} {label? : Option String} {own written : List Fragment}
    (hl : ∀ label, label? = some label → Text.isIdentifier label = true ∧ label ∉ labels)
    (first : ctx.AlternativeBlock Nested label? scope index t own)
    (rest : AlternativeBlocks ctx Nested (index + 1) scope (labels ++ label?.toList) items
      written) :
    AlternativeBlocks ctx Nested index scope labels (t :: items) (own ++ written)

/-- The class of the union `name` inside `scope`. -/
inductive UnionBlock (ctx : Context) : String → String → List TypeSpec → List Fragment → Prop
  | intro {scope name : String} {items : List TypeSpec} {types : List CppType}
    {inner : List Fragment}
    (ht : items.mapM (fun t => (t.expression (qualify scope name)).result) = .ok types)
    (h : ctx.AlternativeBlocks (UnionBlock ctx) 0 (qualify scope name) [] items inner) :
    UnionBlock ctx scope name items (.openClass name (.union types) :: inner ++ [.closeClass])

/-- To show something of the class of a union, it may be taken to hold of the classes inside. -/
theorem UnionBlock.induct {ctx : Context}
    {motive : String → String → List TypeSpec → List Fragment → Prop}
    (intro : ∀ scope name items types inner,
      items.mapM (fun t => (t.expression (qualify scope name)).result) = .ok types →
      ctx.AlternativeBlocks motive 0 (qualify scope name) [] items inner →
      motive scope name items (.openClass name (.union types) :: inner ++ [.closeClass]))
    {scope name : String} {items : List TypeSpec} {ws : List Fragment}
    (h : ctx.UnionBlock scope name items ws) : motive scope name items ws :=
  @UnionBlock.rec ctx (fun scope name items ws _ => motive scope name items ws)
    (fun index scope labels items ws _ =>
      ctx.AlternativeBlocks motive index scope labels items ws)
    (fun label? scope index t ws _ => ctx.AlternativeBlock motive label? scope index t ws)
    (fun ht _ ih => intro _ _ _ _ _ ht ih) .nil (fun hl _ _ first rest => .cons hl first rest)
    .skipped (fun hs hk _ ih => .nested hs hk ih) .plain scope name items ws h

/-- The type of a field of class `scope`, and the code that comes with it: the class of its union,
or the gaps in its type. -/
inductive FieldSlot (ctx : Context) (scope : String) (index : Nat) (property : Property) :
    ValueKind → CppType → List Fragment → Prop
  | union {items : List TypeSpec} {own : List Fragment}
    (h : ctx.UnionBlock scope (unionName index) items own) :
    FieldSlot ctx scope index property (.union items) (.nested scope (unionName index)) own
  | plain {kind : ValueKind} {type : CppType} (hu : ∀ items, kind ≠ .union items)
    (h : (property.type.expression (scope ++ "." ++ property.name)).result = .ok type) :
    FieldSlot ctx scope index property kind type
      ((property.type.expression (scope ++ "." ++ property.name)).written.map .gap)

/-- The code of the fields of class `scope` from a position on, given the names that are taken, and
what every instance sets up. -/
inductive FieldBlocks (ctx : Context) (scope : String) :
    List String → Nat → List Property → List Fragment → List (CppType × String) → Prop
  | nil {taken : List String} {index : Nat} : FieldBlocks ctx scope taken index [] [] []
  | skipped {taken : List String} {index : Nat} {property : Property} {value : String}
    {properties : List Property} {written : List Fragment} {setUp : List (CppType × String)}
    (ht : property.type = .stringLiteral value)
    (rest : FieldBlocks ctx scope taken index properties written setUp) :
    FieldBlocks ctx scope taken index (property :: properties)
      (.gap ⟨scope ++ "." ++ property.name, .stringLiteral⟩ :: written) setUp
  | cons {taken after : List String} {index : Nat} {property : Property}
    {properties : List Property} {kind : ValueKind} {type : CppType} {own written : List Fragment}
    {setUp : List (CppType × String)} (ht : ∀ value, property.type ≠ .stringLiteral value)
    (hk : ctx.classify (scope ++ "." ++ property.name) property.type = .ok kind)
    (hc : claim scope taken (Field.memberNames { property, kind, index }) = .ok after)
    (slot : ctx.FieldSlot scope index property kind type own)
    (rest : FieldBlocks ctx scope after (index + 1) properties written setUp) :
    FieldBlocks ctx scope taken index (property :: properties)
      (Field.comment property index ++ own ++
        Field.members scope type { property, kind, index } ++ written)
      ((if Field.isSetUp { property, kind, index } then [(type, property.name)] else []) ++ setUp)

variable {ctx : Context} {path labels taken : List String} {scope name : String} {index : Nat}
  {t : TypeSpec} {items : List TypeSpec} {ws : List Fragment}

/-- What a finished alternative consists of, if that is known of the union nested in it. -/
theorem alternativeBlock_of_ends {Nested : String → String → List TypeSpec → List Fragment → Prop}
    (hnested : ∀ items followed, ctx.Nests path scope index labels t items followed →
      ∀ ws, (ctx.union (path ++ followed) scope (unionName index) items).Ends ws () →
        Nested scope (unionName index) items ws)
    {label? : Option String} (h : (ctx.alternative path scope index labels t).Ends ws label?) :
    (∀ label, label? = some label → Text.isIdentifier label = true ∧ label ∉ labels) ∧
      ctx.AlternativeBlock Nested label? scope index t ws := by
  have hdraft := ctx.draftsAlternative path scope index labels t
  generalize ctx.alternative path scope index labels t = draft at hdraft h
  cases hdraft with
  | skipped hs =>
    obtain ⟨_, _, _, rfl, hgap, h⟩ := h.bind
    obtain ⟨rfl, rfl⟩ := h.of_pure
    cases hgap.of_write
    exact ⟨nofun, .skipped hs⟩
  | untraced _ _ => cases h.result
  | unnamed _ _ _ => cases h.result
  | taken _ _ _ _ => cases h.result
  | endless _ _ _ _ _ => cases h.result
  | nested hn =>
    obtain ⟨_, own, _, rfl, hunion, h⟩ := h.bind
    obtain ⟨_, members, _, rfl, hmembers, h⟩ := h.bind
    obtain ⟨rfl, rfl⟩ := h.of_pure
    cases hmembers.of_writeAll
    have hblock := hnested _ _ hn own hunion
    rw [List.append_nil]
    refine ⟨?_, .nested hn.accessible (classify_of_trace hn.traced) hblock⟩
    rintro _ ⟨⟩
    exact ⟨hn.identifier, hn.fresh⟩
  | plain hs hk hi hl hu =>
    obtain ⟨⟨type, reading⟩, own, _, rfl, hplain, h⟩ := h.bind
    obtain ⟨_, members, _, rfl, hmembers, h⟩ := h.bind
    obtain ⟨rfl, rfl⟩ := h.of_pure
    cases hmembers.of_writeAll
    rw [List.append_nil, ← hplain.written]
    refine ⟨?_, .plain hs (classify_of_trace hk) hu hplain.result⟩
    rintro _ ⟨⟩
    exact ⟨hi, hl⟩

theorem unionBlock_of_ends (h : (ctx.union path scope name items).Ends ws ()) :
    ctx.UnionBlock scope name items ws := by
  revert ws
  -- along the calls: the class, its alternatives in turn, and a union nested in one of them
  apply ctx.union_induction
    (U := fun path scope name items => ∀ {ws},
      (ctx.union path scope name items).Ends ws () → ctx.UnionBlock scope name items ws)
    (L := fun path scope index labels items => ∀ ws,
      (ctx.alternatives path scope index labels items).Ends ws () →
      ctx.AlternativeBlocks ctx.UnionBlock index scope labels items ws)
    (A := fun path scope index labels t => ∀ ws label?,
      (ctx.alternative path scope index labels t).Ends ws label? →
      (∀ label, label? = some label → Text.isIdentifier label = true ∧ label ∉ labels) ∧
        ctx.AlternativeBlock ctx.UnionBlock label? scope index t ws)
  · intro path scope name items ih ws h
    rw [union] at h
    obtain ⟨types, _, _, rfl, htypes, h⟩ := h.bind
    obtain ⟨_, _, _, rfl, hopen, h⟩ := h.bind
    obtain ⟨_, inner, _, rfl, hinner, hclose⟩ := h.bind
    obtain ⟨rfl, hmapM⟩ := htypes.of_silent
    cases hopen.of_write
    cases hclose.of_write
    rw [Draft.result_mapM] at hmapM
    exact .intro hmapM (ih inner hinner)
  · intro path scope index labels ws h
    rw [alternatives] at h
    obtain ⟨rfl, _⟩ := h.of_pure
    exact .nil
  · intro path scope index labels t rest ih ihrest ws h
    rw [alternatives] at h
    obtain ⟨label?, first, others, rfl, hfirst, hothers⟩ := h.bind
    obtain ⟨hl, hblock⟩ := ih first label? hfirst
    exact .cons hl hblock (ihrest label? others hothers)
  · intro path scope index labels t ih ws label? h
    exact alternativeBlock_of_ends (fun items followed hn ws => ih items followed hn) h

section Fields

variable {property : Property} {properties : List Property} {setUp : List (CppType × String)}

theorem fieldSlot_of_ends {followed : List String} {kind : ValueKind} {type : CppType}
    (h : (ctx.fieldType scope property index followed kind).Ends ws type) :
    ctx.FieldSlot scope index property kind type ws := by
  unfold fieldType at h
  split at h
  · obtain ⟨_, own, _, rfl, hunion, h⟩ := h.bind
    obtain ⟨rfl, rfl⟩ := h.of_pure
    rw [List.append_nil]
    exact .union (unionBlock_of_ends hunion)
  · next hu =>
    rw [← h.written]
    exact .plain hu h.result

theorem field_of_ends {after : List String}
    (h : (ctx.field scope taken index property).Ends ws (after, setUp)) :
    ∃ kind type own, ctx.classify (scope ++ "." ++ property.name) property.type = .ok kind ∧
      claim scope taken (Field.memberNames { property, kind, index }) = .ok after ∧
      ctx.FieldSlot scope index property kind type own ∧
      ws = Field.comment property index ++ own ++
        Field.members scope type { property, kind, index } ∧
      setUp = if Field.isSetUp { property, kind, index } then [(type, property.name)] else [] := by
  obtain ⟨_, _, _, rfl, hcomment, h⟩ := h.bind
  obtain ⟨⟨kind, followed⟩, _, _, rfl, htrace, h⟩ := h.bind
  obtain ⟨_, _, _, rfl, hclaim, h⟩ := h.bind
  obtain ⟨type, own, _, rfl, htype, h⟩ := h.bind
  obtain ⟨_, _, _, rfl, hmembers, h⟩ := h.bind
  obtain ⟨rfl, hresult⟩ := h.of_pure
  cases hcomment.of_writeAll
  cases hmembers.of_writeAll
  obtain ⟨rfl, hk⟩ := htrace.of_lift
  obtain ⟨rfl, hc⟩ := hclaim.of_lift
  cases hresult
  refine ⟨kind, type, own, classify_of_trace hk, hc, fieldSlot_of_ends htype, ?_, rfl⟩
  simp only [List.append_nil, List.nil_append, List.append_assoc]

theorem fieldBlocks_of_ends (h : (ctx.fields scope taken index properties).Ends ws setUp) :
    ctx.FieldBlocks scope taken index properties ws setUp := by
  induction properties generalizing taken index ws setUp with
  | nil =>
    obtain ⟨rfl, rfl⟩ := h.of_pure
    exact .nil
  | cons property rest ih =>
    rw [fields] at h
    split at h
    · next ht =>
      obtain ⟨_, _, _, rfl, hgap, hrest⟩ := h.bind
      cases hgap.of_write
      exact .skipped ht (ih hrest)
    · next ht =>
      obtain ⟨⟨after, first⟩, _, _, rfl, hfield, h⟩ := h.bind
      obtain ⟨others, _, _, rfl, hothers, h⟩ := h.bind
      obtain ⟨rfl, rfl⟩ := h.of_pure
      obtain ⟨kind, type, own, hk, hc, slot, rfl, rfl⟩ := field_of_ends hfield
      rw [List.append_nil]
      exact .cons ht hk hc slot (ih hothers)

/-- What the class of a structure consists of. -/
theorem fieldBlocks_of_structureDraft {s : Structure} (h : (ctx.structureDraft s).Ends ws ()) :
    ∃ properties inner setUp, ctx.schema.flatten s = .ok properties ∧
      ctx.FieldBlocks s.name [s.name, "init"] 0 properties inner setUp ∧
      ws = (s.documentation.elim [] Text.blockComment).map .comment ++
        (.openClass s.name .struct ::
          (inner ++ (.blank :: Fragment.member s.name .initializer (.setUp setUp))) ++
          [.closeClass]) := by
  obtain ⟨properties, _, _, rfl, hflatten, h⟩ := h.bind
  obtain ⟨_, _, _, rfl, hdocumentation, h⟩ := h.bind
  obtain ⟨_, _, _, rfl, hopen, h⟩ := h.bind
  obtain ⟨setUp, inner, _, rfl, hfields, h⟩ := h.bind
  obtain ⟨_, _, _, rfl, hblank, h⟩ := h.bind
  obtain ⟨_, _, _, rfl, hinitializer, hclose⟩ := h.bind
  obtain ⟨rfl, hproperties⟩ := hflatten.of_lift
  cases hdocumentation.of_writeAll
  cases hopen.of_write
  cases hblank.of_write
  cases hinitializer.of_writeAll
  cases hclose.of_write
  refine ⟨properties, inner, setUp, hproperties, fieldBlocks_of_ends hfields, ?_⟩
  simp

end Fields

end Context

end ProtocolBindings

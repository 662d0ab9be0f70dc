import ProtocolBindings.Proofs.Resolution

namespace ProtocolBindings

namespace Draft

variable {ω α β : Type}

def outcome (x : Draft ω α) : Draft ω Unit :=
  x >>= fun _ => pure ()

theorem outcome_bind (x : Draft ω α) (f : α → Draft ω β) :
    (x >>= f).outcome = x >>= fun a => (f a).outcome :=
  bind_assoc x f _

theorem outcome_pure (x : Draft ω α) (f : α → β) :
    (x >>= fun a => pure (f a)).outcome = x.outcome :=
  outcome_bind x _

theorem outcome_then (x : Draft ω α) (y : Draft ω β) :
    (x.outcome >>= fun _ => y) = x >>= fun _ => y := by
  rw [outcome, bind_assoc]
  simp only [pure_bind]

theorem outcome_eq_ok {x : Draft ω α} {written : List ω} (h : x.outcome = ⟨written, .ok ()⟩) :
    x.written = written ∧ ∃ a, x.result = .ok a := by
  cases hx : x.result with
  | error e =>
    rw [outcome, bind_of_error hx] at h
    cases h
  | ok a =>
    rw [outcome, bind_of_ok hx] at h
    cases h
    exact ⟨(List.append_nil _).symm, a, rfl⟩

theorem outcome_eq_error {x : Draft ω α} {written : List ω} {e : SchemaError}
    (h : x.outcome = ⟨written, .error e⟩) : x.written = written ∧ x.result = .error e := by
  cases hx : x.result with
  | error d =>
    rw [outcome, bind_of_error hx] at h
    cases h
    exact ⟨rfl, rfl⟩
  | ok a =>
    rw [outcome, bind_of_ok hx] at h
    cases h

end Draft

theorem baseType_of_unknown {owner name : String} (h : name ∉ baseNames) :
    baseType owner name = .error (.unknownBaseType name owner) := by
  unfold baseType
  split <;> simp_all [baseNames]

namespace TypeSpec

mutual

/-- The nodes that are reached, from left to right, each one before those inside of it. Null markers
among items are passed over, and literals are not entered. -/
def nodes : TypeSpec → List TypeSpec
  | .array element => .array element :: element.nodes
  | .map key value => .map key value :: (key.nodes ++ value.nodes)
  | .or items => .or items :: liveNodes items
  | .tuple items => .tuple items :: liveNodes items
  | .base name => [.base name]
  | .reference name => [.reference name]
  | .literal properties => [.literal properties]
  | .stringLiteral value => [.stringLiteral value]

def liveNodes : List TypeSpec → List TypeSpec
  | [] => []
  | item :: items => if item.isNull then liveNodes items else item.nodes ++ liveNodes items

end

variable (owner : String)

def faultAt : TypeSpec → Option SchemaError
  | .base name => if name ∈ baseNames then none else some (.unknownBaseType name owner)
  | .or items | .tuple items => if live items = [] then some (.emptyUnion owner) else none
  | .reference _ | .array _ | .map _ _ | .literal _ | .stringLiteral _ => none

def gapAt : TypeSpec → Option Gap
  | .literal _ => some ⟨owner, .literal⟩
  | .stringLiteral _ => some ⟨owner, .stringLiteral⟩
  | .base _ | .reference _ | .array _ | .map _ _ | .or _ | .tuple _ => none

/-- Goes through nodes one after the other, up to the first fault. -/
def survey : List TypeSpec → Draft Gap Unit
  | [] => pure ()
  | n :: ns =>
    match n.faultAt owner with
    | some e => .fail e
    | none => do
      .writeAll (n.gapAt owner).toList
      survey ns

variable {owner}

theorem survey_of_fault {n : TypeSpec} {e : SchemaError} (h : n.faultAt owner = some e)
    (ns : List TypeSpec) : survey owner (n :: ns) = .fail e := by
  rw [survey, h]

theorem survey_of_sound {n : TypeSpec} (h : n.faultAt owner = none) (ns : List TypeSpec) :
    survey owner (n :: ns) =
      Draft.writeAll (n.gapAt owner).toList >>= fun _ => survey owner ns := by
  rw [survey, h]

/-- A node that is neither at fault nor leaves a gap is passed by. -/
theorem survey_of_plain {n : TypeSpec} (h : n.faultAt owner = none) (hg : n.gapAt owner = none)
    (ns : List TypeSpec) : survey owner (n :: ns) = survey owner ns := by
  rw [survey_of_sound h, hg]
  exact pure_bind () _

theorem survey_append (ns ms : List TypeSpec) :
    survey owner (ns ++ ms) = survey owner ns >>= fun _ => survey owner ms := by
  induction ns with
  | nil => rw [List.nil_append, survey, pure_bind]
  | cons n ns ih =>
    rw [List.cons_append]
    cases h : n.faultAt owner with
    | some e =>
      rw [survey_of_fault h, survey_of_fault h]
      rfl
    | none => rw [survey_of_sound h, survey_of_sound h, ih, bind_assoc]

variable (owner) in
/-- A survey ends well if there is no fault, or else at the first one. -/
theorem survey_cases (ns : List TypeSpec) :
    ((∀ n ∈ ns, n.faultAt owner = none) ∧
        survey owner ns = ⟨ns.filterMap (gapAt owner), .ok ()⟩) ∨
      ∃ before n after e, ns = before ++ n :: after ∧ (∀ m ∈ before, m.faultAt owner = none) ∧
        n.faultAt owner = some e ∧
        survey owner ns = ⟨before.filterMap (gapAt owner), .error e⟩ := by
  induction ns with
  | nil => exact .inl ⟨List.forall_mem_nil _, rfl⟩
  | cons n ns ih =>
    cases h : n.faultAt owner with
    | some e => exact .inr ⟨[], n, ns, e, rfl, List.forall_mem_nil _, h, survey_of_fault h ns⟩
    | none =>
      have hgaps (ms : List TypeSpec) : (n.gapAt owner).toList ++ ms.filterMap (gapAt owner) =
          (n :: ms).filterMap (gapAt owner) := by
        rw [List.filterMap_cons]
        cases n.gapAt owner <;> rfl
      rcases ih with ⟨hsound, hs⟩ | ⟨before, m, after, e, rfl, hsound, hfault, hs⟩
      · refine .inl ⟨List.forall_mem_cons.mpr ⟨h, hsound⟩, ?_⟩
        rw [survey_of_sound h, hs, ← hgaps]
        rfl
      · refine .inr ⟨n :: before, m, after, e, rfl, List.forall_mem_cons.mpr ⟨h, hsound⟩, hfault,
          ?_⟩
        rw [survey_of_sound h, hs, ← hgaps]
        rfl

/-- Items that are gone through one after the other make up a union or tuple, unless there are
none. -/
theorem outcome_collapse {wrapper : String} {items : List TypeSpec} {t : TypeSpec}
    (hf : t.faultAt owner = if live items = [] then some (.emptyUnion owner) else none)
    (hg : t.gapAt owner = none)
    (h : (liveExpressions owner items).outcome = survey owner (liveNodes items)) :
    (liveExpressions owner items >>= fun types =>
        Draft.lift (collapse owner wrapper types)).outcome =
      survey owner (t :: liveNodes items) := by
  by_cases hl : live items = []
  · rw [if_pos hl] at hf
    rw [survey_of_fault hf, liveExpressions_of_live_eq_nil hl, pure_bind]
    rfl
  · rw [if_neg hl] at hf
    rw [survey_of_plain hf hg, ← h, Draft.outcome_bind]
    apply Draft.bind_congr
    intro types htypes
    have hne : types ≠ [] := by
      rw [← List.length_pos_iff, length_liveExpressions htypes, List.length_pos_iff]
      exact hl
    obtain ⟨type, ht⟩ := exists_collapse_iff.mpr hne
    rw [ht]
    rfl

theorem outcome_base (owner name : String) :
    ((TypeSpec.base name).expression owner).outcome = survey owner [.base name] := by
  rw [expression]
  by_cases hn : name ∈ baseNames
  · have hf : (TypeSpec.base name).faultAt owner = none := if_pos hn
    obtain ⟨text, ht⟩ := (exists_baseType_iff owner name).mpr hn
    rw [ht, survey_of_plain hf rfl]
    rfl
  · have hf : (TypeSpec.base name).faultAt owner = some (.unknownBaseType name owner) := if_neg hn
    rw [baseType_of_unknown hn, survey_of_fault hf]
    rfl

variable (owner) in
mutual

/-- The type of an expression is found as its nodes are gone through. -/
theorem outcome_expression : (t : TypeSpec) →
    (t.expression owner).outcome = survey owner t.nodes
  | .base name => outcome_base owner name
  | .reference _ | .literal _ | .stringLiteral _ => rfl
  | .array element => by
    rw [nodes, survey_of_plain rfl rfl, ← outcome_expression element, expression,
      Draft.outcome_pure]
  | .map key value => by
    rw [nodes, survey_of_plain rfl rfl, survey_append, ← outcome_expression key,
      ← outcome_expression value, expression, Draft.outcome_bind, Draft.outcome_then]
    simp only [Draft.outcome_pure]
  | .or items => outcome_collapse rfl rfl (outcome_liveExpressions items)
  | .tuple items => outcome_collapse rfl rfl (outcome_liveExpressions items)

theorem outcome_liveExpressions : (items : List TypeSpec) →
    (liveExpressions owner items).outcome = survey owner (liveNodes items)
  | [] => rfl
  | item :: items => by
    rw [liveExpressions, liveNodes]
    split
    · exact outcome_liveExpressions items
    · rw [survey_append, ← outcome_expression item, ← outcome_liveExpressions items,
        Draft.outcome_bind, Draft.outcome_then]
      simp only [Draft.outcome_pure]

end

variable (owner) in
theorem forall_faultAt_eq_none {ns : List TypeSpec} :
    (∀ n ∈ ns, n.faultAt owner = none) ↔
      (∀ name, .base name ∈ ns → name ∈ baseNames) ∧
        ∀ items, .or items ∈ ns ∨ .tuple items ∈ ns → live items ≠ [] := by
  constructor
  · intro h
    constructor
    · intro name hm
      by_contra hn
      cases (h _ hm).symm.trans (if_neg hn)
    · intro items hm hl
      rcases hm with hm | hm
      · cases (h _ hm).symm.trans (if_pos hl)
      · cases (h _ hm).symm.trans (if_pos hl)
  · rintro ⟨hbase, hitems⟩ n hn
    cases n with
    | base name => exact if_pos (hbase name hn)
    | or items => exact if_neg (hitems items (.inl hn))
    | tuple items => exact if_neg (hitems items (.inr hn))
    | _ => rfl

/-- A type can be written just when every base type that is reached is known and every union and
tuple that is reached has an item. If not, the error is that of the first node at fault. The gaps
recorded, after those there are already, are those of all nodes, or of the nodes before the
fault. -/
theorem expression_stops_at_first_fault (t : TypeSpec) (owner : String) (earlier : List Gap) :
    ((∃ type, (t.expression owner).result = .ok type) ↔
        (∀ name, .base name ∈ t.nodes → name ∈ baseNames) ∧
          ∀ items, .or items ∈ t.nodes ∨ .tuple items ∈ t.nodes → live items ≠ []) ∧
      (∀ type, (t.expression owner).result = .ok type →
        (Draft.writeAll earlier >>= fun _ => t.expression owner).written =
          earlier ++ t.nodes.filterMap (gapAt owner)) ∧
      ∀ e, (t.expression owner).result = .error e →
        ∃ before n after, t.nodes = before ++ n :: after ∧
          (∀ m ∈ before, m.faultAt owner = none) ∧ n.faultAt owner = some e ∧
          (Draft.writeAll earlier >>= fun _ => t.expression owner).written =
            earlier ++ before.filterMap (gapAt owner) := by
  have hwritten : (Draft.writeAll earlier >>= fun _ => t.expression owner).written =
      earlier ++ (t.expression owner).written := rfl
  rw [hwritten, ← forall_faultAt_eq_none owner]
  rcases survey_cases owner t.nodes with
    ⟨hsound, hs⟩ | ⟨before, n, after, e, hnodes, hsound, hfault, hs⟩
  · obtain ⟨hw, hok⟩ := Draft.outcome_eq_ok ((outcome_expression owner t).trans hs)
    refine ⟨iff_of_true hok hsound, ?_, ?_⟩
    · intro type _
      rw [hw]
    · intro e he
      obtain ⟨type, ht⟩ := hok
      cases ht.symm.trans he
  · obtain ⟨hw, he⟩ := Draft.outcome_eq_error ((outcome_expression owner t).trans hs)
    refine ⟨iff_of_false ?_ ?_, ?_, ?_⟩
    · rintro ⟨type, ht⟩
      cases ht.symm.trans he
    · intro h
      have hmem : n ∈ t.nodes := hnodes ▸ List.mem_append_right before List.mem_cons_self
      cases (h n hmem).symm.trans hfault
    · intro type ht
      cases ht.symm.trans he
    · intro d hd
      cases hd.symm.trans he
      exact ⟨before, n, after, hnodes, hsound, hfault, by rw [hw]⟩

/-- A map with a null marker out of place, between the literals of its two sides. -/
def parcel : TypeSpec :=
  .map (.literal []) (.or [.null, .stringLiteral "lid", .array .null, .literal []])

theorem expression_stops_at_first_fault_parcel :
    (parcel.expression "Box.lid").result = .error (.unknownBaseType "null" "Box.lid") ∧
      (∃ before n after, parcel.nodes = before ++ n :: after ∧
        n.faultAt "Box.lid" = some (.unknownBaseType "null" "Box.lid") ∧
        [⟨"Box", .literal⟩] ++ before.filterMap (gapAt "Box.lid") =
          [⟨"Box", .literal⟩, ⟨"Box.lid", .literal⟩, ⟨"Box.lid", .stringLiteral⟩]) ∧
      ¬ ((∀ name, .base name ∈ parcel.nodes → name ∈ baseNames) ∧
        ∀ items, .or items ∈ parcel.nodes ∨ .tuple items ∈ parcel.nodes → live items ≠ []) := by
  have he : (parcel.expression "Box.lid").result = .error (.unknownBaseType "null" "Box.lid") := rfl
  have hw : (Draft.writeAll [⟨"Box", .literal⟩] >>= fun _ => parcel.expression "Box.lid").written =
      [⟨"Box", .literal⟩, ⟨"Box.lid", .literal⟩, ⟨"Box.lid", .stringLiteral⟩] := rfl
  obtain ⟨hiff, _, herror⟩ :=
    parcel.expression_stops_at_first_fault "Box.lid" [⟨"Box", .literal⟩]
  obtain ⟨before, n, after, hnodes, _, hfault, hgaps⟩ := herror _ he
  refine ⟨he, ⟨before, n, after, hnodes, hfault, hgaps.symm.trans hw⟩, ?_⟩
  intro hsound
  obtain ⟨type, ht⟩ := hiff.mpr hsound
  cases ht.symm.trans he

end TypeSpec

end ProtocolBindings

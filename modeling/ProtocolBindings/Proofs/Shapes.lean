import Mathlib.Data.List.Nodup
import ProtocolBindings.Json.Shape
import ProtocolBindings.Proofs.Drafts

namespace ProtocolBindings

def Json.IsScalar : Json → Prop
  | .array _ | .object _ => False
  | .null | .bool _ | .integer _ | .decimal _ | .string _ => True

namespace Shape

/-- A shape asks for the whole value. The tag of a tagged object comes first. -/
inductive Fits : Shape → Json → Prop where
  | scalar {accepts : Json → Bool} {v : Json} (hs : v.IsScalar) (ha : accepts v = true) :
    Fits (.scalar accepts) v
  | whole {accepts : Json → Bool} {v : Json} (ha : accepts v = true) : Fits (.whole accepts) v
  | tagged {tag : String} {isTag accepts : Json → Bool} {v : Json} {rest : List (String × Json)}
    (hs : v.IsScalar) (ht : isTag v = true) (hr : tag ∉ rest.map Prod.fst)
    (ha : accepts (.object ((tag, v) :: rest)) = true) :
    Fits (.tagged tag isTag accepts) (.object ((tag, v) :: rest))
  | list {element : Shape} {vs : List Json} (hf : ∀ v ∈ vs, Fits element v) :
    Fits (.list element) (.array vs)
  | record {shapes : List (String × Shape)} {required : List String}
    {fields : List (String × Json)} (hk : (fields.map Prod.fst).Nodup)
    (hr : ∀ name ∈ required, name ∈ fields.map Prod.fst)
    (hs : ∀ field ∈ fields, shapes.lookup field.1 ≠ none)
    (hf : ∀ field ∈ fields, ∀ shape, shapes.lookup field.1 = some shape → Fits shape field.2) :
    Fits (.record shapes required) (.object fields)
  | null {shape : Shape} : Fits (.orNull shape) .null
  | orNull {shape : Shape} {v : Json} (hf : Fits shape v) : Fits (.orNull shape) v

namespace Fits

theorem text (s : String) : Shape.text.Fits (.string s) :=
  .scalar trivial rfl

theorem flag (b : Bool) : Shape.flag.Fits (.bool b) :=
  .scalar trivial rfl

theorem list_map {α : Type} {element : Shape} {encode : α → Json} (h : ∀ a, element.Fits (encode a))
    (as : List α) : (Shape.list element).Fits (.array (as.map encode)) := by
  apply Fits.list
  intro v hv
  obtain ⟨a, _, rfl⟩ := List.mem_map.mp hv
  exact h a

theorem ofFields {shapes : List (String × Shape)} {required : List String}
    {fields : List (String × Json)} (hk : (fields.map Prod.fst).Sublist (shapes.map Prod.fst))
    (hn : (shapes.map Prod.fst).Nodup) (hr : ∀ name ∈ required, name ∈ fields.map Prod.fst)
    (h : ∀ field ∈ fields, ∃ shape, shapes.lookup field.1 = some shape ∧ shape.Fits field.2) :
    (Shape.record shapes required).Fits (.object fields) := by
  refine .record (hn.sublist hk) hr ?_ ?_
  · intro field hfield
    obtain ⟨shape, hshape, _⟩ := h field hfield
    rw [hshape]
    exact Option.some_ne_none shape
  · intro field hfield shape hshape
    obtain ⟨shape', hshape', hfits⟩ := h field hfield
    rw [hshape] at hshape'
    cases hshape'
    exact hfits

end Fits

end Shape

namespace Document

variable {room : Nat} {d : Document} {v : Json} {shape : Shape} {fault : Option Fault}
  {found : List String} {documents : List Document} {vs : List Json}
  {entries : List (Option String × Document)} {fields : List (String × Json)}

theorem ensure_eq_ok {condition : Bool} {e : DecodeError} {u : Unit} :
    ensure condition e = .ok u ↔ condition = true := by
  cases condition <;> simp [ensure]

theorem ending_eq_ok {u : Unit} : ending fault = .ok u ↔ fault = none := by
  cases fault <;> simp [ending]

theorem value_array_eq_ok (h : value room (.array documents fault) = .ok v) :
    (0 < room) ∧ fault = none ∧ ∃ vs, values (room - 1) documents = .ok vs ∧ v = .array vs := by
  rw [value] at h
  obtain ⟨_, hroom, h⟩ := Except.bind_eq_ok.mp h
  obtain ⟨vs, hvs, h⟩ := Except.bind_eq_ok.mp h
  obtain ⟨_, hend, h⟩ := Except.bind_eq_ok.mp h
  cases h
  exact ⟨of_decide_eq_true (ensure_eq_ok.mp hroom), ending_eq_ok.mp hend, vs, hvs, rfl⟩

theorem value_object_eq_ok (h : value room (.object entries fault) = .ok v) :
    (0 < room) ∧ fault = none ∧
      ∃ fields, fieldValues (room - 1) entries = .ok fields ∧ v = .object fields := by
  rw [value] at h
  obtain ⟨_, hroom, h⟩ := Except.bind_eq_ok.mp h
  obtain ⟨fields, hfields, h⟩ := Except.bind_eq_ok.mp h
  obtain ⟨_, hend, h⟩ := Except.bind_eq_ok.mp h
  cases h
  exact ⟨of_decide_eq_true (ensure_eq_ok.mp hroom), ending_eq_ok.mp hend, fields, hfields, rfl⟩

theorem selectScalar_eq_ok :
    selectScalar shape d = .ok v ↔ d.scalarValue = .ok v ∧ shape.acceptsScalar v = true := by
  constructor
  · intro h
    obtain ⟨w, hw, h⟩ := Except.bind_eq_ok.mp h
    obtain ⟨_, ha, h⟩ := Except.bind_eq_ok.mp h
    cases h
    exact ⟨hw, ensure_eq_ok.mp ha⟩
  · rintro ⟨hv, ha⟩
    exact Except.bind_eq_ok.mpr ⟨v, hv, Except.bind_eq_ok.mpr ⟨(), ensure_eq_ok.mpr ha, rfl⟩⟩

/-- What is no container is read alike by all shapes, apart from what they accept. -/
theorem container_or_scalar (d : Document) :
    (∃ documents fault, d = .array documents fault) ∨
      (∃ entries fault, d = .object entries fault) ∨
      ∀ room, value room d = d.scalarValue ∧
        ∀ shape, select room shape d = selectScalar shape d := by
  cases d with
  | array documents fault => exact .inl ⟨documents, fault, rfl⟩
  | object entries fault => exact .inr (.inl ⟨entries, fault, rfl⟩)
  | _ => exact .inr (.inr fun room => ⟨by rw [value], fun shape => by rw [select]⟩)

theorem isScalar_of_scalarValue (h : d.scalarValue = .ok v) : v.IsScalar := by
  revert h
  fun_cases scalarValue d <;> intro h <;> cases h <;> trivial

theorem value_eq_array (h : value room d = .ok (.array vs)) :
    0 < room ∧ ∃ documents, d = .array documents none ∧ values (room - 1) documents = .ok vs := by
  rcases container_or_scalar d with ⟨documents, fault, rfl⟩ | ⟨entries, fault, rfl⟩ | hd
  · obtain ⟨hroom, rfl, _, hvs, hv⟩ := value_array_eq_ok h
    cases hv
    exact ⟨hroom, documents, rfl, hvs⟩
  · obtain ⟨_, _, _, _, hv⟩ := value_object_eq_ok h
    cases hv
  · rw [(hd room).1] at h
    cases isScalar_of_scalarValue h

theorem value_eq_object (h : value room d = .ok (.object fields)) :
    0 < room ∧ ∃ entries, d = .object entries none ∧
      fieldValues (room - 1) entries = .ok fields := by
  rcases container_or_scalar d with ⟨documents, fault, rfl⟩ | ⟨entries, fault, rfl⟩ | hd
  · obtain ⟨_, _, _, _, hv⟩ := value_array_eq_ok h
    cases hv
  · obtain ⟨hroom, rfl, _, hfields, hv⟩ := value_object_eq_ok h
    cases hv
    exact ⟨hroom, entries, rfl, hfields⟩
  · rw [(hd room).1] at h
    cases isScalar_of_scalarValue h

theorem selectScalar_of_value (h : value room d = .ok v) (hs : v.IsScalar)
    (ha : shape.acceptsScalar v = true) : selectScalar shape d = .ok v := by
  rcases container_or_scalar d with ⟨documents, fault, rfl⟩ | ⟨entries, fault, rfl⟩ | hd
  · obtain ⟨_, _, _, _, rfl⟩ := value_array_eq_ok h
    cases hs
  · obtain ⟨_, _, _, _, rfl⟩ := value_object_eq_ok h
    cases hs
  · rw [(hd room).1] at h
    exact selectScalar_eq_ok.mpr ⟨h, ha⟩

theorem select_of_selectScalar (h : selectScalar shape d = .ok v) :
    select room shape d = .ok v := by
  rcases container_or_scalar d with ⟨documents, fault, rfl⟩ | ⟨entries, fault, rfl⟩ | hd
  · cases h
  · cases h
  · rw [(hd room).2]
    exact h

theorem judged_of_accepts {accepts : Json → Bool} (ha : accepts v = true) :
    judged accepts v = .ok v :=
  Except.bind_eq_ok.mpr ⟨(), ensure_eq_ok.mpr ha, rfl⟩

theorem select_whole {accepts : Json → Bool} (h : value room d = .ok v) (ha : accepts v = true) :
    select room (.whole accepts) d = .ok v := by
  rcases container_or_scalar d with ⟨documents, fault, rfl⟩ | ⟨entries, fault, rfl⟩ | hd
  · rw [select]
    exact Except.bind_eq_ok.mpr ⟨v, h, judged_of_accepts ha⟩
  · rw [select]
    exact Except.bind_eq_ok.mpr ⟨v, h, judged_of_accepts ha⟩
  · rw [(hd room).1] at h
    rw [(hd room).2]
    exact selectScalar_eq_ok.mpr ⟨h, ha⟩

theorem select_orNull (h : select room shape d = .ok v) :
    select room (.orNull shape) d = .ok v := by
  rcases container_or_scalar d with ⟨documents, fault, rfl⟩ | ⟨entries, fault, rfl⟩ | hd
  · rw [select] at h ⊢
    exact h
  · rw [select] at h ⊢
    exact h
  · rw [(hd room).2] at h ⊢
    obtain ⟨hv, ha⟩ := selectScalar_eq_ok.mp h
    refine selectScalar_eq_ok.mpr ⟨hv, ?_⟩
    cases v with
    | null => rfl
    | _ => exact ha

theorem selectAll_of_values {element : Shape} (h : values room documents = .ok vs)
    (hs : ∀ v ∈ vs, ∀ d, value room d = .ok v → select room element d = .ok v) :
    selectAll room element documents = .ok vs := by
  induction documents generalizing vs with
  | nil =>
    rw [values] at h
    cases h
    rw [selectAll]
  | cons d documents ih =>
    rw [values] at h
    obtain ⟨v, hv, h⟩ := Except.bind_eq_ok.mp h
    obtain ⟨rest, hrest, h⟩ := Except.bind_eq_ok.mp h
    cases h
    obtain ⟨hd, hs⟩ := List.forall_mem_cons.mp hs
    rw [selectAll]
    exact Except.bind_eq_ok.mpr ⟨v, hd d hv, Except.bind_eq_ok.mpr ⟨rest, ih hrest hs, rfl⟩⟩

theorem fieldValues_cons_eq_ok {key : Option String}
    (h : fieldValues room ((key, d) :: entries) = .ok fields) :
    ∃ name v rest, key = some name ∧ fields = (name, v) :: rest ∧ value room d = .ok v ∧
      fieldValues room entries = .ok rest := by
  cases key with
  | none =>
    rw [fieldValues] at h
    cases h
  | some name =>
    rw [fieldValues] at h
    obtain ⟨v, hv, h⟩ := Except.bind_eq_ok.mp h
    obtain ⟨rest, hrest, h⟩ := Except.bind_eq_ok.mp h
    cases h
    exact ⟨name, v, rest, rfl, rfl, hv, hrest⟩

theorem taggedFields_of_fieldValues {tag : String} {isTag : Json → Bool}
    (h : fieldValues room entries = .ok fields) (ht : tag ∉ fields.map Prod.fst) :
    taggedFields room tag isTag none true entries = .ok fields := by
  induction entries generalizing fields with
  | nil =>
    rw [fieldValues] at h
    cases h
    rw [taggedFields]
    rfl
  | cons entry entries ih =>
    obtain ⟨key, d⟩ := entry
    obtain ⟨name, v, rest, rfl, rfl, hv, hrest⟩ := fieldValues_cons_eq_ok h
    rw [List.map_cons, List.mem_cons, not_or] at ht
    rw [taggedFields, if_neg (Ne.symm ht.1)]
    exact Except.bind_eq_ok.mpr ⟨v, hv, Except.bind_eq_ok.mpr ⟨rest, ih hrest ht.2, rfl⟩⟩

theorem taggedFields_of_tag {tag : String} {isTag : Json → Bool} (hs : v.IsScalar)
    (ht : isTag v = true) (hr : tag ∉ fields.map Prod.fst)
    (h : fieldValues room entries = .ok ((tag, v) :: fields)) :
    taggedFields room tag isTag none false entries = .ok ((tag, v) :: fields) := by
  cases entries with
  | nil =>
    rw [fieldValues] at h
    cases h
  | cons entry entries =>
    obtain ⟨key, d⟩ := entry
    obtain ⟨name, w, rest, rfl, heq, hv, hrest⟩ := fieldValues_cons_eq_ok h
    cases heq
    have hselect : selectScalar (.scalar isTag) d = .ok v := selectScalar_of_value hv hs ht
    rw [taggedFields, if_pos rfl]
    exact Except.bind_eq_ok.mpr ⟨(), rfl, Except.bind_eq_ok.mpr ⟨v, hselect,
      Except.bind_eq_ok.mpr ⟨fields, taggedFields_of_fieldValues hrest hr, rfl⟩⟩⟩

theorem selectNamed_of_fieldValues {shapes : List (String × Shape)} {required : List String}
    (h : fieldValues room entries = .ok fields) (hk : (fields.map Prod.fst).Nodup)
    (hfound : ∀ name ∈ fields.map Prod.fst, name ∉ found)
    (hr : ∀ name ∈ required, name ∈ found ∨ name ∈ fields.map Prod.fst)
    (hs : ∀ field ∈ fields, ∃ shape, shapes.lookup field.1 = some shape ∧
      ∀ d, value room d = .ok field.2 → select room shape d = .ok field.2) :
    selectNamed room shapes required none found entries = .ok fields := by
  induction entries generalizing fields found with
  | nil =>
    rw [fieldValues] at h
    cases h
    have hall : required.all (· ∈ found) = true := by
      simpa using hr
    rw [selectNamed, hall]
    rfl
  | cons entry entries ih =>
    obtain ⟨key, d⟩ := entry
    obtain ⟨name, v, rest, rfl, rfl, hv, hrest⟩ := fieldValues_cons_eq_ok h
    obtain ⟨⟨shape, hlookup, hselect⟩, hs⟩ := List.forall_mem_cons.mp hs
    rw [List.map_cons] at hk hfound hr
    obtain ⟨hname, hk⟩ := List.nodup_cons.mp hk
    obtain ⟨hnew, hfound⟩ := List.forall_mem_cons.mp hfound
    have htail : selectNamed room shapes required none (name :: found) entries = .ok rest := by
      apply ih hrest hk
      · intro other ho hmem
        rcases List.mem_cons.mp hmem with rfl | hmem
        · exact hname ho
        · exact hfound other ho hmem
      · intro other ho
        have := hr other ho
        grind
      · exact hs
    rw [selectNamed, hlookup]
    exact Except.bind_eq_ok.mpr ⟨(), ensure_eq_ok.mpr (decide_eq_true hnew),
      Except.bind_eq_ok.mpr ⟨v, hselect d hv, Except.bind_eq_ok.mpr ⟨rest, htail, rfl⟩⟩⟩

/-- A document whose value fits a shape is read as that value. -/
theorem select_of_fits (hf : shape.Fits v) (h : value room d = .ok v) :
    select room shape d = .ok v := by
  induction hf generalizing room d with
  | scalar hs ha => exact select_of_selectScalar (selectScalar_of_value h hs ha)
  | whole ha => exact select_whole h ha
  | @tagged tag isTag accepts v rest hs ht hr ha =>
    obtain ⟨hroom, entries, rfl, hfields⟩ := value_eq_object h
    have htagged := taggedFields_of_tag hs ht hr hfields
    rw [select]
    exact Except.bind_eq_ok.mpr ⟨(), ensure_eq_ok.mpr (decide_eq_true hroom),
      Except.bind_eq_ok.mpr ⟨_, htagged, judged_of_accepts ha⟩⟩
  | @list element vs hf ih =>
    obtain ⟨hroom, documents, rfl, hvs⟩ := value_eq_array h
    have hselect := selectAll_of_values hvs fun v hv d hd => ih v hv hd
    rw [select]
    exact Except.bind_eq_ok.mpr ⟨(), ensure_eq_ok.mpr (decide_eq_true hroom),
      Except.bind_eq_ok.mpr ⟨vs, hselect, rfl⟩⟩
  | @record shapes required fields hk hr hs hf ih =>
    obtain ⟨hroom, entries, rfl, hfields⟩ := value_eq_object h
    have hselect : selectNamed (room - 1) shapes required none [] entries = .ok fields := by
      apply selectNamed_of_fieldValues hfields hk
      · exact fun _ _ => List.not_mem_nil
      · exact fun name hname => .inr (hr name hname)
      · intro field hfield
        obtain ⟨shape, hshape⟩ := Option.ne_none_iff_exists'.mp (hs field hfield)
        exact ⟨shape, hshape, fun d hd => ih field hfield shape hshape hd⟩
    rw [select]
    exact Except.bind_eq_ok.mpr ⟨(), ensure_eq_ok.mpr (decide_eq_true hroom),
      Except.bind_eq_ok.mpr ⟨fields, hselect, rfl⟩⟩
  | null => exact select_of_selectScalar (selectScalar_of_value h trivial rfl)
  | orNull _ ih => exact select_orNull (ih h)

end Document

end ProtocolBindings

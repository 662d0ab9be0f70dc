import Mathlib.Logic.Relation
import ProtocolBindings.Proofs.Agreement

namespace ProtocolBindings

section Distinct

variable {α β : Type} [DecidableEq β] {key : α → β} {k : β}

theorem mem_map_distinctBy {as : List α} : k ∈ (distinctBy key as).map key ↔ k ∈ as.map key := by
  induction as with
  | nil => rfl
  | cons a as ih =>
    have hrest : k ∈ ((distinctBy key as).filter (key · ≠ key a)).map key ↔
        k ≠ key a ∧ k ∈ as.map key := by
      rw [← ih]
      simp only [List.mem_map, List.mem_filter, decide_eq_true_eq]
      constructor
      · rintro ⟨b, ⟨hb, hne⟩, rfl⟩
        exact ⟨hne, b, hb, rfl⟩
      · rintro ⟨hne, b, hb, rfl⟩
        exact ⟨b, ⟨hb, hne⟩, rfl⟩
    rw [distinctBy, List.map_cons, List.map_cons, List.mem_cons, List.mem_cons, hrest]
    by_cases h : k = key a
    · simp [h]
    · simp [h]

theorem nodup_map_distinctBy (as : List α) : ((distinctBy key as).map key).Nodup := by
  induction as with
  | nil => exact List.nodup_nil
  | cons a as ih =>
    rw [distinctBy, List.map_cons, List.nodup_cons]
    constructor
    · intro h
      obtain ⟨b, hb, he⟩ := List.mem_map.mp h
      have hne := (List.mem_filter.mp hb).2
      simp [he] at hne
    · exact ih.sublist (List.filter_sublist.map key)

theorem distinctBy_of_nodup {as : List α} (h : (as.map key).Nodup) : distinctBy key as = as := by
  induction as with
  | nil => rfl
  | cons a as ih =>
    rw [List.map_cons, List.nodup_cons] at h
    rw [distinctBy, ih h.2]
    congr 1
    rw [List.filter_eq_self]
    intro b hb
    have hne : key b ≠ key a := fun he => h.1 (he ▸ List.mem_map_of_mem hb)
    simpa using hne

/-- After earlier elements, those stay whose keys are new. -/
theorem distinctBy_append (as bs : List α) :
    distinctBy key (as ++ bs) =
      distinctBy key as ++ (distinctBy key bs).filter (key · ∉ as.map key) := by
  induction as with
  | nil => simp [distinctBy]
  | cons a as ih =>
    rw [List.cons_append, distinctBy, ih, distinctBy, List.filter_append, List.filter_filter,
      List.cons_append]
    congr 2
    apply List.filter_congr
    intro b _
    simp

/-- Lists that lose their own repetitions first leave the same elements. -/
theorem distinctBy_flatten_map (lists : List (List α)) :
    distinctBy key (lists.map (distinctBy key)).flatten = distinctBy key lists.flatten := by
  induction lists with
  | nil => rfl
  | cons as lists ih =>
    rw [List.map_cons, List.flatten_cons, List.flatten_cons, distinctBy_append, distinctBy_append,
      ih, distinctBy_of_nodup (nodup_map_distinctBy as)]
    simp only [mem_map_distinctBy]

/-- The element of a key is the first one that has it. -/
theorem find?_distinctBy (as : List α) (k : β) :
    (distinctBy key as).find? (key · = k) = as.find? (key · = k) := by
  induction as with
  | nil => rfl
  | cons a as ih =>
    rw [distinctBy, List.find?_cons, List.find?_cons]
    split
    · rfl
    · next hk =>
      rw [← ih, List.find?_filter]
      congr 1
      funext b
      have hne : key a ≠ k := by simpa using hk
      by_cases hb : key b = k
      · simp [hb, Ne.symm hne]
      · simp [hb]

end Distinct

namespace Schema

variable {schema : Schema} {path : List String} {child : String} {p : TypeSpec} {s t : Structure}
  {properties fields : List Property} {further : List (List Property)}

def ParentOf (schema : Schema) (s t : Structure) : Prop :=
  ∃ p ∈ s.parents, schema.parent s.name p = .ok t

/-- A structure is another one, or what that one inherits from, at any distance. -/
def Ancestry (schema : Schema) : Structure → Structure → Prop :=
  Relation.ReflTransGen schema.ParentOf

/-- A walk that has passed fewer names finds the same fields. -/
theorem inherited_of_subset (h : schema.inherited path child p = .ok properties)
    {shorter : List String} (hs : shorter ⊆ path) :
    schema.inherited shorter child p = .ok properties := by
  fun_induction inherited schema path child p generalizing properties shorter with
  | case1 path child p e he => cases h
  | case2 path child p s hp hm => cases h
  | case3 path child p s hp hm ih =>
    obtain ⟨further, hf, h⟩ := Except.bind_eq_ok.mp h
    have hfurther : s.parents.mapM (schema.inherited (shorter ++ [s.name]) s.name) =
        .ok further := by
      rw [Except.mapM_eq_ok] at hf ⊢
      refine hf.imp ?_
      intro q found hq
      refine ih q hq ?_
      exact List.append_subset.mpr
        ⟨List.Subset.trans hs (List.subset_append_left _ _), List.subset_append_right _ _⟩
    rw [inherited_eq, hp]
    exact (if_neg (mt (@hs s.name) hm)).trans (Except.bind_eq_ok.mpr ⟨further, hfurther, h⟩)

theorem flatten_of_inherited (h : schema.inherited path child p = .ok properties) :
    ∃ t, schema.parent child p = .ok t ∧
      schema.flatten t = .ok (distinctBy Property.name properties) := by
  obtain ⟨t, further, ht, _, hf, rfl⟩ := exists_of_inherited h
  refine ⟨t, ht, flatten_eq_ok.mpr ⟨further, ?_, rfl⟩⟩
  rw [Except.mapM_eq_ok] at hf ⊢
  exact hf.imp fun _ _ hq => inherited_of_subset hq (List.subset_append_right _ _)

theorem exists_parents_of_inherited {parents : List TypeSpec}
    (h : parents.mapM (schema.inherited path child) = .ok further) :
    ∃ ts, parents.mapM (schema.parent child) = .ok ts ∧
      ts.mapM schema.flatten = .ok (further.map (distinctBy Property.name)) := by
  simp only [Except.mapM_eq_ok] at h ⊢
  induction h with
  | nil => exact ⟨[], .nil, .nil⟩
  | cons hq _ ih =>
    obtain ⟨t, ht, hflatten⟩ := flatten_of_inherited hq
    obtain ⟨ts, hts, hfurther⟩ := ih
    exact ⟨t :: ts, .cons ht hts, .cons hflatten hfurther⟩

/-- What the parents of a structure bring is what stands in their ancestries. -/
theorem mem_ancestry_of_parents
    (hf : s.parents.mapM (schema.inherited path s.name) = .ok further)
    (hparents : ∀ q found, schema.inherited path s.name q = .ok found →
      ∃ t, schema.parent s.name q = .ok t ∧
        ∀ property, property ∈ found ↔ ∃ a, schema.Ancestry t a ∧ property ∈ a.properties)
    (property : Property) :
    property ∈ s.properties ++ further.flatten ↔
      ∃ a, schema.Ancestry s a ∧ property ∈ a.properties := by
  rw [List.mem_append, List.mem_flatten]
  constructor
  · rintro (hown | ⟨found, hfound, hmem⟩)
    · exact ⟨s, .refl, hown⟩
    · obtain ⟨q, hq, hi⟩ := Except.exists_of_mem_mapM hf hfound
      obtain ⟨t, ht, hiff⟩ := hparents q found hi
      obtain ⟨a, ha, hmem⟩ := (hiff property).mp hmem
      exact ⟨a, .head ⟨q, hq, ht⟩ ha, hmem⟩
  · rintro ⟨a, ha, hmem⟩
    rcases Relation.ReflTransGen.cases_head ha with rfl | ⟨t, ⟨q, hq, ht⟩, hta⟩
    · exact .inl hmem
    · obtain ⟨found, hfound, hi⟩ := exists_mem_of_forall₂ (Except.mapM_eq_ok.mp hf) hq
      obtain ⟨u, hu, hiff⟩ := hparents q found hi
      cases ht.symm.trans hu
      exact .inr ⟨found, hfound, (hiff property).mpr ⟨a, hta, hmem⟩⟩

theorem mem_inherited (h : schema.inherited path child p = .ok properties) :
    ∃ t, schema.parent child p = .ok t ∧
      ∀ property, property ∈ properties ↔
        ∃ a, schema.Ancestry t a ∧ property ∈ a.properties := by
  fun_induction inherited schema path child p generalizing properties with
  | case1 path child p e he => cases h
  | case2 path child p s hs hm => cases h
  | case3 path child p s hs hm ih =>
    obtain ⟨further, hf, h⟩ := Except.bind_eq_ok.mp h
    cases h
    exact ⟨s, hs, mem_ancestry_of_parents hf fun q _ hq => ih q hq⟩

theorem mem_names_flatten (h : schema.flatten s = .ok fields) (name : String) :
    name ∈ fields.map Property.name ↔
      ∃ a, schema.Ancestry s a ∧ name ∈ a.properties.map Property.name := by
  obtain ⟨further, hf, rfl⟩ := flatten_eq_ok.mp h
  have hmem := mem_ancestry_of_parents hf fun _ _ hq => mem_inherited hq
  rw [mem_map_distinctBy, List.mem_map]
  constructor
  · rintro ⟨property, hp, rfl⟩
    obtain ⟨a, ha, hp⟩ := (hmem property).mp hp
    exact ⟨a, ha, List.mem_map_of_mem hp⟩
  · rintro ⟨a, ha, hn⟩
    obtain ⟨property, hp, rfl⟩ := List.mem_map.mp hn
    exact ⟨property, (hmem property).mpr ⟨a, ha, hp⟩, rfl⟩

/-- The fields of a structure are its own properties, then the fields of each parent, of which the
first of a name stays. So the names are distinct and are those of the whole ancestry, and the
property of a name is the own one, or else that of the first parent to have one. -/
theorem flatten_eq_distinctBy (h : schema.flatten s = .ok fields) :
    ∃ parents fieldsOfParents,
      (s.bases ++ s.mixins).mapM (schema.parent s.name) = .ok parents ∧
      parents.mapM schema.flatten = .ok fieldsOfParents ∧
      fields = distinctBy Property.name (s.properties ++ fieldsOfParents.flatten) ∧
      (fields.map Property.name).Nodup ∧
      (∀ name, name ∈ fields.map Property.name ↔
        ∃ a, schema.Ancestry s a ∧ name ∈ a.properties.map Property.name) ∧
      ∀ name, fields.find? (·.name = name) =
        (s.properties.find? (·.name = name)).or
          (fieldsOfParents.findSome? fun fields => fields.find? (·.name = name)) := by
  have hnames := mem_names_flatten h
  obtain ⟨further, hf, rfl⟩ := flatten_eq_ok.mp h
  obtain ⟨parents, hp, hfields⟩ := exists_parents_of_inherited hf
  have heq : distinctBy Property.name (s.properties ++ further.flatten) =
      distinctBy Property.name
        (s.properties ++ (further.map (distinctBy Property.name)).flatten) := by
    rw [distinctBy_append, distinctBy_append, distinctBy_flatten_map]
  refine ⟨parents, _, hp, hfields, heq, nodup_map_distinctBy _, hnames, ?_⟩
  intro name
  rw [heq, find?_distinctBy, List.find?_append, List.find?_flatten]

def labelField : Property := { name := "label", type := .base "string" }

def sizeField : Property := { name := "size", type := .base "integer" }

def keyField : Property := { name := "key", type := .base "uinteger" }

def colorField : Property := { name := "color", type := .reference "Paint", optional := true }

/-- A structure whose two parents share theirs. Its label hides the one further up, and the size of
its base hides the one of its mixin. -/
def heir : Structure where
  name := "Heir"
  properties := [labelField]
  bases := [.reference "Left"]
  mixins := [.reference "Right"]

def lineage : Schema where
  structures := [heir,
    { name := "Left", properties := [sizeField], bases := [.reference "Root"] },
    { name := "Right", properties := [{ name := "size", type := .base "string" }, colorField]
      bases := [.reference "Root"] },
    { name := "Root", properties := [keyField, { name := "label", type := .base "boolean" }] }]

theorem flatten_eq_distinctBy_heir :
    lineage.flatten heir = .ok [labelField, sizeField, keyField, colorField] ∧
      ∃ parents fieldsOfParents,
        (heir.bases ++ heir.mixins).mapM (lineage.parent "Heir") = .ok parents ∧
        parents.mapM lineage.flatten = .ok fieldsOfParents ∧
        [labelField, sizeField, keyField, colorField] =
          distinctBy Property.name (heir.properties ++ fieldsOfParents.flatten) ∧
        fieldsOfParents.findSome? (fun fields => fields.find? (·.name = "size")) =
          some sizeField := by
  have h : lineage.flatten heir = .ok [labelField, sizeField, keyField, colorField] := by cbv
  obtain ⟨parents, fieldsOfParents, hp, hf, heq, _, _, hfind⟩ := flatten_eq_distinctBy h
  exact ⟨h, parents, fieldsOfParents, hp, hf, heq, (hfind "size").symm⟩

end Schema

end ProtocolBindings

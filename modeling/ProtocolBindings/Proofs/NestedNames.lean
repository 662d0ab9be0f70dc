import ProtocolBindings.Proofs.MemberNames

namespace ProtocolBindings

namespace Context

/-- No field of the structure holds a union in which, at any depth, a class stands directly inside
one that is called alike. -/
def NamesApart (ctx : Context) (s : Structure) (properties : List Property) : Prop :=
  ∀ position items, ctx.FieldUnion s.name properties position items →
    ¬ ctx.NestsAlike s.name (unionName position) items

variable {ctx : Context} {path : List String} {scope name : String} {items : List TypeSpec}
  {s : Structure} {properties : List Property} {functions : List Signature}
  {nested : List String} {classes : List ClassScope}

theorem unionClasses_of_union (h : (ctx.union path scope name items).result = .ok ()) :
    ctx.UnionClasses scope name items
      (Fragment.classes (ctx.union path scope name items).written) := by
  obtain ⟨classes, hr, hc⟩ := (unionBlock_of_ends ⟨rfl, h⟩).reads
  rw [hr.classes_eq]
  exact hc

theorem UnionClasses.apart_iff (h : ctx.UnionClasses scope name items classes) :
    (∀ c ∈ classes, c.name ∉ c.nested) ↔ ¬ ctx.NestsAlike scope name items := by
  rw [← h.alike_iff]
  simp

theorem FieldScopes.apart_iff
    (h : ctx.FieldScopes s.name 0 properties functions nested classes) :
    (∀ c ∈ classes, c.name ∉ c.nested) ↔ ctx.NamesApart s properties := by
  have halike := not_congr h.alike_iff
  simp only [Nat.zero_add, not_exists, not_and] at halike
  exact halike

/-- The class of a structure has no union of its own name. -/
theorem FieldScopes.name_not_mem (hf : Fresh [s.name, "init"] (ctx.namesFrom s.name 0 properties))
    (h : ctx.FieldScopes s.name 0 properties functions nested classes) : s.name ∉ nested := by
  intro hm
  have hname := h.names.subset (List.mem_append_right _ hm)
  exact hf.2 List.mem_cons_self hname

theorem FieldScopes.nodup_memberNames
    (hf : Fresh [s.name, "init"] (ctx.namesFrom s.name 0 properties))
    (h : ctx.FieldScopes s.name 0 properties functions nested classes) :
    (ClassScope.mk s.name (functions ++ [.initializer]) nested).memberNames.Nodup := by
  rw [h.memberNames_perm.nodup_iff]
  refine List.nodup_cons.mpr ⟨?_, hf.1⟩
  exact hf.2 (List.mem_cons_of_mem _ List.mem_cons_self)

variable (ctx) in
/-- The members of a class always have different names. No class has one of its own name directly
inside it just if no union stands at the position that the union around it is named for. Then all
names in a scope are different, in a structure that is not called like its initializer. -/
theorem nested_names_apart_iff :
    (∀ path scope name items, (ctx.union path scope name items).result = .ok () →
      let classes := Fragment.classes (ctx.union path scope name items).written
      (∀ c ∈ classes, c.memberNames.Nodup) ∧
      ((∀ c ∈ classes, c.name ∉ c.nested) ↔ ¬ ctx.NestsAlike scope name items) ∧
      ((∀ label, name ∉ accessorNames label) →
        ((∀ c ∈ classes, c.names.Nodup) ↔ ¬ ctx.NestsAlike scope name items))) ∧
    ∀ s properties entry, ctx.schema.flatten s = .ok properties →
      (ctx.structureEntry s).result = .ok entry →
      let fragments := (ctx.structureDraft s).written
      let classes := Fragment.classes fragments
      entry.header = Fragment.header .empty fragments ∧
      (∀ c ∈ classes, c.memberNames.Nodup) ∧
      ((∀ c ∈ classes, c.name ∉ c.nested) ↔ ctx.NamesApart s properties) ∧
      ((∀ c ∈ classes, c.names.Nodup) ↔ ctx.NamesApart s properties ∧ s.name ≠ "init") := by
  constructor
  · intro path scope name items h
    have hc := unionClasses_of_union h
    refine ⟨hc.nodup_memberNames, hc.apart_iff, ?_⟩
    intro hname
    rw [ClassScope.forall_nodup_names_iff (hc.tidy hname)]
    exact hc.apart_iff
  · intro s properties entry hp h
    obtain ⟨_, hresult, rfl⟩ := Except.map_eq_ok.mp h
    obtain ⟨_, functions, nested, inner, hp', hclasses, hfresh, hs⟩ :=
      classes_structureDraft ⟨rfl, hresult⟩
    cases hp.symm.trans hp'
    have hown := (hs.names_perm hp).nodup_iff.trans (nodup_classNames_iff hp hfresh)
    dsimp only
    simp only [hclasses, List.forall_mem_append, List.forall_mem_singleton]
    refine ⟨rfl, ⟨fun c hc => (hs.tidy c hc).members, hs.nodup_memberNames hfresh⟩, ?_, ?_⟩
    · rw [hs.apart_iff]
      exact and_iff_left (hs.name_not_mem hfresh)
    · rw [ClassScope.forall_nodup_names_iff hs.tidy, hs.apart_iff, hown]

def dial : Structure where
  name := "Dial"
  properties := [{
    name := "level"
    type := .or [.base "integer", .or [.base "string", .base "boolean"]] }]

def hover : Structure where
  name := "Hover"
  properties := [{
    name := "contents"
    type := .or [.or [.base "string", .base "integer"], .base "boolean"] }]

theorem nested_names_apart_iff_dial :
    (∃ entry, ((alone dial).structureEntry dial).result = .ok entry) ∧
      (Fragment.classes ((alone dial).structureDraft dial).written).map
          (fun c => (c.name, c.nested)) =
        [("Union1", []), ("Union0", ["Union1"]), ("Dial", ["Union0"])] ∧
      (alone dial).NamesApart dial dial.properties ∧
      ¬ (alone dial).NestsAlike "" "Union0"
        [.base "integer", .or [.base "string", .base "boolean"]] := by
  have hdial : ((alone dial).structureDraft dial).result = .ok () := by decide +kernel
  have hentry : ((alone dial).structureEntry dial).result = .ok _ :=
    Except.map_eq_ok.mpr ⟨(), hdial, rfl⟩
  have hflatten : (alone dial).schema.flatten dial = .ok dial.properties := by cbv
  have hstructure := (alone dial).nested_names_apart_iff.2 dial _ _ hflatten hentry
  have hunion := (alone dial).nested_names_apart_iff.1 [] "" "Union0"
    [.base "integer", .or [.base "string", .base "boolean"]] (by decide +kernel)
  exact ⟨⟨_, hentry⟩, by decide +kernel, hstructure.2.2.1.mp (by decide +kernel),
    hunion.2.1.mp (by decide +kernel)⟩

theorem union_inside_namesake :
    ((alone hover).structureDraft hover).result = .ok () ∧
      ∃ c ∈ Fragment.classes ((alone hover).structureDraft hover).written,
        c.name = "Union0" ∧ c.nested = ["Union0"] ∧ ¬ c.names.Nodup := by
  decide +kernel

end Context

end ProtocolBindings

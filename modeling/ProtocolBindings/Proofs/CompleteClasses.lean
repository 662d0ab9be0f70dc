import ProtocolBindings.Proofs.AccessorSurface
import ProtocolBindings.Proofs.StandIns

namespace ProtocolBindings

theorem append_ne_append {a b x y : String} (hl : x.length = y.length) (hn : x ≠ y) :
    a ++ x ≠ b ++ y := by
  intro h
  apply hn
  have hlist := congrArg String.toList h
  rw [String.toList_append, String.toList_append] at hlist
  exact String.toList_inj.mp (List.append_inj_right' hlist hl)

/-- The statement makes up a value from nothing; the type that it names may be missing. -/
def IsStub (statement : String) : Prop :=
  ∃ made, statement = "return " ++ made ++ "\x7b\x7d;"

theorem not_isStub_of_call (start : String) : ¬ IsStub (start ++ ">(n_);") := by
  rintro ⟨made, h⟩
  have hstub : "\x7b\x7d;" = "\x7b" ++ "\x7d;" := by decide
  have hcall : ">(n_);" = ">(n_" ++ ");" := by decide
  rw [hstub, hcall, ← String.append_assoc, ← String.append_assoc] at h
  exact append_ne_append (by decide) (by decide) h

theorem not_isStub_of_node : ¬ IsStub "return \x7bn_\x7d;" := by
  rintro ⟨made, h⟩
  have hnode : "return \x7bn_\x7d;" = "return \x7bn" ++ "_\x7d;" := by decide
  rw [hnode] at h
  exact append_ne_append (by decide) (by decide) h

/-- Apart from maps and stand-ins, alternatives are read from their nodes. -/
theorem not_isStub_readingStatement {t : TypeSpec} {kind : ValueKind}
    (ht : ∀ key value, t ≠ .map key value) (hk : kind ≠ .placeholder) (type : String) :
    ¬ IsStub (readingStatement t type kind) := by
  unfold readingStatement
  split
  · next key value => exact absurd rfl (ht key value)
  · exact not_isStub_of_call _
  · exact not_isStub_of_call _
  · exact absurd rfl hk
  · exact not_isStub_of_node

example : IsStub (readingStatement (.literal []) "LiteralStub" .placeholder) :=
  ⟨"LiteralStub", by decide⟩

/-- Somewhere in pieces of the class `scope`, at any depth, stands the class of a union with this
qualified name, the types of its alternatives and its content. -/
inductive ClassIn : String → List Piece → String → List String → List Piece → Prop
  | here {scope name : String} {types : List String} {content pieces : List Piece}
    (h : .inner name (some types) content ∈ pieces) :
    ClassIn scope pieces (qualified scope name) types content
  | inside {scope name : String} {alternatives : Option (List String)} {content pieces : List Piece}
    {union : String} {types : List String} {members : List Piece}
    (h : .inner name alternatives content ∈ pieces)
    (hi : ClassIn (qualified scope name) content union types members) :
    ClassIn scope pieces union types members

theorem Piece.gapsAll_eq_nil_iff {pieces : List Piece} :
    gapsAll pieces = [] ↔ ∀ piece ∈ pieces, piece.gaps = [] := by
  rw [gapsAll_eq_flatMap, List.flatMap_eq_nil_iff]

theorem Piece.gapsAll_map_gap (gaps : List Gap) : gapsAll (gaps.map .gap) = gaps := by
  induction gaps with
  | nil => rfl
  | cons g gaps ih => exact congrArg (g :: ·) ih

theorem Piece.methods_subset {pieces others : List Piece} (h : pieces ⊆ others) :
    methods pieces ⊆ methods others :=
  List.filterMap_subset _ h

namespace Context

/-- The union with a qualified name and alternatives is the given one or lies inside of it, at any
depth. -/
inductive UnionIn (ctx : Context) : String → List TypeSpec → String → List TypeSpec → Prop
  | here {scope : String} {items : List TypeSpec} : UnionIn ctx scope items scope items
  | inside {scope inner : String} {items deeper alternatives : List TypeSpec} {i : Nat}
    {t : TypeSpec} (hi : items[i]? = some t) (hk : ctx.classify scope t = .ok (.union deeper))
    (h : UnionIn ctx (qualified scope ("Union" ++ toString i)) deeper inner alternatives) :
    UnionIn ctx scope items inner alternatives

/-- An alternative of the union `scope` can be tested and read, and the one that reads it is no
stub. -/
def ReadsOne (ctx : Context) (scope : String) (index : Nat) (t : TypeSpec)
    (functions : List Method) : Prop :=
  ∃ kind type statement, ctx.classify scope t = .ok kind ∧ kind ≠ .placeholder ∧
    slotType scope scope index t kind = .ok type ∧ type.standIns = [] ∧
    holdsMethod (accessorLabel index kind t) type.spelling ∈ functions ∧
    asMethod (accessorLabel index kind t) type.spelling statement ∈ functions ∧
    ¬ IsStub statement

/-- The class of the union `scope` names the types of all alternatives, without stand-ins, and each
alternative can be tested and read. -/
structure ReadsAll (ctx : Context) (scope : String) (alternatives : List TypeSpec)
    (types : List String) (content : List Piece) : Prop where
  literals : ∀ t ∈ alternatives, t.literals = []
  types : ∃ genuine, types = CppType.spellings genuine ∧
    List.Forall₂ (fun t type => (t.expression scope).result = .ok type) alternatives genuine ∧
    ∀ type ∈ genuine, type.standIns = []
  reads : ∀ (i : Nat) (t : TypeSpec), alternatives[i]? = some t →
    ctx.ReadsOne scope i t (Piece.methods content)

variable {ctx : Context} {scope name : String} {index : Nat} {t : TypeSpec}
  {items deeper alternatives : List TypeSpec} {label? : Option String} {labels : List String}
  {own content pieces : List Piece} {piece : Piece}

theorem alternativeGaps_eq_nil (h : alternativeGaps scope t = []) :
    (t.expression scope).written = [] ∧ ∀ key value, t ≠ .map key value := by
  unfold alternativeGaps at h
  split at h
  · cases h
  · next hmap => exact ⟨h, hmap⟩

section Literals

variable {Nested : String → String → List TypeSpec → Piece → Prop}
  (hn : ∀ scope name items piece, Nested scope name items piece → piece.gaps = [] →
    ∀ t ∈ items, t.literals = [])

include hn

theorem Share.literals_eq_nil (h : ctx.Share Nested label? scope index t own)
    (hg : Piece.gapsAll own = []) : t.literals = [] := by
  cases h with
  | leftOut _ => cases hg
  | plain _ _ _ ht =>
    rw [Piece.gapsAll_append, List.append_eq_nil_iff, Piece.gapsAll_map_gap] at hg
    exact TypeSpec.literals_eq_nil ht (alternativeGaps_eq_nil hg.1).1
  | union _ hk h =>
    obtain ⟨⟨kind, followed⟩, htrace, rfl⟩ := Except.map_eq_ok.mp hk
    rw [Piece.gapsAll, List.append_eq_nil_iff] at hg
    exact literals_of_trace_union htrace (hn _ _ _ _ h hg.1)

theorem Shares.literals_eq_nil (h : ctx.Shares Nested index scope items labels content)
    (hg : Piece.gapsAll content = []) : ∀ t ∈ items, t.literals = [] := by
  induction h with
  | nil => exact List.forall_mem_nil _
  | cons first _ ih =>
    rw [Piece.gapsAll_append, List.append_eq_nil_iff] at hg
    exact List.forall_mem_cons.mpr ⟨first.literals_eq_nil hn hg.1, ih hg.2⟩

end Literals

/-- Without gaps there is no literal in a union. -/
theorem UnionOutline.literals_eq_nil (h : ctx.UnionOutline scope name items piece) :
    piece.gaps = [] → ∀ t ∈ items, t.literals = [] := by
  refine UnionOutline.induct
    (motive := fun _ _ items piece => piece.gaps = [] → ∀ t ∈ items, t.literals = []) ?_ h
  intro _ _ _ _ _ _ hshares
  exact hshares.literals_eq_nil fun _ _ _ _ hg => hg

theorem Shares.exists_share (h : ctx.Shares ctx.UnionOutline index scope items labels content)
    {i : Nat} (hi : items[i]? = some t) :
    ∃ label? own, ctx.Share ctx.UnionOutline label? scope (index + i) t own ∧ own ⊆ content := by
  induction items generalizing index i labels content with
  | nil => cases hi
  | cons first items ih =>
    cases h with
    | cons share rest =>
      cases i with
      | zero =>
        cases hi
        exact ⟨_, _, share, List.subset_append_left _ _⟩
      | succ i =>
        obtain ⟨label?, own, hshare, hsub⟩ := ih rest hi
        rw [Nat.add_right_comm] at hshare
        exact ⟨label?, own, hshare, List.Subset.trans hsub (List.subset_append_right _ _)⟩

/-- A class among the shares is that of an alternative which is a union. -/
theorem Shares.exists_union (h : ctx.Shares ctx.UnionOutline index scope items labels content)
    {types : Option (List String)} {members : List Piece}
    (hm : .inner name types members ∈ content) :
    ∃ (i : Nat) (t : TypeSpec) (deeper : List TypeSpec), items[i]? = some t ∧
      ctx.classify scope t = .ok (.union deeper) ∧
      ctx.UnionOutline scope ("Union" ++ toString (index + i)) deeper
        (.inner name types members) := by
  induction items generalizing index labels content with
  | nil =>
    cases h
    cases hm
  | cons first items ih =>
    cases h with
    | cons share rest =>
      rcases List.mem_append.mp hm with hm | hm
      · cases share with
        | leftOut _ => cases List.mem_singleton.mp hm
        | plain _ _ _ _ => simp at hm
        | union _ hk h =>
          rcases List.mem_cons.mp hm with rfl | hm
          · exact ⟨0, first, _, rfl, hk, h⟩
          · simp at hm
      · obtain ⟨i, t, deeper, hi, hk, houtline⟩ := ih rest hm
        rw [Nat.add_right_comm] at houtline
        exact ⟨i + 1, t, deeper, hi, hk, houtline⟩

theorem mem_alternativeMethods (label type statement : String) (kind : ValueKind) :
    holdsMethod label type ∈ alternativeMethods label type statement kind ∧
      asMethod label type statement ∈ alternativeMethods label type statement kind := by
  cases kind <;> simp [alternativeMethods]

section Clean

variable (hc : ctx.AliasesClean)

include hc

theorem Share.readsOne (h : ctx.Share ctx.UnionOutline label? scope index t own)
    (hg : Piece.gapsAll own = []) : ctx.ReadsOne scope index t (Piece.methods own) := by
  have hl := h.literals_eq_nil (fun _ _ _ _ => UnionOutline.literals_eq_nil) hg
  cases h with
  | leftOut _ => cases hg
  | @plain _ _ _ _ type _ hk hu ht =>
    obtain ⟨⟨kind, followed⟩, htrace, rfl⟩ := Except.map_eq_ok.mp hk
    have hp := hc.kind_ne_placeholder htrace hl
    rw [Piece.gapsAll_append, List.append_eq_nil_iff, Piece.gapsAll_map_gap] at hg
    rw [Piece.methods_append, Piece.methods_map_gap, List.nil_append, Piece.methods_append,
      Piece.methods_map_method]
    obtain ⟨hholds, has⟩ := mem_alternativeMethods (accessorLabel index kind t) type.spelling
      (readingStatement t type.spelling kind) kind
    refine ⟨kind, type, _, hk, hp, ?_, TypeSpec.standIns_eq_nil hl ht,
      List.mem_append_left _ hholds, List.mem_append_left _ has,
      not_isStub_readingStatement (alternativeGaps_eq_nil hg.1).2 hp _⟩
    cases kind with
    | union items => exact absurd rfl (hu items)
    | _ => exact ht
  | @union _ _ _ items nested _ hk h =>
    obtain ⟨hholds, has⟩ := mem_alternativeMethods (accessorLabel index (.union items) t)
      (scope ++ "::" ++ ("Union" ++ toString index)) "return \x7bn_\x7d;" (.union items)
    have hmethods : Piece.methods
        (((alternativeMethods (accessorLabel index (.union items) t)
          (scope ++ "::" ++ ("Union" ++ toString index)) "return \x7bn_\x7d;"
          (.union items)).map .method) ++ [.blank]) ⊆ Piece.methods (nested :: _) :=
      Piece.methods_subset (List.subset_cons_self _ _)
    rw [Piece.methods_append, Piece.methods_map_method] at hmethods
    exact ⟨.union items, .nested scope ("Union" ++ toString index), _, hk, nofun, rfl, rfl,
      hmethods (List.mem_append_left _ hholds), hmethods (List.mem_append_left _ has),
      not_isStub_of_node⟩

/-- The class of a union without gaps. -/
theorem UnionOutline.readsAll (h : ctx.UnionOutline scope name items piece)
    (hg : piece.gaps = []) :
    ∃ types content, piece = .inner name (some types) content ∧
      ctx.ReadsAll (qualified scope name) items types content := by
  have hl := h.literals_eq_nil hg
  cases h with
  | @intro _ _ _ types _ content ht h _ _ =>
    refine ⟨_, content, rfl, hl, ⟨types, rfl, ht, ?_⟩, ?_⟩
    · intro type htype
      obtain ⟨t, hm, he⟩ := exists_mem_of_forall₂ ht.flip htype
      exact TypeSpec.standIns_eq_nil (hl t hm) he
    · intro i t hi
      obtain ⟨label?, own, hshare, hsub⟩ := h.exists_share hi
      rw [Nat.zero_add] at hshare
      have hown : Piece.gapsAll own = [] := Piece.gapsAll_eq_nil_iff.mpr fun p hp =>
        Piece.gapsAll_eq_nil_iff.mp hg p (hsub hp)
      obtain ⟨kind, type, statement, hk, hp, hslot, hs, hholds, has, hstub⟩ :=
        hshare.readsOne hc hown
      exact ⟨kind, type, statement, hk, hp, hslot, hs, Piece.methods_subset hsub hholds,
        Piece.methods_subset hsub has, hstub⟩

/-- Every union inside of a union, at any depth, has its class. -/
theorem UnionIn.exists_class {outer union : String} (h : ctx.UnionIn outer items union alternatives)
    (hs : outer = qualified scope name) (ho : ctx.UnionOutline scope name items piece)
    (hp : piece ∈ pieces) (hg : piece.gaps = []) :
    ∃ types content, ClassIn scope pieces union types content ∧
      ctx.ReadsAll union alternatives types content := by
  induction h generalizing scope name piece pieces with
  | here =>
    obtain ⟨types, content, rfl, hreads⟩ := ho.readsAll hc hg
    subst hs
    exact ⟨types, content, .here hp, hreads⟩
  | @inside _ _ _ _ _ i t hi hk _ ih =>
    subst hs
    cases ho with
    | @intro _ _ _ _ _ content _ h _ _ =>
      obtain ⟨label?, own, hshare, hsub⟩ := h.exists_share hi
      rw [Nat.zero_add] at hshare
      cases hshare with
      | leftOut _ =>
        cases Piece.gapsAll_eq_nil_iff.mp hg _ (hsub List.mem_cons_self)
      | plain _ hk' hu _ =>
        cases hk.symm.trans hk'
        exact absurd rfl (hu _)
      | union _ hk' hnested =>
        cases hk.symm.trans hk'
        have hmem := hsub List.mem_cons_self
        obtain ⟨types, members, hclass, hreads⟩ :=
          ih rfl hnested hmem (Piece.gapsAll_eq_nil_iff.mp hg _ hmem)
        exact ⟨types, members, .inside hp hclass, hreads⟩

/-- Every class among pieces, at any depth, is that of a union, if those that stand directly among
them are. -/
theorem exists_union_of_classIn {union : String} {types : List String} {members : List Piece}
    (h : ClassIn scope pieces union types members) (hg : Piece.gapsAll pieces = [])
    {Origin : Nat → List TypeSpec → Prop}
    (ho : ∀ name types content, .inner name types content ∈ pieces → ∃ i items, Origin i items ∧
      ctx.UnionOutline scope ("Union" ++ toString i) items (.inner name types content)) :
    ∃ i items alternatives, Origin i items ∧
      ctx.UnionIn (qualified scope ("Union" ++ toString i)) items union alternatives ∧
      ctx.ReadsAll union alternatives types members := by
  induction h generalizing Origin with
  | here hm =>
    obtain ⟨i, items, horigin, houtline⟩ := ho _ _ _ hm
    obtain ⟨types, content, heq, hreads⟩ :=
      houtline.readsAll hc (Piece.gapsAll_eq_nil_iff.mp hg _ hm)
    cases heq
    exact ⟨i, items, items, horigin, .here, hreads⟩
  | @inside scope _ _ content _ _ _ _ hm _ ih =>
    obtain ⟨i, items, horigin, houtline⟩ := ho _ _ _ hm
    have hcontent : Piece.gapsAll content = [] := Piece.gapsAll_eq_nil_iff.mp hg _ hm
    cases houtline with
    | intro _ h _ _ =>
      have hnested : ∀ name types members, .inner name types members ∈ content →
          ∃ (j : Nat) (deeper : List TypeSpec),
            (∃ t, items[j]? = some t ∧
              ctx.classify (qualified scope ("Union" ++ toString i)) t =
                .ok (.union deeper)) ∧
            ctx.UnionOutline (qualified scope ("Union" ++ toString i)) ("Union" ++ toString j)
              deeper (.inner name types members) := by
        intro name types members hmem
        obtain ⟨j, t, deeper, hj, hk, hdeeper⟩ := h.exists_union hmem
        rw [Nat.zero_add] at hdeeper
        exact ⟨j, deeper, ⟨t, hj, hk⟩, hdeeper⟩
      obtain ⟨j, deeper, alternatives, ⟨t, hj, hk⟩, hin, hreads⟩ := ih hcontent hnested
      exact ⟨i, items, alternatives, horigin, .inside hj hk hin, hreads⟩

end Clean

/-- Without gaps there is no literal in a field. -/
theorem FieldBlocks.literals_eq_nil {taken : List String} {properties : List Property}
    {ws : List Fragment} {setUp : List (CppType × String)}
    (h : ctx.FieldBlocks scope taken index properties ws setUp) (hg : Fragment.gaps ws = []) :
    ∀ property ∈ properties, property.type.literals = [] := by
  induction h with
  | nil => exact List.forall_mem_nil _
  | skipped _ _ _ => cases hg
  | cons _ hk _ slot _ ih =>
    simp only [Fragment.gaps, List.filterMap_append, List.append_eq_nil_iff] at hg
    refine List.forall_mem_cons.mpr ⟨?_, ih hg.2⟩
    cases slot with
    | union h =>
      obtain ⟨⟨kind, followed⟩, htrace, rfl⟩ := Except.map_eq_ok.mp hk
      obtain ⟨outline, hdepicts, houtline⟩ := h.outline
      have hitems := houtline.literals_eq_nil (hdepicts.gaps_eq ▸ hg.1.1.2)
      exact literals_of_trace_union htrace hitems
    | plain _ he =>
      have hgaps := (Fragment.depicts_gaps scope _).gaps.symm.trans hg.1.1.2
      rw [Piece.gapsAll_map_gap] at hgaps
      exact TypeSpec.literals_eq_nil he hgaps

/-- The class of a structure is complete: each field has its functions, each union at any depth its
class, and in such a class each alternative can be tested and read. Nothing stands in for anything
else. -/
structure CompleteClass (ctx : Context) (s : Structure) (properties : List Property)
    (slots : List Slot) (inner : List Piece) : Prop where
  literals : ∀ property ∈ properties, property.type.literals = []
  fields : ctx.FieldsOutline s.name properties.zipIdx slots inner
  genuine : ∀ slot ∈ slots, slot.kind ≠ .placeholder ∧ slot.type.standIns = []
  found : ∀ slot ∈ slots, ∀ items, slot.kind = .union items → ∀ union alternatives,
    ctx.UnionIn (qualified s.name ("Union" ++ toString slot.index)) items union alternatives →
    ∃ types content, ClassIn s.name inner union types content ∧
      ctx.ReadsAll union alternatives types content
  /-- There are no other classes than those. -/
  known : ∀ union types content, ClassIn s.name inner union types content →
    ∃ slot ∈ slots, ∃ items alternatives, slot.kind = .union items ∧
      ctx.UnionIn (qualified s.name ("Union" ++ toString slot.index)) items union alternatives ∧
      ctx.ReadsAll union alternatives types content

theorem SlotOf.genuine (hc : ctx.AliasesClean) {place : Property × Nat} {slot : Slot}
    (h : ctx.SlotOf scope place slot) (hl : place.1.type.literals = []) :
    slot.kind ≠ .placeholder ∧ slot.type.standIns = [] := by
  obtain ⟨⟨_, followed⟩, htrace, hkind⟩ := Except.map_eq_ok.mp h.kind
  cases hkind
  refine ⟨hc.kind_ne_placeholder htrace hl, ?_⟩
  have htype := h.type
  unfold slotType at htype
  split at htype
  · rw [← Except.ok.inj htype]
    rfl
  · exact TypeSpec.standIns_eq_nil hl htype

theorem FieldsOutline.completeClass (hc : ctx.AliasesClean) {s : Structure}
    {properties : List Property} {slots : List Slot} {inner : List Piece}
    (h : ctx.FieldsOutline s.name properties.zipIdx slots inner)
    (hl : ∀ property ∈ properties, property.type.literals = [])
    (hg : Piece.gapsAll inner = []) : ctx.CompleteClass s properties slots inner where
  literals := hl
  fields := h
  genuine := by
    intro slot hslot
    obtain ⟨place, hplace, hof⟩ := exists_mem_of_forall₂ h.fields.flip hslot
    exact hof.genuine hc (hl _ (List.fst_mem_of_mem_zipIdx hplace))
  found := by
    intro slot hslot items hk union alternatives hin
    have hholds : slot ∈ slots.filter Slot.holdsUnion :=
      List.mem_filter.mpr ⟨hslot, by simp [Slot.holdsUnion, hk]⟩
    obtain ⟨c, hmem, items', hk', houtline⟩ := exists_mem_of_forall₂ h.unions hholds
    cases hk.symm.trans hk'
    have hinner := List.mem_of_mem_filter hmem
    exact hin.exists_class hc rfl houtline hinner (Piece.gapsAll_eq_nil_iff.mp hg c hinner)
  known := by
    intro union types content hclass
    have horigin : ∀ name types content, .inner name types content ∈ inner →
        ∃ i items, (∃ slot ∈ slots, slot.kind = .union items ∧ slot.index = i) ∧
          ctx.UnionOutline s.name ("Union" ++ toString i) items (.inner name types content) := by
      intro name types content hm
      have hclass : .inner name types content ∈ Piece.classes inner :=
        List.mem_filter.mpr ⟨hm, rfl⟩
      obtain ⟨slot, hslot, items, hk, houtline⟩ := exists_mem_of_forall₂ h.unions.flip hclass
      exact ⟨slot.index, items, ⟨slot, List.mem_of_mem_filter hslot, hk, rfl⟩, houtline⟩
    obtain ⟨_, items, alternatives, ⟨slot, hslot, hk, rfl⟩, hin, hreads⟩ :=
      exists_union_of_classIn hc hclass hg horigin
    exact ⟨slot, hslot, items, alternatives, hk, hin, hreads⟩

theorem literals_of_structureDraft {s : Structure} {ws : List Fragment}
    (h : (ctx.structureDraft s).Ends ws ()) (hg : Fragment.gaps ws = [])
    {properties : List Property} (hp : ctx.schema.flatten s = .ok properties) :
    ∀ property ∈ properties, property.type.literals = [] := by
  obtain ⟨_, inner, _, hflatten, hfields, rfl⟩ := fieldBlocks_of_structureDraft h
  cases hp.symm.trans hflatten
  apply hfields.literals_eq_nil
  apply List.filterMap_eq_nil_iff.mpr
  intro f hf
  apply List.filterMap_eq_nil_iff.mp hg
  simp [hf]

/-- The class of a structure without gaps, as its lines. -/
theorem completeClass_of_structureDraft (hc : ctx.AliasesClean) {s : Structure}
    {ws : List Fragment} (h : (ctx.structureDraft s).Ends ws ()) (hg : Fragment.gaps ws = []) :
    ∃ properties slots inner, ctx.schema.flatten s = .ok properties ∧
      ctx.CompleteClass s properties slots inner ∧
      (Fragment.header .empty ws).lines.toList =
        s.documentation.elim [] Text.blockComment ++ (classOf s slots inner).headerLines ∧
      (Fragment.source .empty ws).lines.toList = (classOf s slots inner).sourceLines "" := by
  obtain ⟨properties, slots, inner, hp, houtline, hheader, hsource, hgaps⟩ :=
    outline_structureDraft h
  have hl := literals_of_structureDraft h hg hp
  have hretained : properties.filter Property.isRetained = properties := by
    apply List.filter_eq_self.mpr
    intro property hproperty
    apply isRetained_of_ne
    intro value ht
    have hnone := hl property hproperty
    rw [ht] at hnone
    cases hnone
  have hinner : Piece.gapsAll inner = [] := by
    rw [hg] at hgaps
    have hcontent : Piece.gapsAll (inner ++ _) = [] := hgaps.symm
    rw [Piece.gapsAll_append] at hcontent
    exact (List.append_eq_nil_iff.mp hcontent).1
  rw [hretained] at houtline
  exact ⟨properties, slots, inner, hp, houtline.completeClass hc hl hinner, hheader, hsource⟩

end Context

end ProtocolBindings

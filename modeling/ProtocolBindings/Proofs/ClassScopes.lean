import Mathlib.Data.List.Nodup
import ProtocolBindings.Proofs.Blocks

namespace ProtocolBindings

structure ClassScope where
  name : String
  functions : List Signature := []
  nested : List String := []
  deriving DecidableEq

namespace ClassScope

def add (functions : List Signature) (nested : List String) (c : ClassScope) : ClassScope :=
  { c with functions := c.functions ++ functions, nested := c.nested ++ nested }

theorem add_nil : add [] [] = id := by
  funext c
  simp [add]

theorem add_comp_add (functions functions' : List Signature) (nested nested' : List String) :
    add functions' nested' ∘ add functions nested =
      add (functions ++ functions') (nested ++ nested') := by
  funext c
  simp [add]

def memberNames (c : ClassScope) : List String :=
  c.functions.map Signature.name ++ c.nested

def names (c : ClassScope) : List String :=
  c.name :: c.memberNames

/-- No two members have one name, and no function has that of the class. -/
structure IsTidy (c : ClassScope) : Prop where
  members : c.memberNames.Nodup
  functions : c.name ∉ c.functions.map Signature.name

theorem IsTidy.nodup_names_iff {c : ClassScope} (h : c.IsTidy) :
    c.names.Nodup ↔ c.name ∉ c.nested := by
  rw [names, List.nodup_cons, memberNames, List.mem_append, not_or]
  exact ⟨fun hn => hn.1.2, fun hn => ⟨⟨h.functions, hn⟩, h.members⟩⟩

/-- Among tidy classes a name comes twice in a scope only by a class inside one of its own name. -/
theorem forall_nodup_names_iff {classes : List ClassScope} (h : ∀ c ∈ classes, c.IsTidy) :
    (∀ c ∈ classes, c.names.Nodup) ↔ ∀ c ∈ classes, c.name ∉ c.nested :=
  forall₂_congr fun c hc => (h c hc).nodup_names_iff

end ClassScope

/-- The classes that are open, the innermost first, and those that have been closed. -/
structure ClassReading where
  opened : List ClassScope := []
  closed : List ClassScope := []

def ClassReading.next (r : ClassReading) : Fragment → ClassReading
  | .declare signature => { r with opened := r.opened.modifyHead (·.add [signature] []) }
  | .openClass name _ => { r with opened := { name } :: r.opened.modifyHead (·.add [] [name]) }
  | .closeClass => { opened := r.opened.tail, closed := r.closed ++ r.opened.take 1 }
  | .leaveClass => { r with opened := r.opened.tail }
  | .gap _ | .comment _ | .blank | .define _ => r

namespace Fragment

/-- The classes that are closed in a sequence of fragments, each after those inside it. -/
def classes (fs : List Fragment) : List ClassScope :=
  (fs.foldl ClassReading.next {}).closed

/-- The fragments add functions and nested classes to the class they stand in; these classes are
complete. -/
def Reads (fs : List Fragment) (functions : List Signature) (nested : List String)
    (classes : List ClassScope) : Prop :=
  ∀ r : ClassReading, fs.foldl ClassReading.next r =
    ⟨r.opened.modifyHead (·.add functions nested), r.closed ++ classes⟩

variable {fs gs : List Fragment} {functions functions' : List Signature}
  {nested nested' : List String} {inner inner' : List ClassScope}

theorem Reads.classes_eq (h : Reads fs functions nested inner) : classes fs = inner := by
  rw [classes, h]
  exact List.nil_append _

theorem reads_nil : Reads [] [] [] [] := by
  intro r
  rw [ClassScope.add_nil, List.modifyHead_id, List.append_nil]
  rfl

theorem Reads.append (hf : Reads fs functions nested inner)
    (hg : Reads gs functions' nested' inner') :
    Reads (fs ++ gs) (functions ++ functions') (nested ++ nested') (inner ++ inner') := by
  intro r
  rw [List.foldl_append, hf, hg, List.modifyHead_modifyHead, ClassScope.add_comp_add,
    List.append_assoc]

theorem reads_of_isAside (h : ∀ f ∈ fs, f.IsAside) : Reads fs [] [] [] := by
  induction fs with
  | nil => exact reads_nil
  | cons f fs ih =>
    obtain ⟨hf, hfs⟩ := List.forall_mem_cons.mp h
    cases f with
    | gap _ => exact ih hfs
    | comment _ => exact ih hfs
    | blank => exact ih hfs
    | _ => exact hf.elim

theorem reads_member (scope : String) (signature : Signature) (body : Body) :
    Reads (member scope signature body) [signature] [] [] := by
  intro r
  rw [List.append_nil]
  rfl

theorem Reads.ite (h : Reads fs functions [] []) (c : Bool) :
    Reads (if c then fs else []) (if c then functions else []) [] [] := by
  cases c with
  | true => exact h
  | false => exact reads_nil

/-- A class that is opened and closed is nested in the class around it. -/
theorem Reads.inClass (h : Reads fs functions nested inner) (name : String) (wrapper : Wrapper) :
    Reads (.openClass name wrapper :: fs ++ [.closeClass]) [] [name]
      (inner ++ [⟨name, functions, nested⟩]) := by
  intro r
  rw [List.cons_append, List.foldl_cons, List.foldl_append, h, ← List.append_assoc]
  rfl

end Fragment

open Fragment (Reads reads_nil reads_member reads_of_isAside)

theorem unionName_inj {i j : Nat} (h : unionName i = unionName j) : i = j := by
  rw [unionName, unionName, String.append_right_inj, Nat.toString_eq_ofList_toDigits,
    Nat.toString_eq_ofList_toDigits, String.ofList_inj] at h
  rw [← Nat.ofDigitChars_ten_toDigits (n := i), h, Nat.ofDigitChars_ten_toDigits]

def accessorNames (label : String) : List String :=
  ["holds_" ++ label, "as_" ++ label, "set_" ++ label]

theorem nodup_accessorNames (label : String) : (accessorNames label).Nodup := by
  simp [accessorNames, ← String.toList_inj]

theorem eq_of_mem_accessorNames {name label label' : String} (h : name ∈ accessorNames label)
    (h' : name ∈ accessorNames label') : label = label' := by
  simp only [accessorNames, List.mem_cons, List.not_mem_nil, or_false] at h
  rcases h with rfl | rfl | rfl
  all_goals simpa [accessorNames, ← String.toList_inj] using h'

theorem unionName_not_mem_accessorNames (index : Nat) (label : String) :
    unionName index ∉ accessorNames label := by
  simp [accessorNames, unionName, ← String.toList_inj]

def alternativeFunctions (label : String) (type : CppType) : ValueKind → List Signature
  | .primitive => [.holds label, .readAs type label, .setter type label]
  | _ => [.holds label, .readAs type label]

theorem alternativeFunctions_sublist (label : String) (type : CppType) (kind : ValueKind) :
    ((alternativeFunctions label type kind).map Signature.name).Sublist (accessorNames label) := by
  cases kind with
  | primitive => exact List.Sublist.refl _
  | _ => exact List.sublist_append_left [_, _] [_]

theorem reads_alternativeMembers (scope label : String) (type : CppType) (kind : ValueKind)
    (reading : Body) : Reads (alternativeMembers scope label type kind reading)
      (alternativeFunctions label type kind) [] [] := by
  have hread := (reads_member scope (.holds label) (.testAlternative type)).append
    (reads_member scope (.readAs type label) reading)
  have hblank : Reads [.blank] [] [] [] := reads_of_isAside (by simp [Fragment.IsAside])
  cases kind with
  | primitive =>
    exact (hread.append (reads_member scope (.setter type label) .writeAlternative)).append hblank
  | _ => exact (hread.append reads_nil).append hblank

/-- Functions of different names, each for an alternative that has none of these labels. -/
structure Labelled (labels : List String) (functions : List Signature) : Prop where
  accessor : ∀ f ∈ functions, ∃ label, label ∉ labels ∧ f.name ∈ accessorNames label
  distinct : (functions.map Signature.name).Nodup

namespace Labelled

variable {labels : List String} {functions : List Signature} {label : String}

theorem nil (labels : List String) : Labelled labels [] := ⟨nofun, List.nodup_nil⟩

theorem cons (h : Labelled (labels ++ [label]) functions) (hl : label ∉ labels) (type : CppType)
    (kind : ValueKind) : Labelled labels (alternativeFunctions label type kind ++ functions) := by
  have hsub := alternativeFunctions_sublist label type kind
  constructor
  · intro f hf
    rcases List.mem_append.mp hf with hf | hf
    · exact ⟨label, hl, hsub.subset (List.mem_map_of_mem hf)⟩
    · obtain ⟨label', hl', hf⟩ := h.accessor f hf
      exact ⟨label', fun hm => hl' (List.mem_append_left _ hm), hf⟩
  · rw [List.map_append, List.nodup_append']
    refine ⟨hsub.nodup (nodup_accessorNames label), h.distinct, ?_⟩
    -- a function that shares a name with these has their label, which is in use by then
    intro name hname hmem
    obtain ⟨f, hf, rfl⟩ := List.mem_map.mp hmem
    obtain ⟨label', hl', hf⟩ := h.accessor f hf
    cases eq_of_mem_accessorNames (hsub.subset hname) hf
    exact hl' (List.mem_append_right _ (List.mem_singleton_self _))

theorem not_mem (h : Labelled labels functions) {name : String}
    (hn : ∀ label, name ∉ accessorNames label) : name ∉ functions.map Signature.name := by
  intro hm
  obtain ⟨f, hf, rfl⟩ := List.mem_map.mp hm
  obtain ⟨label, _, hl⟩ := h.accessor f hf
  exact hn label hl

end Labelled

namespace Context

/-- The alternative at a position of the union `scope` is a union in its turn. -/
def HoldsUnion (ctx : Context) (scope : String) (items : List TypeSpec) (position : Nat)
    (deeper : List TypeSpec) : Prop :=
  ∃ t, items[position]? = some t ∧ skippedAlternative t = none ∧
    ctx.classify scope t = .ok (.union deeper)

/-- Somewhere in the union `name` of `scope`, at any depth, a union stands directly inside one that
is called alike. -/
inductive NestsAlike (ctx : Context) : String → String → List TypeSpec → Prop
  | here {scope name : String} {items deeper : List TypeSpec} {position : Nat}
    (h : ctx.HoldsUnion (qualify scope name) items position deeper)
    (hn : unionName position = name) : NestsAlike ctx scope name items
  | inside {scope name : String} {items deeper : List TypeSpec} {position : Nat}
    (h : ctx.HoldsUnion (qualify scope name) items position deeper)
    (hi : NestsAlike ctx (qualify scope name) (unionName position) deeper) :
    NestsAlike ctx scope name items

/-- What is nested in the class of the union `scope` for its alternatives from a position on: the
names of the classes directly inside, and all classes with what stands in them. -/
structure Nesting (ctx : Context) (scope : String) (index : Nat) (items : List TypeSpec)
    (nested : List String) (classes : List ClassScope) : Prop where
  mem_iff : ∀ name, name ∈ nested ↔
    ∃ j deeper, ctx.HoldsUnion scope items j deeper ∧ unionName (index + j) = name
  distinct : nested.Nodup
  tidy : ∀ c ∈ classes, c.IsTidy
  alike_iff : (∃ c ∈ classes, c.name ∈ c.nested) ↔
    ∃ j deeper, ctx.HoldsUnion scope items j deeper ∧
      ctx.NestsAlike scope (unionName (index + j)) deeper

/-- The classes that the union `name` of `scope` consists of; its own is the last. -/
def UnionClasses (ctx : Context) (scope name : String) (items : List TypeSpec)
    (classes : List ClassScope) : Prop :=
  ∃ functions nested inner, classes = inner ++ [⟨name, functions, nested⟩] ∧
    Labelled [] functions ∧ ctx.Nesting (qualify scope name) 0 items nested inner

variable {ctx : Context} {scope name : String} {index : Nat} {t : TypeSpec}
  {items deeper : List TypeSpec} {nested : List String} {classes inner : List ClassScope}

theorem nestsAlike_iff : ctx.NestsAlike scope name items ↔
    (∃ j deeper, ctx.HoldsUnion (qualify scope name) items j deeper ∧ unionName j = name) ∨
      ∃ j deeper, ctx.HoldsUnion (qualify scope name) items j deeper ∧
        ctx.NestsAlike (qualify scope name) (unionName j) deeper := by
  constructor
  · rintro (⟨h, hn⟩ | ⟨h, hi⟩)
    · exact .inl ⟨_, _, h, hn⟩
    · exact .inr ⟨_, _, h, hi⟩
  · rintro (⟨_, _, h, hn⟩ | ⟨_, _, h, hi⟩)
    · exact .here h hn
    · exact .inside h hi

theorem holdsUnion_zero : ctx.HoldsUnion scope (t :: items) 0 deeper ↔
    skippedAlternative t = none ∧ ctx.classify scope t = .ok (.union deeper) := by
  simp [HoldsUnion]

theorem HoldsUnion.unique {position : Nat} {deeper' : List TypeSpec}
    (h : ctx.HoldsUnion scope items position deeper)
    (h' : ctx.HoldsUnion scope items position deeper') : deeper = deeper' := by
  obtain ⟨t, ht, _, hk⟩ := h
  obtain ⟨t', ht', _, hk'⟩ := h'
  cases ht.symm.trans ht'
  cases hk.symm.trans hk'
  rfl

/-- A union among the alternatives is the first of them or comes later. -/
theorem exists_holdsUnion_cons {P : Nat → List TypeSpec → Prop} :
    (∃ j deeper, ctx.HoldsUnion scope (t :: items) j deeper ∧ P j deeper) ↔
      (∃ deeper, ctx.HoldsUnion scope (t :: items) 0 deeper ∧ P 0 deeper) ∨
        ∃ j deeper, ctx.HoldsUnion scope items j deeper ∧ P (j + 1) deeper :=
  Nat.or_exists_add_one.symm

namespace UnionClasses

theorem nodup_memberNames (h : ctx.UnionClasses scope name items classes) :
    ∀ c ∈ classes, c.memberNames.Nodup := by
  obtain ⟨functions, nested, inner, rfl, hf, hn⟩ := h
  intro c hc
  rcases List.mem_append.mp hc with hc | hc
  · exact (hn.tidy c hc).members
  · cases List.mem_singleton.mp hc
    apply List.nodup_append'.mpr ⟨hf.distinct, hn.distinct, ?_⟩
    intro member hmember hnested
    obtain ⟨j, _, _, rfl⟩ := (hn.mem_iff member).mp hnested
    exact hf.not_mem (unionName_not_mem_accessorNames _) hmember

theorem tidy (h : ctx.UnionClasses scope name items classes)
    (hname : ∀ label, name ∉ accessorNames label) : ∀ c ∈ classes, c.IsTidy := by
  intro c hc
  refine ⟨h.nodup_memberNames c hc, ?_⟩
  obtain ⟨functions, nested, inner, rfl, hf, hn⟩ := h
  rcases List.mem_append.mp hc with hc | hc
  · exact (hn.tidy c hc).functions
  · cases List.mem_singleton.mp hc
    exact hf.not_mem hname

theorem alike_iff (h : ctx.UnionClasses scope name items classes) :
    (∃ c ∈ classes, c.name ∈ c.nested) ↔ ctx.NestsAlike scope name items := by
  obtain ⟨functions, nested, inner, rfl, -, hn⟩ := h
  have hself := hn.mem_iff name
  have hinner := hn.alike_iff
  simp only [Nat.zero_add] at hself hinner
  rw [nestsAlike_iff, ← hself, ← hinner]
  simp [or_and_right, exists_or, or_comm]

end UnionClasses

namespace Nesting

theorem nil : ctx.Nesting scope index [] [] [] := by
  constructor <;> simp [HoldsUnion]

/-- An alternative that is no union adds nothing. -/
theorem skip (h : ctx.Nesting scope (index + 1) items nested classes)
    (hno : ∀ deeper, ¬ ctx.HoldsUnion scope (t :: items) 0 deeper) :
    ctx.Nesting scope index (t :: items) nested classes where
  mem_iff name := by
    rw [h.mem_iff, exists_holdsUnion_cons]
    simp only [hno, false_and, exists_false, false_or, Nat.add_assoc, Nat.add_comm 1]
  distinct := h.distinct
  tidy := h.tidy
  alike_iff := by
    rw [h.alike_iff, exists_holdsUnion_cons]
    simp only [hno, false_and, exists_false, false_or, Nat.add_assoc, Nat.add_comm 1]

/-- An alternative that is a union adds the classes of that union. -/
theorem cons (h : ctx.Nesting scope (index + 1) items nested classes)
    (hu : ctx.HoldsUnion scope (t :: items) 0 deeper)
    (hc : ctx.UnionClasses scope (unionName index) deeper inner) :
    ctx.Nesting scope index (t :: items) (unionName index :: nested) (inner ++ classes) where
  mem_iff name := by
    rw [List.mem_cons, h.mem_iff, exists_holdsUnion_cons]
    apply or_congr
    · exact ⟨fun he => ⟨deeper, hu, he.symm⟩, fun ⟨_, _, he⟩ => he.symm⟩
    · simp only [Nat.add_assoc, Nat.add_comm 1]
  distinct := by
    refine List.nodup_cons.mpr ⟨?_, h.distinct⟩
    intro hm
    obtain ⟨j, _, _, hj⟩ := (h.mem_iff _).mp hm
    have hindex := unionName_inj hj
    omega
  tidy := List.forall_mem_append.mpr
    ⟨hc.tidy (unionName_not_mem_accessorNames index), h.tidy⟩
  alike_iff := by
    simp only [List.mem_append, or_and_right, exists_or]
    rw [h.alike_iff, hc.alike_iff, exists_holdsUnion_cons]
    -- the classes of this union, and those of the unions after it
    apply or_congr
    · exact ⟨fun ha => ⟨deeper, hu, ha⟩, fun ⟨_, hu', ha⟩ => hu.unique hu' ▸ ha⟩
    · simp only [Nat.add_assoc, Nat.add_comm 1]

end Nesting

def ReadsUnion (ctx : Context) (scope name : String) (items : List TypeSpec)
    (ws : List Fragment) : Prop :=
  ∃ classes, Reads ws [] [name] classes ∧ ctx.UnionClasses scope name items classes

/-- What an alternative adds to the class of its union, whatever the alternatives after it add. -/
theorem AlternativeBlock.reads {label? : Option String} {ws : List Fragment}
    (h : ctx.AlternativeBlock ctx.ReadsUnion label? scope index t ws) :
    ∃ functions nested classes, Reads ws functions nested classes ∧
      (∀ labels others, (∀ label, label? = some label → label ∉ labels) →
        Labelled (labels ++ label?.toList) others → Labelled labels (functions ++ others)) ∧
      ∀ items nested' classes', ctx.Nesting scope (index + 1) items nested' classes' →
        ctx.Nesting scope index (t :: items) (nested ++ nested') (classes ++ classes') := by
  cases h with
  | skipped hs =>
    refine ⟨[], [], [], reads_of_isAside (by simp [Fragment.IsAside]), ?_, ?_⟩
    · intro labels others _ hf
      rwa [Option.toList_none, List.append_nil] at hf
    · intro items nested' classes' hn
      apply hn.skip
      intro deeper hu
      cases hs.symm.trans (holdsUnion_zero.mp hu).1
  | nested hs hk h =>
    obtain ⟨inner, hinner, hc⟩ := h
    refine ⟨_, _, _, hinner.append (reads_alternativeMembers _ _ _ _ _), ?_, ?_⟩
    · intro labels others hl hf
      rw [List.nil_append]
      exact hf.cons (hl _ rfl) _ _
    · intro items nested' classes' hn
      rw [List.append_nil inner]
      exact hn.cons (holdsUnion_zero.mpr ⟨hs, hk⟩) hc
  | plain hs hk hu h =>
    refine ⟨_, _, _, (reads_of_isAside (isAside_plainAlternative _ _ _)).append
      (reads_alternativeMembers _ _ _ _ _), ?_, ?_⟩
    · intro labels others hl hf
      rw [List.nil_append]
      exact hf.cons (hl _ rfl) _ _
    · intro items nested' classes' hn
      apply hn.skip
      intro deeper hdeeper
      cases hk.symm.trans (holdsUnion_zero.mp hdeeper).2
      exact hu _ rfl

theorem AlternativeBlocks.reads {labels : List String} {ws : List Fragment}
    (h : ctx.AlternativeBlocks ctx.ReadsUnion index scope labels items ws) :
    ∃ functions nested classes, Reads ws functions nested classes ∧ Labelled labels functions ∧
      ctx.Nesting scope index items nested classes := by
  induction h with
  | nil => exact ⟨[], [], [], reads_nil, .nil _, .nil⟩
  | cons hl first _ ih =>
    obtain ⟨_, _, _, hfirst, hlabelled, hnesting⟩ := first.reads
    obtain ⟨_, _, _, hrest, hf, hn⟩ := ih
    have hfresh := hlabelled _ _ (fun label h => (hl label h).2) hf
    exact ⟨_, _, _, hfirst.append hrest, hfresh, hnesting _ _ _ hn⟩

theorem UnionBlock.reads {ws : List Fragment} (h : ctx.UnionBlock scope name items ws) :
    ctx.ReadsUnion scope name items ws := by
  refine UnionBlock.induct ?_ h
  intro scope name items types inner _ hblocks
  obtain ⟨functions, nested, inner, hr, hf, hn⟩ := hblocks.reads
  exact ⟨_, hr.inClass name _, functions, nested, inner, rfl, hf, hn⟩

end Context

end ProtocolBindings

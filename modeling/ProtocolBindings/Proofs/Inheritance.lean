import Mathlib.Data.List.Nodup
import ProtocolBindings.Proofs.Drafts
import ProtocolBindings.Proofs.Walks
import ProtocolBindings.Schema.Verify

namespace ProtocolBindings

namespace Schema

variable {schema : Schema} {path : List String} {child name : String} {p : TypeSpec}
  {s : Structure} {e : SchemaError}

def HasParent (schema : Schema) (child : String) (p : TypeSpec) : Prop :=
  ∃ s, schema.structure? child = some s ∧ p ∈ s.parents

def Extends (schema : Schema) (child parent : String) : Prop :=
  schema.HasParent child (.reference parent)

/-- Every walk along parents from the name ends. -/
def Founded (schema : Schema) (name : String) : Prop :=
  Acc (fun parent child => schema.Extends child parent) name

theorem Founded.not_transGen (h : schema.Founded name) :
    ¬ Relation.TransGen schema.Extends name name := by
  induction h with
  | intro name _ ih =>
    intro hloop
    obtain ⟨parent, hstep, hrest⟩ := Relation.TransGen.head'_iff.mp hloop
    exact ih parent hstep (.tail' hrest hstep)

theorem parent_eq_ok :
    schema.parent child p = .ok s ↔ p = .reference s.name ∧ schema.structure? s.name = some s := by
  constructor
  · intro h
    unfold parent at h
    split at h
    · split at h
      · next found =>
        cases h
        obtain ⟨_, rfl⟩ := mem_structures_of_structure? found
        exact ⟨rfl, found⟩
      · cases h
    · cases h
  · rintro ⟨rfl, h⟩
    simp only [parent, h]

theorem exists_of_parent_error (h : schema.parent child p = .error e) :
    ∃ parent, e = .unknownParent child parent := by
  unfold parent at h
  split at h
  · split at h
    · cases h
    · cases h
      exact ⟨_, rfl⟩
  · cases h
    exact ⟨_, rfl⟩

def IsStructure (schema : Schema) (p : TypeSpec) : Prop :=
  ∃ s ∈ schema.structures, p = .reference s.name

/-- Whether a parent is a structure does not depend on whose parent it is. -/
theorem exists_parent_eq_ok (child : String) :
    (∃ s, schema.parent child p = .ok s) ↔ schema.IsStructure p := by
  constructor
  · rintro ⟨s, h⟩
    exact ⟨s, mem_structures_of_parent h, (parent_eq_ok.mp h).1⟩
  · rintro ⟨s, hs, rfl⟩
    cases h : schema.structure? s.name with
    | none => exact absurd (List.find?_eq_none.mp h s hs) (by simp)
    | some t =>
      refine ⟨t, parent_eq_ok.mpr ?_⟩
      rw [(mem_structures_of_structure? h).2]
      exact ⟨rfl, h⟩

/-- What may stop a walk along parents: a parent that is no structure, or a loop. -/
inductive Faulty (schema : Schema) : SchemaError → Prop
  | unknown {child : String} {p : TypeSpec} {e : SchemaError} :
    schema.HasParent child p → schema.parent child p = .error e → Faulty schema e
  | loop {names : List String} :
    IsLoop schema.Extends names → Faulty schema (.inheritanceCycle names)

section Visit

variable {state after : List (String × Visit)}

/-- The marks that a walk leaves: the names on its path are in progress, and from those that are
done every walk ends. -/
structure Marks (schema : Schema) (path : List String) (state : List (String × Visit)) : Prop where
  inProgress : ∀ name, state.lookup name = some .inProgress ↔ name ∈ path
  done : ∀ name, state.lookup name = some .done → schema.Founded name

theorem lookup_mark (marked : String) (mark : Visit) (state : List (String × Visit))
    (name : String) :
    ((marked, mark) :: state).lookup name =
      if name = marked then some mark else state.lookup name := by
  rw [List.lookup_cons]
  by_cases h : name = marked
  · rw [if_pos h, beq_iff_eq.mpr h]
  · rw [if_neg h, beq_eq_false_iff_ne.mpr h]

theorem marks_nil : schema.Marks [] [] :=
  ⟨fun _ => ⟨nofun, nofun⟩, nofun⟩

theorem Marks.start (h : schema.Marks path state) (name : String) :
    schema.Marks (path ++ [name]) ((name, .inProgress) :: state) := by
  constructor
  · intro other
    rw [lookup_mark, List.mem_append, List.mem_singleton]
    split
    · next heq => simp [heq]
    · next hne => simp [hne, h.inProgress]
  · intro other hdone
    rw [lookup_mark] at hdone
    split at hdone
    · cases hdone
    · exact h.done other hdone

theorem Marks.finish (h : schema.Marks (path ++ [name]) state) (hn : name ∉ path)
    (hf : schema.Founded name) : schema.Marks path ((name, .done) :: state) := by
  constructor
  · intro other
    rw [lookup_mark]
    split
    · next heq => simp [heq, hn]
    · next hne => simp [hne, h.inProgress]
  · intro other hdone
    rw [lookup_mark] at hdone
    split at hdone
    · next heq => exact heq ▸ hf
    · exact h.done other hdone

/-- The parents of a structure, one after the other: where each walk keeps the marks and shows that
its structure is founded, all of them do. -/
theorem founded_of_visit_parents {parents : List TypeSpec}
    (hvisit : ∀ p t (ht : schema.parent child p = .ok t) state after,
      schema.visit path state t (mem_structures_of_parent ht) = .ok after →
      schema.Marks path state → schema.Marks path after ∧ schema.Founded t.name)
    (h : parents.foldlM (fun state p =>
      match h : schema.parent child p with
      | .error e => Except.error e
      | .ok t => schema.visit path state t (mem_structures_of_parent h)) state = .ok after)
    (hm : schema.Marks path state) :
    schema.Marks path after ∧
      ∀ p ∈ parents, ∃ t, schema.parent child p = .ok t ∧ schema.Founded t.name := by
  refine Except.forall_of_foldlM ?_ h hm
  intro state p after hstep hm
  split at hstep
  · cases hstep
  · next t ht =>
    obtain ⟨hafter, hfounded⟩ := hvisit p t ht state after hstep hm
    exact ⟨hafter, t, ht, hfounded⟩

theorem founded_of_visit (hs : s ∈ schema.structures)
    (h : schema.visit path state s hs = .ok after) (hm : schema.Marks path state)
    (hfound : schema.structure? s.name = some s) :
    schema.Marks path after ∧ schema.Founded s.name := by
  fun_induction visit schema path state s hs generalizing after with
  | case1 path state s hs hl => cases h
  | case2 path state s hs hl =>
    cases h
    exact ⟨hm, hm.done s.name hl⟩
  | case3 path state s hs hl hp =>
    rw [(hm.inProgress s.name).mpr hp] at hl
    cases hl
  | case4 path state s hs hl hp ih =>
    obtain ⟨further, hf, h⟩ := Except.bind_eq_ok.mp h
    cases h
    obtain ⟨hfurther, hparents⟩ := founded_of_visit_parents
      (fun p t ht state _ hv hm => ih state p t ht hv hm (parent_eq_ok.mp ht).2) hf
      (hm.start s.name)
    have hname : schema.Founded s.name := by
      refine .intro s.name ?_
      rintro parent ⟨t, ht, hparent⟩
      rw [hfound] at ht
      cases ht
      obtain ⟨t, ht, hfounded⟩ := hparents _ hparent
      cases (parent_eq_ok.mp ht).1
      exact hfounded
    exact ⟨hfurther.finish hp hname, hname⟩

theorem faulty_of_visit (hs : s ∈ schema.structures)
    (h : schema.visit path state s hs = .error e) (hm : schema.Marks path state)
    (hfound : schema.structure? s.name = some s) (hn : path.Nodup)
    (hc : (path ++ [s.name]).IsChain schema.Extends) : schema.Faulty e := by
  fun_induction visit schema path state s hs with
  | case1 path state s hs hl =>
    cases h
    exact .loop (isLoop_of_mem hn hc ((hm.inProgress s.name).mp hl))
  | case2 path state s hs hl => cases h
  | case3 path state s hs hl hp => cases h
  | case4 path state s hs hl hp ih =>
    rcases Except.bind_eq_error.mp h with h | ⟨_, _, h⟩
    · obtain ⟨before, p, _, further, hsplit, hbefore, hstep⟩ := Except.exists_of_foldlM_eq_error h
      have hparent : schema.HasParent s.name p := by
        refine ⟨s, hfound, ?_⟩
        rw [hsplit]
        exact List.mem_append_right _ List.mem_cons_self
      obtain ⟨hfurther, _⟩ := founded_of_visit_parents
        (fun _ _ ht _ _ hv hm => founded_of_visit _ hv hm (parent_eq_ok.mp ht).2) hbefore
        (hm.start s.name)
      split at hstep
      · next d hd =>
        cases hstep
        exact .unknown hparent hd
      · next t ht =>
        obtain ⟨rfl, hfoundt⟩ := parent_eq_ok.mp ht
        refine ih further _ t ht hstep hfurther hfoundt ?_ (isChain_concat hc hparent)
        rw [← List.concat_eq_append]
        exact List.Nodup.concat hp hn
    · cases h

end Visit

/-- All properties that come with a parent of `child`: those of the parent, and those that come
with its own parents in turn. -/
def inherited (schema : Schema) (path : List String) (child : String) (p : TypeSpec) :
    Except SchemaError (List Property) :=
  match _h : schema.parent child p with
  | .error e => .error e
  | .ok s =>
    if _hp : s.name ∈ path then .error (.inheritanceCycle (closedWalk path s.name))
    else do
      let further ← s.parents.mapM (schema.inherited (path ++ [s.name]) s.name)
      return s.properties ++ further.flatten
termination_by (schema.unpassed path).length
decreasing_by exact length_without_lt (mem_structures_of_parent _h) _hp (by simp)

/-- A fold that adds what each element brings adds all that they bring together. -/
theorem foldlM_eq_map_mapM {ε α β γ : Type} {f : γ → α → Except ε γ}
    {g : α → Except ε (List β)} {add : γ → β → γ} (as : List α)
    (h : ∀ a ∈ as, ∀ c, f c a = (g a).map (·.foldl add c)) (c : γ) :
    as.foldlM f c = (as.mapM g).map (·.flatten.foldl add c) := by
  induction as generalizing c with
  | nil => rfl
  | cons a as ih =>
    obtain ⟨ha, has⟩ := List.forall_mem_cons.mp h
    rw [List.foldlM_cons, List.mapM_cons, ha]
    cases g a with
    | error e => rfl
    | ok bs =>
      refine (ih has (bs.foldl add c)).trans ?_
      cases as.mapM g with
      | error e => rfl
      | ok bss => exact congrArg Except.ok (List.foldl_append ..).symm

theorem inherited_eq (schema : Schema) (path : List String) (child : String) (p : TypeSpec) :
    schema.inherited path child p = (do
      let s ← schema.parent child p
      if s.name ∈ path then .error (.inheritanceCycle (closedWalk path s.name))
      else do
        let further ← s.parents.mapM (schema.inherited (path ++ [s.name]) s.name)
        return s.properties ++ further.flatten) := by
  rw [inherited]
  split
  · next h =>
    rw [h]
    rfl
  · next h =>
    rw [h]
    rfl

theorem collect_eq (schema : Schema) (path : List String) (child : String)
    (found : List Property) (p : TypeSpec) :
    schema.collect path child found p = (do
      let s ← schema.parent child p
      if s.name ∈ path then .error (.inheritanceCycle (closedWalk path s.name))
      else
        s.parents.foldlM (schema.collect (path ++ [s.name]) s.name)
          (s.properties.foldl (addNew Property.name) found)) := by
  rw [collect]
  split
  · next h =>
    rw [h]
    rfl
  · next h =>
    rw [h]
    rfl

/-- What is collected behind other properties is what a walk on its own brings. -/
theorem collect_eq_inherited (schema : Schema) (path : List String) (child : String)
    (found : List Property) (p : TypeSpec) :
    schema.collect path child found p =
      (schema.inherited path child p).map (·.foldl (addNew Property.name) found) := by
  fun_induction inherited schema path child p generalizing found with
  | case1 path child p e he =>
    rw [collect_eq, he]
    rfl
  | case2 path child p s hs hp =>
    rw [collect_eq, hs]
    exact if_pos hp
  | case3 path child p s hs hp ih =>
    have hparents := foldlM_eq_map_mapM s.parents (fun q _ found => ih q found)
      (s.properties.foldl (addNew Property.name) found)
    rw [collect_eq, hs]
    refine (if_neg hp).trans (hparents.trans ?_)
    cases s.parents.mapM (schema.inherited (path ++ [s.name]) s.name) with
    | error e => rfl
    | ok further => exact congrArg Except.ok (List.foldl_append ..).symm

/-- The fields of a structure are those that the walks from its parents bring, less repetitions. -/
theorem flatten_eq_inherited (schema : Schema) (s : Structure) :
    schema.flatten s = (s.parents.mapM (schema.inherited [s.name] s.name)).map
      fun further => distinctBy Property.name (s.properties ++ further.flatten) := by
  rw [flatten, foldlM_eq_map_mapM s.parents fun q _ found =>
    schema.collect_eq_inherited [s.name] s.name found q]
  congr 1
  funext further
  rw [← List.foldl_append, foldl_addNew]
  simp

theorem flatten_eq_ok {fields : List Property} :
    schema.flatten s = .ok fields ↔
      ∃ further, s.parents.mapM (schema.inherited [s.name] s.name) = .ok further ∧
        distinctBy Property.name (s.properties ++ further.flatten) = fields := by
  rw [flatten_eq_inherited, Except.map_eq_ok]

theorem exists_of_flatten_eq_error (h : schema.flatten s = .error e) :
    ∃ p ∈ s.parents, schema.inherited [s.name] s.name p = .error e := by
  apply Except.exists_of_mapM_eq_error
  rw [flatten_eq_inherited] at h
  cases hm : s.parents.mapM (schema.inherited [s.name] s.name) with
  | ok further =>
    rw [hm] at h
    cases h
  | error d =>
    rw [hm] at h
    cases h
    rfl

theorem exists_of_inherited {properties : List Property}
    (h : schema.inherited path child p = .ok properties) :
    ∃ s further, schema.parent child p = .ok s ∧ s.name ∉ path ∧
      s.parents.mapM (schema.inherited (path ++ [s.name]) s.name) = .ok further ∧
      properties = s.properties ++ further.flatten := by
  rw [inherited] at h
  split at h
  · cases h
  · next s hs =>
    split at h
    · cases h
    · next hn =>
      obtain ⟨further, hf, h⟩ := Except.bind_eq_ok.mp h
      cases h
      exact ⟨s, further, hs, hn, hf, rfl⟩

theorem founded_of_inherited {properties : List Property}
    (h : schema.inherited path child p = .ok properties) :
    ∃ s, schema.parent child p = .ok s ∧ schema.Founded s.name := by
  fun_induction inherited schema path child p generalizing properties with
  | case1 path child p e he => cases h
  | case2 path child p s hs hm => cases h
  | case3 path child p s hs hm ih =>
    obtain ⟨further, hf, _⟩ := Except.bind_eq_ok.mp h
    refine ⟨s, hs, .intro s.name ?_⟩
    rintro parent ⟨t, ht, hparent⟩
    rw [(parent_eq_ok.mp hs).2] at ht
    cases ht
    obtain ⟨_, hi⟩ := Except.exists_of_mapM_eq_ok hf hparent
    obtain ⟨t, ht, hfounded⟩ := ih (.reference parent) hi
    cases (parent_eq_ok.mp ht).1
    exact hfounded

/-- Collecting fields fails at a parent that is no structure, or where a walk along parents comes
back to its path. `Has` may know of more parents than the model, those of the first structure. -/
theorem fault_of_inherited (Has : String → TypeSpec → Prop)
    (hhas : ∀ child p, schema.HasParent child p → Has child p)
    (h : schema.inherited (path ++ [child]) child p = .error e) (hn : (path ++ [child]).Nodup)
    (hc : (path ++ [child]).IsChain fun a b => Has a (.reference b)) (hp : Has child p) :
    (∃ child p, Has child p ∧ schema.parent child p = .error e) ∨
      ∃ names, e = .inheritanceCycle names ∧ IsLoop (fun a b => Has a (.reference b)) names := by
  generalize hpath : path ++ [child] = passed at h hn hc
  fun_induction inherited schema passed child p generalizing path with
  | case1 passed child p d hd =>
    cases h
    exact .inl ⟨child, p, hp, hd⟩
  | case2 passed child p s hs hm =>
    cases h
    subst hpath
    rw [(parent_eq_ok.mp hs).1] at hp
    exact .inr ⟨_, rfl, isLoop_of_mem hn (isChain_concat hc hp) hm⟩
  | case3 passed child p s hs hm ih =>
    subst hpath
    obtain ⟨rfl, hfound⟩ := parent_eq_ok.mp hs
    rcases Except.bind_eq_error.mp h with h | ⟨_, _, h⟩
    · obtain ⟨q, hq, hi⟩ := Except.exists_of_mapM_eq_error h
      refine ih q (hhas _ _ ⟨s, hfound, hq⟩) rfl hi ?_ (isChain_concat hc hp)
      rw [← List.concat_eq_append]
      exact List.Nodup.concat hm hn
    · cases h

theorem faulty_of_inherited (h : schema.inherited (path ++ [child]) child p = .error e)
    (hn : (path ++ [child]).Nodup) (hc : (path ++ [child]).IsChain schema.Extends)
    (hp : schema.HasParent child p) : schema.Faulty e := by
  rcases fault_of_inherited schema.HasParent (fun _ _ h => h) h hn hc hp with
    ⟨_, _, hp, he⟩ | ⟨names, rfl, hl⟩
  · exact .unknown hp he
  · exact .loop hl

end Schema

end ProtocolBindings

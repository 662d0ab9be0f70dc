import Mathlib.Logic.Relation
import Mathlib.Order.WellFounded
import ProtocolBindings.Proofs.Agreement

namespace ProtocolBindings

open Relation (ReflTransGen TransGen)
open TypeSpec (Unwraps)

theorem Except.map_fst_map_pair {ε α β : Type} (x : Except ε α) (b : β) :
    (x.map (·, b)).map (·.1) = x := by
  cases x <;> rfl

namespace Context

section Resting

/-- The name stands for an alias that is looked through. -/
structure AliasFor (ctx : Context) (name : String) (a : TypeAlias) : Prop where
  generated : ctx.options.isBuiltin name = false
  lookup : ctx.schema.lookup name = some (.alias a)

/-- The kind of a type that is neither unwrapped nor looked through, in a slot of `owner`. -/
def kindAtRest (ctx : Context) (owner : String) : TypeSpec → Except SchemaError ValueKind
  | .base name => (baseType owner name).map fun _ => .primitive
  | .stringLiteral _ => .ok .primitive
  | .literal _ => .ok .placeholder
  | .array _ | .map _ _ => .ok .aggregate
  | .or items =>
    match TypeSpec.live items with
    | [] => .error (.emptyUnion owner)
    | alternatives => .ok (.union alternatives)
  | .tuple items =>
    match TypeSpec.live items with
    | [] => .error (.emptyUnion owner)
    | _ => .ok .aggregate
  | .reference name =>
    if ctx.options.isBuiltin name then .ok .aggregate
    else
      match ctx.schema.lookup name with
      | some (.enumeration e) =>
        .ok (if ctx.options.isPassThrough e.name then .primitive else .enumeration)
      | some (.alias _) | some (.struct _) | none => .ok .aggregate

variable {ctx : Context} {owner name : String} {followed : List String} {t u : TypeSpec}
  {a b : TypeAlias}

theorem AliasFor.unique (h : ctx.AliasFor name a) (h' : ctx.AliasFor name b) : a = b := by
  have he := h.lookup.symm.trans h'.lookup
  cases he
  rfl

theorem AliasFor.kindAtRest (h : ctx.AliasFor name a) (owner : String) :
    ctx.kindAtRest owner (.reference name) = .ok .aggregate := by
  simp [Context.kindAtRest, h.generated, h.lookup]

theorem trace_of_alias (hc : t.core = .reference name) (h : ctx.AliasFor name a) :
    ctx.trace owner followed t =
      if name ∈ followed then .ok (.aggregate, followed)
      else ctx.trace owner (followed ++ [name]) a.type := by
  rw [trace_of_reference hc, if_neg (by simp [h.generated]), h.lookup]

theorem trace_at_rest (h : ∀ name a, t.core = .reference name → ¬ ctx.AliasFor name a) :
    ctx.trace owner followed t = (ctx.kindAtRest owner t.core).map (·, followed) := by
  cases hc : t.core with
  | reference name =>
    rw [trace_of_reference hc, kindAtRest]
    split
    · rfl
    · next hb =>
      have hb : ctx.options.isBuiltin name = false := by simpa using hb
      rcases hl : ctx.schema.lookup name with _ | s | e | a
      · rfl
      · rfl
      · rfl
      · exact (h name a hc ⟨hb, hl⟩).elim
  | base name =>
    rw [trace]
    simp only [hc, kindAtRest]
    cases baseType owner name <;> rfl
  | or items =>
    rw [trace]
    simp only [hc, kindAtRest]
    cases TypeSpec.live items <;> rfl
  | tuple items =>
    rw [trace]
    simp only [hc, kindAtRest]
    cases TypeSpec.live items <;> rfl
  | _ =>
    rw [trace, hc]
    rfl

theorem classify_at_rest (h : ∀ name a, t.core = .reference name → ¬ ctx.AliasFor name a) :
    ctx.classify owner t = ctx.kindAtRest owner t.core := by
  rw [classify, trace_at_rest h, Except.map_fst_map_pair]

theorem trace_of_core_eq (h : t.core = u.core) :
    ctx.trace owner followed t = ctx.trace owner followed u := by
  by_cases hr : ∃ name a, u.core = .reference name ∧ ctx.AliasFor name a
  · obtain ⟨name, a, hc, ha⟩ := hr
    rw [trace_of_alias (h.trans hc) ha, trace_of_alias hc ha]
  · have hu : ∀ name a, u.core = .reference name → ¬ ctx.AliasFor name a :=
      fun name a hc ha => hr ⟨name, a, hc, ha⟩
    rw [trace_at_rest hu, trace_at_rest (h ▸ hu), h]

end Resting

section Calls

/-- A call of the classification, with the aliases followed so far, leads to another one. -/
inductive Calls (ctx : Context) : List String × TypeSpec → List String × TypeSpec → Prop
  | unwrap {followed : List String} {t u : TypeSpec} (h : Unwraps t u) :
    Calls ctx (followed, t) (followed, u)
  | follow {followed : List String} {name : String} {a : TypeAlias} (ha : ctx.AliasFor name a)
    (hf : name ∉ followed) : Calls ctx (followed, .reference name) (followed ++ [name], a.type)

variable {ctx : Context} {owner name : String} {followed : List String} {t u : TypeSpec}
  {a : TypeAlias} {call next : List String × TypeSpec}

theorem AliasFor.unfollowed_lt (h : ctx.AliasFor name a) (hf : name ∉ followed) :
    (ctx.unfollowed (followed ++ [name])).length < (ctx.unfollowed followed).length := by
  obtain ⟨hmem, rfl⟩ := mem_aliases_of_lookup h.lookup
  exact length_without_lt hmem hf (List.mem_singleton_self _)

/-- A call leaves fewer aliases to follow, or has a smaller type. -/
theorem Calls.lex (h : ctx.Calls call next) :
    Prod.Lex (· < ·) (· < ·) ((ctx.unfollowed next.1).length, sizeOf next.2)
      ((ctx.unfollowed call.1).length, sizeOf call.2) := by
  cases h with
  | unwrap h => exact .right _ h.sizeOf_lt
  | follow ha hf => exact .left _ _ (ha.unfollowed_lt hf)

theorem wellFounded_calls (ctx : Context) : WellFounded fun next call => ctx.Calls call next := by
  have hlex : WellFounded (Prod.Lex (· < ·) (· < ·) : Nat × Nat → Nat × Nat → Prop) :=
    WellFounded.prod_lex wellFounded_lt wellFounded_lt
  apply Subrelation.wf _ (InvImage.wf
    (fun call => ((ctx.unfollowed call.1).length, sizeOf call.2)) hlex)
  intro next call h
  exact h.lex

theorem Calls.trace_eq (h : ctx.Calls call next) :
    ctx.trace owner call.1 call.2 = ctx.trace owner next.1 next.2 := by
  cases h with
  | unwrap h => exact trace_of_core_eq h.core_eq
  | follow ha hf => exact (trace_of_alias rfl ha).trans (if_neg hf)

theorem trace_of_last (h : ∀ next, ¬ ctx.Calls call next) :
    ctx.trace owner call.1 call.2 = (ctx.kindAtRest owner call.2).map (·, call.1) := by
  obtain ⟨followed, t⟩ := call
  have hcore : t.core = t := TypeSpec.core_eq_self fun u hu => h _ (.unwrap hu)
  by_cases hr : ∃ name a, t = .reference name ∧ ctx.AliasFor name a
  · obtain ⟨name, a, rfl, ha⟩ := hr
    -- an alias ends the calls only if it comes up again
    have hf : name ∈ followed := Decidable.not_not.mp fun hf => h _ (.follow ha hf)
    rw [trace_of_alias hcore ha, if_pos hf, ha.kindAtRest]
    rfl
  · rw [trace_at_rest, hcore]
    rw [hcore]
    exact fun name a hc ha => hr ⟨name, a, hc, ha⟩

theorem exists_last (ctx : Context) (owner : String) (call : List String × TypeSpec) :
    ∃ last, ReflTransGen ctx.Calls call last ∧ (∀ next, ¬ ctx.Calls last next) ∧
      ctx.trace owner call.1 call.2 = (ctx.kindAtRest owner last.2).map (·, last.1) := by
  induction call using ctx.wellFounded_calls.induction with
  | _ call ih =>
    by_cases hn : ∃ next, ctx.Calls call next
    · obtain ⟨next, hn⟩ := hn
      obtain ⟨last, hl, hlast, ht⟩ := ih next hn
      exact ⟨last, .head hn hl, hlast, hn.trace_eq.trans ht⟩
    · have hlast := not_exists.mp hn
      exact ⟨call, .refl, hlast, trace_of_last hlast⟩

end Calls

section Chains

/-- The name of an alias leads to the name that the alias stands for. -/
def Follows (ctx : Context) (name next : String) : Prop :=
  ∃ a, ctx.AliasFor name a ∧ a.type.core = .reference next

/-- The aliases looked through, one after the other, from a type to one at rest. -/
inductive Settles (ctx : Context) : TypeSpec → List String → TypeSpec → Prop
  | rest {t : TypeSpec} (h : ∀ name a, t.core = .reference name → ¬ ctx.AliasFor name a) :
    Settles ctx t [] t.core
  | follow {t u : TypeSpec} {name : String} {a : TypeAlias} {names : List String}
    (hc : t.core = .reference name) (ha : ctx.AliasFor name a) (h : Settles ctx a.type names u) :
    Settles ctx t (name :: names) u

variable {ctx : Context} {owner name again : String} {followed names names' : List String}
  {t t' u u' : TypeSpec} {a : TypeAlias}

theorem Settles.of_core_eq (h : ctx.Settles t names u) (hc : t'.core = t.core) :
    ctx.Settles t' names u := by
  cases h with
  | rest hr => exact hc ▸ .rest (hc ▸ hr)
  | follow ht ha h => exact .follow (hc.trans ht) ha h

theorem Settles.unique (h : ctx.Settles t names u) (h' : ctx.Settles t names' u') :
    names = names' := by
  induction h generalizing names' with
  | rest hr =>
    cases h' with
    | rest _ => rfl
    | follow hc ha _ => exact (hr _ _ hc ha).elim
  | follow hc ha h ih =>
    cases h' with
    | rest hr => exact (hr _ _ hc ha).elim
    | follow hc' ha' h' =>
      cases hc.symm.trans hc'
      cases ha.unique ha'
      exact congrArg _ (ih h')

theorem Settles.of_mem (h : ctx.Settles t names u) (hn : name ∈ names) :
    ∃ before after, names = before ++ name :: after ∧
      ctx.Settles (.reference name) (name :: after) u := by
  induction h with
  | rest _ => cases hn
  | @follow _ _ first _ names hc ha h ih =>
    rcases List.mem_cons.mp hn with rfl | hn
    · exact ⟨[], names, rfl, .follow rfl ha h⟩
    · obtain ⟨before, after, rfl, hs⟩ := ih hn
      exact ⟨first :: before, after, rfl, hs⟩

/-- A chain that comes to rest has no alias twice. -/
theorem Settles.nodup (h : ctx.Settles t names u) : names.Nodup := by
  induction h with
  | rest _ => exact List.nodup_nil
  | @follow _ _ name _ names _ ha h ih =>
    rw [List.nodup_cons]
    refine ⟨fun hn => ?_, ih⟩
    -- behind its second occurrence the same chain would start again, with fewer aliases to come
    obtain ⟨before, after, he, hs⟩ := h.of_mem hn
    have hsame := hs.unique (.follow rfl ha h)
    have hlength := congrArg List.length he
    have hlength' := congrArg List.length hsame
    simp only [List.length_append, List.length_cons] at hlength hlength'
    omega

/-- Aliases followed before make no difference to a chain that comes to rest without them. -/
theorem Settles.trace (h : ctx.Settles t names u) (hd : followed.Disjoint names) :
    ctx.trace owner followed t = (ctx.kindAtRest owner u).map (·, followed ++ names) := by
  have hnodup := h.nodup
  induction h generalizing followed with
  | rest hr => rw [trace_at_rest hr, List.append_nil]
  | @follow _ _ name _ names hc ha h ih =>
    obtain ⟨hname, hnames⟩ := List.nodup_cons.mp hnodup
    obtain ⟨hf, hd⟩ := List.disjoint_cons_right.mp hd
    rw [trace_of_alias hc ha, if_neg hf, ih _ hnames, List.append_assoc]
    · rfl
    · rw [List.disjoint_append_left]
      exact ⟨hd, List.singleton_disjoint.mpr hname⟩

/-- A chain that does not come to rest is an aggregate, whatever was followed before. -/
theorem trace_of_endless {t : TypeSpec} (h : ∀ names u, ¬ ctx.Settles t names u)
    (followed : List String) : (ctx.trace owner followed t).map (·.1) = .ok .aggregate := by
  by_cases hr : ∃ name a, t.core = .reference name ∧ ctx.AliasFor name a
  · obtain ⟨name, a, hc, ha⟩ := hr
    rw [trace_of_alias hc ha]
    by_cases hf : name ∈ followed
    · rw [if_pos hf]
      rfl
    · rw [if_neg hf]
      have := ha.unfollowed_lt hf
      exact trace_of_endless (fun names u hs => h _ _ (.follow hc ha hs)) _
  · exact (h [] t.core (.rest fun name a hc ha => hr ⟨name, a, hc, ha⟩)).elim
termination_by (ctx.unfollowed followed).length

theorem Settles.next {next : String} (h : ctx.Settles (.reference name) names u)
    (hf : ctx.Follows name next) :
    ∃ rest, ctx.Settles (.reference next) rest u ∧ rest.length < names.length := by
  obtain ⟨a, ha, hc⟩ := hf
  cases h with
  | rest hr => exact (hr name a rfl ha).elim
  | follow hc' ha' h =>
    cases hc'
    cases ha.unique ha'
    exact ⟨_, h.of_core_eq hc.symm, Nat.lt_succ_self _⟩

theorem Settles.along (h : ctx.Settles (.reference name) names u)
    (hf : TransGen ctx.Follows name again) :
    ∃ rest, ctx.Settles (.reference again) rest u ∧ rest.length < names.length := by
  induction hf with
  | single hf => exact h.next hf
  | tail _ hf ih =>
    obtain ⟨rest, hs, hlt⟩ := ih
    obtain ⟨further, hs, hlt'⟩ := hs.next hf
    exact ⟨further, hs, hlt'.trans hlt⟩

/-- A chain that comes back to an alias does not come to rest. -/
theorem endless_of_loop (hl : ReflTransGen ctx.Follows name again)
    (hloop : TransGen ctx.Follows again again) (names : List String) (u : TypeSpec) :
    ¬ ctx.Settles (.reference name) names u := by
  intro h
  obtain ⟨rest, hs⟩ : ∃ rest, ctx.Settles (.reference again) rest u := by
    rcases Relation.reflTransGen_iff_eq_or_transGen.mp hl with rfl | hl
    · exact ⟨names, h⟩
    · obtain ⟨rest, hs, _⟩ := h.along hl
      exact ⟨rest, hs⟩
  obtain ⟨further, hs', hlt⟩ := hs.along hloop
  rw [hs.unique hs'] at hlt
  exact Nat.lt_irrefl _ hlt

theorem AliasFor.classify_eq (ha : ctx.AliasFor name a) :
    ctx.classify owner (.reference name) = ctx.classify owner a.type := by
  have hname : (TypeSpec.reference name).core = .reference name := rfl
  rw [classify, trace_of_alias hname ha, if_neg List.not_mem_nil, classify]
  by_cases hs : ∃ names u, ctx.Settles a.type names u
  · obtain ⟨names, u, hs⟩ := hs
    -- the chain goes through the name once, so it does not come up again
    have hnodup := (Settles.follow hname ha hs).nodup
    have hd : [name].Disjoint names := List.singleton_disjoint.mpr (List.nodup_cons.mp hnodup).1
    rw [List.nil_append, hs.trace hd, hs.trace (List.disjoint_nil_left names),
      Except.map_fst_map_pair, Except.map_fst_map_pair]
  · have hs : ∀ names u, ¬ ctx.Settles a.type names u := fun names u h => hs ⟨names, u, h⟩
    rw [trace_of_endless hs, trace_of_endless hs]

/-- Classification ends, and finds the kind of the last type that it comes to. Aliases are
transparent to it, and a chain of aliases that has a loop is an aggregate. -/
theorem aliases_transparent_to_kinds (ctx : Context) (owner : String) :
    (∀ calls : Nat → List String × TypeSpec, ∃ n, ¬ ctx.Calls (calls n) (calls (n + 1))) ∧
      (∀ t, ∃ last, ReflTransGen ctx.Calls ([], t) last ∧ (∀ next, ¬ ctx.Calls last next) ∧
        ctx.classify owner t = ctx.kindAtRest owner last.2) ∧
      (∀ name a, ctx.AliasFor name a →
        ctx.classify owner (.reference name) = ctx.classify owner a.type) ∧
      ∀ name again, ReflTransGen ctx.Follows name again → TransGen ctx.Follows again again →
        ctx.classify owner (.reference name) = .ok .aggregate := by
  refine ⟨?_, ?_, ?_, ?_⟩
  · intro calls
    have := IsWellFounded.mk ctx.wellFounded_calls
    exact WellFounded.not_rel_apply_succ (r := fun next call => ctx.Calls call next) calls
  · intro t
    obtain ⟨last, hl, hlast, ht⟩ := ctx.exists_last owner ([], t)
    refine ⟨last, hl, hlast, ?_⟩
    rw [classify, ht, Except.map_fst_map_pair]
  · intro name a ha
    exact ha.classify_eq
  · intro name again hl hloop
    exact trace_of_endless (endless_of_loop hl hloop) []

/-- Two aliases in a loop, one that leads into it, and two that lead to a number. -/
def rings : Context where
  options := {}
  schema := {
    aliases := [
      { name := "Inner", type := .or [.null, .reference "Outer"] },
      { name := "Outer", type := .tuple [.reference "Inner"] },
      { name := "Entry", type := .reference "Outer" },
      { name := "Count", type := .or [.reference "Number", .null] },
      { name := "Number", type := .base "integer" }] }

theorem aliases_transparent_to_kinds_rings :
    rings.AliasFor "Count" { name := "Count", type := .or [.reference "Number", .null] } ∧
      rings.classify "Slot" (.reference "Count") =
        rings.classify "Slot" (.or [.reference "Number", .null]) ∧
      rings.classify "Slot" (.or [.reference "Number", .null]) = .ok .primitive ∧
      ReflTransGen rings.Follows "Entry" "Outer" ∧ TransGen rings.Follows "Outer" "Outer" ∧
      rings.classify "Slot" (.reference "Entry") = .ok .aggregate ∧
      rings.classify "Slot" (.reference "Outer") = .ok .aggregate := by
  obtain ⟨_, _, halias, hloop⟩ := rings.aliases_transparent_to_kinds "Slot"
  have hcount : rings.AliasFor "Count"
      { name := "Count", type := .or [.reference "Number", .null] } := ⟨rfl, rfl⟩
  have hentry : rings.Follows "Entry" "Outer" := ⟨_, ⟨rfl, rfl⟩, rfl⟩
  have houter : rings.Follows "Outer" "Inner" := ⟨_, ⟨rfl, rfl⟩, rfl⟩
  have hinner : rings.Follows "Inner" "Outer" := ⟨_, ⟨rfl, rfl⟩, rfl⟩
  have hring : TransGen rings.Follows "Outer" "Outer" := .tail (.single houter) hinner
  exact ⟨hcount, halias _ _ hcount, by cbv, .single hentry, hring,
    hloop _ _ (.single hentry) hring, hloop _ _ .refl hring⟩

end Chains

end Context

end ProtocolBindings

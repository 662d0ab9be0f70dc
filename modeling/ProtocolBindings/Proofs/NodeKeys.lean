import ProtocolBindings.Proofs.Flattening
import ProtocolBindings.Proofs.JsonLiterals
import ProtocolBindings.Proofs.MemberNames
import ProtocolBindings.Synthesis.Enumeration

namespace ProtocolBindings

/-- The statement addresses a node by a literal. -/
def Addresses (statement literal : String) : Prop :=
  ∃ call ∈ ["n_.find_child(", "n_.has_child(", "ryml::key("], ∃ before after,
    statement = before ++ call ++ literal ++ ")" ++ after

theorem Addresses.within {statement literal : String} (h : Addresses statement literal)
    (first last : String) : Addresses (first ++ statement ++ last) literal := by
  have hassoc (a b c d e f g : String) :
      a ++ (b ++ c ++ d ++ e ++ f) ++ g = a ++ b ++ c ++ d ++ e ++ (f ++ g) := by
    simp only [String.append_assoc]
  obtain ⟨call, hcall, before, after, rfl⟩ := h
  exact ⟨call, hcall, first ++ before, after ++ last, hassoc ..⟩

theorem addresses_of_call {call opening closing : String} (first last literal : String)
    (hcall : call ∈ ["n_.find_child(", "n_.has_child(", "ryml::key("])
    (ho : opening = first ++ call) (hc : closing = ")" ++ last) :
    Addresses (opening ++ literal ++ closing) literal := by
  refine ⟨call, hcall, first, last, ?_⟩
  rw [ho, hc, ← String.append_assoc]

namespace Text

theorem toList_quote_append (text : String) (rest : List Char) :
    (quote text).toList ++ rest = '"' :: (text.toList.flatMap escape ++ '"' :: rest) := by
  rw [toList_quote, List.cons_append, List.append_assoc]
  rfl

theorem eq_of_quote_append {key text : String} {after rest : List Char}
    (h : (quote key).toList ++ after = (quote text).toList ++ rest) : text = key := by
  have hkey := readQuoted_quote key after
  rw [h, readQuoted_quote text rest] at hkey
  exact String.toList_inj.mp (congrArg Prod.fst (Option.some.inj hkey))

/-- In a text whose quotes are all those of one literal, no other literal stands behind a character
that is neither a quote nor a backslash. -/
theorem eq_of_quote_behind {before after prior rest : List Char} {key text : String} {c : Char}
    (hb : '"' ∉ before) (ha : '"' ∉ after) (hc : c ≠ '"') (hs : c ≠ '\\')
    (h : before ++ ((quote key).toList ++ after) = prior ++ [c] ++ ((quote text).toList ++ rest)) :
    text = key := by
  rcases List.append_eq_append_iff.mp h with ⟨between, hprior, hquote⟩ | ⟨between, hbefore, hquote⟩
  · cases between with
    | nil =>
      rw [List.nil_append] at hquote
      exact eq_of_quote_append hquote
    | cons d between =>
      -- the quote of the other literal would be one inside the literal, or the one at its end
      rw [toList_quote_append, toList_quote_append, List.cons_append, List.cons.injEq] at hquote
      obtain ⟨rfl, hquote⟩ := hquote
      have hlast : between.getLast? = some c := by
        have hends := congrArg List.getLast? hprior
        rw [List.getLast?_concat, List.getLast?_append, List.getLast?_cons, Option.some_or,
          Option.some.injEq] at hends
        cases hm : between.getLast? with
        | none => exact absurd (hends.trans (hm ▸ Option.getD_none)) hc
        | some d => exact congrArg some (hends.trans (hm ▸ Option.getD_some)).symm
      rcases List.append_eq_append_iff.mp hquote with ⟨inner, _, hclose⟩ | ⟨inner, hbody, hclose⟩
      · have hcount := congrArg (List.count '"') hclose
        have hnone : after.count '"' = 0 := List.count_eq_zero.mpr ha
        simp only [List.count_cons_self, List.count_append] at hcount
        omega
      · cases inner with
        | nil =>
          rw [← (List.cons.inj hclose).2] at ha
          simp at ha
        | cons e inner =>
          rw [← (List.cons.inj hclose).1] at hbody
          have hescapes := (isLiteralBody_flatMap_escape key.toList).quotes_escaped _ _ hbody
          have hnot : ¬ EscapesNext ([] ++ between) := not_escapesNext_append hlast hs
          exact absurd hescapes hnot
  · cases between with
    | nil =>
      rw [List.nil_append] at hquote
      exact eq_of_quote_append hquote.symm
    | cons d between =>
      rw [toList_quote_append, List.cons_append, List.cons.injEq] at hquote
      rw [hbefore, ← hquote.1] at hb
      simp at hb

end Text

theorem Text.not_mem_concat {c : Char} {a b : String} (ha : c ∉ a.toList) (hb : c ∉ b.toList) :
    c ∉ (a ++ b).toList := by
  rw [String.toList_append, List.mem_append, not_or]
  exact ⟨ha, hb⟩

/-- The quotes in a statement, if there are any, are those of one of the literals. -/
inductive OnlyQuotes (literals : List String) : String → Prop
  | none {statement : String} (h : '"' ∉ statement.toList) : OnlyQuotes literals statement
  | one {before after : String} (key : String) (hb : '"' ∉ before.toList)
    (ha : '"' ∉ after.toList) (hk : Text.quote key ∈ literals) :
    OnlyQuotes literals (before ++ Text.quote key ++ after)

theorem OnlyQuotes.within {literals : List String} {statement : String}
    (h : OnlyQuotes literals statement) {first last : String} (hf : '"' ∉ first.toList)
    (hl : '"' ∉ last.toList) : OnlyQuotes literals (first ++ statement ++ last) := by
  cases h with
  | none h => exact .none (Text.not_mem_concat (Text.not_mem_concat hf h) hl)
  | @one before after key hb ha hk =>
    have hassoc : first ++ (before ++ Text.quote key ++ after) ++ last =
        first ++ before ++ Text.quote key ++ (after ++ last) := by
      simp only [String.append_assoc]
    rw [hassoc]
    exact .one key (Text.not_mem_concat hf hb) (Text.not_mem_concat ha hl) hk

theorem OnlyQuotes.mono {literals others : List String} {statement : String}
    (h : OnlyQuotes literals statement) (hs : literals ⊆ others) : OnlyQuotes others statement := by
  cases h with
  | none h => exact .none h
  | one key hb ha hk => exact .one key hb ha (hs hk)

/-- A node is addressed by no other literal. -/
theorem OnlyQuotes.mem_of_addresses {literals : List String} {statement text : String}
    (h : OnlyQuotes literals statement) (ha : Addresses statement (Text.quote text)) :
    Text.quote text ∈ literals := by
  obtain ⟨call, hcall, before, after, rfl⟩ := ha
  obtain ⟨start, hstart⟩ : ∃ start, call.toList = start ++ ['('] := by
    simp only [List.mem_cons, List.not_mem_nil, or_false] at hcall
    rcases hcall with rfl | rfl | rfl
    · exact ⟨"n_.find_child".toList, by decide⟩
    · exact ⟨"n_.has_child".toList, by decide⟩
    · exact ⟨"ryml::key".toList, by decide⟩
  generalize hstatement : before ++ call ++ Text.quote text ++ ")" ++ after = statement at h
  have hchars := congrArg String.toList hstatement
  cases h with
  | none h =>
    rw [← hchars, String.toList_append, String.toList_append, String.toList_append,
      Text.toList_quote] at h
    simp at h
  | @one prior rest key hb ha hk =>
    have heq : prior.toList ++ ((Text.quote key).toList ++ rest.toList) =
        before.toList ++ start ++ ['('] ++
          ((Text.quote text).toList ++ (")".toList ++ after.toList)) := by
      simp only [String.toList_append, hstart, List.append_assoc] at hchars ⊢
      exact hchars.symm
    rw [Text.eq_of_quote_behind hb ha (by decide) (by decide) heq]
    exact hk

/-- The value at a node is taken from the node, unless a stand-in is made up. -/
theorem Access.exists_value_eq {access : Access} (h : access ≠ .placeholder)
    (type node : String) : ∃ before after, access.value type node = before ++ node ++ after := by
  cases access with
  | primitive => exact ⟨"detail::NodeAsPrimitive<" ++ type ++ ">(", ")", rfl⟩
  | enumeration => exact ⟨"detail::DeserializeEnum<" ++ type ++ ">(", ")", rfl⟩
  | wrapper => exact ⟨type ++ "(", ")", rfl⟩
  | placeholder => exact absurd rfl h

theorem Access.onlyQuotes_value (access : Access) (literals : List String) {type node : String}
    (ht : '"' ∉ type.toList) (hn : OnlyQuotes literals node) :
    OnlyQuotes literals (access.value type node) := by
  cases access with
  | primitive =>
    exact hn.within (Text.not_mem_concat (Text.not_mem_concat (by decide) ht) (by decide))
      (by decide)
  | enumeration =>
    exact hn.within (Text.not_mem_concat (Text.not_mem_concat (by decide) ht) (by decide))
      (by decide)
  | wrapper => exact hn.within (Text.not_mem_concat ht (by decide)) (by decide)
  | placeholder => exact .none (Text.not_mem_concat ht (by decide))

namespace Body

/-- The literals by which a function addresses nodes. -/
def keys : Body → List String
  | .readField false .placeholder _ _ => []
  | .readField _ _ _ key | .testField key | .writeField _ key | .addField _ key =>
    [Text.quote key]
  | .setUp fields => fields.map fun (_, key) => Text.quote key
  | .testAlternative _ | .readAlternative _ _ | .missingAlternative | .writeAlternative => []

theorem addresses_find (key : String) : Addresses (find key) (Text.quote key) :=
  addresses_of_call "" "" _ List.mem_cons_self (by decide) (by decide)

theorem addresses_append (key : String) : Addresses (append key) (Text.quote key) := by
  have hcall : "ryml::key(" ∈ ["n_.find_child(", "n_.has_child(", "ryml::key("] := by decide
  exact addresses_of_call "n_.append_child() << " "" _ hcall (by decide) (by decide)

/-- Each of the literals stands in a statement where a node is addressed. -/
theorem exists_addresses {body : Body} {literal : String} (h : literal ∈ body.keys) :
    ∃ statement ∈ body.statements, Addresses statement literal := by
  cases body with
  | readField optional access type key =>
    cases optional with
    | true =>
      cases List.mem_singleton.mp h
      exact ⟨_, List.mem_cons_self, (addresses_find key).within "auto c = " ";"⟩
    | false =>
      have hp : access ≠ .placeholder := by
        rintro rfl
        cases h
      have hkeys : literal = Text.quote key := by
        cases access with
        | placeholder => exact absurd rfl hp
        | _ => exact List.mem_singleton.mp h
      obtain ⟨before, after, hvalue⟩ := Access.exists_value_eq hp type.text (find key)
      refine ⟨_, List.mem_singleton_self _, ?_⟩
      rw [hvalue, hkeys]
      exact ((addresses_find key).within before after).within "return " ";"
  | testField key =>
    cases List.mem_singleton.mp h
    have hcall : "n_.has_child(" ∈ ["n_.find_child(", "n_.has_child(", "ryml::key("] := by decide
    refine ⟨_, List.mem_singleton_self _, ?_⟩
    exact addresses_of_call "return " ";" _ hcall (by decide) (by decide)
  | writeField enumeration key =>
    cases List.mem_singleton.mp h
    exact ⟨_, List.mem_cons_self, (addresses_find key).within "auto c = " ";"⟩
  | addField type key =>
    cases List.mem_singleton.mp h
    exact ⟨_, List.mem_cons_self,
      (addresses_append key).within ("auto w = " ++ type.text ++ "(") ");"⟩
  | setUp fields =>
    obtain ⟨⟨type, key⟩, hfield, rfl⟩ := List.mem_map.mp h
    exact ⟨_, List.mem_cons_of_mem _ (List.mem_map_of_mem hfield),
      (addresses_append key).within (type.text ++ "(") ").init();"⟩
  | _ => cases h

theorem onlyQuotes_find (key : String) : OnlyQuotes [Text.quote key] (find key) :=
  .one key (by decide) (by decide) (List.mem_singleton_self _)

theorem onlyQuotes_append (key : String) : OnlyQuotes [Text.quote key] (append key) :=
  .one key (by decide) (by decide) (List.mem_singleton_self _)

/-- Outside of the types, all quotes in the statements of a function are those of its literals. -/
theorem onlyQuotes_statements {body : Body} (h : ∀ type ∈ body.types, '"' ∉ type.text.toList) :
    ∀ statement ∈ body.statements, OnlyQuotes body.keys statement := by
  cases body with
  | testAlternative type =>
    have ht := h type (List.mem_singleton_self _)
    exact List.forall_mem_singleton.mpr ((OnlyQuotes.none ht).within (by decide) (by decide))
  | readAlternative access type =>
    have ht := h type (List.mem_singleton_self _)
    have hvalue := access.onlyQuotes_value [] ht (.none (show '"' ∉ "n_".toList by decide))
    cases access with
    | wrapper => exact List.forall_mem_singleton.mpr (.none (by decide))
    | placeholder => exact List.forall_mem_singleton.mpr (.none (by decide))
    | _ => exact List.forall_mem_singleton.mpr (hvalue.within (by decide) (by decide))
  | missingAlternative => exact List.forall_mem_singleton.mpr (.none (by decide))
  | writeAlternative => exact List.forall_mem_singleton.mpr (.none (by decide))
  | readField optional access type key =>
    have ht := h type (List.mem_singleton_self _)
    cases optional with
    | true =>
      have hvalue := access.onlyQuotes_value [Text.quote key] ht
        (.none (show '"' ∉ "c".toList by decide))
      simp only [statements, List.forall_mem_cons]
      exact ⟨(onlyQuotes_find key).within (by decide) (by decide), .none (by decide),
        hvalue.within (by decide) (by decide), List.forall_mem_nil _⟩
    | false =>
      have hvalue := access.onlyQuotes_value [Text.quote key] ht (onlyQuotes_find key)
      cases access with
      | placeholder =>
        have hstub : OnlyQuotes [] ("" ++ type.text ++ "\x7b\x7d") :=
          (OnlyQuotes.none ht).within (by decide) (by decide)
        rw [String.empty_append] at hstub
        exact List.forall_mem_singleton.mpr (hstub.within (by decide) (by decide))
      | _ => exact List.forall_mem_singleton.mpr (hvalue.within (by decide) (by decide))
  | testField key =>
    exact List.forall_mem_singleton.mpr
      (.one key (by decide) (by decide) (List.mem_singleton_self _))
  | writeField enumeration key =>
    simp only [statements, List.forall_mem_cons]
    refine ⟨(onlyQuotes_find key).within (by decide) (by decide),
      (onlyQuotes_append key).within (by decide) (by decide), ?_, List.forall_mem_nil _⟩
    cases enumeration with
    | true => exact .none (by decide)
    | false => exact .none (by decide)
  | addField type key =>
    have ht := h type (List.mem_singleton_self _)
    simp only [statements, List.forall_mem_cons]
    refine ⟨(onlyQuotes_append key).within ?_ (by decide), .none (by decide), .none (by decide),
      List.forall_mem_nil _⟩
    exact Text.not_mem_concat (Text.not_mem_concat (by decide) ht) (by decide)
  | setUp fields =>
    refine List.forall_mem_cons.mpr ⟨.none (by decide), ?_⟩
    intro statement hs
    obtain ⟨⟨type, key⟩, hfield, rfl⟩ := List.mem_map.mp hs
    have ht := h type (List.mem_map_of_mem hfield)
    have hmem : Text.quote key ∈ (setUp fields).keys :=
      List.mem_map.mpr ⟨(type, key), hfield, rfl⟩
    have hkey : [Text.quote key] ⊆ (setUp fields).keys :=
      List.cons_subset.mpr ⟨hmem, List.nil_subset _⟩
    have hstatement := (onlyQuotes_append key).within
      (Text.not_mem_concat ht (show '"' ∉ "(".toList by decide))
      (show '"' ∉ ").init();".toList by decide)
    exact hstatement.mono hkey

end Body

def Fragment.keys : Fragment → List String
  | .define d => d.body.keys
  | _ => []

theorem Fragment.IsAside.keys_eq_nil {f : Fragment} (h : f.IsAside) : f.keys = [] := by
  cases f with
  | define d => exact h.elim
  | _ => rfl

theorem Fragment.keys_member {scope : String} {signature : Signature} {body : Body}
    (h : body.keys = []) : ∀ f ∈ member scope signature body, f.keys = [] := by
  rw [member, List.forall_mem_cons, List.forall_mem_singleton]
  exact ⟨rfl, h⟩

theorem Fragment.eq_of_define_mem_member {scope : String} {signature : Signature} {body : Body}
    {d : Definition} (h : .define d ∈ member scope signature body) :
    d = ⟨scope, signature, body⟩ := by
  rcases List.mem_cons.mp h with h | h
  · cases h
  · cases List.mem_singleton.mp h
    rfl

/-- The function makes up a value, so that it needs no node. -/
def Body.MakesUp (body : Body) : Prop :=
  ∃ type key, body = .readField false .placeholder type key

theorem Body.keys_readField (optional : Bool) (access : Access) (type : CppType) (key : String) :
    (readField optional access type key).keys = [Text.quote key] ∨
      (readField optional access type key).MakesUp := by
  cases optional with
  | true => exact .inl rfl
  | false =>
    cases access with
    | placeholder => exact .inr ⟨type, key, rfl⟩
    | _ => exact .inl rfl

/-- The functions of a field address the node of the field and no other one. -/
theorem Field.keys_members (scope : String) (type : CppType) (f : Field) {d : Definition}
    (h : .define d ∈ f.members scope type) :
    d.body.keys = [Text.quote f.property.name] ∨ d.body.MakesUp := by
  rw [members, List.mem_append, List.mem_append] at h
  rcases h with (h | h) | h
  · cases Fragment.eq_of_define_mem_member h
    exact Body.keys_readField ..
  · split at h
    · cases Fragment.eq_of_define_mem_member h
      exact .inl rfl
    · cases h
  · split at h
    · cases Fragment.eq_of_define_mem_member h
      exact .inl rfl
    · cases Fragment.eq_of_define_mem_member h
      exact .inl rfl
    · split at h
      · cases Fragment.eq_of_define_mem_member h
        exact .inl rfl
      · cases h
    · split at h
      · cases Fragment.eq_of_define_mem_member h
        exact .inl rfl
      · cases h
    · cases h

theorem keys_alternativeMembers (scope label : String) (type : CppType) (kind : ValueKind)
    {reading : Body} (hr : reading.keys = []) :
    ∀ f ∈ alternativeMembers scope label type kind reading, f.keys = [] := by
  unfold alternativeMembers
  rw [List.forall_mem_append, List.forall_mem_append, List.forall_mem_append]
  refine ⟨⟨⟨?_, ?_⟩, ?_⟩, List.forall_mem_singleton.mpr rfl⟩
  · exact Fragment.keys_member rfl
  · exact Fragment.keys_member hr
  · split
    · exact Fragment.keys_member rfl
    · exact List.forall_mem_nil _

theorem keys_of_plainAlternative {scope : String} {kind : ValueKind} {t : TypeSpec}
    {type : CppType} {reading : Body}
    (h : (plainAlternative scope kind t).result = .ok (type, reading)) : reading.keys = [] := by
  rcases (result_plainAlternative h).2 with rfl | rfl
  · rfl
  · rfl

/-- The fragment declares or defines one of the functions that a class has for a property. -/
def Property.Owns (scope : String) (property : Property) (f : Fragment) : Prop :=
  ∃ kind index type, f ∈ Field.members scope type { property, kind, index }

theorem Property.Owns.keys_eq {scope : String} {property : Property} {d : Definition}
    (h : property.Owns scope (.define d)) :
    d.body.keys = [Text.quote property.name] ∨ d.body.MakesUp := by
  obtain ⟨kind, index, type, hd⟩ := h
  exact Field.keys_members scope type { property, kind, index } hd

theorem Property.Owns.keys_subset {scope : String} {property : Property} {f : Fragment}
    (h : property.Owns scope f) : f.keys ⊆ [Text.quote property.name] := by
  cases f with
  | define d =>
    rcases h.keys_eq with hkeys | ⟨type, key, hbody⟩
    · rw [Fragment.keys, hkeys]
      exact List.Subset.refl _
    · rw [Fragment.keys, hbody]
      exact List.nil_subset _
  | _ => exact List.nil_subset _

namespace Context

variable {ctx : Context}

theorem AlternativeBlock.keys_eq_nil {label? : Option String} {scope : String} {index : Nat}
    {t : TypeSpec} {ws : List Fragment}
    (h : ctx.AlternativeBlock (fun _ _ _ ws => ∀ f ∈ ws, f.keys = []) label? scope index t ws) :
    ∀ f ∈ ws, f.keys = [] := by
  cases h with
  | skipped _ => exact List.forall_mem_singleton.mpr rfl
  | nested _ _ h => exact List.forall_mem_append.mpr ⟨h, keys_alternativeMembers _ _ _ _ rfl⟩
  | @plain _ _ _ kind _ _ _ _ _ h =>
    have haside := isAside_plainAlternative scope kind t
    exact List.forall_mem_append.mpr ⟨fun f hf => (haside f hf).keys_eq_nil,
      keys_alternativeMembers _ _ _ _ (keys_of_plainAlternative h)⟩

theorem AlternativeBlocks.keys_eq_nil {scope : String} {index : Nat} {labels : List String}
    {items : List TypeSpec} {ws : List Fragment}
    (h : ctx.AlternativeBlocks (fun _ _ _ ws => ∀ f ∈ ws, f.keys = []) index scope labels items
      ws) : ∀ f ∈ ws, f.keys = [] := by
  induction h with
  | nil => exact List.forall_mem_nil _
  | cons _ first _ ih => exact List.forall_mem_append.mpr ⟨first.keys_eq_nil, ih⟩

theorem UnionBlock.keys_eq_nil {scope name : String} {items : List TypeSpec}
    {ws : List Fragment} (h : ctx.UnionBlock scope name items ws) : ∀ f ∈ ws, f.keys = [] := by
  refine UnionBlock.induct (motive := fun _ _ _ ws => ∀ f ∈ ws, f.keys = []) ?_ h
  intro scope name items types inner _ hblocks
  exact List.forall_mem_append.mpr
    ⟨List.forall_mem_cons.mpr ⟨rfl, hblocks.keys_eq_nil⟩, List.forall_mem_singleton.mpr rfl⟩

section Fields

variable {scope : String} {taken : List String} {index : Nat} {properties : List Property}
  {ws : List Fragment} {setUp : List (CppType × String)}

theorem FieldSlot.keys_eq_nil {property : Property} {kind : ValueKind} {type : CppType}
    (h : ctx.FieldSlot scope index property kind type ws) : ∀ f ∈ ws, f.keys = [] := by
  cases h with
  | union h => exact h.keys_eq_nil
  | plain _ _ => exact fun f hf => (isAside_map_gap _ f hf).keys_eq_nil

/-- Every function that addresses a node is one of a field, and what instances set up are fields, in
their order. -/
theorem FieldBlocks.keys (h : ctx.FieldBlocks scope taken index properties ws setUp) :
    (∀ f ∈ ws, f.keys = [] ∨ ∃ p ∈ properties.filter Property.isRetained, p.Owns scope f) ∧
      (setUp.map fun (_, key) => Text.quote key).Sublist
        ((properties.filter Property.isRetained).map (Text.quote ·.name)) := by
  induction h with
  | nil => exact ⟨List.forall_mem_nil _, .slnil⟩
  | @skipped _ _ property value _ _ _ ht _ ih =>
    have hskipped : ¬ property.isRetained = true := by simp [Property.isRetained, ht]
    rw [List.filter_cons_of_neg hskipped]
    exact ⟨List.forall_mem_cons.mpr ⟨.inl rfl, ih.1⟩, ih.2⟩
  | @cons _ _ index property _ kind type own _ _ ht _ _ slot _ ih =>
    obtain ⟨hrest, hsetUp⟩ := ih
    rw [List.filter_cons_of_pos (isRetained_of_ne ht)]
    refine ⟨?_, ?_⟩
    · simp only [List.forall_mem_append]
      refine ⟨⟨⟨?_, ?_⟩, ?_⟩, ?_⟩
      · exact fun f hf => .inl (Field.isAside_comment property index f hf).keys_eq_nil
      · exact fun f hf => .inl (slot.keys_eq_nil f hf)
      · exact fun f hf => .inr ⟨property, List.mem_cons_self, kind, index, type, hf⟩
      · intro f hf
        rcases hrest f hf with hkeys | ⟨p, hp, howns⟩
        · exact .inl hkeys
        · exact .inr ⟨p, List.mem_cons_of_mem _ hp, howns⟩
    · rw [List.map_append, List.map_cons]
      split
      · exact hsetUp.cons_cons _
      · exact hsetUp.cons _

end Fields

/-- Every function in the class of a structure that addresses a node is one of a field, or the
initializer. -/
theorem keys_structureDraft {s : Structure} {properties : List Property} {ws : List Fragment}
    (h : (ctx.structureDraft s).Ends ws ()) (hp : ctx.schema.flatten s = .ok properties) :
    ∀ f ∈ ws, f.keys = [] ∨ (∃ p ∈ properties.filter Property.isRetained, p.Owns s.name f) ∨
      ∃ setUp, f = .define ⟨s.name, .initializer, .setUp setUp⟩ ∧
        f.keys.Sublist ((properties.filter Property.isRetained).map (Text.quote ·.name)) := by
  obtain ⟨fields, inner, setUp, hflatten, hfields, rfl⟩ := fieldBlocks_of_structureDraft h
  cases hp.symm.trans hflatten
  obtain ⟨hinner, hsetUp⟩ := hfields.keys
  simp only [List.forall_mem_append, List.forall_mem_cons, Fragment.member]
  refine ⟨?_, ⟨.inl rfl, ?_, .inl rfl, .inl rfl, ?_, ?_⟩, .inl rfl, ?_⟩
  · exact fun f hf => .inl (isAside_map_comment _ f hf).keys_eq_nil
  · exact fun f hf => (hinner f hf).imp_right .inl
  · exact .inr (.inr ⟨setUp, rfl, hsetUp⟩)
  · exact List.forall_mem_nil _
  · exact List.forall_mem_nil _

end Context

/-- Different fields of a structure have different names. -/
theorem Schema.nodup_names_flatten {schema : Schema} {s : Structure} {properties : List Property}
    (h : schema.flatten s = .ok properties) : (properties.map Property.name).Nodup := by
  obtain ⟨further, _, rfl⟩ := flatten_eq_ok.mp h
  exact nodup_map_distinctBy _

/-- Retained fields have different literals. -/
theorem Schema.pairwise_quote_ne {schema : Schema} {s : Structure} {properties : List Property}
    (h : schema.flatten s = .ok properties) :
    (properties.filter Property.isRetained).Pairwise fun p q =>
      Text.quote p.name ≠ Text.quote q.name := by
  have hnames : properties.Pairwise fun p q => p.name ≠ q.name :=
    List.pairwise_map.mp (nodup_names_flatten h)
  exact (hnames.filter _).imp Text.quote_injective.ne

/-- Functions of different fields address different nodes. -/
theorem Property.Owns.disjoint_keys {scope : String} {p q : Property} {f g : Fragment}
    (hf : p.Owns scope f) (hg : q.Owns scope g) (hne : Text.quote p.name ≠ Text.quote q.name) :
    f.keys.Disjoint g.keys := by
  intro key hkf hkg
  have hp := List.mem_singleton.mp (hf.keys_subset hkf)
  have hq := List.mem_singleton.mp (hg.keys_subset hkg)
  exact hne (hp.symm.trans hq)

/-- A quoted text is a literal of one line without control characters or quotes that are not
escaped, and reads back as the text, as JSON and as a literal of the generated language. So
different texts have different literals: a function of a field addresses the node by the literal of
this field and, but for what its types may spell, by no other one, no two retained fields of a
structure address the same node, and no two strings of an enumeration are written alike. -/
theorem quoted_text_is_faithful :
    (∀ text : String, ∃ body, (Text.quote text).toList = '"' :: (body ++ ['"']) ∧
      Text.IsLiteralBody body ∧
      Reading.ofText (Text.quote text) = { document := .string (some text), trailing := none } ∧
      ∀ rest, Text.readQuoted ((Text.quote text).toList ++ rest) = some (text.toList, rest)) ∧
    Function.Injective Text.quote ∧
    (∀ (ctx : Context) (s : Structure) (entry : Entry),
      (ctx.structureEntry s).result = .ok entry →
      ∃ properties, ctx.schema.flatten s = .ok properties ∧
        ((properties.filter Property.isRetained).Pairwise fun p q =>
          ∀ f g, p.Owns s.name f → q.Owns s.name g → f.keys.Disjoint g.keys) ∧
        ∀ f ∈ (ctx.structureDraft s).written, f.keys = [] ∨
          (∃ p ∈ properties.filter Property.isRetained, p.Owns s.name f) ∨
          ∃ setUp, f = .define ⟨s.name, .initializer, .setUp setUp⟩ ∧
            f.keys = (setUp.map fun (_, key) => Text.quote key) ∧ f.keys.Nodup) ∧
    (∀ (scope : String) (p : Property) (d : Definition), p.Owns scope (.define d) →
      d.body.keys = [Text.quote p.name] ∨ d.body.MakesUp) ∧
    (∀ (body : Body), ∀ literal ∈ body.keys,
      ∃ statement ∈ body.statements, Addresses statement literal) ∧
    (∀ (body : Body), (∀ type ∈ body.types, '"' ∉ type.text.toList) →
      ∀ statement ∈ body.statements, ∀ text, Addresses statement (Text.quote text) →
        Text.quote text ∈ body.keys) ∧
    ∀ (c d : Enumeration.Case) (a b : String), c.value.value = .string a →
      d.value.value = .string b → a ≠ b → c.literal ≠ d.literal := by
  refine ⟨?_, Text.quote_injective, ?_, fun scope p d => Property.Owns.keys_eq,
    fun body literal => Body.exists_addresses, ?_, ?_⟩
  · intro text
    exact ⟨_, Text.toList_quote text, Text.isLiteralBody_flatMap_escape _,
      Reading.ofText_quote text, Text.readQuoted_quote text⟩
  · intro ctx s entry h
    obtain ⟨_, hresult, -⟩ := Except.map_eq_ok.mp h
    obtain ⟨properties, _, _, hp, _, _⟩ := Context.fieldBlocks_of_structureDraft ⟨rfl, hresult⟩
    have hquotes := Schema.pairwise_quote_ne hp
    refine ⟨properties, hp, hquotes.imp fun hne f g hf hg => hf.disjoint_keys hg hne, ?_⟩
    intro f hf
    rcases Context.keys_structureDraft ⟨rfl, hresult⟩ hp f hf with hf | hf | ⟨setUp, hf, hkeys⟩
    · exact .inl hf
    · exact .inr (.inl hf)
    · have hnodup := (List.pairwise_map.mpr hquotes).sublist hkeys
      exact .inr (.inr ⟨setUp, hf, by rw [hf]; rfl, hnodup⟩)
  · intro body htypes statement hs text haddresses
    exact (Body.onlyQuotes_statements htypes statement hs).mem_of_addresses haddresses
  · intro c d a b hc hd hne heq
    rw [Enumeration.Case.literal, Enumeration.Case.literal, hc, hd] at heq
    exact hne (Text.quote_injective heq)

/-- Two fields, the name of one of them being the escape in the literal of the other one. -/
def twins : Structure where
  name := "Twins"
  properties := [{ name := "\x01f", type := .base "string" },
    { name := "\\u0001f", type := .reference "Twins" }]

theorem quoted_text_is_faithful_twins :
    Text.quote "\x01f" = "\"\\u0001f\"" ∧ Text.quote "\\u0001f" = "\"\\\\u0001f\"" ∧
    (∃ entry properties, ((Context.alone twins).structureEntry twins).result = .ok entry ∧
      (Context.alone twins).schema.flatten twins = .ok properties ∧
      (properties.filter Property.isRetained).Pairwise fun p q =>
        ∀ f g, p.Owns "Twins" f → q.Owns "Twins" g → f.keys.Disjoint g.keys) ∧
    ∀ text, Addresses "return n_.has_child(\"\\u0001f\");" (Text.quote text) ↔ text = "\x01f" := by
  have hdraft : ((Context.alone twins).structureDraft twins).result = .ok () := by decide +kernel
  have hentry : ((Context.alone twins).structureEntry twins).result = .ok _ :=
    Except.map_eq_ok.mpr ⟨(), hdraft, rfl⟩
  obtain ⟨_, _, hclasses, _, haddressed, honly, _⟩ := quoted_text_is_faithful
  obtain ⟨properties, hp, hdisjoint, _⟩ := hclasses _ _ _ hentry
  have htest : (Body.testField "\x01f").statements = ["return n_.has_child(\"\\u0001f\");"] := by
    decide
  refine ⟨by decide, by decide, ⟨_, properties, hentry, hp, hdisjoint⟩, ?_⟩
  intro text
  constructor
  · intro h
    have hkey := honly (.testField "\x01f") (List.forall_mem_nil _) _
      (htest ▸ List.mem_singleton_self _) text h
    exact Text.quote_injective (List.mem_singleton.mp hkey)
  · rintro rfl
    obtain ⟨statement, hs, h⟩ := haddressed (.testField "\x01f") _ (List.mem_singleton_self _)
    rw [htest, List.mem_singleton] at hs
    exact hs ▸ h

end ProtocolBindings

import Mathlib.Data.List.Forall2
import ProtocolBindings.Proofs.Agreement
import ProtocolBindings.Proofs.ListingText
import ProtocolBindings.Proofs.Registration

namespace ProtocolBindings

open Text (lines unlines)

def inlineLine (line : String) : String :=
  if startsDefinition line then "inline " ++ line else line

theorem inlineLine_eq (line : String) :
    inlineLine line = line ∨ inlineLine line = "inline " ++ line := by
  unfold inlineLine
  split
  · exact .inr rfl
  · exact .inl rfl

theorem not_mem_inlineLine {line : String} (h : '\n' ∉ line.toList ∧ '\r' ∉ line.toList) :
    '\n' ∉ (inlineLine line).toList ∧ '\r' ∉ (inlineLine line).toList := by
  rcases inlineLine_eq line with he | he
  · rw [he]
    exact h
  · rw [he, String.toList_append]
    simpa using h

theorem text_inlined (implementation : Listing) :
    (inlined implementation).text = unlines ((lines implementation.text).map inlineLine) := by
  rw [inlined, Listing.text_writeAll rfl]
  exact String.empty_append

def joined (ls : List Listing) : String :=
  String.join (ls.map Listing.text)

theorem joined_cons (l : Listing) (ls : List Listing) : joined (l :: ls) = l.text ++ joined ls := by
  rw [joined, List.map_cons, String.join_cons]
  rfl

theorem lines_joined_cons (l : Listing) (ls : List Listing) :
    lines (joined (l :: ls)) = lines l.text ++ lines (joined ls) := by
  rw [joined_cons, Listing.text_eq_unlines, Text.lines_unlines_append]

theorem unlines_lines_joined (ls : List Listing) (h : '\r' ∉ (joined ls).toList) :
    unlines (lines (joined ls)) = joined ls := by
  induction ls with
  | nil => rfl
  | cons l ls ih =>
    rw [joined_cons, String.toList_append, List.mem_append, not_or] at h
    have hl := Text.unlines_lines l.lines.toList (l.text_eq_unlines ▸ h.1)
    rw [lines_joined_cons, Text.unlines_append, ih h.2, joined_cons, l.text_eq_unlines, hl]

theorem joined_inlined (ls : List Listing) :
    joined (ls.map inlined) = unlines ((lines (joined ls)).map inlineLine) := by
  induction ls with
  | nil => rfl
  | cons l ls ih =>
    rw [List.map_cons, joined_cons, text_inlined, ih, ← Text.unlines_append, ← List.map_append,
      ← lines_joined_cons]

/-- Two texts of whole lines. Each line of the second one is that of the first, as it is or marked
as inline. -/
structure InlineLines (definitions block : String) : Prop where
  unlines_definitions : unlines (lines definitions) = definitions
  unlines_block : unlines (lines block) = block
  marked : List.Forall₂ (fun line marked => marked = line ∨ marked = "inline " ++ line)
    (lines definitions) (lines block)

theorem inlineLines_joined {ls : List Listing} (h : '\r' ∉ (joined ls).toList) :
    InlineLines (joined ls) (joined (ls.map inlined)) := by
  have hlines : lines (joined (ls.map inlined)) = (lines (joined ls)).map inlineLine := by
    rw [joined_inlined]
    apply Text.lines_unlines
    intro line hline
    obtain ⟨plain, hplain, rfl⟩ := List.mem_map.mp hline
    exact not_mem_inlineLine (Text.not_mem_of_mem_lines hplain h)
  refine ⟨unlines_lines_joined ls h, ?_, ?_⟩
  · rw [hlines, joined_inlined]
  · rw [hlines, List.forall₂_map_right_iff, List.forall₂_same]
    exact fun line _ => inlineLine_eq line

namespace Listing

theorem append_write {l other : Listing} (h : l.level = other.level) (line : String) :
    (l.append other).write line = l.append (other.write line) := by
  simp [append, write, h]

theorem append_blank (l other : Listing) : (l.append other).blank = l.append other.blank := by
  simp [append, blank]

theorem append_append (l other more : Listing) :
    (l.append other).append more = l.append (other.append more) := by
  simp [append]

theorem level_foldl_append (ls : List Listing) (l : Listing) :
    (ls.foldl append l).level = l.level :=
  List.foldlRecOn (motive := fun k : Listing => k.level = l.level) ls _ rfl fun _ h _ _ => h

end Listing

namespace Options

variable (options : Options) (order : List Entry) (appendices : List Listing)

/-- The end of the header: the namespace closes, and the appendices follow. -/
def headerEnd : Listing :=
  let l := (Listing.empty.write options.namespaceEnd).blank
  let l := appendices.foldl (fun l appendix => (l.append appendix).blank) l
  l.write "// NOLINTEND(readability-identifier-naming)"

/-- The top of the source file, up to the first definition. -/
def sourceTop : Listing :=
  let l := (Listing.empty.write ("#include \"" ++ Path.fileName options.headerPath ++ "\"")).blank
  (l.write ("namespace " ++ options.namespaceName ++ " \x7b")).blank

theorem level_headerTop : options.headerTop.level = 0 := by
  simp [headerTop, Listing.empty]

theorem level_foldl_appendices (l : Listing) :
    (appendices.foldl (fun l appendix => (l.append appendix).blank) l).level = l.level :=
  List.foldlRecOn (motive := fun k : Listing => k.level = l.level) appendices _ rfl fun _ h _ _ => h

theorem foldl_appendices_append (l other : Listing) :
    appendices.foldl (fun l appendix => (l.append appendix).blank) (l.append other) =
      l.append (appendices.foldl (fun l appendix => (l.append appendix).blank) other) := by
  induction appendices generalizing other with
  | nil => rfl
  | cons appendix appendices ih =>
    rw [List.foldl_cons, List.foldl_cons, Listing.append_append, Listing.append_blank, ih]

theorem header_eq_append :
    options.header order appendices =
      ((order.map Entry.header ++
        if options.sourcePath.isSome then [] else order.map (inlined ·.implementation)).foldl
          Listing.append options.headerTop).append (options.headerEnd appendices) := by
  unfold header headerEnd
  dsimp only
  generalize hl : (order.map Entry.header ++
    if options.sourcePath.isSome then [] else order.map (inlined ·.implementation)).foldl
      Listing.append options.headerTop = l
  have hlevel : l.level = 0 := by rw [← hl, Listing.level_foldl_append, level_headerTop]
  have hclose : (l.write options.namespaceEnd).blank =
      l.append (Listing.empty.write options.namespaceEnd).blank := by
    rw [← Listing.append_blank, ← Listing.append_write hlevel]
    rfl
  rw [hclose, foldl_appendices_append, Listing.append_write]
  rw [level_foldl_appendices, hlevel]
  rfl

theorem text_header_split (h : options.sourcePath.isSome = true) :
    (options.header order appendices).text =
      options.headerTop.text ++ joined (order.map Entry.header) ++
        (options.headerEnd appendices).text := by
  rw [header_eq_append, if_pos h, List.append_nil, Listing.text_append, Listing.text_foldl_append]
  rfl

theorem text_header_combined :
    (options.combined.header order appendices).text =
      options.headerTop.text ++ joined (order.map Entry.header) ++
        joined ((order.map Entry.implementation).map inlined) ++
        (options.headerEnd appendices).text := by
  have hnone : ¬ options.combined.sourcePath.isSome = true := Bool.false_ne_true
  have hblock : order.map (inlined ·.implementation) =
      (order.map Entry.implementation).map inlined := by
    rw [List.map_map]
    rfl
  rw [header_eq_append, if_neg hnone, hblock, Listing.text_append, Listing.text_foldl_append,
    List.map_append, String.join_append, ← String.append_assoc]
  rfl

theorem text_source :
    (options.source order).text =
      options.sourceTop.text ++ joined (order.map Entry.implementation) ++
        options.namespaceEnd ++ "\n" := by
  have hsource : options.source order = ((order.map Entry.implementation).foldl Listing.append
      options.sourceTop).write options.namespaceEnd := rfl
  rw [hsource, Listing.text_write (Listing.level_foldl_append _ _), Listing.text_foldl_append]
  rfl

end Options

theorem Draft.foldlM_congr {ω α β : Type} {f g : β → α → Draft ω β} {as : List α}
    (h : ∀ a ∈ as, ∀ b, f b a = g b a) (b : β) : as.foldlM f b = as.foldlM g b := by
  induction as generalizing b with
  | nil => rfl
  | cons a as ih =>
    obtain ⟨ha, has⟩ := List.forall_mem_cons.mp h
    rw [List.foldlM_cons, List.foldlM_cons, ha]
    exact Draft.bind_congr fun c _ => ih has c

namespace Context

variable {ctx : Context}

def combined (ctx : Context) : Context :=
  { ctx with options := ctx.options.combined }

theorem agreesOn_combined (ctx : Context) : ctx.AgreesOn ctx.combined fun _ => True where
  closed := ctx.closed_true
  lookup _ _ := rfl
  isBuiltin _ := rfl
  isPassThrough _ := rfl
  namespaceName := rfl

theorem registry_combined (ctx : Context) : ctx.combined.registry = ctx.registry := by
  have hregister : ∀ entity ∈ ctx.schema.entities, ∀ r,
      ctx.combined.register r entity = ctx.register r entity := by
    intro entity he r
    rw [register, register, ctx.agreesOn_combined.entityEntry he trivial]
  unfold registry
  apply Draft.bind_congr
  intro _ _
  exact Draft.foldlM_congr hregister .empty

/-- With or without a source file, a model fails alike or has the same gaps. The definitions of the
source, where they hold no carriage return, stand in the combined header as one block of lines
before the end of the namespace, and nothing else differs between the headers. -/
theorem combined_inserts_definitions (ctx : Context) (h : ctx.options.sourcePath.isSome = true) :
    (∀ e, ctx.compile = .error e ↔ ctx.combined.compile = .error e) ∧
    ∀ split, ctx.compile = .ok split →
      ∃ combined, ctx.combined.compile = .ok combined ∧ combined.gaps = split.gaps ∧
        combined.source = none ∧
        ∃ r order declarations definitions block, ctx.registry.result = .ok r ∧
          r.emissionOrder = .ok order ∧
          split.header = declarations ++ (ctx.options.headerEnd r.appendices).text ∧
          combined.header = declarations ++ block ++ (ctx.options.headerEnd r.appendices).text ∧
          split.source = some (ctx.options.sourceTop.text ++ definitions ++
            ctx.options.namespaceEnd ++ "\n") ∧
          ((∀ entry ∈ order, '\r' ∉ entry.implementation.text.toList) →
            InlineLines definitions block) := by
  constructor
  · intro e
    rw [compile_eq_error, compile_eq_error, registry_combined]
  · intro split hsplit
    obtain ⟨r, order, hr, ho, rfl⟩ := compile_eq_ok.mp hsplit
    obtain ⟨path, hpath⟩ := Option.isSome_iff_exists.mp h
    have hregistry : ctx.combined.registry.result = .ok r := by
      rw [registry_combined]
      exact hr
    refine ⟨_, compile_eq_ok.mpr ⟨r, order, hregistry, ho, rfl⟩, ?_, rfl, r, order,
      ctx.options.headerTop.text ++ joined (order.map Entry.header),
      joined (order.map Entry.implementation),
      joined ((order.map Entry.implementation).map inlined), hr, ho, ?_, ?_, ?_, ?_⟩
    · rw [registry_combined]
    · exact ctx.options.text_header_split order r.appendices h
    · exact ctx.options.text_header_combined order r.appendices
    · rw [hpath, Option.map_some, Options.text_source]
    · intro hreturn
      apply inlineLines_joined
      rw [joined, String.toList_join, List.mem_flatMap]
      rintro ⟨text, htext, hmem⟩
      rw [List.map_map] at htext
      obtain ⟨entry, hentry, rfl⟩ := List.mem_map.mp htext
      exact hreturn entry hentry hmem

def drawer : Context where
  options := {}
  schema := {
    structures := [
      { name := "Drawer", properties := [{ name := "pen", type := .reference "Pen" }] },
      { name := "Pen" }] }

theorem combined_inserts_definitions_drawer :
    ∃ split combined definitions block, drawer.compile = .ok split ∧
      drawer.combined.compile = .ok combined ∧ combined.gaps = split.gaps ∧
      split.source = some (drawer.options.sourceTop.text ++ definitions ++
        drawer.options.namespaceEnd ++ "\n") ∧
      InlineLines definitions block := by
  have hlines : (do
      let r ← drawer.registry.result
      let order ← r.emissionOrder
      return decide (∀ entry ∈ order, ∀ line ∈ entry.implementation.lines,
        '\r' ∉ line.toList)) = .ok true := by
    decide +kernel
  obtain ⟨r, hr, hlines⟩ := Except.bind_eq_ok.mp hlines
  obtain ⟨order, ho, hlines⟩ := Except.bind_eq_ok.mp hlines
  have hreturn : ∀ entry ∈ order, '\r' ∉ entry.implementation.text.toList := by
    intro entry hentry hmem
    obtain ⟨line, hline, hmem⟩ := Listing.exists_of_mem_text (by decide) hmem
    exact of_decide_eq_true (Except.ok.inj hlines) entry hentry line hline hmem
  have hsplit := compile_eq_ok.mpr ⟨r, order, hr, ho, rfl⟩
  obtain ⟨_, hok⟩ := combined_inserts_definitions drawer rfl
  obtain ⟨combined, hcombined, hgaps, _, r', order', _, definitions, block, hr', ho', _, _,
    hsource, hinline⟩ := hok _ hsplit
  rw [hr] at hr'
  cases hr'
  rw [ho] at ho'
  cases ho'
  exact ⟨_, combined, definitions, block, hsplit, hcombined, hgaps, hsource, hinline hreturn⟩

end Context

end ProtocolBindings

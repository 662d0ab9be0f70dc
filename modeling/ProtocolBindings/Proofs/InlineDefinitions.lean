import ProtocolBindings.Proofs.Definitions
import ProtocolBindings.Proofs.FragmentLines
import ProtocolBindings.Proofs.SingleFile
import ProtocolBindings.Proofs.Representations

namespace ProtocolBindings

open Text (lines unlines)

/-- The text begins like a function outside of all classes: not with a blank, a closing brace or
the word for templates. -/
def BeginsFunction (text : List Char) : Prop :=
  text.head?.any (fun c => !Text.isBlank c && c ≠ '\x7d') = true ∧ ¬ "template".toList <+: text

instance (text : List Char) : Decidable (BeginsFunction text) :=
  inferInstanceAs (Decidable (_ ∧ _))

theorem startsDefinition_iff (line : String) :
    startsDefinition line = true ↔ BeginsFunction line.toList := by
  have hword : (!line.startsWith "template") = true ↔ ¬ "template".toList <+: line.toList := by
    rw [Bool.not_eq_true', String.startsWith_string_eq_false_iff]
  unfold startsDefinition BeginsFunction
  split
  · next hnil => simp [hnil]
  · next c rest hcons =>
    rw [Bool.and_eq_true, hword, hcons]
    rfl

theorem prefix_append_cons_iff {p a rest : List Char} {c : Char} (h : c ∉ p) :
    p <+: a ++ c :: rest ↔ p <+: a := by
  constructor
  · intro hp
    by_cases hl : p.length ≤ a.length
    · exact List.prefix_of_prefix_length_le hp (List.prefix_append a _) hl
    · have hc : a ++ [c] <+: a ++ c :: rest := ⟨rest, by simp⟩
      have ha : a ++ [c] <+: p := by
        apply List.prefix_of_prefix_length_le hc hp
        rw [List.length_append, List.length_singleton]
        omega
      exact absurd (ha.subset (by simp)) h
  · intro hp
    exact hp.trans (List.prefix_append a _)

/-- What follows a blank does not matter. -/
theorem beginsFunction_append {c : Char} (hc : Text.isBlank c = true) (text rest : List Char) :
    BeginsFunction (text ++ c :: rest) ↔ BeginsFunction text := by
  have hword : c ∉ "template".toList := by
    intro hmem
    have hnone : "template".toList.all (!Text.isBlank ·) = true := by decide
    have hnot := List.all_eq_true.mp hnone c hmem
    rw [hc] at hnot
    cases hnot
  unfold BeginsFunction
  rw [prefix_append_cons_iff hword]
  cases text with
  | nil => simp [hc]
  | cons d text => rfl

def pieces (line : String) : List String :=
  lines (line ++ "\n")

theorem lines_unlines_eq_flatMap (ls : List String) : lines (unlines ls) = ls.flatMap pieces := by
  induction ls with
  | nil => rfl
  | cons line ls ih => rw [Text.unlines_cons, Text.lines_feed_append, ih, List.flatMap_cons, pieces]

theorem lines_joined (ls : List Listing) :
    lines (joined ls) = (ls.flatMap (·.lines.toList)).flatMap pieces := by
  induction ls with
  | nil => rfl
  | cons l ls ih =>
    rw [lines_joined_cons, ih, l.text_eq_unlines, lines_unlines_eq_flatMap, List.flatMap_cons,
      List.flatMap_append]

/-- Where an open line ends, a blank follows: the carriage return or the line feed. -/
theorem exists_blank_of_dropReturn (current rest : List Char) :
    ∃ c tail, Text.isBlank c = true ∧
      current.reverse ++ '\n' :: rest = (Text.dropReturn current).reverse ++ c :: tail := by
  fun_cases Text.dropReturn current with
  | case1 current => exact ⟨'\r', '\n' :: rest, by decide, by simp⟩
  | case2 => exact ⟨'\n', rest, by decide, rfl⟩

theorem linesFrom_eq_cons (current text : List Char) :
    ∃ first more c tail, Text.linesFrom current (text ++ ['\n']) = first :: more ∧
      Text.isBlank c = true ∧ current.reverse ++ (text ++ ['\n']) = first ++ c :: tail := by
  induction text generalizing current with
  | nil =>
    obtain ⟨c, tail, hc, htext⟩ := exists_blank_of_dropReturn current []
    exact ⟨_, _, c, tail, rfl, hc, htext⟩
  | cons d text ih =>
    by_cases hd : d = '\n'
    · subst hd
      obtain ⟨c, tail, hc, htext⟩ := exists_blank_of_dropReturn current (text ++ ['\n'])
      exact ⟨_, _, c, tail, rfl, hc, htext⟩
    · obtain ⟨first, more, c, tail, hlines, hc, htext⟩ := ih (d :: current)
      refine ⟨first, more, c, tail, ?_, hc, ?_⟩
      · rw [List.cons_append, Text.linesFrom, if_neg hd, hlines]
      · rw [← htext]
        simp

/-- The first of its lines tells whether a written line begins like a function. -/
theorem pieces_eq_cons (line : String) :
    ∃ first more, pieces line = first :: more ∧
      (BeginsFunction first.toList ↔ BeginsFunction line.toList) := by
  obtain ⟨first, more, c, tail, hlines, hc, htext⟩ := linesFrom_eq_cons [] line.toList
  refine ⟨String.ofList first, more.map String.ofList, ?_, ?_⟩
  · rw [pieces, lines, String.toList_append]
    exact congrArg (List.map String.ofList) hlines
  · have hfeed : Text.isBlank '\n' = true := by decide
    rw [String.toList_ofList, ← beginsFunction_append hc first tail, ← htext,
      ← beginsFunction_append hfeed line.toList []]
    rfl

/-- A line feed inside the line has something behind it that begins like a function. -/
def HidesFunction (line : String) : Prop :=
  ∃ piece ∈ (pieces line).tail, BeginsFunction piece.toList

instance (line : String) : Decidable (HidesFunction line) :=
  inferInstanceAs (Decidable (∃ piece ∈ (pieces line).tail, BeginsFunction piece.toList))

theorem not_hidesFunction_of_not_mem {line : String} (h : '\n' ∉ line.toList) :
    ¬ HidesFunction line := by
  have hlines := Text.linesFrom_append h [] ['\n']
  rintro ⟨piece, hpiece, _⟩
  rw [pieces, lines, String.toList_append] at hpiece
  change piece ∈ (List.map String.ofList (Text.linesFrom [] (line.toList ++ ['\n']))).tail at hpiece
  rw [hlines] at hpiece
  cases hpiece

def markFirst : List String → List String
  | [] => []
  | line :: more => ("inline " ++ line) :: more

theorem inline_append_ne (line : String) : "inline " ++ line ≠ line := by
  intro h
  have hlength := congrArg String.length h
  simp at hlength

theorem inlineLine_eq_mark_iff (line : String) :
    inlineLine line = "inline " ++ line ↔ BeginsFunction line.toList := by
  rw [inlineLine, ← startsDefinition_iff]
  split
  · next h => simp [h]
  · next h => simp [h, (inline_append_ne line).symm]

theorem inlineLine_eq_self_iff (line : String) :
    inlineLine line = line ↔ ¬ BeginsFunction line.toList := by
  rw [inlineLine, ← startsDefinition_iff]
  split
  · next h => simp [h, inline_append_ne line]
  · next h => simp [h]

theorem map_inlineLine_eq_self_iff (ls : List String) :
    ls.map inlineLine = ls ↔ ∀ line ∈ ls, ¬ BeginsFunction line.toList := by
  have hmap := List.map_inj_left (f := inlineLine) (g := id) (l := ls)
  rw [List.map_id] at hmap
  rw [hmap]
  exact forall₂_congr fun line _ => inlineLine_eq_self_iff line

theorem map_inlineLine_pieces_iff (line : String) :
    (pieces line).map inlineLine = pieces line ↔
      ¬ BeginsFunction line.toList ∧ ¬ HidesFunction line := by
  obtain ⟨first, more, hpieces, hfirst⟩ := pieces_eq_cons line
  rw [map_inlineLine_eq_self_iff, HidesFunction, hpieces, List.forall_mem_cons, hfirst]
  simp

theorem map_inlineLine_markFirst_iff (line : String) :
    (pieces line).map inlineLine = markFirst (pieces line) ↔
      BeginsFunction line.toList ∧ ¬ HidesFunction line := by
  obtain ⟨first, more, hpieces, hfirst⟩ := pieces_eq_cons line
  rw [HidesFunction, hpieces, List.map_cons, markFirst, List.cons_eq_cons, inlineLine_eq_mark_iff,
    hfirst, map_inlineLine_eq_self_iff]
  simp

/-- The line stands below the first line of a function: it is empty, or begins with a blank or a
closing brace. -/
def IsInner (line : String) : Prop :=
  line.toList.head?.all (fun c => c = ' ' || c = '\x7d') = true

instance (line : String) : Decidable (IsInner line) :=
  inferInstanceAs (Decidable (_ = _))

theorem IsInner.not_beginsFunction {line : String} (h : IsInner line) :
    ¬ BeginsFunction line.toList := by
  rintro ⟨hbegins, _⟩
  unfold IsInner at h
  cases hc : line.toList.head? with
  | none =>
    rw [hc] at hbegins
    cases hbegins
  | some c =>
    rw [hc, Option.all_some, Bool.or_eq_true, decide_eq_true_eq, decide_eq_true_eq] at h
    rw [hc] at hbegins
    obtain rfl | rfl := h
    · revert hbegins
      decide
    · revert hbegins
      decide

theorem isInner_placed (level : Nat) (line : String) :
    IsInner (Listing.placed (level + 1) line) := by
  unfold Listing.placed
  split
  · decide
  · rw [IsInner, Listing.margin, String.toList_append, String.toList_ofList, Nat.mul_succ,
      List.replicate_succ]
    rfl

structure Routine where
  /-- Does it specialize a template? -/
  isSpecialization : Bool
  result : String
  /-- The first line, from the name of the function on. -/
  heading : String
  /-- The lines below the first one. -/
  body : List String
  inner : ∀ line ∈ body, IsInner line

namespace Routine

def introduction (f : Routine) : List String :=
  if f.isSpecialization then ["template <>"] else []

def first (f : Routine) : String :=
  f.result ++ " " ++ f.heading

def written (f : Routine) : List String :=
  f.introduction ++ f.first :: f.body

/-- The function as it should stand in a header: its first line is marked, and no other. -/
def inline (f : Routine) : List String :=
  f.introduction.flatMap pieces ++ markFirst (pieces f.first) ++ f.body.flatMap pieces

/-- The first line of the function can be told by its result, and no other line looks like one. -/
def IsRecognized (f : Routine) : Prop :=
  BeginsFunction f.result.toList ∧ ∀ line ∈ f.written, ¬ HidesFunction line

instance (f : Routine) : Decidable f.IsRecognized :=
  inferInstanceAs (Decidable (_ ∧ _))

theorem beginsFunction_first (f : Routine) :
    BeginsFunction f.first.toList ↔ BeginsFunction f.result.toList := by
  have hblank : Text.isBlank ' ' = true := by decide
  have hfirst : f.first.toList = f.result.toList ++ ' ' :: f.heading.toList := by
    simp [first]
  rw [hfirst, beginsFunction_append hblank]

theorem not_beginsFunction_introduction (f : Routine) :
    ∀ line ∈ f.introduction, ¬ BeginsFunction line.toList := by
  unfold introduction
  split
  · decide
  · exact List.forall_mem_nil _

end Routine

theorem append_eq_append_iff_of_length {a b c d : List String} (h : a.length = c.length) :
    a ++ b = c ++ d ↔ a = c ∧ b = d := by
  constructor
  · intro he
    exact List.append_inj he h
  · rintro ⟨rfl, rfl⟩
    rfl

theorem length_markFirst (ls : List String) : (markFirst ls).length = ls.length := by
  cases ls <;> rfl

theorem map_flatMap_eq_iff {α : Type} {f g : α → List String}
    (h : ∀ a, (f a).length = (g a).length) (as : List α) :
    (as.flatMap f).map inlineLine = as.flatMap g ↔ ∀ a ∈ as, (f a).map inlineLine = g a := by
  induction as with
  | nil => simp
  | cons a as ih =>
    have hlength : ((f a).map inlineLine).length = (g a).length := by rw [List.length_map, h]
    rw [List.flatMap_cons, List.flatMap_cons, List.map_append,
      append_eq_append_iff_of_length hlength, ih, List.forall_mem_cons]

theorem map_inlineLine_flatMap_iff {ls : List String}
    (h : ∀ line ∈ ls, ¬ BeginsFunction line.toList) :
    (ls.flatMap pieces).map inlineLine = ls.flatMap pieces ↔ ∀ line ∈ ls, ¬ HidesFunction line := by
  rw [map_flatMap_eq_iff fun _ => rfl]
  apply forall₂_congr
  intro line hline
  rw [map_inlineLine_pieces_iff, and_iff_right (h line hline)]

namespace Routine

theorem length_inline (f : Routine) : (f.written.flatMap pieces).length = f.inline.length := by
  simp [inline, written, length_markFirst]

theorem inline_iff (f : Routine) :
    (f.written.flatMap pieces).map inlineLine = f.inline ↔ f.IsRecognized := by
  have hbody : ∀ line ∈ f.body, ¬ BeginsFunction line.toList :=
    fun line hline => (f.inner line hline).not_beginsFunction
  have hsplit : f.written.flatMap pieces =
      f.introduction.flatMap pieces ++ pieces f.first ++ f.body.flatMap pieces := by
    simp [written]
  rw [hsplit, inline, List.map_append, List.map_append, append_eq_append_iff_of_length,
    append_eq_append_iff_of_length, map_inlineLine_flatMap_iff f.not_beginsFunction_introduction,
    map_inlineLine_markFirst_iff, map_inlineLine_flatMap_iff hbody, f.beginsFunction_first,
    IsRecognized, written, List.forall_mem_append, List.forall_mem_cons]
  · tauto
  · simp
  · simp [length_markFirst]

/-- The lines of functions in a combined header: each one that begins like a function is marked. -/
def marked (fs : List Routine) : List String :=
  ((fs.flatMap written).flatMap pieces).map fun line =>
    if BeginsFunction line.toList then "inline " ++ line else line

theorem marked_eq (fs : List Routine) :
    marked fs = ((fs.flatMap written).flatMap pieces).map inlineLine := by
  apply List.map_congr_left
  intro line _
  simp only [inlineLine, startsDefinition_iff]

theorem marked_eq_inline_iff (fs : List Routine) :
    marked fs = fs.flatMap inline ↔ ∀ f ∈ fs, f.IsRecognized := by
  rw [marked_eq, List.flatMap_assoc, map_flatMap_eq_iff length_inline]
  exact forall₂_congr fun f _ => f.inline_iff

end Routine

/-- A function whose body is a block: statements with their levels inside of it. -/
def Routine.block (isSpecialization : Bool) (result heading : String)
    (statements : List (Nat × String)) : Routine where
  isSpecialization := isSpecialization
  result := result
  heading := heading ++ " \x7b"
  body := statements.map (fun s => Listing.placed (s.1 + 1) s.2) ++ ["\x7d", ""]
  inner := by
    rw [List.forall_mem_append]
    constructor
    · intro line hline
      obtain ⟨s, _, rfl⟩ := List.mem_map.mp hline
      exact isInner_placed s.1 s.2
    · decide

def Definition.routine (d : Definition) : Routine :=
  let result := d.signature.result.elim "void" CppType.text
  let heading := d.scope ++ "::" ++ d.signature.name ++ d.signature.suffix
  match d.body with
  | .setUp _ => .block false result heading (d.body.statements.map (0, ·))
  | _ =>
    { isSpecialization := false
      result
      heading := heading ++ " \x7b " ++ " ".intercalate d.body.statements ++ " \x7d"
      body := []
      inner := List.forall_mem_nil _ }

theorem Definition.written_routine (d : Definition) : d.routine.written = d.lines := by
  obtain ⟨scope, signature, body⟩ := d
  cases body <;>
    simp [routine, lines, Routine.block, Routine.written, Routine.introduction,
      Routine.first, Signature.heading, String.append_assoc]

namespace Enumeration

theorem written_block (result heading : String) (statements : List (Nat × String)) :
    (Routine.block true result heading statements).written =
      specializationLines (result ++ " " ++ heading) statements := by
  simp [Routine.block, Routine.written, Routine.introduction, Routine.first, specializationLines,
    String.append_assoc]

theorem serializeHeading_eq (name : String) : serializeHeading name =
    "void" ++ " " ++ ("detail::SerializeEnum(" ++ name ++ " val, ryml::NodeRef n)") := by
  have hstart : "void detail::SerializeEnum(" = "void" ++ " " ++ "detail::SerializeEnum(" := by
    decide
  have hassoc (a b c d e : String) : a ++ b ++ c ++ d ++ e = a ++ b ++ (c ++ d ++ e) := by
    simp only [String.append_assoc]
  calc serializeHeading name
      _ = "void" ++ " " ++ "detail::SerializeEnum(" ++ name ++ " val, ryml::NodeRef n)" :=
        congrArg (· ++ name ++ " val, ryml::NodeRef n)") hstart
      _ = "void" ++ " " ++ ("detail::SerializeEnum(" ++ name ++ " val, ryml::NodeRef n)") :=
        hassoc _ _ _ _ _

theorem deserializeHeading_eq (name : String) : deserializeHeading name =
    name ++ " " ++ "detail::DeserializeEnum(ryml::ConstNodeRef n)" := by
  have hend : " detail::DeserializeEnum(ryml::ConstNodeRef n)" =
      " " ++ "detail::DeserializeEnum(ryml::ConstNodeRef n)" := by decide
  rw [deserializeHeading, hend, String.append_assoc]

def conversions (name : String) (writes reads : List (Nat × String)) : List Routine :=
  [.block true "void" ("detail::SerializeEnum(" ++ name ++ " val, ryml::NodeRef n)") writes,
    .block true name "detail::DeserializeEnum(ryml::ConstNodeRef n)" reads]

theorem written_conversions (name : String) (writes reads : List (Nat × String)) :
    (conversions name writes reads).flatMap Routine.written =
      specializationLines (serializeHeading name) writes ++
        specializationLines (deserializeHeading name) reads := by
  rw [serializeHeading_eq, deserializeHeading_eq, ← written_block, ← written_block]
  simp [conversions]

def conversionStatements (name : String) (cases : List Case) :
    Representation → List (Nat × String) × List (Nat × String)
  | .integer underlying =>
    ([(0, "detail::SetPrimitive(n, static_cast<" ++ underlying.wire.text ++ ">(val));")],
      [(0, "return static_cast<" ++ name ++ ">(detail::NodeAsPrimitive<" ++ underlying.wire.text ++
        ">(n));")])
  | .string _ =>
    ([(0, "switch (val) \x7b")] ++ cases.map (fun c => (1, writeBranch name c)) ++ [(0, "\x7d")],
      [(0, "const auto tv = n.val();")] ++ cases.map (fun c => (0, readBranch name c)) ++
        [(0, "assert(false);"), (0, "return \x7b\x7d;")])

def routines (options : Options) (e : Enumeration) : List Routine :=
  if options.isPassThrough e.name then []
  else
    match e.representation, e.constants with
    | .ok representation, .ok constants =>
      let statements :=
        conversionStatements e.name (constants.zipWith Case.mk e.values) representation
      conversions e.name statements.1 statements.2
    | _, _ => []

theorem written_conversionStatements (name : String) (cases : List Case)
    (representation : Representation) :
    (match representation with
      | .integer underlying => castConversion name underlying.wire
      | .string _ => tableConversion name cases).lines.toList =
      (conversions name (conversionStatements name cases representation).1
        (conversionStatements name cases representation).2).flatMap Routine.written := by
  rw [written_conversions]
  cases representation with
  | integer underlying => exact toList_lines_conversion name (writes_write _) (writes_write _)
  | string underlying =>
    exact toList_lines_conversion name (writes_branches name cases) (writes_tests name cases)

theorem written_routines {options : Options} {e : Enumeration} {entry : Entry}
    (h : e.entry options = .ok entry) :
    entry.implementation.lines.toList = (e.routines options).flatMap Routine.written := by
  unfold Enumeration.entry at h
  split at h
  · next hp =>
    cases h
    rw [routines, if_pos hp]
    rfl
  · next hp =>
    obtain ⟨representation, hr, h⟩ := Except.bind_eq_ok.mp h
    obtain ⟨constants, hc, h⟩ := Except.bind_eq_ok.mp h
    rw [routines, if_neg hp, hr, hc]
    dsimp only
    rw [← written_conversionStatements]
    cases representation with
    | integer underlying =>
      cases h
      rfl
    | string underlying =>
      cases h
      rfl

end Enumeration

namespace Context

variable {ctx : Context} {entity : Entity} {entry : Entry}

def routines (ctx : Context) : Entity → List Routine
  | .enumeration e => e.routines ctx.options
  | .alias _ => []
  | .struct s => (Fragment.definitions (ctx.structureDraft s).written).map Definition.routine

theorem Generates.written_routines (h : ctx.Generates entity entry) :
    entry.implementation.lines.toList = (ctx.routines entity).flatMap Routine.written :=
  match entity, h with
  | .enumeration e, h => Enumeration.written_routines h
  | .alias a, h => by
    change (a.entry ctx.options).result = .ok entry at h
    unfold TypeAlias.entry at h
    split at h
    · cases h
      rfl
    · obtain ⟨_, _, h⟩ := Draft.result_bind_eq_ok.mp h
      cases h
      rfl
  | .struct s, h => by
    obtain ⟨_, _, rfl⟩ := Except.map_eq_ok.mp h
    refine (Fragment.toList_lines_source rfl).trans ?_
    rw [routines, List.flatMap_map]
    exact List.flatMap_congr fun d _ => d.written_routine.symm

def routinesOf (ctx : Context) (name : String) : List Routine :=
  (ctx.schema.lookup name).elim [] ctx.routines

theorem written_routinesOf {r : Registry} (hr : ctx.registry.result = .ok r)
    (he : entry ∈ r.entries) :
    entry.implementation.lines.toList = (ctx.routinesOf entry.name).flatMap Routine.written := by
  obtain ⟨entity, hentity, hg⟩ := exists_entity_of_registry hr he
  have hlookup : ctx.schema.lookup entry.name = some entity :=
    (Schema.lookup_eq_some_iff (wellFormed_of_registry hr).distinct).mpr
      ⟨hentity, hg.inversion.1.symm⟩
  rw [routinesOf, hlookup, hg.written_routines]
  rfl

def functions (ctx : Context) (order : List Entry) : List Routine :=
  order.flatMap fun entry => ctx.routinesOf entry.name

theorem text_header_functions {r : Registry} {order : List Entry}
    (hs : ctx.options.sourcePath = none) (hr : ctx.registry.result = .ok r)
    (ho : r.emissionOrder = .ok order) :
    (ctx.options.header order r.appendices).text =
      ctx.options.headerTop.text ++ joined (order.map Entry.header) ++
        unlines (Routine.marked (ctx.functions order)) ++
        (ctx.options.headerEnd r.appendices).text := by
  have hcombined : ctx.options.combined = ctx.options := by
    rw [Options.combined, ← hs]
  have hscheduled := (Registry.isEmission_of_emissionOrder ho).1.mem_iff
  have hwritten : order.flatMap (·.implementation.lines.toList) =
      order.flatMap fun entry => (ctx.routinesOf entry.name).flatMap Routine.written :=
    List.flatMap_congr fun entry he => written_routinesOf hr ((hscheduled entry).mp he).1
  have hlines : lines (joined (order.map Entry.implementation)) =
      ((ctx.functions order).flatMap Routine.written).flatMap pieces := by
    rw [lines_joined, List.flatMap_map, hwritten, ← List.flatMap_assoc]
    rfl
  rw [Routine.marked_eq, ← hlines, ← joined_inlined, ← hcombined]
  exact ctx.options.text_header_combined order r.appendices

/-- In a combined header the definitions stand between the declarations and the end of the
namespace, and the lines that begin like a function are marked. So the first line of every function
is marked, and no other line, just when every function is recognized. -/
theorem inline_definitions_iff {b : Bindings} (hs : ctx.options.sourcePath = none)
    (h : ctx.compile = .ok b) :
    ∃ r order, ctx.registry.result = .ok r ∧ r.emissionOrder = .ok order ∧ b.source = none ∧
      b.header = ctx.options.headerTop.text ++ joined (order.map Entry.header) ++
        unlines (Routine.marked (ctx.functions order)) ++
        (ctx.options.headerEnd r.appendices).text ∧
      (Routine.marked (ctx.functions order) = (ctx.functions order).flatMap Routine.inline ↔
        ∀ f ∈ ctx.functions order, f.IsRecognized) := by
  obtain ⟨r, order, hr, ho, rfl⟩ := compile_eq_ok.mp h
  refine ⟨r, order, hr, ho, ?_, text_header_functions hs hr ho, Routine.marked_eq_inline_iff _⟩
  rw [hs]
  rfl

def lamps : Context where
  options := { sourcePath := none }
  schema := { enumerations := [Enumeration.shades], structures := [{ name := "Lamp" }] }

theorem inline_definitions_iff_lamps :
    ∃ (b : Bindings) (r : Registry) (order : List Entry), lamps.compile = .ok b ∧
      r.emissionOrder = .ok order ∧
      b.header = lamps.options.headerTop.text ++ joined (order.map Entry.header) ++
        unlines ((lamps.functions order).flatMap Routine.inline) ++
        (lamps.options.headerEnd r.appendices).text := by
  have hall : (do
      let r ← lamps.registry.result
      let order ← r.emissionOrder
      return decide (∀ f ∈ lamps.functions order, BeginsFunction f.result.toList ∧
        ∀ line ∈ f.written, '\n' ∉ line.toList)) = .ok true := by
    decide +kernel
  obtain ⟨r, hr, hall⟩ := Except.bind_eq_ok.mp hall
  obtain ⟨order, ho, hall⟩ := Except.bind_eq_ok.mp hall
  have hrecognized : ∀ f ∈ lamps.functions order, f.IsRecognized := by
    intro f hf
    obtain ⟨hbegins, hfeed⟩ := of_decide_eq_true (Except.ok.inj hall) f hf
    exact ⟨hbegins, fun line hline => not_hidesFunction_of_not_mem (hfeed line hline)⟩
  have hcompile := compile_eq_ok.mpr ⟨r, order, hr, ho, rfl⟩
  obtain ⟨r', order', hr', ho', _, hheader, hmarked⟩ := inline_definitions_iff rfl hcompile
  rw [hr] at hr'
  cases hr'
  rw [ho] at ho'
  cases ho'
  rw [hmarked.mpr hrecognized] at hheader
  exact ⟨_, r, order, hcompile, ho, hheader⟩

def kinds : Context where
  options := { sourcePath := none }
  schema := {
    enumerations := [{
      name := "templateKind"
      values := [{ name := "Plain", value := .integer 1 }] }] }

theorem template_name_hides_definition :
    ∃ (b : Bindings) (before after : String), kinds.compile = .ok b ∧
      b.header = before ++ unlines [
        "template <>",
        "inline void detail::SerializeEnum(templateKind val, ryml::NodeRef n) \x7b",
        "  detail::SetPrimitive(n, static_cast<std::int32_t>(val));",
        "\x7d",
        "",
        "template <>",
        "templateKind detail::DeserializeEnum(ryml::ConstNodeRef n) \x7b",
        "  return static_cast<templateKind>(detail::NodeAsPrimitive<std::int32_t>(n));",
        "\x7d",
        ""] ++ after := by
  have hmarked : (do
      let r ← kinds.registry.result
      let order ← r.emissionOrder
      return Routine.marked (kinds.functions order)) = .ok ["template <>",
        "inline void detail::SerializeEnum(templateKind val, ryml::NodeRef n) \x7b",
        "  detail::SetPrimitive(n, static_cast<std::int32_t>(val));", "\x7d", "", "template <>",
        "templateKind detail::DeserializeEnum(ryml::ConstNodeRef n) \x7b",
        "  return static_cast<templateKind>(detail::NodeAsPrimitive<std::int32_t>(n));", "\x7d",
        ""] := by
    decide +kernel
  obtain ⟨r, hr, hmarked⟩ := Except.bind_eq_ok.mp hmarked
  obtain ⟨order, ho, hmarked⟩ := Except.bind_eq_ok.mp hmarked
  have hheader := text_header_functions rfl hr ho
  rw [Except.ok.inj hmarked] at hheader
  exact ⟨_, _, _, compile_eq_ok.mpr ⟨r, order, hr, ho, rfl⟩, hheader⟩

end Context

end ProtocolBindings

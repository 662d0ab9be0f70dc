import ProtocolBindings.Proofs.ListingText
import ProtocolBindings.Synthesis.Enumeration

namespace ProtocolBindings

theorem Listing.placed_of_ne {line : String} (h : line ≠ "") (level : Nat) :
    placed level line = margin level ++ line :=
  if_neg fun hempty => h (String.isEmpty_iff.mp hempty)

theorem Listing.placed_one {line : String} (h : line ≠ "") : placed 1 line = "  " ++ line := by
  have hmargin : margin 1 = "  " := by decide
  rw [placed_of_ne h, hmargin]

theorem Listing.placed_two {line : String} (h : line ≠ "") :
    placed 2 line = "  " ++ ("  " ++ line) := by
  have hmargin : margin 2 = "  " ++ "  " := by decide
  rw [placed_of_ne h, hmargin, String.append_assoc]

namespace Entry

theorem level_documented (documentation : Option String) :
    (documented documentation).level = 0 := by
  simp [documented, Listing.empty]

theorem toList_lines_documented (documentation : Option String) :
    (documented documentation).lines.toList = documentation.elim [] Text.blockComment := by
  have hplaced : Listing.placed 0 = id := funext Listing.placed_zero
  simp [documented, Listing.empty, hplaced]

end Entry

namespace Enumeration

/-- The function that writes a constant and the one that reads one, given their statements. -/
def conversionLines (name : String) (writing reading : List String) : List String :=
  ["template <>", "void detail::SerializeEnum(" ++ name ++ " val, ryml::NodeRef n)" ++ " \x7b"] ++
    writing.map ("  " ++ ·) ++ ["\x7d", ""] ++
    ["template <>", name ++ " detail::DeserializeEnum(ryml::ConstNodeRef n)" ++ " \x7b"] ++
    reading.map ("  " ++ ·) ++ ["\x7d", ""]

def castLines (name wire : String) : List String :=
  conversionLines name ["detail::SetPrimitive(n, static_cast<" ++ wire ++ ">(val));"]
    ["return static_cast<" ++ name ++ ">(detail::NodeAsPrimitive<" ++ wire ++ ">(n));"]

/-- The conversion by a branch for each constant and a test for each string. -/
def tableLines (name : String) (cases : List Case) : List String :=
  conversionLines name
    (["switch (val) \x7b"] ++
      cases.map (fun c =>
        "  " ++ ("case " ++ name ++ "::" ++ c.constant ++ ": n = " ++ c.literal ++ "; break;")) ++
      ["\x7d"])
    (["const auto tv = n.val();"] ++
      cases.map (fun c =>
        "if (" ++ c.literal ++ " == tv) \x7b return " ++ name ++ "::" ++ c.constant ++ "; \x7d") ++
      ["assert(false);", "return \x7b\x7d;"])

/-- The listing holds the two conversions of the enumeration. -/
def ConvertedBy (e : Enumeration) (l : Listing) : Prop :=
  l.level = 0 ∧
    ((∃ wire ∈ ["std::int32_t", "std::uint32_t"], l.lines.toList = castLines e.name wire) ∨
      ∃ cases, l.lines.toList = tableLines e.name cases)

/-- The body writes the statements inside of a function, each at its level. -/
def Writes (body : Listing → Listing) (statements : List (Nat × String)) : Prop :=
  ∀ l : Listing, l.level = 1 → (body l).level = 1 ∧
    (body l).lines.toList =
      l.lines.toList ++ statements.map fun s => Listing.placed (s.1 + 1) s.2

def specializationLines (heading : String) (statements : List (Nat × String)) : List String :=
  ["template <>", heading ++ " \x7b"] ++
    statements.map (fun s => Listing.placed (s.1 + 1) s.2) ++ ["\x7d", ""]

section Specialization

variable {l : Listing} {body : Listing → Listing} {statements : List (Nat × String)}

theorem level_specialization (h : l.level = 0) (heading : String) (hb : Writes body statements) :
    (specialization l heading body).level = 0 := by
  obtain ⟨hlevel, _⟩ := hb ((l.write "template <>").write (heading ++ " \x7b")).indent (by simp [h])
  simp [specialization, Listing.indented, hlevel]

theorem toList_lines_specialization (h : l.level = 0) (heading : String)
    (hb : Writes body statements) :
    (specialization l heading body).lines.toList =
      l.lines.toList ++ specializationLines heading statements := by
  obtain ⟨hlevel, hlines⟩ := hb ((l.write "template <>").write (heading ++ " \x7b")).indent
    (by simp [h])
  simp [specialization, specializationLines, Listing.indented, hlevel, hlines, h,
    Listing.placed_zero]

end Specialization

theorem writes_write (line : String) : Writes (·.write line) [(0, line)] := by
  intro l hl
  simp [hl]

theorem writes_branches (name : String) (cases : List Case) :
    Writes (fun l =>
      ((l.write "switch (val) \x7b").indented (·.writeAll (cases.map (writeBranch name)))).write
        "\x7d")
      ([(0, "switch (val) \x7b")] ++ cases.map (fun c => (1, writeBranch name c)) ++
        [(0, "\x7d")]) := by
  intro l hl
  simp [hl, Listing.indented, Function.comp_def]

theorem writes_tests (name : String) (cases : List Case) :
    Writes (fun l =>
      ((l.write "const auto tv = n.val();").writeAll (cases.map (readBranch name))).writeAll
        ["assert(false);", "return \x7b\x7d;"])
      ([(0, "const auto tv = n.val();")] ++ cases.map (fun c => (0, readBranch name c)) ++
        [(0, "assert(false);"), (0, "return \x7b\x7d;")]) := by
  intro l hl
  simp [hl, Function.comp_def]

section Conversion

variable {write read : Listing → Listing} {writing reading : List (Nat × String)}

theorem level_conversion (name : String) (hw : Writes write writing) (hr : Writes read reading) :
    (specialization (specialization .empty (serializeHeading name) write)
      (deserializeHeading name) read).level = 0 :=
  level_specialization (level_specialization rfl _ hw) _ hr

theorem toList_lines_conversion (name : String) (hw : Writes write writing)
    (hr : Writes read reading) :
    (specialization (specialization .empty (serializeHeading name) write)
      (deserializeHeading name) read).lines.toList =
      specializationLines (serializeHeading name) writing ++
        specializationLines (deserializeHeading name) reading := by
  have hempty : Listing.empty.level = 0 := rfl
  have hlevel := level_specialization hempty (serializeHeading name) hw
  rw [toList_lines_specialization hlevel _ hr, toList_lines_specialization hempty _ hw]
  rfl

theorem toList_lines_eq_conversionLines (name : String) (hw : Writes write writing)
    (hr : Writes read reading) {writes reads : List String}
    (hws : writing.map (fun s => Listing.placed (s.1 + 1) s.2) = writes.map ("  " ++ ·))
    (hrs : reading.map (fun s => Listing.placed (s.1 + 1) s.2) = reads.map ("  " ++ ·)) :
    (specialization (specialization .empty (serializeHeading name) write)
      (deserializeHeading name) read).lines.toList = conversionLines name writes reads := by
  rw [toList_lines_conversion name hw hr, specializationLines, specializationLines, hws, hrs,
    conversionLines]
  simp only [List.append_assoc]
  rfl

end Conversion

theorem append_ne_empty {b : String} (h : b ≠ "") (a : String) : a ++ b ≠ "" := by
  intro hab
  exact h (String.append_eq_empty_iff.mp hab).2

theorem writeBranch_ne_empty (name : String) (c : Case) : writeBranch name c ≠ "" :=
  append_ne_empty (by decide) _

theorem readBranch_ne_empty (name : String) (c : Case) : readBranch name c ≠ "" :=
  append_ne_empty (by decide) _

theorem toList_lines_castConversion (name : String) (wire : Underlying) :
    (castConversion name wire).lines.toList = castLines name wire.text := by
  refine toList_lines_eq_conversionLines name (writes_write _) (writes_write _) ?_ ?_
  · exact congrArg ([·]) (Listing.placed_one (append_ne_empty (by decide) _))
  · exact congrArg ([·]) (Listing.placed_one (append_ne_empty (by decide) _))

theorem toList_lines_tableConversion (name : String) (cases : List Case) :
    (tableConversion name cases).lines.toList = tableLines name cases := by
  refine toList_lines_eq_conversionLines name (writes_branches name cases)
    (writes_tests name cases) ?_ ?_
  · have hbranches : ∀ c ∈ cases, Listing.placed 2 (writeBranch name c) =
        "  " ++ ("  " ++ writeBranch name c) :=
      fun c _ => Listing.placed_two (writeBranch_ne_empty name c)
    rw [List.map_append, List.map_append, List.map_map, List.map_append, List.map_append,
      List.map_map]
    exact congrArg (_ ++ · ++ _) (List.map_congr_left hbranches)
  · have htests : ∀ c ∈ cases, Listing.placed 1 (readBranch name c) =
        "  " ++ readBranch name c :=
      fun c _ => Listing.placed_one (readBranch_ne_empty name c)
    rw [List.map_append, List.map_append, List.map_map, List.map_append, List.map_append,
      List.map_map]
    exact congrArg (_ ++ · ++ _) (List.map_congr_left htests)

theorem convertedBy_castConversion (e : Enumeration) {wire : Underlying}
    (h : wire.text ∈ ["std::int32_t", "std::uint32_t"]) :
    e.ConvertedBy (castConversion e.name wire) :=
  ⟨level_conversion e.name (writes_write _) (writes_write _),
    .inl ⟨wire.text, h, toList_lines_castConversion e.name wire⟩⟩

theorem convertedBy_tableConversion (e : Enumeration) (cases : List Case) :
    e.ConvertedBy (tableConversion e.name cases) :=
  ⟨level_conversion e.name (writes_branches e.name cases) (writes_tests e.name cases),
    .inr ⟨cases, toList_lines_tableConversion e.name cases⟩⟩

theorem prefix_declareCase (representation : Representation) (l : Listing) (c : Case)
    (isFirst : Bool) :
    l.lines.toList <+: (declareCase representation l c isFirst).lines.toList := by
  unfold declareCase
  cases c.value.documentation with
  | none =>
    dsimp only
    split
    · simp
    · simp
  | some doc =>
    dsimp only
    split <;> cases isFirst <;> simp

theorem prefix_declareCases (representation : Representation) (l : Listing) (cases : List Case) :
    l.lines.toList <+: (declareCases representation l cases).lines.toList := by
  unfold declareCases
  split
  · exact List.prefix_rfl
  · next first rest =>
    refine List.foldlRecOn (motive := fun k : Listing => l.lines.toList <+: k.lines.toList) rest _
      (prefix_declareCase representation l first true) ?_
    intro k hk c _
    exact hk.trans (prefix_declareCase representation k c false)

/-- The declaration begins with the comment, and names the enumeration with the type below it. -/
theorem prefix_declaration (e : Enumeration) (representation : Representation)
    (cases : List Case) :
    e.documentation.elim [] Text.blockComment ++
        ["enum class " ++ e.name ++ " : " ++ representation.underlying.text ++ " \x7b"] <+:
      (e.declaration representation cases).lines.toList := by
  have hcases := prefix_declareCases representation ((Entry.documented e.documentation).write
    ("enum class " ++ e.name ++ " : " ++ representation.underlying.text ++ " \x7b")).indent cases
  rw [Listing.lines_indent, Listing.toList_lines_write, Entry.toList_lines_documented,
    Entry.level_documented, Listing.placed_zero] at hcases
  refine hcases.trans ?_
  simp [declaration, Listing.indented]

end Enumeration

end ProtocolBindings

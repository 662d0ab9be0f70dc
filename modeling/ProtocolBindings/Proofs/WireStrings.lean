import Mathlib.Data.List.Nodup
import Mathlib.Data.Set.List
import ProtocolBindings.Proofs.ListingText
import ProtocolBindings.Proofs.QuotedText
import ProtocolBindings.Proofs.Representations

namespace ProtocolBindings

namespace Listing

theorem dropWhile_placed (level : Nat) (line : String) :
    (placed level line).toList.dropWhile (· = ' ') =
      line.toList.dropWhile (· = ' ') := by
  unfold placed
  split
  · next h => rw [String.isEmpty_iff.mp h]
  · simp [margin]

theorem getLast?_placed (level : Nat) {line : String} {c : Char}
    (h : line.toList.getLast? = some c) :
    (placed level line).toList.getLast? = some c := by
  unfold placed
  split
  · next he =>
    rw [String.isEmpty_iff.mp he] at h
    cases h
  · simp [List.getLast?_append, h]

end Listing

theorem Text.getLast?_toList_append (before : String) {line : String} {c : Char}
    (h : line.toList.getLast? = some c) : (before ++ line).toList.getLast? = some c := by
  rw [String.toList_append, List.getLast?_append, h]
  rfl

namespace Enumeration

/-- The constant and the string of a branch that writes a constant as its string. -/
def branch? (name line : String) : Option (String × String) := do
  let rest ← (line.toList.dropWhile (· = ' ')).dropPrefix? ("case " ++ name ++ "::").toList
  let constant := rest.takeWhile Text.isIdentifierChar
  let rest ← (rest.dropWhile Text.isIdentifierChar).dropPrefix? ": n = ".toList
  let (wire, rest) ← Text.readQuoted rest
  if rest = "; break;".toList then some (String.ofList constant, String.ofList wire) else none

/-- The string and the constant of a test that reads a string as its constant. -/
def test? (name line : String) : Option (String × String) := do
  let rest ← (line.toList.dropWhile (· = ' ')).dropPrefix? "if (".toList
  let (wire, rest) ← Text.readQuoted rest
  let rest ← rest.dropPrefix? (" == tv) \x7b return " ++ name ++ "::").toList
  let constant := rest.takeWhile Text.isIdentifierChar
  if rest.dropWhile Text.isIdentifierChar = "; \x7d".toList then
    some (String.ofList wire, String.ofList constant)
  else none

/-- The string that the switch in the code of an enumeration writes for a constant. -/
def written (name : String) (code : Listing) (constant : String) : Option String :=
  (code.lines.toList.filterMap (branch? name)).lookup constant

/-- The constant that the tests in the code of an enumeration read a string as. -/
def readAs (name : String) (code : Listing) (wire : String) : Option String :=
  (code.lines.toList.filterMap (test? name)).lookup wire

section Reading

variable {name line : String} {p : String × String}

theorem branch?_eq_some (h : branch? name line = some p) :
    "case ".toList <+: line.toList.dropWhile (· = ' ') ∧ "; break;".toList <:+ line.toList := by
  obtain ⟨rest, hstart, h⟩ := Option.bind_eq_some_iff.mp h
  obtain ⟨tail, hmiddle, h⟩ := Option.bind_eq_some_iff.mp h
  obtain ⟨⟨wire, behind⟩, hread, h⟩ := Option.bind_eq_some_iff.mp h
  obtain ⟨start, hline, hstart⟩ := List.dropPrefix?_eq_some_iff.mp hstart
  obtain ⟨middle, hrest, -⟩ := List.dropPrefix?_eq_some_iff.mp hmiddle
  constructor
  · rw [hline, eq_of_beq hstart, String.toList_append, String.toList_append, List.append_assoc,
      List.append_assoc]
    exact List.prefix_append _ _
  · dsimp only at h
    split at h
    · next hend =>
      rw [← hend]
      calc behind <:+ tail := Text.readQuoted_suffix hread
        _ <:+ rest.dropWhile Text.isIdentifierChar := ⟨middle, hrest.symm⟩
        _ <:+ rest := List.dropWhile_suffix _
        _ <:+ line.toList.dropWhile (· = ' ') := ⟨start, hline.symm⟩
        _ <:+ line.toList := List.dropWhile_suffix _
    · cases h

theorem test?_eq_some (h : test? name line = some p) :
    "if (".toList <+: line.toList.dropWhile (· = ' ') ∧ "; \x7d".toList <:+ line.toList := by
  obtain ⟨rest, hstart, h⟩ := Option.bind_eq_some_iff.mp h
  obtain ⟨⟨wire, behind⟩, hread, h⟩ := Option.bind_eq_some_iff.mp h
  obtain ⟨tail, hmiddle, h⟩ := Option.bind_eq_some_iff.mp h
  obtain ⟨start, hline, hstart⟩ := List.dropPrefix?_eq_some_iff.mp hstart
  obtain ⟨middle, hrest, -⟩ := List.dropPrefix?_eq_some_iff.mp hmiddle
  constructor
  · rw [hline, eq_of_beq hstart]
    exact List.prefix_append _ _
  · dsimp only at h
    split at h
    · next hend =>
      rw [← hend]
      calc tail.dropWhile Text.isIdentifierChar <:+ tail := List.dropWhile_suffix _
        _ <:+ behind := ⟨middle, hrest.symm⟩
        _ <:+ rest := Text.readQuoted_suffix hread
        _ <:+ line.toList.dropWhile (· = ' ') := ⟨start, hline.symm⟩
        _ <:+ line.toList := List.dropWhile_suffix _
    · cases h

theorem branch?_of_not_prefix (h : ¬ "case ".toList <+: line.toList.dropWhile (· = ' ')) :
    branch? name line = none := by
  rw [Option.eq_none_iff_forall_ne_some]
  intro p hp
  exact h (branch?_eq_some hp).1

theorem branch?_of_getLast? {c : Char} (hl : line.toList.getLast? = some c) (hc : c ≠ ';') :
    branch? name line = none := by
  rw [Option.eq_none_iff_forall_ne_some]
  intro p hp
  obtain ⟨before, he⟩ := (branch?_eq_some hp).2
  rw [← he, List.getLast?_append] at hl
  exact hc (Option.some.inj hl).symm

theorem test?_of_not_prefix (h : ¬ "if (".toList <+: line.toList.dropWhile (· = ' ')) :
    test? name line = none := by
  rw [Option.eq_none_iff_forall_ne_some]
  intro p hp
  exact h (test?_eq_some hp).1

theorem test?_of_getLast? {c : Char} (hl : line.toList.getLast? = some c) (hc : c ≠ '\x7d') :
    test? name line = none := by
  rw [Option.eq_none_iff_forall_ne_some]
  intro p hp
  obtain ⟨before, he⟩ := (test?_eq_some hp).2
  rw [← he, List.getLast?_append] at hl
  exact hc (Option.some.inj hl).symm

end Reading

/-- The constant of the case is an identifier, and the string is its value. -/
structure Case.Spells (c : Case) (wire : String) : Prop where
  identifier : c.constant.toList.all Text.isIdentifierChar = true
  literal : c.value.value = .string wire

section Branches

variable {name : String} {c : Case} {wire : String}

/-- An identifier reaches up to the first character that may not stand in one. -/
theorem takeWhile_identifier {constant : List Char} {d : Char} (rest : List Char)
    (h : constant.all Text.isIdentifierChar = true) (hr : rest.head? = some d)
    (hd : Text.isIdentifierChar d = false) :
    (constant ++ rest).takeWhile Text.isIdentifierChar = constant ∧
      (constant ++ rest).dropWhile Text.isIdentifierChar = rest := by
  have hall := List.all_eq_true.mp h
  obtain ⟨tail, rfl⟩ := List.head?_eq_some_iff.mp hr
  constructor
  · rw [List.takeWhile_append_of_pos hall, List.takeWhile_cons_of_neg (by simp [hd]),
      List.append_nil]
  · rw [List.dropWhile_append_of_pos hall, List.dropWhile_cons_of_neg (by simp [hd])]

theorem dropPrefix?_append (start rest : List Char) :
    (start ++ rest).dropPrefix? start = some rest :=
  List.dropPrefix?_append_of_beq rest BEq.rfl

theorem branch?_writeBranch (h : c.Spells wire) (level : Nat) :
    branch? name (Listing.placed level (writeBranch name c)) = some (c.constant, wire) := by
  have hline : (writeBranch name c).toList.dropWhile (· = ' ') =
      ("case " ++ name ++ "::").toList ++ (c.constant.toList ++ (": n = ".toList ++
        ((Text.quote wire).toList ++ "; break;".toList))) := by
    simp [writeBranch, Case.literal, h.literal, EnumLiteral.text]
  obtain ⟨htake, hdrop⟩ := takeWhile_identifier
    (": n = ".toList ++ ((Text.quote wire).toList ++ "; break;".toList))
    h.identifier rfl (by decide)
  rw [branch?, Listing.dropWhile_placed, hline, dropPrefix?_append, Option.bind_eq_bind,
    Option.bind_some, htake, hdrop, dropPrefix?_append, Option.bind_eq_bind, Option.bind_some,
    Text.readQuoted_quote, Option.bind_some]
  exact (if_pos rfl).trans (by simp only [String.ofList_toList])

theorem test?_readBranch (h : c.Spells wire) (level : Nat) :
    test? name (Listing.placed level (readBranch name c)) = some (wire, c.constant) := by
  have hline : (readBranch name c).toList.dropWhile (· = ' ') =
      "if (".toList ++ ((Text.quote wire).toList ++
        ((" == tv) \x7b return " ++ name ++ "::").toList ++
          (c.constant.toList ++ "; \x7d".toList))) := by
    simp [readBranch, Case.literal, h.literal, EnumLiteral.text]
  obtain ⟨htake, hdrop⟩ := takeWhile_identifier "; \x7d".toList h.identifier rfl (by decide)
  rw [test?, Listing.dropWhile_placed, hline, dropPrefix?_append, Option.bind_eq_bind,
    Option.bind_some, Text.readQuoted_quote, Option.bind_eq_bind, Option.bind_some]
  dsimp only
  rw [dropPrefix?_append, Option.bind_some, htake, hdrop]
  exact (if_pos rfl).trans (by simp only [String.ofList_toList])

theorem getLast?_writeBranch (name : String) (c : Case) :
    (writeBranch name c).toList.getLast? = some ';' :=
  Text.getLast?_toList_append _ rfl

theorem getLast?_readBranch (name : String) (c : Case) :
    (readBranch name c).toList.getLast? = some '\x7d' :=
  Text.getLast?_toList_append _ rfl

/-- The line is neither a branch nor a test: its start tells, or the brace at its end, since a
heading may start with any name of the model. -/
def IsFrame (line : String) : Prop :=
  line.toList.getLast? = some '\x7b' ∨
    ¬ "case ".toList <+: line.toList.dropWhile (· = ' ') ∧
      ¬ "if (".toList <+: line.toList.dropWhile (· = ' ')

instance : DecidablePred IsFrame := fun _ => inferInstanceAs (Decidable (_ ∨ _ ∧ _))

theorem IsFrame.branch? {line : String} (h : IsFrame line) : branch? name line = none := by
  obtain hlast | ⟨hstart, _⟩ := h
  · exact branch?_of_getLast? hlast (by decide)
  · exact branch?_of_not_prefix hstart

theorem IsFrame.test? {line : String} (h : IsFrame line) : test? name line = none := by
  obtain hlast | ⟨_, hstart⟩ := h
  · exact test?_of_getLast? hlast (by decide)
  · exact test?_of_not_prefix hstart

/-- A reader of branches or tests finds nothing between them. -/
theorem filterMap_tableConversion {read : String → Option (String × String)}
    (h : ∀ line, IsFrame line → read line = none) (name : String) (cases : List Case) :
    (tableConversion name cases).lines.toList.filterMap read =
      (cases.map fun c => Listing.placed 2 (writeBranch name c)).filterMap read ++
        (cases.map fun c => Listing.placed 1 (readBranch name c)).filterMap read := by
  have hheadings : read (serializeHeading name ++ " \x7b") = none ∧
      read (deserializeHeading name ++ " \x7b") = none :=
    ⟨h _ (.inl (Text.getLast?_toList_append _ rfl)), h _ (.inl (Text.getLast?_toList_append _ rfl))⟩
  have hfixed : ∀ line ∈ ["template <>", Listing.placed 1 "switch (val) \x7b",
      Listing.placed 1 "\x7d", "\x7d", "", Listing.placed 1 "const auto tv = n.val();",
      Listing.placed 1 "assert(false);", Listing.placed 1 "return \x7b\x7d;"],
      IsFrame line := by decide
  replace hfixed := fun line hl => h line (hfixed line hl)
  simp only [List.forall_mem_cons] at hfixed
  rw [tableConversion,
    toList_lines_conversion name (writes_branches name cases) (writes_tests name cases)]
  simp [specializationLines, hheadings, hfixed, Function.comp_def]

variable {cases : List Case} {wires : List String}

theorem filterMap_branch? (h : List.Forall₂ Case.Spells cases wires) :
    (tableConversion name cases).lines.toList.filterMap (branch? name) =
      (cases.map Case.constant).zip wires := by
  have hbranches : (cases.map fun c => Listing.placed 2 (writeBranch name c)).filterMap
      (branch? name) = (cases.map Case.constant).zip wires := by
    induction h with
    | nil => rfl
    | cons hc _ ih =>
      rw [List.map_cons, List.filterMap_cons_some (branch?_writeBranch hc 2), ih]
      rfl
  have htests : (cases.map fun c => Listing.placed 1 (readBranch name c)).filterMap
      (branch? name) = [] := by
    rw [List.filterMap_eq_nil_iff]
    intro line hline
    obtain ⟨c, _, rfl⟩ := List.mem_map.mp hline
    exact branch?_of_getLast? (Listing.getLast?_placed 1 (getLast?_readBranch name c)) (by decide)
  rw [filterMap_tableConversion fun _ => IsFrame.branch?, hbranches, htests, List.append_nil]

theorem filterMap_test? (h : List.Forall₂ Case.Spells cases wires) :
    (tableConversion name cases).lines.toList.filterMap (test? name) =
      wires.zip (cases.map Case.constant) := by
  have htests : (cases.map fun c => Listing.placed 1 (readBranch name c)).filterMap
      (test? name) = wires.zip (cases.map Case.constant) := by
    induction h with
    | nil => rfl
    | cons hc _ ih =>
      rw [List.map_cons, List.filterMap_cons_some (test?_readBranch hc 1), ih]
      rfl
  have hbranches : (cases.map fun c => Listing.placed 2 (writeBranch name c)).filterMap
      (test? name) = [] := by
    rw [List.filterMap_eq_nil_iff]
    intro line hline
    obtain ⟨c, _, rfl⟩ := List.mem_map.mp hline
    exact test?_of_getLast? (Listing.getLast?_placed 2 (getLast?_writeBranch name c)) (by decide)
  rw [filterMap_tableConversion fun _ => IsFrame.test?, hbranches, htests, List.nil_append]

end Branches

theorem all_of_isIdentifier {text : String} (h : Text.isIdentifier text = true) :
    text.toList.all Text.isIdentifierChar = true := by
  unfold Text.isIdentifier at h
  split at h
  · cases h
  · next c rest htext =>
    obtain ⟨hstart, hrest⟩ := Bool.and_eq_true_iff.mp h
    have hc : Text.isIdentifierChar c = true := by
      simp only [Text.isIdentifierStart, Text.isIdentifierChar, Char.isAlphanum,
        Bool.or_eq_true] at hstart ⊢
      exact hstart.imp_left .inl
    rw [htext, List.all_cons, hc, hrest]
    rfl

/-- Constants are different identifiers, one for each value. -/
theorem constantsFrom_eq_ok {owner : String} {taken constants : List String}
    {values : List EnumValue} (h : constantsFrom owner taken values = .ok constants) :
    constants.length = values.length ∧ constants.Nodup ∧
      ∀ name ∈ constants, Text.isIdentifier name = true ∧ name ∉ taken := by
  induction values generalizing taken constants with
  | nil =>
    cases h
    exact ⟨rfl, List.nodup_nil, List.forall_mem_nil _⟩
  | cons value values ih =>
    unfold constantsFrom at h
    dsimp only at h
    split at h
    · cases h
    split at h
    · cases h
    next hidentifier hfresh =>
    obtain ⟨rest, hrest, h⟩ := Except.bind_eq_ok.mp h
    cases h
    obtain ⟨hlength, hnodup, hall⟩ := ih hrest
    refine ⟨congrArg Nat.succ hlength, List.nodup_cons.mpr ⟨?_, hnodup⟩, ?_⟩
    · intro hmem
      exact (hall _ hmem).2 List.mem_cons_self
    · rw [List.forall_mem_cons]
      refine ⟨⟨by simpa using hidentifier, hfresh⟩, ?_⟩
      intro name hname
      exact ⟨(hall name hname).1, mt (List.mem_cons_of_mem _) (hall name hname).2⟩

theorem exists_wires {e : Enumeration} {u : Underlying}
    (h : e.representation = .ok (.string u)) :
    ∃ wires : List String, e.values.map EnumValue.value = wires.map .string := by
  have hi := not_hasIntegers_of_string h
  have hrange : e.values.map EnumValue.value ∈ Set.range (List.map EnumLiteral.string) := by
    rw [Set.range_list_map]
    intro literal hl
    obtain ⟨v, hv, rfl⟩ := List.mem_map.mp hl
    cases hliteral : v.value with
    | integer n => exact absurd ⟨n, v, hv, hliteral⟩ hi
    | string text => exact ⟨text, rfl⟩
  obtain ⟨wires, hwires⟩ := hrange
  exact ⟨wires, hwires.symm⟩

theorem spells_of_constants {constants : List String} {values : List EnumValue}
    {wires : List String} (hl : constants.length = values.length)
    (hc : ∀ name ∈ constants, Text.isIdentifier name = true)
    (hv : values.map EnumValue.value = wires.map .string) :
    List.Forall₂ Case.Spells (constants.zipWith Case.mk values) wires := by
  induction constants generalizing values wires with
  | nil =>
    obtain rfl := List.eq_nil_of_length_eq_zero hl.symm
    obtain rfl := List.map_eq_nil_iff.mp hv.symm
    exact .nil
  | cons constant constants ih =>
    obtain ⟨value, values, rfl⟩ := List.exists_cons_of_length_eq_add_one hl.symm
    obtain ⟨wire, wires, rfl, hwire, hwires⟩ := List.map_eq_cons_iff.mp hv.symm
    obtain ⟨hconstant, hconstants⟩ := List.forall_mem_cons.mp hc
    have hspells : (Case.mk constant value).Spells wire :=
      ⟨all_of_isIdentifier hconstant, hwire.symm⟩
    exact .cons hspells (ih (Nat.succ.inj hl) hconstants hwires.symm)

theorem lookup_zip {keys values : List String} (h : values.length ≤ keys.length) (key : String) :
    (keys.zip values).lookup key = values[keys.idxOf key]? := by
  induction keys generalizing values with
  | nil =>
    rw [List.eq_nil_of_length_eq_zero (Nat.le_zero.mp h)]
    rfl
  | cons k keys ih =>
    cases values with
    | nil => rfl
    | cons value values =>
      rw [List.zip_cons_cons, List.lookup_cons, List.idxOf_cons]
      by_cases hk : key = k
      · simp [hk]
      · rw [beq_false_of_ne hk, beq_false_of_ne (Ne.symm hk)]
        exact ih (Nat.le_of_succ_le_succ h)

theorem nodup_iff_idxOf {l : List String} :
    l.Nodup ↔ ∀ i (hi : i < l.length), l.idxOf l[i] = i := by
  constructor
  · intro h i hi
    exact h.idxOf_getElem i hi
  · intro h
    rw [List.nodup_iff_injective_getElem]
    intro i j hij
    apply Fin.ext
    calc i.val = l.idxOf l[i.val] := (h i i.isLt).symm
      _ = l.idxOf l[j.val] := congrArg l.idxOf hij
      _ = j.val := h j j.isLt

/-- The map from values back to keys undoes the one from keys to values just when no value
repeats. -/
theorem bind_lookup_zip_iff {keys values : List String} (hl : keys.length = values.length)
    (hk : keys.Nodup) :
    (∀ key ∈ keys, ((keys.zip values).lookup key).bind
        (fun value => (values.zip keys).lookup value) = some key) ↔ values.Nodup := by
  have hback (i : Nat) (hi : i < values.length) (hik : i < keys.length) :
      ((keys.zip values).lookup keys[i]).bind (fun value => (values.zip keys).lookup value) =
        keys[values.idxOf values[i]]? := by
    rw [lookup_zip hl.ge, hk.idxOf_getElem i hik, List.getElem?_eq_getElem hi, Option.bind_some,
      lookup_zip hl.le]
  rw [nodup_iff_idxOf]
  constructor
  · intro h i hi
    have hik : i < keys.length := by omega
    have hround := h keys[i] (List.getElem_mem hik)
    rw [hback i hi hik] at hround
    obtain ⟨hj, heq⟩ := List.getElem?_eq_some_iff.mp hround
    exact hk.getElem_inj_iff.mp heq
  · intro h key hkey
    obtain ⟨i, hik, rfl⟩ := List.getElem_of_mem hkey
    have hi : i < values.length := by omega
    rw [hback i hi hik, h i hi, List.getElem?_eq_getElem hik]

theorem implementation_of_strings {options : Options} {e : Enumeration} {u : Underlying}
    {entry : Entry} (hr : e.representation = .ok (.string u))
    (hp : options.isPassThrough e.name = false) (h : e.entry options = .ok entry) :
    ∃ constants, e.constants = .ok constants ∧
      entry.implementation = tableConversion e.name (constants.zipWith Case.mk e.values) := by
  rw [Enumeration.entry, if_neg (by simp [hp])] at h
  obtain ⟨representation, hr', h⟩ := Except.bind_eq_ok.mp h
  cases hr.symm.trans hr'
  obtain ⟨constants, hconstants, h⟩ := Except.bind_eq_ok.mp h
  cases h
  exact ⟨constants, hconstants, rfl⟩

/-- Each constant is written as the string of its value, and a string is read as the first constant
that has it. Reading undoes writing just when the strings of the values differ. -/
theorem readAs_written_iff {options : Options} {e : Enumeration} {u : Underlying} {entry : Entry}
    (hr : e.representation = .ok (.string u)) (hp : options.isPassThrough e.name = false)
    (h : e.entry options = .ok entry) :
    ∃ constants wires : List String, e.constants = .ok constants ∧
      e.values.map EnumValue.value = wires.map .string ∧ constants.length = wires.length ∧
      (∀ i (hi : i < constants.length),
        written e.name entry.implementation constants[i] = wires[i]?) ∧
      (∀ wire, readAs e.name entry.implementation wire = constants[wires.idxOf wire]?) ∧
      ((∀ constant ∈ constants, (written e.name entry.implementation constant).bind
          (readAs e.name entry.implementation) = some constant) ↔ wires.Nodup) := by
  obtain ⟨constants, hconstants, himplementation⟩ := implementation_of_strings hr hp h
  obtain ⟨wires, hwires⟩ := exists_wires hr
  obtain ⟨hlength, hnodup, hall⟩ := constantsFrom_eq_ok hconstants
  have hspells := spells_of_constants hlength (fun name hname => (hall name hname).1) hwires
  have hcases : (constants.zipWith Case.mk e.values).map Case.constant = constants := by
    apply List.ext_getElem
    · simp [hlength]
    · intro i _ _
      simp
  have hl : constants.length = wires.length := by
    have := congrArg List.length hwires
    simp only [List.length_map] at this
    omega
  have hwritten (constant : String) : written e.name entry.implementation constant =
      (constants.zip wires).lookup constant := by
    rw [written, himplementation, filterMap_branch? hspells, hcases]
  have hread (wire : String) : readAs e.name entry.implementation wire =
      (wires.zip constants).lookup wire := by
    rw [readAs, himplementation, filterMap_test? hspells, hcases]
  refine ⟨constants, wires, hconstants, hwires, hl, ?_, ?_, ?_⟩
  · intro i hi
    rw [hwritten, lookup_zip hl.ge, hnodup.idxOf_getElem i hi]
  · intro wire
    rw [hread, lookup_zip hl.le]
  · rw [← bind_lookup_zip_iff hl hnodup]
    simp only [hwritten, hread]

def marks : Enumeration where
  name := "Mark"
  values := [
    { name := "Quote", value := .string "\"" }, { name := "Slash", value := .string "\\" },
    { name := "Bell", value := .string "\\\"\x07" }]

theorem readAs_written_iff_marks :
    ∃ entry, marks.entry {} = .ok entry ∧
      (written "Mark" entry.implementation "kBell").bind (readAs "Mark" entry.implementation) =
        some "kBell" := by
  have hr : marks.representation = .ok (.string .uint8) := by decide
  have hc : marks.constants = .ok ["kQuote", "kSlash", "kBell"] := by decide +kernel
  cases h : marks.entry {} with
  | error d =>
    have hok : (marks.entry {}).isOk = true := by decide +kernel
    rw [h] at hok
    cases hok
  | ok entry =>
    obtain ⟨constants, wires, hc', hwires, _, _, _, hround⟩ := readAs_written_iff hr (by decide) h
    cases hc.symm.trans hc'
    have hnodup : wires.Nodup := by
      apply List.Nodup.of_map EnumLiteral.string
      rw [← hwires]
      decide
    exact ⟨entry, rfl, hround.mpr hnodup "kBell" (by decide)⟩

def twins : Enumeration where
  name := "Shade"
  values := [
    { name := "Light", value := .string "x" }, { name := "Dark", value := .string "x" }]

theorem second_twin_read_as_first :
    ((twins.entry {}).map fun entry =>
      ((written "Shade" entry.implementation "kDark"), (readAs "Shade" entry.implementation "x"))) =
      .ok (some "x", some "kLight") := by
  decide +kernel

end Enumeration

end ProtocolBindings

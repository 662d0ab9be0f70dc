import ProtocolBindings.Proofs.BlockComments
import ProtocolBindings.Proofs.ListingText
import ProtocolBindings.Synthesis.Enumeration
import ProtocolBindings.Synthesis.Structure

namespace ProtocolBindings

open Text (splice unlines lines lineComments commentLine commentSafe)

/-- Where a reader of C++ stands. The generated code has no character literals and no raw
strings. -/
inductive Region where
  | code
  /-- Behind a slash that may begin a comment. -/
  | slash
  | string
  /-- Behind a backslash in a string. -/
  | escape
  | lineComment
  | blockComment
  /-- Behind a star that may end a block comment. -/
  | star
  deriving DecidableEq

namespace Region

def next : Region → Char → Region
  | .code, c => if c = '/' then .slash else if c = '"' then .string else .code
  | .slash, c =>
    if c = '/' then .lineComment else if c = '*' then .blockComment
    else if c = '"' then .string else .code
  | .string, c => if c = '"' then .code else if c = '\\' then .escape else .string
  | .escape, _ => .string
  | .lineComment, c => if c = '\n' then .code else .lineComment
  | .blockComment, c => if c = '*' then .star else .blockComment
  | .star, c => if c = '/' then .code else if c = '*' then .star else .blockComment

/-- Where the reader stands after more text, whose lines are spliced first. -/
def after (r : Region) (text : List Char) : Region :=
  (splice text).foldl next r

end Region

namespace Text

variable {chars rest : List Char} {line : String}

/-- The line ends in a backslash, so that it goes on with the next one. -/
def EndsOpen (line : List Char) : Prop :=
  ['\\'] <:+ line ∨ ['\\', '\r'] <:+ line

instance (line : List Char) : Decidable (EndsOpen line) :=
  inferInstanceAs (Decidable (_ ∨ _))

theorem endsOpen_cons_iff {c : Char} (h : ¬ (c = '\\' ∧ (chars = [] ∨ chars = ['\r']))) :
    EndsOpen (c :: chars) ↔ EndsOpen chars := by
  have hback : ['\\'] ≠ c :: chars := by
    rintro ⟨⟩
    exact h ⟨rfl, .inl rfl⟩
  have hreturn : ['\\', '\r'] ≠ c :: chars := by
    rintro ⟨⟩
    exact h ⟨rfl, .inr rfl⟩
  rw [EndsOpen, List.suffix_cons_iff, List.suffix_cons_iff, or_iff_right hback,
    or_iff_right hreturn]
  rfl

theorem endsOpen_cons_of_length {c : Char} (h : 2 ≤ chars.length) :
    EndsOpen (c :: chars) ↔ EndsOpen chars := by
  apply endsOpen_cons_iff
  rintro ⟨_, rfl | rfl⟩
  · simp at h
  · simp at h

theorem length_le_length_breakPair (a b : Char) (chars : List Char) :
    chars.length ≤ (breakPair a b chars).length := by
  fun_induction breakPair a b chars with
  | case1 x y rest _ ih => simp only [List.length_cons]; omega
  | case2 x y rest _ ih => simp only [List.length_cons] at ih ⊢; omega
  | case3 chars => exact Nat.le_refl _

/-- A line that is broken up somewhere ends as it did. -/
theorem endsOpen_breakPair_iff {a b : Char} (hb : b ≠ '\\') (hr : b ≠ '\r') (chars : List Char) :
    EndsOpen (breakPair a b chars) ↔ EndsOpen chars := by
  fun_induction breakPair a b chars with
  | case1 x y rest he ih =>
    obtain ⟨rfl, rfl⟩ := he
    have hlast (rest : List Char) : EndsOpen (y :: rest) ↔ EndsOpen rest :=
      endsOpen_cons_iff fun h => hb h.1
    have hfirst (c : Char) (rest : List Char) : EndsOpen (c :: y :: rest) ↔ EndsOpen (y :: rest) :=
      endsOpen_cons_iff (by simp [hr])
    rw [endsOpen_cons_iff (by simp), hfirst, hfirst, hlast, hlast, ih]
  | case2 x y rest _ ih =>
    have hlength := length_le_length_breakPair a b (y :: rest)
    by_cases hshort : rest = []
    · subst hshort
      rfl
    · have hlong : 2 ≤ (y :: rest).length := Nat.succ_le_succ (List.length_pos_iff.mpr hshort)
      rw [endsOpen_cons_of_length (hlong.trans hlength), endsOpen_cons_of_length hlong, ih]
  | case3 chars => rfl

theorem endsOpen_commentSafe_iff (line : String) :
    EndsOpen (commentSafe line).toList ↔ EndsOpen line.toList := by
  rw [toList_commentSafe, endsOpen_breakPair_iff (by decide) (by decide),
    endsOpen_breakPair_iff (by decide) (by decide)]

end Text

namespace Region

variable {chars rest : List Char} {r : Region} {line : String} {ls : List String}

theorem after_append (h : ∀ c ∈ chars.getLast?, c ≠ '\\' ∧ c ≠ '\r') (r : Region)
    (rest : List Char) : r.after (chars ++ rest) = (r.after chars).after rest := by
  rw [after, Text.splice_append h, List.foldl_append]
  rfl

/-- Lines are read one after the other. -/
theorem after_lines (r : Region) (ls : List String) :
    r.after (ls.flatMap fun line => line.toList ++ ['\n']) =
      ls.foldl (fun r line => r.after (line.toList ++ ['\n'])) r := by
  induction ls generalizing r with
  | nil => rfl
  | cons line ls ih =>
    rw [List.flatMap_cons, after_append (by simp), ih]
    rfl

def below (line : List Char) : Region :=
  if Text.EndsOpen line then lineComment else code

theorem below_congr (h : Text.EndsOpen chars ↔ Text.EndsOpen rest) : below chars = below rest := by
  simp only [below, h]

theorem below_eq_or (line : List Char) : below line = code ∨ below line = lineComment := by
  unfold below
  split
  · exact .inr rfl
  · exact .inl rfl

theorem after_line (h : '\n' ∉ chars) : lineComment.after (chars ++ ['\n']) = below chars := by
  induction chars with
  | nil => rfl
  | cons c chars ih =>
    rw [List.mem_cons, not_or] at h
    by_cases hend : c = '\\' ∧ (chars = [] ∨ chars = ['\r'])
    · obtain ⟨rfl, rfl | rfl⟩ := hend <;> rfl
    · have hsplice : splice (c :: chars ++ ['\n']) = c :: splice (chars ++ ['\n']) := by
        apply Text.splice_cons
        · rintro rfl more he
          rcases List.append_eq_cons_iff.mp he with ⟨rfl, _⟩ | ⟨chars, rfl, _⟩
          · exact hend ⟨rfl, .inl rfl⟩
          · exact h.2 List.mem_cons_self
        · rintro rfl more he
          rcases List.append_eq_cons_iff.mp he with ⟨_, hc⟩ | ⟨chars, rfl, hn⟩
          · cases hc
          · rcases List.append_eq_cons_iff.mp hn.symm with ⟨rfl, _⟩ | ⟨chars, rfl, _⟩
            · exact hend ⟨rfl, .inr rfl⟩
            · exact h.2 (List.mem_cons_of_mem _ List.mem_cons_self)
      have hnext : lineComment.next c = lineComment := if_neg (Ne.symm h.1)
      rw [after, hsplice, List.foldl_cons, hnext, below_congr (Text.endsOpen_cons_iff hend)]
      exact ih h.2

theorem foldl_next_lineComment (h : '\n' ∉ chars) : chars.foldl next lineComment = lineComment := by
  induction chars with
  | nil => rfl
  | cons c chars ih =>
    rw [List.mem_cons, not_or] at h
    have hnext : lineComment.next c = lineComment := if_neg (Ne.symm h.1)
    rw [List.foldl_cons, hnext, ih h.2]

theorem foldl_next_margin (width : Nat) : (List.replicate width ' ').foldl next code = code := by
  induction width with
  | zero => rfl
  | succ width ih => exact ih

/-- The mark of a line comment leads into a comment, or does not leave it. -/
theorem after_mark (hr : r = code ∨ r = lineComment) (width : Nat) :
    r.after (List.replicate width ' ' ++ ['/', '/']) = lineComment := by
  have hplain : splice (List.replicate width ' ' ++ ['/', '/']) =
      List.replicate width ' ' ++ ['/', '/'] := by
    induction width with
    | zero => rfl
    | succ width ih => exact congrArg (' ' :: ·) ih
  rw [after, hplain]
  rcases hr with rfl | rfl
  · rw [List.foldl_append, foldl_next_margin]
    rfl
  · apply foldl_next_lineComment
    simp

/-- A line of documentation is a comment, and what stands below depends on how it ends. -/
theorem after_commentLine (hr : r = code ∨ r = lineComment) (h : '\n' ∉ line.toList)
    (level : Nat) :
    r.after ((Listing.placed level (commentLine "//" line)).toList ++ ['\n']) =
      below line.toList := by
  -- behind the mark comes nothing, or a blank and the text
  obtain ⟨body, hbody, hfeed, hopen⟩ : ∃ body, (commentLine "//" line).toList = '/' :: '/' :: body ∧
      '\n' ∉ body ∧ (Text.EndsOpen body ↔ Text.EndsOpen line.toList) := by
    unfold commentLine
    split
    · next hempty =>
      rw [String.isEmpty_iff] at hempty
      subst hempty
      exact ⟨[], rfl, List.not_mem_nil, Iff.rfl⟩
    · refine ⟨' ' :: (commentSafe line).toList, ?_, ?_, ?_⟩
      · rw [String.toList_append]
        rfl
      · simpa using Text.not_mem_commentSafe h
      · rw [Text.endsOpen_cons_iff (by simp), Text.endsOpen_commentSafe_iff]
  have hplaced : (Listing.placed level (commentLine "//" line)).toList ++ ['\n'] =
      (List.replicate (2 * level) ' ' ++ ['/', '/']) ++ (body ++ ['\n']) := by
    have hne : ¬ (commentLine "//" line).isEmpty = true := by
      rw [String.isEmpty_iff, ← String.toList_inj, hbody]
      exact List.cons_ne_nil _ _
    rw [Listing.placed, if_neg hne, String.toList_append, hbody, Listing.margin,
      String.toList_ofList]
    simp
  rw [hplaced, after_append, after_mark hr, after_line hfeed, below_congr hopen]
  simp

/-- Lines of documentation, one below the other: the last one decides. -/
theorem foldl_after_commentLine (h : ∀ line ∈ ls, '\n' ∉ line.toList)
    (hr : r = code ∨ r = lineComment) (level : Nat) :
    (ls.map (commentLine "//")).foldl
        (fun r line => r.after ((Listing.placed level line).toList ++ ['\n'])) r =
      ls.getLast?.elim r fun last => below last.toList := by
  induction ls generalizing r with
  | nil => rfl
  | cons line ls ih =>
    obtain ⟨hline, hls⟩ := List.forall_mem_cons.mp h
    rw [List.map_cons, List.foldl_cons, after_commentLine hr hline, ih hls (below_eq_or _),
      List.getLast?_cons]
    cases ls.getLast? with
    | none => rfl
    | some last => rfl

end Region

namespace Listing

variable {l : Listing} {line : String} {ls : List String}

def region (l : Listing) : Region :=
  Region.code.after l.text.toList

theorem toList_text (l : Listing) :
    l.text.toList = l.lines.toList.flatMap fun line => line.toList ++ ['\n'] := by
  rw [text_eq_unlines, unlines, String.toList_join, List.flatMap_map]
  apply List.flatMap_congr
  intro line _
  exact String.toList_append

/-- What is written to a listing is read on from where the reader stands. -/
theorem region_append {l l' : Listing} {more : List String}
    (h : l'.lines.toList = l.lines.toList ++ more) :
    l'.region = more.foldl (fun r line => r.after (line.toList ++ ['\n'])) l.region := by
  rw [region, region, toList_text, toList_text, h, Region.after_lines, Region.after_lines,
    List.foldl_append]

theorem region_writeAll (l : Listing) (ls : List String) :
    (l.writeAll ls).region =
      ls.foldl (fun r line => r.after ((placed l.level line).toList ++ ['\n'])) l.region := by
  rw [region_append (toList_lines_writeAll l ls), List.foldl_map]

theorem region_blank (h : l.region = .code) : l.blank.region = .code := by
  rw [region_append (toList_lines_blank l), h]
  rfl

end Listing

/-- The last line of the documentation ends in a backslash. -/
def Text.splicesOn (doc : String) : Bool :=
  (lines doc).getLast?.any fun last => EndsOpen last.toList

/-- Below documentation there is code again, unless its last line ends in a backslash. -/
theorem Listing.region_lineComments {l : Listing} (h : l.region = .code) (doc : String) :
    (l.writeAll (lineComments doc)).region =
      if Text.splicesOn doc then .lineComment else .code := by
  have hfeed : ∀ line ∈ Text.lines doc, '\n' ∉ line.toList := by
    intro line hline
    obtain ⟨chars, hchars, rfl⟩ := List.mem_map.mp hline
    rw [String.toList_ofList]
    exact (Text.mem_of_mem_linesFrom hchars List.not_mem_nil).1
  rw [region_writeAll, lineComments, Region.foldl_after_commentLine hfeed (.inl h),
    Text.splicesOn]
  cases (Text.lines doc).getLast? with
  | none => exact h
  | some last => simp [Region.below]

/-- The region below the documentation of a field or a value, if there is any. -/
def Region.belowDocumentation (documentation : Option String) : Region :=
  if documentation.any Text.splicesOn then .lineComment else .code

theorem Fragment.header_map_comment (l : Listing) (ls : List String) :
    header l (ls.map .comment) = l.writeAll ls := by
  induction ls generalizing l with
  | nil => rfl
  | cons line ls ih => exact ih (l.write line)

theorem Field.region_comment {l : Listing} (h : l.region = .code) (property : Property)
    (index : Nat) :
    (Fragment.header l (comment property index)).region =
      .belowDocumentation property.documentation := by
  unfold comment
  cases property.documentation with
  | none => exact h
  | some doc =>
    dsimp only
    by_cases hi : index = 0
    · rw [if_pos hi, List.nil_append, Fragment.header_map_comment]
      exact Listing.region_lineComments h doc
    · have hbelow := Listing.region_lineComments (Listing.region_blank h) doc
      rw [← Fragment.header_map_comment] at hbelow
      rw [if_neg hi]
      exact hbelow

namespace Enumeration

/-- A listing up to the declaration of a constant: the comment on it is written. -/
def announced (l : Listing) (c : Case) (isFirst : Bool) : Listing :=
  match c.value.documentation with
  | some doc => (if isFirst then l else l.blank).writeAll (lineComments doc)
  | none => l

def constantLine (representation : Representation) (c : Case) : String :=
  match c.value.value, representation with
  | .integer n, .integer _ => c.constant ++ " = " ++ toString n.toInt ++ ","
  | _, _ => c.constant ++ ","

theorem declareCase_eq (representation : Representation) (l : Listing) (c : Case)
    (isFirst : Bool) :
    declareCase representation l c isFirst =
      (announced l c isFirst).write (constantLine representation c) := by
  obtain ⟨constant, name, value, documentation⟩ := c
  cases value <;> cases representation <;> rfl

theorem region_announced {l : Listing} (h : l.region = .code) (c : Case) (isFirst : Bool) :
    (announced l c isFirst).region = .belowDocumentation c.value.documentation := by
  unfold announced
  cases c.value.documentation with
  | none => exact h
  | some doc =>
    cases isFirst with
    | true => exact Listing.region_lineComments h doc
    | false => exact Listing.region_lineComments (Listing.region_blank h) doc

end Enumeration

namespace Context

/-- A field is drafted below the comment on it. -/
theorem exists_append_of_field (ctx : Context) (scope : String) (taken : List String) (index : Nat)
    (property : Property) :
    ∃ rest, (ctx.field scope taken index property).written = Field.comment property index ++ rest :=
  ⟨_, congrArg Draft.written (Draft.bind_of_ok rfl _)⟩

/-- Where documentation is written in code, the comment takes up its own lines, and what is written
below is code; except that documentation whose last line ends in a backslash goes on in the next
line. This holds for fields and for the constants of enumerations. -/
theorem code_below_documentation (ctx : Context) {l : Listing} (h : l.region = .code) :
    (∀ scope taken index property, ∃ rest,
        (ctx.field scope taken index property).written = Field.comment property index ++ rest ∧
        (Fragment.header l (Field.comment property index)).region =
          .belowDocumentation property.documentation) ∧
      ∀ representation c isFirst,
        Enumeration.declareCase representation l c isFirst =
          (Enumeration.announced l c isFirst).write (Enumeration.constantLine representation c) ∧
        (Enumeration.announced l c isFirst).region =
          .belowDocumentation c.value.documentation := by
  constructor
  · intro scope taken index property
    obtain ⟨rest, hrest⟩ := ctx.exists_append_of_field scope taken index property
    exact ⟨rest, hrest, Field.region_comment h property index⟩
  · intro representation c isFirst
    exact ⟨Enumeration.declareCase_eq representation l c isFirst,
      Enumeration.region_announced h c isFirst⟩

def folder : Structure where
  name := "Folder"
  properties := [
    { name := "path", type := .base "string", documentation := some "Such as C:\\" },
    { name := "size", type := .base "integer", documentation := some "In bytes." }]

def folders : Context where
  options := {}
  schema := { structures := [folder] }

def opened : Listing :=
  Fragment.header .empty [.openClass "Folder" .struct]

theorem region_opened : opened.region = .code := by
  rw [Listing.region, Listing.toList_text]
  decide +kernel

theorem code_below_documentation_folder :
    opened.region = .code ∧
      (Fragment.header opened (Field.comment
        { name := "size", type := .base "integer", documentation := some "In bytes." } 1)).region =
          .code ∧
      (Enumeration.announced opened ⟨"kRoot",
        { name := "Root", value := .string "root", documentation := some "Such as C:\\" }⟩
          true).region = .lineComment := by
  obtain ⟨hfield, hconstant⟩ := folders.code_below_documentation region_opened
  obtain ⟨_, _, hsize⟩ := hfield "Folder" [] 1
    { name := "size", type := .base "integer", documentation := some "In bytes." }
  obtain ⟨_, hroot⟩ := hconstant (.string .uint8) ⟨"kRoot",
    { name := "Root", value := .string "root", documentation := some "Such as C:\\" }⟩ true
  refine ⟨region_opened, hsize.trans ?_, hroot.trans ?_⟩
  · decide +kernel
  · decide +kernel

theorem documentation_swallows_declaration :
    (folders.structureDraft folder).result = .ok () ∧
      (folders.structureDraft folder).written.take 3 = [.openClass "Folder" .struct,
        .comment "// Such as C:\\", .declare (.getter (.plain "std::string_view") "path")] ∧
      (Fragment.header .empty ((folders.structureDraft folder).written.take 2)).region =
        .lineComment := by
  refine ⟨by decide +kernel, by decide +kernel, ?_⟩
  rw [Listing.region, Listing.toList_text]
  decide +kernel

end Context

end ProtocolBindings

import ProtocolBindings.Proofs.Blocks
import ProtocolBindings.Proofs.ClassText
import ProtocolBindings.Proofs.FragmentLines

namespace ProtocolBindings

theorem Listing.placed_eq_indented (level : Nat) (line : String) :
    placed level line = Text.indented level line := by
  have hmargin : margin level = String.join (List.replicate level "  ") := by
    apply String.toList_inj.mp
    rw [margin, String.toList_ofList, String.toList_join]
    induction level with
    | zero => rfl
    | succ level ih =>
      rw [List.replicate_succ, List.flatMap_cons, ← ih]
      rfl
  rw [placed, Text.indented, hmargin]
  by_cases h : line = ""
  · rw [if_pos h, if_pos (String.isEmpty_iff.mpr h)]
  · rw [if_neg h, if_neg (mt String.isEmpty_iff.mp h)]

def Text.afterMark (line : String) : String :=
  if line.isEmpty then "" else " " ++ commentSafe line

theorem Text.commentLine_eq (mark line : String) :
    commentLine mark line = mark ++ afterMark line := by
  unfold commentLine afterMark
  split
  · exact String.append_empty.symm
  · exact String.append_assoc

theorem qualify_eq_qualified (scope name : String) : qualify scope name = qualified scope name := by
  unfold qualify qualified
  by_cases h : scope = ""
  · rw [if_pos h, if_pos (String.isEmpty_iff.mpr h)]
  · rw [if_neg h, if_neg (mt String.isEmpty_iff.mp h)]

namespace Signature

def prototype (s : Signature) : Prototype where
  result := s.result.map CppType.spelling
  name := s.name
  parameter := s.parameter.map CppType.spelling
  isConst := s.isConst

theorem suffix_eq_ending (s : Signature) : s.suffix = s.prototype.ending := by
  obtain ⟨result, name, parameter, isConst⟩ := s
  cases parameter with
  | none => rfl
  | some type =>
    exact congrArg (fun t => "(" ++ t ++ " val)" ++ if isConst then " const" else "")
      type.text_eq_spelling

theorem declaration_eq (s : Signature) : s.declaration = s.prototype.declaration := by
  have hending := s.suffix_eq_ending
  obtain ⟨result, name, parameter, isConst⟩ := s
  cases result with
  | none => exact congrArg (fun e => "void " ++ name ++ e ++ ";") hending
  | some type =>
    exact congrArg₂ (fun t e => "[[nodiscard]] " ++ t ++ " " ++ name ++ e ++ ";")
      type.text_eq_spelling hending

theorem heading_eq (scope : String) (s : Signature) :
    s.heading scope = (s.prototype.within scope).heading := by
  have hassoc (a b c d e f : String) :
      a ++ b ++ c ++ d ++ e ++ f = a ++ b ++ (c ++ d ++ e) ++ f := by
    simp only [String.append_assoc]
  have hresult : s.result.elim "void" CppType.text = s.prototype.result.getD "void" := by
    obtain ⟨result, name, parameter, isConst⟩ := s
    cases result with
    | none => rfl
    | some type => exact type.text_eq_spelling
  rw [heading, s.suffix_eq_ending, hresult]
  exact hassoc ..

end Signature

def Body.isSetUp : Body → Bool
  | .setUp _ => true
  | _ => false

def Method.ofMember (signature : Signature) (body : Body) : Method where
  toPrototype := signature.prototype
  statements := body.statements
  isBlock := body.isSetUp

theorem Definition.lines_eq (scope : String) (signature : Signature) (body : Body) :
    (Definition.mk scope signature body).lines =
      (Method.ofMember signature body).definition scope := by
  have hindented : Listing.placed 1 = Text.indented 1 := funext (Listing.placed_eq_indented 1)
  cases body with
  | setUp fields => rw [lines, hindented, signature.heading_eq]; rfl
  | _ => rw [lines, signature.heading_eq]; rfl

/-- What the class of a union has the types of its alternatives for. -/
def Wrapper.alternatives : Wrapper → Option (List String)
  | .struct => none
  | .union types => some (CppType.spellings types)

theorem Wrapper.base_eq (w : Wrapper) : w.base = Piece.baseClass w.alternatives := by
  cases w with
  | struct => rfl
  | union types =>
    rw [base, template, CppType.texts_eq_spellings]
    rfl

theorem Wrapper.using_eq (w : Wrapper) :
    Text.indented 1 ("using " ++ w.name ++ "::" ++ w.name ++ ";") =
      w.alternatives.elim "  using StructWrapper::StructWrapper;"
        fun _ => "  using UnionStructWrapper::UnionStructWrapper;" := by
  cases w with
  | struct => decide
  | union types =>
    show Text.indented 1 "using UnionStructWrapper::UnionStructWrapper;" =
      "  using UnionStructWrapper::UnionStructWrapper;"
    decide

namespace Fragment

/-- The fragments of the class `scope` show these pieces in the header and the source, leave the
same gaps, and close the classes that they open. -/
structure Depicts (scope : String) (fs : List Fragment) (pieces : List Piece) : Prop where
  closed : ∀ path, fs.foldl enclosing path = path
  header : ∀ l, (header l fs).lines.toList =
    l.lines.toList ++ (Piece.headerLinesAll pieces).map (Text.indented l.level)
  source : (definitions fs).flatMap Definition.lines = Piece.sourceLinesAll scope pieces
  gaps : gaps fs = Piece.gapsAll pieces

variable {scope name : String} {fs gs : List Fragment} {pieces others : List Piece}

theorem Depicts.level (h : Depicts scope fs pieces) (l : Listing) :
    (Fragment.header l fs).level = l.level := by
  have hlength : l.level = (List.replicate l.level "").length := List.length_replicate.symm
  rw [level_header hlength, h.closed, List.length_replicate]

theorem depicts_nil (scope : String) : Depicts scope [] [] where
  closed _ := rfl
  header _ := (List.append_nil _).symm
  source := rfl
  gaps := rfl

theorem Depicts.append (hf : Depicts scope fs pieces) (hg : Depicts scope gs others) :
    Depicts scope (fs ++ gs) (pieces ++ others) where
  closed path := by rw [List.foldl_append, hf.closed, hg.closed]
  header l := by
    have hheader : Fragment.header l (fs ++ gs) = Fragment.header (Fragment.header l fs) gs :=
      List.foldl_append
    rw [hheader, hg.header, hf.header, hf.level, Piece.headerLinesAll_append, List.map_append,
      List.append_assoc]
  source := by
    rw [definitions, List.filterMap_append, List.flatMap_append, Piece.sourceLinesAll_append,
      ← hf.source, ← hg.source]
    rfl
  gaps := by
    rw [Fragment.gaps, List.filterMap_append, Piece.gapsAll_append, ← hf.gaps, ← hg.gaps]
    rfl

theorem depicts_blank (scope : String) : Depicts scope [.blank] [.blank] where
  closed _ := rfl
  header l := l.toList_lines_blank
  source := rfl
  gaps := rfl

theorem depicts_lineComments (scope doc : String) :
    Depicts scope ((Text.lineComments doc).map .comment)
      ((Text.lines doc).map fun line => .comment (Text.afterMark line)) := by
  unfold Text.lineComments
  induction Text.lines doc with
  | nil => exact depicts_nil scope
  | cons line lines ih =>
    have hfirst : Depicts scope [.comment (Text.commentLine "//" line)]
        [.comment (Text.afterMark line)] := by
      refine ⟨fun _ => rfl, ?_, rfl, rfl⟩
      intro l
      rw [Text.commentLine_eq, ← funext (Listing.placed_eq_indented l.level)]
      exact l.toList_lines_write _
    exact hfirst.append ih

theorem depicts_gaps (scope : String) (records : List Gap) :
    Depicts scope (records.map .gap) (records.map .gap) := by
  induction records with
  | nil => exact depicts_nil scope
  | cons record records ih =>
    have hfirst : Depicts scope [.gap record] [.gap record] :=
      ⟨fun _ => rfl, fun _ => (List.append_nil _).symm, rfl, rfl⟩
    exact hfirst.append ih

theorem depicts_member (scope : String) (signature : Signature) (body : Body) :
    Depicts scope (member scope signature body) [.method (.ofMember signature body)] where
  closed _ := rfl
  header l := by
    rw [← funext (Listing.placed_eq_indented l.level)]
    refine (l.toList_lines_write _).trans ?_
    rw [signature.declaration_eq]
    rfl
  source := congrArg (· ++ []) (Definition.lines_eq scope signature body)
  gaps := rfl

theorem Depicts.inClass (h : Depicts (qualified scope name) fs pieces) (wrapper : Wrapper) :
    Depicts scope (.openClass name wrapper :: fs ++ [.closeClass])
      [.inner name wrapper.alternatives pieces] where
  closed path := by
    have hinner : fs.foldl enclosing (path ++ [name]) = path ++ [name] := h.closed _
    rw [List.foldl_append]
    exact (congrArg List.dropLast hinner).trans List.dropLast_concat
  header l := by
    -- the fragments inside are written one level deeper, and the last one goes back to this level
    have hindented (line : String) :
        Text.indented (l.level + 1) line = Text.indented l.level (Text.indented 1 line) :=
      (Text.indented_indented l.level 1 line).symm
    have hopen : (toHeader l (.openClass name wrapper)).lines.toList = l.lines.toList ++
        (Piece.opening name wrapper.alternatives).map (Text.indented l.level) := by
      simp only [toHeader, Listing.toList_lines_blank, Listing.toList_lines_write,
        Listing.lines_indent, Listing.level_indent, Listing.level_write,
        Listing.placed_eq_indented, hindented, wrapper.using_eq, wrapper.base_eq,
        List.append_assoc]
      rfl
    have hclose (m : Listing) : (toHeader m .closeClass).lines.toList =
        m.lines.toList ++ [Text.indented (m.level - 1) "\x7d;", ""] := by
      simp [toHeader, Listing.placed_eq_indented]
    have hheader : Fragment.header l (.openClass name wrapper :: fs ++ [.closeClass]) =
        toHeader (Fragment.header (toHeader l (.openClass name wrapper)) fs) .closeClass :=
      List.foldl_append
    have hlevel : (toHeader l (.openClass name wrapper)).level = l.level + 1 := rfl
    rw [hheader, hclose, h.level, h.header, hopen, hlevel, Nat.add_sub_cancel, funext hindented]
    simp only [Piece.headerLinesAll, Piece.headerLines, List.map_append, List.map_map,
      List.append_nil, List.append_assoc]
    rfl
  source := by
    rw [List.cons_append, definitions, List.filterMap_cons_none rfl, List.filterMap_append,
      List.flatMap_append, Piece.sourceLinesAll, Piece.sourceLines, ← h.source]
    rfl
  gaps := by
    rw [List.cons_append, Fragment.gaps, List.filterMap_cons_none rfl, List.filterMap_append,
      Piece.gapsAll, Piece.gaps, ← h.gaps]
    rfl

section Documented

variable {piece : Piece}

theorem Depicts.toList_lines_header (h : Depicts scope fs [piece]) (l : Listing) :
    (Fragment.header l fs).lines.toList =
      l.lines.toList ++ piece.headerLines.map (Text.indented l.level) := by
  have hheader := h.header l
  rwa [Piece.headerLinesAll, Piece.headerLinesAll, List.append_nil] at hheader

theorem Depicts.definitions_eq (h : Depicts scope fs [piece]) :
    (definitions fs).flatMap Definition.lines = piece.sourceLines scope := by
  have hsource := h.source
  rwa [Piece.sourceLinesAll, Piece.sourceLinesAll, List.append_nil] at hsource

theorem Depicts.gaps_eq (h : Depicts scope fs [piece]) : Fragment.gaps fs = piece.gaps := by
  have hgaps := h.gaps
  rwa [Piece.gapsAll, Piece.gapsAll, List.append_nil] at hgaps

/-- Documentation before a class is shown in the header only. -/
theorem Depicts.documented (h : Depicts "" fs [piece]) (lines : List String) :
    (Fragment.header .empty (lines.map .comment ++ fs)).lines.toList =
        lines ++ piece.headerLines ∧
      (Fragment.source .empty (lines.map .comment ++ fs)).lines.toList = piece.sourceLines "" ∧
      Fragment.gaps (lines.map .comment ++ fs) = piece.gaps := by
  have hzero : Text.indented 0 = id := funext Text.indented_zero
  have hheader : Fragment.header .empty (lines.map .comment ++ fs) =
      Fragment.header (Listing.empty.writeAll lines) fs := by
    rw [Fragment.header, List.foldl_append, List.foldl_map]
    rfl
  have hlines : (Listing.empty.writeAll lines).lines.toList = lines := by
    rw [Listing.toList_lines_writeAll, funext (Listing.placed_eq_indented _)]
    show [] ++ lines.map (Text.indented 0) = lines
    rw [hzero, List.map_id, List.nil_append]
  have hlevel : (Listing.empty.writeAll lines).level = 0 := Listing.level_writeAll _ _
  have hnone : (lines.map Fragment.comment).filterMap definition? = [] ∧
      (lines.map Fragment.comment).filterMap gap? = [] := by
    simp [List.filterMap_eq_nil_iff, definition?, gap?]
  refine ⟨?_, ?_, ?_⟩
  · rw [hheader, h.toList_lines_header, hlines, hlevel, hzero, List.map_id]
  · rw [toList_lines_source rfl, definitions, List.filterMap_append, hnone.1, List.nil_append,
      ← h.definitions_eq]
    rfl
  · rw [Fragment.gaps, List.filterMap_append, hnone.2, List.nil_append, ← h.gaps_eq]
    rfl

end Documented

end Fragment

end ProtocolBindings

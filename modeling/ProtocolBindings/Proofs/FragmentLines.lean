import ProtocolBindings.Code.Fragment
import ProtocolBindings.Proofs.ListingText

namespace ProtocolBindings

def Definition.lines (d : Definition) : List String :=
  match d.body with
  | .setUp _ =>
    (d.signature.heading d.scope ++ " \x7b") ::
      (d.body.statements.map (Listing.placed 1) ++ ["\x7d", ""])
  | _ => [d.signature.heading d.scope ++ " \x7b " ++ " ".intercalate d.body.statements ++ " \x7d"]

theorem Definition.level_write (l : Listing) (d : Definition) : (d.write l).level = l.level := by
  unfold write
  split
  · simp [Listing.indented]
  · rfl

/-- Outside of all classes a definition is written as it is. -/
theorem Definition.toList_lines_write {l : Listing} (h : l.level = 0) (d : Definition) :
    (d.write l).lines.toList = l.lines.toList ++ d.lines := by
  obtain ⟨scope, signature, body⟩ := d
  cases body <;> simp [write, lines, Listing.indented, h, Listing.placed_zero]

namespace Fragment

variable {path : List String} {fs : List Fragment} {l : Listing}

def enclosing (path : List String) : Fragment → List String
  | .openClass name _ => path ++ [name]
  | .closeClass | .leaveClass => path.dropLast
  | .gap _ | .comment _ | .blank | .declare _ | .define _ => path

theorem level_toHeader (h : l.level = path.length) (f : Fragment) :
    (f.toHeader l).level = (f.enclosing path).length := by
  cases f <;> simp [toHeader, enclosing, h]

/-- The level of a header is the number of classes that are open. -/
theorem level_header (h : l.level = path.length) :
    (header l fs).level = (fs.foldl enclosing path).length := by
  induction fs generalizing l path with
  | nil => exact h
  | cons f fs ih => exact ih (level_toHeader h f)

def definition? : Fragment → Option Definition
  | .define d => some d
  | _ => none

def definitions (fs : List Fragment) : List Definition :=
  fs.filterMap definition?

theorem toList_lines_source (h : l.level = 0) :
    (source l fs).lines.toList = l.lines.toList ++ (definitions fs).flatMap Definition.lines := by
  induction fs generalizing l with
  | nil => exact (List.append_nil _).symm
  | cons f fs ih =>
    cases f with
    | define d =>
      have hrest : (source (d.write l) fs).lines.toList = _ := ih ((d.level_write l).trans h)
      rw [d.toList_lines_write h, List.append_assoc] at hrest
      exact hrest
    | _ => exact ih h

end Fragment

end ProtocolBindings

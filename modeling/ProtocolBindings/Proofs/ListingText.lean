import ProtocolBindings.Code.Listing
import ProtocolBindings.Text.Lines

namespace ProtocolBindings

namespace Text

variable {current a : List Char} {line s : String} {ls : List String}

def unlines (ls : List String) : String :=
  String.join (ls.map (· ++ "\n"))

theorem unlines_append (ls more : List String) :
    unlines (ls ++ more) = unlines ls ++ unlines more := by
  rw [unlines, List.map_append, String.join_append]
  rfl

theorem unlines_cons (line : String) (ls : List String) :
    unlines (line :: ls) = line ++ "\n" ++ unlines ls := by
  rw [unlines, List.map_cons, String.join_cons]
  rfl

theorem linesFrom_append (h : '\n' ∉ a) (current rest : List Char) :
    linesFrom current (a ++ rest) = linesFrom (a.reverse ++ current) rest := by
  induction a generalizing current with
  | nil => rfl
  | cons c a ih =>
    have hc : c ≠ '\n' := fun e => h (e ▸ List.mem_cons_self)
    have ha : '\n' ∉ a := fun m => h (List.mem_cons_of_mem c m)
    rw [List.cons_append, linesFrom, if_neg hc, ih ha]
    simp

theorem linesFrom_feed (current a rest : List Char) :
    linesFrom current (a ++ '\n' :: rest) =
      linesFrom current (a ++ ['\n']) ++ linesFrom [] rest := by
  induction a generalizing current with
  | nil => simp [linesFrom]
  | cons c a ih =>
    rw [List.cons_append, List.cons_append, linesFrom, linesFrom]
    split
    · rw [ih]
      rfl
    · exact ih _

theorem lines_feed_append (s t : String) :
    lines (s ++ "\n" ++ t) = lines (s ++ "\n") ++ lines t := by
  have h := linesFrom_feed [] s.toList t.toList
  simp only [lines, String.toList_append, List.append_assoc]
  rw [← List.map_append]
  exact congrArg _ h

/-- After whole lines, what follows has lines of its own. -/
theorem lines_unlines_append (ls : List String) (t : String) :
    lines (unlines ls ++ t) = lines (unlines ls) ++ lines t := by
  induction ls generalizing t with
  | nil => simp [unlines, lines, linesFrom]
  | cons line ls ih =>
    rw [unlines_cons, String.append_assoc, lines_feed_append, lines_feed_append, ih,
      List.append_assoc]

theorem dropReturn_of_not_mem (h : '\r' ∉ a) : dropReturn a = a := by
  cases a with
  | nil => rfl
  | cons c a =>
    unfold dropReturn
    split
    · next heq =>
      cases heq
      exact absurd List.mem_cons_self h
    · rfl

theorem dropReturn_subset (a : List Char) : dropReturn a ⊆ a := by
  unfold dropReturn
  split
  · exact List.subset_cons_self _ _
  · exact List.Subset.refl _

theorem lines_feed (hn : '\n' ∉ line.toList) (hr : '\r' ∉ line.toList) :
    lines (line ++ "\n") = [line] := by
  have hdrop : dropReturn line.toList.reverse = line.toList.reverse :=
    dropReturn_of_not_mem fun h => hr (List.mem_reverse.mp h)
  have hfrom : linesFrom [] (line.toList ++ ['\n']) = [line.toList] := by
    rw [linesFrom_append hn, List.append_nil, linesFrom, if_pos rfl, hdrop, List.reverse_reverse]
    rfl
  rw [lines, String.toList_append]
  exact (congrArg _ hfrom).trans (by simp)

theorem lines_unlines (h : ∀ line ∈ ls, '\n' ∉ line.toList ∧ '\r' ∉ line.toList) :
    lines (unlines ls) = ls := by
  induction ls with
  | nil => rfl
  | cons line ls ih =>
    obtain ⟨⟨hn, hr⟩, hrest⟩ := List.forall_mem_cons.mp h
    rw [unlines_cons, lines_feed_append, lines_feed hn hr, ih hrest]
    rfl

theorem mem_of_mem_linesFrom {l : List Char} (h : l ∈ linesFrom current a)
    (hc : '\n' ∉ current) : '\n' ∉ l ∧ ∀ c ∈ l, c ∈ current ∨ c ∈ a := by
  induction a generalizing current with
  | nil =>
    rw [linesFrom] at h
    split at h
    · cases h
    · cases List.mem_singleton.mp h
      simpa using hc
  | cons c a ih =>
    have hdrop := dropReturn_subset current
    rw [linesFrom] at h
    split at h
    · rcases List.mem_cons.mp h with rfl | h
      · refine ⟨fun hm => hc (hdrop (List.mem_reverse.mp hm)), fun d hd => ?_⟩
        exact .inl (hdrop (List.mem_reverse.mp hd))
      · obtain ⟨hn, hmem⟩ := ih h List.not_mem_nil
        refine ⟨hn, fun d hd => .inr (List.mem_cons_of_mem c ?_)⟩
        exact (hmem d hd).resolve_left List.not_mem_nil
    · next hfeed =>
      have hcons : '\n' ∉ c :: current := by simpa [Ne.symm hfeed] using hc
      obtain ⟨hn, hmem⟩ := ih h hcons
      refine ⟨hn, fun d hd => ?_⟩
      rcases hmem d hd with hd | hd
      · rcases List.mem_cons.mp hd with rfl | hd
        · exact .inr List.mem_cons_self
        · exact .inl hd
      · exact .inr (List.mem_cons_of_mem c hd)

theorem not_mem_of_mem_lines (h : line ∈ lines s) (hr : '\r' ∉ s.toList) :
    '\n' ∉ line.toList ∧ '\r' ∉ line.toList := by
  obtain ⟨l, hl, rfl⟩ := List.mem_map.mp h
  obtain ⟨hn, hmem⟩ := mem_of_mem_linesFrom hl List.not_mem_nil
  rw [String.toList_ofList]
  exact ⟨hn, fun hm => hr ((hmem _ hm).resolve_left List.not_mem_nil)⟩

theorem flatMap_linesFrom (hc : '\r' ∉ current) (ha : '\r' ∉ a) :
    (linesFrom current (a ++ ['\n'])).flatMap (· ++ ['\n']) = current.reverse ++ a ++ ['\n'] := by
  induction a generalizing current with
  | nil => simp [linesFrom, dropReturn_of_not_mem hc]
  | cons c a ih =>
    rw [List.mem_cons, not_or] at ha
    rw [List.cons_append, linesFrom]
    split
    · next hfeed => simp [dropReturn_of_not_mem hc, ih List.not_mem_nil ha.2, hfeed]
    · have hcons : '\r' ∉ c :: current := by
        rw [List.mem_cons, not_or]
        exact ⟨ha.1, hc⟩
      simp [ih hcons ha.2]

theorem unlines_lines_feed (h : '\r' ∉ s.toList) : unlines (lines (s ++ "\n")) = s ++ "\n" := by
  have hflat := flatMap_linesFrom List.not_mem_nil h
  apply String.toList_inj.mp
  rw [unlines, String.toList_join, lines, List.map_map, List.flatMap_map, String.toList_append]
  simpa using hflat

/-- The lines here may hold line feeds themselves, and are then taken apart further. -/
theorem unlines_lines (ls : List String) (h : '\r' ∉ (unlines ls).toList) :
    unlines (lines (unlines ls)) = unlines ls := by
  induction ls with
  | nil => rfl
  | cons line ls ih =>
    rw [unlines_cons, String.toList_append, String.toList_append] at h
    have hline : '\r' ∉ line.toList := fun hm => h (by simp [hm])
    have hls : '\r' ∉ (unlines ls).toList := fun hm => h (by simp [hm])
    rw [unlines_cons, lines_feed_append, unlines_append, unlines_lines_feed hline, ih hls]

end Text

namespace Listing

open Text (unlines)

@[simp] theorem toList_lines_write (l : Listing) (line : String) :
    (l.write line).lines.toList = l.lines.toList ++ [placed l.level line] :=
  Array.toList_push

@[simp] theorem toList_lines_blank (l : Listing) :
    l.blank.lines.toList = l.lines.toList ++ [""] :=
  Array.toList_push

@[simp] theorem toList_lines_writeAll (l : Listing) (lines : List String) :
    (l.writeAll lines).lines.toList = l.lines.toList ++ lines.map (placed l.level) := by
  induction lines generalizing l with
  | nil => exact (List.append_nil _).symm
  | cons line lines ih =>
    have hrest := ih (l.write line)
    rw [toList_lines_write, level_write, List.append_assoc] at hrest
    exact hrest

@[simp] theorem lines_indent (l : Listing) : l.indent.lines = l.lines := rfl

@[simp] theorem level_indent (l : Listing) : l.indent.level = l.level + 1 := rfl

@[simp] theorem lines_unindent (l : Listing) : l.unindent.lines = l.lines := rfl

@[simp] theorem level_unindent (l : Listing) : l.unindent.level = l.level - 1 := rfl

theorem foldl_append_feed (ls : List String) (start : String) :
    ls.foldl (fun text line => text ++ line ++ "\n") start = start ++ unlines ls := by
  induction ls generalizing start with
  | nil => exact String.append_empty.symm
  | cons line ls ih =>
    rw [List.foldl_cons, ih, Text.unlines_cons]
    simp only [String.append_assoc]

theorem text_eq_unlines (l : Listing) : l.text = unlines l.lines.toList := by
  rw [text, ← Array.foldl_toList, foldl_append_feed, String.empty_append]

theorem exists_of_mem_text {l : Listing} {c : Char} (hc : c ≠ '\n') (h : c ∈ l.text.toList) :
    ∃ line ∈ l.lines, c ∈ line.toList := by
  rw [text_eq_unlines, unlines, String.toList_join, List.flatMap_map, List.mem_flatMap] at h
  obtain ⟨line, hline, hmem⟩ := h
  rw [String.toList_append, List.mem_append] at hmem
  exact ⟨line, Array.mem_toList_iff.mp hline, hmem.resolve_right (by simpa using hc)⟩

theorem text_append (l other : Listing) : (l.append other).text = l.text ++ other.text := by
  rw [text_eq_unlines, text_eq_unlines, text_eq_unlines, ← Text.unlines_append, append,
    Array.toList_append]

theorem text_foldl_append (ls : List Listing) (l : Listing) :
    (ls.foldl append l).text = l.text ++ String.join (ls.map text) := by
  induction ls generalizing l with
  | nil => exact String.append_empty.symm
  | cons other ls ih =>
    rw [List.foldl_cons, ih, text_append, List.map_cons, String.join_cons, String.append_assoc]

theorem placed_zero (line : String) : placed 0 line = line := by
  unfold placed
  split
  · next h => exact (String.isEmpty_iff.mp h).symm
  · exact String.empty_append

/-- At the outermost level lines are written as they are. -/
theorem text_write {l : Listing} (h : l.level = 0) (line : String) :
    (l.write line).text = l.text ++ line ++ "\n" := by
  rw [text_eq_unlines, text_eq_unlines, write, h, placed_zero, Array.toList_push,
    Text.unlines_append, String.append_assoc]
  rfl

theorem text_writeAll {l : Listing} (h : l.level = 0) (ls : List String) :
    (l.writeAll ls).text = l.text ++ unlines ls := by
  induction ls generalizing l with
  | nil => exact String.append_empty.symm
  | cons line ls ih =>
    have hrest : ((l.write line).writeAll ls).text = (l.write line).text ++ unlines ls := ih h
    rw [writeAll, List.foldl_cons, ← writeAll, hrest, text_write h, Text.unlines_cons]
    simp only [String.append_assoc]

end Listing

end ProtocolBindings

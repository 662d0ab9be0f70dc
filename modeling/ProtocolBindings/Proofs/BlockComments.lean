import Mathlib.Data.List.Chain
import ProtocolBindings.Proofs.ListingText
import ProtocolBindings.Text.Comment

namespace ProtocolBindings.Text

variable {a b c : Char} {chars rest : List Char} {line : String} {ls : List String} {i : Nat}

/-- Logical lines out of physical ones: a backslash at the end of a line is removed, and with it the
end of the line. Only the last backslash of a line counts, so nothing is looked at twice. -/
def splice : List Char → List Char
  | [] => []
  | '\\' :: '\n' :: rest => splice rest
  | '\\' :: '\r' :: '\n' :: rest => splice rest
  | c :: rest => c :: splice rest

def OccursAt (pattern text : List Char) (i : Nat) : Prop :=
  pattern <+: text.drop i

/-- The delimiters of block comments are in the text just once each: it starts with the one and ends
with the other. -/
def DelimitedOnce (text : List Char) : Prop :=
  (∀ i, OccursAt ['/', '*'] text i ↔ i = 0) ∧ ∀ i, OccursAt ['*', '/'] text i ↔ i + 2 = text.length

def NoPair (a b x y : Char) : Prop := ¬ (x = a ∧ y = b)

/-- The two characters are no delimiter, and behind the end of a line comes a blank. -/
structure Neighbours (x y : Char) : Prop where
  noOpener : NoPair '/' '*' x y
  noCloser : NoPair '*' '/' x y
  margin : x = '\n' → y = ' '

theorem neighbours_blank (x : Char) : Neighbours x ' ' where
  noOpener h := absurd h.2 (by decide)
  noCloser h := absurd h.2 (by decide)
  margin _ := rfl

theorem blank_neighbours (y : Char) : Neighbours ' ' y where
  noOpener h := absurd h.1 (by decide)
  noCloser h := absurd h.1 (by decide)
  margin h := absurd h (by decide)

theorem neighbours_feed {x : Char} (hx : x ≠ '\n') : Neighbours x '\n' where
  noOpener h := absurd h.2 (by decide)
  noCloser h := absurd h.2 (by decide)
  margin h := absurd h hx

theorem occursAt_pair_iff {text : List Char} :
    OccursAt [a, b] text i ↔
      ∃ before after, text = before ++ a :: b :: after ∧ i = before.length := by
  constructor
  · rintro ⟨after, h⟩
    have hi : i ≤ text.length := by
      by_contra hlt
      rw [List.drop_of_length_le (by omega)] at h
      cases h
    refine ⟨text.take i, after, ?_, (List.length_take_of_le hi).symm⟩
    exact (List.take_append_drop i text).symm.trans (congrArg _ h.symm)
  · rintro ⟨before, after, rfl, rfl⟩
    rw [OccursAt, List.drop_left]
    exact ⟨after, rfl⟩

theorem occursAt_start_iff (h : (b :: rest).IsChain (NoPair a b)) :
    OccursAt [a, b] (a :: b :: rest) i ↔ i = 0 := by
  rw [occursAt_pair_iff]
  constructor
  · rintro ⟨before, after, he, rfl⟩
    cases before with
    | nil => rfl
    | cons _ before =>
      have hrest := (List.cons.inj he).2
      exact absurd ⟨rfl, rfl⟩ (List.isChain_iff_forall_rel_of_append_cons_cons.mp h hrest)
  · rintro rfl
    exact ⟨[], rest, rfl, rfl⟩

theorem occursAt_end_iff (h : (chars ++ [a]).IsChain (NoPair a b)) :
    OccursAt [a, b] (chars ++ [a, b]) i ↔ i = chars.length := by
  rw [occursAt_pair_iff]
  constructor
  · rintro ⟨before, after, he, rfl⟩
    rcases List.eq_nil_or_concat after with rfl | ⟨after, last, rfl⟩
    · exact congrArg List.length (List.append_inj_left' he rfl).symm
    · have hinit : (chars ++ [a]) ++ [b] = (before ++ a :: b :: after) ++ [last] := by
        simpa using he
      have hchars := List.append_inj_left' hinit rfl
      exact absurd ⟨rfl, rfl⟩ (List.isChain_iff_forall_rel_of_append_cons_cons.mp h hchars)
  · rintro rfl
    exact ⟨chars, [], rfl, rfl⟩

/-- A slash on either side of a text of neighbours that starts and ends with a star makes the only
two delimiters. -/
theorem delimitedOnce_of_isChain (h : ('*' :: chars ++ ['*']).IsChain Neighbours) :
    DelimitedOnce ('/' :: '*' :: chars ++ ['*', '/']) := by
  constructor
  · intro i
    have hopener := h.imp fun _ _ hn => hn.noOpener
    have hslash : ('*' :: chars ++ ['*'] ++ ['/']).IsChain (NoPair '/' '*') :=
      List.isChain_append.mpr ⟨hopener, .singleton _, by simp [NoPair]⟩
    rw [List.append_assoc] at hslash
    exact occursAt_start_iff hslash
  · intro i
    have hcloser := h.imp fun _ _ hn => hn.noCloser
    have hslash : ('/' :: '*' :: chars ++ ['*']).IsChain (NoPair '*' '/') :=
      List.isChain_cons.mpr ⟨by simp [NoPair], hcloser⟩
    rw [occursAt_end_iff hslash]
    simp

theorem splice_cons (hf : c = '\\' → ∀ more, rest ≠ '\n' :: more)
    (hr : c = '\\' → ∀ more, rest ≠ '\r' :: '\n' :: more) :
    splice (c :: rest) = c :: splice rest := by
  rw [splice]
  · exact fun more hc => hf hc more
  · exact fun more hc => hr hc more

/-- Two texts are spliced one after the other, unless the first may end in half a line end. -/
theorem splice_append (h : ∀ c ∈ chars.getLast?, c ≠ '\\' ∧ c ≠ '\r') (rest : List Char) :
    splice (chars ++ rest) = splice chars ++ splice rest := by
  fun_induction splice chars with
  | case1 => rfl
  | case2 more ih =>
    apply ih
    intro c hc
    exact h c (List.mem_getLast?_cons (List.mem_getLast?_cons hc))
  | case3 more ih =>
    apply ih
    intro c hc
    exact h c (List.mem_getLast?_cons (List.mem_getLast?_cons (List.mem_getLast?_cons hc)))
  | case4 c more hf hr ih =>
    have hcons : splice (c :: more ++ rest) = c :: splice (more ++ rest) := by
      apply splice_cons
      · rintro rfl next he
        rcases List.append_eq_cons_iff.mp he with ⟨rfl, _⟩ | ⟨more, rfl, _⟩
        · exact (h _ rfl).1 rfl
        · exact hf more rfl rfl
      · rintro rfl next he
        rcases List.append_eq_cons_iff.mp he with ⟨rfl, _⟩ | ⟨more, rfl, hn⟩
        · exact (h _ rfl).1 rfl
        · rcases List.append_eq_cons_iff.mp hn.symm with ⟨rfl, _⟩ | ⟨more, rfl, _⟩
          · exact (h _ rfl).2 rfl
          · exact hr more rfl rfl
    rw [hcons, ih fun d hd => h d (List.mem_getLast?_cons hd)]
    rfl

/-- What stands behind the end of a line may stand behind any character. -/
theorem isChain_behind_feed (h : ('\n' :: rest).IsChain Neighbours) (a : Char) :
    (a :: rest).IsChain Neighbours := by
  rw [List.isChain_cons] at h ⊢
  refine ⟨?_, h.2⟩
  intro b hb
  rw [(h.1 b hb).margin rfl]
  exact neighbours_blank a

/-- Where every line has a margin, splicing brings no delimiter together. -/
theorem isChain_splice (h : (a :: chars).IsChain Neighbours) :
    (a :: splice chars).IsChain Neighbours := by
  fun_induction splice chars generalizing a with
  | case1 => exact h
  | case2 rest ih =>
    simp only [List.isChain_cons_cons] at h
    exact ih (isChain_behind_feed h.2.2 a)
  | case3 rest ih =>
    simp only [List.isChain_cons_cons] at h
    exact ih (isChain_behind_feed h.2.2.2 a)
  | case4 c rest _ _ ih =>
    rw [List.isChain_cons_cons] at h ⊢
    exact ⟨h.1, ih h.2⟩

def breakPair (a b : Char) : List Char → List Char
  | x :: y :: rest =>
    if x = a ∧ y = b then x :: '\\' :: y :: breakPair a b rest else x :: breakPair a b (y :: rest)
  | chars => chars

theorem breakPair_cons {x : Char} (h : ∀ more, ¬ (x = a ∧ chars = b :: more)) :
    breakPair a b (x :: chars) = x :: breakPair a b chars := by
  cases chars with
  | nil => rfl
  | cons y rest =>
    rw [breakPair, if_neg]
    rintro ⟨hx, rfl⟩
    exact h rest ⟨hx, rfl⟩

theorem breakOpeners_eq (chars : List Char) : breakOpeners chars = breakPair '/' '*' chars := by
  fun_induction breakOpeners chars with
  | case1 => rfl
  | case2 rest ih => rw [ih, breakPair, if_pos ⟨rfl, rfl⟩]
  | case3 c rest hc ih => rw [ih, breakPair_cons fun more h => hc more h.1 h.2]

theorem breakClosers_eq (chars : List Char) : breakClosers chars = breakPair '*' '/' chars := by
  fun_induction breakClosers chars with
  | case1 => rfl
  | case2 rest ih => rw [ih, breakPair, if_pos ⟨rfl, rfl⟩]
  | case3 c rest hc ih => rw [ih, breakPair_cons fun more h => hc more h.1 h.2]

theorem toList_commentSafe (line : String) :
    (commentSafe line).toList = breakPair '*' '/' (breakPair '/' '*' line.toList) := by
  rw [commentSafe, String.toList_ofList, breakOpeners_eq, breakClosers_eq]

theorem head?_breakPair (a b : Char) (chars : List Char) :
    (breakPair a b chars).head? = chars.head? := by
  fun_cases breakPair a b chars <;> rfl

theorem breakPair_subset (a b : Char) (chars : List Char) :
    breakPair a b chars ⊆ '\\' :: chars := by
  fun_induction breakPair a b chars with
  | case1 x y rest _ ih => grind
  | case2 x y rest _ ih => grind
  | case3 chars => exact List.subset_cons_self _ _

/-- What keeps away from the backslash between the two is not touched. -/
theorem isChain_breakPair_of_isChain {R : Char → Char → Prop} (ha : R a '\\') (hb : R '\\' b)
    (h : chars.IsChain R) : (breakPair a b chars).IsChain R := by
  fun_induction breakPair a b chars with
  | case1 x y rest he ih =>
    obtain ⟨rfl, rfl⟩ := he
    rw [List.isChain_cons_cons, List.isChain_cons] at h
    have hrest := List.isChain_cons.mpr ⟨(head?_breakPair x y rest).symm ▸ h.2.1, ih h.2.2⟩
    exact (hrest.cons_cons hb).cons_cons ha
  | case2 x y rest _ ih =>
    rw [List.isChain_cons_cons] at h
    rw [List.isChain_cons, head?_breakPair]
    exact ⟨fun z hz => by cases hz; exact h.1, ih h.2⟩
  | case3 chars => exact h

theorem isChain_breakPair (hab : b ≠ a) (ha : '\\' ≠ a) (hb : '\\' ≠ b) (chars : List Char) :
    (breakPair a b chars).IsChain (NoPair a b) := by
  fun_induction breakPair a b chars with
  | case1 x y rest he ih =>
    obtain ⟨rfl, rfl⟩ := he
    have hrest : (y :: breakPair x y rest).IsChain (NoPair x y) :=
      List.isChain_cons.mpr ⟨fun _ _ h => hab h.1, ih⟩
    exact (hrest.cons_cons fun h => ha h.1).cons_cons fun h => hb h.2
  | case2 x y rest hn ih =>
    rw [List.isChain_cons, head?_breakPair]
    refine ⟨?_, ih⟩
    rintro _ ⟨⟩
    exact hn
  | case3 chars hshort =>
    rcases chars with _ | ⟨x, _ | ⟨y, rest⟩⟩
    · exact .nil
    · exact .singleton x
    · exact absurd rfl (hshort x y rest)

theorem not_mem_commentSafe (h : '\n' ∉ line.toList) : '\n' ∉ (commentSafe line).toList := by
  rw [toList_commentSafe]
  intro hc
  rcases List.mem_cons.mp (breakPair_subset _ _ _ hc) with hc | ho
  · exact absurd hc (by decide)
  · rcases List.mem_cons.mp (breakPair_subset _ _ _ ho) with ho | hm
    · exact absurd ho (by decide)
    · exact h hm

/-- Both delimiters are broken up: the second pass brings back none of the first. -/
theorem isChain_commentSafe (h : '\n' ∉ line.toList) :
    ((commentSafe line).toList ++ ['\n']).IsChain Neighbours := by
  have hfeed := not_mem_commentSafe h
  have hopener := isChain_breakPair (a := '/') (b := '*') (by decide) (by decide) (by decide)
    line.toList
  have hopener' := isChain_breakPair_of_isChain (a := '*') (b := '/') (by simp [NoPair])
    (by simp [NoPair]) hopener
  have hcloser := isChain_breakPair (a := '*') (b := '/') (by decide) (by decide) (by decide)
    (breakPair '/' '*' line.toList)
  rw [← toList_commentSafe, List.isChain_iff_forall_rel_of_append_cons_cons] at hopener' hcloser
  rw [List.isChain_append, List.isChain_iff_forall_rel_of_append_cons_cons]
  refine ⟨?_, .singleton _, ?_⟩
  · intro x y before after he
    refine ⟨hopener' he, hcloser he, ?_⟩
    rintro rfl
    exact absurd (he ▸ List.mem_append_right before List.mem_cons_self) hfeed
  · rintro x hx _ ⟨⟩
    apply neighbours_feed
    rintro rfl
    exact hfeed (List.mem_of_getLast? hx)

/-- A line of a block comment: it has a margin, and no delimiter is in it. -/
structure Inside (chars : List Char) : Prop where
  margin : chars.head? = some ' '
  neighbours : (chars ++ ['\n']).IsChain Neighbours

theorem inside_commentLine (h : '\n' ∉ line.toList) : Inside (commentLine " *" line).toList := by
  unfold commentLine
  split
  · refine ⟨rfl, ?_⟩
    have hstar : ['*', '\n'].IsChain Neighbours :=
      (List.IsChain.singleton _).cons_cons (neighbours_feed (by decide))
    exact hstar.cons_cons (blank_neighbours '*')
  · have hsafe : (' ' :: ((commentSafe line).toList ++ ['\n'])).IsChain Neighbours :=
      List.isChain_cons.mpr ⟨fun y _ => blank_neighbours y, isChain_commentSafe h⟩
    rw [String.toList_append]
    exact ⟨rfl, (hsafe.cons_cons (neighbours_blank '*')).cons_cons (blank_neighbours '*')⟩

/-- From the end of a line on, lines of a block comment and a last margin have no delimiters. -/
theorem isChain_lines (h : ∀ line ∈ ls, Inside line.toList)
    (hrest : (' ' :: rest).IsChain Neighbours) :
    ('\n' :: ((unlines ls).toList ++ ' ' :: rest)).IsChain Neighbours := by
  induction ls with
  | nil => exact hrest.cons_cons (neighbours_blank '\n')
  | cons line ls ih =>
    obtain ⟨hline, hls⟩ := List.forall_mem_cons.mp h
    obtain ⟨more, hmore⟩ := List.head?_eq_some_iff.mp hline.margin
    have hfirst := hline.neighbours
    have htext : '\n' :: ((unlines (line :: ls)).toList ++ ' ' :: rest) =
        '\n' :: ' ' :: more ++ '\n' :: ((unlines ls).toList ++ ' ' :: rest) := by
      rw [unlines_cons, String.toList_append, String.toList_append, hmore]
      simp
    rw [htext, List.isChain_split]
    rw [hmore] at hfirst
    exact ⟨hfirst.cons_cons (neighbours_blank '\n'), ih hls⟩

theorem intercalate_concat (ls : List String) (last : String) :
    "\n".intercalate (ls ++ [last]) = unlines ls ++ last := by
  induction ls with
  | nil => simp [unlines]
  | cons line ls ih =>
    have hne : ls ++ [last] ≠ [] := List.append_ne_nil_of_right_ne_nil _ (List.cons_ne_nil _ _)
    rw [List.cons_append, String.intercalate_cons_of_ne_nil hne, ih, unlines_cons]
    simp only [String.append_assoc]

def commentBody (text : String) : List Char :=
  '*' :: '\n' :: ((unlines ((lines text).map (commentLine " *"))).toList ++ [' '])

theorem toList_blockComment (text : String) :
    ("\n".intercalate (blockComment text)).toList =
      '/' :: '*' :: commentBody text ++ ['*', '/'] := by
  rw [blockComment, ← List.cons_append, intercalate_concat, unlines_cons, String.toList_append,
    String.toList_append, String.toList_append]
  simp [commentBody]

theorem isChain_commentBody (text : String) :
    ('*' :: (commentBody text ++ ['*'])).IsChain Neighbours := by
  have hlines : ∀ line ∈ (lines text).map (commentLine " *"), Inside line.toList := by
    intro line hline
    obtain ⟨source, hsource, rfl⟩ := List.mem_map.mp hline
    obtain ⟨chars, hchars, rfl⟩ := List.mem_map.mp hsource
    apply inside_commentLine
    rw [String.toList_ofList]
    exact (mem_of_mem_linesFrom hchars List.not_mem_nil).1
  have hend : [' ', '*'].IsChain Neighbours :=
    (List.IsChain.singleton _).cons_cons (blank_neighbours '*')
  have hstar : Neighbours '*' '*' := ⟨by simp [NoPair], by simp [NoPair], by simp⟩
  have hbody := isChain_lines hlines hend
  rw [commentBody]
  simpa using (hbody.cons_cons (neighbours_feed (by decide))).cons_cons hstar

/-- The body ends in a blank, so that it is spliced by itself. -/
theorem splice_commentBody_append (text : String) (rest : List Char) :
    splice (commentBody text ++ rest) = splice (commentBody text) ++ splice rest := by
  apply splice_append
  intro c hc
  rw [commentBody, ← List.cons_append, ← List.cons_append, List.getLast?_concat] at hc
  cases hc
  decide

/-- A block comment opens at its start and closes at its end, and nowhere else: as it is written,
and when its lines are spliced. -/
theorem blockComment_delimited_once (text : String) :
    DelimitedOnce ("\n".intercalate (blockComment text)).toList ∧
      DelimitedOnce (splice ("\n".intercalate (blockComment text)).toList) := by
  have hbody := isChain_commentBody text
  rw [toList_blockComment]
  constructor
  · exact delimitedOnce_of_isChain hbody
  · have hspliced := isChain_splice hbody
    rw [splice_commentBody_append] at hspliced
    have hwhole : splice ('/' :: '*' :: commentBody text ++ ['*', '/']) =
        '/' :: '*' :: splice (commentBody text) ++ ['*', '/'] :=
      congrArg ('/' :: '*' :: ·) (splice_commentBody_append text ['*', '/'])
    rw [hwhole]
    exact delimitedOnce_of_isChain hspliced

end ProtocolBindings.Text

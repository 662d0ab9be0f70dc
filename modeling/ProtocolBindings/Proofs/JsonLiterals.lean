import ProtocolBindings.Proofs.QuotedText

namespace ProtocolBindings

namespace Text

variable {prior before after : List Char} {c : Char}

def backslashesAtEnd (text : List Char) : Nat :=
  (text.reverse.takeWhile (· = '\\')).length

/-- A character right behind the text is escaped: of the backslashes before it, one is left over
when each pair of them stands for a backslash. -/
def EscapesNext (text : List Char) : Prop :=
  backslashesAtEnd text % 2 = 1

/-- What may stand between the quotes of a literal on one line. -/
structure IsLiteralBody (body : List Char) : Prop where
  /-- No control character, so that no line ends. -/
  printable : ∀ c ∈ body, 0x20 ≤ c.toNat
  /-- No quote ends the literal early. -/
  quotes_escaped : ∀ before after, body = before ++ '"' :: after → EscapesNext before
  /-- The quote behind the body does end it. -/
  closed : ¬ EscapesNext body

theorem backslashesAtEnd_concat (text : List Char) (c : Char) :
    backslashesAtEnd (text ++ [c]) = if c = '\\' then backslashesAtEnd text + 1 else 0 := by
  by_cases h : c = '\\'
  · simp [backslashesAtEnd, h]
  · simp [backslashesAtEnd, h]

theorem not_escapesNext_nil : ¬ EscapesNext [] :=
  Nat.zero_ne_one

theorem not_escapesNext_append {text : List Char} (h : text.getLast? = some c) (hc : c ≠ '\\') :
    ¬ EscapesNext (prior ++ text) := by
  obtain ⟨start, rfl⟩ := List.getLast?_eq_some_iff.mp h
  rw [← List.append_assoc, EscapesNext, backslashesAtEnd_concat, if_neg hc]
  decide

theorem escapesNext_backslash : EscapesNext (prior ++ ['\\']) ↔ ¬ EscapesNext prior := by
  rw [EscapesNext, EscapesNext, backslashesAtEnd_concat, if_pos rfl]
  omega

theorem hexDigit_plain {n : Nat} (h : n < 16) :
    hexDigit n ≠ '"' ∧ hexDigit n ≠ '\\' ∧ 0x20 ≤ (hexDigit n).toNat ∧
      (hexDigit n).utf8Size = 1 := by
  have hall : ∀ m : Fin 16, hexDigit m ≠ '"' ∧ hexDigit m ≠ '\\' ∧ 0x20 ≤ (hexDigit m).toNat ∧
      (hexDigit m).utf8Size = 1 := by
    decide
  exact hall ⟨n, h⟩

theorem printable_escape (c : Char) : ∀ d ∈ escape c, 0x20 ≤ d.toNat := by
  fun_cases escape c with
  | case8 _ _ _ _ _ _ _ hcontrol =>
    have hhigh := (hexDigit_plain (show c.toNat / 16 < 16 by omega)).2.2.1
    have hlow := (hexDigit_plain (show c.toNat % 16 < 16 by omega)).2.2.1
    simp [hhigh, hlow]
  | case9 => simp; omega
  | _ => simp

theorem eq_of_quote_mem_escape (h : '"' ∈ escape c) : c = '"' := by
  revert h
  fun_cases escape c with
  | case1 hquote => exact fun _ => hquote
  | case8 _ _ _ _ _ _ _ hcontrol =>
    have hhigh := (hexDigit_plain (show c.toNat / 16 < 16 by omega)).1
    have hlow := (hexDigit_plain (show c.toNat % 16 < 16 by omega)).1
    simp [hhigh.symm, hlow.symm]
  | case9 => simp [eq_comm]
  | _ => simp

/-- A quote in the escape of a character is escaped. -/
theorem escapesNext_of_escape (hp : ¬ EscapesNext prior)
    (h : escape c = before ++ '"' :: after) : EscapesNext (prior ++ before) := by
  obtain rfl := eq_of_quote_mem_escape (h ▸ List.mem_append_right _ List.mem_cons_self)
  rcases List.append_eq_cons_iff.mp h.symm with ⟨_, hquote⟩ | ⟨rest, rfl, hrest⟩
  · cases hquote
  · cases rest with
    | nil => exact escapesNext_backslash.mpr hp
    | cons d rest => simp at hrest

/-- What follows the escape of a character is not escaped by it. -/
theorem not_escapesNext_escape (hp : ¬ EscapesNext prior) (c : Char) :
    ¬ EscapesNext (prior ++ escape c) := by
  fun_cases escape c with
  | case2 =>
    rw [List.append_cons, escapesNext_backslash, escapesNext_backslash]
    exact not_not_intro hp
  | case8 _ _ _ _ _ _ _ hcontrol =>
    exact not_escapesNext_append rfl (hexDigit_plain (show c.toNat % 16 < 16 by omega)).2.1
  | case9 _ hbackslash => exact not_escapesNext_append rfl hbackslash
  | _ => exact not_escapesNext_append rfl (by decide)

theorem escapesNext_of_flatMap_escape {text : List Char} (hp : ¬ EscapesNext prior)
    (h : text.flatMap escape = before ++ '"' :: after) : EscapesNext (prior ++ before) := by
  induction text generalizing prior before with
  | nil => simp at h
  | cons c text ih =>
    rw [List.flatMap_cons] at h
    rcases List.append_eq_append_iff.mp h with ⟨rest, rfl, hrest⟩ | ⟨rest, hescape, hrest⟩
    · rw [← List.append_assoc]
      exact ih (not_escapesNext_escape hp c) hrest
    · cases rest with
      | nil =>
        rw [List.append_nil] at hescape
        have hstart : text.flatMap escape = [] ++ '"' :: after := hrest.symm
        have hnext := ih (not_escapesNext_escape hp c) hstart
        rwa [List.append_nil, hescape] at hnext
      | cons d rest =>
        rw [List.cons_append, List.cons.injEq] at hrest
        exact escapesNext_of_escape hp (hrest.1 ▸ hescape)

theorem not_escapesNext_flatMap_escape (hp : ¬ EscapesNext prior) (text : List Char) :
    ¬ EscapesNext (prior ++ text.flatMap escape) := by
  induction text generalizing prior with
  | nil => rwa [List.flatMap_nil, List.append_nil]
  | cons c text ih =>
    rw [List.flatMap_cons, ← List.append_assoc]
    exact ih (not_escapesNext_escape hp c)

theorem isLiteralBody_flatMap_escape (text : List Char) : IsLiteralBody (text.flatMap escape) where
  printable := by
    intro d hd
    obtain ⟨c, _, hdc⟩ := List.mem_flatMap.mp hd
    exact printable_escape c d hdc
  quotes_escaped := by
    intro before after h
    exact escapesNext_of_flatMap_escape not_escapesNext_nil h
  closed := not_escapesNext_flatMap_escape not_escapesNext_nil text

theorem toList_quote (text : String) :
    (quote text).toList = '"' :: (text.toList.flatMap escape ++ ['"']) :=
  String.toList_ofList

theorem quote_injective : Function.Injective quote := by
  intro a b h
  have ha := readQuoted_quote a []
  rw [h, readQuoted_quote b []] at ha
  exact String.toList_inj.mp (congrArg Prod.fst (Option.some.inj ha)).symm

end Text

namespace Reader

variable {stack : List Frame} {scan next : StringScan} {c : Char}

theorem run_inString (h : scan.step c = .ok (some next)) (rest : List Char) :
    run { stack, mode := .inString scan } (c :: rest) =
      run { stack, mode := .inString next } rest := by
  simp only [run, settle, step, h, bind, Except.bind, pure, Except.pure]

theorem run_endString (h : scan.step c = .ok none) (rest : List Char) :
    run { stack, mode := .inString scan } (c :: rest) =
      run (complete (.string scan.text) stack) rest := by
  simp only [run, settle, step, h, bind, Except.bind, pure, Except.pure]

theorem step_hexDigit {bytes value n : Nat} (hp : scan.phase = .hex bytes (some value))
    (hb : bytes < 3) (hn : n < 16) : scan.step (Text.hexDigit n) =
      .ok (some { scan with phase := .hex (bytes + 1) (some (16 * value + n)) }) := by
  have hsize := (Text.hexDigit_plain hn).2.2.2
  have hroom : bytes + 1 < 4 := Nat.succ_lt_succ hb
  simp [StringScan.step, hp, hsize, Text.hexValue?_hexDigit hn, hroom]

theorem step_lastHexDigit {value n : Nat} (hp : scan.phase = .hex 3 (some value)) (hn : n < 16) :
    scan.step (Text.hexDigit n) = .ok (some (scan.pushUnit (16 * value + n))) := by
  have hsize := (Text.hexDigit_plain hn).2.2.2
  simp [StringScan.step, hp, hsize, Text.hexValue?_hexDigit hn]

theorem pushUnit_control (h : c.toNat < 0x20) : scan.pushUnit c.toNat = scan.push c := by
  have hhigh : ¬ (0xD800 ≤ c.toNat ∧ c.toNat < 0xDC00) := by omega
  have hlow : ¬ (0xDC00 ≤ c.toNat ∧ c.toNat < 0xE000) := by omega
  rw [StringScan.pushUnit, if_neg hhigh, if_neg hlow, Char.ofNat_toNat]

/-- The escape of a character is read as this character. -/
theorem run_escape (chars : List Char) (c : Char) (rest : List Char) :
    run { stack, mode := .inString { chars } } (Text.escape c ++ rest) =
      run { stack, mode := .inString { chars := c :: chars } } rest := by
  fun_cases Text.escape c with
  | case8 _ _ _ _ _ _ _ hcontrol =>
    have hhigh : c.toNat / 16 < 16 := by omega
    have hlow : c.toNat % 16 < 16 := by omega
    have hcode : 16 * (16 * 0 + c.toNat / 16) + c.toNat % 16 = c.toNat := by omega
    have hlast : StringScan.step { phase := .hex 3 (some (16 * 0 + c.toNat / 16)), chars }
        (Text.hexDigit (c.toNat % 16)) = .ok (some { chars := c :: chars }) := by
      rw [step_lastHexDigit rfl hlow, hcode, pushUnit_control hcontrol]
      rfl
    calc run { stack, mode := .inString { chars } } ('\\' :: 'u' :: '0' :: '0' ::
          Text.hexDigit (c.toNat / 16) :: Text.hexDigit (c.toNat % 16) :: rest)
      _ = run { stack, mode := .inString { phase := .hex 2 (some 0), chars } } _ := rfl
      _ = _ := run_inString (step_hexDigit rfl (by decide) hhigh) _
      _ = _ := run_inString hlast _
  | case9 hquote hbackslash _ _ _ _ _ hcontrol =>
    apply run_inString
    simp [StringScan.step, hquote, hbackslash, hcontrol, StringScan.push]
  | _ =>
    subst c
    rfl

theorem run_flatMap_escape (chars text rest : List Char) :
    run { stack, mode := .inString { chars } } (text.flatMap Text.escape ++ '"' :: rest) =
      run (complete (.string (some (String.ofList (chars.reverse ++ text)))) stack) rest := by
  induction text generalizing chars with
  | nil =>
    rw [List.append_nil]
    exact run_endString rfl rest
  | cons c text ih =>
    rw [List.flatMap_cons, List.append_assoc, run_escape, ih, List.reverse_cons,
      List.append_assoc]
    rfl

end Reader

/-- A quoted text is read as one JSON string, which says the text. -/
theorem Reading.ofText_quote (text : String) :
    Reading.ofText (Text.quote text) = { document := .string (some text), trailing := none } := by
  have hrun : Reader.start.run (Text.quote text).toList =
      ({ stack := [], mode := .finished (.string (some text)) }, .endOfText) := by
    rw [Text.toList_quote]
    refine (Reader.run_flatMap_escape [] text.toList []).trans ?_
    rw [List.reverse_nil, List.nil_append, String.ofList_toList]
    rfl
  rw [ofText, hrun]
  rfl

end ProtocolBindings

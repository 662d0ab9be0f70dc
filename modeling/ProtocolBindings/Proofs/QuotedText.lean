import Mathlib.Data.List.Infix
import ProtocolBindings.Json.Reader
import ProtocolBindings.Text.Quoted

namespace ProtocolBindings.Text

def simpleEscape? : Char → Option Char
  | '"' => some '"'
  | '\'' => some '\''
  | '?' => some '?'
  | '\\' => some '\\'
  | 'a' => some '\x07'
  | 'b' => some '\x08'
  | 'f' => some '\x0c'
  | 'n' => some '\n'
  | 'r' => some '\r'
  | 't' => some '\t'
  | 'v' => some '\x0b'
  | _ => none

/-- The character that four hexadecimal digits name, unless they name a surrogate. -/
def universalChar? (digits : List Char) : Option Char := do
  let values ← digits.mapM StringScan.hexValue?
  let code := values.foldl (16 * · + ·) 0
  if code.isValidChar then some (Char.ofNat code) else none

/-- The characters of a literal whose opening quote has been read, and the text behind its closing
quote. A literal stays on its line. -/
def readLiteral : List Char → Option (List Char × List Char)
  | [] => none
  | '"' :: rest => some ([], rest)
  | '\n' :: _ => none
  | '\\' :: 'u' :: a :: b :: c :: d :: rest =>
    (universalChar? [a, b, c, d]).bind fun char =>
      (readLiteral rest).map fun (text, behind) => (char :: text, behind)
  | '\\' :: letter :: rest =>
    (simpleEscape? letter).bind fun char =>
      (readLiteral rest).map fun (text, behind) => (char :: text, behind)
  | char :: rest => (readLiteral rest).map fun (text, behind) => (char :: text, behind)

/-- The text that the literal at the start of a text stands for, and the text behind it. -/
def readQuoted : List Char → Option (List Char × List Char)
  | '"' :: rest => readLiteral rest
  | _ => none

theorem hexValue?_hexDigit {n : Nat} (h : n < 16) :
    StringScan.hexValue? (hexDigit n) = some n := by
  have hall : ∀ m : Fin 16, StringScan.hexValue? (hexDigit m) = some m.val := by decide
  exact hall ⟨n, h⟩

theorem universalChar?_control {c : Char} (h : c.toNat < 0x20) :
    universalChar? ['0', '0', hexDigit (c.toNat / 16), hexDigit (c.toNat % 16)] = some c := by
  have hzero : StringScan.hexValue? '0' = some 0 := by decide
  have hcode : 16 * (c.toNat / 16) + c.toNat % 16 = c.toNat := Nat.div_add_mod c.toNat 16
  have hvalid : c.toNat.isValidChar := c.valid
  simp [universalChar?, hzero, hexValue?_hexDigit (show c.toNat / 16 < 16 by omega),
    hexValue?_hexDigit (show c.toNat % 16 < 16 by omega), hcode, hvalid]

/-- A character reads back from its escape. -/
theorem readLiteral_escape (c : Char) (rest : List Char) :
    readLiteral (escape c ++ rest) =
      (readLiteral rest).map fun (text, behind) => (c :: text, behind) := by
  fun_cases escape c with
  | case8 _ _ _ _ _ _ _ hcontrol =>
    change readLiteral ('\\' :: 'u' :: '0' :: '0' :: hexDigit (c.toNat / 16) ::
      hexDigit (c.toNat % 16) :: rest) = _
    rw [readLiteral, universalChar?_control hcontrol]
    rfl
  | case9 hquote hslash hfeed =>
    change readLiteral (c :: rest) = _
    rw [readLiteral] <;> grind
  | _ =>
    subst c
    rfl

theorem readLiteral_flatMap_escape (text rest : List Char) :
    readLiteral (text.flatMap escape ++ '"' :: rest) = some (text, rest) := by
  induction text with
  | nil => rfl
  | cons c text ih =>
    rw [List.flatMap_cons, List.append_assoc, readLiteral_escape, ih]
    rfl

theorem readQuoted_quote (text : String) (rest : List Char) :
    readQuoted ((quote text).toList ++ rest) = some (text.toList, rest) := by
  have hread := readLiteral_flatMap_escape text.toList rest
  simpa [quote, quoteChars, readQuoted] using hread

/-- What is left of a text behind a literal is an end of the text. -/
theorem readLiteral_suffix {text value behind : List Char}
    (h : readLiteral text = some (value, behind)) : behind <:+ text := by
  fun_induction readLiteral text generalizing value with
  | case1 | case3 => cases h
  | case2 rest =>
    cases h
    exact List.suffix_cons _ _
  | case4 a b c d rest ih =>
    obtain ⟨char, _, h⟩ := Option.bind_eq_some_iff.mp h
    obtain ⟨_, hr, h⟩ := Option.map_eq_some_iff.mp h
    cases h
    exact (ih hr).trans ⟨['\\', 'u', a, b, c, d], rfl⟩
  | case5 letter rest _ ih =>
    obtain ⟨char, _, h⟩ := Option.bind_eq_some_iff.mp h
    obtain ⟨_, hr, h⟩ := Option.map_eq_some_iff.mp h
    cases h
    exact (ih hr).trans ⟨['\\', letter], rfl⟩
  | case6 char rest _ _ _ _ ih =>
    obtain ⟨_, hr, h⟩ := Option.map_eq_some_iff.mp h
    cases h
    exact (ih hr).trans (List.suffix_cons _ _)

theorem readQuoted_suffix {text value behind : List Char}
    (h : readQuoted text = some (value, behind)) : behind <:+ text := by
  unfold readQuoted at h
  split at h
  · exact (readLiteral_suffix h).trans (List.suffix_cons _ _)
  · cases h

end ProtocolBindings.Text

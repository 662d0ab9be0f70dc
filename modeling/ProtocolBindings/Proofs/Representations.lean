import ProtocolBindings.Proofs.Conversions
import ProtocolBindings.Proofs.Drafts

namespace ProtocolBindings

section Extremes

variable {ns : List Int} {bound : Int}

theorem le_min?_getD (h : bound ≤ 0) : bound ≤ ns.min?.getD 0 ↔ ∀ n ∈ ns, bound ≤ n := by
  cases hm : ns.min? with
  | none =>
    rw [List.min?_eq_none_iff.mp hm]
    simpa using h
  | some least => exact List.le_min?_iff hm

theorem max?_getD_le (h : 0 ≤ bound) : ns.max?.getD 0 ≤ bound ↔ ∀ n ∈ ns, n ≤ bound := by
  cases hm : ns.max? with
  | none =>
    rw [List.max?_eq_none_iff.mp hm]
    simpa using h
  | some greatest => exact List.max?_le_iff hm

theorem min?_getD_mem (h : ns.min?.getD 0 ≠ 0) : ns.min?.getD 0 ∈ ns := by
  cases hm : ns.min? with
  | none => simp [hm] at h
  | some least => exact List.min?_mem hm

theorem max?_getD_mem (h : ns.max?.getD 0 ≠ 0) : ns.max?.getD 0 ∈ ns := by
  cases hm : ns.max? with
  | none => simp [hm] at h
  | some greatest => exact List.max?_mem hm

end Extremes

namespace Underlying

variable {u : Underlying} {n : Int}

def spelling : Underlying → String
  | .uint8 => "std::uint8_t"
  | .uint32 => "std::uint32_t"
  | .int32 => "std::int32_t"

theorem text_eq_spelling (u : Underlying) : u.text = u.spelling := by
  cases u <;> rfl

def Holds : Underlying → Int → Prop
  | .uint8, n => 0 ≤ n ∧ n ≤ 255
  | .uint32, n => 0 ≤ n ∧ n ≤ 4294967295
  | .int32, n => -2147483648 ≤ n ∧ n ≤ 2147483647

theorem holds_iff : u.Holds n ↔ u.least ≤ n ∧ n ≤ u.greatest := by
  cases u <;> rfl

instance (u : Underlying) (n : Int) : Decidable (u.Holds n) :=
  decidable_of_iff _ holds_iff.symm

/-- What a cast to the type makes of a number: its bits are cut off at the width of the type. -/
def cast : Underlying → Int → Int
  | .uint8, n => (UInt8.ofInt n).toNat
  | .uint32, n => (UInt32.ofInt n).toNat
  | .int32, n => (Int32.ofInt n).toInt

theorem Holds.cast_eq (h : u.Holds n) : u.cast n = n := by
  cases u with
  | uint8 =>
    obtain ⟨hl, hg⟩ := h
    simp only [cast, UInt8.ofInt, UInt8.toNat_ofNat']
    omega
  | uint32 =>
    obtain ⟨hl, hg⟩ := h
    simp only [cast, UInt32.ofInt, UInt32.toNat_ofNat']
    omega
  | int32 =>
    obtain ⟨hl, hg⟩ := h
    exact Int32.toInt_ofInt_of_le (by omega) (by omega)

theorem Holds.wire (h : u.Holds n) : u.wire.Holds n := by
  cases u with
  | uint8 =>
    obtain ⟨hl, hg⟩ := h
    have hlow : -2147483648 ≤ n := by omega
    have hhigh : n ≤ 2147483647 := by omega
    exact ⟨hlow, hhigh⟩
  | uint32 => exact h
  | int32 => exact h

/-- The way over the wire and back leaves the values of a type as they are. -/
theorem Holds.cast_wire (h : u.Holds n) : u.cast (u.wire.cast n) = n := by
  rw [h.wire.cast_eq, h.cast_eq]

theorem wire_eq (u : Underlying) : u.wire = .uint32 ∨ u.wire = .int32 := by
  cases u <;> decide

theorem least_le_zero (u : Underlying) : u.least ≤ 0 := by
  cases u <;> decide

theorem zero_le_greatest (u : Underlying) : 0 ≤ u.greatest := by
  cases u <;> decide

/-- Positions fit into 8 bits if there are no more than 256 of them, and else into 32. -/
theorem holds_position {count i : Nat} (hc : count < 4294967296) (hi : i < count) :
    (if count ≤ 256 then uint8 else uint32).Holds i := by
  split
  · have hhigh : (i : Int) ≤ 255 := by omega
    exact ⟨Int.natCast_nonneg i, hhigh⟩
  · have hhigh : (i : Int) ≤ 4294967295 := by omega
    exact ⟨Int.natCast_nonneg i, hhigh⟩

end Underlying

namespace Enumeration

variable {e : Enumeration} {u : Underlying} {d : SchemaError}

def Declares (e : Enumeration) (literal : EnumLiteral) : Prop :=
  ∃ v ∈ e.values, v.value = literal

def HasIntegers (e : Enumeration) : Prop :=
  ∃ n, e.Declares (.integer n)

def HasStrings (e : Enumeration) : Prop :=
  ∃ text, e.Declares (.string text)

def Fits (e : Enumeration) (u : Underlying) : Prop :=
  ∀ n, e.Declares (.integer n) → u.Holds n.toInt

theorem mem_integers {n : Int} :
    n ∈ e.integers ↔ ∃ m, e.Declares (.integer m) ∧ m.toInt = n := by
  rw [integers, List.mem_filterMap]
  constructor
  · rintro ⟨v, hv, hn⟩
    cases hl : v.value with
    | integer m =>
      rw [hl] at hn
      exact ⟨m, ⟨v, hv, hl⟩, Option.some.inj hn⟩
    | string text =>
      rw [hl] at hn
      cases hn
  · rintro ⟨m, ⟨v, hv, hl⟩, rfl⟩
    exact ⟨v, hv, by rw [hl]; rfl⟩

theorem integers_eq_nil : e.integers = [] ↔ ¬ e.HasIntegers := by
  rw [List.eq_nil_iff_forall_not_mem]
  constructor
  · rintro h ⟨m, hm⟩
    exact h m.toInt (mem_integers.mpr ⟨m, hm, rfl⟩)
  · intro h n hn
    obtain ⟨m, hm, _⟩ := mem_integers.mp hn
    exact h ⟨m, hm⟩

def texts (e : Enumeration) : List String :=
  e.values.filterMap fun v =>
    match v.value with
    | .integer _ => none
    | .string text => some text

theorem texts_eq_nil : e.texts = [] ↔ ¬ e.HasStrings := by
  rw [texts, List.filterMap_eq_nil_iff]
  constructor
  · rintro h ⟨text, v, hv, hl⟩
    have hnone := h v hv
    rw [hl] at hnone
    cases hnone
  · intro h v hv
    cases hl : v.value with
    | integer n => rfl
    | string text => exact absurd ⟨text, v, hv, hl⟩ h

theorem length_texts (h : ¬ e.HasIntegers) : e.texts.length = e.values.length := by
  rw [texts, List.length_filterMap_eq_countP, List.countP_eq_length]
  intro v hv
  cases hl : v.value with
  | integer n => exact absurd ⟨n, v, hv, hl⟩ h
  | string text => rfl

/-- The strings are counted up to a multiple of the range of 32 bits. -/
theorem stringCount_eq (e : Enumeration) : e.stringCount = Int32.ofNat e.texts.length := by
  have hcount (values : List EnumValue) (start : Nat) :
      values.foldl (fun count v => if v.value.integer?.isSome then count else count + 1)
          (Int32.ofNat start) =
        Int32.ofNat (start + (texts { e with values }).length) := by
    induction values generalizing start with
    | nil => rfl
    | cons v values ih =>
      rw [List.foldl_cons]
      cases hl : v.value with
      | integer n =>
        have htexts : texts { e with values := v :: values } = texts { e with values } :=
          List.filterMap_cons_none (by rw [hl])
        rw [htexts]
        exact ih start
      | string text =>
        have htexts : texts { e with values := v :: values } =
            text :: texts { e with values } :=
          List.filterMap_cons_some (by rw [hl])
        have hnext : Int32.ofNat start + 1 = Int32.ofNat (start + 1) :=
          (Int32.ofNat_add start 1).symm
        rw [htexts, List.length_cons, ← Nat.succ_eq_add_one, Nat.add_succ, ← Nat.succ_add, ← ih,
          Nat.succ_eq_add_one, ← hnext]
        rfl
  rw [stringCount, ← Nat.zero_add e.texts.length]
  exact hcount e.values 0

section Counted

variable (h : e.texts.length < 2147483648)

include h

theorem toInt_stringCount : e.stringCount.toInt = e.texts.length := by
  rw [stringCount_eq]
  exact Int32.toInt_ofNat_of_lt h

theorem zero_lt_stringCount : 0 < e.stringCount ↔ e.HasStrings := by
  have hzero : (0 : Int32).toInt = 0 := by decide
  rw [Int32.lt_iff_toInt_lt, hzero, toInt_stringCount h, Int.natCast_pos,
    List.length_pos_iff_ne_nil, ne_eq, texts_eq_nil, not_not]

theorem stringCount_le : e.stringCount ≤ 256 ↔ e.texts.length ≤ 256 := by
  have hbound : (256 : Int32).toInt = 256 := by decide
  rw [Int32.le_iff_toInt_le, hbound, toInt_stringCount h]
  exact Int.ofNat_le

end Counted

theorem exists_negative_iff :
    (∃ n, e.Declares (.integer n) ∧ n.toInt < 0) ↔ e.integers.min?.getD 0 < 0 := by
  rw [← Int.not_le, le_min?_getD (Int.le_refl 0)]
  constructor
  · rintro ⟨m, hm, hneg⟩ h
    exact absurd (h m.toInt (mem_integers.mpr ⟨m, hm, rfl⟩)) (Int.not_le.mpr hneg)
  · intro h
    simp only [not_forall, Int.not_le] at h
    obtain ⟨n, hn, hneg⟩ := h
    obtain ⟨m, hm, rfl⟩ := mem_integers.mp hn
    exact ⟨m, hm, hneg⟩

/-- The least and the greatest integer tell whether all of them fit. -/
theorem fits_iff : e.Fits u ↔
    u.least ≤ e.integers.min?.getD 0 ∧ e.integers.max?.getD 0 ≤ u.greatest := by
  rw [le_min?_getD u.least_le_zero, max?_getD_le u.zero_le_greatest]
  constructor
  · intro h
    constructor
    · intro n hn
      obtain ⟨m, hm, rfl⟩ := mem_integers.mp hn
      exact (Underlying.holds_iff.mp (h m hm)).1
    · intro n hn
      obtain ⟨m, hm, rfl⟩ := mem_integers.mp hn
      exact (Underlying.holds_iff.mp (h m hm)).2
  · intro h m hm
    have hmem := mem_integers.mpr ⟨m, hm, rfl⟩
    exact Underlying.holds_iff.mpr ⟨h.1 _ hmem, h.2 _ hmem⟩

theorem integerUnderlying_eq_ok (h : e.integerUnderlying = .ok u) :
    e.Fits u ∧ (u = .uint8 ↔ e.Fits .uint8) ∧
      (u = .int32 ↔ ∃ n, e.Declares (.integer n) ∧ n.toInt < 0) := by
  rw [exists_negative_iff, fits_iff, fits_iff]
  revert h
  fun_cases integerUnderlying e with
  | case3 least greatest hneg hlow hhigh =>
    intro h
    cases h
    simp only [Underlying.least, Underlying.greatest, least, greatest] at hneg hlow hhigh ⊢
    simp only [reduceCtorEq, false_iff, true_iff]
    omega
  | case4 least greatest hneg hnarrow =>
    intro h
    cases h
    simp only [Underlying.least, Underlying.greatest, least, greatest] at hneg hnarrow ⊢
    simp only [reduceCtorEq, false_iff, true_iff]
    omega
  | case5 least greatest hneg hnarrow hwide =>
    intro h
    cases h
    simp only [Underlying.least, Underlying.greatest, least, greatest] at hneg hnarrow hwide ⊢
    simp only [reduceCtorEq, false_iff]
    omega
  | case1 | case2 | case6 =>
    intro h
    cases h

theorem integerUnderlying_eq_error (h : e.integerUnderlying = .error d) :
    ¬ e.Fits .uint32 ∧ ¬ e.Fits .int32 ∧
      ∃ n, e.Declares (.integer n) ∧ d = .enumValueOutOfRange e.name n.toInt := by
  have hnamed {n : Int} (hn : n ∈ e.integers) :
      ∃ m, e.Declares (.integer m) ∧
        SchemaError.enumValueOutOfRange e.name n = .enumValueOutOfRange e.name m.toInt := by
    obtain ⟨m, hm, rfl⟩ := mem_integers.mp hn
    exact ⟨m, hm, rfl⟩
  rw [fits_iff, fits_iff]
  revert h
  fun_cases integerUnderlying e with
  | case1 least hneg hlow =>
    intro h
    cases h
    simp only [Underlying.least, Underlying.greatest, least] at hneg hlow ⊢
    exact ⟨by omega, by omega, hnamed (min?_getD_mem (by omega))⟩
  | case2 least greatest hneg hlow hhigh =>
    intro h
    cases h
    simp only [Underlying.least, Underlying.greatest, least, greatest] at hneg hhigh ⊢
    exact ⟨by omega, by omega, hnamed (max?_getD_mem (by omega))⟩
  | case6 least greatest hneg hnarrow hwide =>
    intro h
    cases h
    simp only [Underlying.least, Underlying.greatest, greatest] at hwide ⊢
    exact ⟨by omega, by omega, hnamed (max?_getD_mem (by omega))⟩
  | case3 | case4 | case5 =>
    intro h
    cases h

theorem not_hasIntegers_of_string (h : e.representation = .ok (.string u)) :
    ¬ e.HasIntegers := by
  rw [← integers_eq_nil, ← List.isEmpty_iff]
  unfold representation at h
  split at h
  · split at h
    · assumption
    · cases h
  · obtain ⟨_, _, h⟩ := Except.map_eq_ok.mp h
    cases h

theorem representation_of_integers (hs : ¬ e.HasStrings) :
    e.representation = e.integerUnderlying.map .integer := by
  have hnone : e.texts.length = 0 := List.length_eq_zero_iff.mpr (texts_eq_nil.mpr hs)
  have hcount := zero_lt_stringCount (e := e) (by omega)
  unfold representation
  rw [if_neg (mt hcount.mp hs)]

section Counted

variable (h : e.texts.length < 2147483648)

include h

theorem representation_of_mixed (hi : e.HasIntegers) (hs : e.HasStrings) :
    e.representation = .error (.mixedEnum e.name) := by
  have hne : ¬ e.integers.isEmpty = true := by
    rw [List.isEmpty_iff, integers_eq_nil]
    exact not_not.mpr hi
  unfold representation
  rw [if_pos ((zero_lt_stringCount h).mpr hs), if_neg hne]

theorem representation_of_strings (hi : ¬ e.HasIntegers) (hs : e.HasStrings) :
    e.representation = .ok (.string (if e.values.length ≤ 256 then .uint8 else .uint32)) := by
  have hempty : e.integers.isEmpty = true := List.isEmpty_iff.mpr (integers_eq_nil.mpr hi)
  unfold representation
  rw [if_pos ((zero_lt_stringCount h).mpr hs), if_pos hempty]
  simp only [stringCount_le h, length_texts hi]

theorem representation_eq_mixedEnum :
    e.representation = .error (.mixedEnum e.name) ↔ e.HasIntegers ∧ e.HasStrings := by
  constructor
  · intro hr
    by_cases hs : e.HasStrings
    · refine ⟨?_, hs⟩
      by_contra hi
      rw [representation_of_strings h hi hs] at hr
      cases hr
    · rw [representation_of_integers hs] at hr
      cases hu : e.integerUnderlying with
      | ok u =>
        rw [hu] at hr
        cases hr
      | error d =>
        obtain ⟨_, _, n, _, rfl⟩ := integerUnderlying_eq_error hu
        rw [hu] at hr
        cases hr
  · rintro ⟨hi, hs⟩
    exact representation_of_mixed h hi hs

end Counted

theorem error_of_representation (hs : ¬ e.HasStrings) (h : e.representation = .error d) :
    ¬ e.Fits .uint32 ∧ ¬ e.Fits .int32 ∧
      ∃ n, e.Declares (.integer n) ∧ d = .enumValueOutOfRange e.name n.toInt := by
  rw [representation_of_integers hs] at h
  cases hu : e.integerUnderlying with
  | ok u =>
    rw [hu] at h
    cases h
  | error d =>
    rw [hu] at h
    cases h
    exact integerUnderlying_eq_error hu

theorem exists_outOfRange_iff (hs : ¬ e.HasStrings) :
    (∃ n, e.representation = .error (.enumValueOutOfRange e.name n)) ↔
      ¬ e.Fits .uint32 ∧ ¬ e.Fits .int32 := by
  constructor
  · rintro ⟨n, h⟩
    obtain ⟨hunsigned, hsigned, _⟩ := error_of_representation hs h
    exact ⟨hunsigned, hsigned⟩
  · rintro ⟨hunsigned, hsigned⟩
    rw [representation_of_integers hs]
    cases hu : e.integerUnderlying with
    | ok u =>
      obtain ⟨hfits, _, _⟩ := integerUnderlying_eq_ok hu
      -- whatever the type, it lies within one of the two ranges
      cases u with
      | uint8 => exact absurd (fun n hn => (hfits n hn).wire) hsigned
      | uint32 => exact absurd hfits hunsigned
      | int32 => exact absurd hfits hsigned
    | error d =>
      obtain ⟨_, _, n, _, rfl⟩ := integerUnderlying_eq_error hu
      exact ⟨n.toInt, rfl⟩

/-- Integers are converted by casts through the wire type of the type that is chosen. -/
theorem entry_of_representation {options : Options} {entry : Entry} {r : Representation}
    (hr : e.representation = .ok r) (hp : options.isPassThrough e.name = false)
    (h : e.entry options = .ok entry) :
    (e.documentation.elim [] Text.blockComment ++
        ["enum class " ++ e.name ++ " : " ++ r.underlying.spelling ++ " \x7b"] <+:
      entry.header.lines.toList) ∧
    ∀ u, r = .integer u → entry.implementation.lines.toList = castLines e.name u.wire.spelling := by
  rw [Enumeration.entry, if_neg (by simp [hp])] at h
  obtain ⟨representation, hr', h⟩ := Except.bind_eq_ok.mp h
  cases hr.symm.trans hr'
  obtain ⟨constants, _, h⟩ := Except.bind_eq_ok.mp h
  rw [← Underlying.text_eq_spelling]
  cases r with
  | integer u =>
    cases h
    refine ⟨e.prefix_declaration _ _, ?_⟩
    rintro _ ⟨⟩
    rw [← Underlying.text_eq_spelling]
    exact toList_lines_castConversion e.name u.wire
  | string u =>
    cases h
    exact ⟨e.prefix_declaration _ _, nofun⟩

/-- Integers and strings may not be mixed. Integers are refused just when no type of 32 bits has
them all, and the error names one of them; otherwise all of them are values of the type that the
enumeration is declared with and of the one that its conversions cast to. The positions of strings
are values of the type below them. -/
theorem representation_holds_values (e : Enumeration) (h : e.texts.length < 2147483648) :
    (e.representation = .error (.mixedEnum e.name) ↔ e.HasIntegers ∧ e.HasStrings) ∧
      (¬ e.HasStrings →
        ((∃ n, e.representation = .error (.enumValueOutOfRange e.name n)) ↔
          ¬ e.Fits .uint32 ∧ ¬ e.Fits .int32) ∧
        (∀ d, e.representation = .error d →
          ∃ n, e.Declares (.integer n) ∧ d = .enumValueOutOfRange e.name n.toInt) ∧
        ∀ r, e.representation = .ok r → ∃ u wire, r = .integer u ∧
          e.Fits u ∧ (u = .uint8 ↔ e.Fits .uint8) ∧
          (u = .int32 ↔ ∃ n, e.Declares (.integer n) ∧ n.toInt < 0) ∧
          (wire = .uint32 ∨ wire = .int32) ∧ e.Fits wire ∧
          (∀ n, e.Declares (.integer n) → u.cast (wire.cast n.toInt) = n.toInt) ∧
          ∀ options entry, options.isPassThrough e.name = false → e.entry options = .ok entry →
            (e.documentation.elim [] Text.blockComment ++
                ["enum class " ++ e.name ++ " : " ++ u.spelling ++ " \x7b"] <+:
              entry.header.lines.toList) ∧
            entry.implementation.lines.toList = castLines e.name wire.spelling) ∧
      (e.HasStrings → ¬ e.HasIntegers → ∃ u, e.representation = .ok (.string u) ∧
        (∀ i, i < e.values.length → u.Holds i) ∧
        ∀ options entry, options.isPassThrough e.name = false → e.entry options = .ok entry →
          e.documentation.elim [] Text.blockComment ++
              ["enum class " ++ e.name ++ " : " ++ u.spelling ++ " \x7b"] <+:
            entry.header.lines.toList) := by
  refine ⟨representation_eq_mixedEnum h, ?_, ?_⟩
  · intro hs
    refine ⟨exists_outOfRange_iff hs, ?_, ?_⟩
    · intro d hd
      exact (error_of_representation hs hd).2.2
    · intro r hr
      obtain ⟨u, hu, rfl⟩ := Except.map_eq_ok.mp ((representation_of_integers hs).symm.trans hr)
      obtain ⟨hfits, hnarrow, hsigned⟩ := integerUnderlying_eq_ok hu
      refine ⟨u, u.wire, rfl, hfits, hnarrow, hsigned, u.wire_eq, ?_, ?_, ?_⟩
      · intro n hn
        exact (hfits n hn).wire
      · intro n hn
        exact (hfits n hn).cast_wire
      · intro options entry hp hentry
        obtain ⟨hheader, himplementation⟩ := entry_of_representation hr hp hentry
        exact ⟨hheader, himplementation u rfl⟩
  · intro hs hi
    have hr := representation_of_strings h hi hs
    have hcount : e.values.length < 4294967296 := by
      rw [← length_texts hi]
      omega
    refine ⟨_, hr, fun i hlt => Underlying.holds_position hcount hlt, ?_⟩
    intro options entry hp hentry
    exact (entry_of_representation hr hp hentry).1

def extremes : Enumeration where
  name := "Level"
  values := [
    { name := "Lowest", value := .integer (-2147483648) },
    { name := "Highest", value := .integer 2147483647 }]

def shades : Enumeration where
  name := "Shade"
  values := [
    { name := "Light", value := .string "light" }, { name := "Dark", value := .string "dark" }]

theorem representation_holds_values_extremes :
    ¬ extremes.HasStrings ∧ extremes.representation = .ok (.integer .int32) ∧
      extremes.Fits .int32 ∧ ¬ extremes.Fits .uint8 ∧
      Underlying.int32.cast (Underlying.int32.cast (-2147483648)) = -2147483648 ∧
      (∀ entry, extremes.entry {} = .ok entry →
        entry.implementation.lines.toList = castLines "Level" "std::int32_t") ∧
      shades.HasStrings ∧ ¬ shades.HasIntegers ∧
      shades.representation = .ok (.string .uint8) ∧ Underlying.uint8.Holds 1 := by
  have hs : ¬ extremes.HasStrings := texts_eq_nil.mp (by decide)
  have hr : extremes.representation = .ok (.integer .int32) := by decide
  obtain ⟨_, hintegers, _⟩ := representation_holds_values extremes (by decide)
  obtain ⟨_, _, hok⟩ := hintegers hs
  obtain ⟨u, wire, hu, hfits, hnarrow, _, hwire, hfitsWire, hcast, hlines⟩ := hok _ hr
  cases hu
  have hnot : ¬ extremes.Fits .uint8 := by
    intro h
    cases hnarrow.mpr h
  obtain rfl : wire = .int32 := by
    refine hwire.resolve_left ?_
    rintro rfl
    exact absurd (hfitsWire (-2147483648) ⟨_, List.mem_cons_self, rfl⟩) (by decide)
  have htext : shades.HasStrings := ⟨"dark", _, List.mem_cons_of_mem _ List.mem_cons_self, rfl⟩
  have hnone : ¬ shades.HasIntegers := integers_eq_nil.mp rfl
  have hsr : shades.representation = .ok (.string .uint8) := by decide
  obtain ⟨_, _, hstrings⟩ := representation_holds_values shades (by decide)
  obtain ⟨v, hv, hplaces, _⟩ := hstrings htext hnone
  cases hsr.symm.trans hv
  exact ⟨hs, hr, hfits, hnot, hcast (-2147483648) ⟨_, List.mem_cons_self, rfl⟩,
    fun entry hentry => (hlines {} entry (by decide) hentry).2, htext, hnone, hsr,
    hplaces 1 (by decide)⟩

def crowd (count : Nat) : Enumeration where
  name := "Crowd"
  values := List.replicate count { name := "One", value := .string "one" }

section Crowd

variable {count : Nat}

theorem texts_crowd : (crowd count).texts = List.replicate count "one" := by
  rw [texts, crowd, List.filterMap_replicate]

theorem not_hasIntegers_crowd : ¬ (crowd count).HasIntegers := by
  rintro ⟨n, v, hv, hn⟩
  rw [List.eq_of_mem_replicate hv] at hn
  cases hn

theorem hasStrings_crowd (h : count ≠ 0) : (crowd count).HasStrings :=
  ⟨"one", _, List.mem_replicate.mpr ⟨h, rfl⟩, rfl⟩

theorem representation_crowd (h : ¬ 0 < Int32.ofNat count) :
    (crowd count).representation = .ok (.integer .uint8) := by
  have hnil := integers_eq_nil.mpr (@not_hasIntegers_crowd count)
  unfold representation
  rw [stringCount_eq, texts_crowd, List.length_replicate, if_neg h, integerUnderlying, hnil]
  rfl

end Crowd

/-- From half of the range of 32 bits on strings are no longer counted: they pass for integers, and
their positions have no place in the type below. -/
theorem representation_crowd_overflow :
    (crowd 2147483648).HasStrings ∧ ¬ (crowd 2147483648).HasIntegers ∧
      (crowd 2147483648).values.length = 2147483648 ∧
      (crowd 2147483648).representation = .ok (.integer .uint8) ∧
      ¬ Underlying.uint8.Holds 2147483647 :=
  ⟨hasStrings_crowd (by decide), not_hasIntegers_crowd, List.length_replicate,
    representation_crowd (by decide), by decide⟩

end Enumeration

end ProtocolBindings

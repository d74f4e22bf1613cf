import ProtocolFakes.Json.Reader
import ProtocolFakes.Json.Writer

/-!
# Strings and numbers in a JSON text

What the writer makes of a text is read as that text, whatever stands behind it
(`readString_quote`): each character is written as one unit, and no unit is half of a
surrogate pair.  Quotes, backslashes and control characters have a spelling of their own,
every other character stands for itself.

The digits of a natural number are read as that number (`readNumber_digits`), if nothing
stands behind them that goes on with a number (`EndsNumber`): digits begin with a zero for
the number zero alone.
-/

namespace ProtocolFakes.Json

set_option autoImplicit false

/-! ## Strings -/

theorem hexDigit?_hexChar : ∀ n < 16, hexDigit? (hexChar n) = some n := by decide

/-- The four digits of a control character spell its code. -/
theorem hex4?_control {code : Nat} (control : code < 0x20) :
    hex4? '0' '0' (hexChar (code / 16)) (hexChar (code % 16)) = some code := by
  have zero : hexDigit? '0' = some 0 := by decide
  rw [hex4?, zero, hexDigit?_hexChar _ (by omega), hexDigit?_hexChar _ (by omega)]
  simp only [bind, pure, Option.bind, Option.some.injEq]
  omega

/-- A control character is no half of a surrogate pair. -/
theorem unitOfCode_toNat {c : Char} (control : c.toNat < 0x20) : unitOfCode c.toNat = .char c := by
  rw [unitOfCode, if_neg (by omega), Char.ofNat_toNat]

/-- A character stands in a string behind a backslash, as the digits of its code or for
itself. -/
theorem escapeChar_cases (c : Char) :
    (∃ e, escapeChar c = ['\\', e] ∧ escaped? e = some c) ∨
    (c.toNat < 0x20 ∧ escapeChar c =
      ['\\', 'u', '0', '0', hexChar (c.toNat / 16), hexChar (c.toNat % 16)]) ∨
    (escapeChar c = [c] ∧ c ≠ '"' ∧ c ≠ '\\' ∧ 0x20 ≤ c.toNat) := by
  by_cases named : c ∈ ['"', '\\', '\x08', '\x0C', '\n', '\r', '\t']
  · simp only [List.mem_cons, List.not_mem_nil, or_false] at named
    rcases named with rfl | rfl | rfl | rfl | rfl | rfl | rfl
    all_goals exact .inl ⟨_, rfl, rfl⟩
  · simp only [List.mem_cons, List.not_mem_nil, or_false, not_or] at named
    obtain ⟨quote, backslash, b, f, n, r, t⟩ := named
    have rest : escapeChar c =
        if c.toNat < 0x20 then
          ['\\', 'u', '0', '0', hexChar (c.toNat / 16), hexChar (c.toNat % 16)]
        else [c] := by
      rw [escapeChar, if_neg quote, if_neg backslash, if_neg b, if_neg f, if_neg n, if_neg r,
        if_neg t]
    rw [rest]
    split
    · rename_i control
      exact .inr (.inl ⟨control, rfl⟩)
    · rename_i graphic
      exact .inr (.inr ⟨rfl, quote, backslash, by omega⟩)

/-- **A character is written as one unit.** -/
theorem readUnits_escapeChar (c : Char) (cs : List Char) :
    readUnits (escapeChar c ++ cs) =
      (readUnits cs).map fun (units, rest) => (.char c :: units, rest) := by
  rcases escapeChar_cases c with ⟨e, escaped, spells⟩ | ⟨control, digits⟩ |
    ⟨plain, notQuote, notBackslash, graphic⟩
  · rw [escaped]
    exact readUnits_escaped spells cs
  · rw [digits, ← unitOfCode_toNat control]
    exact readUnits_code (hex4?_control control) cs
  · rw [plain]
    exact readUnits_graphic notQuote notBackslash graphic cs

theorem readUnits_quoted (text rest : List Char) :
    readUnits (text.flatMap escapeChar ++ '"' :: rest) = some (text.map .char, rest) := by
  induction text with
  | nil => rfl
  | cons c text ih =>
      rw [List.flatMap_cons, List.append_assoc, readUnits_escapeChar, ih]
      rfl

theorem joinUnits_map_char (text : List Char) : joinUnits (text.map .char) = some text := by
  induction text with
  | nil => rfl
  | cons c text ih => rw [List.map_cons, joinUnits, ih]; rfl

/-- **A text reads back from its JSON string**, whatever stands behind it. -/
theorem readString_quote (s : String) (rest : List Char) :
    readString (s.toList.flatMap escapeChar ++ '"' :: rest) = some (some s, rest) := by
  rw [readString, readUnits_quoted]
  simp [joinUnits_map_char]

/-! ## Numbers -/

/-- Behind a value nothing goes on with a number. -/
def EndsNumber (rest : List Char) : Prop :=
  ∀ c ∈ rest.head?, c.isDigit = false ∧ c ≠ '.' ∧ c ≠ 'e' ∧ c ≠ 'E'

theorem EndsNumber.nil : EndsNumber [] := nofun

theorem endsNumber_cons {c : Char} {cs : List Char}
    (ends : c.isDigit = false ∧ c ≠ '.' ∧ c ≠ 'e' ∧ c ≠ 'E') : EndsNumber (c :: cs) := by
  intro d first
  obtain rfl := Option.some.inj first
  exact ends

section Ends

variable {rest : List Char} (ends : EndsNumber rest)
include ends

theorem EndsNumber.readFraction_eq : readFraction rest = some ([], rest) := by
  cases rest with
  | nil => rfl
  | cons c cs =>
      obtain ⟨-, notPoint, -⟩ := ends c rfl
      unfold readFraction
      split
      · exact absurd (List.cons.inj ‹_›).1 notPoint
      · rfl

theorem EndsNumber.readExponent_eq : readExponent rest = some ([], rest) := by
  cases rest with
  | nil => rfl
  | cons c cs =>
      obtain ⟨-, -, lower, upper⟩ := ends c rfl
      rw [readExponent.eq_def]
      simp [lower, upper]

theorem EndsNumber.readDigits_append {digits : List Char} (ne : digits ≠ [])
    (all : ∀ d ∈ digits, d.isDigit = true) : readDigits (digits ++ rest) = some (digits, rest) := by
  have front : rest.takeWhile Char.isDigit = [] ∧ rest.dropWhile Char.isDigit = rest := by
    cases rest with
    | nil => exact ⟨rfl, rfl⟩
    | cons c cs => simp [(ends c rfl).1]
  rw [readDigits, List.takeWhile_append_of_pos all, List.dropWhile_append_of_pos all, front.1,
    front.2, List.append_nil]
  cases digits with
  | nil => exact absurd rfl ne
  | cons d ds => rfl

end Ends

/-- Only the digits of zero begin with a zero. -/
theorem head?_toDigits_ne {n : Nat} (positive : 0 < n) : (Nat.toDigits 10 n).head? ≠ some '0' := by
  induction n using Nat.strongRecOn with
  | ind n ih =>
      rcases Nat.lt_or_ge n 10 with small | large
      · rw [Nat.toDigits_of_lt_base small]
        have digits : ∀ k < 10, 0 < k → [k.digitChar].head? ≠ some '0' := by decide
        exact digits n small positive
      · rw [Nat.toDigits_of_base_le (by omega) large,
          List.head?_append, Option.or_of_isSome (by simp)]
        exact ih (n / 10) (by omega) (by omega)

theorem decimalValue_toDigits (n : Nat) : decimalValue (Nat.toDigits 10 n) = n := by
  calc decimalValue (Nat.toDigits 10 n)
      = Nat.ofDigitChars 10 (Nat.toDigits 10 n) 0 := by
        simp only [decimalValue, Nat.ofDigitChars, Nat.mul_comm]
    _ = n := Nat.ofDigitChars_ten_toDigits

theorem readWhole_toDigits (n : Nat) {rest : List Char} (ends : EndsNumber rest) :
    readWhole (Nat.toDigits 10 n ++ rest) = some (Nat.toDigits 10 n, rest) := by
  rw [readWhole, ends.readDigits_append Nat.toDigits_ne_nil
    fun d member => Nat.isDigit_of_mem_toDigits (by omega) (by omega) member]
  rcases Nat.eq_zero_or_pos n with rfl | positive
  · rfl
  · have notZero := head?_toDigits_ne positive
    simp only [bind, Option.bind]
    split
    · rename_i zero
      rw [zero] at notZero
      exact absurd rfl notZero
    · rfl

/-- **A natural number reads back from its digits.** -/
theorem readNumber_digits (n : Nat) {rest : List Char} (ends : EndsNumber rest) :
    readNumber ((toString n).toList ++ rest) = some (.natural n, rest) := by
  rw [Nat.toString_eq_ofList_toDigits, String.toList_ofList]
  have unsigned : ∀ cs, Nat.toDigits 10 n ++ rest ≠ '-' :: cs := by
    intro cs sign
    have first : '-' ∈ Nat.toDigits 10 n := by
      cases digits : Nat.toDigits 10 n with
      | nil => exact absurd digits Nat.toDigits_ne_nil
      | cons d ds =>
          rw [digits] at sign
          rw [(List.cons.inj sign).1]
          exact List.mem_cons_self ..
    exact absurd (Nat.isDigit_of_mem_toDigits (by omega) (by omega) first) (by decide)
  unfold readNumber
  split
  rename_i sign cs signed
  split at signed
  · rename_i cs' minus
    exact absurd minus (unsigned cs')
  · obtain ⟨rfl, rfl⟩ := Prod.mk.inj signed
    simp only [readWhole_toDigits n ends, ends.readFraction_eq, ends.readExponent_eq, bind,
      Option.bind, List.isEmpty_nil, Bool.and_self, if_true, decimalValue_toDigits]
    rfl

end ProtocolFakes.Json

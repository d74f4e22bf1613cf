import ProtocolFakes.Proofs.Text.Words
import ProtocolFakes.Text.Natural

/-!
# Numbers spelled in decimal digits

Digits spell a number, whatever zeros it begins with (`SpellsDecimal`).  The reader checks at
each digit that the number so far is an offset.  As further digits never make it smaller, all
checks pass exactly when the last one does, and the number is read exactly when it is an offset
(`SpellsDecimal.readNatural_eq`).
-/

namespace ProtocolFakes

set_option autoImplicit false

/-- A text of digits, one at least, that spells a number. -/
structure SpellsDecimal (text : List Char) (n : Nat) : Prop where
  ne_nil : text ≠ []
  digits : ∀ c ∈ text, c.isDigit = true
  value : Nat.ofDigitChars 10 text 0 = n

instance (text : List Char) (n : Nat) : Decidable (SpellsDecimal text n) :=
  decidable_of_iff
    (text ≠ [] ∧ text.all Char.isDigit = true ∧ Nat.ofDigitChars 10 text 0 = n)
    ⟨fun ⟨ne, digits, value⟩ => ⟨ne, List.all_eq_true.1 digits, value⟩,
      fun spells => ⟨spells.ne_nil, List.all_eq_true.2 spells.digits, spells.value⟩⟩

theorem spellsDecimal_toString (n : Nat) : SpellsDecimal (toString n).toList n := by
  rw [Nat.toString_eq_ofList_toDigits, String.toList_ofList]
  exact ⟨Nat.toDigits_ne_nil,
    fun c member => Nat.isDigit_of_mem_toDigits (by omega) (by omega) member,
    Nat.ofDigitChars_ten_toDigits⟩

/-- Further digits never make a number smaller. -/
theorem le_ofDigitChars (cs : List Char) (value : Nat) : value ≤ Nat.ofDigitChars 10 cs value := by
  rw [Nat.ofDigitChars_eq_ofDigitChars_zero]
  exact Nat.le_trans (Nat.le_mul_of_pos_left _ (Nat.pow_pos (by omega))) (Nat.le_add_right ..)

/-- **A number is read digit by digit as long as it is an offset.** -/
theorem readDecimalFrom_eq {value : Nat} {cs : List Char} (within : value ≤ maxOffset)
    (digits : ∀ c ∈ cs, c.isDigit = true) :
    readDecimalFrom value cs =
      if Nat.ofDigitChars 10 cs value ≤ maxOffset then .ok (Nat.ofDigitChars 10 cs value)
      else .error .tooLarge := by
  induction cs generalizing value with
  | nil => rw [Nat.ofDigitChars_nil, if_pos within, readDecimalFrom]
  | cons c cs ih =>
      obtain ⟨digit, others⟩ := List.forall_mem_cons.1 digits
      rw [readDecimalFrom, if_pos digit, Nat.ofDigitChars_cons, Nat.mul_comm 10 value]
      dsimp only
      split
      · rename_i next
        exact ih next others
      · rename_i tooLarge
        have larger := le_ofDigitChars cs (value * 10 + (c.toNat - '0'.toNat))
        rw [if_neg (by omega)]

namespace SpellsDecimal

variable {text : List Char} {n : Nat} (spells : SpellsDecimal text n)
include spells

theorem not_mem {c : Char} (notDigit : c.isDigit = false) : c ∉ text := fun member => by
  rw [spells.digits c member] at notDigit
  cases notDigit

/-- **Digits read as the number that they spell, if it is an offset.** -/
theorem readNatural_eq :
    readNatural text = if n ≤ maxOffset then .ok n else .error .tooLarge := by
  have unsigned : readNatural text = readDecimalFrom 0 text := by
    have noSign := spells.not_mem (c := '+') (by decide)
    have ne := spells.ne_nil
    unfold readNatural
    split <;> simp_all
  rw [unsigned, readDecimalFrom_eq (Nat.zero_le _) spells.digits, spells.value]

theorem isWord : Text.IsWord text where
  ne_nil := spells.ne_nil
  not_blank c member := by
    have bounds : 48 ≤ c.toNat ∧ c.toNat ≤ 57 :=
      Char.isDigit_iff_toNat.1 (spells.digits c member)
    simp [Text.isBlank, Text.blankRanges]
    omega

end SpellsDecimal

end ProtocolFakes

import ProtocolFakes.Proofs.SourceRange.Shift
import ProtocolFakes.Proofs.Token.Layout

/-!
# Moving tokens

A token is moved by moving its range; its class and its text stay.  The pieces of a
source do not depend on where the source stands, so further on it has the same tokens,
moved (`tokenize_eq_map_shift`), and no range is clamped as long as its end is an offset
(`movable_of_mem_tokenize`).

Moved tokens keep their distances and are spelled as before (`Token.spell_map_shift`).
-/

namespace ProtocolFakes

set_option autoImplicit false

variable {base : Nat}

/-- The token moved forward by `base` bytes. -/
def Token.shift (base : Nat) (t : Token) : Token := { t with range := t.range.shift base }

@[simp] theorem Token.kind_shift (t : Token) : (t.shift base).kind = t.kind := rfl

@[simp] theorem Token.isPunct_shift (c : Char) (t : Token) :
    (t.shift base).isPunct c = t.isPunct c := rfl

@[simp] theorem Token.isIdentifier_shift (t : Token) :
    (t.shift base).isIdentifier = t.isIdentifier := rfl

@[simp] theorem Token.isMarker_shift (t : Token) : (t.shift base).isMarker = t.isMarker := rfl

theorem tokensFrom_add (start : Nat) (ps : List Piece) :
    tokensFrom (start + base) ps = (tokensFrom start ps).map (Token.shift base) := by
  induction ps generalizing start with
  | nil => rfl
  | cons p ps ih =>
      cases p with
      | gap kind cs =>
          rw [tokensFrom_gap, tokensFrom_gap, ← ih, Nat.add_right_comm]
      | token kind cs =>
          rw [tokensFrom_token, tokensFrom_token, List.map_cons, ← ih, Nat.add_right_comm]
          congr 1
          refine Token.ext rfl rfl (SourceRange.ext ?_ ?_)
          · change clampOffset (start + base) = clampOffset (clampOffset start + base)
            unfold clampOffset
            omega
          · exact (SourceRange.length_shift base (Token.laidOut start kind cs).range).symm

/-- **A source that stands further on has the same tokens, moved.** -/
theorem tokenize_eq_map_shift (source : String) (base : Nat) :
    tokenize source base = (tokenize source 0).map (Token.shift base) := by
  rw [tokenize, tokenize, ← tokensFrom_add, Nat.zero_add]

/-- The tokens of a source stay offsets if its end does. -/
theorem movable_of_mem_tokenize {source : String} {t : Token}
    (fits : base + Text.byteLength source.toList ≤ maxOffset) (member : t ∈ tokenize source 0) :
    t.range.Movable base := by
  obtain ⟨-, stopLe, tokenFits⟩ := bounds_of_mem_tokenize (by omega) member
  exact SourceRange.movable_of_stop_add_le tokenFits (by omega)

theorem Token.spellAfter_map_shift {ts : List Token} (movable : ∀ t ∈ ts, t.range.Movable base)
    (stop : Nat) :
    spellAfter (stop + base) (ts.map (Token.shift base)) = spellAfter stop ts := by
  induction ts generalizing stop with
  | nil => rfl
  | cons t ts ih =>
      have first := movable t (List.mem_cons_self ..)
      have later := ih (fun u member => movable u (.tail _ member)) t.range.stop
      rw [← SourceRange.stop_shift_of_movable first] at later
      have gap : stop + base < (t.range.shift base).location ↔ stop < t.range.location := by
        rw [SourceRange.location_shift first]
        omega
      simp only [List.map_cons, spellAfter, shift, gap, later]

/-- Moved tokens are spelled as before. -/
theorem Token.spell_map_shift {ts : List Token} (movable : ∀ t ∈ ts, t.range.Movable base) :
    Token.spell (ts.map (Token.shift base)) = Token.spell ts := by
  cases ts with
  | nil => rfl
  | cons t ts =>
      have later := spellAfter_map_shift (fun u member => movable u (.tail _ member)) t.range.stop
      rw [← SourceRange.stop_shift_of_movable (movable t (List.mem_cons_self ..))] at later
      simp only [List.map_cons, spell, shift, later]

end ProtocolFakes

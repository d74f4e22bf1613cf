import ProtocolFakes.Proofs.Text.Boundary
import ProtocolFakes.Proofs.Text.Search
import ProtocolFakes.Proofs.Token.Layout
import ProtocolFakes.Proofs.Token.Trivia
import ProtocolFakes.Token.Scanner

/-!
# Positions of the scanner

A position that stands between two parts of the source (`Placed`) is a boundary of it, so the
source can be sliced there (`Placed.rest?_eq`).  It moves over text that follows (`Placed.move`),
and behind an ASCII character the next byte shows the next character (`Placed.byteAt?_eq`).

From such a position the parts of a turn do what the cutter does to the characters behind it: a
token is ended with its characters (`emit_eq`), a line and a block comment are skipped
(`skipLine_eq`, `skipBlockComment_eq`), and a look back tells whether a line is continued
(`endsInBackslash_eq_true_iff`).
-/

namespace ProtocolFakes

set_option autoImplicit false

open Text (byteLength)

namespace Scanner

variable {source : String} {base pos : Nat} {before taken rest : List Char}

/-! ## Single bytes -/

theorem byteAt?_eq_some_iff {a : Char} (whole : source.toList = before ++ rest)
    (ascii : a.toNat < 128) :
    byteAt? source (byteLength before) = some a.toUInt8 ↔ rest.head? = some a := by
  have bytes : source.toByteArray.data.toList =
      before.flatMap String.utf8EncodeChar ++ rest.flatMap String.utf8EncodeChar := by
    rw [← String.utf8Encode_toList, List.utf8Encode, List.toList_data_toByteArray, whole,
      List.flatMap_append]
  have length := Text.length_flatMap_utf8EncodeChar before
  rw [byteAt?, ← Array.getElem?_toList, bytes, List.getElem?_append_right (by omega), length,
    Nat.sub_self, ← List.head?_eq_getElem?]
  cases rest with
  | nil => simp
  | cons c cs =>
      rw [List.flatMap_cons, List.head?_append, Option.or_eq_some_iff,
        Text.head?_utf8EncodeChar ascii]
      simp

/-! ## Positions -/

/-- A position behind two parts of a source, in front of the rest. -/
structure Placed (source : String) (pos : Nat) (before taken rest : List Char) : Prop where
  whole : source.toList = before ++ (taken ++ rest)
  pos_eq : pos = byteLength before + byteLength taken

namespace Placed

theorem boundary (placed : Placed source pos before taken rest) : Text.IsBoundary source pos :=
  Text.isBoundary_iff.2 ⟨before ++ taken, rest, by rw [placed.whole, List.append_assoc],
    by rw [placed.pos_eq, Text.byteLength_append]⟩

/-- The source can be cut at the position. -/
theorem split (placed : Placed source pos before taken rest) :
    Text.splitAtByte? pos source.toList = some (before ++ taken, rest) :=
  Text.splitAtByte?_eq_some_iff.2 ⟨by rw [placed.whole, List.append_assoc],
    by rw [placed.pos_eq, Text.byteLength_append]⟩

theorem rest?_eq (placed : Placed source pos before taken rest) :
    rest? source pos = some rest := by
  rw [rest?, placed.split, Option.map_some]

theorem move (more : List Char) (placed : Placed source pos before taken (more ++ rest)) :
    Placed source (pos + byteLength more) before (taken ++ more) rest where
  whole := by rw [placed.whole, List.append_assoc]
  pos_eq := by rw [placed.pos_eq, Text.byteLength_append, Nat.add_assoc]

/-- A position moves over a character. -/
theorem char {c : Char} (placed : Placed source pos before taken (c :: rest)) :
    Placed source (pos + c.utf8Size) before (taken ++ [c]) rest :=
  placed.move [c]

/-- Behind the character at the position, a look at one byte shows what follows. -/
theorem byteAt?_eq {c a : Char} (placed : Placed source pos before taken (c :: rest))
    (ascii : c.utf8Size = 1 ∧ a.toNat < 128) :
    byteAt? source (pos + 1) = some a.toUInt8 ↔ rest.head? = some a := by
  have next := placed.char
  rw [ascii.1] at next
  rw [next.pos_eq, ← Text.byteLength_append]
  exact byteAt?_eq_some_iff (next.whole.trans (List.append_assoc ..).symm) ascii.2

theorem utf8ByteSize_eq (placed : Placed source pos before taken rest) :
    source.utf8ByteSize = pos + byteLength rest := by
  rw [← Text.byteLength_toList, placed.whole, placed.pos_eq, Text.byteLength_append,
    Text.byteLength_append, Nat.add_assoc]

/-- The position lies in front of the end exactly if something is left. -/
theorem lt_iff (placed : Placed source pos before taken rest) :
    pos < source.utf8ByteSize ↔ rest ≠ [] := by
  rw [placed.utf8ByteSize_eq, ne_eq, ← Text.byteLength_eq_zero]
  omega

end Placed

/-! ## Parts of a turn -/

/-- The state behind a piece that began behind `before`. -/
def behind (s : Scanner) (base : Nat) (before : List Char) (q : Piece) : Scanner :=
  { s with
    pos := byteLength before + byteLength q.chars
    tokens := s.tokens ++ tokensFrom (base + byteLength before) [q]
    loop := .between }

theorem behind_gap (s : Scanner) (base : Nat) (before : List Char) (kind : GapKind)
    (chars : List Char) :
    s.behind base before (.gap kind chars) =
      { s with pos := byteLength before + byteLength chars, loop := .between } := by
  rw [behind, tokensFrom_gap, tokensFrom, List.append_nil]
  rfl

/-- A token is ended with its characters, laid out where it began. -/
theorem emit_eq {s : Scanner} (placed : Placed source s.pos before taken rest)
    (kind : TokenKind) :
    emit source base kind (byteLength before) s =
      some (s.behind base before (.token kind taken)) := by
  have text : Text.sliceBytes? (byteLength before) s.pos source.toList = some taken := by
    rw [placed.whole, placed.pos_eq]
    exact Text.sliceBytes?_append before taken rest
  have range : (SourceRange.ofBounds (byteLength before) s.pos).shift base =
      .clamped (base + byteLength before) (byteLength taken) := by
    rw [placed.pos_eq]
    ext
    · change clampOffset (clampOffset (byteLength before) + base) = clampOffset _
      unfold clampOffset
      omega
    · change clampOffset (clampOffset (byteLength before + byteLength taken - byteLength before)) =
        clampOffset _
      unfold clampOffset
      omega
  rw [emit, text, behind, tokensFrom_token, tokensFrom, Token.laidOut, Piece.chars, ← range,
    ← placed.pos_eq]
  rfl

theorem scanBlockComment_eq (text : List Char) :
    scanBlockComment text =
      match Text.splitAtFirst? ['*', '/'] text with
      | some (inside, after) => (inside ++ ['*', '/'], after)
      | none => (text, []) := by
  fun_induction scanBlockComment text with
  | case1 => rfl
  | case2 cs => rfl
  | case3 c cs goesOn ih =>
      have other : Text.dropPrefix? ['*', '/'] (c :: cs) = none := by
        rw [Text.dropPrefix?_eq_none_iff]
        rintro ⟨later, mark⟩
        obtain ⟨rfl, rfl⟩ := List.cons.inj mark
        exact goesOn later rfl rfl
      rw [ih, Text.splitAtFirst?, other]
      cases Text.splitAtFirst? ['*', '/'] cs <;> rfl

/-- A line is skipped up to the newline behind it or to the end of the source. -/
theorem skipLine_eq {s : Scanner} {line later : List Char}
    (placed : Placed source s.pos before taken (line ++ later)) (oneLine : '\n' ∉ line)
    (ends : ∀ d ∈ later.head?, d = '\n') :
    skipLine source s = some { s with pos := s.pos + byteLength line } := by
  rw [skipLine, placed.rest?_eq]
  cases later with
  | nil =>
      have absent : Text.splitAtFirst? ['\n'] (line ++ []) = none := by
        rw [Text.splitAtFirst?_eq_none_iff, List.append_nil]
        exact fun occurs => oneLine (occurs.subset (List.mem_singleton_self _))
      have last := placed.utf8ByteSize_eq
      rw [List.append_nil] at last
      simp only [bind, Option.bind, absent, last]
      rfl
  | cons d later =>
      obtain rfl := ends d rfl
      simp only [bind, Option.bind, Text.splitAtFirst?_singleton oneLine later]
      rfl

/-- A block comment is skipped with its closing mark, or up to the end of the source. -/
theorem skipBlockComment_eq {s : Scanner} {cs later : List Char}
    (placed : Placed source s.pos before taken ('/' :: '*' :: (cs ++ later)))
    (scanned : scanBlockComment (cs ++ later) = (cs, later)) :
    skipBlockComment source s = some { s with pos := s.pos + (2 + byteLength cs) } := by
  have next : Placed source (s.pos + 2) before (taken ++ ['/', '*']) (cs ++ later) :=
    placed.move ['/', '*']
  rw [scanBlockComment_eq] at scanned
  rw [skipBlockComment, next.rest?_eq]
  cases found : Text.splitAtFirst? ['*', '/'] (cs ++ later) with
  | none =>
      rw [found] at scanned
      obtain rfl := (Prod.mk.inj scanned).2
      have last := next.utf8ByteSize_eq
      rw [List.append_nil] at last found
      simp only [bind, Option.bind, List.append_nil, found, last, Nat.add_assoc]
      rfl
  | some cut =>
      obtain ⟨inside, after⟩ := cut
      rw [found] at scanned
      obtain ⟨rfl, rfl⟩ := Prod.mk.inj scanned
      have length : byteLength (inside ++ ['*', '/']) = byteLength inside + 2 :=
        Text.byteLength_append ..
      have total : byteLength inside + 4 = 2 + (byteLength inside + 2) := by omega
      simp only [bind, Option.bind, found, length, total]
      rfl

theorem endsInBackslash_eq_true_iff {text : List Char} :
    endsInBackslash text = true ↔ EndsInBackslash text := by
  induction text using List.reverseRecOn with
  | nil => exact iff_of_false (by decide) not_endsInBackslash_nil
  | append_singleton text c ih =>
      rw [endsInBackslash_concat, ← ih, endsInBackslash, endsInBackslash, List.reverse_append,
        List.reverse_singleton, List.singleton_append, List.dropWhile_cons]
      by_cases isReturn : c = '\r'
      · simp [isReturn]
      · simp [isReturn]

end Scanner

end ProtocolFakes

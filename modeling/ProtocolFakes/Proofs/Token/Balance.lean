import ProtocolFakes.Selector.Declaration

/-!
# Balanced parentheses

The depth of a token list is the number of parentheses it opens less the number
it closes.  A list is balanced when it closes all it opens and no beginning of
it closes more than it opened.

**Groups.** The group reader finds the one balanced list in front of a closing
parenthesis: it answers such a split (`balanced_of_splitGroup?`) and, given one,
answers exactly that (`splitGroup?_append`).  A token list has therefore at most
one such split (`balanced_split_unique`).

Depth sees only the class and the text of a token, so moving tokens about in
their document keeps them balanced (`Balanced.of_lexemes_eq`).
-/

namespace ProtocolFakes

set_option autoImplicit false

namespace Token

/-- The class and the text of a token: what it is, wherever it stands. -/
def lexeme (t : Token) : TokenKind × String := (t.kind, t.text)

theorem isPunct_eq_of_lexeme_eq {t u : Token} (same : t.lexeme = u.lexeme) (c : Char) :
    t.isPunct c = u.isPunct c := by
  obtain ⟨sameKind, sameText⟩ := Prod.mk.inj same
  unfold isPunct
  rw [sameKind, sameText]

theorem isIdentifier_eq_of_lexeme_eq {t u : Token} (same : t.lexeme = u.lexeme) :
    t.isIdentifier = u.isIdentifier := by
  unfold isIdentifier
  rw [(Prod.mk.inj same).1]

/-- A token is no more than one punctuation character. -/
theorem isPunct_unique {t : Token} {c d : Char} (isC : t.isPunct c = true)
    (isD : t.isPunct d = true) : c = d := by
  simp only [isPunct, Bool.and_eq_true, beq_iff_eq] at isC isD
  exact (List.cons.inj (isC.2.symm.trans isD.2)).1

theorem text_eq_of_isPunct {t : Token} {c : Char} (isC : t.isPunct c = true) :
    t.text = c.toString := by
  rw [isPunct, Bool.and_eq_true, beq_iff_eq, beq_iff_eq] at isC
  exact String.toList_inj.1 (isC.2.trans (String.toList_singleton c).symm)

theorem isPunct_eq_false {t : Token} {c d : Char} (isC : t.isPunct c = true) (differ : c ≠ d) :
    t.isPunct d = false := by
  cases isD : t.isPunct d with
  | false => rfl
  | true => exact absurd (isPunct_unique isC isD) differ

theorem isPunct_eq_false_of_isIdentifier {t : Token} (identifier : t.isIdentifier = true)
    (c : Char) : t.isPunct c = false := by
  rw [isIdentifier, beq_iff_eq] at identifier
  simp [isPunct, identifier]

theorem isIdentifier_eq_false_of_isPunct {t : Token} {c : Char} (isC : t.isPunct c = true) :
    t.isIdentifier = false := by
  cases identifier : t.isIdentifier with
  | false => rfl
  | true => exact absurd isC (by simp [isPunct_eq_false_of_isIdentifier identifier c])

/-- What a token adds to the depth. -/
def nesting (t : Token) : Int :=
  if t.isPunct '(' then 1 else if t.isPunct ')' then -1 else 0

theorem nesting_eq_of_lexeme_eq {t u : Token} (same : t.lexeme = u.lexeme) :
    t.nesting = u.nesting := by
  unfold nesting
  rw [isPunct_eq_of_lexeme_eq same, isPunct_eq_of_lexeme_eq same]

end Token

/-! ## Depth -/

/-- How many parentheses a token list leaves open. -/
def depth : List Token → Int
  | [] => 0
  | t :: ts => t.nesting + depth ts

@[simp] theorem depth_nil : depth [] = 0 := rfl

@[simp] theorem depth_cons (t : Token) (ts : List Token) :
    depth (t :: ts) = t.nesting + depth ts := rfl

/-- Tokens that bring an open depth to zero and never below it. -/
structure BalancedFrom (level : Int) (ts : List Token) : Prop where
  settled : level + depth ts = 0
  sane : ∀ p, p <+: ts → 0 ≤ level + depth p

/-- Tokens that close every parenthesis they open, and no other. -/
def Balanced (ts : List Token) : Prop := BalancedFrom 0 ts

theorem balancedFrom_nil : BalancedFrom 0 [] where
  settled := rfl
  sane p isPrefix := by simp [List.prefix_nil.1 isPrefix]

theorem balancedFrom_cons_iff {level : Int} {t : Token} {ts : List Token} :
    BalancedFrom level (t :: ts) ↔ 0 ≤ level ∧ BalancedFrom (level + t.nesting) ts := by
  constructor
  · intro balanced
    have start := balanced.sane [] List.nil_prefix
    refine ⟨by simpa using start, ?_, ?_⟩
    · have settled := balanced.settled
      rw [depth_cons] at settled
      omega
    · intro p isPrefix
      have later := balanced.sane (t :: p) (List.cons_prefix_cons.2 ⟨rfl, isPrefix⟩)
      rw [depth_cons] at later
      omega
  · rintro ⟨start, balanced⟩
    refine ⟨?_, ?_⟩
    · have settled := balanced.settled
      rw [depth_cons]
      omega
    · intro p isPrefix
      rcases List.prefix_cons_iff.1 isPrefix with rfl | ⟨q, rfl, later⟩
      · simpa using start
      · have sane := balanced.sane q later
        rw [depth_cons]
        omega

theorem balancedFrom_nil_iff {level : Int} : BalancedFrom level [] ↔ level = 0 := by
  constructor
  · exact fun balanced => by simpa using balanced.settled
  · rintro rfl
    exact balancedFrom_nil

instance decidableBalancedFrom :
    (level : Int) → (ts : List Token) → Decidable (BalancedFrom level ts)
  | _, [] => decidable_of_iff' _ balancedFrom_nil_iff
  | level, t :: ts =>
      have := decidableBalancedFrom (level + t.nesting) ts
      decidable_of_iff' _ balancedFrom_cons_iff

instance (ts : List Token) : Decidable (Balanced ts) := decidableBalancedFrom 0 ts

theorem BalancedFrom.nonneg {level : Int} {ts : List Token} (balanced : BalancedFrom level ts) :
    0 ≤ level := by
  simpa using balanced.sane [] List.nil_prefix

/-- Being balanced is a matter of the lexemes alone. -/
theorem BalancedFrom.of_lexemes_eq {level : Int} {ts us : List Token}
    (balanced : BalancedFrom level ts) (same : ts.map Token.lexeme = us.map Token.lexeme) :
    BalancedFrom level us := by
  induction ts generalizing level us with
  | nil =>
      rw [List.map_nil, eq_comm, List.map_eq_nil_iff] at same
      exact same ▸ balanced
  | cons t ts ih =>
      obtain ⟨u, us, rfl, sameHead, sameTail⟩ := List.map_eq_cons_iff.1 same.symm
      obtain ⟨start, rest⟩ := balancedFrom_cons_iff.1 balanced
      rw [← Token.nesting_eq_of_lexeme_eq sameHead] at rest
      exact balancedFrom_cons_iff.2 ⟨start, ih rest sameTail.symm⟩

theorem Balanced.of_lexemes_eq {ts us : List Token} (balanced : Balanced ts)
    (same : ts.map Token.lexeme = us.map Token.lexeme) : Balanced us :=
  BalancedFrom.of_lexemes_eq balanced same

theorem depth_append (ts us : List Token) : depth (ts ++ us) = depth ts + depth us := by
  induction ts with
  | nil => simp
  | cons t ts ih => rw [List.cons_append, depth_cons, depth_cons, ih, Int.add_assoc]

/-- **What balanced tokens open they close further behind.** -/
theorem Balanced.exists_close {before after : List Token} {opening : Token}
    (balanced : Balanced (before ++ opening :: after)) (isOpen : opening.isPunct '(' = true) :
    ∃ t ∈ after, t.isPunct ')' = true := by
  apply Classical.byContradiction
  intro none
  have flat : ∀ t ∈ after, 0 ≤ t.nesting := by
    intro t member
    have notClose : ¬ t.isPunct ')' = true := fun closes => none ⟨t, member, closes⟩
    rw [Token.nesting, if_neg notClose]
    split <;> decide
  have rises : 0 ≤ depth after := by
    clear balanced none
    induction after with
    | nil => simp
    | cons t ts ih =>
        have first := flat t (List.mem_cons_self ..)
        have later := ih fun u member => flat u (List.mem_cons_of_mem _ member)
        rw [depth_cons]
        omega
  have front := balanced.sane before (List.prefix_append ..)
  have settled := balanced.settled
  rw [depth_append, depth_cons, Token.nesting, if_pos isOpen] at settled
  omega

/-! ## Groups -/

/-- What the group reader takes closes exactly the groups that are open. -/
theorem balancedFrom_of_splitGroup? {level : Nat} {ts inner rest : List Token} {close : Token}
    (found : splitGroup? level ts = some (inner, close, rest)) :
    BalancedFrom level inner ∧ close.isPunct ')' = true := by
  fun_induction splitGroup? level ts generalizing inner with
  | case1 => cases found
  | case2 level t ts isOpen ih =>
      obtain ⟨⟨i, c, r⟩, later, same⟩ := Option.map_eq_some_iff.1 found
      cases same
      obtain ⟨balanced, isClose⟩ := ih later
      refine ⟨balancedFrom_cons_iff.2 ⟨Int.natCast_nonneg _, ?_⟩, isClose⟩
      simpa [Token.nesting, isOpen] using balanced
  | case3 t ts _ isClose =>
      cases found
      exact ⟨balancedFrom_nil, isClose⟩
  | case4 t ts notOpen isClose level ih =>
      obtain ⟨⟨i, c, r⟩, later, same⟩ := Option.map_eq_some_iff.1 found
      cases same
      obtain ⟨balanced, isClose'⟩ := ih later
      refine ⟨balancedFrom_cons_iff.2 ⟨Int.natCast_nonneg _, ?_⟩, isClose'⟩
      have nested : t.nesting = -1 := by simp [Token.nesting, notOpen, isClose]
      have outer : ((level + 1 : Nat) : Int) + t.nesting = level := by omega
      rwa [outer]
  | case5 level t ts notOpen notClose ih =>
      obtain ⟨⟨i, c, r⟩, later, same⟩ := Option.map_eq_some_iff.1 found
      cases same
      obtain ⟨balanced, isClose⟩ := ih later
      refine ⟨balancedFrom_cons_iff.2 ⟨Int.natCast_nonneg _, ?_⟩, isClose⟩
      simpa [Token.nesting, notOpen, notClose] using balanced

/-- **The group reader answers a balanced group** and the parenthesis that closes it. -/
theorem balanced_of_splitGroup? {ts inner rest : List Token} {close : Token}
    (found : splitGroup? 0 ts = some (inner, close, rest)) :
    Balanced inner ∧ close.isPunct ')' = true := balancedFrom_of_splitGroup? found

theorem splitGroup?_append_of_balancedFrom {level : Nat} {inner : List Token} {close : Token}
    (balanced : BalancedFrom level inner) (isClose : close.isPunct ')' = true)
    (rest : List Token) :
    splitGroup? level (inner ++ close :: rest) = some (inner, close, rest) := by
  have notOpen : close.isPunct '(' = false := Token.isPunct_eq_false isClose (by decide)
  induction inner generalizing level with
  | nil =>
      have settled := balanced.settled
      obtain rfl : level = 0 := by simpa using settled
      simp [splitGroup?, notOpen, isClose]
  | cons t inner ih =>
      obtain ⟨_, later⟩ := balancedFrom_cons_iff.1 balanced
      rw [List.cons_append, splitGroup?.eq_def]
      by_cases opens : t.isPunct '(' = true
      · have deeper : BalancedFrom ((level + 1 : Nat) : Int) inner := by
          simpa [Token.nesting, opens] using later
        simp [opens, ih deeper]
      · by_cases closes : t.isPunct ')' = true
        · -- a closing parenthesis needs an open one, so the level is not zero here
          have nested : t.nesting = -1 := by simp [Token.nesting, opens, closes]
          rw [nested] at later
          obtain ⟨outer, rfl⟩ : ∃ outer, level = outer + 1 :=
            ⟨level - 1, by have := later.nonneg; omega⟩
          have inside : ((outer + 1 : Nat) : Int) + -1 = outer := by omega
          rw [inside] at later
          simp [opens, closes, ih later]
        · have same : BalancedFrom level inner := by
            simpa [Token.nesting, opens, closes] using later
          simp [opens, closes, ih same]

/-- **Every balanced group is found**, whatever follows it. -/
theorem splitGroup?_append {inner : List Token} {close : Token} (balanced : Balanced inner)
    (isClose : close.isPunct ')' = true) (rest : List Token) :
    splitGroup? 0 (inner ++ close :: rest) = some (inner, close, rest) :=
  splitGroup?_append_of_balancedFrom balanced isClose rest

/-- **A group ends in one place only.** -/
theorem balanced_split_unique {inner inner' rest rest' : List Token} {close close' : Token}
    (balanced : Balanced inner) (isClose : close.isPunct ')' = true)
    (balanced' : Balanced inner') (isClose' : close'.isPunct ')' = true)
    (same : inner ++ close :: rest = inner' ++ close' :: rest') :
    inner = inner' ∧ close = close' ∧ rest = rest' := by
  have found := splitGroup?_append balanced isClose rest
  rw [same, splitGroup?_append balanced' isClose' rest'] at found
  simpa [eq_comm] using found

end ProtocolFakes

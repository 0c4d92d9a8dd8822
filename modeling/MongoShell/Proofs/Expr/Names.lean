import Mathlib.Tactic.Common
import MongoShell.Proofs.Expr.Grammar
import MongoShell.Proofs.Token.Excerpt
import MongoShell.Statement

/-! The names that an expression accesses are words of its source, and no word has a point in it. -/

namespace MongoShell

/-! Words -/

theorem isIdentifierPart_of_isIdentifierStart {c : Char} (start : isIdentifierStart c = true) :
    isIdentifierPart c = true := by
  simp only [isIdentifierStart, isIdentifierPart, Char.isAlphanum, Bool.or_eq_true] at start ⊢
  tauto

/-- Only a word is cut off as an identifier. -/
theorem front_identifier {c : Char} {text : List Char} {cut : Cut}
    (read : front c text = .ok ⟨.token .identifier, cut⟩) :
    ∀ d ∈ cut.text, isIdentifierPart d = true := by
  unfold front at read
  split at read
  · rename_i start
    cases read
    intro d member
    cases member with
    | head => exact isIdentifierPart_of_isIdentifierStart start
    | tail _ member => exact List.mem_takeWhile_imp member
  -- Whatever starts otherwise is of another kind: a number, a string, a slash, a blank or a mark.
  split at read
  · simp only at read
    split at read <;> cases read
  split at read
  · split at read <;> cases read
  split at read
  · unfold slashFront at read
    split at read
    · cases read
    · split at read <;> cases read
    · split at read <;> cases read
  split at read
  · cases read
  split at read
  · rename_i kind mark
    cases read
    unfold TokenKind.ofMark? at mark
    split at mark <;> cases mark
  · cases read

theorem Stretch.identifier {place : Position} {text rest : List Char} {tokens : List Token}
    (stretch : Stretch place text rest tokens) {t : Token} (member : t ∈ tokens)
    (word : t.kind = .identifier) : ∀ c ∈ t.text.toList, isIdentifierPart c = true := by
  induction stretch with
  | nil => cases member
  | trivia starts others ih => exact ih member
  | token starts others ih =>
    cases member with
    | tail _ member => exact ih member
    | head =>
      obtain ⟨c, text, rfl, read⟩ := starts
      obtain rfl := word
      rw [String.toList_ofList]
      exact front_identifier read

/-- The identifiers of a source consist of the characters that may be part of one. -/
theorem identifier_of_scanFrom {place : Position} {text : List Char} {tokens : List Token}
    (scanned : scanFrom place text = .ok tokens) {t : Token} (member : t ∈ tokens)
    (word : t.kind = .identifier) : ∀ c ∈ t.text.toList, isIdentifierPart c = true := by
  obtain ⟨own, rfl, stretch⟩ := stretch_of_scanFrom scanned
  rcases List.mem_append.mp member with inside | last
  · exact stretch.identifier inside word
  · obtain rfl := List.mem_singleton.mp last
    cases word

/-! Accessed names -/

namespace Grammar

theorem Word.accesses_eq {text root : String} {tree : Expr} {gathered accesses : List Access}
    (word : Word text tree) (found : tree.accesses? gathered = some (root, accesses)) :
    accesses = gathered := by
  cases word <;> cases found
  rfl

mutual

/-- A name that an expression accesses is an identifier among its tokens. -/
theorem Expression.member_word {tokens : List Token} {tree : Expr} {gathered accesses : List Access}
    {root name : String} (expression : Expression tokens tree)
    (found : tree.accesses? gathered = some (root, accesses))
    (member : Access.member name ∈ accesses) :
    Access.member name ∈ gathered ∨ ∃ t ∈ tokens, t.kind = .identifier ∧ t.text = name :=
  match expression with
  | .signed number => by cases number <;> cases found
  | .operand value => value.member_word found member

theorem Operand.member_word {bare : Bool} {tokens : List Token} {tree : Expr}
    {gathered accesses : List Access} {root name : String} (value : Operand bare tokens tree)
    (found : tree.accesses? gathered = some (root, accesses))
    (member : Access.member name ∈ accesses) :
    Access.member name ∈ gathered ∨ ∃ t ∈ tokens, t.kind = .identifier ∧ t.text = name :=
  match value with
  | .word _ word => .inl (word.accesses_eq found ▸ member)
  | .string .. => by cases found
  | .number .. => by cases found
  | .regex .. => by cases found
  | .object .. => by cases found
  | .array .. => by cases found
  | .construct .. => by cases found
  | .constructCall .. => by cases found
  | .group left inner right => by
    refine (inner.member_word found member).imp_right ?_
    rintro ⟨t, inside, word⟩
    exact ⟨t, by simp [inside], word⟩
  | @Operand.member _ _ _ _ key target isDot isName => by
    rcases target.member_word found member with gathered | ⟨t, inside, word⟩
    · cases gathered with
      | head => exact .inr ⟨key, by simp, isName, rfl⟩
      | tail _ gathered => exact .inl gathered
    · exact .inr ⟨t, by simp [inside], word⟩
  | .index target left inner right => by
    rcases target.member_word found member with gathered | ⟨t, inside, word⟩
    · cases gathered with
      | tail _ gathered => exact .inl gathered
    · exact .inr ⟨t, by simp [inside], word⟩
  | .call target left inner right => by
    rcases target.member_word found member with gathered | ⟨t, inside, word⟩
    · cases gathered with
      | tail _ gathered => exact .inl gathered
    · exact .inr ⟨t, by simp [inside], word⟩

end

end Grammar

end MongoShell

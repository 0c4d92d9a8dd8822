import MongoShell.Proofs.Expr.Grammar
import MongoShell.Proofs.Token.Excerpt

/-! The grammar looks at the kinds and texts of tokens and at nothing else, so tokens that say the
same derive the same trees wherever they stand. -/

namespace MongoShell

/-- Lists of tokens that say the same. -/
def SameWords (others tokens : List Token) : Prop :=
  others.map Token.word = tokens.map Token.word

namespace SameWords

theorem nil_right {others : List Token} (same : SameWords others []) : others = [] :=
  List.map_eq_nil_iff.mp same

theorem cons_right {others tokens : List Token} {t : Token}
    (same : SameWords others (t :: tokens)) :
    ∃ u rest, others = u :: rest ∧ u.kind = t.kind ∧ u.text = t.text ∧ SameWords rest tokens := by
  obtain ⟨u, rest, rfl, first, behind⟩ := List.map_eq_cons_iff.mp same
  obtain ⟨kind, text⟩ := Prod.mk.inj first
  exact ⟨u, rest, rfl, kind, text, behind⟩

theorem single_right {others : List Token} {t : Token} (same : SameWords others [t]) :
    ∃ u, others = [u] ∧ u.kind = t.kind ∧ u.text = t.text := by
  obtain ⟨u, rest, rfl, kind, text, behind⟩ := same.cons_right
  exact ⟨u, by rw [behind.nil_right], kind, text⟩

theorem append_right {others first second : List Token}
    (same : SameWords others (first ++ second)) :
    ∃ front back, others = front ++ back ∧ SameWords front first ∧ SameWords back second := by
  rw [SameWords, List.map_append] at same
  obtain ⟨front, back, rfl, before, behind⟩ := List.map_eq_append_iff.mp same
  exact ⟨front, back, rfl, before, behind⟩

/-- Tokens and a last one. -/
theorem snoc_right {others tokens : List Token} {t : Token}
    (same : SameWords others (tokens ++ [t])) :
    ∃ own u, others = own ++ [u] ∧ SameWords own tokens ∧ u.kind = t.kind := by
  obtain ⟨own, back, rfl, inner, last⟩ := same.append_right
  obtain ⟨u, rfl, kind, -⟩ := last.single_right
  exact ⟨own, u, rfl, inner, kind⟩

end SameWords

namespace Grammar

theorem Unsigned.ofWord {t u : Token} (unsigned : Unsigned t) (kind : u.kind = t.kind)
    (text : u.text = t.text) : Unsigned u := by
  rwa [Unsigned, kind, text]

theorem Key.ofWord {t u : Token} {name : String} (key : Key t name) (kind : u.kind = t.kind)
    (text : u.text = t.text) : Key u name := by
  cases key with
  | plain isPlain =>
    rw [← text]
    exact .plain (by rwa [kind])
  | quoted isString contents => exact .quoted (kind.trans isString) (by rwa [text])

/-- The two words of a construction, and what is behind them. -/
theorem Constructs.ofWords {word name : Token} {others tokens : List Token}
    (words : Constructs word name) (same : SameWords others (word :: name :: tokens)) :
    ∃ first second rest, others = first :: second :: rest ∧ Constructs first second ∧
      second.text = name.text ∧ SameWords rest tokens := by
  obtain ⟨isWord, isNew, isName⟩ := words
  obtain ⟨first, rest, rfl, kind, text, behind⟩ := same.cons_right
  obtain ⟨second, rest, rfl, kind', text', behind⟩ := behind.cons_right
  exact ⟨first, second, rest, rfl, ⟨kind.trans isWord, text.trans isNew, kind'.trans isName⟩, text',
    behind⟩

theorem Signed.ofWords {tokens others : List Token} {tree : Expr} (signed : Signed tokens tree)
    (same : SameWords others tokens) : Signed others tree := by
  cases signed with
  | plus isSign unsigned =>
    obtain ⟨sign, rest, rfl, kind, -, behind⟩ := same.cons_right
    obtain ⟨number, rfl, kind', text⟩ := behind.single_right
    rw [← text]
    exact .plus (kind.trans isSign) (unsigned.ofWord kind' text)
  | minus isSign unsigned =>
    obtain ⟨sign, rest, rfl, kind, -, behind⟩ := same.cons_right
    obtain ⟨number, rfl, kind', text⟩ := behind.single_right
    rw [← text]
    exact .minus (kind.trans isSign) (unsigned.ofWord kind' text)

mutual

theorem Expression.ofWords {tokens others : List Token} {tree : Expr}
    (same : SameWords others tokens) : Expression tokens tree → Expression others tree
  | .signed number => .signed (number.ofWords same)
  | .operand value => .operand (value.ofWords same)

theorem Operand.ofWords {bare : Bool} {tokens others : List Token} {tree : Expr}
    (same : SameWords others tokens) : Operand bare tokens tree → Operand bare others tree
  | .word kind value => by
    obtain ⟨t, rfl, alike, text⟩ := same.single_right
    exact .word (alike.trans kind) (by rwa [text])
  | .string kind contents => by
    obtain ⟨t, rfl, alike, text⟩ := same.single_right
    exact .string (alike.trans kind) (by rwa [text])
  | .number kind => by
    obtain ⟨t, rfl, alike, text⟩ := same.single_right
    rw [← text]
    exact .number (alike.trans kind)
  | .regex kind => by
    obtain ⟨t, rfl, alike, text⟩ := same.single_right
    rw [← text]
    exact .regex (alike.trans kind)
  | .group left inner right => by
    obtain ⟨opening, rest, rfl, begins, -, behind⟩ := same.cons_right
    obtain ⟨own, closing, rfl, words, ends⟩ := behind.snoc_right
    exact .group (begins.trans left) (inner.ofWords words) (ends.trans right)
  | .object left inner right => by
    obtain ⟨opening, rest, rfl, begins, -, behind⟩ := same.cons_right
    obtain ⟨own, closing, rfl, words, ends⟩ := behind.snoc_right
    exact .object (begins.trans left) (inner.ofWords words) (ends.trans right)
  | .array left inner right => by
    obtain ⟨opening, rest, rfl, begins, -, behind⟩ := same.cons_right
    obtain ⟨own, closing, rfl, words, ends⟩ := behind.snoc_right
    exact .array (begins.trans left) (inner.ofWords words) (ends.trans right)
  | .construct words => by
    obtain ⟨first, second, rest, rfl, constructs, text, behind⟩ := words.ofWords same
    rw [behind.nil_right, ← text]
    exact .construct constructs
  | .constructCall words left inner right => by
    obtain ⟨first, second, rest, rfl, constructs, text, behind⟩ := words.ofWords same
    obtain ⟨opening, rest, rfl, begins, -, behind⟩ := behind.cons_right
    obtain ⟨own, closing, rfl, values, ends⟩ := behind.snoc_right
    rw [← text]
    exact .constructCall constructs (begins.trans left) (inner.ofWords values) (ends.trans right)
  | .member target isDot isName => by
    obtain ⟨front, back, rfl, before, behind⟩ := same.append_right
    obtain ⟨dot, rest, rfl, kind, -, behind⟩ := behind.cons_right
    obtain ⟨name, rfl, kind', text⟩ := behind.single_right
    rw [← text]
    exact .member (target.ofWords before) (kind.trans isDot) (kind'.trans isName)
  | .index target left inner right => by
    obtain ⟨front, back, rfl, before, behind⟩ := same.append_right
    obtain ⟨opening, rest, rfl, begins, -, behind⟩ := behind.cons_right
    obtain ⟨own, closing, rfl, words, ends⟩ := behind.snoc_right
    exact .index (target.ofWords before) (begins.trans left) (inner.ofWords words)
      (ends.trans right)
  | .call target left inner right => by
    obtain ⟨front, back, rfl, before, behind⟩ := same.append_right
    obtain ⟨opening, rest, rfl, begins, -, behind⟩ := behind.cons_right
    obtain ⟨own, closing, rfl, words, ends⟩ := behind.snoc_right
    exact .call (target.ofWords before) (begins.trans left) (inner.ofWords words)
      (ends.trans right)

theorem Items.ofWords {tokens others : List Token} {trees : List Expr}
    (same : SameWords others tokens) : Items tokens trees → Items others trees
  | .none => by
    rw [same.nil_right]
    exact .none
  | .last item => .last (item.ofWords same)
  | .more item isComma rest => by
    obtain ⟨front, back, rfl, before, behind⟩ := same.append_right
    obtain ⟨comma, back, rfl, kind, -, behind⟩ := behind.cons_right
    exact .more (item.ofWords before) (kind.trans isComma) (rest.ofWords behind)

theorem Members.ofWords {tokens others : List Token} {properties : List Property}
    (same : SameWords others tokens) : Members tokens properties → Members others properties
  | .none => by
    rw [same.nil_right]
    exact .none
  | .last isKey isColon value => by
    obtain ⟨key, rest, rfl, kind, text, behind⟩ := same.cons_right
    obtain ⟨colon, rest, rfl, kind', -, behind⟩ := behind.cons_right
    exact .last (isKey.ofWord kind text) (kind'.trans isColon) (value.ofWords behind)
  | .more isKey isColon value isComma rest => by
    obtain ⟨key, back, rfl, kind, text, behind⟩ := same.cons_right
    obtain ⟨colon, back, rfl, kind', -, behind⟩ := behind.cons_right
    obtain ⟨front, back, rfl, before, behind⟩ := behind.append_right
    obtain ⟨comma, back, rfl, parts, -, behind⟩ := behind.cons_right
    exact .more (isKey.ofWord kind text) (kind'.trans isColon) (value.ofWords before)
      (parts.trans isComma) (rest.ofWords behind)

end

/-- An expression as a whole is one in front of any token that no value goes on with. -/
theorem Whole.ofWords {tokens others : List Token} {next last : Token} {tree : Expr}
    (whole : Whole tokens next tree) (same : SameWords others tokens)
    (ends : last.kind ∉ [.dot, .leftBracket, .leftParen]) : Whole others last tree := by
  rcases whole with number | ⟨⟨bare, value⟩, -⟩
  · exact .inl (number.ofWords same)
  · exact .inr ⟨⟨bare, value.ofWords same⟩, ends⟩

end Grammar

end MongoShell

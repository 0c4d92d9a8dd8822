import Mathlib.Tactic.Common
import MongoShell.Expr.Reader
import MongoShell.Proofs.Outcome
import MongoShell.Proofs.Token.Scan
import MongoShell.Statement
import MongoShell.Value.OfExpr

/-! Reading literals token by token. Tokens read as a value if they lead from any place where a
value is to start to the end of an expression that writes the value, with the same frames around it.
Arrays and objects read as theirs if their items do, whatever stood in front of them in the same
list. -/

namespace MongoShell

/-! Expressions that write values -/

/-- An expression that writes a value whatever the time and place, and that names nothing. -/
structure Expr.Spells (e : Expr) (value : Value) : Prop where
  value : ∀ fresh, Value.ofExpr fresh e = .ok value
  rootless : e.accesses? [] = none

def SpellItems (elements : List Expr) (values : List Value) : Prop :=
  ∀ fresh, Value.itemsOf fresh elements = .ok values

def SpellEntries (properties : List Property) (entries : List (String × Value)) : Prop :=
  ∀ fresh, Value.entriesOf fresh properties = .ok entries

theorem SpellItems.push {elements : List Expr} {values : List Value} {e : Expr} {value : Value}
    (earlier : SpellItems elements values) (last : e.Spells value) :
    SpellItems (elements ++ [e]) (values ++ [value]) := by
  intro fresh
  have own := earlier fresh
  clear earlier
  induction elements generalizing values with
  | nil =>
    cases own
    rw [List.nil_append, Value.itemsOf, last.value fresh]
    rfl
  | cons first rest ih =>
    simp only [Value.itemsOf, Outcome.bind_eq_ok, Except.ok.injEq] at own
    obtain ⟨head, read, tail, others, rfl⟩ := own
    rw [List.cons_append, Value.itemsOf, read, ih others]
    rfl

theorem SpellEntries.push {properties : List Property} {entries : List (String × Value)}
    {key : String} {span : Span} {e : Expr} {value : Value}
    (earlier : SpellEntries properties entries) (last : e.Spells value) :
    SpellEntries (properties ++ [.mk key span e]) (entries ++ [(key, value)]) := by
  intro fresh
  have own := earlier fresh
  clear earlier
  induction properties generalizing entries with
  | nil =>
    cases own
    rw [List.nil_append, Value.entriesOf, last.value fresh]
    rfl
  | cons first rest ih =>
    obtain ⟨name, place, inner⟩ := first
    simp only [Value.entriesOf, Outcome.bind_eq_ok, Except.ok.injEq] at own
    obtain ⟨head, read, tail, others, rfl⟩ := own
    rw [List.cons_append, Value.entriesOf, read, ih others]
    rfl

theorem SpellItems.array {elements : List Expr} {values : List Value}
    (items : SpellItems elements values) (span : Span) :
    (Expr.array span elements).Spells (.array values) where
  value fresh := by rw [Value.ofExpr, items fresh]; rfl
  rootless := rfl

theorem SpellEntries.object {properties : List Property} {entries : List (String × Value)}
    (all : SpellEntries properties entries) (span : Span) :
    (Expr.object span properties).Spells (.document entries) where
  value fresh := by rw [Value.ofExpr, all fresh]; rfl
  rootless := rfl

/-! Runs of the reader -/

namespace Mode

/-- The reader gets from one mode and its frames to others over some tokens. -/
inductive Reaches : Mode → List Frame → List Token → Mode → List Frame → Prop
  | here {mode : Mode} {frames : List Frame} : Reaches mode frames [] mode frames
  | step {mode next last : Mode} {frames others final : List Frame} {t : Token}
      {tokens : List Token} (one : mode.step frames t = .ok (.reading next others))
      (more : Reaches next others tokens last final) : Reaches mode frames (t :: tokens) last final

theorem Reaches.append {mode next last : Mode} {frames others final : List Frame}
    {tokens more : List Token} (before : Reaches mode frames tokens next others)
    (behind : Reaches next others more last final) :
    Reaches mode frames (tokens ++ more) last final := by
  induction before with
  | here => exact behind
  | step one _ ih => exact .step one (ih behind)

/-- An expression has been read, and a delimiter would end it. -/
def Holds (mode : Mode) (e : Expr) : Prop := mode = .operand e ∨ mode = .complete e

theorem Holds.step {mode : Mode} {e : Expr} (holds : mode.Holds e) (frames : List Frame)
    {t : Token} (noDot : t.kind ≠ .dot) (noIndex : t.kind ≠ .leftBracket)
    (noCall : t.kind ≠ .leftParen) : mode.step frames t = deliver frames e t := by
  rcases holds with rfl | rfl
  · simp only [Mode.step, afterOperand]
  · rfl

end Mode

/-! Tokens that read as values -/

/-- A token that starts a value: it closes no list, ends no statement and starts no command. -/
def Opens (t : Token) : Prop :=
  t.kind ≠ .rightBracket ∧ t.kind ≠ .semicolon ∧ t.kind ≠ .endOfInput ∧
    ¬(t.kind = .identifier ∧ t.text = "show")

structure Reads (tokens : List Token) (value : Value) : Prop where
  opens : ∃ t rest, tokens = t :: rest ∧ Opens t
  ends : ∀ frames, ∃ mode e, Mode.Reaches .value frames tokens mode frames ∧ mode.Holds e ∧
    e.Spells value

/-- Tokens behind an item of an array that read as the items behind it, and close the array. -/
def ReadsItems (tokens : List Token) (values : List Value) : Prop :=
  ∀ frames opening mode e elements earlier, mode.Holds e →
    SpellItems (e :: elements).reverse earlier →
    ∃ whole, Mode.Reaches mode (.array opening elements :: frames) tokens (.operand whole) frames ∧
      whole.Spells (.array (earlier ++ values))

/-- Tokens behind the value of a member that read as the members behind it, and close the object. -/
def ReadsMembers (tokens : List Token) (entries : List (String × Value)) : Prop :=
  ∀ frames opening mode e properties name span earlier, mode.Holds e →
    SpellEntries (.mk name (span.through e.span) e :: properties).reverse earlier →
    ∃ whole,
      Mode.Reaches mode (.property opening properties name span :: frames) tokens (.operand whole)
        frames ∧
      whole.Spells (.document (earlier ++ entries))

/-- A token that is a value by itself. -/
theorem Reads.single {t : Token} {e : Expr} {value : Value} (opens : Opens t)
    (noSign : ¬(t.kind = .plus ∨ t.kind = .minus))
    (primary : ∀ frames, Mode.startPrimary frames t = .ok (.operand e, frames))
    (spells : e.Spells value) : Reads [t] value where
  opens := ⟨t, [], rfl, opens⟩
  ends frames := by
    refine ⟨.operand e, e, .step ?_ .here, .inl rfl, spells⟩
    rw [Mode.step, Mode.start, if_neg noSign, primary frames]
    rfl

theorem reads_string {tokens : List Token} {literal : List Char} {text : String}
    (isString : IsToken .string literal tokens)
    (contents : StringLiteral.contents? (String.ofList literal) = some text) :
    Reads tokens (.string text) := by
  obtain ⟨t, rfl, kind, shown⟩ := isString
  have read : t.stringContents = .ok text := by rw [Token.stringContents, shown, contents]
  refine Reads.single (e := .string t.span text) ?_ ?_ (fun frames => ?_) ⟨fun fresh => ?_, ?_⟩
  · simp [Opens, kind]
  · simp [kind]
  · simp only [Mode.startPrimary, kind, read]
    rfl
  · rw [Value.ofExpr]
  · rfl

/-- A word that is a constant of the language. -/
theorem reads_word {tokens : List Token} {word : List Char} {value : Value}
    (isWord : IsToken .identifier word tokens) (noShow : String.ofList word ≠ "show")
    (noNew : String.ofList word ≠ "new")
    (constant : ∀ span, (Mode.wordValue span (String.ofList word)).Spells value) :
    Reads tokens value := by
  obtain ⟨t, rfl, kind, shown⟩ := isWord
  refine Reads.single ?_ ?_ (fun frames => ?_) (constant t.span)
  · simp [Opens, kind, shown, noShow]
  · simp [kind]
  · simp only [Mode.startPrimary, kind, shown, if_neg noNew]

theorem reads_number {tokens : List Token} {lexeme : List Char} {value : Value}
    (isNumber : IsToken .number lexeme tokens)
    (numeral : Value.ofLexeme (String.ofList lexeme) = .ok value) : Reads tokens value := by
  obtain ⟨t, rfl, kind, shown⟩ := isNumber
  refine Reads.single (e := .number t.span t.text) ?_ ?_ (fun frames => ?_) ⟨fun fresh => ?_, ?_⟩
  · simp [Opens, kind]
  · simp [kind]
  · simp only [Mode.startPrimary, kind]
  · rw [Value.ofExpr, shown, numeral]
    rfl
  · rfl

/-- A number behind a minus sign. -/
theorem reads_negative {sign tokens : List Token} {lexeme : List Char} {value : Value}
    (isSign : IsToken .minus ['-'] sign) (isNumber : IsToken .number lexeme tokens)
    (numeral : Value.ofLexeme (String.ofList ('-' :: lexeme)) = .ok value) :
    Reads (sign ++ tokens) value := by
  obtain ⟨s, rfl, minus, -⟩ := isSign
  obtain ⟨t, rfl, kind, shown⟩ := isNumber
  let e : Expr := .number (s.span.through t.span) ("-" ++ t.text)
  have joined : "-" ++ t.text = String.ofList ('-' :: lexeme) := by
    rw [shown, ← List.singleton_append, String.ofList_append]
  have spells : e.Spells value := by
    refine ⟨fun fresh => ?_, ?_⟩
    · rw [Value.ofExpr, joined, numeral]
      rfl
    · rfl
  refine ⟨⟨s, [t], rfl, by simp [Opens, minus]⟩, fun frames => ?_⟩
  have first : Mode.value.step frames s = .ok (.reading (.signed s) frames) := by
    simp only [Mode.step, Mode.start, minus, or_true, if_true]
    rfl
  have second : (Mode.signed s).step frames t = .ok (.reading (.complete e) frames) := by
    simp only [Mode.step, kind, minus, true_or, if_true]
    rfl
  exact ⟨.complete e, e, .step first (.step second .here), .inr rfl, spells⟩

/-! Arrays -/

theorem startItem_of_opens {t : Token} (opens : Opens t) (opening : Span) (elements : List Expr)
    (frames : List Frame) : Mode.startItem (.array opening elements :: frames) t =
      Mode.start (.array opening elements :: frames) t := by
  unfold Mode.startItem
  split
  · rename_i closes
    exact absurd closes opens.1
  · rename_i same _
    cases same
  · rfl

/-- The first token of an item is read as one of a value would be. -/
theorem Reads.asItem {tokens : List Token} {value : Value} (reads : Reads tokens value)
    (opening : Span) (elements : List Expr) (frames : List Frame) :
    ∃ mode e, Mode.Reaches .item (.array opening elements :: frames) tokens mode
      (.array opening elements :: frames) ∧ mode.Holds e ∧ e.Spells value := by
  obtain ⟨t, rest, rfl, opens⟩ := reads.opens
  obtain ⟨mode, e, run, holds, spells⟩ := reads.ends (.array opening elements :: frames)
  refine ⟨mode, e, ?_, holds, spells⟩
  cases run with
  | step one more =>
    refine .step ?_ more
    rw [← one, Mode.step, Mode.step, startItem_of_opens opens]

theorem readsItems_nil {tokens : List Token} (closing : IsToken .rightBracket [']'] tokens) :
    ReadsItems tokens [] := by
  obtain ⟨t, rfl, kind, -⟩ := closing
  intro frames opening mode e elements earlier holds spell
  refine ⟨Mode.closeArray opening (e :: elements) t.span, .step ?_ .here, ?_⟩
  · rw [holds.step _ (by simp [kind]) (by simp [kind]) (by simp [kind])]
    simp [Mode.deliver, kind]
  · rw [List.append_nil]
    exact spell.array _

theorem readsItems_cons {comma tokens more : List Token} {value : Value} {values : List Value}
    (isComma : IsToken .comma [','] comma) (item : Reads tokens value)
    (others : ReadsItems more values) :
    ReadsItems (comma ++ (tokens ++ more)) (value :: values) := by
  obtain ⟨t, rfl, kind, -⟩ := isComma
  intro frames opening mode e elements earlier holds spell
  obtain ⟨next, last, run, held, spells⟩ := item.asItem opening (e :: elements) frames
  have pushed : SpellItems (last :: e :: elements).reverse (earlier ++ [value]) := by
    rw [List.reverse_cons]
    exact spell.push spells
  obtain ⟨whole, closed, shown⟩ := others frames opening next last (e :: elements) _ held pushed
  have separated : mode.step (.array opening elements :: frames) t =
      .ok (.reading .item (.array opening (e :: elements) :: frames)) := by
    rw [holds.step _ (by simp [kind]) (by simp [kind]) (by simp [kind])]
    simp [Mode.deliver, kind]
  refine ⟨whole, .step separated (run.append closed), ?_⟩
  rw [List.append_assoc] at shown
  exact shown

theorem reads_emptyArray {opening closing : List Token} (opens : IsToken .leftBracket ['['] opening)
    (closes : IsToken .rightBracket [']'] closing) : Reads (opening ++ closing) (.array []) := by
  obtain ⟨s, rfl, left, -⟩ := opens
  obtain ⟨t, rfl, right, -⟩ := closes
  refine ⟨⟨s, [t], rfl, by simp [Opens, left]⟩, fun frames => ?_⟩
  have none : SpellItems [].reverse [] := fun fresh => by rw [List.reverse_nil, Value.itemsOf]
  have first : Mode.value.step frames s = .ok (.reading .item (.array s.span [] :: frames)) := by
    simp [Mode.step, Mode.start, Mode.startPrimary, left, Except.map]
  have second : Mode.item.step (.array s.span [] :: frames) t =
      .ok (.reading (.operand (Mode.closeArray s.span [] t.span)) frames) := by
    simp [Mode.step, Mode.startItem, right, Except.map]
  exact ⟨_, _, .step first (.step second .here), .inl rfl, none.array _⟩

theorem reads_array {opening tokens more : List Token} {value : Value} {values : List Value}
    (opens : IsToken .leftBracket ['['] opening) (item : Reads tokens value)
    (others : ReadsItems more values) :
    Reads (opening ++ (tokens ++ more)) (.array (value :: values)) := by
  obtain ⟨s, rfl, left, -⟩ := opens
  refine ⟨⟨s, _, rfl, by simp [Opens, left]⟩, fun frames => ?_⟩
  obtain ⟨mode, e, run, holds, spells⟩ := item.asItem s.span [] frames
  have one : SpellItems [e].reverse [value] := by
    have none : SpellItems [] [] := fun fresh => by rw [Value.itemsOf]
    exact none.push spells
  obtain ⟨whole, closed, shown⟩ := others frames s.span mode e [] _ holds one
  have first : Mode.value.step frames s = .ok (.reading .item (.array s.span [] :: frames)) := by
    simp [Mode.step, Mode.start, Mode.startPrimary, left, Except.map]
  exact ⟨.operand whole, whole, .step first (run.append closed), .inl rfl, shown⟩

/-! Objects -/

/-- The key, the colon and the value of a member. -/
structure ReadsMember (tokens : List Token) (name : String) (value : Value) : Prop where
  ends : ∀ frames opening properties, ∃ span mode e,
    Mode.Reaches (.key opening properties) frames tokens mode
      (.property opening properties name span :: frames) ∧
    mode.Holds e ∧ e.Spells value

theorem readsMember {key colon tokens : List Token} {literal : List Char} {name : String}
    {value : Value} (isKey : IsToken .string literal key)
    (contents : StringLiteral.contents? (String.ofList literal) = some name)
    (isColon : IsToken .colon [':'] colon) (reads : Reads tokens value) :
    ReadsMember (key ++ (colon ++ tokens)) name value := by
  obtain ⟨k, rfl, string, shown⟩ := isKey
  obtain ⟨t, rfl, mark, -⟩ := isColon
  refine ⟨fun frames opening properties => ?_⟩
  have named : k.stringContents = .ok name := by rw [Token.stringContents, shown, contents]
  obtain ⟨mode, e, run, holds, spells⟩ :=
    reads.ends (.property opening properties name k.span :: frames)
  have first : (Mode.key opening properties).step frames k =
      .ok (.reading (.colon opening properties name k.span) frames) := by
    simp [Mode.step, Mode.startProperty, string, named, Except.map]
  have second : (Mode.colon opening properties name k.span).step frames t =
      .ok (.reading .value (.property opening properties name k.span :: frames)) := by
    simp [Mode.step, mark]
  exact ⟨k.span, mode, e, .step first (.step second run), holds, spells⟩

theorem readsMembers_nil {tokens : List Token} (closing : IsToken .rightBrace ['}'] tokens) :
    ReadsMembers tokens [] := by
  obtain ⟨t, rfl, kind, -⟩ := closing
  intro frames opening mode e properties name span earlier holds spell
  refine ⟨Mode.closeObject opening (.mk name (span.through e.span) e :: properties) t.span,
    .step ?_ .here, ?_⟩
  · rw [holds.step _ (by simp [kind]) (by simp [kind]) (by simp [kind])]
    simp [Mode.deliver, kind]
  · rw [List.append_nil]
    exact spell.object _

theorem readsMembers_cons {comma tokens more : List Token} {key : String} {value : Value}
    {entries : List (String × Value)} (isComma : IsToken .comma [','] comma)
    (member : ReadsMember tokens key value) (others : ReadsMembers more entries) :
    ReadsMembers (comma ++ (tokens ++ more)) ((key, value) :: entries) := by
  obtain ⟨t, rfl, kind, -⟩ := isComma
  intro frames opening mode e properties name span earlier holds spell
  obtain ⟨place, next, last, run, held, spells⟩ :=
    member.ends frames opening (.mk name (span.through e.span) e :: properties)
  have pushed : SpellEntries (.mk key (place.through last.span) last ::
      .mk name (span.through e.span) e :: properties).reverse (earlier ++ [(key, value)]) := by
    rw [List.reverse_cons]
    exact spell.push spells
  obtain ⟨whole, closed, shown⟩ := others frames opening next last _ key place _ held pushed
  have separated : mode.step (.property opening properties name span :: frames) t =
      .ok (.reading (.key opening (.mk name (span.through e.span) e :: properties)) frames) := by
    rw [holds.step _ (by simp [kind]) (by simp [kind]) (by simp [kind])]
    simp [Mode.deliver, kind]
  refine ⟨whole, .step separated (run.append closed), ?_⟩
  rw [List.append_assoc] at shown
  exact shown

theorem reads_emptyObject {opening closing : List Token} (opens : IsToken .leftBrace ['{'] opening)
    (closes : IsToken .rightBrace ['}'] closing) : Reads (opening ++ closing) (.document []) := by
  obtain ⟨s, rfl, left, -⟩ := opens
  obtain ⟨t, rfl, right, -⟩ := closes
  refine ⟨⟨s, [t], rfl, by simp [Opens, left]⟩, fun frames => ?_⟩
  have none : SpellEntries [].reverse [] := fun fresh => by rw [List.reverse_nil, Value.entriesOf]
  have first : Mode.value.step frames s = .ok (.reading (.key s.span []) frames) := by
    simp [Mode.step, Mode.start, Mode.startPrimary, left, Except.map]
  have second : (Mode.key s.span []).step frames t =
      .ok (.reading (.operand (Mode.closeObject s.span [] t.span)) frames) := by
    simp [Mode.step, Mode.startProperty, right, Except.map]
  exact ⟨_, _, .step first (.step second .here), .inl rfl, none.object _⟩

theorem reads_object {opening tokens more : List Token} {key : String} {value : Value}
    {entries : List (String × Value)} (opens : IsToken .leftBrace ['{'] opening)
    (member : ReadsMember tokens key value) (others : ReadsMembers more entries) :
    Reads (opening ++ (tokens ++ more)) (.document ((key, value) :: entries)) := by
  obtain ⟨s, rfl, left, -⟩ := opens
  refine ⟨⟨s, _, rfl, by simp [Opens, left]⟩, fun frames => ?_⟩
  obtain ⟨span, mode, e, run, holds, spells⟩ := member.ends frames s.span []
  have one : SpellEntries [Property.mk key (span.through e.span) e].reverse [(key, value)] := by
    have none : SpellEntries [] [] := fun fresh => by rw [Value.entriesOf]
    exact none.push spells
  obtain ⟨whole, closed, shown⟩ := others frames s.span mode e [] key span _ holds one
  have first : Mode.value.step frames s = .ok (.reading (.key s.span []) frames) := by
    simp [Mode.step, Mode.start, Mode.startPrimary, left, Except.map]
  exact ⟨.operand whole, whole, .step first (run.append closed), .inl rfl, shown⟩

end MongoShell

import Mathlib
import MongoShell.Proofs.Script.Parts
import MongoShell.Proofs.Token.Spelling

/-! The string tokens of a script. What is written between quotes is one token up to the quote that
closes it, wherever it stands; the reader takes the token for exactly the characters that are
written, and turns it down, at its own place, exactly if half a surrogate pair in it is unpaired. -/

namespace MongoShell

open StringLiteral

/-- The literal of some text between quotes. -/
def StringLiteral.literal (quote : Char) (body : List Char) : List Char :=
  quote :: (body ++ [quote])

/-- A string token over some text between quotes. -/
structure Token.Quotes (t : Token) (quote : Char) (body : List Char) : Prop where
  kind : t.kind = .string
  mark : quote = '"' ∨ quote = '\''
  text : t.text = String.ofList (literal quote body)
  inside : StringBody quote body

/-- The fault of half a surrogate pair in a string token. -/
def Token.unpaired (t : Token) : SyntaxError := .under t.span (.unpairedSurrogate t.text)

/-- Where the reader takes a string, with what comes behind the string. -/
inductive Mode.TakesString : Mode → (Span → String → Mode) → Prop
  | value : TakesString .value fun span contents => .operand (.string span contents)
  | item : TakesString .item fun span contents => .operand (.string span contents)
  | key (opening : Span) (earlier : List Property) :
      TakesString (.key opening earlier) fun span contents => .colon opening earlier contents span

/-! The contents of a token -/

/-- A string token of a source is over some text between quotes. -/
theorem exists_quotes {source : String} {list : List Token} {t : Token}
    (scanned : tokens source = .ok list) (member : t ∈ list) (kind : t.kind = .string) :
    ∃ quote body, t.Quotes quote body := by
  have laid := laidOut_of_scanFrom scanned
  obtain ⟨_, piece, _, _, _, _, text, lexeme⟩ := laid.lexemes t member (by simp [kind])
  rw [kind] at lexeme
  obtain ⟨quote, body, mark, inside, rfl⟩ := lexeme.exists_quotes
  exact ⟨quote, body, kind, mark, text, inside⟩

/-- A literal is one token, whatever follows it. -/
theorem starts_literal {quote : Char} {body : List Char} (mark : quote = '"' ∨ quote = '\'')
    (inside : StringBody quote body) (rest : List Char) :
    Starts (literal quote body) rest (.token .string) := by
  have read := front_quote mark (body ++ quote :: rest)
  rw [inside.cut mark rest] at read
  refine ⟨quote, body ++ [quote], rfl, ?_⟩
  rw [List.append_assoc, List.singleton_append]
  exact read

namespace Token.Quotes

variable {t : Token} {quote : Char} {body : List Char} (quotes : t.Quotes quote body)

include quotes

theorem stringContents_eq :
    t.stringContents = match decode body with
      | some text => .ok (String.ofList text)
      | none => .error t.unpaired := by
  have inner : (t.text.toList.drop 1).dropLast = body := by
    rw [quotes.text, literal, String.toList_ofList, List.drop_one, List.tail_cons,
      List.dropLast_concat]
  rw [stringContents, contents?, inner]
  cases decode body <;> rfl

theorem stringContents_eq_ok_iff (text : String) :
    t.stringContents = .ok text ↔ Writes quote body text.toList := by
  rw [quotes.stringContents_eq, ← decode_eq_some_iff quotes.inside]
  cases decode body with
  | none => simp
  | some other => rw [Except.ok.injEq, Option.some.injEq, ← String.toList_inj, String.toList_ofList]

theorem stringContents_eq_error_iff (e : SyntaxError) :
    t.stringContents = .error e ↔ HasUnpaired body ∧ e = t.unpaired := by
  rw [quotes.stringContents_eq, ← decode_eq_none_iff quotes.inside]
  cases decode body with
  | none => simp [eq_comm]
  | some other => simp

end Token.Quotes

/-! The reader -/

namespace Mode

variable {t : Token} (string : t.kind = .string)

include string

theorem start_string (frames : List Frame) :
    start frames t = t.stringContents.map fun contents =>
      (.operand (.string t.span contents), frames) := by
  simp [start, startPrimary, string]

/-- Where a string may stand, the reader takes the contents of the token. -/
theorem TakesString.step {mode : Mode} {behind : Span → String → Mode}
    (takes : mode.TakesString behind) (frames : List Frame) :
    mode.step frames t = t.stringContents.map fun contents =>
      .reading (behind t.span contents) frames := by
  cases takes with
  | value =>
    rw [Mode.step, start_string string]
    cases t.stringContents <;> rfl
  | item =>
    rw [Mode.step, startItem_eq_start (by simp [string]), start_string string]
    cases t.stringContents <;> rfl
  | key opening earlier =>
    simp only [Mode.step, startProperty, string]
    cases t.stringContents <;> rfl

omit string in
theorem TakesString.behind_inj {mode : Mode} {behind : Span → String → Mode}
    (takes : mode.TakesString behind) {span : Span} {text other : String}
    (same : behind span text = behind span other) : text = other := by
  cases takes <;> cases same <;> rfl

theorem deliver_string (frames : List Frame) (e : Expr) :
    deliver frames e t = .ok (.finished e) ∨
      ∃ expected, deliver frames e t = .error (t.unexpected expected) := by
  cases frames with
  | nil => exact .inl rfl
  | cons frame frames => cases frame <;> simp [deliver, string]

/-- Elsewhere a string token is behind a whole value, which it ends, or it is unexpected. -/
theorem step_string (mode : Mode) (frames : List Frame) :
    (∃ behind, mode.TakesString behind) ∨
      (∃ e, mode.step frames t = .ok (.finished e)) ∨
        ∃ expected, mode.step frames t = .error (t.unexpected expected) := by
  cases mode with
  | value => exact .inl ⟨_, .value⟩
  | item => exact .inl ⟨_, .item⟩
  | key opening earlier => exact .inl ⟨_, .key opening earlier⟩
  | operand e =>
    have ends : Mode.step frames t (.operand e) = deliver frames e t := by
      simp [step, afterOperand, string]
    rw [ends]
    exact .inr ((deliver_string string frames e).imp_left fun done => ⟨e, done⟩)
  | complete e => exact .inr ((deliver_string string frames e).imp_left fun done => ⟨e, done⟩)
  | constructor word name =>
    have ends : Mode.step frames t (.constructor word name) =
        deliver frames (.construct (word.through name.span) (.identifier name.span name.text))
          t := by
      simp [step, afterOperand, string]
    rw [ends]
    exact .inr ((deliver_string string frames _).imp_left fun done => ⟨_, done⟩)
  | signed sign => exact .inr (.inr ⟨.number, by simp [step, string]⟩)
  | member target => exact .inr (.inr ⟨.propertyName, by simp [step, string]⟩)
  | keyword span => exact .inr (.inr ⟨.constructorName, by simp [step, string]⟩)
  | colon opening earlier name keySpan =>
    exact .inr (.inr ⟨.token .colon, by simp [step, string]⟩)

end Mode

/-- A fault of the reader is a token that is not expected, or in the contents of a string. -/
def Token.Faults (t : Token) (e : SyntaxError) : Prop :=
  (∃ expected, e = t.unexpected expected) ∨ t.kind = .string ∧ t.stringContents = .error e

theorem Token.unexpected_ne_unpaired (t : Token) (expected : Expectation) (text : String) :
    (t.unexpected expected).fault ≠ .unpairedSurrogate text := by
  unfold Token.unexpected
  split <;> exact nofun

namespace Mode

variable {t : Token} {e : SyntaxError} {frames : List Frame}

theorem start_faults (failed : start frames t = .error e) : t.Faults e := by
  unfold start at failed
  split at failed
  · cases failed
  unfold startPrimary at failed
  split at failed
  case h_2 kind => exact .inr ⟨kind, (Outcome.map_eq_error _ _ _).mp failed⟩
  case h_8 =>
    cases failed
    exact .inl ⟨_, rfl⟩
  case h_1 => split at failed <;> cases failed
  all_goals cases failed

theorem deliver_faults {value : Expr} (failed : deliver frames value t = .error e) :
    t.Faults e := by
  unfold deliver at failed
  simp only at failed
  split at failed
  · cases failed
  all_goals
    split at failed
    · cases failed
    first
    | exact .inl ⟨_, (Except.error.inj failed).symm⟩
    | split at failed
      · cases failed
      · exact .inl ⟨_, (Except.error.inj failed).symm⟩

theorem afterOperand_faults {value : Expr} (failed : afterOperand frames value t = .error e) :
    t.Faults e := by
  unfold afterOperand at failed
  split at failed
  case h_4 => exact deliver_faults failed
  all_goals cases failed

theorem step_faults {mode : Mode} (failed : mode.step frames t = .error e) : t.Faults e := by
  have only {expected : Expectation} {progress : Progress} {p : Prop} [Decidable p]
      (failed : (if p then Except.ok progress else .error (t.unexpected expected)) = .error e) :
      t.Faults e := by
    split at failed
    · cases failed
    · exact .inl ⟨_, (Except.error.inj failed).symm⟩
  cases mode with
  | value => exact start_faults ((Outcome.map_eq_error _ _ _).mp failed)
  | item =>
    have failed := (Outcome.map_eq_error _ _ _).mp failed
    unfold startItem at failed
    split at failed
    case h_3 => exact start_faults failed
    all_goals cases failed
  | key opening earlier =>
    have failed := (Outcome.map_eq_error _ _ _).mp failed
    unfold startProperty at failed
    split at failed
    case h_4 kind => exact .inr ⟨kind, (Outcome.map_eq_error _ _ _).mp failed⟩
    case h_5 =>
      cases failed
      exact .inl ⟨_, rfl⟩
    all_goals cases failed
  | operand value => exact afterOperand_faults failed
  | complete value => exact deliver_faults failed
  | constructor word name =>
    simp only [step] at failed
    split at failed
    · cases failed
    · exact afterOperand_faults failed
  | signed sign => exact only failed
  | member target => exact only failed
  | keyword span => exact only failed
  | colon opening earlier name keySpan => exact only failed

end Mode

/-! The script -/

namespace Script

namespace State

variable {source : List Char} {state : State} {t : Token} {e : SyntaxError}

theorem start_faults (failed : state.start t = .error e) : t.Faults e := by
  unfold start at failed
  split at failed
  · cases failed
  split at failed
  · cases failed
  · exact Mode.start_faults ((Outcome.map_eq_error _ _ _).mp failed)

theorem separate_faults {last : Token} (failed : state.separate last t = .error e) :
    t.Faults e := by
  unfold separate at failed
  split at failed
  · cases failed
  split at failed
  · exact .inl ⟨_, (Except.error.inj failed).symm⟩
  · exact start_faults failed

theorem continueExpression_faults {first last : Token} {mode : Mode} {frames : List Frame}
    (failed : state.continueExpression source first last mode frames t = .error e) :
    t.Faults e := by
  unfold continueExpression at failed
  split at failed
  · rename_i stepped
    cases failed
    exact Mode.step_faults stepped
  · cases failed
  · exact separate_faults failed

/-- What a script fails over is a token that is not expected, or the contents of a string. -/
theorem step_faults (failed : state.step source t = .error e) : t.Faults e := by
  unfold step at failed
  split at failed
  · exact start_faults failed
  · split at failed
    · cases failed
    · exact continueExpression_faults failed
  · exact continueExpression_faults failed
  · exact separate_faults failed

variable (string : t.kind = .string) (fails : t.stringContents = .error e)

include string fails

theorem start_fails : state.start t = .error e := by
  simp [start, string, Mode.start_string string, fails, Except.map]

theorem separate_fails (last : Token) : ∃ fault, state.separate last t = .error fault := by
  by_cases same : t.span.line = last.span.line
  · exact ⟨t.unexpected .endOfStatement, by simp [separate, string, same]⟩
  · exact ⟨e, by simp [separate, string, same, start_fails string fails]⟩

theorem continueExpression_fails (first last : Token) (mode : Mode) (frames : List Frame) :
    ∃ fault, state.continueExpression source first last mode frames t = .error fault := by
  rcases mode.step_string string frames with ⟨behind, takes⟩ | ⟨value, done⟩ | ⟨expected, failed⟩
  · exact ⟨e, by simp [continueExpression, takes.step string, fails, Except.map]⟩
  · obtain ⟨fault, failed⟩ :=
      (state.addStatement source first last (.ofExpr value) (.behind last)).separate_fails string
        fails last
    exact ⟨fault, by simp [continueExpression, done, failed]⟩
  · exact ⟨t.unexpected expected, by simp [continueExpression, failed]⟩

/-- No script goes on over a string token without contents. -/
theorem step_fails_string : ∃ fault, state.step source t = .error fault := by
  obtain ⟨statements, stage⟩ := state
  cases stage with
  | between => exact ⟨e, start_fails string fails⟩
  | behind last => exact separate_fails string fails last
  | inside first last mode frames => exact continueExpression_fails string fails ..
  | shown word =>
    rw [step_shown source (by simp [string])]
    exact continueExpression_fails string fails ..

end State

/-- String literals stand for exactly what is written in them. A literal that writes some characters
is one token, through the quote at its end, wherever it stands and whatever follows, and it stands
for these characters. Every string token of a source is a literal; where a string may stand the
reader takes it for the characters that it writes, and turns it down at its own place exactly if
half a surrogate pair in it is unpaired. No script has such a token, and no fault of a script names
another one. -/
theorem strings_decode_exactly :
    (∀ quote body text, (quote = '"' ∨ quote = '\'') → Writes quote body text →
      ∀ place rest, ∃ t : Token, t.Quotes quote body ∧
        t.span = .between place (place.after (literal quote body)) ∧
        scanFrom place (literal quote body ++ rest) =
          (scanFrom (place.after (literal quote body)) rest).map (t :: ·) ∧
        t.stringContents = .ok (String.ofList text)) ∧
    ∀ source list, tokens source = .ok list →
      (∀ t ∈ list, t.kind = .string → ∃ quote body, t.Quotes quote body ∧
        (∀ (mode : Mode) behind frames, mode.TakesString behind →
          (∀ text : String, mode.step frames t = .ok (.reading (behind t.span text) frames) ↔
            Writes quote body text.toList) ∧
          ∀ e, mode.step frames t = .error e ↔ HasUnpaired body ∧ e = t.unpaired) ∧
        (HasUnpaired body → ∀ statements, ofSource source ≠ .ok statements)) ∧
      ∀ e text, ofSource source = .error e → e.fault = .unpairedSurrogate text →
        ∃ t ∈ list, ∃ quote body, t.Quotes quote body ∧ HasUnpaired body ∧ e = t.unpaired := by
  refine ⟨?_, fun source list scanned => ⟨?_, ?_⟩⟩
  · intro quote body text mark writes place rest
    have inside := writes.inside mark
    let t : Token := ⟨.string, String.ofList (literal quote body),
      .between place (place.after (literal quote body))⟩
    have quotes : t.Quotes quote body := ⟨rfl, mark, rfl, inside⟩
    refine ⟨t, quotes, rfl, scanFrom_token (starts_literal mark inside rest) place, ?_⟩
    rw [quotes.stringContents_eq_ok_iff, String.toList_ofList]
    exact writes
  · intro t member string
    obtain ⟨quote, body, quotes⟩ := exists_quotes scanned member string
    refine ⟨quote, body, quotes, ?_, ?_⟩
    · intro mode behind frames takes
      refine ⟨fun text => ?_, fun e => ?_⟩
      · rw [takes.step string, ← quotes.stringContents_eq_ok_iff, Outcome.map_eq_ok]
        refine ⟨?_, fun read => ⟨text, read, rfl⟩⟩
        rintro ⟨other, read, same⟩
        rw [← takes.behind_inj (Progress.reading.inj same).1]
        exact read
      · rw [takes.step string, Outcome.map_eq_error, quotes.stringContents_eq_error_iff]
    · intro unpaired statements done
      have fails := (quotes.stringContents_eq_error_iff _).mpr ⟨unpaired, rfl⟩
      obtain ⟨_, same, run⟩ := (ofSource_eq_ok _ _).mp done
      cases scanned.symm.trans same
      obtain ⟨last, run, -⟩ := (Outcome.map_eq_ok _ _ _).mp run
      obtain ⟨before, after, stepped⟩ := Outcome.foldlM_each run t member
      obtain ⟨fault, failed⟩ := State.step_fails_string string fails
      cases stepped.symm.trans failed
  · intro e text failed named
    rcases (ofSource_eq_error _ _).mp failed with failed | ⟨_, same, failed⟩
    · cases scanned.symm.trans failed
    cases scanned.symm.trans same
    have failed := (Outcome.map_eq_error _ _ _).mp failed
    obtain ⟨before, t, behind, middle, rfl, -, stepped⟩ := Outcome.foldlM_eq_error.mp failed
    have member : t ∈ before ++ t :: behind := List.mem_append_right _ List.mem_cons_self
    rcases State.step_faults stepped with ⟨expected, rfl⟩ | ⟨string, fails⟩
    · exact absurd named (t.unexpected_ne_unpaired expected text)
    · obtain ⟨quote, body, quotes⟩ := exists_quotes scanned member string
      obtain ⟨unpaired, same⟩ := (quotes.stringContents_eq_error_iff _).mp fails
      exact ⟨t, member, quote, body, quotes, unpaired, same⟩

/-- A pair of halves and a letter without its digits; and the first half of a pair on its own. -/
theorem halves_decode_exactly :
    (∃ t : Token, t.Quotes '\'' "\\ud83d\\ude00\\x4".toList ∧ t.stringContents = .ok "😀x4") ∧
    ∃ t quote body, Token.Quotes t quote body ∧ HasUnpaired body ∧
      t.unpaired = ⟨1, 3, .unpairedSurrogate "'\\ud83d'"⟩ := by
  obtain ⟨written, scripts⟩ := strings_decode_exactly
  have pair : Spelling '\'' '😀' "\\ud83d\\ude00".toList :=
    @Spelling.pair _ _ ['d', '8', '3', 'd'] ['d', 'e', '0', '0'] (by decide) ⟨rfl, by decide⟩
      ⟨rfl, by decide⟩
  have codeless : Codeless 2 ['4'] := by
    rintro digits code within ⟨two, -⟩
    have short := within.length_le
    rw [two] at short
    exact absurd short (by decide)
  have digit : Writes '\'' ['4'] ['4'] :=
    .cons (.itself (by decide) (by decide) (by decide)) .nil
  have writes : Writes '\'' "\\ud83d\\ude00\\x4".toList ['😀', 'x', '4'] :=
    .cons pair (.bare (by decide) codeless digit)
  obtain ⟨t, quotes, -, -, contents⟩ := written _ _ _ (.inr rfl) writes .start []
  refine ⟨⟨t, quotes, contents⟩, ?_⟩
  have count : (tokens "f('\\ud83d')").map List.length = .ok 5 := by cbv
  obtain ⟨list, scanned, -⟩ := (Outcome.map_eq_ok _ _ _).mp count
  have refused : ofSource "f('\\ud83d')" = .error ⟨1, 3, .unpairedSurrogate "'\\ud83d'"⟩ := by cbv
  obtain ⟨t, -, quote, body, quotes, unpaired, same⟩ := (scripts _ _ scanned).2 _ _ refused rfl
  exact ⟨t, quote, body, quotes, unpaired, same.symm⟩

end Script

end MongoShell

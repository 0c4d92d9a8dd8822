import MongoShell.Proofs.Script.Layout
import MongoShell.Proofs.Token.LongestMatch
import MongoShell.Proofs.Token.Pattern

/-! The regular expression tokens of a script. A pattern between slashes, with letters behind it, is
one token and is read as this pattern with these flags; and every such token of a source is a
pattern and flags that it is read as. -/

namespace MongoShell

/-- A regular expression token, its pattern and its flags. -/
structure Token.IsRegex (t : Token) (pattern flags : List Char) : Prop where
  kind : t.kind = .regex
  text : t.text = String.ofList (regexLiteral pattern flags)
  inside : IsPattern pattern
  letters : ∀ c ∈ flags, c.isAlpha = true

/-- Every regular expression token of a source has a pattern and flags. -/
theorem exists_isRegex {source : String} {list : List Token} {t : Token}
    (scanned : tokens source = .ok list) (member : t ∈ list) (kind : t.kind = .regex) :
    ∃ pattern flags, t.IsRegex pattern flags := by
  have laid := laidOut_of_scanFrom scanned
  obtain ⟨_, piece, _, _, _, _, text, lexeme⟩ := laid.lexemes t member (by simp [kind])
  rw [kind] at lexeme
  cases lexeme with
  | mark mark => exact absurd rfl (TokenKind.ofMark?_ne mark).2
  | regex pattern noComment =>
    obtain @⟨body, flags, inside, letters⟩ := pattern
    exact ⟨body, flags, kind, text, (isPattern_iff flags).mpr ⟨inside, noComment⟩, letters⟩

namespace Token.IsRegex

variable {t : Token} {pattern flags : List Char} (is : t.IsRegex pattern flags)

include is

theorem split : splitRegex t.text = (String.ofList pattern, String.ofList flags) := by
  rw [is.text, splitRegex_literal is.letters]

/-- Where a value may start, the reader takes the token for its pattern and its flags. -/
theorem step {mode : Mode} (starts : mode = .value ∨ mode = .item) (frames : List Frame) :
    mode.step frames t = .ok (.reading
      (.operand (.regex t.span (String.ofList pattern) (String.ofList flags))) frames) := by
  have start : Mode.start frames t = .ok
      (.operand (.regex t.span (String.ofList pattern) (String.ofList flags)), frames) := by
    simp [Mode.start, Mode.startPrimary, is.kind, is.split]
  rcases starts with rfl | rfl
  · rw [Mode.step, start]
    rfl
  · rw [Mode.step, Mode.startItem_eq_start (by simp [is.kind]), start]
    rfl

/-- The token is an operand by itself. -/
theorem operand : Grammar.Operand false [t]
    (.regex Expr.nowhere (String.ofList pattern) (String.ofList flags)) := by
  have own := Grammar.Operand.regex is.kind
  rwa [is.split] at own

end Token.IsRegex

theorem Filler.not_isAlpha {gap : List Char} (filler : Filler gap) :
    ∀ c ∈ gap.head?, c.isAlpha = false :=
  fun c first => fails_of_parting (by decide) (filler.head_mem c first)

/-- Regular expression literals split exactly. A pattern between slashes and letters behind it are
one token, wherever they stand, if no further letter follows; the token is split into this pattern
and these flags, and read as them where a value may start. A literal alone is a statement, which is
that regular expression. And every regular expression token of a source is split so, and read so. -/
theorem Script.regexes_split_exactly :
    (∀ pattern flags, IsPattern pattern → (∀ c ∈ flags, c.isAlpha = true) →
      (∀ place rest, (∀ c ∈ rest.head?, c.isAlpha = false) →
        ∃ t : Token, t.IsRegex pattern flags ∧
          t.span = .between place (place.after (regexLiteral pattern flags)) ∧
          scanFrom place (regexLiteral pattern flags ++ rest) =
            (scanFrom (place.after (regexLiteral pattern flags)) rest).map (t :: ·)) ∧
      ∀ before behind, Filler before → Filler behind → ∃ s span,
        Statement.ofSource (String.ofList (before ++ (regexLiteral pattern flags ++ behind))) =
          .ok s ∧
        s.kind = .expression (.regex span (String.ofList pattern) (String.ofList flags))) ∧
    (∀ source list, tokens source = .ok list → ∀ t ∈ list, t.kind = .regex →
      ∃ pattern flags, t.IsRegex pattern flags) ∧
    ∀ (t : Token) pattern flags, t.IsRegex pattern flags →
      splitRegex t.text = (String.ofList pattern, String.ofList flags) ∧
      ∀ mode : Mode, mode = .value ∨ mode = .item → ∀ frames,
        mode.step frames t = .ok (.reading
          (.operand (.regex t.span (String.ofList pattern) (String.ofList flags))) frames) := by
  refine ⟨fun pattern flags inside letters => ?_,
    fun source list scanned t member kind => exists_isRegex scanned member kind,
    fun t pattern flags is => ⟨is.split, fun mode starts frames => is.step starts frames⟩⟩
  have token (place : Position) (rest : List Char) (ends : ∀ c ∈ rest.head?, c.isAlpha = false) :
      ∃ t : Token, t.IsRegex pattern flags ∧
        t.span = .between place (place.after (regexLiteral pattern flags)) ∧
        scanFrom place (regexLiteral pattern flags ++ rest) =
          (scanFrom (place.after (regexLiteral pattern flags)) rest).map (t :: ·) :=
    ⟨⟨.regex, String.ofList (regexLiteral pattern flags),
      .between place (place.after (regexLiteral pattern flags))⟩, ⟨rfl, rfl, inside, letters⟩, rfl,
      scanFrom_token (inside.starts letters ends) place⟩
  refine ⟨token, fun before behind front back => ?_⟩
  obtain ⟨t, is, -, scanned⟩ := token (Position.start.after before) behind back.not_isAlpha
  obtain ⟨s, e, read, kind, same⟩ := Statement.ofSource_lone front back scanned fun next ends =>
    .inr ⟨⟨false, is.operand⟩, by simp [ends]⟩
  cases e <;> cases same
  exact ⟨s, _, read, kind⟩

/-- A pattern with a slash and a closing bracket in a class, a slash behind a backslash and a letter
of two bytes. -/
theorem Script.bracketed_slash_splits_exactly :
    ∃ s span, Statement.ofSource "/[/\\]*]\\/é/gi" = .ok s ∧
      s.kind = .expression (.regex span "[/\\]*]\\/é" "gi") := by
  have inClass : ClassBody ['/', '\\', ']', '*'] :=
    .plain (by decide) (by decide) (by decide)
      (.escape (by decide) (.plain (by decide) (by decide) (by decide) .nil))
  have behind : PatternBody ['\\', '/', 'é'] :=
    .escape (by decide) (.plain (by decide) (by decide) (by decide) (by decide) .nil)
  have inside : IsPattern ['[', '/', '\\', ']', '*', ']', '\\', '/', 'é'] :=
    (isPattern_iff []).mpr ⟨.bracket inClass behind, by simp [opensComment_slash]⟩
  have letters : ∀ c ∈ ['g', 'i'], c.isAlpha = true := List.all_eq_true.mp rfl
  exact (regexes_split_exactly.1 _ _ inside letters).2 [] [] .nil .nil

end MongoShell

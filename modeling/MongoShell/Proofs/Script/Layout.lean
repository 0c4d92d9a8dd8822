import Mathlib
import MongoShell.Operation.OfStatement
import MongoShell.Proofs.Script.Abreast
import MongoShell.Proofs.Statement.Alike
import MongoShell.Proofs.Token.Layout

/-! Layout does not change what a script means. With blanks and comments around its tokens a script
that asks for operations is still read, since line breaks only ever part statements that were parted
already or stand inside one; and it asks for the same operations. An expression that stands alone is
a statement, whatever layout is around it. -/

namespace MongoShell

namespace Statement

/-- Statements that ask for the same: of one kind, places apart, or commands that the shell does not
have, which ask for nothing. -/
inductive AsksAlike (statement other : Statement) : Prop
  | same (kind : statement.kind.eraseSpans = other.kind.eraseSpans) : AsksAlike statement other
  | unknown {text text' : String} (kind : statement.kind = .shell (.other text))
      (kind' : other.kind = .shell (.other text')) : AsksAlike statement other

/-- The text of a statement only matters where it asks for no operation. -/
theorem operation_anywhere {registry : Registry} {fresh : Fresh} {kind : StatementKind}
    {text : String} {span : Span} {op : Operation}
    (done : Statement.operation registry fresh ⟨kind, text, span⟩ = .ok op) (text' : String)
    (span' : Span) : Statement.operation registry fresh ⟨kind, text', span'⟩ = .ok op := by
  cases kind with
  | shell command => exact done
  | database statement => exact done
  | expression e => cases done

theorem AsksAlike.operation {registry : Registry} {f g : Fresh} {statement other : Statement}
    {op : Operation} (asks : AsksAlike statement other)
    (done : statement.operation registry f = .ok op) :
    ∃ op', other.operation registry g = .ok op' ∧ Operation.Alike f g op op' := by
  obtain ⟨kind, text, span⟩ := statement
  obtain ⟨kind', text', span'⟩ := other
  cases asks with
  | same alike =>
    have matched : Outcome.Matches (Operation.Alike f g)
        (Statement.operation registry f ⟨kind, text, span⟩)
        (Statement.operation registry g ⟨kind', text, span'⟩) :=
      Statement.operation_alike registry alike rfl
    rw [done] at matched
    obtain ⟨op', done', held⟩ := matched.exists_ok
    exact ⟨op', operation_anywhere done' text' span', held⟩
  | unknown known _ =>
    obtain rfl := known
    cases done

/-- Commands of one word, each cut out of its source. -/
theorem AsksAlike.command {source source' : List Char} {word word' name name' : Token}
    (text : name'.text = name.text) :
    AsksAlike
      (.between source word name (.shell (.ofShow name.text
        (String.ofList ((word.span.through name.span).slice source)))))
      (.between source' word' name' (.shell (.ofShow name'.text
        (String.ofList ((word'.span.through name'.span).slice source'))))) := by
  unfold ShellCommand.ofShow between
  rw [text]
  split
  · exact .same rfl
  split
  · exact .same rfl
  · exact .unknown rfl rfl

end Statement

namespace Script

variable {source other : String}

/-- A script and the same script with more layout go abreast. -/
theorem paired_of_aligned {place place' : Position} {pairs : List (Token × Token)}
    (aligned : Aligned place place' pairs) (source other : List Char) :
    Paired True source other (fun t u => (t, u) ∈ pairs) Statement.AsksAlike where
  word := aligned.word _
  breaks first second apart := aligned.keepsBreak first second apart
  joins strict := absurd trivial strict
  command _ names := Statement.AsksAlike.command (Abreast.text_eq (aligned.word _ names))
  expression _ _ same := .same (StatementKind.ofExpr_congr same)

theorem ofSource_padded {statements : List Statement}
    (padded : Padded source.toList other.toList) (read : ofSource source = .ok statements) :
    ∃ others, ofSource other = .ok others ∧
      List.Forall₂ Statement.AsksAlike statements others := by
  obtain ⟨tokens, scanned, done⟩ := (ofSource_eq_ok _ _).mp read
  obtain ⟨last, run, rfl⟩ := (Outcome.map_eq_ok _ _ _).mp done
  obtain ⟨pairs, rfl, scanned', aligned⟩ := padded.scanFrom_aligned scanned .start
  have each : List.Forall₂ (fun t u => (t, u) ∈ pairs) (pairs.map Prod.fst)
      (pairs.map Prod.snd) :=
    List.forall₂_map_left_iff.mpr (List.forall₂_map_right_iff.mpr
      (List.forall₂_same.mpr fun _ member => member))
  have begins : State.initial.Alike (fun t u => (t, u) ∈ pairs) Statement.AsksAlike []
      State.initial := State.initial_alike []
  obtain ⟨last', run', ⟨own, whole, same⟩, -⟩ :=
    State.foldlM_alike (paired_of_aligned aligned source.toList other.toList) begins each run
  rw [List.append_nil] at whole
  refine ⟨last'.statements.reverse, (ofSource_eq_ok _ _).mpr ⟨_, scanned', ?_⟩, ?_⟩
  · rw [ofTokens, run']
    rfl
  · rw [whole]
    exact List.forall₂_reverse_iff.mpr same

/-- Layout does not change meaning. A script that asks for operations asks for the same ones with
any blanks and comments in front of its tokens and behind them. Values made up on the way are
compared by their constructor. -/
theorem layout_keeps_operations {f : Fresh} {operations : List Operation}
    (padded : Padded source.toList other.toList)
    (done : Operation.ofScript f source = .ok operations) (g : Fresh) :
    ∃ others, Operation.ofScript g other = .ok others ∧
      List.Forall₂ (Operation.Alike f g) operations others := by
  cases read : ofSource source with
  | error e =>
    rw [Operation.ofScript, read] at done
    cases done
  | ok statements =>
    obtain ⟨others, read', same⟩ := ofSource_padded padded read
    rw [Operation.ofScript, read] at done
    rw [Operation.ofScript, read']
    exact Outcome.mapM_ok_of_forall₂ same (fun _ _ asks _ one => asks.operation one) done

/-- Comments and blanks of every sort around the tokens of a call. -/
theorem layout_keeps_drop :
    ∃ operations others, Operation.ofScript (.ofSeed 0 0) "db.a.drop()" = .ok operations ∧
      operations.length = 1 ∧
      Operation.ofScript (.ofSeed 1 1) "/*.*/db //(\n\t.a.drop\r(\n)/***/" = .ok others ∧
      List.Forall₂ (Operation.Alike (.ofSeed 0 0) (.ofSeed 1 1)) operations others := by
  have count : (Operation.ofScript (.ofSeed 0 0) "db.a.drop()").map List.length = .ok 1 := by cbv
  obtain ⟨operations, done, single⟩ := (Outcome.map_eq_ok _ _ _).mp count
  have db : Starts ['d', 'b'] ".a.drop()".toList (.token .identifier) := ⟨'d', _, rfl, rfl⟩
  have name : Starts ['a'] ".drop()".toList (.token .identifier) := ⟨'a', _, rfl, rfl⟩
  have drop : Starts ['d', 'r', 'o', 'p'] "()".toList (.token .identifier) := ⟨'d', _, rfl, rfl⟩
  have dot (rest : List Char) : Starts ['.'] rest (.token .dot) := ⟨'.', [], rfl, rfl⟩
  have left (rest : List Char) : Starts ['('] rest (.token .leftParen) := ⟨'(', [], rfl, rfl⟩
  have right (rest : List Char) : Starts [')'] rest (.token .rightParen) := ⟨')', [], rfl, rfl⟩
  have inLine : '\n' ∉ ['('] := by decide
  have opened : ¬['*', '/'] <:+: ['.'] := by decide
  have opened' : ¬['*', '/'] <:+: ['*'] := by decide
  have line : Filler " //(\n\t".toList := .blank rfl (.line inLine (.blank rfl .nil))
  have inner : Filler "/*.*/".toList := .block opened .nil
  have stars : Filler "/***/".toList := .block opened' .nil
  have padded : Padded "db.a.drop()".toList "/*.*/db //(\n\t.a.drop\r(\n)/***/".toList :=
    .token db inner line (.token (dot _) .nil .nil (.token name .nil .nil (.token (dot _) .nil .nil
      (.token drop .nil (.blank rfl .nil) (.token (left _) .nil (.blank rfl .nil)
        (.token (right _) .nil stars .nil))))))
  obtain ⟨others, done', alike⟩ := layout_keeps_operations padded done (.ofSeed 1 1)
  exact ⟨operations, others, done, single, done', alike⟩

end Script

/-- A text whose tokens are an expression as a whole is one statement if only blanks and comments
stand around it. -/
theorem Statement.ofSource_lone {text before behind : List Char} {own : List Token} {tree : Expr}
    (front : Filler before) (back : Filler behind)
    (scanned : scanFrom (Position.start.after before) (text ++ behind) =
      (scanFrom ((Position.start.after before).after text) behind).map (own ++ ·))
    (whole : ∀ next : Token, next.kind = .endOfInput → Grammar.Whole own next tree) :
    ∃ s e, Statement.ofSource (String.ofList (before ++ (text ++ behind))) = .ok s ∧
      s.kind = .ofExpr e ∧ e.eraseSpans = tree := by
  let final := Token.endAt (((Position.start.after before).after text).after behind)
  have behindEnd := back.scanFrom_eq ((Position.start.after before).after text) []
  rw [List.append_nil] at behindEnd
  obtain ⟨e, first, last, -, -, same, read⟩ :=
    Script.ofTokens_whole (before ++ (text ++ behind)) (whole final rfl) rfl
  have all : tokens (String.ofList (before ++ (text ++ behind))) =
      .ok (own ++ [final]) := by
    rw [tokens, String.toList_ofList, front.scanFrom_eq, scanned, behindEnd, scanFrom]
    rfl
  refine ⟨.between (before ++ (text ++ behind)) first last (.ofExpr e), e, ?_, rfl, same⟩
  rw [Statement.ofSource, Script.ofSource, all]
  simp only [String.toList_ofList, read]

end MongoShell

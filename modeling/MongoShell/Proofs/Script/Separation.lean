import Mathlib
import MongoShell.Proofs.Script.Ends
import MongoShell.Proofs.Token.Further
import MongoShell.Proofs.Token.LongestMatch

/-! What parts two statements. Behind a statement another one starts only behind a semicolon, or on
another line than that on which the last token of the statement starts. So a semicolon or a line
break stands between the two, unless that token is a string that runs over the end of a line. -/

namespace MongoShell

namespace Script

/-! The tokens between two statements -/

/-- A statement ends with a token, and behind it stand tokens that end statements. -/
def EndsIn (tokens : List Token) (s : Statement) (last : Token) (gap : List Token) : Prop :=
  ∃ before first, tokens = before ++ last :: gap ∧ first ∈ before ++ [last] ∧
    s.span = first.span.through last.span ∧ ∀ t ∈ gap, t.Ends

/-- A token may start a statement behind the latest one: it stands behind a token that ends
statements, or on another line than the last token of that statement. -/
def MayStart (tokens : List Token) (statements : List Statement) (t : Token) : Prop :=
  ∀ s ∈ statements.head?, ∃ last gap, EndsIn tokens s last gap ∧
    (gap ≠ [] ∨ t.span.line ≠ last.span.line)

/-- The later of two statements starts where it may behind the other. -/
def Follows (tokens : List Token) (later s : Statement) : Prop :=
  ∃ (earlier behind : List Token) (first last : Token), tokens = earlier ++ first :: behind ∧
    ¬first.Ends ∧ MayStart earlier [s] first ∧ later.span = first.span.through last.span

/-- What the tokens read so far say about the latest statement, and about the one that has been
started. -/
def Stage.Separates (tokens : List Token) (statements : List Statement) : Stage → Prop
  | between => ∀ s ∈ statements.head?, ∃ last gap, EndsIn tokens s last gap ∧ gap ≠ []
  | behind last => ∀ s ∈ statements.head?, EndsIn tokens s last []
  | shown word =>
    ∃ earlier, tokens = earlier ++ [word] ∧ ¬word.Ends ∧ MayStart earlier statements word
  | inside first last _ _ => ∃ earlier own, tokens = earlier ++ first :: own ∧
    (first :: own).getLast? = some last ∧ ¬first.Ends ∧ MayStart earlier statements first

/-- Of the statements read so far, the latest first, each follows the next one. -/
structure State.Separated (tokens : List Token) (state : State) : Prop where
  chain : state.statements.IsChain (Follows tokens)
  stage : state.stage.Separates tokens state.statements

theorem EndsIn.append {tokens gap : List Token} {s : Statement} {last t : Token}
    (ended : EndsIn tokens s last gap) (ends : t.Ends) :
    EndsIn (tokens ++ [t]) s last (gap ++ [t]) := by
  obtain ⟨before, first, rfl, member, span, all⟩ := ended
  refine ⟨before, first, by simp, member, span, fun u inside => ?_⟩
  rcases List.mem_append.mp inside with earlier | one
  · exact all u earlier
  · rwa [List.mem_singleton.mp one]

theorem Follows.append {tokens : List Token} {later s : Statement}
    (follows : Follows tokens later s) (more : List Token) : Follows (tokens ++ more) later s := by
  obtain ⟨earlier, behind, first, last, rfl, starts, may, span⟩ := follows
  exact ⟨earlier, behind ++ more, first, last, by simp, starts, may, span⟩

theorem chain_append {tokens : List Token} {statements : List Statement}
    (chain : statements.IsChain (Follows tokens)) (more : List Token) :
    statements.IsChain (Follows (tokens ++ more)) :=
  chain.imp fun _ _ follows => follows.append more

namespace State

variable {source : List Char} {state next : State} {tokens : List Token} {t : Token}

theorem start_separated (chain : state.statements.IsChain (Follows (tokens ++ [t])))
    (ended : t.Ends → Stage.between.Separates (tokens ++ [t]) state.statements)
    (may : MayStart tokens state.statements t) (done : state.start t = .ok next) :
    next.Separated (tokens ++ [t]) := by
  unfold start at done
  split at done
  · rename_i ends
    cases done
    exact ⟨chain, ended ends⟩
  rename_i starts
  split at done
  · cases done
    exact ⟨chain, tokens, rfl, starts, may⟩
  · obtain ⟨place, -, rfl⟩ := (Outcome.map_eq_ok _ _ _).mp done
    exact ⟨chain, tokens, [], rfl, rfl, starts, may⟩

/-- This is where the lines are compared: that of the token at hand, and that on which the last
token of the statement starts. -/
theorem separate_separated {last : Token}
    (chain : state.statements.IsChain (Follows (tokens ++ [t])))
    (ended : ∀ s ∈ state.statements.head?, EndsIn tokens s last [])
    (done : state.separate last t = .ok next) : next.Separated (tokens ++ [t]) := by
  have between (ends : t.Ends) : Stage.between.Separates (tokens ++ [t]) state.statements :=
    fun s latest => ⟨last, [t], (ended s latest).append ends, List.cons_ne_nil _ _⟩
  unfold separate at done
  split at done
  · rename_i ends
    cases done
    exact ⟨chain, between ends⟩
  split at done
  · cases done
  · rename_i otherLine
    exact start_separated chain between
      (fun s latest => ⟨last, [], ended s latest, .inr otherLine⟩) done

/-- A statement that ends with the tokens read so far follows the one before it. -/
theorem follows_addStatement (text : List Char) (kind : StatementKind)
    {statements : List Statement} {earlier own : List Token} {first last : Token}
    (starts : ¬first.Ends) (may : MayStart earlier statements first)
    (ends : (first :: own).getLast? = some last)
    (chain : statements.IsChain (Follows (earlier ++ first :: own))) :
    (Statement.between text first last kind :: statements).IsChain
        (Follows (earlier ++ first :: own)) ∧
      EndsIn (earlier ++ first :: own) (.between text first last kind) last [] := by
  constructor
  · refine chain.cons fun s latest => ?_
    have alone : MayStart earlier [s] first := by
      rintro _ ⟨⟩
      exact may s latest
    exact ⟨earlier, own, first, last, rfl, starts, alone, rfl⟩
  · obtain ⟨init, same⟩ := List.getLast?_eq_some_iff.mp ends
    have member : first ∈ init ++ [last] := same ▸ List.mem_cons_self
    refine ⟨earlier ++ init, first, ?_, ?_, rfl, nofun⟩
    · rw [same, List.append_assoc]
    · rw [List.append_assoc]
      exact List.mem_append_right _ member

theorem continueExpression_separated {earlier own : List Token} {first last : Token} {mode : Mode}
    {frames : List Frame} (starts : ¬first.Ends) (may : MayStart earlier state.statements first)
    (ends : (first :: own).getLast? = some last)
    (chain : state.statements.IsChain (Follows (earlier ++ first :: own)))
    (done : state.continueExpression source first last mode frames t = .ok next) :
    next.Separated (earlier ++ first :: own ++ [t]) := by
  unfold continueExpression at done
  split at done
  · cases done
  · cases done
    have ends : (first :: (own ++ [t])).getLast? = some t := by
      rw [List.getLast?_cons, List.getLast?_concat, Option.getD_some]
    exact ⟨chain_append chain [t], earlier, own ++ [t], by simp, ends, starts, may⟩
  · rename_i e _
    obtain ⟨added, ended⟩ :=
      follows_addStatement source (.ofExpr e) starts may ends chain
    refine separate_separated (chain_append added [t]) ?_ done
    rintro s ⟨⟩
    exact ended

theorem step_separated (separated : state.Separated tokens)
    (done : state.step source t = .ok next) : next.Separated (tokens ++ [t]) := by
  obtain ⟨statements, stage⟩ := state
  obtain ⟨chain, separates⟩ := separated
  cases stage with
  | between =>
    refine start_separated (chain_append chain [t]) ?_ ?_ done
    · intro ends s latest
      obtain ⟨last, gap, ended, -⟩ := separates s latest
      exact ⟨last, gap ++ [t], ended.append ends, by simp⟩
    · intro s latest
      obtain ⟨last, gap, ended, some⟩ := separates s latest
      exact ⟨last, gap, ended, .inl some⟩
  | behind last => exact separate_separated (chain_append chain [t]) separates done
  | inside first last mode frames =>
    obtain ⟨earlier, own, rfl, ends, starts, may⟩ := separates
    exact continueExpression_separated starts may ends chain done
  | shown word =>
    obtain ⟨earlier, rfl, starts, may⟩ := separates
    simp only [step] at done
    split at done
    · cases done
      have further : earlier ++ [word] ++ [t] = earlier ++ word :: [t] := by simp
      rw [further]
      have before := chain_append chain [t]
      rw [further] at before
      have ends : [word, t].getLast? = some t := rfl
      obtain ⟨added, ended⟩ := follows_addStatement source _ starts may ends before
      refine ⟨added, ?_⟩
      rintro s ⟨⟩
      exact ended
    · have ends : [word].getLast? = some word := rfl
      exact continueExpression_separated starts may ends chain done

theorem foldlM_separated {last : State} {rest : List Token} (separated : state.Separated tokens)
    (done : rest.foldlM (step source) state = .ok last) : last.Separated (tokens ++ rest) := by
  induction rest generalizing state tokens with
  | nil =>
    cases done
    rwa [List.append_nil]
  | cons t rest ih =>
    rw [List.foldlM_cons] at done
    obtain ⟨middle, one, more⟩ := (Outcome.bind_eq_ok _ _ _).mp done
    simpa using ih (step_separated separated one) more

end State

theorem follows_of_ofTokens {source : List Char} {tokens : List Token}
    {statements before behind : List Statement} {s later : Statement}
    (done : ofTokens source tokens = .ok statements)
    (parted : statements = before ++ s :: later :: behind) : Follows tokens later s := by
  obtain ⟨last, run, rfl⟩ := (Outcome.map_eq_ok _ _ _).mp done
  have initial : State.initial.Separated [] := ⟨.nil, nofun⟩
  have chain := (State.foldlM_separated initial run).chain
  exact List.isChain_iff_forall_rel_of_append_cons_cons.mp (List.isChain_reverse.mpr chain) parted

end Script

/-! The text between two statements -/

theorem PatternBody.inline {body : List Char} (inside : PatternBody body) : '\n' ∉ body := by
  have inClass {text : List Char} (inside : ClassBody text) : '\n' ∉ text := by
    induction inside with
    | nil => exact List.not_mem_nil
    | escape inLine _ ih => simp [ih, Ne.symm inLine]
    | plain _ _ inLine _ ih => simp [ih, Ne.symm inLine]
  induction inside with
  | nil => exact List.not_mem_nil
  | escape inLine _ ih => simp [ih, Ne.symm inLine]
  | bracket inside _ ih => simp [ih, inClass inside]
  | plain _ _ _ inLine _ ih => simp [ih, Ne.symm inLine]

theorem Mantissa.inline {text : List Char} (mantissa : Mantissa text) : '\n' ∉ text := by
  intro feed
  rcases mantissa.digit_or_point _ feed with digit | point
  · cases digit
  · cases point

/-- Only a string runs over the end of a line. -/
theorem Lexeme.kind_eq_string {kind : TokenKind} {text : List Char}
    (lexeme : Lexeme (.token kind) text) (feed : '\n' ∈ text) : kind = .string := by
  cases lexeme with
  | string => rfl
  | identifier start parts =>
    rcases List.mem_cons.mp feed with rfl | part
    · cases start
    · cases parts _ part
  | number mantissa => exact absurd feed mantissa.inline
  | scaledNumber mantissa mark signed all =>
    simp only [List.mem_append, List.mem_cons] at feed
    rcases feed with front | same | sign | digit
    · exact absurd front mantissa.inline
    · rcases mark with rfl | rfl <;> cases same
    · rcases signed with rfl | rfl | rfl <;> simp at sign
    · cases all.2 _ digit
  | regex pattern _ =>
    obtain ⟨inside, letters⟩ := pattern
    simp only [List.mem_append, List.mem_cons] at feed
    rcases feed with slash | body | slash | flag
    · cases slash
    · exact absurd body inside.inline
    · cases slash
    · cases letters _ flag
  | mark mark =>
    obtain rfl := List.mem_singleton.mp feed
    cases mark

/-- The first token of a stretch, the trivia in front of it and the stretch behind it. -/
theorem Stretch.first {place : Position} {text rest : List Char} {t : Token} {tokens : List Token}
    (stretch : Stretch place text rest (t :: tokens)) :
    ∃ gap piece more, text = gap ++ (piece ++ more) ∧
      t.text = String.ofList piece ∧ Lexeme (.token t.kind) piece ∧
      t.span = .between (place.after gap) (place.after (gap ++ piece)) ∧
      Stretch (place.after (gap ++ piece)) more rest tokens := by
  generalize all : t :: tokens = list at stretch
  induction stretch with
  | nil => cases all
  | @trivia place piece text rest list starts _ ih =>
    obtain ⟨gap, own, more, rfl, content, lexeme, span, stretch⟩ := ih all
    rw [← Position.after_append, ← Position.after_append, ← List.append_assoc] at span
    rw [← Position.after_append, ← List.append_assoc] at stretch
    exact ⟨piece ++ gap, own, more, by simp, content, lexeme, span, stretch⟩
  | @token place piece text rest kind list starts others _ =>
    cases all
    exact ⟨[], piece, text, rfl, rfl, starts.longest.lexeme, rfl, others⟩

/-- Two tokens of a source, and the text between them. -/
theorem Stretch.two {source : List Char} {before gap behind : List Token} {t u : Token}
    (stretch : Stretch .start source [] (before ++ t :: (gap ++ u :: behind))) :
    ∃ front piece between back last, source = front ++ (piece ++ (between ++ back)) ∧
      t.text = String.ofList piece ∧ Lexeme (.token t.kind) piece ∧
      t.span = .between (Position.start.after front) (Position.start.after (front ++ piece)) ∧
      u.span = .between (Position.start.after (front ++ piece ++ between)) last := by
  obtain ⟨early, left, rfl, -, stretch, -⟩ := stretch.skip rfl
  obtain ⟨trivia, piece, more, rfl, content, lexeme, span, stretch⟩ := stretch.first
  obtain ⟨passed, left, rfl, -, stretch, -⟩ := stretch.skip rfl
  obtain ⟨trivia', other, more, rfl, -, -, span', -⟩ := stretch.first
  simp only [← Position.after_append] at span span'
  exact ⟨early ++ trivia, piece, passed ++ trivia', other ++ more,
    Position.start.after (early ++ trivia ++ piece ++ passed ++ trivia' ++ other), by simp, content,
    lexeme, by simpa using span, by simpa using span'⟩

namespace Script

/-- A semicolon stands between two statements. -/
def SemicolonBetween (list : List Token) (s later : Statement) : Prop :=
  ∃ t ∈ list, t.kind = .semicolon ∧ s.span.stop ≤ t.span.start ∧ t.span.stop ≤ later.span.start

/-- A statement ends with a string that runs over the end of a line. -/
def EndsInLines (list : List Token) (s : Statement) : Prop :=
  ∃ t ∈ list, t.kind = .string ∧ t.span.stop = s.span.stop ∧ '\n' ∈ t.text.toList

/-- The end of a statement is that of its last token. -/
theorem EndsIn.stop_eq {list more gap : List Token} {s : Statement} {last : Token}
    (ended : EndsIn list s last gap)
    (ordered : (list ++ more).Pairwise fun t u => t.span.stop ≤ u.span.start)
    (forward : last.span.start ≤ last.span.stop) : s.span.stop = last.span.stop := by
  obtain ⟨before, first, rfl, member, span, -⟩ := ended
  have early : first.span.stop ≤ last.span.stop := by
    rcases List.mem_append.mp member with earlier | same
    · rw [List.append_assoc] at ordered
      have apart := (List.pairwise_append.mp ordered).2.2 first earlier last List.mem_cons_self
      exact apart.trans forward
    · exact (List.mem_singleton.mp same).symm ▸ Nat.le_refl _
  rw [span, Span.through, Nat.max_eq_left early]

/-- Tokens that end statements and have one behind them that does not are semicolons. -/
theorem semicolonBetween_of_gap {source : List Char} {before gap behind : List Token}
    {last first : Token} {s later : Statement}
    (laid : LaidOut source 0 (before ++ last :: (gap ++ first :: behind))) (some : gap ≠ [])
    (ends : ∀ t ∈ gap, t.Ends) (stop : s.span.stop = last.span.stop)
    (start : later.span.start = first.span.start) :
    SemicolonBetween (before ++ last :: (gap ++ first :: behind)) s later := by
  obtain ⟨t, gap', rfl⟩ := List.exists_cons_of_ne_nil some
  have ordered := (List.pairwise_append.mp laid.ordered).2.1
  obtain ⟨behindLast, ordered⟩ := List.pairwise_cons.mp ordered
  have inFront := (List.pairwise_append.mp ordered).2.2 t List.mem_cons_self first
    List.mem_cons_self
  refine ⟨t, by simp, ?_, stop ▸ behindLast t (by simp), start ▸ inFront⟩
  rcases ends t List.mem_cons_self with semicolon | eof
  · exact semicolon
  · obtain ⟨own, final, same, -, -, -, no⟩ := laid.ends
    have parted : before ++ last :: (t :: gap' ++ first :: behind) =
        (before ++ last :: t :: gap') ++ first :: behind := by simp
    have own_eq := congrArg List.dropLast same
    rw [List.dropLast_concat, parted, List.dropLast_append_cons] at own_eq
    exact absurd eof (no t (own_eq ▸ by simp))

theorem between_of_follows {source : List Char} {list : List Token} {s later : Statement}
    (scanned : scanFrom .start source = .ok list) (follows : Follows list later s) :
    Between source s.span.stop later.span.start fun gap =>
      '\n' ∈ gap ∨ SemicolonBetween list s later ∨ EndsInLines list s := by
  obtain ⟨earlier, behind, first, final, rfl, starts, may, laterSpan⟩ := follows
  obtain ⟨last, gap, ended, apart⟩ := may s rfl
  have laid := laidOut_of_scanFrom scanned
  obtain ⟨before, -, rfl, -, -, ends⟩ := id ended
  obtain ⟨own, all, stretch⟩ := stretch_of_scanFrom scanned
  -- a statement does not start with the end of the input, so something is behind its first token
  rcases List.eq_nil_or_concat' behind with rfl | ⟨behind, eof, rfl⟩
  · obtain ⟨-, same⟩ := List.append_inj' all rfl
    obtain rfl := (List.cons.inj same).1
    exact absurd (.inr rfl) starts
  have parted : (before ++ last :: (gap ++ first :: behind)) ++ [eof] =
      own ++ [Token.endAt (Position.start.after source)] := by simpa using all
  obtain ⟨rfl, -⟩ := List.append_inj' parted rfl
  obtain ⟨front, piece, between, back, stop, rfl, content, lexeme, lastSpan, firstSpan⟩ :=
    stretch.two
  have start : later.span.start = first.span.start := by rw [laterSpan]; rfl
  have forward : last.span.start ≤ last.span.stop := by
    simp only [lastSpan, Span.between, Position.offset_after, byteCount_append]
    omega
  have stop := ended.stop_eq laid.ordered forward
  refine ⟨front ++ piece, between, back, by simp, ?_, ?_, ?_⟩
  · rw [stop, lastSpan]
    exact Position.offset_start _
  · rw [start, firstSpan]
    exact Position.offset_start _
  · by_cases none : gap = []
    · have otherLine := apart.resolve_left (absurd none)
      simp only [firstSpan, lastSpan, Span.between, Position.line_after, List.count_append]
        at otherLine
      by_cases inside : '\n' ∈ piece
      · refine .inr (.inr ⟨last, by simp, lexeme.kind_eq_string inside, stop.symm, ?_⟩)
        rwa [content, String.toList_ofList]
      by_cases behind : '\n' ∈ between
      · exact .inl behind
      · rw [List.count_eq_zero.mpr inside, List.count_eq_zero.mpr behind] at otherLine
        exact absurd rfl otherLine
    · refine .inr (.inl ?_)
      simpa using semicolonBetween_of_gap (by simpa using laid) none ends stop start

/-- Statements are separated. In a script that is accepted, the text from the end of one statement
to the start of the next one has a line break in it or a semicolon stands there, unless the first
statement ends with a string that runs over the end of a line. -/
theorem separated_unless_in_lines {source : String} {statements before behind : List Statement}
    {s later : Statement} (read : ofSource source = .ok statements)
    (parted : statements = before ++ s :: later :: behind) :
    ∃ list, tokens source = .ok list ∧
      Between source.toList s.span.stop later.span.start fun gap =>
        '\n' ∈ gap ∨ SemicolonBetween list s later ∨ EndsInLines list s := by
  obtain ⟨list, scanned, done⟩ := (ofSource_eq_ok source statements).mp read
  exact ⟨list, scanned, between_of_follows scanned (follows_of_ofTokens done parted)⟩

/-- Two calls on one line, and a third one behind a comment over two lines. -/
theorem comment_separates :
    ∃ s t later list, ofSource "a();b() /*\n*/ c()" = .ok [s, t, later] ∧
      tokens "a();b() /*\n*/ c()" = .ok list ∧
      Between "a();b() /*\n*/ c()".toList t.span.stop later.span.start fun gap =>
        '\n' ∈ gap ∨ SemicolonBetween list t later ∨ EndsInLines list t := by
  have count : (ofSource "a();b() /*\n*/ c()").map List.length = .ok 3 := by cbv
  obtain ⟨statements, read, length⟩ := (Outcome.map_eq_ok _ _ _).mp count
  obtain ⟨s, t, later, rfl⟩ := List.length_eq_three.mp length
  have parted : [s, t, later] = [s] ++ t :: later :: [] := rfl
  obtain ⟨list, scanned, between⟩ := separated_unless_in_lines read parted
  exact ⟨s, t, later, list, read, scanned, between⟩

/-- Behind a string over two lines a statement is read on the line where the string ends. -/
theorem string_in_lines_separates_nothing :
    ¬∀ (source : String) (list : List Token) (before behind : List Statement) (s later : Statement),
      tokens source = .ok list → ofSource source = .ok (before ++ s :: later :: behind) →
      Between source.toList s.span.stop later.span.start fun gap =>
        '\n' ∈ gap ∨ SemicolonBetween list s later := by
  intro all
  let line : Span := ⟨0, 6, 1, 1⟩
  let word : Span := ⟨7, 8, 2, 4⟩
  have scanned : tokens "'a\\\nb' c" = .ok [⟨.string, "'a\\\nb'", line⟩,
      ⟨.identifier, "c", word⟩, ⟨.endOfInput, "", ⟨8, 8, 2, 5⟩⟩] := by cbv
  have read : ofSource "'a\\\nb' c" =
      .ok [⟨.expression (.string line "a\nb"), "'a\\\nb'", line⟩,
        ⟨.expression (.identifier word "c"), "c", word⟩] := by cbv
  obtain ⟨front, gap, back, whole, start, stop, apart⟩ := all _ _ [] [] _ _ scanned read
  have cut : Span.slice ⟨6, 7, 0, 0⟩ (front ++ (gap ++ back)) = gap := by
    rw [byteCount_append, ← start] at stop
    have same := Span.slice_append 0 0 front gap back
    rwa [← start, ← stop] at same
  rw [← whole] at cut
  obtain rfl : [' '] = gap := cut
  rcases apart with feed | ⟨t, member, kind, -⟩
  · simp at feed
  · simp only [List.mem_cons, List.not_mem_nil, or_false] at member
    rcases member with rfl | rfl | rfl <;> cases kind

end Script

end MongoShell

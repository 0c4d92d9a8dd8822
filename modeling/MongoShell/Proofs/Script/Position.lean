import MongoShell.Proofs.Script.Prefix
import MongoShell.Proofs.Token.Further
import MongoShell.Proofs.Token.LongestMatch

/-! Lines and columns. The scanner counts both as it goes on, character by character. Whatever it
has passed, comments and strings over several lines included, the two numbers are those that a
reader counts in the text in front of the place. -/

namespace MongoShell

/-! Counting -/

/-- The characters behind the last line feed of a text. -/
def lastLine (text : List Char) : List Char := (text.reverse.takeWhile (· != '\n')).reverse

theorem lastLine_append_singleton (text : List Char) (c : Char) :
    lastLine (text ++ [c]) = if c = '\n' then [] else lastLine text ++ [c] := by
  by_cases feed : c = '\n' <;> simp [lastLine, feed]

theorem Position.column_after_start (text : List Char) :
    (start.after text).column = 1 + (lastLine text).length := by
  induction text using List.reverseRecOn with
  | nil => rfl
  | append_singleton text c ih =>
    rw [after_append, after_cons, after_nil, next, lastLine_append_singleton]
    split
    · rfl
    · simp only [ih, List.length_append, List.length_singleton]
      omega

/-- A line and a column are those of the place behind a front part of a source: as many lines down
as line feeds stand in that part, and as many columns in as characters stand behind the last of
them. Both fit in 32 bits. -/
structure PlacedBehind (source front : List Char) (line column : Nat) : Prop where
  within : front <+: source
  line_eq : line = 1 + front.count '\n'
  column_eq : column = 1 + (lastLine front).length
  line_lt : line < 2 ^ 32
  column_lt : column < 2 ^ 32

theorem placedBehind_after {source front : List Char} (short : byteCount source < 2 ^ 32 - 1)
    (within : front <+: source) :
    PlacedBehind source front (Position.start.after front).line
      (Position.start.after front).column := by
  have line : (Position.start.after front).line = 1 + front.count '\n' :=
    Position.start.line_after front
  have column := Position.column_after_start front
  have length : front.length ≤ byteCount source :=
    within.length_le.trans (length_le_byteCount source)
  have feeds : front.count '\n' ≤ front.length := List.count_le_length
  have last : (lastLine front).length ≤ front.length := by
    rw [lastLine, List.length_reverse, ← front.length_reverse]
    exact (List.takeWhile_sublist _).length_le
  exact ⟨within, line, column, by omega, by omega⟩

/-! Tokens -/

/-- A token of a stretch starts behind a part of it. -/
theorem Stretch.exists_place {place : Position} {text rest : List Char} {tokens : List Token}
    (stretch : Stretch place text rest tokens) {t : Token} (member : t ∈ tokens) :
    ∃ front last, front <+: text ∧ t.span = .between (place.after front) last := by
  induction stretch with
  | nil => cases member
  | @trivia place piece text rest tokens _ _ ih =>
    obtain ⟨front, last, within, span⟩ := ih member
    rw [← Position.after_append] at span
    exact ⟨piece ++ front, last, (List.prefix_append_right_inj piece).mpr within, span⟩
  | @token place piece text rest kind tokens _ _ ih =>
    rcases List.mem_cons.mp member with rfl | behind
    · exact ⟨[], place.after piece, List.nil_prefix, rfl⟩
    · obtain ⟨front, last, within, span⟩ := ih behind
      rw [← Position.after_append] at span
      exact ⟨piece ++ front, last, (List.prefix_append_right_inj piece).mpr within, span⟩

theorem exists_place_of_scanFrom {text : List Char} {list : List Token}
    (done : scanFrom .start text = .ok list) {t : Token} (member : t ∈ list) :
    ∃ front last, front <+: text ∧ t.span = .between (Position.start.after front) last := by
  obtain ⟨own, rfl, stretch⟩ := stretch_of_scanFrom done
  rcases List.mem_append.mp member with inner | final
  · exact stretch.exists_place inner
  · rw [List.mem_singleton.mp final]
    exact ⟨text, _, List.prefix_refl text, rfl⟩

theorem placedBehind_of_scanFrom {source : List Char} {list : List Token}
    (short : byteCount source < 2 ^ 32 - 1) (done : scanFrom .start source = .ok list) {t : Token}
    (member : t ∈ list) :
    ∃ front, byteCount front = t.span.start ∧
      PlacedBehind source front t.span.line t.span.column := by
  obtain ⟨front, last, within, span⟩ := exists_place_of_scanFrom done member
  refine ⟨front, ?_, ?_⟩
  · rw [span]
    exact (Position.offset_start front).symm
  · rw [span]
    exact placedBehind_after short within

/-! Malformed lexemes -/

/-- A text in front of another is cut into pieces, each the longest lexeme where it stands. -/
inductive CutBefore (rest : List Char) : List Char → Prop
  | nil : CutBefore rest []
  | cons {sort : Piece} {piece text : List Char}
      (longest : Longest Lexeme sort piece (text ++ rest)) (others : CutBefore rest text) :
      CutBefore rest (piece ++ text)

/-- How a text starts whose first lexeme has a fault. -/
def SyntaxFault.Heads : SyntaxFault → List Char → Prop
  | bareExponent number, text => number.toList <+: text
  | unclosedString quote, text => [quote] <+: text
  | unclosedRegex, text => ['/'] <+: text
  | unclosedComment, text => ['/', '*'] <+: text
  | strayCharacter c, text => [c] <+: text
  | _, _ => False

/-- Behind a front part of a source, which is cut into lexemes, stands a malformed one: there is a
fault at what it starts with, and no lexeme is the longest there. -/
def MalformedBehind (source front : List Char) (fault : SyntaxFault) : Prop :=
  ∃ rest, source = front ++ rest ∧ CutBefore rest front ∧ fault.Heads rest ∧
    ∀ sort piece behind, rest = piece ++ behind → ¬Longest Lexeme sort piece behind

theorem Stretch.cutBefore {place : Position} {text rest : List Char} {tokens : List Token}
    (stretch : Stretch place text rest tokens) : CutBefore rest text := by
  induction stretch with
  | nil => exact .nil
  | trivia starts _ ih => exact .cons starts.longest ih
  | token starts _ ih => exact .cons starts.longest ih

theorem heads_of_slashFront {text : List Char} {fault : SyntaxFault}
    (failed : slashFront text = .error fault) : fault.Heads ('/' :: text) := by
  unfold slashFront at failed
  split at failed
  · cases failed
  · split at failed
    · cases failed
    · cases failed
      exact ⟨_, rfl⟩
  · split at failed
    · cases failed
    · cases failed
      exact ⟨_, rfl⟩

theorem heads_of_front {c : Char} {text : List Char} {fault : SyntaxFault}
    (failed : front c text = .error fault) : fault.Heads (c :: text) := by
  unfold front at failed
  split at failed
  · cases failed
  split at failed
  · simp only at failed
    split at failed
    · cases failed
    · cases failed
      refine ⟨(cutNumber (c :: text)).rest, ?_⟩
      rw [String.toList_ofList]
      exact whole_cutNumber (c :: text)
  split at failed
  · split at failed
    · cases failed
    · cases failed
      exact ⟨text, rfl⟩
  split at failed
  · rename_i slash
    rw [slash]
    exact heads_of_slashFront failed
  split at failed
  · cases failed
  split at failed
  · cases failed
  · cases failed
    exact ⟨text, rfl⟩

/-- A scanner that fails does so at one piece, behind all that it has cut. -/
theorem exists_fault_of_scanFrom {place : Position} {text : List Char} {e : SyntaxError}
    (failed : scanFrom place text = .error e) :
    ∃ before c rest own, text = before ++ c :: rest ∧ Stretch place before (c :: rest) own ∧
      front c rest = .error e.fault ∧ e.line = (place.after before).line ∧
      e.column = (place.after before).column := by
  induction size : text.length using Nat.strong_induction_on generalizing place text with
  | _ size ih =>
    subst size
    cases text with
    | nil =>
      rw [scanFrom] at failed
      cases failed
    | cons c text =>
      cases read : front c text with
      | error fault =>
        rw [scanFrom_fault read] at failed
        cases failed
        exact ⟨[], c, text, [], rfl, .nil, read, rfl, rfl⟩
      | ok result =>
        have shorter := front_rest_lt read
        obtain ⟨same, starts⟩ := starts_of_front read
        obtain ⟨sort, piece, rest⟩ := result
        simp only at same starts shorter
        rw [same] at failed ⊢
        cases sort with
        | trivia =>
          rw [scanFrom_trivia starts] at failed
          obtain ⟨before, d, behind, own, rfl, stretch, fails, line, column⟩ :=
            ih rest.length shorter failed rfl
          rw [← Position.after_append] at line column
          exact ⟨piece ++ before, d, behind, own, by simp, .trivia starts stretch, fails, line,
            column⟩
        | token kind =>
          rw [scanFrom_token starts] at failed
          obtain ⟨before, d, behind, own, rfl, stretch, fails, line, column⟩ :=
            ih rest.length shorter ((Outcome.map_eq_error _ _ _).mp failed) rfl
          rw [← Position.after_append] at line column
          exact ⟨piece ++ before, d, behind, _, by simp, .token starts stretch, fails, line, column⟩

theorem malformedBehind_of_scanFrom {source : List Char} {e : SyntaxError}
    (short : byteCount source < 2 ^ 32 - 1) (failed : scanFrom .start source = .error e) :
    ∃ front, MalformedBehind source front e.fault ∧ PlacedBehind source front e.line e.column := by
  obtain ⟨before, c, rest, own, rfl, stretch, fails, line, column⟩ :=
    exists_fault_of_scanFrom failed
  refine ⟨before, ⟨c :: rest, rfl, stretch.cutBefore, heads_of_front fails, ?_⟩, ?_⟩
  · intro sort piece behind same longest
    have read := longest.starts.front_eq same.symm
    rw [fails] at read
    cases read
  · rw [line, column]
    exact placedBehind_after short (List.prefix_append before (c :: rest))

/-! Whole scripts -/

/-- Positions are exact. In a source whose offsets fit in 32 bits each token carries the line and
the column that are counted in the text in front of it. So does each error: one of the scanner those
of the malformed lexeme or comment, one of a script those of the token at which the reading of the
script stops. -/
theorem Script.positions_exact {source : String} (short : source.utf8ByteSize < 2 ^ 32 - 1) :
    (∀ list, tokens source = .ok list → ∀ t ∈ list, ∃ front, byteCount front = t.span.start ∧
      PlacedBehind source.toList front t.span.line t.span.column) ∧
    (∀ e, tokens source = .error e → ∃ front, MalformedBehind source.toList front e.fault ∧
      PlacedBehind source.toList front e.line e.column) ∧
    ∀ e, ofSource source = .error e → tokens source = .error e ∨
      ∃ before t behind middle front, tokens source = .ok (before ++ t :: behind) ∧
        before.foldlM (State.step source.toList) State.initial = .ok middle ∧
        middle.step source.toList t = .error e ∧ byteCount front = t.span.start ∧
        PlacedBehind source.toList front e.line e.column := by
  rw [← byteCount_toList] at short
  refine ⟨fun list done t member => placedBehind_of_scanFrom short done member,
    fun e failed => malformedBehind_of_scanFrom short failed, fun e failed => ?_⟩
  rcases (ofSource_eq_error source e).mp failed with fault | ⟨list, scanned, rejected⟩
  · exact .inl fault
  · obtain ⟨before, t, behind, middle, rfl, run, fails⟩ :=
      Outcome.foldlM_eq_error.mp ((Outcome.map_eq_error _ _ _).mp rejected)
    obtain ⟨fault, rfl⟩ := step_fails fails
    obtain ⟨front, start, placed⟩ := placedBehind_of_scanFrom short scanned
      (List.mem_append_right before List.mem_cons_self)
    exact .inr ⟨before, t, behind, middle, front, scanned, run, fails, start, placed⟩

/-- Behind a comment and a string over two lines each, and characters of two bytes. -/
theorem Script.position_behind_lines :
    tokens "/* é\n */ 'é\\\né' @" = .error ⟨3, 4, .strayCharacter '@'⟩ ∧
    ∃ front, MalformedBehind "/* é\n */ 'é\\\né' @".toList front (.strayCharacter '@') ∧
      PlacedBehind "/* é\n */ 'é\\\né' @".toList front 3 4 := by
  have failed : tokens "/* é\n */ 'é\\\né' @" = .error ⟨3, 4, .strayCharacter '@'⟩ := by cbv
  have short : "/* é\n */ 'é\\\né' @".utf8ByteSize < 2 ^ 32 - 1 := by decide
  exact ⟨failed, (positions_exact short).2.1 _ failed⟩

end MongoShell

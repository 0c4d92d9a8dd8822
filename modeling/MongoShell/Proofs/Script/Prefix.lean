import Mathlib
import MongoShell.Proofs.Expr.Completion
import MongoShell.Proofs.Script.Abreast
import MongoShell.Proofs.Script.Ends

/-! Where a script is rejected. What stands in front of the token reported can be completed to a
script, and no script goes on with that token: so it is the first one that is wrong. -/

namespace MongoShell

/-! The text of a completion -/

namespace Plug

/-- The text of some plugs, each on a line of its own. -/
def text : List Plug → List Char
  | [] => []
  | plug :: plugs => '\n' :: plug.char :: text plugs

theorem head_text (plugs : List Plug) : ∀ c ∈ (text plugs).head?, c = '\n' := by
  cases plugs with
  | nil => simp [text]
  | cons plug plugs =>
    rintro c ⟨⟩
    rfl

theorem starts (plug : Plug) {rest : List Char} (line : ∀ c ∈ rest.head?, c = '\n') :
    Starts [plug.char] rest (.token plug.kind) := by
  refine ⟨plug.char, [], rfl, ?_⟩
  cases rest with
  | nil => cases plug <;> rfl
  | cons c rest =>
    obtain rfl := line c rfl
    cases plug <;> rfl

theorem stretch_text (plugs : List Plug) (place : Position) :
    ∃ tokens, Stretch place (text plugs) [] tokens ∧ Fits plugs tokens := by
  induction plugs generalizing place with
  | nil => exact ⟨[], .nil, rfl⟩
  | cons plug plugs ih =>
    obtain ⟨tokens, stretch, fits⟩ := ih ((place.after ['\n']).after [plug.char])
    have line : ∀ c ∈ (text plugs ++ []).head?, c = '\n' := by simpa using head_text plugs
    have own := plug.starts line
    refine ⟨_, .trivia (starts_blank rfl _) (.token own stretch), ?_⟩
    rw [Fits, List.map_cons, List.map_cons, fits]

end Plug

/-- What there is of a token apart from its column: its kind, its text and its line. -/
def Token.sight (t : Token) : TokenKind × String × Nat := (t.kind, t.text, t.span.line)

def Token.SeenAs (t u : Token) : Prop := t.sight = u.sight

theorem Token.SeenAs.refl (t : Token) : t.SeenAs t := rfl

/-- The text of a source in front of a token. -/
def Token.textBefore (source : List Char) (t : Token) : List Char :=
  takeBytes t.span.start source

/-- The tokens of the text in front of a token are those in front of it. -/
theorem stretch_textBefore {source : List Char} {before behind : List Token} {t : Token}
    (scanned : scanFrom .start source = .ok (before ++ t :: behind)) :
    ∃ left, Stretch .start (t.textBefore source) left before := by
  obtain ⟨own, all, stretch⟩ := stretch_of_scanFrom scanned
  rcases List.eq_nil_or_concat' behind with rfl | ⟨behind, final, rfl⟩
  · obtain ⟨rfl, last⟩ := List.append_inj' all rfl
    obtain rfl : t = Token.endAt (Position.start.after source) := List.cons.inj last |>.1
    have whole := takeBytes_append source []
    rw [List.append_nil, ← Position.offset_start source] at whole
    refine ⟨[], ?_⟩
    rw [Token.textBefore, Token.endAt, Span.between, whole]
    exact stretch
  · have parted : (before ++ t :: behind) ++ [final] =
        own ++ [Token.endAt (Position.start.after source)] := by simpa using all
    obtain ⟨rfl, -⟩ := List.append_inj' parted rfl
    obtain ⟨front, left, rfl, earlier, -, start⟩ := stretch.skip rfl
    refine ⟨left ++ [], ?_⟩
    rw [Token.textBefore, start, Position.offset_start, takeBytes_append]
    exact earlier

namespace Script

/-! Completing a script -/

/-- What ends the statement that a stage is in the middle of. -/
def Stage.completion : Stage → List Plug
  | inside _ _ mode frames => mode.completion ++ frames.map Frame.closing
  | _ => []

namespace State

theorem inside_completes (source : List Char) (statements : List Statement) (first last : Token)
    (mode : Mode) (frames : List Frame) {tokens : List Token} {final : Token}
    (fits : Plug.Fits (mode.completion ++ frames.map Frame.closing) tokens)
    (kind : final.kind = .endOfInput) :
    ∃ done, (tokens ++ [final]).foldlM (step source)
      ⟨statements, .inside first last mode frames⟩ = .ok done := by
  obtain ⟨mode', e, run, holds⟩ := Mode.reaches_end mode frames fits
  have finished : mode'.step [] final = .ok (.finished e) := holds [] final (by simp [kind])
  let latest := tokens.getLast?.getD last
  have ended : step source ⟨statements, .inside first latest mode' []⟩ final =
      .ok ⟨.between source first latest (.ofExpr e) :: statements, .between⟩ := by
    simp only [step, continueExpression, finished]
    exact separate_ends (.inr kind) _ latest
  rw [List.foldlM_append, foldlM_inside source run]
  exact ⟨_, Outcome.foldlM_cons_ok ended []⟩

/-- Every script that is read so far can be completed. -/
theorem completes (source : List Char) (state : State) {tokens : List Token} {final : Token}
    (fits : Plug.Fits state.stage.completion tokens) (kind : final.kind = .endOfInput) :
    ∃ done, (tokens ++ [final]).foldlM (step source) state = .ok done := by
  obtain ⟨statements, stage⟩ := state
  cases stage with
  | inside first last mode frames =>
    exact inside_completes source statements first last mode frames fits kind
  | between =>
    obtain rfl := List.map_eq_nil_iff.mp fits
    exact ⟨_, Outcome.foldlM_cons_ok (start_ends (.inr kind) _) []⟩
  | behind last =>
    obtain rfl := List.map_eq_nil_iff.mp fits
    exact ⟨_, Outcome.foldlM_cons_ok (separate_ends (.inr kind) _ last) []⟩
  | shown word =>
    obtain rfl := List.map_eq_nil_iff.mp fits
    have plain : final.kind ≠ .identifier := by simp [kind]
    have nothing : Plug.Fits [] [] := rfl
    obtain ⟨done, ended⟩ := inside_completes source statements word word
      (.operand (.identifier word.span word.text)) [] nothing kind
    refine ⟨done, ?_⟩
    rw [List.nil_append, List.foldlM_cons] at ended ⊢
    rwa [step_shown source plain]

end State

/-! Scripts that are seen alike -/

/-- Two scripts go abreast as long as their tokens say the same on the same lines. -/
theorem paired_sight (source other : List Char) :
    Paired False source other Token.SeenAs (fun _ _ => True) := by
  have line {t u : Token} (same : t.SeenAs u) : t.span.line = u.span.line :=
    (Prod.mk.inj (Prod.mk.inj same).2).2
  refine ⟨?_, ?_, ?_, fun _ _ => trivial, fun _ _ _ => trivial⟩
  · intro t u same
    exact Prod.ext (Prod.mk.inj same).1.symm (Prod.mk.inj (Prod.mk.inj same).2).1.symm
  · intro a a' b b' first second apart
    rwa [← line first, ← line second]
  · intro _ a a' b b' first second together
    rwa [← line first, ← line second]

theorem State.seen_as_itself (state : State) :
    state.Alike Token.SeenAs (fun _ _ => True) [] state := by
  refine ⟨⟨state.statements, by simp, List.forall₂_same.mpr fun _ _ => trivial⟩, ?_⟩
  cases state.stage with
  | between => exact .between
  | shown word => exact .shown (.refl word)
  | inside first last mode frames =>
    exact .inside (.refl first) (.refl last) (.refl mode) (.refl frames)
  | behind last => exact .behind (.refl last)

/-- Where one script fails over some tokens, every script that starts with them fails. -/
theorem foldlM_fails_sight {source other : List Char} {tokens others : List Token} {e : SyntaxError}
    (failed : tokens.foldlM (State.step source) State.initial = .error e)
    (starts : tokens.map Token.sight <+: others.map Token.sight) (last : State) :
    others.foldlM (State.step other) State.initial ≠ .ok last := by
  obtain ⟨rest, same⟩ := starts
  obtain ⟨front, back, rfl, alike, -⟩ := List.map_eq_append_iff.mp same.symm
  have mapped : List.Forall₂ Eq (tokens.map Token.sight) (front.map Token.sight) := by
    rw [List.forall₂_eq_eq_eq]
    exact alike.symm
  have pairs : List.Forall₂ (fun t u => t.sight = u.sight) tokens front :=
    List.forall₂_map_right_iff.mp (List.forall₂_map_left_iff.mp mapped)
  obtain ⟨t, u, fault, -, -, failed'⟩ := State.foldlM_fails (paired_sight source other) not_false
    State.initial.seen_as_itself pairs failed
  rw [List.foldlM_append, failed']
  exact nofun

/-- A failing step fails at its token. -/
theorem step_fails {source : List Char} {state : State} {t : Token} {e : SyntaxError}
    (failed : state.step source t = .error e) : ∃ fault, e = .under t.span fault := by
  have stepped : Abreast False t t _ (state.step source t) (state.step source t) :=
    State.step_abreast (paired_sight source source) state.seen_as_itself rfl
  rw [failed] at stepped
  cases stepped with
  | error fault => exact ⟨fault, rfl⟩
  | mended allowed => cases allowed

/-- The text in front of a token that has been read so far can be completed. -/
theorem textBefore_completes {source : String} {before behind : List Token} {t : Token}
    {middle : State} (scanned : scanFrom .start source.toList = .ok (before ++ t :: behind))
    (run : before.foldlM (State.step source.toList) State.initial = .ok middle) :
    ∃ more statements, ofSource (String.ofList (t.textBefore source.toList) ++ more) =
      .ok statements := by
  obtain ⟨left, stretch⟩ := stretch_textBefore scanned
  generalize t.textBefore source.toList = front at stretch ⊢
  let plugs := middle.stage.completion
  have line : ∀ c ∈ (Plug.text plugs ++ []).head?, c = '\n' := by
    simpa using Plug.head_text plugs
  obtain ⟨own, completion, fits⟩ := Plug.stretch_text plugs (Position.start.after front)
  have whole := ((stretch.beforeLine line).append completion).scanFrom_eq
  generalize finish : Token.endAt (Position.start.after (front ++ Plug.text plugs)) = final at whole
  have kind : final.kind = .endOfInput := by rw [← finish, Token.endAt]
  obtain ⟨last, done⟩ := State.completes source.toList middle fits kind
  have all : ((before ++ own) ++ [final]).foldlM (State.step source.toList) State.initial =
      .ok last := by
    rw [List.append_assoc, List.foldlM_append, run]
    exact done
  -- the text of statements apart, the steps do not depend on the source
  obtain ⟨last', done', -⟩ := State.foldlM_alike
    (paired_sight source.toList (front ++ Plug.text plugs))
    State.initial.seen_as_itself (List.forall₂_same.mpr fun t _ => .refl t) all
  refine ⟨String.ofList (Plug.text plugs), last'.statements.reverse, (ofSource_eq_ok _ _).mpr
    ⟨(before ++ own) ++ [final], ?_, ?_⟩⟩
  · simpa using whole
  · simp only [String.toList_append, String.toList_ofList]
    rw [ofTokens, done']
    rfl

/-- Syntax errors point at the first offending token. A script that is rejected, though its text is
scanned, is rejected at the place of one of its tokens: the text in front of this token can be
completed to a script, and no script has tokens that start with the kinds, texts and lines of those
up to and including it. -/
theorem rejects_first_offender {source : String} {scanned : List Token} {e : SyntaxError}
    (lexed : tokens source = .ok scanned) (rejected : ofSource source = .error e) :
    ∃ before t behind, scanned = before ++ t :: behind ∧
      e.line = t.span.line ∧ e.column = t.span.column ∧
      (∃ more statements, ofSource (String.ofList (t.textBefore source.toList) ++ more) =
        .ok statements) ∧
      ∀ other others statements, tokens other = .ok others → ofSource other = .ok statements →
        ¬(before ++ [t]).map Token.sight <+: others.map Token.sight := by
  have failed : scanned.foldlM (State.step source.toList) State.initial = .error e := by
    rcases (ofSource_eq_error source e).mp rejected with fault | ⟨_, same, failed⟩
    · cases lexed.symm.trans fault
    · cases lexed.symm.trans same
      exact (Outcome.map_eq_error _ _ _).mp failed
  obtain ⟨before, t, behind, middle, rfl, run, fails⟩ := Outcome.foldlM_eq_error.mp failed
  obtain ⟨fault, rfl⟩ := step_fails fails
  refine ⟨before, t, behind, rfl, rfl, rfl, textBefore_completes lexed run, ?_⟩
  intro other others statements lexed' accepted starts
  obtain ⟨_, same, done⟩ := (ofSource_eq_ok _ _).mp accepted
  cases lexed'.symm.trans same
  obtain ⟨last, run', -⟩ := (Outcome.map_eq_ok _ _ _).mp done
  have upTo : (before ++ [t]).foldlM (State.step source.toList) State.initial =
      .error (.under t.span fault) :=
    Outcome.foldlM_eq_error.mpr ⟨before, t, [], middle, rfl, run, fails⟩
  exact foldlM_fails_sight upTo starts last run'

/-- A semicolon behind a sign, in an array among the arguments of a call. -/
theorem rejects_behind_sign :
    ∃ scanned before t behind, tokens "a.b(\n[1, +; ]" = .ok scanned ∧
      scanned = before ++ t :: behind ∧ t.span.line = 2 ∧ t.span.column = 6 ∧
      ∃ more statements, ofSource
        (String.ofList (t.textBefore "a.b(\n[1, +; ]".toList) ++ more) = .ok statements := by
  have count : (tokens "a.b(\n[1, +; ]").map List.length = .ok 11 := by cbv
  obtain ⟨scanned, lexed, -⟩ := (Outcome.map_eq_ok _ _ _).mp count
  have rejected : ofSource "a.b(\n[1, +; ]" =
      .error ⟨2, 6, .unexpectedToken .semicolon ";" .number⟩ := by cbv
  obtain ⟨before, t, behind, parted, line, column, completed, -⟩ :=
    rejects_first_offender lexed rejected
  exact ⟨scanned, before, t, behind, lexed, parted, line.symm, column.symm, completed⟩

end Script

end MongoShell

import Mathlib.Data.List.Pairwise
import MongoShell.Proofs.Token.Further

/-! Layout. Blanks and comments around the tokens of a text leave no tokens of their own and part no
token from another that they did not part before; so the text is scanned into tokens that say the
same, where those on different lines stay on different lines. -/

namespace MongoShell

/-- Blanks and comments, a comment to the end of a line together with the line feed there. -/
inductive Filler : List Char → Prop
  | nil : Filler []
  | blank {c : Char} {more : List Char} (blank : isBlank c = true) (others : Filler more) :
      Filler (c :: more)
  | block {inner more : List Char} (opened : ¬['*', '/'] <:+: inner) (others : Filler more) :
      Filler ('/' :: '*' :: (inner ++ '*' :: '/' :: more))
  | line {inner more : List Char} (inLine : '\n' ∉ inner) (others : Filler more) :
      Filler ('/' :: '/' :: (inner ++ '\n' :: more))

/-- The second text is the first with blanks and comments put in front of its tokens and behind
them. -/
inductive Padded : List Char → List Char → Prop
  | nil : Padded [] []
  | trivia {piece text other : List Char} (starts : Starts piece text .trivia)
      (rest : Padded text other) : Padded (piece ++ text) (piece ++ other)
  | token {piece text other before behind : List Char} {kind : TokenKind}
      (starts : Starts piece text (.token kind)) (front : Filler before) (back : Filler behind)
      (rest : Padded text other) :
      Padded (piece ++ text) (before ++ (piece ++ (behind ++ other)))

/-! Blanks and comments leave no tokens -/

theorem mem_partings_of_isBlank {c : Char} (blank : isBlank c = true) : c ∈ partings := by
  simp only [isBlank, Bool.or_eq_true, beq_iff_eq] at blank
  rcases blank with ((rfl | rfl) | rfl) | rfl <;> decide

theorem front_slash (text : List Char) : front '/' text = slashFront text := rfl

/-- A comment goes on through the first closing mark. -/
theorem cutComment_append {inner : List Char} (opened : ¬['*', '/'] <:+: inner) (rest : List Char) :
    cutComment (inner ++ '*' :: '/' :: rest) = some ⟨inner ++ ['*', '/'], rest⟩ := by
  induction inner with
  | nil => rfl
  | cons c inner ih =>
    have later : ¬['*', '/'] <:+: inner := fun inside => opened (inside.trans ⟨[c], [], by simp⟩)
    have goesOn : ¬((c = '*' && (inner ++ '*' :: '/' :: rest).head? == some '/') = true) := by
      cases inner with
      | nil => simp
      | cons d inner =>
        intro closes
        simp only [List.cons_append, List.head?_cons, Bool.and_eq_true, decide_eq_true_eq,
          beq_iff_eq, Option.some.injEq] at closes
        obtain ⟨rfl, rfl⟩ := closes
        exact opened ⟨[], inner, rfl⟩
    rw [List.cons_append, cutComment, if_neg goesOn, ih later]
    rfl

theorem starts_block {inner : List Char} (opened : ¬['*', '/'] <:+: inner) (rest : List Char) :
    Starts ('/' :: '*' :: (inner ++ ['*', '/'])) rest .trivia := by
  refine ⟨'/', _, rfl, ?_⟩
  have cut := cutComment_append opened rest
  have read : slashFront ('*' :: (inner ++ '*' :: '/' :: rest)) =
      .ok ⟨.trivia, ⟨'/' :: '*' :: (inner ++ ['*', '/']), rest⟩⟩ := by
    rw [slashFront, cut]
    rfl
  simpa [front_slash] using read

theorem starts_line {inner : List Char} (inLine : '\n' ∉ inner) (rest : List Char) :
    Starts ('/' :: '/' :: inner) ('\n' :: rest) .trivia := by
  refine ⟨'/', _, rfl, ?_⟩
  have all : ∀ c ∈ inner, (c != '\n') = true := by
    intro c member
    simp only [bne_iff_ne]
    rintro rfl
    exact inLine member
  have stop : ∀ c ∈ ('\n' :: rest).head?, (c != '\n') = false := by
    rintro c ⟨⟩
    rfl
  have read : slashFront ('/' :: (inner ++ '\n' :: rest)) =
      .ok ⟨.trivia, ⟨'/' :: '/' :: inner, '\n' :: rest⟩⟩ := by
    rw [slashFront, Cut.span, takeWhile_stop all stop, dropWhile_stop all stop]
    rfl
  simpa [front_slash] using read

namespace Filler

variable {filler : List Char}

theorem stretch (is : Filler filler) (place : Position) (rest : List Char) :
    Stretch place filler rest [] := by
  induction is generalizing place with
  | nil => exact .nil
  | @blank c more blank _ ih => exact .trivia (starts_blank blank _) (ih _)
  | @block inner more opened _ ih =>
    have whole : '/' :: '*' :: (inner ++ '*' :: '/' :: more) =
        ('/' :: '*' :: (inner ++ ['*', '/'])) ++ more := by simp
    rw [whole]
    exact .trivia (starts_block opened _) (ih _)
  | @line inner more inLine _ ih =>
    have whole : '/' :: '/' :: (inner ++ '\n' :: more) =
        ('/' :: '/' :: inner) ++ (['\n'] ++ more) := by simp
    rw [whole]
    exact .trivia (starts_line inLine _) (.trivia (starts_blank rfl _) (ih _))

theorem scanFrom_eq (is : Filler filler) (place : Position) (rest : List Char) :
    scanFrom place (filler ++ rest) = scanFrom (place.after filler) rest := by
  rw [(is.stretch place rest).scanFrom_append]
  cases scanFrom (place.after filler) rest <;> rfl

theorem head_mem (is : Filler filler) : ∀ c ∈ filler.head?, c ∈ partings := by
  cases is with
  | nil => simp
  | blank blank others =>
    rintro c ⟨⟩
    exact mem_partings_of_isBlank blank
  | block opened others =>
    rintro c ⟨⟩
    decide
  | line inLine others =>
    rintro c ⟨⟩
    decide

/-- Blanks and comments in front do not change where a text may be cut. -/
theorem asFar (is : Filler filler) {text other : List Char} (far : AsFar text other) :
    AsFar text (filler ++ other) := by
  have first := is.head_mem
  cases filler with
  | nil => exact far
  | cons c filler => exact .parts (first c rfl)

end Filler

namespace Padded

variable {source other : List Char}

theorem asFar (padded : Padded source other) : AsFar source other := by
  induction padded with
  | nil => exact .ends
  | trivia starts _ ih => exact ih.append _
  | token starts front back _ ih => exact front.asFar ((back.asFar ih).append _)

/-- A line feed at the front stays there. -/
theorem keepsLine (padded : Padded source other) : KeepsLine source other := by
  intro feed c member
  cases padded with
  | nil => cases member
  | trivia starts rest =>
    obtain ⟨d, piece, rfl, -⟩ := starts
    exact feed c member
  | token starts front back rest =>
    obtain ⟨d, piece, rfl, read⟩ := starts
    obtain rfl := feed d rfl
    cases read

end Padded

/-! Tokens of both texts, pair by pair -/

/-- From the one line on, lines of the first text are as far apart in the second or further. -/
def Spread (line line' : Nat) (pair : Token × Token) : Prop :=
  line ≤ pair.1.span.line ∧ pair.1.span.line + line' ≤ pair.2.span.line + line

/-- Tokens on different lines of the first text are on different lines of the second. -/
def KeepsBreak (first second : Token × Token) : Prop :=
  first.1.span.line ≠ second.1.span.line → first.2.span.line ≠ second.2.span.line

instance : Std.Symm KeepsBreak where
  symm _ _ keeps apart := (keeps apart.symm).symm

/-- Pairs of tokens that say the same, those on different lines of the one text on different lines
of the other, behind a place of either text. -/
structure Aligned (place place' : Position) (pairs : List (Token × Token)) : Prop where
  word : ∀ pair ∈ pairs, pair.2.word = pair.1.word
  spread : ∀ pair ∈ pairs, Spread place.line place'.line pair
  breaks : pairs.Pairwise KeepsBreak

namespace Aligned

variable {place place' : Position} {pairs : List (Token × Token)}

theorem weaken {near near' : Position} (aligned : Aligned near near' pairs)
    (lower : place.line ≤ near.line) (further : near.line + place'.line ≤ near'.line + place.line) :
    Aligned place place' pairs := by
  refine ⟨aligned.word, ?_, aligned.breaks⟩
  intro pair member
  have behind := aligned.spread pair member
  unfold Spread at behind ⊢
  omega

theorem keepsBreak (aligned : Aligned place place' pairs) {first second : Token × Token}
    (member : first ∈ pairs) (member' : second ∈ pairs) : KeepsBreak first second :=
  aligned.breaks.forall_of_forall (fun _ _ apart => absurd rfl apart) member member'

/-- One more pair in front, behind which the second text has come as far down as the first. -/
theorem cons {near near' : Position} {t u : Token} (aligned : Aligned near near' pairs)
    (word : u.word = t.word) (first : Spread place.line place'.line (t, u))
    (later : t.span.line ≤ near.line)
    (further : near.line + u.span.line ≤ near'.line + t.span.line) :
    Aligned place place' ((t, u) :: pairs) := by
  have behind : ∀ pair ∈ pairs, Spread t.span.line u.span.line pair := by
    intro pair member
    have spread := aligned.spread pair member
    unfold Spread at spread ⊢
    omega
  refine ⟨List.forall_mem_cons.mpr ⟨word, aligned.word⟩,
    List.forall_mem_cons.mpr ⟨first, fun pair member => ?_⟩,
    List.pairwise_cons.mpr ⟨fun pair member => ?_, aligned.breaks⟩⟩
  · have spread := behind pair member
    unfold Spread at first spread ⊢
    dsimp only at first
    omega
  · have spread := behind pair member
    unfold Spread at spread
    unfold KeepsBreak
    dsimp only
    omega

end Aligned

/-- A text with blanks and comments around its tokens is scanned into tokens that say the same. -/
theorem Padded.scanFrom_aligned {source other : List Char} {tokens : List Token}
    (padded : Padded source other) {place : Position} (done : scanFrom place source = .ok tokens)
    (place' : Position) :
    ∃ pairs, tokens = pairs.map Prod.fst ∧ scanFrom place' other = .ok (pairs.map Prod.snd) ∧
      Aligned place place' pairs := by
  induction padded generalizing place place' tokens with
  | nil =>
    rw [scanFrom] at done
    cases done
    refine ⟨[(Token.endAt place, Token.endAt place')], rfl, ?_, ⟨?_, ?_, ?_⟩⟩
    · rw [scanFrom]
      rfl
    · simp [Token.endAt, Token.word]
    · simp [Token.endAt, Spread, Span.between]
      omega
    · exact List.pairwise_singleton _ _
  | @trivia piece text other starts rest ih =>
    rw [scanFrom_trivia starts] at done
    obtain ⟨pairs, rfl, done', aligned⟩ := ih done (place'.after piece)
    have starts' := starts.instead rest.asFar fun _ => rest.keepsLine
    refine ⟨pairs, rfl, by rw [scanFrom_trivia starts', done'], aligned.weaken ?_ ?_⟩
    · rw [Position.line_after]
      omega
    · rw [Position.line_after, Position.line_after]
      omega
  | @token piece text other before behind kind starts front back rest ih =>
    rw [scanFrom_token starts] at done
    obtain ⟨others, more, rfl⟩ := (Outcome.map_eq_ok _ _ _).mp done
    let begins := place'.after before
    let ends := begins.after piece
    obtain ⟨pairs, rfl, done', aligned⟩ := ih more (ends.after behind)
    have starts' := starts.instead (back.asFar rest.asFar) (fun trivia => by cases trivia)
    let first : Token := ⟨kind, String.ofList piece, .between place (place.after piece)⟩
    let second : Token := ⟨kind, String.ofList piece, .between begins ends⟩
    have line : begins.line = place'.line + before.count '\n' := place'.line_after before
    have line' : (ends.after behind).line =
        begins.line + piece.count '\n' + behind.count '\n' := by
      rw [Position.line_after, Position.line_after]
    refine ⟨(first, second) :: pairs, rfl, ?_, aligned.cons rfl ⟨le_rfl, ?_⟩ ?_ ?_⟩
    · rw [front.scanFrom_eq, scanFrom_token starts', back.scanFrom_eq, done']
      rfl
    · change place.line + place'.line ≤ begins.line + place.line
      omega
    · change place.line ≤ (place.after piece).line
      rw [Position.line_after]
      omega
    · change (place.after piece).line + begins.line ≤ (ends.after behind).line + place.line
      rw [line', Position.line_after]
      omega

end MongoShell

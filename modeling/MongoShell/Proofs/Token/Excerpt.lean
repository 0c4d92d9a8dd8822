import Mathlib.Data.List.Forall2
import MongoShell.Proofs.Outcome
import MongoShell.Proofs.Token.Cut

/-! Stretches of a text, and scanning an excerpt of it. A stretch is cut into the same tokens
whatever its place is and whatever stands behind it, as far as that parts tokens; so the excerpt
from the start of one token through the end of another is scanned, by itself, into the tokens from
the one to the other. -/

namespace MongoShell

theorem Position.offset_start (text : List Char) :
    (Position.start.after text).offset = byteCount text := by
  rw [offset_after]
  exact Nat.zero_add _

/-- A text starts with a piece, in front of a rest. -/
def Starts (piece rest : List Char) (sort : Piece) : Prop :=
  ∃ c text, piece = c :: text ∧ front c (text ++ rest) = .ok ⟨sort, ⟨piece, rest⟩⟩

theorem Starts.before {piece rest other : List Char} {sort : Piece}
    (starts : Starts piece rest sort) (alike : EndsAlike rest other)
    (line : sort = .trivia → KeepsLine rest other) : Starts piece other sort := by
  obtain ⟨c, text, rfl, read⟩ := starts
  exact ⟨c, text, rfl, front_instead alike line read⟩

theorem Starts.instead {piece rest other : List Char} {sort : Piece}
    (starts : Starts piece rest sort) (far : AsFar rest other)
    (line : sort = .trivia → KeepsLine rest other) : Starts piece other sort :=
  starts.before far.endsAlike line

/-- A blank is a piece by itself. -/
theorem starts_blank {c : Char} (blank : isBlank c = true) (rest : List Char) :
    Starts [c] rest .trivia := by
  refine ⟨c, [], rfl, ?_⟩
  simp only [isBlank, Bool.or_eq_true, beq_iff_eq] at blank
  rcases blank with ((rfl | rfl) | rfl) | rfl <;> rfl

/-- What the scanner reads at the front of a text is a piece that the text starts with. -/
theorem starts_of_front {c : Char} {text : List Char} {result : Front}
    (read : front c text = .ok result) :
    c :: text = result.cut.text ++ result.cut.rest ∧
      Starts result.cut.text result.cut.rest result.piece := by
  obtain ⟨sort, piece, rest⟩ := result
  have whole : piece ++ rest = c :: text := front_whole read
  have some : piece ≠ [] := front_text_ne_nil read
  refine ⟨whole.symm, ?_⟩
  cases piece with
  | nil => exact absurd rfl some
  | cons d piece =>
    obtain ⟨rfl, rfl⟩ := List.cons.inj whole
    exact ⟨d, piece, rfl, read⟩

/-- A stretch of text at a place, in front of a rest, is cut into tokens. -/
inductive Stretch : Position → List Char → List Char → List Token → Prop
  | nil {place : Position} {rest : List Char} : Stretch place [] rest []
  | trivia {place : Position} {piece text rest : List Char} {tokens : List Token}
      (starts : Starts piece (text ++ rest) .trivia)
      (others : Stretch (place.after piece) text rest tokens) :
      Stretch place (piece ++ text) rest tokens
  | token {place : Position} {piece text rest : List Char} {kind : TokenKind} {tokens : List Token}
      (starts : Starts piece (text ++ rest) (.token kind))
      (others : Stretch (place.after piece) text rest tokens) :
      Stretch place (piece ++ text) rest
        (⟨kind, String.ofList piece, .between place (place.after piece)⟩ :: tokens)

/-- The token for the end of the input at a place. -/
def Token.endAt (place : Position) : Token := ⟨.endOfInput, "", .between place place⟩

/-- Trivia leave no token. -/
theorem scanFrom_trivia {piece rest : List Char} (starts : Starts piece rest .trivia)
    (place : Position) : scanFrom place (piece ++ rest) = scanFrom (place.after piece) rest := by
  obtain ⟨c, text, rfl, read⟩ := starts
  rw [List.cons_append, scanFrom]
  split
  · rename_i failed
    rw [read] at failed
    cases failed
  · rename_i done
    rw [read] at done
    cases done
    dsimp only
    cases scanFrom (place.after (c :: text)) rest <;> rfl

theorem scanFrom_token {piece rest : List Char} {kind : TokenKind}
    (starts : Starts piece rest (.token kind)) (place : Position) :
    scanFrom place (piece ++ rest) = (scanFrom (place.after piece) rest).map
      (⟨kind, String.ofList piece, .between place (place.after piece)⟩ :: ·) := by
  obtain ⟨c, text, rfl, read⟩ := starts
  rw [List.cons_append, scanFrom]
  split
  · rename_i failed
    rw [read] at failed
    cases failed
  · rename_i done
    rw [read] at done
    cases done
    dsimp only
    cases scanFrom (place.after (c :: text)) rest <;> rfl

/-- Where no piece can be read, the scanner stops. -/
theorem scanFrom_fault {c : Char} {text : List Char} {fault : SyntaxFault}
    (read : front c text = .error fault) (place : Position) :
    scanFrom place (c :: text) = .error ⟨place.line, place.column, fault⟩ := by
  rw [scanFrom]
  split
  · rename_i failed
    rw [read] at failed
    cases failed
    rfl
  · rename_i done
    rw [read] at done
    cases done

/-- The scanner gets through a stretch and goes on with the text behind it. -/
theorem Stretch.scanFrom_append {place : Position} {text rest : List Char} {tokens : List Token}
    (stretch : Stretch place text rest tokens) :
    scanFrom place (text ++ rest) =
      (scanFrom (place.after text) rest).map (tokens ++ ·) := by
  induction stretch with
  | nil =>
    rw [List.nil_append, Position.after_nil]
    cases scanFrom _ _ <;> rfl
  | trivia starts others ih =>
    rw [List.append_assoc, scanFrom_trivia starts, ih, Position.after_append]
  | token starts others ih =>
    rw [List.append_assoc, scanFrom_token starts, ih, Position.after_append]
    cases scanFrom _ _ <;> rfl

/-- The tokens of a whole text are those of a stretch, and the end of the input. -/
theorem Stretch.scanFrom_eq {place : Position} {text : List Char} {tokens : List Token}
    (stretch : Stretch place text [] tokens) :
    scanFrom place text = .ok (tokens ++ [Token.endAt (place.after text)]) := by
  have whole := stretch.scanFrom_append
  rw [List.append_nil, scanFrom] at whole
  exact whole

theorem stretch_of_scanFrom {place : Position} {text : List Char} {tokens : List Token}
    (done : scanFrom place text = .ok tokens) :
    ∃ own, tokens = own ++ [Token.endAt (place.after text)] ∧ Stretch place text [] own := by
  induction size : text.length using Nat.strong_induction_on generalizing place text tokens with
  | _ size ih =>
    subst size
    cases text with
    | nil =>
      rw [scanFrom] at done
      cases done
      exact ⟨[], rfl, .nil⟩
    | cons c text =>
      cases read : front c text with
      | error fault =>
        rw [scanFrom_fault read] at done
        cases done
      | ok result =>
        have shorter := front_rest_lt read
        obtain ⟨same, starts⟩ := starts_of_front read
        obtain ⟨sort, piece, rest⟩ := result
        simp only at same starts shorter
        rw [same] at done ⊢
        rw [Position.after_append]
        have starts' : Starts piece (rest ++ []) sort := by rwa [List.append_nil]
        cases sort with
        | trivia =>
          rw [scanFrom_trivia starts] at done
          obtain ⟨own, rfl, stretch⟩ := ih rest.length shorter done rfl
          exact ⟨own, rfl, .trivia starts' stretch⟩
        | token kind =>
          rw [scanFrom_token starts] at done
          obtain ⟨others, behind, rfl⟩ := (Outcome.map_eq_ok _ _ _).mp done
          obtain ⟨own, rfl, stretch⟩ := ih rest.length shorter behind rfl
          exact ⟨_, rfl, .token starts' stretch⟩

/-- The last token of a text is the end of the input. -/
theorem endOfInput_of_scanFrom {text : List Char} {before : List Token} {last : Token}
    (scanned : scanFrom .start text = .ok (before ++ [last])) : last.kind = .endOfInput := by
  obtain ⟨own, same, -⟩ := stretch_of_scanFrom scanned
  obtain ⟨-, alike⟩ := List.append_inj' same rfl
  cases alike
  rfl

/-! Parts of a stretch -/

namespace Stretch

/-- Two stretches, one behind the other. -/
theorem append {place : Position} {first second rest : List Char} {tokens more : List Token}
    (before : Stretch place first (second ++ rest) tokens)
    (behind : Stretch (place.after first) second rest more) :
    Stretch place (first ++ second) rest (tokens ++ more) := by
  generalize whole : second ++ rest = right at before
  induction before with
  | nil => exact behind
  | @trivia place piece text _ tokens starts _ ih =>
    subst whole
    rw [List.append_assoc]
    rw [Position.after_append] at behind
    rw [← List.append_assoc] at starts
    exact .trivia starts (ih behind rfl)
  | @token place piece text _ kind tokens starts _ ih =>
    subst whole
    rw [List.append_assoc]
    rw [Position.after_append] at behind
    rw [← List.append_assoc] at starts
    exact .token starts (ih behind rfl)

/-- What is behind a stretch is no matter to its tokens, as long as pieces end there alike. -/
theorem before {place : Position} {text rest other : List Char} {tokens : List Token}
    (stretch : Stretch place text rest tokens)
    (alike : ∀ piece, EndsAlike (piece ++ rest) (piece ++ other)) (line : KeepsLine rest other) :
    Stretch place text other tokens := by
  induction stretch with
  | nil => exact .nil
  | @trivia place piece text rest tokens starts _ ih =>
    exact .trivia (starts.before (alike text) fun _ => line.append text) (ih alike line)
  | @token place piece text rest kind tokens starts _ ih =>
    exact .token (starts.before (alike text) fun _ => line.append text) (ih alike line)

/-- What is behind a stretch is no matter to its tokens, as far as it is the same. -/
theorem instead {place : Position} {text rest other : List Char} {tokens : List Token}
    (stretch : Stretch place text rest tokens) (far : AsFar rest other)
    (line : KeepsLine rest other) : Stretch place text other tokens :=
  stretch.before (fun piece => (far.append piece).endsAlike) line

/-- What is behind a stretch is no matter where its line ends with it. -/
theorem beforeLine {place : Position} {text rest other : List Char} {tokens : List Token}
    (stretch : Stretch place text rest tokens) (feed : ∀ c ∈ other.head?, c = '\n') :
    Stretch place text other tokens :=
  stretch.instead (.of_line feed) (.of_line feed)

/-- The stretch in front of a token, with the trivia there, and the stretch from the token on. -/
theorem skip {place : Position} {text rest : List Char} {before own : List Token} {first : Token}
    (stretch : Stretch place text rest (before ++ own)) (head : own.head? = some first) :
    ∃ front left, text = front ++ left ∧ Stretch place front (left ++ rest) before ∧
      Stretch (place.after front) left rest own ∧
      first.span.start = (place.after front).offset := by
  generalize all : before ++ own = tokens at stretch
  induction stretch generalizing before with
  | nil =>
    obtain ⟨rfl, rfl⟩ := List.append_eq_nil_iff.mp all
    cases head
  | @trivia place piece text rest tokens starts others ih =>
    obtain ⟨front, left, rfl, earlier, stretch, start⟩ := ih all
    rw [List.append_assoc] at starts
    rw [← Position.after_append] at stretch start
    exact ⟨piece ++ front, left, by simp, .trivia starts earlier, stretch, start⟩
  | @token place piece text rest kind tokens starts others ih =>
    cases before with
    | nil =>
      rw [List.nil_append] at all
      subst all
      cases head
      exact ⟨[], piece ++ text, rfl, .nil, .token starts others, rfl⟩
    | cons b before =>
      obtain ⟨rfl, same⟩ := List.cons.inj all
      obtain ⟨front, left, rfl, earlier, stretch, start⟩ := ih same
      rw [List.append_assoc] at starts
      rw [← Position.after_append] at stretch start
      exact ⟨piece ++ front, left, by simp, .token starts earlier, stretch, start⟩

/-- What is behind a token is no matter to the tokens up to there. -/
theorem stop {place : Position} {text rest : List Char} {own behind : List Token} {last : Token}
    (stretch : Stretch place text rest (own ++ behind)) (ends : own.getLast? = some last) :
    ∃ middle back, text = middle ++ back ∧ Stretch place middle (back ++ rest) own ∧
      last.span.stop = (place.after middle).offset := by
  generalize all : own ++ behind = tokens at stretch
  induction stretch generalizing own with
  | nil =>
    obtain ⟨rfl, rfl⟩ := List.append_eq_nil_iff.mp all
    cases ends
  | @trivia place piece text rest tokens starts others ih =>
    obtain ⟨middle, back, rfl, stretch, stop⟩ := ih ends all
    rw [List.append_assoc] at starts
    rw [← Position.after_append] at stop
    exact ⟨piece ++ middle, back, by simp, .trivia starts stretch, stop⟩
  | @token place piece text rest kind tokens starts others ih =>
    cases own with
    | nil => cases ends
    | cons t own =>
      obtain ⟨rfl, same⟩ := List.cons.inj all
      by_cases single : own = []
      · subst single
        cases ends
        have whole : Stretch place (piece ++ []) (text ++ rest) _ := .token starts .nil
        rw [List.append_nil] at whole
        exact ⟨piece, text, rfl, whole, rfl⟩
      · have ends : own.getLast? = some last := by
          rwa [List.getLast?_cons_of_ne_nil single] at ends
        obtain ⟨middle, back, rfl, stretch, stop⟩ := ih ends same
        rw [List.append_assoc] at starts
        rw [← Position.after_append] at stop
        exact ⟨piece ++ middle, back, by simp, .token starts stretch, stop⟩

/-- The tokens from one to another are those of the stretch from the start of the one through the
end of the other. -/
theorem middle {place : Position} {text rest : List Char} {before own behind : List Token}
    {first last : Token} (stretch : Stretch place text rest (before ++ (own ++ behind)))
    (head : own.head? = some first) (ends : own.getLast? = some last) :
    ∃ front middle back, text = front ++ (middle ++ back) ∧
      Stretch (place.after front) middle (back ++ rest) own ∧
      first.span.start = (place.after front).offset ∧
      last.span.stop = ((place.after front).after middle).offset := by
  have headAll : (own ++ behind).head? = some first := by rw [List.head?_append, head]; rfl
  obtain ⟨front, left, rfl, -, stretch, start⟩ := stretch.skip headAll
  obtain ⟨middle, back, rfl, stretch, stop⟩ := stretch.stop ends
  exact ⟨front, middle, back, rfl, stretch, start, stop⟩

end Stretch

/-- The same token at another place: `near` and `far` are the offsets of the same point in the two
texts. -/
structure Token.Moved (near far : Nat) (t u : Token) : Prop where
  kind : u.kind = t.kind
  text : u.text = t.text
  start : u.span.start + near = t.span.start + far
  stop : u.span.stop + near = t.span.stop + far

theorem Token.Moved.of_after {near far : Position} {text : List Char} {t u : Token}
    (moved : Token.Moved (near.after text).offset (far.after text).offset t u) :
    Token.Moved near.offset far.offset t u := by
  have start := moved.start
  have stop := moved.stop
  rw [Position.offset_after, Position.offset_after] at start stop
  exact ⟨moved.kind, moved.text, by omega, by omega⟩

/-- A stretch is cut into the same tokens at any place. -/
theorem Stretch.move {place : Position} {text rest : List Char} {tokens : List Token}
    (stretch : Stretch place text rest tokens) (other : Position) :
    ∃ moved, Stretch other text rest moved ∧
      List.Forall₂ (Token.Moved place.offset other.offset) tokens moved := by
  induction stretch generalizing other with
  | nil => exact ⟨[], .nil, .nil⟩
  | trivia starts others ih =>
    obtain ⟨moved, stretch, same⟩ := ih (other.after _)
    exact ⟨moved, .trivia starts stretch, same.imp fun _ _ => Token.Moved.of_after⟩
  | @token place piece text _ kind tokens starts others ih =>
    obtain ⟨moved, stretch, same⟩ := ih (other.after _)
    refine ⟨_, .token starts stretch,
      .cons ⟨rfl, rfl, ?_, ?_⟩ (same.imp fun _ _ => Token.Moved.of_after)⟩
    · simp only [Span.between]
      omega
    · simp only [Span.between, Position.offset_after]
      omega

/-- What two tokens say, their places apart. -/
def Token.word (t : Token) : TokenKind × String := (t.kind, t.text)

theorem words_of_moved {near far : Nat} {tokens moved : List Token}
    (same : List.Forall₂ (Token.Moved near far) tokens moved) :
    moved.map Token.word = tokens.map Token.word := by
  induction same with
  | nil => rfl
  | cons alike _ ih =>
    rw [List.map_cons, List.map_cons, ih, Token.word, alike.kind, alike.text]
    rfl

theorem ends_of_moved {near far : Nat} {tokens moved : List Token} {first last : Token}
    (same : List.Forall₂ (Token.Moved near far) tokens moved) (head : tokens.head? = some first)
    (ends : tokens.getLast? = some last) :
    ∃ left right, moved.head? = some left ∧ moved.getLast? = some right ∧
      Token.Moved near far first left ∧ Token.Moved near far last right := by
  obtain ⟨init, rfl⟩ := List.getLast?_eq_some_iff.mp ends
  have reversed := List.forall₂_reverse_iff.mpr same
  rw [List.reverse_append, List.reverse_singleton, List.singleton_append] at reversed
  obtain ⟨right, others, alike, -, back⟩ := List.forall₂_cons_left_iff.mp reversed
  have finish : moved.getLast? = some right := by
    rw [← List.head?_reverse, back, List.head?_cons]
  cases same' : init ++ [last] with
  | nil => simp at same'
  | cons t rest =>
    rw [same'] at head same
    cases head
    cases same with
    | cons begin _ => exact ⟨_, right, rfl, finish, begin, alike⟩

/-- No token of a stretch ends behind the stretch. -/
theorem Stretch.stop_le {place : Position} {text rest : List Char} {tokens : List Token}
    (stretch : Stretch place text rest tokens) {t : Token} (member : t ∈ tokens) :
    t.span.stop ≤ (place.after text).offset := by
  induction stretch with
  | nil => cases member
  | trivia starts others ih =>
    rw [Position.after_append]
    exact ih member
  | token starts others ih =>
    rw [Position.after_append]
    cases member with
    | head => simp only [Span.between, Position.offset_after]; omega
    | tail _ member => exact ih member

/-- The span from one token through another around the middle of a text. -/
theorem slice_through {front middle : List Char} {first last : Token} (back : List Char)
    (start : first.span.start = (Position.start.after front).offset)
    (stop : last.span.stop = ((Position.start.after front).after middle).offset)
    (ordered : first.span.stop ≤ last.span.stop) :
    (first.span.through last.span).slice (front ++ (middle ++ back)) = middle := by
  have startAt : first.span.start = byteCount front := start.trans (Position.offset_start front)
  have stopAt : last.span.stop = byteCount front + byteCount middle := by
    rw [stop, Position.offset_after, ← start, startAt]
  rw [Span.through, Nat.max_eq_left ordered, stopAt, startAt]
  exact Span.slice_append first.span.line first.span.column front middle back

/-- Some tokens of a text in front of others, from the first of them through the last, are cut out
as an excerpt that is scanned into the same tokens; and the excerpt is all of what they span in it.
-/
theorem scan_excerpt {source : List Char} {before own behind : List Token} {first last : Token}
    (scanned : scanFrom .start source = .ok (before ++ (own ++ behind))) (inner : behind ≠ [])
    (head : own.head? = some first) (ends : own.getLast? = some last) :
    ∃ moved final left right,
      scanFrom .start ((first.span.through last.span).slice source) = .ok (moved ++ [final]) ∧
      final.kind = .endOfInput ∧ moved.map Token.word = own.map Token.word ∧
      moved.head? = some left ∧ moved.getLast? = some right ∧
      (left.span.through right.span).slice ((first.span.through last.span).slice source) =
        (first.span.through last.span).slice source := by
  obtain ⟨tokens, all, stretch⟩ := stretch_of_scanFrom scanned
  obtain ⟨later, t, rfl⟩ := (List.eq_nil_or_concat' behind).resolve_left inner
  have parted : (before ++ (own ++ later)) ++ [t] =
      tokens ++ [Token.endAt (Position.start.after source)] := by simpa using all
  obtain ⟨rfl, -⟩ := List.append_inj' parted rfl
  obtain ⟨front, middle, back, rfl, own', start, stop⟩ := stretch.middle head ends
  have ordered : first.span.stop ≤ last.span.stop := by
    rw [stop]
    exact own'.stop_le (List.mem_of_head? head)
  rw [slice_through back start stop ordered]
  have cutOff : Stretch (Position.start.after front) middle [] own := own'.beforeLine (by simp)
  obtain ⟨moved, alone, same⟩ := cutOff.move .start
  obtain ⟨left, right, begins, finishes, first', last'⟩ := ends_of_moved same head ends
  have leftStart : left.span.start = (Position.start.after []).offset := by
    have there := first'.start
    rw [start] at there
    exact Nat.add_right_cancel (there.trans (Nat.add_comm _ _))
  have rightStop : right.span.stop = ((Position.start.after []).after middle).offset := by
    have there := last'.stop
    rw [stop, Position.offset_after _ middle] at there
    rw [Position.offset_after, Position.after_nil]
    omega
  have aligned : left.span.stop ≤ right.span.stop := by
    rw [rightStop]
    exact alone.stop_le (List.mem_of_head? begins)
  refine ⟨moved, _, left, right, alone.scanFrom_eq, rfl, words_of_moved same, begins, finishes, ?_⟩
  simpa using slice_through [] leftStart rightStop aligned

end MongoShell

import MongoShell.Proofs.Token.Lexeme

/-! Longest match. The scanner cuts a text into pieces of which each is the longest lexeme that the
text starts with there, and it has tokens for exactly the texts that can be cut in this way. The
tokens stand in the order of the text, each over a lexeme of its kind and only trivia between them.
-/

namespace MongoShell

/-- A piece is the longest of the lexemes that a text starts with; and if it is a number without an
exponent, no letter of an exponent follows. -/
structure Longest (grammar : Piece → List Char → Prop) (sort : Piece) (piece rest : List Char) :
    Prop where
  lexeme : grammar sort piece
  longest : ∀ other text, grammar other text → text <+: piece ++ rest →
    text.length ≤ piece.length
  closed : Mantissa piece → ∀ c ∈ rest.head?, ¬ExponentMark c

/-- A text is cut into pieces from left to right, each the longest where it stands. -/
inductive Tokenization (grammar : Piece → List Char → Prop) :
    List Char → List (Piece × List Char) → Prop
  | nil : Tokenization grammar [] []
  | cons {sort : Piece} {piece text : List Char} {pieces : List (Piece × List Char)}
      (longest : Longest grammar sort piece text) (others : Tokenization grammar text pieces) :
      Tokenization grammar (piece ++ text) ((sort, piece) :: pieces)

/-- The tokens among some pieces that stand one behind the other from a place on, and the end of the
input. -/
def tokensAt (place : Position) : List (Piece × List Char) → List Token
  | [] => [Token.endAt place]
  | (.trivia, text) :: pieces => tokensAt (place.after text) pieces
  | (.token kind, text) :: pieces =>
    ⟨kind, String.ofList text, .between place (place.after text)⟩ ::
      tokensAt (place.after text) pieces

/-! The piece at the front -/

theorem Starts.front_eq {piece rest source : List Char} {sort : Piece} {c : Char}
    (starts : Starts piece rest sort) (whole : piece ++ rest = c :: source) :
    front c source = .ok ⟨sort, ⟨piece, rest⟩⟩ := by
  obtain ⟨d, text, rfl, read⟩ := starts
  rw [List.cons_append] at whole
  cases whole
  exact read

/-- A text starts with one piece only. -/
theorem Starts.unique {first second rest other : List Char} {sort sort' : Piece}
    (starts : Starts first rest sort) (starts' : Starts second other sort')
    (same : first ++ rest = second ++ other) : first = second ∧ sort = sort' := by
  obtain ⟨c, text, rfl, read⟩ := starts'
  rw [List.cons_append] at same
  rw [starts.front_eq same] at read
  cases read
  exact ⟨rfl, rfl⟩

theorem BreaksOff.not_starts {piece rest : List Char} {sort : Piece}
    (breaks : BreaksOff (piece ++ rest)) : ¬Starts piece rest sort := by
  intro starts
  obtain ⟨c, source, whole, digit, ends⟩ := breaks
  have read := starts.front_eq whole
  rw [front_digit digit, if_neg ends] at read
  cases read

/-- What the scanner reads at the front of a text is the longest lexeme there. -/
theorem Starts.longest {sort : Piece} {piece rest : List Char} (starts : Starts piece rest sort) :
    Longest Lexeme sort piece rest where
  lexeme := by
    obtain ⟨c, text, rfl, read⟩ := starts
    exact lexeme_of_front read
  longest other text lexeme := by
    rintro ⟨behind, whole⟩
    rcases lexeme.covered behind with ⟨more, rest', rfl, further⟩ | ⟨-, breaks⟩
    · rw [← List.append_assoc] at whole
      obtain ⟨rfl, -⟩ := further.unique starts whole
      exact (List.prefix_append text more).length_le
    · rw [whole] at breaks
      exact absurd starts breaks.not_starts
  closed := by
    intro mantissa c first mark
    obtain ⟨behind, rfl⟩ := List.head?_eq_some_iff.mp first
    obtain ⟨more, further⟩ := mantissa.cutNumber_mark mark behind
    obtain ⟨d, digits, rfl, digit⟩ := mantissa.exists_cons
    have read := starts.front_eq (List.cons_append ..)
    rw [front_digit digit] at read
    split at read
    · -- the number that is read would be the mantissa alone, but it goes on with the letter
      simp only [Except.ok.injEq, Front.mk.injEq] at read
      rw [List.cons_append, read.2] at further
      simp at further
    · cases read

/-- The scanner reads the longest lexeme, wherever there is one. -/
theorem Longest.starts {sort : Piece} {piece rest : List Char}
    (longest : Longest Lexeme sort piece rest) : Starts piece rest sort := by
  rcases longest.lexeme.covered rest with ⟨more, behind, rfl, starts⟩ | ⟨mantissa, breaks⟩
  · have further : piece ++ more <+: piece ++ (more ++ behind) := by
      rw [← List.append_assoc]
      exact List.prefix_append _ _
    have bound := longest.longest sort _ starts.longest.lexeme further
    obtain rfl : more = [] := by
      rw [List.length_append] at bound
      exact List.eq_nil_of_length_eq_zero (by omega)
    rwa [List.append_nil] at starts
  · obtain ⟨c, source, same, digit, ends⟩ := breaks
    obtain ⟨front, mark, more, whole, isMark, cut⟩ := exists_bareExponent digit ends
    rw [cut] at same
    have bound := longest.longest _ front (.number whole) (same ▸ List.prefix_append _ _)
    -- the piece is no shorter than the mantissa in front of the letter, and does not take the
    -- letter
    obtain ⟨others, rfl⟩ := List.prefix_of_prefix_length_le (List.prefix_append front _)
      (same ▸ List.prefix_append piece rest) bound
    rw [List.append_assoc] at same
    have behind := List.append_cancel_left same
    cases others with
    | nil =>
      rw [List.nil_append] at behind
      exact absurd isMark (longest.closed mantissa mark (by rw [behind]; rfl))
    | cons d others =>
      obtain ⟨rfl, -⟩ := List.cons.inj behind
      exact absurd (by simp) (mantissa.not_mem isMark)

/-! Whole texts -/

/-- Longest match leaves no choice. -/
theorem Tokenization.unique {text : List Char} {pieces others : List (Piece × List Char)}
    (cut : Tokenization Lexeme text pieces) (cut' : Tokenization Lexeme text others) :
    pieces = others := by
  induction cut generalizing others with
  | nil =>
    generalize whole : ([] : List Char) = text at cut'
    cases cut' with
    | nil => rfl
    | cons longest _ =>
      obtain ⟨c, text, rfl, -⟩ := longest.starts
      cases whole
  | @cons sort piece text pieces longest _ ih =>
    generalize whole : piece ++ text = all at cut'
    cases cut' with
    | nil =>
      obtain ⟨c, text, rfl, -⟩ := longest.starts
      cases whole
    | cons longest' cut' =>
      obtain ⟨rfl, rfl⟩ := longest.starts.unique longest'.starts whole
      obtain rfl := List.append_cancel_left whole
      rw [ih cut']

theorem Tokenization.scanFrom_eq {text : List Char} {pieces : List (Piece × List Char)}
    (cut : Tokenization Lexeme text pieces) (place : Position) :
    scanFrom place text = .ok (tokensAt place pieces) := by
  induction cut generalizing place with
  | nil =>
    rw [scanFrom]
    rfl
  | @cons sort piece text pieces longest _ ih =>
    cases sort with
    | trivia => rw [scanFrom_trivia longest.starts, ih, tokensAt]
    | token kind =>
      rw [scanFrom_token longest.starts, ih, tokensAt]
      rfl

theorem Stretch.exists_tokenization {place : Position} {text : List Char} {own : List Token}
    (stretch : Stretch place text [] own) :
    ∃ pieces, Tokenization Lexeme text pieces ∧
      tokensAt place pieces = own ++ [Token.endAt (place.after text)] := by
  generalize empty : ([] : List Char) = rest at stretch
  induction stretch with
  | nil => exact ⟨[], .nil, rfl⟩
  | @trivia place piece text rest own starts _ ih =>
    subst empty
    obtain ⟨pieces, cut, same⟩ := ih rfl
    rw [List.append_nil] at starts
    refine ⟨_, .cons starts.longest cut, ?_⟩
    rw [tokensAt, same, Position.after_append]
  | @token place piece text rest kind own starts _ ih =>
    subst empty
    obtain ⟨pieces, cut, same⟩ := ih rfl
    rw [List.append_nil] at starts
    refine ⟨_, .cons starts.longest cut, ?_⟩
    rw [tokensAt, same, Position.after_append]
    rfl

theorem scanFrom_eq_ok_iff {place : Position} {text : List Char} {list : List Token} :
    scanFrom place text = .ok list ↔
      ∃ pieces, Tokenization Lexeme text pieces ∧ list = tokensAt place pieces := by
  constructor
  · intro done
    obtain ⟨own, rfl, stretch⟩ := stretch_of_scanFrom done
    obtain ⟨pieces, cut, same⟩ := stretch.exists_tokenization
    exact ⟨pieces, cut, same.symm⟩
  · rintro ⟨pieces, cut, rfl⟩
    exact cut.scanFrom_eq place

/-! Where the tokens stand -/

/-- Something holds of the text between two offsets, which are both between characters. -/
def Between (source : List Char) (start stop : Nat) (holds : List Char → Prop) : Prop :=
  ∃ front middle back, source = front ++ (middle ++ back) ∧ start = byteCount front ∧
    stop = byteCount (front ++ middle) ∧ holds middle

/-- A text is trivia and nothing else. -/
def OnlyTrivia (text : List Char) : Prop :=
  ∃ pieces : List (List Char), text = pieces.flatten ∧ ∀ piece ∈ pieces, Lexeme .trivia piece

theorem OnlyTrivia.nil : OnlyTrivia [] := ⟨[], rfl, nofun⟩

theorem OnlyTrivia.append {text piece : List Char} (trivia : OnlyTrivia text)
    (more : Lexeme .trivia piece) : OnlyTrivia (text ++ piece) := by
  obtain ⟨pieces, rfl, all⟩ := trivia
  refine ⟨pieces ++ [piece], by simp, ?_⟩
  intro other member
  rcases List.mem_append.mp member with early | last
  · exact all other early
  · rw [List.mem_singleton.mp last]
    exact more

/-- The text under a token is the token's, and a lexeme of its kind. -/
def Token.Over (source : List Char) (t : Token) : Prop :=
  Between source t.span.start t.span.stop fun text =>
    t.text = String.ofList text ∧ Lexeme (.token t.kind) text

/-- The tokens of a source from an offset on: trivia in front of each, and the end of the input
last. -/
inductive LaidOut (source : List Char) : Nat → List Token → Prop
  | last {offset : Nat} {t : Token} (gap : Between source offset t.span.start OnlyTrivia)
      (kind : t.kind = .endOfInput) (start : t.span.start = byteCount source)
      (stop : t.span.stop = byteCount source) : LaidOut source offset [t]
  | cons {offset : Nat} {t : Token} {others : List Token}
      (gap : Between source offset t.span.start OnlyTrivia) (covers : t.Over source)
      (behind : LaidOut source t.span.stop others) : LaidOut source offset (t :: others)

/-- The tokens of a source: in order and apart, each over a lexeme of its kind, nothing but trivia
in front of the first and between them, and one end of input, which is last and at the end. -/
structure WellPlaced (source : List Char) (list : List Token) : Prop where
  ordered : list.Pairwise fun t u => t.span.stop ≤ u.span.start
  lexemes : ∀ t ∈ list, t.kind ≠ .endOfInput → t.Over source
  gaps : ∀ gap ∈ (0 :: list.map (·.span.stop)).zip (list.map (·.span.start)),
    Between source gap.1 gap.2 OnlyTrivia
  ends : ∃ own last, list = own ++ [last] ∧ last.kind = .endOfInput ∧
    last.span.start = byteCount source ∧ last.span.stop = byteCount source ∧
    ∀ t ∈ own, t.kind ≠ .endOfInput

theorem Between.le {source : List Char} {start stop : Nat} {holds : List Char → Prop}
    (between : Between source start stop holds) : start ≤ stop := by
  obtain ⟨front, middle, back, -, rfl, rfl, -⟩ := between
  rw [byteCount_append]
  exact Nat.le_add_right _ _

theorem Token.Over.kind_ne {source : List Char} {t : Token} (covers : t.Over source) :
    t.kind ≠ .endOfInput := by
  obtain ⟨front, middle, back, -, -, -, -, lexeme⟩ := covers
  intro kind
  rw [kind] at lexeme
  cases lexeme with
  | mark mark =>
    unfold TokenKind.ofMark? at mark
    split at mark <;> cases mark

theorem Lexeme.ne_nil {sort : Piece} {text : List Char} (lexeme : Lexeme sort text) :
    text ≠ [] := by
  cases lexeme with
  | number mantissa =>
    obtain ⟨c, rest, rfl, -⟩ := mantissa.exists_cons
    simp
  | regex pattern noComment =>
    cases pattern
    simp
  | _ => simp

/-- No token is empty. -/
theorem Token.Over.lt {source : List Char} {t : Token} (covers : t.Over source) :
    t.span.start < t.span.stop := by
  obtain ⟨front, middle, back, -, start, stop, -, lexeme⟩ := covers
  have some := List.length_pos_iff.mpr lexeme.ne_nil
  have bytes := length_le_byteCount middle
  rw [start, stop, byteCount_append]
  omega

namespace LaidOut

variable {source : List Char} {offset : Nat} {list : List Token}

/-- Pieces that are cut off behind some trivia leave their tokens there. -/
theorem of_tokenization {front gap text : List Char} {pieces : List (Piece × List Char)}
    (cut : Tokenization Lexeme text pieces) (trivia : OnlyTrivia gap) {place : Position}
    (here : place.offset = byteCount (front ++ gap)) :
    LaidOut (front ++ (gap ++ text)) (byteCount front) (tokensAt place pieces) := by
  induction cut generalizing front gap place with
  | nil =>
    have all : place.offset = byteCount (front ++ (gap ++ [])) := by rwa [List.append_nil]
    exact .last ⟨front, gap, [], rfl, rfl, here, trivia⟩ rfl all all
  | @cons sort piece text pieces longest _ ih =>
    have behind : (place.after piece).offset = byteCount (front ++ (gap ++ piece)) := by
      rw [Position.offset_after, here, ← List.append_assoc, byteCount_append (front ++ gap)]
    cases sort with
    | trivia =>
      rw [← List.append_assoc gap]
      exact ih (trivia.append longest.lexeme) behind
    | token kind =>
      refine .cons ⟨front, gap, piece ++ text, rfl, rfl, here, trivia⟩
        ⟨front ++ gap, piece, text, ?_, here, ?_, rfl, longest.lexeme⟩ ?_
      · rw [List.append_assoc]
      · rw [List.append_assoc]
        exact behind
      · have next := ih .nil (by rwa [List.append_nil])
        rw [List.nil_append, ← behind, List.append_assoc, List.append_assoc] at next
        exact next

theorem le (laid : LaidOut source offset list) : ∀ t ∈ list, offset ≤ t.span.start := by
  induction laid with
  | last gap kind start stop => simpa using gap.le
  | @cons offset t others gap covers _ ih =>
    intro u member
    rcases List.mem_cons.mp member with rfl | behind
    · exact gap.le
    · exact (gap.le.trans (Between.le covers)).trans (ih u behind)

theorem ordered (laid : LaidOut source offset list) :
    list.Pairwise fun t u => t.span.stop ≤ u.span.start := by
  induction laid with
  | last => exact List.pairwise_singleton _ _
  | cons gap covers behind ih => exact List.pairwise_cons.mpr ⟨behind.le, ih⟩

theorem lexemes (laid : LaidOut source offset list) :
    ∀ t ∈ list, t.kind ≠ .endOfInput → t.Over source := by
  induction laid with
  | last gap kind start stop =>
    intro t member other
    rw [List.mem_singleton.mp member] at other
    exact absurd kind other
  | cons gap covers behind ih => exact List.forall_mem_cons.mpr ⟨fun _ => covers, ih⟩

theorem gaps (laid : LaidOut source offset list) :
    ∀ gap ∈ (offset :: list.map (·.span.stop)).zip (list.map (·.span.start)),
      Between source gap.1 gap.2 OnlyTrivia := by
  induction laid with
  | last gap kind start stop => simpa using gap
  | cons gap covers behind ih => exact List.forall_mem_cons.mpr ⟨gap, ih⟩

theorem ends (laid : LaidOut source offset list) :
    ∃ own last, list = own ++ [last] ∧ last.kind = .endOfInput ∧
      last.span.start = byteCount source ∧ last.span.stop = byteCount source ∧
      ∀ t ∈ own, t.kind ≠ .endOfInput := by
  induction laid with
  | @last offset t gap kind start stop => exact ⟨[], t, rfl, kind, start, stop, nofun⟩
  | @cons offset t others gap covers behind ih =>
    obtain ⟨own, last, rfl, kind, start, stop, no⟩ := ih
    exact ⟨t :: own, last, rfl, kind, start, stop, List.forall_mem_cons.mpr ⟨covers.kind_ne, no⟩⟩

theorem wellPlaced (laid : LaidOut source 0 list) : WellPlaced source list where
  ordered := laid.ordered
  lexemes := laid.lexemes
  gaps := laid.gaps
  ends := laid.ends

end LaidOut

theorem laidOut_of_scanFrom {source : List Char} {list : List Token}
    (scanned : scanFrom .start source = .ok list) : LaidOut source 0 list := by
  obtain ⟨pieces, cut, rfl⟩ := scanFrom_eq_ok_iff.mp scanned
  have laid : LaidOut ([] ++ ([] ++ source)) (byteCount []) (tokensAt .start pieces) :=
    .of_tokenization cut .nil rfl
  exact laid

/-- A source has tokens exactly if it can be cut into lexemes of which each is the longest where it
stands, and they are the tokens of that cut, of which there is only one; and tokens stand in order
and apart, over lexemes of their kind, with only trivia between them and one end of input behind
them. -/
theorem tokens_longest_match (source : String) :
    (∀ list, tokens source = .ok list ↔
      ∃ pieces, Tokenization Lexeme source.toList pieces ∧ list = tokensAt .start pieces) ∧
    (∀ pieces others, Tokenization Lexeme source.toList pieces →
      Tokenization Lexeme source.toList others → pieces = others) ∧
    ∀ list, tokens source = .ok list → WellPlaced source.toList list := by
  refine ⟨fun list => scanFrom_eq_ok_iff, fun _ _ => Tokenization.unique, fun list scanned => ?_⟩
  obtain ⟨pieces, cut, rfl⟩ := scanFrom_eq_ok_iff.mp scanned
  have laid : LaidOut ([] ++ ([] ++ source.toList)) (byteCount []) (tokensAt .start pieces) :=
    .of_tokenization cut .nil rfl
  exact laid.wellPlaced

/-- The grammar in which a slash may open a pattern even where it starts like a comment. -/
def SlashGrammar (sort : Piece) (text : List Char) : Prop :=
  Lexeme sort text ∨ sort = .token .regex ∧ Pattern text

/-- A slash and a star open a comment, where the grammar would have a pattern. -/
theorem slash_star_opens_no_pattern :
    ¬∀ source : String, (∃ list, tokens source = .ok list) ↔
      ∃ pieces, Tokenization SlashGrammar source.toList pieces := by
  intro all
  have star : PatternBody ['*'] := .plain (by decide) (by decide) (by decide) (by decide) .nil
  have pattern : Pattern ['/', '*', '/'] := @Pattern.mk ['*'] [] star nofun
  have longest : Longest SlashGrammar (.token .regex) ['/', '*', '/'] [] :=
    ⟨.inr ⟨rfl, pattern⟩, fun _ _ _ within => within.length_le, fun _ => nofun⟩
  obtain ⟨list, scanned⟩ := (all "/*/").mpr ⟨_, .cons longest .nil⟩
  have refused : tokens "/*/" = .error ⟨1, 1, .unclosedComment⟩ := scanFrom_fault rfl .start
  rw [refused] at scanned
  cases scanned

end MongoShell

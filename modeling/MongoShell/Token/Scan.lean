import MongoShell.SyntaxError

/-!
Reading tokens from the front of a text. Each reader takes the longest stretch that its class of
token allows and gives back that stretch and what remains; `front_whole` says that together they
are the text. A source is cut into pieces from left to right, trivia (blanks and comments) leaving
no token, and the token list ends with one token for the end of input.
-/

namespace MongoShell

def isBlank (c : Char) : Bool := c == ' ' || c == '\t' || c == '\r' || c == '\n'

/-- Identifiers start with an ASCII letter, an underscore or a dollar sign. -/
def isIdentifierStart (c : Char) : Bool := c.isAlpha || c == '_' || c == '$'

def isIdentifierPart (c : Char) : Bool := c.isAlphanum || c == '_' || c == '$'

/-- A stretch of text and what follows it. -/
structure Cut where
  text : List Char
  rest : List Char
deriving DecidableEq, Repr

namespace Cut

/-- The longest stretch whose characters all pass the test. -/
def span (p : Char → Bool) (text : List Char) : Cut := ⟨text.takeWhile p, text.dropWhile p⟩

/-- The same cut, with one more character in front. -/
def cons (c : Char) (cut : Cut) : Cut := ⟨c :: cut.text, cut.rest⟩

/-- Go on cutting what remains, and count it to the same stretch. -/
def andThen (cut : Cut) (f : List Char → Cut) : Cut :=
  let more := f cut.rest
  ⟨cut.text ++ more.text, more.rest⟩

/-- The text that was cut. -/
def whole (cut : Cut) : List Char := cut.text ++ cut.rest

@[simp] theorem whole_span (p : Char → Bool) (text : List Char) : (span p text).whole = text :=
  List.takeWhile_append_dropWhile

@[simp] theorem whole_cons (c : Char) (cut : Cut) : (cut.cons c).whole = c :: cut.whole := rfl

theorem whole_andThen (cut : Cut) (f : List Char → Cut) (keeps : ∀ text, (f text).whole = text) :
    (cut.andThen f).whole = cut.whole := by
  have same := keeps cut.rest
  simp only [whole] at same
  simp only [andThen, whole, List.append_assoc, same]

end Cut

/-! Numbers -/

/-- A point and the digits behind it; a point without a digit is left alone. -/
def cutFraction : List Char → Cut
  | '.' :: d :: text =>
    if d.isDigit then (Cut.span Char.isDigit (d :: text)).cons '.' else ⟨[], '.' :: d :: text⟩
  | text => ⟨[], text⟩

def cutSign : List Char → Cut
  | [] => ⟨[], []⟩
  | c :: text => if c == '+' || c == '-' then ⟨[c], text⟩ else ⟨[], c :: text⟩

/-- The letter of an exponent, its sign and its digits, as far as they are there. -/
def cutExponent : List Char → Cut
  | [] => ⟨[], []⟩
  | c :: text =>
    if c == 'e' || c == 'E' then ((cutSign text).andThen (Cut.span Char.isDigit)).cons c
    else ⟨[], c :: text⟩

def cutNumber (text : List Char) : Cut :=
  ((Cut.span Char.isDigit text).andThen cutFraction).andThen cutExponent

/-- A number that was cut off inside its exponent does not end in a digit. -/
def endsInDigit (number : List Char) : Bool := number.getLast?.any Char.isDigit

/-! Strings, regular expressions and comments -/

/-- A string literal behind its opening quote, through the closing one. A backslash takes the next
character along, whatever it is; a line feed that is not escaped ends the attempt. -/
def cutString (quote : Char) (escaped : Bool) : List Char → Option Cut
  | [] => none
  | c :: text =>
    if escaped then (cutString quote false text).map (Cut.cons c)
    else if c = quote then some ⟨[c], text⟩
    else if c = '\n' then none
    else (cutString quote (c == '\\') text).map (Cut.cons c)

/-- A regular expression behind its opening slash, through the closing one. A slash in a bracketed
class or behind a backslash does not close it; no line feed may occur. -/
def cutRegex (escaped inClass : Bool) : List Char → Option Cut
  | [] => none
  | c :: text =>
    if c = '\n' then none
    else if escaped then (cutRegex false inClass text).map (Cut.cons c)
    else if c = '/' && !inClass then some ⟨[c], text⟩
    else (cutRegex (c == '\\') (c == '[' || (inClass && c != ']')) text).map (Cut.cons c)

/-- A comment behind its opening mark, through the first closing one. -/
def cutComment : List Char → Option Cut
  | [] => none
  | c :: text =>
    if c = '*' && text.head? == some '/' then some ⟨['*', '/'], text.tail⟩
    else (cutComment text).map (Cut.cons c)

/-! The piece at the front of a text -/

/-- A piece of the source: trivia, or a token of some kind. -/
inductive Piece where
  | trivia
  | token (kind : TokenKind)
deriving DecidableEq, Repr

structure Front where
  piece : Piece
  cut : Cut
deriving DecidableEq, Repr

/-- The piece that a slash opens: a comment or a regular expression. -/
def slashFront (text : List Char) : Except SyntaxFault Front :=
  match text with
  | '/' :: text => .ok ⟨.trivia, ((Cut.span (· != '\n') text).cons '/').cons '/'⟩
  | '*' :: text =>
    match cutComment text with
    | some cut => .ok ⟨.trivia, (cut.cons '*').cons '/'⟩
    | none => .error .unclosedComment
  | text =>
    match cutRegex false false text with
    | some cut => .ok ⟨.token .regex, (cut.andThen (Cut.span Char.isAlpha)).cons '/'⟩
    | none => .error .unclosedRegex

/-- The piece at the front of a text that starts with `c`. -/
def front (c : Char) (text : List Char) : Except SyntaxFault Front :=
  if isIdentifierStart c then .ok ⟨.token .identifier, (Cut.span isIdentifierPart text).cons c⟩
  else if c.isDigit then
    let cut := cutNumber (c :: text)
    if endsInDigit cut.text then .ok ⟨.token .number, cut⟩
    else .error (.bareExponent (String.ofList cut.text))
  else if c = '"' || c = '\'' then
    match cutString c false text with
    | some cut => .ok ⟨.token .string, cut.cons c⟩
    | none => .error (.unclosedString c)
  else if c = '/' then slashFront text
  else if isBlank c then .ok ⟨.trivia, ⟨[c], text⟩⟩
  else
    match TokenKind.ofMark? c with
    | some kind => .ok ⟨.token kind, ⟨[c], text⟩⟩
    | none => .error (.strayCharacter c)

/-! A cut loses nothing -/

theorem whole_cutFraction (text : List Char) : (cutFraction text).whole = text := by
  unfold cutFraction
  split
  · split
    · rw [Cut.whole_cons, Cut.whole_span]
    · rfl
  · rfl

theorem whole_cutSign (text : List Char) : (cutSign text).whole = text := by
  cases text with
  | nil => rfl
  | cons c text => simp only [cutSign]; split <;> rfl

theorem whole_cutExponent (text : List Char) : (cutExponent text).whole = text := by
  cases text with
  | nil => rfl
  | cons c text =>
    simp only [cutExponent]
    split
    · rw [Cut.whole_cons, Cut.whole_andThen _ _ (Cut.whole_span _), whole_cutSign]
    · rfl

theorem whole_cutNumber (text : List Char) : (cutNumber text).whole = text := by
  unfold cutNumber
  rw [Cut.whole_andThen _ _ whole_cutExponent, Cut.whole_andThen _ _ whole_cutFraction,
    Cut.whole_span]

/-- A number has at least the digit it starts with. -/
theorem text_cutNumber_ne_nil {c : Char} (digit : c.isDigit) (text : List Char) :
    (cutNumber (c :: text)).text ≠ [] := by
  simp [cutNumber, Cut.andThen, Cut.span, digit]

theorem whole_cutString {quote : Char} {escaped : Bool} {text : List Char} {cut : Cut}
    (found : cutString quote escaped text = some cut) : cut.whole = text := by
  induction text generalizing escaped cut with
  | nil => simp [cutString] at found
  | cons c text ih =>
    have step {e : Bool} (h : (cutString quote e text).map (Cut.cons c) = some cut) :
        cut.whole = c :: text := by
      obtain ⟨inner, innerFound, rfl⟩ := Option.map_eq_some_iff.mp h
      rw [Cut.whole_cons, ih innerFound]
    unfold cutString at found
    split at found
    · exact step found
    · split at found
      · cases found; rfl
      · split at found
        · cases found
        · exact step found

theorem whole_cutRegex {escaped inClass : Bool} {text : List Char} {cut : Cut}
    (found : cutRegex escaped inClass text = some cut) : cut.whole = text := by
  induction text generalizing escaped inClass cut with
  | nil => simp [cutRegex] at found
  | cons c text ih =>
    have step {e k : Bool} (h : (cutRegex e k text).map (Cut.cons c) = some cut) :
        cut.whole = c :: text := by
      obtain ⟨inner, innerFound, rfl⟩ := Option.map_eq_some_iff.mp h
      rw [Cut.whole_cons, ih innerFound]
    unfold cutRegex at found
    split at found
    · cases found
    · split at found
      · exact step found
      · split at found
        · cases found; rfl
        · exact step found

theorem whole_cutComment {text : List Char} {cut : Cut} (found : cutComment text = some cut) :
    cut.whole = text := by
  induction text generalizing cut with
  | nil => simp [cutComment] at found
  | cons c text ih =>
    unfold cutComment at found
    split at found
    · rename_i closing
      cases text with
      | nil => simp at closing
      | cons d text =>
        simp only [List.head?_cons, Bool.and_eq_true, decide_eq_true_eq, beq_iff_eq,
          Option.some.injEq] at closing
        cases found
        rw [closing.1, closing.2]
        rfl
    · obtain ⟨inner, innerFound, rfl⟩ := Option.map_eq_some_iff.mp found
      rw [Cut.whole_cons, ih innerFound]

theorem slashFront_whole {text : List Char} {piece : Front} (read : slashFront text = .ok piece) :
    piece.cut.whole = '/' :: text := by
  unfold slashFront at read
  split at read
  · cases read
    rw [Cut.whole_cons, Cut.whole_cons, Cut.whole_span]
  · split at read
    · rename_i found
      cases read
      rw [Cut.whole_cons, Cut.whole_cons, whole_cutComment found]
    · cases read
  · split at read
    · rename_i found
      cases read
      rw [Cut.whole_cons, Cut.whole_andThen _ _ (Cut.whole_span _), whole_cutRegex found]
    · cases read

/-- The piece at the front and what remains are together the text. -/
theorem front_whole {c : Char} {text : List Char} {piece : Front}
    (read : front c text = .ok piece) :
    piece.cut.whole = c :: text := by
  unfold front at read
  split at read
  · cases read
    rw [Cut.whole_cons, Cut.whole_span]
  split at read
  · simp only at read
    split at read
    · cases read
      exact whole_cutNumber _
    · cases read
  split at read
  · split at read
    · rename_i found
      cases read
      rw [Cut.whole_cons, whole_cutString found]
    · cases read
  split at read
  · rename_i slash
    rw [slash]
    exact slashFront_whole read
  split at read
  · cases read
    rfl
  split at read
  · cases read
    rfl
  · cases read

/-- A piece is never empty. -/
theorem front_text_ne_nil {c : Char} {text : List Char} {piece : Front}
    (read : front c text = .ok piece) : piece.cut.text ≠ [] := by
  unfold front at read
  split at read
  · cases read
    simp [Cut.cons]
  split at read
  · rename_i digit
    simp only at read
    split at read
    · cases read
      exact text_cutNumber_ne_nil digit text
    · cases read
  split at read
  · split at read
    · cases read
      simp [Cut.cons]
    · cases read
  split at read
  · unfold slashFront at read
    split at read
    · cases read
      simp [Cut.cons]
    · split at read <;> cases read
      simp [Cut.cons]
    · split at read <;> cases read
      simp [Cut.cons]
  split at read
  · cases read
    simp
  split at read
  · cases read
    simp
  · cases read

/-- What remains behind a piece is shorter than the text. -/
theorem front_rest_lt {c : Char} {text : List Char} {piece : Front}
    (read : front c text = .ok piece) : piece.cut.rest.length < (c :: text).length := by
  have whole := congrArg List.length (front_whole read)
  have positive := List.length_pos_iff.mpr (front_text_ne_nil read)
  simp only [Cut.whole, List.length_append] at whole
  omega

/-! Whole texts -/

/-- The tokens of a text that stands at the given place, ending with one for the end of input. -/
def scanFrom (place : Position) : List Char → Except SyntaxError (List Token)
  | [] => .ok [⟨.endOfInput, "", .between place place⟩]
  | c :: text =>
    match read : front c text with
    | .error fault => .error ⟨place.line, place.column, fault⟩
    | .ok piece =>
      have : piece.cut.rest.length < (c :: text).length := front_rest_lt read
      let behind := place.after piece.cut.text
      match scanFrom behind piece.cut.rest, piece.piece with
      | .ok tokens, .token kind =>
        .ok (⟨kind, String.ofList piece.cut.text, .between place behind⟩ :: tokens)
      | others, _ => others
termination_by text => text.length
decreasing_by exact this

/-- The tokens of a source text. -/
def tokens (source : String) : Except SyntaxError (List Token) := scanFrom .start source.toList

end MongoShell

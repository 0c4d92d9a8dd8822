import MongoShell.Proofs.Token.Lexeme
import MongoShell.Token.Literal

/-! Regular expression literals and their two parts. A literal is read forwards, by whether a
character is escaped or in a class, up to the slash that closes its pattern; it is split backwards,
at its last slash. The two agree, since no flag is a slash. -/

namespace MongoShell

/-- Where the reading of a pattern is: whether a backslash takes the next character along, and
whether a bracketed class is open. -/
structure PatternPlace where
  escaped : Bool
  inClass : Bool

namespace PatternPlace

/-- The place in front of a pattern. -/
def start : PatternPlace := ⟨false, false⟩

/-- The place behind one more character; one that is escaped opens and closes nothing. -/
def next (place : PatternPlace) (c : Char) : PatternPlace :=
  if place.escaped then ⟨false, place.inClass⟩
  else ⟨c == '\\', c == '[' || (place.inClass && c != ']')⟩

def after (place : PatternPlace) (text : List Char) : PatternPlace := text.foldl next place

/-- The rest of a pattern from a place on: in one line, with no class open and no escape begun at
its end, and with no slash but in a class or escaped. -/
structure Finishes (place : PatternPlace) (text : List Char) : Prop where
  inLine : '\n' ∉ text
  noEscape : (place.after text).escaped = false
  noClass : (place.after text).inClass = false
  slashes : ∀ before behind, text = before ++ '/' :: behind →
    (place.after before).escaped = true ∨ (place.after before).inClass = true

end PatternPlace

/-- A text that can stand between the slashes of a regular expression: not the start of a comment,
and no end in it. -/
structure IsPattern (text : List Char) : Prop extends PatternPlace.start.Finishes text where
  nonempty : text ≠ []
  noComment : ∀ c ∈ text.head?, c ≠ '/' ∧ c ≠ '*'

/-- The literal of a pattern and flags. -/
def regexLiteral (pattern flags : List Char) : List Char := '/' :: (pattern ++ '/' :: flags)

/-! Forwards -/

namespace PatternPlace

variable {place : PatternPlace} {c : Char} {text : List Char}

theorem finishes_nil : place.Finishes [] ↔ place.escaped = false ∧ place.inClass = false := by
  constructor
  · exact fun finishes => ⟨finishes.noEscape, finishes.noClass⟩
  · rintro ⟨noEscape, noClass⟩
    exact ⟨by simp, noEscape, noClass, by simp⟩

/-- What the rest of a pattern has to be from a place on, character by character. -/
theorem finishes_cons : place.Finishes (c :: text) ↔
    c ≠ '\n' ∧ (c = '/' → place.escaped = true ∨ place.inClass = true) ∧
      (place.next c).Finishes text := by
  constructor
  · rintro ⟨inLine, noEscape, noClass, slashes⟩
    obtain ⟨noFeed, inLine⟩ := not_or.mp (List.mem_cons.not.mp inLine)
    refine ⟨Ne.symm noFeed, ?_, inLine, noEscape, noClass, ?_⟩
    · rintro rfl
      exact slashes [] text rfl
    · intro before behind parted
      exact slashes (c :: before) behind (by rw [parted, List.cons_append])
  · rintro ⟨noFeed, slash, inLine, noEscape, noClass, slashes⟩
    refine ⟨?_, noEscape, noClass, ?_⟩
    · simp [inLine, Ne.symm noFeed]
    · intro before behind parted
      cases before with
      | nil => exact slash (List.cons.inj parted).1
      | cons d before =>
        obtain ⟨rfl, others⟩ := List.cons.inj parted
        exact slashes before behind others

end PatternPlace

/-- A pattern is cut off at a slash exactly if what stands in front of the slash finishes it. -/
theorem cutRegex_eq_iff {place : PatternPlace} {text : List Char} (rest : List Char) :
    cutRegex place.escaped place.inClass (text ++ '/' :: rest) = some ⟨text ++ ['/'], rest⟩ ↔
      place.Finishes text := by
  obtain ⟨escaped, inClass⟩ := place
  -- over the pattern and not over the source, for every place since each character moves it
  induction text generalizing escaped inClass with
  | nil =>
    rw [PatternPlace.finishes_nil, List.nil_append, List.nil_append, cutRegex,
      if_neg (by decide : '/' ≠ '\n')]
    have goesOn {escaped inClass : Bool} :
        (cutRegex escaped inClass rest).map (Cut.cons '/') ≠ some ⟨['/'], rest⟩ := by
      rw [ne_eq, Cut.map_cons_eq_some]
      exact fun found => cutRegex_ne_nil found.2
    cases escaped with
    | true => exact iff_of_false goesOn (by simp)
    | false =>
      cases inClass with
      | true => exact iff_of_false goesOn (by simp)
      | false => exact iff_of_true rfl ⟨rfl, rfl⟩
  | cons c text ih =>
    have others {escaped inClass : Bool} :
        (cutRegex escaped inClass (text ++ '/' :: rest)).map (Cut.cons c) =
            some ⟨c :: (text ++ ['/']), rest⟩ ↔ PatternPlace.Finishes ⟨escaped, inClass⟩ text := by
      rw [Cut.map_cons_eq_some, and_iff_right rfl, ih]
    rw [PatternPlace.finishes_cons, List.cons_append, List.cons_append, cutRegex, PatternPlace.next]
    by_cases feed : c = '\n'
    · simp [feed]
    rw [if_neg feed, and_iff_right feed]
    cases escaped with
    | true =>
      rw [if_pos rfl, if_pos rfl, others]
      simp
    | false =>
      rw [if_neg Bool.false_ne_true, if_neg Bool.false_ne_true]
      by_cases closes : (c = '/' && !inClass) = true
      · rw [if_pos closes]
        simp_all
      · rw [if_neg closes, others]
        simp_all

/-- Patterns are what the grammar has between two slashes, where that does not start a comment. -/
theorem isPattern_iff {text : List Char} (behind : List Char) :
    IsPattern text ↔ PatternBody text ∧ ¬OpensComment ('/' :: (text ++ '/' :: behind)) := by
  have finishes : PatternPlace.start.Finishes text ↔ PatternBody text := by
    rw [← cutRegex_eq_iff []]
    refine ⟨fun cut => ?_, fun body => body.cut []⟩
    obtain ⟨body, inside, shown⟩ := patternRest_of_cutRegex cut
    rwa [List.append_cancel_right shown]
  rw [opensComment_slash]
  constructor
  · rintro ⟨rest, nonempty, noComment⟩
    obtain ⟨c, text, rfl⟩ := List.exists_cons_of_ne_nil nonempty
    have first := noComment c rfl
    exact ⟨finishes.mp rest, by simpa using first⟩
  · rintro ⟨body, noComment⟩
    cases text with
    | nil => exact absurd (.inl rfl) noComment
    | cons c text =>
      refine ⟨finishes.mpr body, List.cons_ne_nil c text, ?_⟩
      rintro d ⟨⟩
      simpa using noComment

/-- A literal is one token, if no letter follows its flags. -/
theorem IsPattern.starts {pattern flags rest : List Char} (is : IsPattern pattern)
    (letters : ∀ c ∈ flags, c.isAlpha = true) (ends : ∀ c ∈ rest.head?, c.isAlpha = false) :
    Starts (regexLiteral pattern flags) rest (.token .regex) := by
  have inside := ((isPattern_iff []).mp is).1
  obtain ⟨c, text, rfl⟩ := List.exists_cons_of_ne_nil is.nonempty
  have ⟨noLine, noBlock⟩ := is.noComment c rfl
  have read := front_pattern inside noLine noBlock (flags ++ rest)
  rw [Cut.andThen, span_append letters ends] at read
  refine ⟨'/', c :: text ++ '/' :: flags, rfl, ?_⟩
  rw [List.append_assoc]
  refine read.trans ?_
  simp [Cut.cons, regexLiteral]

/-! Backwards -/

/-- The last slash of a literal is the one behind its pattern. -/
theorem splitRegex_literal {pattern flags : List Char} (letters : ∀ c ∈ flags, c.isAlpha = true) :
    splitRegex (String.ofList (regexLiteral pattern flags)) =
      (String.ofList pattern, String.ofList flags) := by
  have noSlash : ∀ c ∈ flags.reverse, (c != '/') = true := by
    intro c member
    refine bne_iff_ne.mpr ?_
    rintro rfl
    cases letters '/' (List.mem_reverse.mp member)
  have stop : ∀ c ∈ ('/' :: (pattern.reverse ++ ['/'])).head?, (c != '/') = false := by
    rintro c ⟨⟩
    rfl
  have backwards : (regexLiteral pattern flags).reverse =
      flags.reverse ++ '/' :: (pattern.reverse ++ ['/']) := by simp [regexLiteral]
  simp only [splitRegex, String.toList_ofList, backwards, takeWhile_stop noSlash stop,
    dropWhile_stop noSlash stop, List.reverse_reverse]
  simp

end MongoShell

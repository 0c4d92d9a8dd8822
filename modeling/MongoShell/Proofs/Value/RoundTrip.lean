import MongoShell.Proofs.Number.Shortest
import MongoShell.Proofs.Script
import MongoShell.Proofs.Token.Quote
import MongoShell.Value.ToJson

/-! Values that go to JSON and come back. Those that JSON has types of its own for are written as
literals of the shell: their text on one line is one statement, an expression that writes the very
same value. The induction is on the value, and says of each part of the text that it is cut into
tokens that read as the part of the value, whatever list or object it stands in. -/

namespace MongoShell

/-! Number literals -/

namespace Numeral

theorem text_ne_cons (n : Numeral) {c : Char} (letter : c.isDigit = false) (text : List Char) :
    n.text ≠ c :: text := by
  obtain ⟨d, rest, shown, digit⟩ := n.text_exists_cons
  intro same
  rw [shown] at same
  cases same
  rw [letter] at digit
  cases digit

/-- No numeral is one of the two words for infinity. -/
theorem signedText_ne_infinity (negative : Bool) (n : Numeral) :
    String.ofList (n.signedText negative) ≠ "Infinity" ∧
      String.ofList (n.signedText negative) ≠ "-Infinity" := by
  have wordless := n.text_ne_cons (c := 'I') rfl "nfinity".toList
  have signless := n.text_ne_cons (c := '-') rfl "Infinity".toList
  constructor
  · intro same
    have text := congrArg String.toList same
    rw [String.toList_ofList] at text
    cases negative with
    | false => exact wordless text
    | true => cases text
  · intro same
    have text := congrArg String.toList same
    rw [String.toList_ofList] at text
    cases negative with
    | false => exact signless text
    | true => exact wordless (List.cons.inj text).2

theorem Fractional.exists_mark {n : Numeral} (fractional : n.Fractional) (negative : Bool) :
    ∃ c ∈ n.signedText negative, c = '.' ∨ c = 'e' := by
  have unsigned : ∃ c ∈ n.text, c = '.' ∨ c = 'e' := by
    rcases fractional with point | power
    · refine ⟨'.', ?_, .inl rfl⟩
      rw [text, pointText, if_neg point]
      simp
    · obtain ⟨⟨below, digits⟩, found⟩ := Option.isSome_iff_exists.mp power
      refine ⟨'e', ?_, .inr rfl⟩
      rw [text, powerText, found]
      simp
  obtain ⟨c, member, mark⟩ := unsigned
  refine ⟨c, ?_, mark⟩
  cases negative with
  | false => exact member
  | true => exact List.mem_cons_of_mem '-' member

end Numeral

namespace Value

theorem ofLexeme_fractional (negative : Bool) {n : Numeral} (fractional : n.Fractional) :
    ofLexeme (String.ofList (n.signedText negative)) =
      .ok (double (Double.ofDecimal negative n.decimal)) := by
  obtain ⟨noWord, noSigned⟩ := n.signedText_ne_infinity negative
  obtain ⟨c, member, mark⟩ := fractional.exists_mark negative
  have marked : (n.signedText negative).any (fun c => c == '.' || c == 'e' || c == 'E') = true := by
    refine List.any_eq_true.mpr ⟨c, member, ?_⟩
    rcases mark with rfl | rfl <;> rfl
  simp only [ofLexeme, String.toList_ofList]
  rw [if_neg noWord, if_neg noSigned, if_pos marked, Double.ofText?_numeral]

theorem ofLexeme_toString {n : Int} {value : Value} (narrowest : ofInt? n = some value) :
    ofLexeme (toString n) = .ok value := by
  have text := Numeral.toList_toString_int n
  obtain ⟨noWord, noSigned⟩ := (Numeral.ofNat n.natAbs).signedText_ne_infinity (n < 0)
  rw [← text, String.ofList_toList] at noWord noSigned
  have unmarked : (toString n).toList.any (fun c => c == '.' || c == 'e' || c == 'E') = false := by
    refine List.any_eq_false.mpr fun c member => ?_
    rw [text] at member
    have digitOrSign : c = '-' ∨ c.isDigit = true := by
      rw [Numeral.signedText, Numeral.text_ofNat] at member
      split at member
      · rcases List.mem_cons.mp member with sign | digit
        · exact .inl sign
        · exact .inr (toDigits_all_isDigit _ c digit)
      · exact .inr (toDigits_all_isDigit _ c member)
    rcases digitOrSign with rfl | digit
    · decide
    · have other (d : Char) (letter : d.isDigit = false) : (c == d) = false := by
        refine beq_eq_false_iff_ne.mpr ?_
        rintro rfl
        rw [digit] at letter
        cases letter
      simp [other '.' rfl, other 'e' rfl, other 'E' rfl]
  simp only [ofLexeme]
  rw [if_neg noWord, if_neg noSigned, unmarked, if_neg Bool.false_ne_true,
    Numeral.integer?_toString, Option.bind_some, narrowest]

theorem ofInt?_int32 (n : Int32) : ofInt? n.toInt = some (int32 n) := by
  rw [ofInt?, if_pos ⟨n.le_toInt, n.toInt_lt⟩, Int32.ofInt_toInt]

theorem ofInt?_int64 {n : Int64} (wide : n.toInt < -0x80000000 ∨ 0x80000000 ≤ n.toInt) :
    ofInt? n.toInt = some (int64 n) := by
  have outside : ¬(-0x80000000 ≤ n.toInt ∧ n.toInt < 0x80000000) := by omega
  rw [ofInt?, if_neg outside, if_pos ⟨n.le_toInt, n.toInt_lt⟩, Int64.ofInt_toInt]

end Value

/-- A literal with a sign is two tokens, one without is one. -/
theorem scans_signed (negative : Bool) (n : Numeral) {rest : List Char} (delimited : Delimited rest)
    {value : Value} (literal : Value.ofLexeme (String.ofList (n.signedText negative)) = .ok value) :
    Scans (n.signedText negative) rest (Reads · value) := by
  cases negative with
  | false => exact (scans_numeral n delimited).mono fun _ isNumber => reads_number isNumber literal
  | true =>
    refine ((scans_mark (c := '-') rfl _).append (scans_numeral n delimited)).mono ?_
    rintro _ ⟨sign, number, isSign, isNumber, rfl⟩
    exact reads_negative isSign isNumber literal

theorem scans_int {n : Int} {value : Value} (narrowest : Value.ofInt? n = some value)
    {rest : List Char} (delimited : Delimited rest) :
    Scans (toString n).toList rest (Reads · value) := by
  have literal := Value.ofLexeme_toString narrowest
  rw [← String.ofList_toList (s := toString n)] at literal
  rw [Numeral.toList_toString_int] at literal ⊢
  exact scans_signed _ _ delimited literal

theorem scans_double {d : Double} (finite : d.isFinite = true) {rest : List Char}
    (delimited : Delimited rest) : Scans d.text.toList rest (Reads · (.double d)) := by
  obtain ⟨n, shown, fractional, decimal⟩ := Double.text_numeral finite
  have literal := Value.ofLexeme_fractional d.negative fractional
  rw [decimal] at literal
  rw [shown]
  exact scans_signed _ n delimited literal

/-! Values that JSON has types for -/

namespace Value

mutual

/-- Whether a value is of types that JSON has: doubles that are finite, and integers of 64 bits only
where 32 are too few, since it is the narrowest type that a literal is read as. -/
def Plain : Value → Prop
  | null | boolean _ | int32 _ | string _ => True
  | int64 n => n.toInt < -0x80000000 ∨ 0x80000000 ≤ n.toInt
  | double d => d.isFinite = true
  | array items => ItemsPlain items
  | document entries => EntriesPlain entries
  | _ => False

def ItemsPlain : List Value → Prop
  | [] => True
  | value :: rest => value.Plain ∧ ItemsPlain rest

def EntriesPlain : List (String × Value) → Prop
  | [] => True
  | (_, value) :: rest => value.Plain ∧ EntriesPlain rest

end

end Value

/-- A word that is a constant of the language, and starts neither a command nor a construction. -/
theorem scans_constant {c : Char} {letters rest : List Char} {value : Value}
    (start : isIdentifierStart c = true) (parts : letters.all isIdentifierPart = true)
    (noShow : String.ofList (c :: letters) ≠ "show") (noNew : String.ofList (c :: letters) ≠ "new")
    (constant : ∀ span, (Mode.wordValue span (String.ofList (c :: letters))).Spells value)
    (delimited : Delimited rest) : Scans (c :: letters) rest (Reads · value) := by
  have word := scans_word start (List.all_eq_true.mp parts) delimited
  exact word.mono fun _ isWord => reads_word isWord noShow noNew constant

theorem scans_null {rest : List Char} (delimited : Delimited rest) :
    Scans Json.null.compact rest (Reads · .null) := by
  rw [Json.compact]
  change Scans ['n', 'u', 'l', 'l'] rest _
  exact scans_constant rfl rfl (by decide) (by decide) (fun _ => ⟨fun _ => rfl, rfl⟩) delimited

theorem scans_boolean (b : Bool) {rest : List Char} (delimited : Delimited rest) :
    Scans (Json.boolean b).compact rest (Reads · (.boolean b)) := by
  cases b with
  | false =>
    rw [Json.compact]
    change Scans ['f', 'a', 'l', 's', 'e'] rest _
    exact scans_constant rfl rfl (by decide) (by decide) (fun _ => ⟨fun _ => rfl, rfl⟩) delimited
  | true =>
    rw [Json.compact]
    change Scans ['t', 'r', 'u', 'e'] rest _
    exact scans_constant rfl rfl (by decide) (by decide) (fun _ => ⟨fun _ => rfl, rfl⟩) delimited

theorem scans_string (text : String) (rest : List Char) :
    Scans (Json.string text).compact rest (Reads · (.string text)) := by
  rw [Json.compact]
  exact (Json.scans_quote text rest).mono fun _ isString =>
    reads_string isString (StringLiteral.contents?_quote text)

theorem scans_member (name : String) {value : Value} {text rest : List Char}
    (scans : Scans text rest (Reads · value)) :
    Scans (Json.quote name ++ (':' :: text)) rest (ReadsMember · name value) := by
  have colon : Scans ([':'] ++ text) rest _ := (scans_mark rfl (text ++ rest)).append scans
  refine ((Json.scans_quote name _).append colon).mono ?_
  rintro _ ⟨key, _, isKey, ⟨colon, tokens, isColon, reads, rfl⟩, rfl⟩
  exact readsMember isKey (StringLiteral.contents?_quote name) isColon reads

/-! Behind an item comes a comma or the bracket, behind a member a comma or the brace. -/

theorem delimited_items (items : List Json) (rest : List Char) :
    Delimited (Json.compactItems items ++ rest) := by
  cases items with
  | nil => exact delimited_cons (.inr (.inl rfl)) rest
  | cons item items =>
    rw [Json.compactItems, List.cons_append]
    exact delimited_cons (.inl rfl) _

theorem delimited_members (members : List (String × Json)) (rest : List Char) :
    Delimited (Json.compactMembers members ++ rest) := by
  cases members with
  | nil => exact delimited_cons (.inr (.inr rfl)) rest
  | cons member members =>
    obtain ⟨name, value⟩ := member
    rw [Json.compactMembers, List.cons_append]
    exact delimited_cons (.inl rfl) _

mutual

/-- The text of a value is cut into tokens that read as the value. -/
theorem scans_value : (value : Value) → value.Plain → (rest : List Char) → Delimited rest →
    Scans value.toJson.compact rest (Reads · value)
  | .null, _, _, delimited => by
    rw [Value.toJson]
    exact scans_null delimited
  | .boolean b, _, _, delimited => by
    rw [Value.toJson]
    exact scans_boolean b delimited
  | .int32 n, _, _, delimited => by
    rw [Value.toJson, Json.ofInt, Json.compact]
    exact scans_int (Value.ofInt?_int32 n) delimited
  | .int64 n, plain, _, delimited => by
    rw [Value.Plain] at plain
    rw [Value.toJson, Json.ofInt, Json.compact]
    exact scans_int (Value.ofInt?_int64 plain) delimited
  | .double d, plain, _, delimited => by
    rw [Value.Plain] at plain
    rw [Value.toJson, Value.doubleToJson, if_pos plain, Json.compact]
    exact scans_double plain delimited
  | .string text, _, rest, _ => by
    rw [Value.toJson]
    exact scans_string text rest
  | .array [], _, rest, _ => by
    rw [Value.toJson, Value.jsonItemsOf, Json.compact]
    have both := (scans_mark (c := '[') rfl ([']'] ++ rest)).append (scans_mark (c := ']') rfl rest)
    refine both.mono ?_
    rintro _ ⟨opening, closing, opens, closes, rfl⟩
    exact reads_emptyArray opens closes
  | .array (value :: items), plain, rest, _ => by
    rw [Value.Plain, Value.ItemsPlain] at plain
    rw [Value.toJson, Value.jsonItemsOf, Json.compact]
    have first := scans_value value plain.1 _ (delimited_items (Value.jsonItemsOf items) rest)
    have inside := first.append (scans_items items plain.2 rest)
    refine ((scans_mark (c := '[') rfl _).append inside).mono ?_
    rintro _ ⟨opening, _, opens, ⟨tokens, more, item, others, rfl⟩, rfl⟩
    exact reads_array opens item others
  | .document [], _, rest, _ => by
    rw [Value.toJson, Value.membersOf, Json.compact]
    have both := (scans_mark (c := '{') rfl (['}'] ++ rest)).append (scans_mark (c := '}') rfl rest)
    refine both.mono ?_
    rintro _ ⟨opening, closing, opens, closes, rfl⟩
    exact reads_emptyObject opens closes
  | .document ((name, value) :: entries), plain, rest, _ => by
    rw [Value.Plain, Value.EntriesPlain] at plain
    rw [Value.toJson, Value.membersOf, Json.compact]
    have first := scans_value value plain.1 _ (delimited_members (Value.membersOf entries) rest)
    have inside := (scans_member name first).append (scans_members entries plain.2 rest)
    rw [List.append_assoc] at inside
    refine ((scans_mark (c := '{') rfl _).append inside).mono ?_
    rintro _ ⟨opening, _, opens, ⟨tokens, more, member, others, rfl⟩, rfl⟩
    exact reads_object opens member others
  | .binary .., plain, _, _ | .objectId _, plain, _, _ | .date _, plain, _, _
  | .regex .., plain, _, _ | .timestamp .., plain, _, _ | .decimal _, plain, _, _
  | .minKey, plain, _, _ | .maxKey, plain, _, _ => by
    rw [Value.Plain] at plain
    · exact plain.elim
    all_goals nofun

theorem scans_items : (items : List Value) → Value.ItemsPlain items → (rest : List Char) →
    Scans (Json.compactItems (Value.jsonItemsOf items)) rest (ReadsItems · items)
  | [], _, rest => by
    rw [Value.jsonItemsOf, Json.compactItems]
    exact (scans_mark rfl rest).mono fun _ closing => readsItems_nil closing
  | value :: items, plain, rest => by
    rw [Value.ItemsPlain] at plain
    rw [Value.jsonItemsOf, Json.compactItems]
    have first := scans_value value plain.1 _ (delimited_items (Value.jsonItemsOf items) rest)
    have inside := first.append (scans_items items plain.2 rest)
    refine ((scans_mark (c := ',') rfl _).append inside).mono ?_
    rintro _ ⟨comma, _, isComma, ⟨tokens, more, item, others, rfl⟩, rfl⟩
    exact readsItems_cons isComma item others

theorem scans_members : (entries : List (String × Value)) → Value.EntriesPlain entries →
    (rest : List Char) →
    Scans (Json.compactMembers (Value.membersOf entries)) rest (ReadsMembers · entries)
  | [], _, rest => by
    rw [Value.membersOf, Json.compactMembers]
    exact (scans_mark rfl rest).mono fun _ closing => readsMembers_nil closing
  | (name, value) :: entries, plain, rest => by
    rw [Value.EntriesPlain] at plain
    rw [Value.membersOf, Json.compactMembers]
    have first := scans_value value plain.1 _ (delimited_members (Value.membersOf entries) rest)
    have inside := (scans_member name first).append (scans_members entries plain.2 rest)
    rw [List.append_assoc] at inside
    refine ((scans_mark (c := ',') rfl _).append inside).mono ?_
    rintro _ ⟨comma, _, isComma, ⟨tokens, more, member, others, rfl⟩, rfl⟩
    exact readsMembers_cons isComma member others

end

/-- The text of a value in JSON is one statement of the shell, an expression that writes the value:
the types are the same, the order of entries is, and keys that occur more than once still do. -/
theorem Value.compact_reads_back {value : Value} (plain : value.Plain) :
    ∃ statement e, Statement.ofSource (String.ofList value.toJson.compact) = .ok statement ∧
      statement.kind = .expression e ∧ ∀ fresh, ofExpr fresh e = .ok value := by
  obtain ⟨read, reads, cut⟩ := scans_value value plain [] delimited_nil .start
  rw [List.append_nil, scanFrom] at cut
  let place := Position.start.after value.toJson.compact
  let final : Token := ⟨.endOfInput, "", .between place place⟩
  have ends : final.kind = .endOfInput := rfl
  obtain ⟨statement, e, script, kind, spells⟩ :=
    Script.ofTokens_value value.toJson.compact reads ends
  have scanned : tokens (String.ofList value.toJson.compact) = .ok (read ++ [final]) := by
    rw [tokens, String.toList_ofList, cut]
    rfl
  refine ⟨statement, e, ?_, kind, spells.value⟩
  rw [Statement.ofSource, Script.ofSource, scanned]
  simp only [String.toList_ofList, script]

/-- A key twice, a minus sign, a zero with one, an integer that is just too wide for 32 bits, and a
string with escapes. -/
def Value.repeatedKey : Value :=
  document
    [("k", array [int32 (-5), double { Double.zero with negative := true }, int64 0x80000000,
      string "a\"\n"]),
      ("k", boolean true)]

theorem Value.repeatedKey_reads_back :
    repeatedKey.Plain ∧
    ∃ statement e,
      Statement.ofSource "\x7b\"k\":[-5,-0.0,2147483648,\"a\\\"\\n\"],\"k\":true\x7d" =
        .ok statement ∧
      statement.kind = .expression e ∧ ∀ fresh, ofExpr fresh e = .ok repeatedKey := by
  have plain : repeatedKey.Plain := by
    simp only [repeatedKey, Plain, EntriesPlain, ItemsPlain]
    decide
  have text : String.ofList repeatedKey.toJson.compact =
      "\x7b\"k\":[-5,-0.0,2147483648,\"a\\\"\\n\"],\"k\":true\x7d" := by
    decide +kernel
  rw [← text]
  exact ⟨plain, compact_reads_back plain⟩

end MongoShell

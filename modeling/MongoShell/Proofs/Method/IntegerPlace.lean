import MongoShell.Method.Modifier
import MongoShell.Method.Option
import MongoShell.Proofs.Outcome
import MongoShell.Proofs.Value.WholeNumber

/-! The places that take a whole number: arguments of constructors, of modifiers of a cursor, and
options of methods. Each takes a number literal, and some take the text of a number in a string; the
number that a place stores is the one that the text is taken for, and each place has its range. -/

namespace MongoShell

open Outcome

inductive IntegerPlace where
  | int32
  | int64
  | milliseconds
  | seconds
  | increment
  | subtype
  | limit
  | skip
  | option (o : MethodOption)

/-- The expressions that write a number: a literal, or a string with the text of a number between
blanks. -/
inductive Expr.WritesNumber : Expr → List Char → ℚ → Prop
  | literal (span : Span) {lexeme : String} {v : ℚ} (writes : NumberText lexeme.toList v) :
      WritesNumber (.number span lexeme) lexeme.toList v
  | string (span : Span) {text : String} {v : ℚ} (writes : NumberText (trimBlanks text.toList) v) :
      WritesNumber (.string span text) (trimBlanks text.toList) v

def Expr.IsNumber (e : Expr) : Prop := ∃ span lexeme, e = .number span lexeme

/-- A constructor makes a value of some arguments, by one of its names. -/
def Constructor.Makes (constructor : Constructor) (fresh : Fresh) (arguments : List Expr)
    (value : Value) : Prop :=
  ∃ name offset, ofName? name = some constructor ∧
    Value.construct fresh offset name arguments = .ok value

namespace MethodOption

/-- The options that are whole numbers. -/
def numeric : List MethodOption := [maxTimeMS, limit, skip, expireAfterSeconds, size, maxDocuments]

/-- The whole number that an operation has under an option. -/
def stored? (op : Operation) : MethodOption → Option Int
  | maxTimeMS => op.maxTimeMS
  | limit => op.limit
  | skip => op.skip
  | expireAfterSeconds => op.expireAfterSeconds
  | size => op.size
  | maxDocuments => op.maxDocuments
  | _ => none

end MethodOption

namespace IntegerPlace

/-- The numbers that a place has room for. -/
def range : IntegerPlace → Set Int
  | int32 => {n | -0x80000000 ≤ n ∧ n < 0x80000000}
  | int64 | milliseconds | limit => {n | -0x8000000000000000 ≤ n ∧ n < 0x8000000000000000}
  | seconds | increment => {n | 0 ≤ n ∧ n < 0x100000000}
  | subtype => {n | 0 ≤ n ∧ n < 0x100}
  | skip | option _ => {n | 0 ≤ n ∧ n < 0x8000000000000000}

/-- The expressions that a place looks into for a number. -/
def Takes (e : Expr) : IntegerPlace → Prop
  | int32 | int64 | seconds | increment | subtype => True
  | milliseconds | limit | skip => e.IsNumber
  | option o => o ∈ MethodOption.numeric ∧ e.IsNumber

/-- An expression is accepted in a place, and this is the number that is stored for it. -/
inductive Stores (fresh : Fresh) (e : Expr) : IntegerPlace → Int → Prop
  | int32 {n : Int32} (made : Constructor.int32.Makes fresh [e] (.int32 n)) :
      Stores fresh e .int32 n.toInt
  | int64 {n : Int64} (made : Constructor.int64.Makes fresh [e] (.int64 n)) :
      Stores fresh e .int64 n.toInt
  | milliseconds {n : Int64} (number : e.IsNumber)
      (made : Constructor.date.Makes fresh [e] (.date n)) : Stores fresh e .milliseconds n.toInt
  | seconds {other : Expr} {time increment : UInt32}
      (made : Constructor.timestamp.Makes fresh [e, other] (.timestamp time increment)) :
      Stores fresh e .seconds time.toNat
  | increment {other : Expr} {time increment : UInt32}
      (made : Constructor.timestamp.Makes fresh [other, e] (.timestamp time increment)) :
      Stores fresh e .increment increment.toNat
  | secondsField {span keySpan : Span} {front back : List Property} {time increment : UInt32}
      (last : "t" ∉ back.map Property.key)
      (made : Constructor.timestamp.Makes fresh
        [.object span (front ++ .mk "t" keySpan e :: back)] (.timestamp time increment)) :
      Stores fresh e .seconds time.toNat
  | incrementField {span keySpan : Span} {front back : List Property} {time increment : UInt32}
      (last : "i" ∉ back.map Property.key)
      (made : Constructor.timestamp.Makes fresh
        [.object span (front ++ .mk "i" keySpan e :: back)] (.timestamp time increment)) :
      Stores fresh e .increment increment.toNat
  | binData {data : Expr} {subtype : UInt8} {bytes : List UInt8}
      (made : Constructor.binData.Makes fresh [e, data] (.binary subtype bytes)) :
      Stores fresh e .subtype subtype.toNat
  | hexData {data : Expr} {subtype : UInt8} {bytes : List UInt8}
      (made : Constructor.hexData.Makes fresh [e, data] (.binary subtype bytes)) :
      Stores fresh e .subtype subtype.toNat
  | limit {before after : Operation} {n : Int}
      (done : Modifier.limit.set fresh (some e) before = .ok after)
      (stored : after.limit = some n) :
      Stores fresh e .limit n
  | skip {before after : Operation} {n : Int}
      (done : Modifier.skip.set fresh (some e) before = .ok after) (stored : after.skip = some n) :
      Stores fresh e .skip n
  | option {o : MethodOption} {key : String} {value : Value} {options : Document}
      {before after : Operation} {n : Int} (named : key ∈ o.keys)
      (converted : Value.ofExpr fresh e = .ok value) (last : options.get? key = some value)
      (done : o.set options before = .ok after) (stored : o.stored? after = some n) :
      Stores fresh e (.option o) n

end IntegerPlace

/-! Words of a range -/

theorem uint32_range (k : UInt32) : 0 ≤ (k.toNat : Int) ∧ (k.toNat : Int) < 0x100000000 := by
  have bound := k.toNat_lt
  omega

theorem uint32_of_range {n : Int} (range : 0 ≤ n ∧ n < 0x100000000) :
    ((UInt32.ofNat n.toNat).toNat : Int) = n := by
  have small : n.toNat < 2 ^ 32 := by omega
  rw [UInt32.toNat_ofNat_of_lt' small, Int.toNat_of_nonneg range.1]

theorem uint8_range (k : UInt8) : 0 ≤ (k.toNat : Int) ∧ (k.toNat : Int) < 256 := by
  have bound := k.toNat_lt
  omega

theorem uint8_of_range {n : Int} (range : 0 ≤ n ∧ n < 256) :
    ((UInt8.ofNat n.toNat).toNat : Int) = n := by
  have small : n.toNat < 2 ^ 8 := by omega
  rw [UInt8.toNat_ofNat_of_lt' small, Int.toNat_of_nonneg range.1]

/-- Where a whole number is checked for a range and made a word of it, a word comes out exactly if
the number was the word's. -/
theorem narrow_eq_ok_iff {ε word result : Type} {range : Int → Prop} [DecidablePred range]
    {fault : Int → ε} (make : Int → word) (number : word → Int) (wrap : word → result)
    (within : ∀ k, range (number k)) (held : ∀ {n}, range n → number (make n) = n)
    (made : ∀ k, make (number k) = k) (apart : ∀ {k j}, wrap k = wrap j → k = j)
    (read : Except ε Int) (k : word) :
    (read >>= fun n => if range n then .ok (wrap (make n)) else .error (fault n)) = .ok (wrap k) ↔
      read = .ok (number k) := by
  refine (bind_eq_ok _ _ _).trans ⟨?_, fun own => ⟨_, own, ?_⟩⟩
  · rintro ⟨n, own, checked⟩
    split at checked
    · rename_i inside
      obtain rfl := apart (Except.ok.inj checked)
      rw [own, held inside]
    · cases checked
  · rw [if_pos (within k), made]

/-! Reading -/

theorem TakenFor.bounds {text : List Char} {v : ℚ} {n : Int} (taken : TakenFor text v n) :
    -2 ^ 63 ≤ n ∧ n < 2 ^ 63 := by
  unfold TakenFor at taken
  split at taken
  · have small := abs_lt.mp taken.1
    omega
  · exact taken.2

/-- A text that writes a whole number is taken for no other. -/
theorem TakenFor.eq_of_whole {text : List Char} {z n : Int} (taken : TakenFor text z n) :
    n = z := by
  unfold TakenFor at taken
  split at taken
  · obtain ⟨small, near, nearest, shown⟩ := taken
    exact nearest.eq_of_whole shown small
  · exact_mod_cast taken.1.symm

/-- A text that writes a small whole number is taken for it. -/
theorem takenFor_whole (text : List Char) {z : Int} (small : |z| < 2 ^ 53) : TakenFor text z z := by
  unfold TakenFor
  split
  · obtain ⟨own, finite, shown⟩ := Double.exists_value_eq small
    exact ⟨small, own, shown ▸ Double.nearest_value finite, shown⟩
  · have range := abs_lt.mp small
    exact ⟨rfl, by omega, by omega⟩

/-- A text is taken for no number beyond a small whole number that its own is not beyond. -/
theorem TakenFor.same_side {text : List Char} {v : ℚ} {z n : Int} (taken : TakenFor text v n)
    (small : |z| < 2 ^ 53) : (z ≤ v → z ≤ n) ∧ (v ≤ z → n ≤ z) := by
  unfold TakenFor at taken
  split at taken
  · obtain ⟨-, near, nearest, shown⟩ := taken
    have sides := nearest.same_side small
    rw [shown] at sides
    exact_mod_cast sides
  · rw [taken.1]
    exact ⟨Int.cast_le.mp, Int.cast_le.mp⟩

namespace Value

variable {e : Expr} {text : List Char} {v : ℚ}

theorem integerArgument_eq_ok_iff (writes : e.WritesNumber text v) (n : Int) :
    integerArgument e = .ok n ↔ TakenFor text v n := by
  have reads {lexeme : String} (shown : numberText e = .ok lexeme) :
      integerArgument e = .ok n ↔
        ∃ value, ofLexeme lexeme = .ok value ∧ value.integer? = some n := by
    rw [integerArgument, shown]
    refine (bind_eq_ok _ _ _).trans ⟨?_, ?_⟩
    · rintro ⟨_, ⟨⟩, read⟩
      obtain ⟨value, made, held⟩ := (bind_eq_ok _ _ _).mp read
      refine ⟨value, made, ?_⟩
      split at held
      · rename_i shown
        cases held
        exact shown
      · cases held
    · rintro ⟨value, made, held⟩
      refine ⟨_, rfl, (bind_eq_ok _ _ _).mpr ⟨value, made, ?_⟩⟩
      simp only [held]
  cases writes with
  | literal span writes => exact (reads rfl).trans (writes.integer?_ofLexeme n)
  | @string span text _ writes =>
    have same : (String.ofList (trimBlanks text.toList)).toList = trimBlanks text.toList :=
      String.toList_ofList
    rw [← same] at writes ⊢
    exact (reads rfl).trans (writes.integer?_ofLexeme n)

theorem unsigned32Argument_eq_ok_iff {what : String} {k : UInt32} :
    unsigned32Argument what e = .ok k ↔ integerArgument e = .ok (k.toNat : Int) :=
  narrow_eq_ok_iff (fun n => UInt32.ofNat n.toNat) (fun k => k.toNat) id uint32_range
    uint32_of_range
    (fun _ => UInt32.ofNat_toNat) id _ k

theorem subtypeArgument_eq_ok_iff {k : UInt8} :
    subtypeArgument e = .ok k ↔ integerArgument e = .ok (k.toNat : Int) :=
  narrow_eq_ok_iff (fun n => UInt8.ofNat n.toNat) (fun k => k.toNat) id uint8_range uint8_of_range
    (fun _ => UInt8.ofNat_toNat) id _ k

end Value

/-! Constructors -/

namespace Constructor

variable {fresh : Fresh} {constructor : Constructor} {arguments : List Expr} {value : Value}

theorem Makes.apply (makes : constructor.Makes fresh arguments value) :
    ∃ offset, constructor.apply fresh offset arguments = .ok value := by
  obtain ⟨name, offset, named, made⟩ := makes
  refine ⟨offset, ?_⟩
  simp only [Value.construct, named] at made
  split at made
  · rename_i applied
    cases made
    exact applied
  · cases made

theorem Makes.of_apply (name : String) {offset : Nat} (named : ofName? name = some constructor)
    (made : constructor.apply fresh offset arguments = .ok value) :
    constructor.Makes fresh arguments value :=
  ⟨name, offset, named, by simp only [Value.construct, named, made]⟩

end Constructor

namespace Value

variable {e other : Expr}

theorem int32Of_eq_ok_iff {k : Int32} :
    int32Of [e] = .ok (.int32 k) ↔ integerArgument e = .ok k.toInt :=
  narrow_eq_ok_iff Int32.ofInt Int32.toInt Value.int32 (fun k => ⟨k.le_toInt, k.toInt_lt⟩)
    (fun range => Int32.toInt_ofInt_of_le range.1 range.2) Int32.ofInt_toInt Value.int32.inj _ k

theorem int64Of_eq_ok_iff {value : Value} :
    int64Of [e] = .ok value ↔ ∃ n, integerArgument e = .ok n ∧ value = .int64 (Int64.ofInt n) := by
  rw [int64Of]
  refine (bind_eq_ok _ _ _).trans ?_
  simp only [Except.ok.injEq, eq_comm]

theorem dateOf_eq_ok_iff {value : Value} (now : Int) (number : e.IsNumber) :
    dateOf now [e] = .ok value ↔
      ∃ n, integerArgument e = .ok n ∧ value = .date (Int64.ofInt n) := by
  obtain ⟨span, lexeme, rfl⟩ := number
  rw [dateOf]
  refine (bind_eq_ok _ _ _).trans ?_
  simp only [Except.ok.injEq, eq_comm]

theorem timestampOf_eq_ok_iff {time increment : UInt32} :
    timestampOf [e, other] = .ok (.timestamp time increment) ↔
      unsigned32Argument "seconds" e = .ok time ∧
        unsigned32Argument "increment" other = .ok increment := by
  rw [timestampOf]
  simp only [bind_eq_ok, Except.ok.injEq, Value.timestamp.injEq]
  constructor
  · rintro ⟨time, first, increment, second, rfl, rfl⟩
    exact ⟨first, second⟩
  · rintro ⟨first, second⟩
    exact ⟨_, first, _, second, rfl, rfl⟩

/-- The fields in front of a property leave the reading of the rest to go on with. -/
theorem timestampFields_append {time increment : Option UInt32} {front rest : List Property}
    {fields : Option UInt32 × Option UInt32}
    (read : timestampFields time increment (front ++ rest) = .ok fields) :
    ∃ time increment, timestampFields time increment rest = .ok fields := by
  induction front generalizing time increment with
  | nil => exact ⟨time, increment, read⟩
  | cons property front ih =>
    obtain ⟨key, span, value⟩ := property
    rw [List.cons_append, timestampFields] at read
    split at read
    · obtain ⟨_, -, others⟩ := (bind_eq_ok _ _ _).mp read
      exact ih others
    split at read
    · obtain ⟨_, -, others⟩ := (bind_eq_ok _ _ _).mp read
      exact ih others
    · cases read

/-- A field stays as it was read where no property has its key. -/
theorem timestampFields_keeps {time increment : Option UInt32} {properties : List Property}
    {fields : Option UInt32 × Option UInt32}
    (read : timestampFields time increment properties = .ok fields) :
    ("t" ∉ properties.map Property.key → fields.1 = time) ∧
      ("i" ∉ properties.map Property.key → fields.2 = increment) := by
  induction properties generalizing time increment with
  | nil =>
    cases read
    exact ⟨fun _ => rfl, fun _ => rfl⟩
  | cons property properties ih =>
    obtain ⟨key, span, value⟩ := property
    rw [timestampFields] at read
    simp only [List.map_cons, List.mem_cons, not_or, Property.key]
    split at read
    · rename_i same
      obtain ⟨_, -, others⟩ := (bind_eq_ok _ _ _).mp read
      exact ⟨fun absent => absurd same.symm absent.1, fun absent => (ih others).2 absent.2⟩
    split at read
    · rename_i same
      obtain ⟨_, -, others⟩ := (bind_eq_ok _ _ _).mp read
      exact ⟨fun absent => (ih others).1 absent.2, fun absent => absurd same.symm absent.1⟩
    · cases read

/-- The fields of a timestamp's document are those that are read of it. -/
theorem timestampFields_of_timestampOf {span : Span} {properties : List Property}
    {time increment : UInt32}
    (made : timestampOf [.object span properties] = .ok (.timestamp time increment)) :
    timestampFields none none properties = .ok (some time, some increment) := by
  rw [timestampOf] at made
  obtain ⟨fields, read, made⟩ := (bind_eq_ok _ _ _).mp made
  split at made
  · cases made
    exact read
  · cases made

theorem timestampOf_seconds {span keySpan : Span} {front back : List Property}
    {time increment : UInt32} (last : "t" ∉ back.map Property.key)
    (made : timestampOf [.object span (front ++ .mk "t" keySpan e :: back)] =
      .ok (.timestamp time increment)) : unsigned32Argument "t" e = .ok time := by
  obtain ⟨_, _, read⟩ := timestampFields_append (timestampFields_of_timestampOf made)
  rw [timestampFields, if_pos rfl] at read
  obtain ⟨_, own, others⟩ := (bind_eq_ok _ _ _).mp read
  cases (timestampFields_keeps others).1 last
  exact own

theorem timestampOf_increment {span keySpan : Span} {front back : List Property}
    {time increment : UInt32} (last : "i" ∉ back.map Property.key)
    (made : timestampOf [.object span (front ++ .mk "i" keySpan e :: back)] =
      .ok (.timestamp time increment)) : unsigned32Argument "i" e = .ok increment := by
  obtain ⟨_, _, read⟩ := timestampFields_append (timestampFields_of_timestampOf made)
  rw [timestampFields, if_neg (by decide), if_pos rfl] at read
  obtain ⟨_, own, others⟩ := (bind_eq_ok _ _ _).mp read
  cases (timestampFields_keeps others).2 last
  exact own

/-- Binary data has the first argument for its subtype and its bytes from the second, whichever way
they are read from the text there. -/
theorem binary_eq_ok_iff {decode : List Char → Option (List UInt8)}
    {fault : String → ConversionFault} {subtype : UInt8} {bytes : List UInt8} :
    (do
      let subtype ← subtypeArgument e
      let text ← stringArgument "data" other
      match decode text.toList with
      | some bytes => Except.ok (binary subtype bytes)
      | none => .error (fault text)) = .ok (.binary subtype bytes) ↔
      subtypeArgument e = .ok subtype ∧
        ∃ text, stringArgument "data" other = .ok text ∧ decode text.toList = some bytes := by
  simp only [bind_eq_ok]
  constructor
  · rintro ⟨_, number, text, contents, made⟩
    split at made
    · rename_i read
      cases made
      exact ⟨number, text, contents, read⟩
    · cases made
  · rintro ⟨number, text, contents, read⟩
    exact ⟨subtype, number, text, contents, by rw [read]⟩

end Value

/-! Modifiers and options -/

/-- The number that an expression's own value holds; a string holds none, whatever its text. -/
theorem Value.integer?_ofExpr {e : Expr} {text : List Char} {v : ℚ} (fresh : Fresh)
    (writes : e.WritesNumber text v) (n : Int) :
    (∃ value, ofExpr fresh e = .ok value ∧ value.integer? = some n) ↔
      e.IsNumber ∧ TakenFor text v n := by
  cases writes with
  | literal span writes =>
    rw [← writes.integer?_ofLexeme n, ofExpr]
    simp only [mapError_eq_ok]
    exact ⟨fun held => ⟨⟨_, _, rfl⟩, held⟩, And.right⟩
  | string span writes =>
    refine ⟨?_, ?_⟩
    · rintro ⟨_, ⟨⟩, held⟩
      cases held
    · rintro ⟨⟨_, _, ⟨⟩⟩, -⟩

theorem Modifier.read_readInteger {fresh : Fresh} {e : Expr} {n : Int} :
    Argument.read fresh (some e) readInteger = .ok n ↔
      ∃ value, Value.ofExpr fresh e = .ok value ∧ value.integer? = some n := by
  rw [Argument.read, Argument.value?]
  cases Value.ofExpr fresh e with
  | error fault => simp [bind_eq_ok]
  | ok value =>
    simp only [bind_eq_ok, Except.ok.injEq, exists_eq_left', mapError_eq_ok]
    cases absent : value.isNull with
    | true =>
      cases value <;> simp_all [Value.isNull, readInteger, readRequired, Value.integer?]
    | false =>
      rw [if_neg Bool.false_ne_true, readInteger, readRequired]
      cases value.integer? <;> simp

theorem Value.asNatural_eq_ok_iff {what : String} {value : Value} {n : Int} :
    value.asNatural what = .ok n ↔ value.integer? = some n ∧ 0 ≤ n := by
  rw [asNatural, bind_eq_ok]
  unfold asInteger
  cases value.integer? with
  | none => simp
  | some m =>
    simp only [Except.ok.injEq, exists_eq_left', Option.some.injEq]
    split
    · rename_i negative
      refine ⟨nofun, ?_⟩
      rintro ⟨rfl, nonneg⟩
      exact absurd negative (not_lt.mpr nonneg)
    · rename_i nonneg
      refine ⟨?_, fun held => congrArg _ held.1⟩
      rintro ⟨⟩
      exact ⟨rfl, not_lt.mp nonneg⟩

theorem Document.readOption_asNatural {options : Document} {key : String} {n : Int} :
    options.readOption key Value.asNatural = .ok (some n) ↔
      ∃ value, options.get? key = some value ∧ value.integer? = some n ∧ 0 ≤ n := by
  rw [readOption, option?]
  cases options.get? key with
  | none => simp [readGiven]
  | some value =>
    simp only [Option.some.injEq, exists_eq_left']
    cases absent : value.isNull with
    | true => cases value <;> simp_all [Value.isNull, readGiven, Value.integer?]
    | false =>
      simp only [Bool.false_eq_true, if_false, readGiven, map_eq_ok, Value.asNatural_eq_ok_iff]
      simp

namespace MethodOption

variable {options : Document} {before after : Operation} {o : MethodOption} {n : Int}

/-- An option that stores a whole number is read as one, under its key. -/
theorem read_of_set (done : o.set options before = .ok after) (stored : o.stored? after = some n) :
    o ∈ numeric ∧ ∀ key ∈ o.keys, options.readOption key Value.asNatural = .ok (some n) := by
  cases o
  case maxTimeMS | limit | skip | expireAfterSeconds | size | maxDocuments =>
    obtain ⟨_, read, ⟨⟩⟩ := (bind_eq_ok _ _ _).mp done
    cases stored
    refine ⟨by decide, fun key member => ?_⟩
    rw [List.mem_singleton.mp member]
    exact read
  all_goals cases stored

theorem set_of_read (whole : o ∈ numeric) (before : Operation)
    (read : ∀ key ∈ o.keys, options.readOption key Value.asNatural = .ok (some n)) :
    ∃ after, o.set options before = .ok after ∧ o.stored? after = some n := by
  cases o
  case maxTimeMS | limit | skip | expireAfterSeconds | size | maxDocuments =>
    have found := read _ (List.mem_singleton.mpr rfl)
    exact ⟨_, (bind_eq_ok _ _ _).mpr ⟨_, found, rfl⟩, rfl⟩
  all_goals exact absurd whole (by decide)

end MethodOption

namespace IntegerPlace

variable {fresh : Fresh} {place : IntegerPlace} {e : Expr} {text : List Char} {v : ℚ} {n : Int}

/-- A number that is stored is in the range of its place, and the one that the text is taken for. -/
theorem Stores.taken (writes : e.WritesNumber text v) (stores : place.Stores fresh e n) :
    place.Takes e ∧ n ∈ place.range ∧ TakenFor text v n := by
  have argument {n : Int} := Value.integerArgument_eq_ok_iff writes n
  have unsigned {what : String} {k : UInt32} (read : Value.unsigned32Argument what e = .ok k) :
      (0 ≤ (k.toNat : Int) ∧ (k.toNat : Int) < 0x100000000) ∧ TakenFor text v k.toNat :=
    ⟨uint32_range k, argument.mp (Value.unsigned32Argument_eq_ok_iff.mp read)⟩
  have byte {k : UInt8} (read : Value.subtypeArgument e = .ok k) :
      (0 ≤ (k.toNat : Int) ∧ (k.toNat : Int) < 0x100) ∧ TakenFor text v k.toNat :=
    ⟨uint8_range k, argument.mp (Value.subtypeArgument_eq_ok_iff.mp read)⟩
  cases stores with
  | int32 made =>
    obtain ⟨_, made⟩ := made.apply
    exact ⟨trivial, ⟨Int32.le_toInt _, Int32.toInt_lt _⟩,
      argument.mp (Value.int32Of_eq_ok_iff.mp made)⟩
  | int64 made =>
    obtain ⟨_, made⟩ := made.apply
    obtain ⟨m, read, ⟨⟩⟩ := Value.int64Of_eq_ok_iff.mp made
    have taken := argument.mp read
    rw [Int64.toInt_ofInt_of_le taken.bounds.1 taken.bounds.2]
    exact ⟨trivial, taken.bounds, taken⟩
  | milliseconds number made =>
    obtain ⟨_, made⟩ := made.apply
    obtain ⟨m, read, ⟨⟩⟩ := (Value.dateOf_eq_ok_iff _ number).mp made
    have taken := argument.mp read
    rw [Int64.toInt_ofInt_of_le taken.bounds.1 taken.bounds.2]
    exact ⟨number, taken.bounds, taken⟩
  | seconds made =>
    obtain ⟨_, made⟩ := made.apply
    exact ⟨trivial, unsigned (Value.timestampOf_eq_ok_iff.mp made).1⟩
  | increment made =>
    obtain ⟨_, made⟩ := made.apply
    exact ⟨trivial, unsigned (Value.timestampOf_eq_ok_iff.mp made).2⟩
  | secondsField last made =>
    obtain ⟨_, made⟩ := made.apply
    rw [Constructor.apply] at made
    exact ⟨trivial, unsigned (Value.timestampOf_seconds last made)⟩
  | incrementField last made =>
    obtain ⟨_, made⟩ := made.apply
    rw [Constructor.apply] at made
    exact ⟨trivial, unsigned (Value.timestampOf_increment last made)⟩
  | binData made =>
    obtain ⟨_, made⟩ := made.apply
    rw [Constructor.apply, Value.binDataOf] at made
    exact ⟨trivial, byte (Value.binary_eq_ok_iff.mp made).1⟩
  | hexData made =>
    obtain ⟨_, made⟩ := made.apply
    rw [Constructor.apply, Value.hexDataOf] at made
    exact ⟨trivial, byte (Value.binary_eq_ok_iff.mp made).1⟩
  | limit done stored =>
    obtain ⟨_, read, ⟨⟩⟩ := (bind_eq_ok _ _ _).mp done
    cases stored
    obtain ⟨number, taken⟩ :=
      (Value.integer?_ofExpr fresh writes n).mp (Modifier.read_readInteger.mp read)
    exact ⟨number, taken.bounds, taken⟩
  | skip done stored =>
    obtain ⟨_, read, checked⟩ := (bind_eq_ok _ _ _).mp done
    split at checked
    · cases checked
    · rename_i nonneg
      cases checked
      cases stored
      obtain ⟨number, taken⟩ :=
        (Value.integer?_ofExpr fresh writes n).mp (Modifier.read_readInteger.mp read)
      exact ⟨number, ⟨not_lt.mp nonneg, taken.bounds.2⟩, taken⟩
  | option named converted last done stored =>
    obtain ⟨whole, read⟩ := MethodOption.read_of_set done stored
    obtain ⟨_, found, held, nonneg⟩ := Document.readOption_asNatural.mp (read _ named)
    cases last.symm.trans found
    obtain ⟨number, taken⟩ := (Value.integer?_ofExpr fresh writes n).mp ⟨_, converted, held⟩
    exact ⟨⟨whole, number⟩, ⟨nonneg, taken.bounds.2⟩, taken⟩

/-- What the text is taken for is stored, in a place that takes the expression and has room. -/
theorem stores_of_taken (writes : e.WritesNumber text v) (takes : place.Takes e)
    (range : n ∈ place.range) (taken : TakenFor text v n) : place.Stores fresh e n := by
  have argument {k : Int} (same : k = n) : Value.integerArgument e = .ok k :=
    same ▸ (Value.integerArgument_eq_ok_iff writes n).mpr taken
  let cursor : Operation := { kind := .find }
  have zero {what : String} :
      Value.unsigned32Argument what (.number Expr.nowhere "0") = .ok 0 := rfl
  cases place with
  | int32 =>
    have same : (Int32.ofInt n).toInt = n := Int32.toInt_ofInt_of_le range.1 range.2
    have made : Constructor.int32.apply fresh 0 [e] = .ok (.int32 (Int32.ofInt n)) :=
      Value.int32Of_eq_ok_iff.mpr (argument same)
    have stores := Stores.int32 (.of_apply "NumberInt" rfl made)
    rwa [same] at stores
  | int64 =>
    have made : Constructor.int64.apply fresh 0 [e] = .ok (.int64 (Int64.ofInt n)) :=
      Value.int64Of_eq_ok_iff.mpr ⟨n, argument rfl, rfl⟩
    have stores := Stores.int64 (.of_apply "NumberLong" rfl made)
    rwa [Int64.toInt_ofInt_of_le range.1 range.2] at stores
  | milliseconds =>
    have made : Constructor.date.apply fresh 0 [e] = .ok (.date (Int64.ofInt n)) :=
      (Value.dateOf_eq_ok_iff _ takes).mpr ⟨n, argument rfl, rfl⟩
    have stores := Stores.milliseconds takes (.of_apply "ISODate" rfl made)
    rwa [Int64.toInt_ofInt_of_le range.1 range.2] at stores
  | seconds =>
    have same := uint32_of_range range
    have made : Constructor.timestamp.apply fresh 0 [e, .number Expr.nowhere "0"] =
        .ok (.timestamp (UInt32.ofNat n.toNat) 0) :=
      Value.timestampOf_eq_ok_iff.mpr
        ⟨Value.unsigned32Argument_eq_ok_iff.mpr (argument same), zero⟩
    have stores := Stores.seconds (.of_apply "Timestamp" rfl made)
    rwa [same] at stores
  | increment =>
    have same := uint32_of_range range
    have made : Constructor.timestamp.apply fresh 0 [.number Expr.nowhere "0", e] =
        .ok (.timestamp 0 (UInt32.ofNat n.toNat)) :=
      Value.timestampOf_eq_ok_iff.mpr
        ⟨zero, Value.unsigned32Argument_eq_ok_iff.mpr (argument same)⟩
    have stores := Stores.increment (.of_apply "Timestamp" rfl made)
    rwa [same] at stores
  | subtype =>
    have same := uint8_of_range range
    have made : Constructor.binData.apply fresh 0 [e, .string Expr.nowhere ""] =
        .ok (.binary (UInt8.ofNat n.toNat) []) := by
      rw [Constructor.apply, Value.binDataOf,
        Value.subtypeArgument_eq_ok_iff.mpr (argument same)]
      rfl
    have stores := Stores.binData (.of_apply "BinData" rfl made)
    rwa [same] at stores
  | limit =>
    have read := Modifier.read_readInteger.mpr
      ((Value.integer?_ofExpr fresh writes n).mpr ⟨takes, taken⟩)
    have done : Modifier.limit.set fresh (some e) cursor = .ok { cursor with limit := some n } :=
      (bind_eq_ok _ _ _).mpr ⟨n, read, rfl⟩
    exact .limit done rfl
  | skip =>
    have read := Modifier.read_readInteger.mpr
      ((Value.integer?_ofExpr fresh writes n).mpr ⟨takes, taken⟩)
    have done : Modifier.skip.set fresh (some e) cursor = .ok { cursor with skip := some n } :=
      (bind_eq_ok _ _ _).mpr ⟨n, read, if_neg (not_lt.mpr range.1)⟩
    exact .skip done rfl
  | option o =>
    obtain ⟨whole, number⟩ := takes
    obtain ⟨value, converted, held⟩ := (Value.integer?_ofExpr fresh writes n).mpr ⟨number, taken⟩
    obtain ⟨key, named⟩ : ∃ key, o.keys = [key] := by
      have single : ∀ o ∈ MethodOption.numeric, o.keys.length = 1 := by decide
      exact List.length_eq_one_iff.mp (single o whole)
    have found : Document.get? key [(key, value)] = some value := by simp [Document.get?]
    have read := Document.readOption_asNatural.mpr ⟨value, found, held, range.1⟩
    have all : ∀ other ∈ o.keys,
        Document.readOption other Value.asNatural [(key, value)] = .ok (some n) := by
      rw [named]
      exact List.forall_mem_singleton.mpr read
    obtain ⟨after, done, stored⟩ := MethodOption.set_of_read whole cursor all
    exact .option (named ▸ List.mem_singleton_self key) converted found done stored

/-- What a place stores for a number that is written to it. The number has to be in the range of the
place. Where the text is digits alone it is the number that they write; where the text has a point
or a power of ten it is that of the nearest double, which has to be a whole number of at most 53
bits. So a whole number is stored as itself or not at all, while of another number the fraction may
be lost. -/
theorem stores_nearest (writes : e.WritesNumber text v) (n : Int) :
    (place.Stores fresh e n ↔ place.Takes e ∧ n ∈ place.range ∧ TakenFor text v n) ∧
      (place.Stores fresh e n → ∀ z : Int, v = z → n = z) := by
  refine ⟨⟨Stores.taken writes, ?_⟩, ?_⟩
  · rintro ⟨takes, range, taken⟩
    exact stores_of_taken writes takes range taken
  · rintro stores z rfl
    exact (stores.taken writes).2.2.eq_of_whole

/-- Half of an odd number beyond 2 ^ 53. -/
def oddHalf : Expr := .number Expr.nowhere "4503599627370497.5"

theorem oddHalf_writes :
    oddHalf.WritesNumber "4503599627370497.5".toList (9007199254740995 / 2) := by
  have whole : ∀ c ∈ "4503599627370497".toList, c.isDigit = true := List.all_eq_true.mp rfl
  have fraction : ∀ c ∈ ['5'], c.isDigit = true := List.all_eq_true.mp rfl
  have text := NumberText.mk .absent whole (.point fraction) (by decide) .absent
  have digits : digitsValue ("4503599627370497".toList ++ ['5']) = 45035996273704975 := by decide
  have value : Double.signed false
      (digitsValue ("4503599627370497".toList ++ ['5']) * 10 ^ ((0 : Int) - ['5'].length)) =
        9007199254740995 / 2 := by
    rw [digits]
    norm_num [Double.signed]
  rw [value] at text
  exact .literal Expr.nowhere text

theorem oddHalf_stored (fresh : Fresh) :
    IntegerPlace.int64.Stores fresh oddHalf 4503599627370498 := by
  have made : Constructor.int64.apply fresh 0 [oddHalf] = .ok (.int64 4503599627370498) :=
    Value.int64Of_eq_ok_iff.mpr ⟨4503599627370498, rfl, rfl⟩
  exact .int64 (.of_apply "NumberLong" rfl made)

/-- The half is taken for the even number above it. -/
theorem oddHalf_nearest :
    ∃ near : Double,
      near.Nearest (9007199254740995 / 2) ∧ near.value = (4503599627370498 : Int) := by
  have stores := oddHalf_stored (Fresh.ofSeed 0 0)
  obtain ⟨-, -, taken⟩ := (stores_nearest oddHalf_writes _).1.mp stores
  have marked : HasMark "4503599627370497.5".toList := by decide
  rw [TakenFor, if_pos marked] at taken
  exact taken.2

/-- Not every number is stored as it is written. -/
theorem stored_fraction_is_lost :
    ¬∀ (place : IntegerPlace) (fresh : Fresh) (e : Expr) (text : List Char) (v : ℚ) (n : Int),
      e.WritesNumber text v → place.Stores fresh e n → v = n := by
  intro always
  have same := always _ _ _ _ _ _ oddHalf_writes (oddHalf_stored (Fresh.ofSeed 0 0))
  norm_num at same

end IntegerPlace

end MongoShell

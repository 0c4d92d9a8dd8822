import MongoShell.Proofs.Method.IntegerPlace
import MongoShell.Proofs.Value.Call

/-! The two forms of a timestamp. The call with a document reads the document's properties one by
one, and keeps of each part the one read last; so it comes to the call with the last time and the
last increment, if the document has both, has nothing else and every part in it is good. -/

namespace MongoShell

open Outcome

/-! Properties -/

namespace Property

/-- The value of the last property under a key. -/
def last? (key : String) : List Property → Option Expr
  | [] => none
  | property :: rest =>
    (last? key rest).or (if property.key = key then some property.value else none)

variable {key : String} {properties : List Property}

theorem exists_of_last? {e : Expr} (found : last? key properties = some e) :
    ∃ property ∈ properties, property.key = key ∧ property.value = e := by
  induction properties with
  | nil => cases found
  | cons property properties ih =>
    rcases Option.or_eq_some_iff.mp found with later | ⟨-, own⟩
    · obtain ⟨other, member, same⟩ := ih later
      exact ⟨other, List.mem_cons_of_mem _ member, same⟩
    · split at own
      · rename_i same
        exact ⟨property, List.mem_cons_self, same, Option.some.inj own⟩
      · cases own

theorem exists_last? (member : key ∈ properties.map Property.key) :
    ∃ e, last? key properties = some e := by
  induction properties with
  | nil => cases member
  | cons property properties ih =>
    rw [last?]
    cases later : last? key properties with
    | some e => exact ⟨e, rfl⟩
    | none =>
      rcases List.mem_cons.mp member with own | behind
      · exact ⟨property.value, by rw [if_pos own.symm, Option.none_or]⟩
      · obtain ⟨e, found⟩ := ih behind
        rw [later] at found
        cases found

end Property

namespace Value

/-! Parts -/

/-- The number of an expression that is good for a part of a timestamp. -/
def timestampPart? (e : Expr) : Option UInt32 := (unsigned32Argument "t" e).toOption

/-- Whatever a part is called in messages, it is read as the same number. -/
theorem unsigned32Argument_eq_ok_iff_part {what : String} {e : Expr} {n : UInt32} :
    unsigned32Argument what e = .ok n ↔ timestampPart? e = some n := by
  have read : timestampPart? e = some n ↔ unsigned32Argument "t" e = .ok n := by
    rw [timestampPart?]
    cases unsigned32Argument "t" e <;> simp [Except.toOption]
  rw [read, unsigned32Argument_eq_ok_iff, unsigned32Argument_eq_ok_iff]

theorem timestampOf_pair {a b : Expr} {value : Value} :
    timestampOf [a, b] = .ok value ↔ ∃ time increment, timestampPart? a = some time ∧
      timestampPart? b = some increment ∧ value = .timestamp time increment := by
  rw [timestampOf]
  simp only [bind_eq_ok, unsigned32Argument_eq_ok_iff_part, Except.ok.injEq]
  constructor
  · rintro ⟨time, first, increment, second, rfl⟩
    exact ⟨time, increment, first, second, rfl⟩
  · rintro ⟨time, increment, first, second, rfl⟩
    exact ⟨time, first, increment, second, rfl⟩

/-- An expression is good for a part if it makes a timestamp together with a zero. -/
theorem exists_timestampPart_iff {e : Expr} {place : Span} :
    (∃ value, timestampOf [e, .number place "0"] = .ok value) ↔ ∃ n, timestampPart? e = some n := by
  have zero : timestampPart? (.number place "0") = some 0 := rfl
  simp only [timestampOf_pair, zero]
  constructor
  · rintro ⟨_, time, _, part, -, -⟩
    exact ⟨time, part⟩
  · rintro ⟨time, part⟩
    exact ⟨_, time, 0, part, rfl, rfl⟩

/-! Documents -/

/-- A property is one of a timestamp's, and its value is good for a part. -/
def IsTimestampField (property : Property) : Prop :=
  (property.key = "t" ∨ property.key = "i") ∧ ∃ n, timestampPart? property.value = some n

/-- A part as it stands behind some properties: the last one under its key, or else the one before.
-/
def partBehind (key : String) (before : Option UInt32) (properties : List Property) :
    Option UInt32 :=
  ((Property.last? key properties).bind timestampPart?).or before

/-- One property more in front: it has to be good, and its part is the one to go on with. -/
theorem timestampFields_cons {time increment : Option UInt32} {key : String} {span : Span}
    {e : Expr}
    {properties : List Property} {fields : Option UInt32 × Option UInt32} :
    timestampFields time increment (.mk key span e :: properties) = .ok fields ↔
      IsTimestampField (.mk key span e) ∧
        timestampFields (if key = "t" then timestampPart? e else time)
          (if key = "i" then timestampPart? e else increment) properties = .ok fields := by
  rw [timestampFields, IsTimestampField, Property.key, Property.value]
  by_cases isTime : key = "t"
  · rw [if_pos isTime, if_pos isTime, if_neg (by rw [isTime]; decide), bind_eq_ok]
    simp only [unsigned32Argument_eq_ok_iff_part]
    constructor
    · rintro ⟨n, part, others⟩
      exact ⟨⟨.inl isTime, n, part⟩, part ▸ others⟩
    · rintro ⟨⟨-, n, part⟩, others⟩
      exact ⟨n, part, part ▸ others⟩
  by_cases isIncrement : key = "i"
  · rw [if_neg isTime, if_neg isTime, if_pos isIncrement, if_pos isIncrement, bind_eq_ok]
    simp only [unsigned32Argument_eq_ok_iff_part]
    constructor
    · rintro ⟨n, part, others⟩
      exact ⟨⟨.inr isIncrement, n, part⟩, part ▸ others⟩
    · rintro ⟨⟨-, n, part⟩, others⟩
      exact ⟨n, part, part ▸ others⟩
  · rw [if_neg isTime, if_neg isIncrement]
    constructor
    · intro read
      cases read
    · exact fun held => absurd held.1.1 (not_or.mpr ⟨isTime, isIncrement⟩)

/-- A good property stands until a later one under its key overrules it. -/
theorem partBehind_cons {key name : String} {before : Option UInt32} {span : Span} {e : Expr}
    {properties : List Property}
    (good : ∀ property ∈ .mk name span e :: properties, IsTimestampField property) :
    partBehind key before (.mk name span e :: properties) =
      partBehind key (if name = key then timestampPart? e else before) properties := by
  obtain ⟨⟨-, n, own⟩, others⟩ := List.forall_mem_cons.mp good
  rw [Property.value] at own
  rw [partBehind, partBehind, Property.last?, Property.key, Property.value]
  cases later : Property.last? key properties with
  | none => split <;> simp [own]
  | some other =>
    obtain ⟨property, member, -, rfl⟩ := Property.exists_of_last? later
    obtain ⟨-, m, part⟩ := others property member
    simp [part]

/-- The fields of a document are read if all its properties are a timestamp's, and are then the last
of each. -/
theorem timestampFields_eq_ok_iff {time increment : Option UInt32} {properties : List Property}
    {fields : Option UInt32 × Option UInt32} :
    timestampFields time increment properties = .ok fields ↔
      (∀ property ∈ properties, IsTimestampField property) ∧
        fields = (partBehind "t" time properties, partBehind "i" increment properties) := by
  -- the parts so far are what a property overrules, so they change from step to step
  induction properties generalizing time increment with
  | nil => simp [timestampFields, partBehind, Property.last?, eq_comm]
  | cons property properties ih =>
    obtain ⟨key, span, e⟩ := property
    rw [timestampFields_cons, ih, ← and_assoc, ← List.forall_mem_cons]
    refine and_congr_right fun good => ?_
    rw [partBehind_cons good, partBehind_cons good]

/-- The call with a document is the call with the last time and the last increment of it, if all of
the document's properties are a timestamp's. -/
theorem timestampOf_document {span : Span} {properties : List Property} {value : Value} :
    timestampOf [.object span properties] = .ok value ↔
      (∀ property ∈ properties, IsTimestampField property) ∧
        ∃ a b, Property.last? "t" properties = some a ∧ Property.last? "i" properties = some b ∧
          timestampOf [a, b] = .ok value := by
  have part {key : String} {n : UInt32} : partBehind key none properties = some n ↔
      ∃ e, Property.last? key properties = some e ∧ timestampPart? e = some n := by
    rw [partBehind, Option.or_none, Option.bind_eq_some_iff]
  rw [timestampOf, bind_eq_ok]
  simp only [timestampFields_eq_ok_iff, timestampOf_pair]
  constructor
  · rintro ⟨fields, ⟨good, rfl⟩, made⟩
    split at made
    · rename_i time increment same
      obtain ⟨first, second⟩ := Prod.mk.inj same
      obtain ⟨a, lastTime, timePart⟩ := part.mp first
      obtain ⟨b, lastIncrement, incrementPart⟩ := part.mp second
      exact ⟨good, a, b, lastTime, lastIncrement, time, increment, timePart, incrementPart,
        (Except.ok.inj made).symm⟩
    · cases made
  · rintro ⟨good, a, b, lastTime, lastIncrement, time, increment, timePart, incrementPart, rfl⟩
    refine ⟨_, ⟨good, rfl⟩, ?_⟩
    rw [part.mpr ⟨a, lastTime, timePart⟩, part.mpr ⟨b, lastIncrement, incrementPart⟩]

/-- The call with a document has a value if all properties are a timestamp's and both parts are
there. -/
theorem exists_timestampOf_document {span : Span} {properties : List Property} :
    (∃ value, timestampOf [.object span properties] = .ok value) ↔
      (∀ property ∈ properties, IsTimestampField property) ∧
        "t" ∈ properties.map Property.key ∧ "i" ∈ properties.map Property.key := by
  have present {key : String} {e : Expr} (last : Property.last? key properties = some e) :
      key ∈ properties.map Property.key := by
    obtain ⟨property, member, same, -⟩ := Property.exists_of_last? last
    exact List.mem_map.mpr ⟨property, member, same⟩
  simp only [timestampOf_document]
  constructor
  · rintro ⟨_, good, a, b, lastTime, lastIncrement, -⟩
    exact ⟨good, present lastTime, present lastIncrement⟩
  · rintro ⟨good, hasTime, hasIncrement⟩
    have part {key : String} (has : key ∈ properties.map Property.key) :
        ∃ e n, Property.last? key properties = some e ∧ timestampPart? e = some n := by
      obtain ⟨e, last⟩ := Property.exists_last? has
      obtain ⟨property, member, -, rfl⟩ := Property.exists_of_last? last
      obtain ⟨-, n, own⟩ := good property member
      exact ⟨_, n, last, own⟩
    obtain ⟨a, time, lastTime, timePart⟩ := part hasTime
    obtain ⟨b, increment, lastIncrement, incrementPart⟩ := part hasIncrement
    exact ⟨_, good, a, b, lastTime, lastIncrement,
      timestampOf_pair.mpr ⟨time, increment, timePart, incrementPart, rfl⟩⟩

/-- A document of one time and one increment makes what they make by themselves. -/
theorem timestampOf_document_pair {span : Span} {properties : List Property} {a b : Expr}
    {value : Value} (lastTime : Property.last? "t" properties = some a)
    (lastIncrement : Property.last? "i" properties = some b)
    (only : ∀ property ∈ properties,
      property.key = "t" ∧ property.value = a ∨ property.key = "i" ∧ property.value = b) :
    timestampOf [.object span properties] = .ok value ↔ timestampOf [a, b] = .ok value := by
  rw [timestampOf_document]
  constructor
  · rintro ⟨-, a', b', lastTime', lastIncrement', made⟩
    cases lastTime.symm.trans lastTime'
    cases lastIncrement.symm.trans lastIncrement'
    exact made
  · intro made
    refine ⟨fun property member => ?_, a, b, lastTime, lastIncrement, made⟩
    obtain ⟨time, increment, timePart, incrementPart, -⟩ := timestampOf_pair.mp made
    rcases only property member with ⟨key, rfl⟩ | ⟨key, rfl⟩
    · exact ⟨.inl key, time, timePart⟩
    · exact ⟨.inr key, increment, incrementPart⟩

end Value

/-- The two forms of a timestamp agree. With a document the call has a value exactly if the document
has a time and an increment and nothing else, and each of its values makes a timestamp together with
a zero; it is then the value of the call with the last time and the last increment. So a time and an
increment make the same in a document, in either order, as by themselves, or fail in all three. -/
theorem Expr.timestamp_forms_agree (fresh : Fresh) :
    (∀ span properties (o : Expr), o.Calls "Timestamp" [.object span properties] →
      ((∃ value, Value.ofExpr fresh o = .ok value) ↔
        (∀ property ∈ properties, property.key = "t" ∨ property.key = "i") ∧
        "t" ∈ properties.map Property.key ∧ "i" ∈ properties.map Property.key ∧
        ∀ property ∈ properties, ∀ place (call : Expr),
          call.Calls "Timestamp" [property.value, .number place "0"] →
          ∃ value, Value.ofExpr fresh call = .ok value) ∧
      ∀ value, Value.ofExpr fresh o = .ok value →
        ∃ a b, Property.last? "t" properties = some a ∧ Property.last? "i" properties = some b ∧
          ∀ call : Expr, call.Calls "Timestamp" [a, b] → Value.ofExpr fresh call = .ok value) ∧
    ∀ a b span spanT spanI (o : Expr) (pair : Expr), pair.Calls "Timestamp" [a, b] →
      o.Calls "Timestamp" [.object span [.mk "t" spanT a, .mk "i" spanI b]] ∨
        o.Calls "Timestamp" [.object span [.mk "i" spanI b, .mk "t" spanT a]] →
      ∀ value, Value.ofExpr fresh o = .ok value ↔ Value.ofExpr fresh pair = .ok value := by
  have made {arguments : List Expr} {e : Expr} (calls : e.Calls "Timestamp" arguments)
      (value : Value) :
    Value.ofExpr fresh e = .ok value ↔ Value.timestampOf arguments = .ok value :=
    calls.ofExpr_eq_ok_iff .timestamp rfl fun _ => rfl
  refine ⟨fun span properties o calls => ⟨?_, fun value done => ?_⟩, ?_⟩
  · simp only [made calls, Value.exists_timestampOf_document]
    constructor
    · rintro ⟨good, both⟩
      refine ⟨fun property member => (good property member).1, both.1, both.2, ?_⟩
      intro property member place call callsPart
      simp only [made callsPart]
      exact Value.exists_timestampPart_iff.mpr (good property member).2
    · rintro ⟨keys, hasTime, hasIncrement, parts⟩
      refine ⟨fun property member => ⟨keys property member, ?_⟩, hasTime, hasIncrement⟩
      have callsPart : Expr.Calls "Timestamp" [property.value, .number nowhere "0"] _ :=
        .plain nowhere nowhere
      have part := parts property member nowhere _ callsPart
      simp only [made callsPart] at part
      exact Value.exists_timestampPart_iff.mp part
  · obtain ⟨-, a, b, lastTime, lastIncrement, pair⟩ :=
      Value.timestampOf_document.mp ((made calls value).mp done)
    exact ⟨a, b, lastTime, lastIncrement, fun call callsPair => (made callsPair value).mpr pair⟩
  · intro a b span spanT spanI o pair callsPair calls value
    rw [made callsPair]
    rcases calls with calls | calls
    · rw [made calls]
      exact Value.timestampOf_document_pair rfl rfl (by simp [Property.key, Property.value])
    · rw [made calls]
      exact Value.timestampOf_document_pair rfl rfl (by simp [Property.key, Property.value])

/-- A time that a later one overrules, and an increment in a string. -/
def repeatedTime : List Property :=
  [.mk "t" Expr.nowhere (.number Expr.nowhere "7"),
    .mk "i" Expr.nowhere (.string Expr.nowhere " 2 "),
    .mk "t" Expr.nowhere (.number Expr.nowhere "4294967295")]

theorem Expr.repeated_time_agrees :
    Value.ofExpr (Fresh.ofSeed 0 0) (.call nowhere (.identifier nowhere "Timestamp")
      [.object nowhere repeatedTime]) = .ok (.timestamp 4294967295 2) := by
  obtain ⟨forms, -⟩ := timestamp_forms_agree (Fresh.ofSeed 0 0)
  obtain ⟨succeeds, lastCount⟩ := forms nowhere repeatedTime _ (.plain nowhere nowhere)
  have parts : ∀ property ∈ repeatedTime, ∀ place (call : Expr),
      call.Calls "Timestamp" [property.value, .number place "0"] →
        ∃ value, Value.ofExpr (Fresh.ofSeed 0 0) call = .ok value := by
    intro property member place call calls
    simp only [repeatedTime, List.mem_cons, List.not_mem_nil, or_false] at member
    rcases member with rfl | rfl | rfl <;> cases calls <;> exact ⟨_, rfl⟩
  obtain ⟨value, done⟩ := succeeds.mpr
    ⟨by simp [repeatedTime, Property.key], by decide, by decide, parts⟩
  obtain ⟨a, b, lastTime, lastIncrement, pair⟩ := lastCount value done
  cases lastTime
  cases lastIncrement
  rw [done, ← pair _ (.plain nowhere nowhere)]
  rfl

end MongoShell

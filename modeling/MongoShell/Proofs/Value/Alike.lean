import MongoShell.Proofs.Outcome
import MongoShell.Value.OfExpr

/-! Values that two readings of one expression come to. They are the same, but for values made up on
the way: those come from the source of each reading, which gives them by place. An expression means
the same wherever it stands, made-up values apart. -/

namespace MongoShell

open Outcome (Matches)

namespace Value

mutual

/-- A value of one reading and a value of another: the same, or made up by the same constructor out
of the two sources `f` and `g`. -/
inductive Alike (f g : Fresh) : Value → Value → Prop
  | same (value : Value) : Alike f g value value
  | objectId (i j : Nat) : Alike f g (.objectId (f.objectId i)) (.objectId (g.objectId j))
  | uuid (i j : Nat) : Alike f g (.binary Constructor.uuidSubtype (f.uuid i))
      (.binary Constructor.uuidSubtype (g.uuid j))
  | now : Alike f g (.date (Int64.ofInt f.now)) (.date (Int64.ofInt g.now))
  | document {entries others : List (String × Value)} (alike : AlikeEntries f g entries others) :
      Alike f g (.document entries) (.document others)
  | array {items others : List Value} (alike : AlikeItems f g items others) :
      Alike f g (.array items) (.array others)

inductive AlikeItems (f g : Fresh) : List Value → List Value → Prop
  | nil : AlikeItems f g [] []
  | cons {value other : Value} {items others : List Value} (first : Alike f g value other)
      (rest : AlikeItems f g items others) : AlikeItems f g (value :: items) (other :: others)

inductive AlikeEntries (f g : Fresh) : List (String × Value) → List (String × Value) → Prop
  | nil : AlikeEntries f g [] []
  | cons {key : String} {value other : Value} {entries others : List (String × Value)}
      (first : Alike f g value other) (rest : AlikeEntries f g entries others) :
      AlikeEntries f g ((key, value) :: entries) ((key, other) :: others)

end

variable {f g : Fresh}

theorem AlikeEntries.refl (entries : List (String × Value)) : AlikeEntries f g entries entries := by
  induction entries with
  | nil => exact .nil
  | cons entry entries ih => exact .cons (.same entry.2) ih

/-! Constructors do not look at places -/

@[simp] theorem numberText_eraseSpans (e : Expr) : numberText e.eraseSpans = numberText e := by
  cases e <;> rfl

@[simp] theorem string?_eraseSpans (e : Expr) : e.eraseSpans.string? = e.string? := by
  cases e <;> rfl

@[simp] theorem stringArgument_eraseSpans (what : String) (e : Expr) :
    stringArgument what e.eraseSpans = stringArgument what e := by
  rw [stringArgument, string?_eraseSpans, stringArgument]

@[simp] theorem integerArgument_eraseSpans (e : Expr) :
    integerArgument e.eraseSpans = integerArgument e := by
  rw [integerArgument, numberText_eraseSpans, integerArgument]

@[simp] theorem doubleArgument_eraseSpans (e : Expr) :
    doubleArgument e.eraseSpans = doubleArgument e := by
  rw [doubleArgument, numberText_eraseSpans, doubleArgument]

@[simp] theorem unsigned32Argument_eraseSpans (what : String) (e : Expr) :
    unsigned32Argument what e.eraseSpans = unsigned32Argument what e := by
  rw [unsigned32Argument, integerArgument_eraseSpans, unsigned32Argument]

@[simp] theorem subtypeArgument_eraseSpans (e : Expr) :
    subtypeArgument e.eraseSpans = subtypeArgument e := by
  rw [subtypeArgument, integerArgument_eraseSpans, subtypeArgument]

@[simp] theorem patternArgument_eraseSpans (e : Expr) :
    patternArgument e.eraseSpans = patternArgument e := by
  cases e <;> rfl

@[simp] theorem length_eraseAll (arguments : List Expr) :
    (Expr.eraseAll arguments).length = arguments.length := by
  induction arguments with
  | nil => rfl
  | cons e arguments ih => rw [Expr.eraseAll, List.length_cons, List.length_cons, ih]

@[simp] theorem eraseProperties_nil : Expr.eraseProperties [] = [] := rfl

@[simp] theorem eraseProperties_cons (property : Property) (properties : List Property) :
    Expr.eraseProperties (property :: properties) =
      .mk property.key Expr.nowhere property.value.eraseSpans ::
        Expr.eraseProperties properties := by
  cases property
  rfl

@[simp] theorem timestampFields_eraseProperties (time increment : Option UInt32)
    (properties : List Property) :
    timestampFields time increment (Expr.eraseProperties properties) =
      timestampFields time increment properties := by
  induction properties generalizing time increment with
  | nil => rfl
  | cons property properties ih =>
    obtain ⟨key, span, value⟩ := property
    simp only [Expr.eraseProperties, timestampFields, unsigned32Argument_eraseSpans, ih]

theorem dateOf_eraseSpans (now : Int) (e : Expr) : dateOf now [e.eraseSpans] = dateOf now [e] := by
  cases e with
  | number span lexeme =>
    exact congrArg (· >>= _) (integerArgument_eraseSpans (.number span lexeme))
  | _ => rfl

theorem decimalOf_eraseSpans (e : Expr) : decimalOf [e.eraseSpans] = decimalOf [e] := by
  cases e <;> rfl

theorem timestampOf_eraseSpans (e : Expr) : timestampOf [e.eraseSpans] = timestampOf [e] := by
  cases e with
  | object span properties =>
    simp only [Expr.eraseSpans, timestampOf, timestampFields_eraseProperties]
  | _ => rfl

end Value

open Value in
theorem Constructor.apply_eraseAll (fresh : Fresh) (offset : Nat) (arguments : List Expr)
    (constructor : Constructor) :
    constructor.apply fresh offset (Expr.eraseAll arguments) =
      constructor.apply fresh offset arguments := by
  match arguments with
  | [] => rfl
  | [e] =>
    cases constructor
    case date => exact dateOf_eraseSpans fresh.now e
    case decimal => exact decimalOf_eraseSpans e
    case timestamp => exact timestampOf_eraseSpans e
    all_goals
      simp [Expr.eraseAll, apply, objectIdOf, uuidOf, int32Of, int64Of, doubleOf, regExpOf,
        binDataOf, hexDataOf, withoutArguments]
  | [e, d] =>
    cases constructor <;>
      simp [Expr.eraseAll, apply, objectIdOf, dateOf, uuidOf, int32Of, int64Of, doubleOf, decimalOf,
        timestampOf, regExpOf, binDataOf, hexDataOf, withoutArguments]
  | e :: d :: b :: rest =>
    cases constructor <;>
      simp [Expr.eraseAll, apply, objectIdOf, dateOf, uuidOf, int32Of, int64Of, doubleOf, decimalOf,
        timestampOf, regExpOf, binDataOf, hexDataOf, withoutArguments]

/-! Two readings of one expression -/

variable {f g : Fresh}

theorem Constructor.apply_alike (i j : Nat) (arguments : List Expr) (constructor : Constructor) :
    Matches (Value.Alike f g) (constructor.apply f i arguments)
      (constructor.apply g j arguments) := by
  have same (outcome : Except ConversionFault Value) :
      Matches (Value.Alike f g) outcome outcome := .refl .same outcome
  cases constructor
  case objectId =>
    match arguments with
    | [] => exact .ok (.objectId i j)
    | [_] => exact same _
    | _ :: _ :: _ => exact same _
  case date =>
    match arguments with
    | [] => exact .ok .now
    | [e] => cases e <;> exact same _
    | e :: _ :: _ => cases e <;> exact same _
  case uuid =>
    match arguments with
    | [] => exact .ok (.uuid i j)
    | [_] => exact same _
    | _ :: _ :: _ => exact same _
  all_goals exact same _

namespace Value

theorem construct_alike (i j : Nat) (name : String) {arguments others : List Expr}
    (same : Expr.eraseAll arguments = Expr.eraseAll others) :
    Matches (Alike f g) (construct f i name arguments) (construct g j name others) := by
  unfold construct
  cases Constructor.ofName? name with
  | none => exact .error _
  | some constructor =>
    have applied : Matches (Alike f g) (constructor.apply f i arguments)
        (constructor.apply g j others) := by
      rw [← constructor.apply_eraseAll g j others, ← same, constructor.apply_eraseAll]
      exact constructor.apply_alike i j arguments
    simp only
    generalize constructor.apply f i arguments = first at applied
    generalize constructor.apply g j others = second at applied
    cases applied with
    | ok alike => exact .ok alike
    | error fault => exact .error _

theorem ofCall_alike (span place : Span) {callee other : Expr} {arguments others : List Expr}
    (target : callee.eraseSpans = other.eraseSpans)
    (same : Expr.eraseAll arguments = Expr.eraseAll others) :
    Matches (Alike f g) (ofCall f span callee arguments) (ofCall g place other others) := by
  cases callee <;> cases other <;> simp [Expr.eraseSpans] at target
  case identifier.identifier =>
    subst target
    exact construct_alike _ _ _ same
  all_goals exact .error _

theorem ofConstruction_alike (span place : Span) {target other : Expr}
    (same : target.eraseSpans = other.eraseSpans) :
    Matches (Alike f g) (ofConstruction f span target) (ofConstruction g place other) := by
  cases target <;> cases other <;> simp [Expr.eraseSpans] at same
  case call.call => exact ofCall_alike _ _ same.1 same.2
  case identifier.identifier =>
    subst same
    exact construct_alike _ _ _ rfl
  all_goals exact .error _

mutual

/-- An expression comes to the same value wherever it stands, made-up values apart. -/
theorem ofExpr_alike {e d : Expr} (same : e.eraseSpans = d.eraseSpans) :
    Matches (Alike f g) (ofExpr f e) (ofExpr g d) := by
  have leaf (outcome : Except ConversionError Value) :
      Matches (Alike f g) outcome outcome := .refl .same outcome
  cases e <;> cases d <;> simp [Expr.eraseSpans] at same
  case object.object properties _ others =>
    exact (entriesOf_alike same).map fun _ _ => .document
  case array.array elements _ others => exact (itemsOf_alike same).map fun _ _ => .array
  case call.call => exact ofCall_alike _ _ same.1 same.2
  case construct.construct => exact ofConstruction_alike _ _ same
  case regex.regex =>
    obtain ⟨rfl, rfl⟩ := same
    exact leaf _
  case null.null => exact leaf _
  case member.member => exact leaf _
  case index.index => exact leaf _
  all_goals
    subst same
    exact leaf _

theorem itemsOf_alike {elements others : List Expr}
    (same : Expr.eraseAll elements = Expr.eraseAll others) :
    Matches (AlikeItems f g) (itemsOf f elements) (itemsOf g others) := by
  cases elements <;> cases others <;> simp [Expr.eraseAll] at same
  case nil.nil => exact .ok .nil
  case cons.cons e elements d others =>
    refine (ofExpr_alike same.1).bind fun value other first => ?_
    refine (itemsOf_alike same.2).bind fun items more rest => ?_
    exact .ok (.cons first rest)

theorem entriesOf_alike {properties others : List Property}
    (same : Expr.eraseProperties properties = Expr.eraseProperties others) :
    Matches (AlikeEntries f g) (entriesOf f properties) (entriesOf g others) := by
  cases properties <;> cases others <;> simp at same
  case nil.nil => exact .ok .nil
  case cons.cons property properties other others =>
    obtain ⟨key, span, e⟩ := property
    obtain ⟨name, place, d⟩ := other
    obtain ⟨⟨rfl, alike⟩, behind⟩ := same
    refine (ofExpr_alike alike).bind fun value other first => ?_
    refine (entriesOf_alike behind).bind fun entries more rest => ?_
    exact .ok (.cons first rest)

end

end Value

end MongoShell

import MongoShell.Proofs.Expr.Nesting
import MongoShell.Proofs.Expr.Numbered
import MongoShell.Proofs.Outcome
import MongoShell.Value.OfExpr

/-! The value of infinity by its name and as a number. The one is a constant and the other a
literal, both of the same value; but constructors look at their argument expressions, and those that
take any number take it as a literal only. All others refuse infinity either way. -/

namespace MongoShell

open Outcome (toOption_bind toOption_map)

/-! Calls that take the number and refuse the name -/

/-- A node is another one or stands somewhere below it. -/
inductive Node.Within (inner : Node) : Node → Prop
  | self : Within inner inner
  | child {next outer : Node} (member : next ∈ outer.children) (deeper : Within inner next) :
      Within inner outer

/-- The call of a constructor of doubles or decimals whose only argument is the name of infinity at
a place. -/
inductive Expr.RefusesName (place : Span) : Expr → Prop
  | call {span inner : Span} {name : String} {constructor : Constructor}
      (called : Constructor.ofName? name = some constructor)
      (real : constructor = .double ∨ constructor = .decimal) :
      RefusesName place (.call span (.identifier inner name) [.identifier place "Infinity"])

/-- There is no such call in the tree below a node. -/
def Node.Spares (place : Span) (node : Node) : Prop :=
  ∀ call, (Node.expr call).Within node → ¬call.RefusesName place

theorem Node.Spares.child {place : Span} {node child : Node} (spares : node.Spares place)
    (member : child ∈ node.children) : child.Spares place :=
  fun call within => spares call (.child member within)

namespace Value

variable {place : Span}

/-! Arguments -/

theorem integerArgument_numbered (e : Expr) :
    (integerArgument (e.numbered place)).toOption = (integerArgument e).toOption := by
  cases e with
  | identifier span name =>
    rw [Expr.numbered]
    split
    · rename_i named
      rw [named.2]
      rfl
    · rfl
  | construct span target => cases target <;> rfl
  | _ => rfl

theorem stringArgument_numbered (what : String) (e : Expr) :
    stringArgument what (e.numbered place) = stringArgument what e := by
  rw [stringArgument, Expr.numbered_string?, stringArgument]

theorem patternArgument_numbered (e : Expr) :
    patternArgument (e.numbered place) = patternArgument e := by
  cases e with
  | identifier span name =>
    rw [Expr.numbered]
    split <;> rfl
  | construct span target => cases target <;> rfl
  | _ => rfl

theorem unsigned32Argument_numbered (what : String) (e : Expr) :
    (unsigned32Argument what (e.numbered place)).toOption =
      (unsigned32Argument what e).toOption := by
  rw [unsigned32Argument, toOption_bind, integerArgument_numbered, unsigned32Argument,
    toOption_bind]

theorem subtypeArgument_numbered (e : Expr) :
    (subtypeArgument (e.numbered place)).toOption = (subtypeArgument e).toOption := by
  rw [subtypeArgument, toOption_bind, integerArgument_numbered, subtypeArgument, toOption_bind]

theorem timestampFields_numbered (time increment : Option UInt32) (properties : List Property) :
    (timestampFields time increment (properties.map (Property.numbered place))).toOption =
      (timestampFields time increment properties).toOption := by
  induction properties generalizing time increment with
  | nil => rfl
  | cons property properties ih =>
    obtain ⟨key, span, value⟩ := property
    simp only [List.map_cons, Property.numbered, Property.key, Property.span, Property.value,
      timestampFields]
    split
    · simp only [toOption_bind, unsigned32Argument_numbered, ih]
    split
    · simp only [toOption_bind, unsigned32Argument_numbered, ih]
    · rfl

theorem dateOf_numbered (now : Int) (e : Expr) :
    (dateOf now [e.numbered place]).toOption = (dateOf now [e]).toOption := by
  cases e with
  | identifier span name =>
    rw [Expr.numbered]
    split
    · rename_i named
      rw [named.2]
      rfl
    · rfl
  | construct span target => cases target <;> rfl
  | _ => rfl

theorem timestampOf_numbered (e : Expr) :
    (timestampOf [e.numbered place]).toOption = (timestampOf [e]).toOption := by
  cases e with
  | identifier span name =>
    rw [Expr.numbered]
    split <;> rfl
  | construct span target => cases target <;> rfl
  | object span properties =>
    rw [Expr.numbered_object]
    simp only [timestampOf, toOption_bind, timestampFields_numbered]
  | _ => rfl

theorem doubleOf_numbered {e : Expr} (other : e ≠ .identifier place "Infinity") :
    (doubleOf [e.numbered place]).toOption = (doubleOf [e]).toOption := by
  cases e with
  | identifier span name =>
    rw [Expr.numbered, if_neg]
    rintro ⟨rfl, rfl⟩
    exact other rfl
  | construct span target => cases target <;> rfl
  | _ => rfl

theorem decimalOf_numbered {e : Expr} (other : e ≠ .identifier place "Infinity") :
    (decimalOf [e.numbered place]).toOption = (decimalOf [e]).toOption := by
  cases e with
  | identifier span name =>
    rw [Expr.numbered, if_neg]
    rintro ⟨rfl, rfl⟩
    exact other rfl
  | construct span target => cases target <;> rfl
  | _ => rfl

end Value

open Value in
/-- Every constructor takes the name of infinity as it takes the number, but for those of doubles
and decimals. -/
theorem Constructor.apply_numbered {place : Span} (fresh : Fresh) (offset : Nat)
    {arguments : List Expr} {constructor : Constructor}
    (spares : constructor = .double ∨ constructor = .decimal →
      arguments ≠ [.identifier place "Infinity"]) :
    (constructor.apply fresh offset (arguments.map (Expr.numbered place))).toOption =
      (constructor.apply fresh offset arguments).toOption := by
  match arguments with
  | [] => rfl
  | [e] =>
    cases constructor
    case date => exact dateOf_numbered fresh.now e
    case double => exact doubleOf_numbered (by simpa using spares)
    case decimal => exact decimalOf_numbered (by simpa using spares)
    case timestamp => exact timestampOf_numbered e
    all_goals
      simp [apply, objectIdOf, uuidOf, int32Of, int64Of, regExpOf, binDataOf, hexDataOf,
        withoutArguments, toOption_bind, integerArgument_numbered, stringArgument_numbered,
        patternArgument_numbered]
  | [e, d] =>
    cases constructor <;>
      simp [apply, objectIdOf, dateOf, uuidOf, int32Of, int64Of, doubleOf, decimalOf,
        timestampOf, regExpOf, binDataOf, hexDataOf, withoutArguments, toOption_bind,
        unsigned32Argument_numbered, subtypeArgument_numbered, stringArgument_numbered,
        patternArgument_numbered]
  | e :: d :: b :: rest =>
    cases constructor <;>
      simp [apply, objectIdOf, dateOf, uuidOf, int32Of, int64Of, doubleOf, decimalOf,
        timestampOf, regExpOf, binDataOf, hexDataOf, withoutArguments, toOption_bind,
        patternArgument_numbered]

namespace Value

variable {place : Span} {fresh : Fresh}

theorem construct_toOption (offset : Nat) (name : String) (arguments : List Expr) :
    (construct fresh offset name arguments).toOption =
      (Constructor.ofName? name).bind fun constructor =>
        (constructor.apply fresh offset arguments).toOption := by
  unfold construct
  cases Constructor.ofName? name with
  | none => rfl
  | some constructor =>
    simp only [Option.bind_some]
    cases constructor.apply fresh offset arguments <;> rfl

theorem ofName_numbered {span place' : Span} {name : String} {arguments : List Expr}
    (spares : ¬(Expr.call span (.identifier place' name) arguments).RefusesName place)
    (offset : Nat) :
    (construct fresh offset name (arguments.map (Expr.numbered place))).toOption =
      (construct fresh offset name arguments).toOption := by
  rw [construct_toOption, construct_toOption]
  cases called : Constructor.ofName? name with
  | none => rfl
  | some constructor =>
    refine constructor.apply_numbered fresh offset fun real same => ?_
    subst same
    exact spares (.call called real)

/-- The name of infinity calls no constructor, and neither does the number. -/
theorem ofCall_numbered {span : Span} {callee : Expr} {arguments : List Expr}
    (spares : ¬(Expr.call span callee arguments).RefusesName place) :
    (ofCall fresh span (callee.numbered place) (arguments.map (Expr.numbered place))).toOption =
      (ofCall fresh span callee arguments).toOption := by
  cases callee with
  | identifier inner name =>
    rw [Expr.numbered]
    split
    · rename_i named
      rw [named.2]
      rfl
    · exact ofName_numbered spares span.start
  | construct inner target => cases target <;> rfl
  | _ => rfl

theorem ofConstruction_numbered {span inner : Span} {callee : Expr} {arguments : List Expr}
    (spares : ¬(Expr.call inner callee arguments).RefusesName place) :
    (ofConstruction fresh span
        (.call inner callee (arguments.map (Expr.numbered place)))).toOption =
      (ofConstruction fresh span (.call inner callee arguments)).toOption := by
  cases callee with
  | identifier _ name => exact ofName_numbered spares span.start
  | _ => rfl

mutual

/-- An expression comes to the same value with the name of infinity and with the number, or to none
with either. -/
theorem ofExpr_numbered {e : Expr} (spares : (Node.expr e).Spares place) :
    (ofExpr fresh (e.numbered place)).toOption = (ofExpr fresh e).toOption := by
  cases e with
  | identifier span name =>
    rw [Expr.numbered]
    split
    · rename_i named
      rw [named.2]
      rfl
    · rfl
  | object span properties =>
    have inner := entriesOf_numbered fun property member =>
      spares.child (List.mem_map_of_mem member)
    rw [Expr.numbered_object, ofExpr, toOption_map, inner, ofExpr, toOption_map]
  | array span elements =>
    have inner := itemsOf_numbered fun e member => spares.child (List.mem_map_of_mem member)
    rw [Expr.numbered_array, ofExpr, toOption_map, inner, ofExpr, toOption_map]
  | call span callee arguments =>
    rw [Expr.numbered_call, ofExpr, ofExpr]
    exact ofCall_numbered (spares _ .self)
  | construct span target =>
    cases target with
    | call inner callee arguments =>
      rw [Expr.numbered_construct_call, ofExpr, ofExpr]
      exact ofConstruction_numbered (spares.child (.head _) _ .self)
    | _ => rfl
  | _ => rfl

theorem itemsOf_numbered {elements : List Expr}
    (spares : ∀ e ∈ elements, (Node.expr e).Spares place) :
    (itemsOf fresh (elements.map (Expr.numbered place))).toOption =
      (itemsOf fresh elements).toOption := by
  cases elements with
  | nil => rfl
  | cons e elements =>
    obtain ⟨first, others⟩ := List.forall_mem_cons.mp spares
    simp only [List.map_cons, itemsOf, toOption_bind, ofExpr_numbered first,
      itemsOf_numbered others]

theorem entriesOf_numbered {properties : List Property}
    (spares : ∀ property ∈ properties, (Node.property property).Spares place) :
    (entriesOf fresh (properties.map (Property.numbered place))).toOption =
      (entriesOf fresh properties).toOption := by
  cases properties with
  | nil => rfl
  | cons property properties =>
    obtain ⟨first, others⟩ := List.forall_mem_cons.mp spares
    obtain ⟨key, span, e⟩ := property
    have inner : (Node.expr e).Spares place := first.child (.head _)
    simp only [List.map_cons, Property.numbered, Property.key, Property.span, Property.value,
      entriesOf, toOption_bind, ofExpr_numbered inner, entriesOf_numbered others]

end

end Value

end MongoShell

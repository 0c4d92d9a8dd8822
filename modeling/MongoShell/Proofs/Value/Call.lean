import MongoShell.Proofs.Outcome
import MongoShell.Value.OfExpr

/-! Calls of constructors by name. With `new` in front of it or without, and wherever it stands, a
call has the value that its constructor makes of the arguments. -/

namespace MongoShell

/-- A call by name, with `new` in front of it or without. -/
inductive Expr.Calls (name : String) (arguments : List Expr) : Expr → Prop
  | plain (span place : Span) : Calls name arguments (.call span (.identifier place name) arguments)
  | new (word span place : Span) :
      Calls name arguments (.construct word (.call span (.identifier place name) arguments))

theorem Value.construct_eq {fresh : Fresh} {offset : Nat} {name : String} {arguments : List Expr}
    {constructor : Constructor} (named : Constructor.ofName? name = some constructor) :
    construct fresh offset name arguments =
      (constructor.apply fresh offset arguments).mapError (⟨some name, ·⟩) := by
  simp only [construct, named]
  cases constructor.apply fresh offset arguments <;> rfl

namespace Expr.Calls

variable {name : String} {arguments : List Expr} {e : Expr} (calls : e.Calls name arguments)
  {fresh : Fresh} (constructor : Constructor) {outcome : Except ConversionFault Value}

include calls

/-- Where a constructor does the same at every place, that is the value of a call. -/
theorem ofExpr_eq (named : Constructor.ofName? name = some constructor)
    (applied : ∀ offset, constructor.apply fresh offset arguments = outcome) :
    Value.ofExpr fresh e = outcome.mapError (⟨some name, ·⟩) := by
  cases calls with
  | plain span place => rw [Value.ofExpr, Value.ofCall, Value.construct_eq named, applied]
  | new word span place =>
    rw [Value.ofExpr, Value.ofConstruction, Value.ofCall, Value.construct_eq named, applied]

theorem ofExpr_eq_ok_iff (named : Constructor.ofName? name = some constructor)
    (applied : ∀ offset, constructor.apply fresh offset arguments = outcome) {value : Value} :
    Value.ofExpr fresh e = .ok value ↔ outcome = .ok value := by
  rw [calls.ofExpr_eq constructor named applied, Outcome.mapError_eq_ok]

end Expr.Calls

end MongoShell

import MongoShell.Method
import MongoShell.Proofs.Outcome

/-! What a call makes of its arguments. A parameter looks at the argument in its place and at
nothing else, and one that may be left open takes a null as left open. An options document is looked
at under the keys of the options only, so that two documents under whose keys the same values count
set the same fields. -/

namespace MongoShell

open Outcome

/-! Options documents -/

namespace Document

variable {options others : Document}

/-- Documents under whose keys the same last values stand. An absent key is as good as one with a
null. -/
def Agrees (options others : Document) : Prop :=
  ∀ key, (options.get? key).getD .null = (others.get? key).getD .null

theorem option?_eq (options : Document) (key : String) :
    options.option? key = (some ((options.get? key).getD .null)).filter (! ·.isNull) := by
  unfold option?
  cases options.get? key with
  | none => rfl
  | some value => cases absent : value.isNull <;> simp [Option.filter, absent]

theorem Agrees.option?_eq (same : options.Agrees others) (key : String) :
    options.option? key = others.option? key := by
  rw [Document.option?_eq, same key, ← Document.option?_eq]

theorem Agrees.readOption_eq {α : Type} (same : options.Agrees others) (key : String)
    (read : String → Value → Except ArgumentFault α) :
    options.readOption key read = others.readOption key read := by
  rw [readOption, same.option?_eq key, readOption]

end Document

namespace MethodOption

variable {options others : Document}

theorem set_congr (same : options.Agrees others) (op : Operation) (option : MethodOption) :
    option.set options op = option.set others op := by
  cases option
  case returnDocument =>
    simp only [set, ReturnDocument.ofOptions, same.readOption_eq]
  all_goals simp only [set, same.readOption_eq]

/-- Documents that agree and have no keys but those of the options set the same fields. -/
theorem setAll_congr {allowed : List MethodOption} (same : options.Agrees others)
    (known : ∀ key ∈ options.keys, key ∈ allowed.flatMap keys)
    (known' : ∀ key ∈ others.keys, key ∈ allowed.flatMap keys) (op : Operation) :
    setAll allowed options op = setAll allowed others op := by
  have passes {document : Document} (known : ∀ key ∈ document.keys, key ∈ allowed.flatMap keys) :
      setAll allowed document op = (allowed.foldlM (set document) op).mapError .argument := by
    have none : document.keys.find? (! (allowed.flatMap keys).contains ·) = none :=
      List.find?_eq_none.mpr fun key member => by simpa using known key member
    rw [setAll, none]
  have steps : set options = set others := by
    funext op option
    exact set_congr same op option
  rw [passes known, passes known', steps]

end MethodOption

/-! Arguments left open -/

/-- The expressions that write null. -/
inductive Expr.WritesNull : Expr → Prop
  | null (span : Span) : WritesNull (.null span)
  | undefined (span : Span) : WritesNull (.identifier span "undefined")

section

variable {fresh : Fresh} {nothing : Expr} (null : nothing.WritesNull)

include null

theorem Argument.value?_null : value? fresh (some nothing) = value? fresh none := by
  cases null with
  | null span => rfl
  | undefined span => rfl

theorem Argument.read_null {α : Type} (f : Option Value → Except ArgumentFault α) :
    read fresh (some nothing) f = read fresh none f := by
  rw [read, value?_null null, read]

theorem Argument.literal?_null (what : String) :
    literal? what (some nothing) = .error (.argument (.notLiteral what)) := by
  cases null with
  | null span => rfl
  | undefined span => rfl

/-- Where a parameter may be left open it takes a null as well, unless it wants a literal. -/
theorem Parameter.set_null {parameter : Parameter} (noLiteral : parameter ≠ .indexName)
    {before after : Operation} (done : parameter.set fresh none before = .ok after) :
    parameter.set fresh (some nothing) before = .ok after := by
  cases parameter
  case indexName => exact absurd rfl noLiteral
  case distinctField | newName | collectionName => cases done
  all_goals simpa only [set, Argument.read_null null] using done

theorem Parameter.setAll_null {parameters : List Parameter} (noLiteral : .indexName ∉ parameters)
    {arguments : List Expr} {before after : Operation}
    (done : setAll fresh parameters arguments before = .ok after) :
    setAll fresh parameters (arguments ++ [nothing]) before = .ok after := by
  induction parameters generalizing arguments before with
  | nil => exact done
  | cons parameter rest ih =>
    obtain ⟨first, others⟩ := not_or.mp (List.mem_cons.not.mp noLiteral)
    obtain ⟨middle, one, done⟩ := (bind_eq_ok _ _ _).mp done
    cases arguments with
    | nil => exact (bind_eq_ok _ _ _).mpr ⟨middle, set_null null (Ne.symm first) one, done⟩
    | cons argument arguments => exact (bind_eq_ok _ _ _).mpr ⟨middle, one, ih others done⟩

namespace Method

theorem setOptions_null (method : Method) (arguments : List Expr) (op : Operation) :
    method.setOptions fresh (arguments ++ [nothing]) op = method.setOptions fresh arguments op := by
  unfold setOptions
  cases method.options with
  | none => rfl
  | some allowed =>
    have same (f : Option Value → Except ArgumentFault (Option Document)) :
        Argument.read fresh ((arguments ++ [nothing])[method.parameters.length]?) f =
          Argument.read fresh (arguments[method.parameters.length]?) f := by
      rcases Nat.lt_trichotomy method.parameters.length arguments.length with before | last | behind
      · rw [List.getElem?_append_left before]
      · rw [last, List.getElem?_concat_length, Argument.read_null null,
          List.getElem?_eq_none (Nat.le_refl _)]
      · rw [List.getElem?_eq_none (by simp; omega), List.getElem?_eq_none (by omega)]
    simp only [same]

/-- A call that has an operation has the same one with a null behind its arguments, if there is a
place for it. -/
theorem call_null {method : Method} (noLiteral : .indexName ∉ method.parameters)
    {arguments : List Expr} (shorter : arguments.length < method.capacity)
    {before after : Operation} (done : method.call fresh arguments before = .ok after) :
    method.call fresh (arguments ++ [nothing]) before = .ok after := by
  simp only [call, bind_eq_ok] at done ⊢
  obtain ⟨_, counted, positioned, set, done⟩ := done
  have room : method.checkCount (arguments ++ [nothing]).length = .ok () := by
    unfold checkCount at counted ⊢
    split at counted
    · split at counted
      · omega
      · cases counted
    · rename_i notAll
      rw [if_neg notAll, List.length_append]
      exact if_pos shorter
  refine ⟨(), room, positioned, Parameter.setAll_null null noLiteral set, ?_⟩
  rwa [setOptions_null null]

/-- A method that takes a name for an index takes no null for it. -/
theorem call_null_refused {method : Method} (literal : method.parameters = [.indexName])
    (all : method.exact = false) (before : Operation) :
    method.call fresh [nothing] before = .error (.argument (.notLiteral "index name")) := by
  have room : method.checkCount [nothing].length = .ok () := by
    have place : 1 ≤ method.capacity := by simp [capacity, literal]
    rw [checkCount, all, if_neg Bool.false_ne_true]
    exact if_pos place
  have refused : Parameter.setAll fresh method.parameters [nothing] before =
      .error (.argument (.notLiteral "index name")) := by
    rw [literal, Parameter.setAll, Parameter.set, List.head?_cons, Argument.literal?_null null]
    rfl
  rw [call, room]
  change Parameter.setAll fresh method.parameters [nothing] before >>= _ = _
  rw [refused]
  rfl

end Method

end

/-! Arguments that are replaced -/

/-- Parameters look at the arguments in their places only. -/
theorem Parameter.setAll_take (fresh : Fresh) (parameters : List Parameter) (arguments : List Expr)
    (op : Operation) :
    setAll fresh parameters arguments op =
      setAll fresh parameters (arguments.take parameters.length) op := by
  induction parameters generalizing arguments op with
  | nil => rfl
  | cons parameter rest ih =>
    cases arguments with
    | nil => rfl
    | cons argument arguments =>
      rw [setAll, List.length_cons, List.take_succ_cons, setAll]
      simp only [List.head?_cons, List.tail_cons, ← ih]

/-- An expression that is a document gives its entries. -/
theorem Argument.read_document {fresh : Fresh} {e : Expr} {options : Document}
    (converted : Value.ofExpr fresh e = .ok (.document options)) (what : String) :
    read fresh (some e) (readGiven (Value.asDocument what)) = .ok (some options) := by
  rw [read, value?, converted]
  rfl

/-- Calls that differ in their options documents only, and in those only where no option looks, make
the same of an operation. -/
theorem Method.call_options_congr {fresh : Fresh} {method : Method} {allowed : List MethodOption}
    (takes : method.options = some allowed) {arguments : List Expr} {first second : Expr}
    (given : arguments[method.parameters.length]? = some first) {options others : Document}
    (converted : Value.ofExpr fresh first = .ok (.document options))
    (converted' : Value.ofExpr fresh second = .ok (.document others))
    (known : ∀ key ∈ options.keys, key ∈ allowed.flatMap MethodOption.keys)
    (known' : ∀ key ∈ others.keys, key ∈ allowed.flatMap MethodOption.keys)
    (same : options.Agrees others) (op : Operation) :
    method.call fresh (arguments.set method.parameters.length second) op =
      method.call fresh arguments op := by
  obtain ⟨inside, -⟩ := List.getElem?_eq_some_iff.mp given
  have positioned (op : Operation) :
      Parameter.setAll fresh method.parameters (arguments.set method.parameters.length second) op =
        Parameter.setAll fresh method.parameters arguments op := by
    rw [Parameter.setAll_take, List.take_set_of_le (Nat.le_refl _), ← Parameter.setAll_take]
  have set (op : Operation) :
      method.setOptions fresh (arguments.set method.parameters.length second) op =
        method.setOptions fresh arguments op := by
    rw [setOptions, setOptions, takes]
    simp only [List.getElem?_set_self inside, given, Argument.read_document converted,
      Argument.read_document converted']
    exact (MethodOption.setAll_congr same known known' op).symm
  simp only [call, List.length_set, positioned, set]

end MongoShell

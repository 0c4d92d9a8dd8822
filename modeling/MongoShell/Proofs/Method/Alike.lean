import MongoShell.Method
import MongoShell.Method.Modifier
import MongoShell.Proofs.Operation.Alike

/-! What two readings of one call set. Arguments that are the same expressions, places apart, pass
the same checks and set the same fields, made-up values apart; where one call is refused the other
is refused for the same reason. -/

namespace MongoShell

open Outcome (Matches)
open Value (AlikeEntries AlikeItems)

variable {f g : Fresh}

/-! Typed values -/

namespace Value

variable {value other : Value}

theorem Alike.isNull (alike : Alike f g value other) : value.isNull = other.isNull := by
  cases alike <;> rfl

theorem Alike.typeName (alike : Alike f g value other) : value.typeName = other.typeName := by
  cases alike <;> rfl

theorem Alike.integer? (alike : Alike f g value other) : value.integer? = other.integer? := by
  cases alike <;> rfl

theorem AlikeEntries.keys {entries others : Document} (alike : AlikeEntries f g entries others) :
    entries.keys = others.keys := by
  induction entries generalizing others with
  | nil => cases alike; rfl
  | cons entry entries ih =>
    cases alike with
    | cons first rest => rw [Document.keys, List.map_cons]; exact congrArg _ (ih rest)

theorem asDocument_alike (what : String) (alike : Alike f g value other) :
    Matches (AlikeEntries f g) (value.asDocument what) (other.asDocument what) := by
  cases alike with
  | same value => exact .refl AlikeEntries.refl _
  | document entries => exact .ok entries
  | _ => exact .error _

theorem asDocumentItems_alike (what : String) (start : Nat) {items others : List Value}
    (alike : AlikeItems f g items others) :
    Matches (List.Forall₂ (AlikeEntries f g)) (asDocumentItems what start items)
      (asDocumentItems what start others) := by
  induction items generalizing start others with
  | nil => cases alike; exact .ok .nil
  | cons item items ih =>
    cases alike with
    | cons first rest =>
      refine (asDocument_alike _ first).bind fun document document' held => ?_
      exact (ih (start + 1) rest).bind fun documents documents' more => .ok (.cons held more)

theorem asDocuments_alike (what : String) (alike : Alike f g value other) :
    Matches (List.Forall₂ (AlikeEntries f g)) (value.asDocuments what)
      (other.asDocuments what) := by
  cases alike with
  | same value => exact .refl forall₂_alikeEntries_refl _
  | array items => exact asDocumentItems_alike what 0 items
  | _ => exact .error _

theorem asIndex_alike (what : String) (alike : Alike f g value other) :
    Matches (IndexSelector.Alike f g) (value.asIndex what) (other.asIndex what) := by
  cases alike with
  | same value => exact .refl IndexSelector.Alike.refl _
  | document entries => exact .ok (.keys entries)
  | _ => exact .error _

theorem asBoolean_alike (what : String) (alike : Alike f g value other) :
    Matches Eq (value.asBoolean what) (other.asBoolean what) := by
  cases alike with
  | same value => exact .refl Eq.refl _
  | _ => exact .error _

theorem asString_alike (what : String) (alike : Alike f g value other) :
    Matches Eq (value.asString what) (other.asString what) := by
  cases alike with
  | same value => exact .refl Eq.refl _
  | _ => exact .error _

theorem asNatural_alike (what : String) (alike : Alike f g value other) :
    Matches Eq (value.asNatural what) (other.asNatural what) := by
  cases alike with
  | same value => exact .refl Eq.refl _
  | _ => exact .error _

theorem checkOperators_alike {entries others : Document} (alike : AlikeEntries f g entries others) :
    Matches (Update.Alike f g) (checkOperators entries) (checkOperators others) := by
  unfold checkOperators
  cases alike with
  | nil => exact .error _
  | cons first rest =>
    rw [if_neg (List.cons_ne_nil _ _), if_neg (List.cons_ne_nil _ _),
      (AlikeEntries.cons first rest).keys]
    split
    · exact .error _
    · exact .ok (.document (.cons first rest))

theorem asUpdate_alike (alike : Alike f g value other) :
    Matches (Update.Alike f g) value.asUpdate other.asUpdate := by
  cases alike with
  | same value => exact .refl Update.Alike.refl _
  | document entries => exact checkOperators_alike entries
  | array items =>
    exact (asDocuments_alike "update pipeline" (.array items)).map fun _ _ => .pipeline
  | _ => exact .error _

theorem asReplacement_alike (alike : Alike f g value other) :
    Matches (AlikeEntries f g) value.asReplacement other.asReplacement := by
  refine (asDocument_alike "replacement" alike).bind fun document document' held => ?_
  rw [held.keys]
  split
  · exact .error _
  · exact .ok held

theorem asSomeDocuments_alike (alike : Alike f g value other) :
    Matches (List.Forall₂ (AlikeEntries f g))
      (value.asDocuments "documents" >>= refuseEmpty "documents")
      (other.asDocuments "documents" >>= refuseEmpty "documents") := by
  refine (asDocuments_alike "documents" alike).bind fun documents others held => ?_
  cases held with
  | nil => exact .error _
  | cons first rest => exact .ok (.cons first rest)

theorem asIndexKeys_alike (alike : Alike f g value other) :
    Matches (AlikeEntries f g) (value.asDocument "index keys" >>= refuseEmpty "index keys")
      (other.asDocument "index keys" >>= refuseEmpty "index keys") := by
  refine (asDocument_alike "index keys" alike).bind fun keys others held => ?_
  cases held with
  | nil => exact .error _
  | cons first rest => exact .ok (.cons first rest)

end Value

/-! Values that may be given -/

section

variable {α : Type} {related : α → α → Prop} {read : Value → Except ArgumentFault α}
  {given other : Option Value}
  (same : ∀ {value other}, Value.Alike f g value other → Matches related (read value) (read other))

include same

theorem readGiven_alike (alike : Option.Rel (Value.Alike f g) given other) :
    Matches (Option.Rel related) (readGiven read given) (readGiven read other) := by
  cases alike with
  | none => exact .ok .none
  | some held => exact (same held).map fun _ _ => .some

theorem readRequired_alike (absent : ArgumentFault)
    (alike : Option.Rel (Value.Alike f g) given other) :
    Matches related (readRequired absent read given) (readRequired absent read other) := by
  cases alike with
  | none => exact .error absent
  | some held => exact same held

end

namespace Argument

variable {argument argument' : Option Expr}
  (same : argument.map Expr.eraseSpans = argument'.map Expr.eraseSpans)

include same

theorem value?_alike :
    Matches (Option.Rel (Value.Alike f g)) (value? f argument) (value? g argument') := by
  cases argument with
  | none =>
    cases argument' with
    | none => exact .ok .none
    | some e => cases same
  | some e =>
    cases argument' with
    | none => cases same
    | some d =>
      have alike : Matches (Value.Alike f g) (Value.ofExpr f e) (Value.ofExpr g d) :=
        Value.ofExpr_alike (Option.some.inj same)
      simp only [value?]
      generalize Value.ofExpr f e = first at alike
      generalize Value.ofExpr g d = second at alike
      cases alike with
      | error fault => exact .error _
      | ok held =>
        simp only [held.isNull]
        split
        · exact .ok .none
        · exact .ok (.some held)

theorem read_alike {α : Type} {related : α → α → Prop}
    {read : Option Value → Except ArgumentFault α}
    (alike : ∀ {given other}, Option.Rel (Value.Alike f g) given other →
      Matches related (read given) (read other)) :
    Matches related (Argument.read f argument read) (Argument.read g argument' read) :=
  (value?_alike same).bind fun _ _ held => (alike held).mapError _

/-- A field that is set to what an argument gives, or to nothing. -/
theorem setGiven_alike (field : Field) {read : Value → Except ArgumentFault field.Content}
    (alike : ∀ {value other}, Value.Alike f g value other →
      Matches (field.Alike f g) (read value) (read other))
    {op other : Operation} (ops : Operation.Alike f g op other) :
    Matches (Operation.Alike f g)
      (Argument.read f argument (readGiven read) >>= fun content => .ok (op.put field content))
      (Argument.read g argument' (readGiven read) >>= fun content =>
        .ok (other.put field content)) :=
  (read_alike same (readGiven_alike alike)).bind fun _ _ held => .ok (ops.put field held)

/-- A field that is set to what an argument has to give. -/
theorem setRequired_alike (field : Field) {absent : ArgumentFault}
    {read : Value → Except ArgumentFault field.Content}
    (alike : ∀ {value other}, Value.Alike f g value other →
      Matches (field.Alike f g) (read value) (read other))
    {op other : Operation} (ops : Operation.Alike f g op other) :
    Matches (Operation.Alike f g)
      (Argument.read f argument (readRequired absent read) >>= fun content =>
        .ok (op.put field (some content)))
      (Argument.read g argument' (readRequired absent read) >>= fun content =>
        .ok (other.put field (some content))) :=
  (read_alike same (readRequired_alike alike absent)).bind fun _ _ held =>
    .ok (ops.put field (.some held))

theorem literal?_congr (what : String) : literal? what argument = literal? what argument' := by
  cases argument with
  | none =>
    cases argument' with
    | none => rfl
    | some e => cases same
  | some e =>
    cases argument' with
    | none => cases same
    | some d =>
      rw [literal?, literal?, ← Value.string?_eraseSpans e, Option.some.inj same,
        Value.string?_eraseSpans]

theorem literal?_alike (what : String) :
    Matches Eq (literal? what argument) (literal? what argument') :=
  .of_eq (literal?_congr same what)

theorem name_alike (what : String) : Matches Eq (name what argument) (name what argument') :=
  (literal?_alike same what).bind fun _ _ held => held ▸ .refl Eq.refl _

end Argument

/-! Parameters -/

open Value in
theorem Parameter.set_alike {argument argument' : Option Expr}
    (same : argument.map Expr.eraseSpans = argument'.map Expr.eraseSpans) {op other : Operation}
    (ops : Operation.Alike f g op other) (parameter : Parameter) :
    Matches (Operation.Alike f g) (parameter.set f argument op)
      (parameter.set g argument' other) := by
  cases parameter
  case filter => exact Argument.setGiven_alike same .filter (asDocument_alike _) ops
  case requiredFilter => exact Argument.setRequired_alike same .filter (asDocument_alike _) ops
  case projection => exact Argument.setGiven_alike same .projection (asDocument_alike _) ops
  case pipeline =>
    refine (Argument.read_alike same (readGiven_alike (asDocuments_alike _))).bind
      fun stages others held => .ok (ops.put .pipeline (.some ?_))
    cases held with
    | none => exact .nil
    | some held => exact held
  case distinctField =>
    exact (Argument.name_alike same _).bind
      fun _ _ held => .ok (ops.put .distinctField (.some held))
  case document => exact Argument.setRequired_alike same .document (asDocument_alike _) ops
  case documents => exact Argument.setRequired_alike same .documents asSomeDocuments_alike ops
  case update => exact Argument.setRequired_alike same .update asUpdate_alike ops
  case replacement => exact Argument.setRequired_alike same .replacement asReplacement_alike ops
  case indexKeys => exact Argument.setRequired_alike same .indexKeys asIndexKeys_alike ops
  case index => exact Argument.setRequired_alike same .index (asIndex_alike _) ops
  case indexName =>
    refine (Argument.literal?_alike same _).bind fun name other held => .ok (ops.put .index ?_)
    subst held
    cases name with
    | none => exact .none
    | some name => exact .some (.name name)
  case newName =>
    exact (Argument.name_alike same _).bind fun _ _ held => .ok (ops.put .newName (.some held))
  case dropTarget => exact Argument.setGiven_alike same .dropTarget (asBoolean_alike _) ops
  case collectionName =>
    refine (Argument.name_alike same _).bind fun name other held => ?_
    subst held
    exact .ok (ops.withCollection name)

theorem Parameter.setAll_alike (parameters : List Parameter) {arguments others : List Expr}
    (same : arguments.map Expr.eraseSpans = others.map Expr.eraseSpans) {op other : Operation}
    (ops : Operation.Alike f g op other) :
    Matches (Operation.Alike f g) (setAll f parameters arguments op)
      (setAll g parameters others other) := by
  induction parameters generalizing arguments others op other with
  | nil => exact .ok ops
  | cons parameter parameters ih =>
    have head : arguments.head?.map Expr.eraseSpans = others.head?.map Expr.eraseSpans := by
      rw [← List.head?_map, same, List.head?_map]
    have tail : arguments.tail.map Expr.eraseSpans = others.tail.map Expr.eraseSpans := by
      rw [List.map_tail, same, List.map_tail]
    exact (parameter.set_alike head ops).bind fun _ _ held => ih tail held

/-! Options -/

theorem Document.get?_alike (key : String) {options others : Document}
    (alike : AlikeEntries f g options others) :
    Option.Rel (Value.Alike f g) (options.get? key) (others.get? key) := by
  induction options generalizing others with
  | nil => cases alike; exact .none
  | cons entry options ih =>
    cases alike with
    | @cons name value other _ others first rest =>
      have behind := ih rest
      simp only [Document.get?]
      generalize Document.get? key options = later at behind
      generalize Document.get? key others = later' at behind
      cases behind with
      | some held => exact .some held
      | none =>
        simp only
        split
        · exact .some first
        · exact .none

theorem Document.option?_alike (key : String) {options others : Document}
    (alike : AlikeEntries f g options others) :
    Option.Rel (Value.Alike f g) (options.option? key) (others.option? key) := by
  have found := Document.get?_alike key alike
  unfold Document.option?
  generalize options.get? key = value at found
  generalize others.get? key = value' at found
  cases found with
  | none => exact .none
  | some held =>
    simp only [held.isNull]
    split
    · exact .none
    · exact .some held

theorem Document.readOption_alike {α : Type} {related : α → α → Prop} (key : String)
    {read : String → Value → Except ArgumentFault α}
    (same : ∀ what {value other}, Value.Alike f g value other →
      Matches related (read what value) (read what other))
    {options others : Document} (alike : AlikeEntries f g options others) :
    Matches (Option.Rel related) (options.readOption key read) (others.readOption key read) :=
  readGiven_alike (same _) (option?_alike key alike)

open Value Document in
theorem ReturnDocument.ofOptions_alike {options others : Document}
    (alike : AlikeEntries f g options others) :
    Matches (Option.Rel Eq) (ofOptions options) (ofOptions others) := by
  refine (readOption_alike _ (fun _ => asString_alike _) alike).bind fun text text' given => ?_
  cases given with
  | some same =>
    subst same
    exact (Matches.refl Eq.refl (ofName _)).map fun _ _ => .some
  | none =>
    refine (readOption_alike _ (fun _ => asBoolean_alike _) alike).bind fun new new' given => .ok ?_
    cases given with
    | none => exact .none
    | some same => exact .some (by rw [same])

/-- A field that is set to what an option holds. -/
theorem MethodOption.setField_alike (field : Field) {key : String}
    {read : String → Value → Except ArgumentFault field.Content}
    (same : ∀ what {value other}, Value.Alike f g value other →
      Matches (field.Alike f g) (read what value) (read what other))
    {options others : Document} (alike : AlikeEntries f g options others) {op other : Operation}
    (ops : Operation.Alike f g op other) :
    Matches (Operation.Alike f g)
      (options.readOption key read >>= fun content => .ok (op.put field content))
      (others.readOption key read >>= fun content => .ok (other.put field content)) :=
  (Document.readOption_alike key same alike).bind fun _ _ held => .ok (ops.put field held)

open Value in
theorem MethodOption.set_alike {options others : Document} (alike : AlikeEntries f g options others)
    {op other : Operation} (ops : Operation.Alike f g op other) (option : MethodOption) :
    Matches (Operation.Alike f g) (option.set options op) (option.set others other) := by
  cases option
  case hint => exact setField_alike .hint (fun _ => asIndex_alike _) alike ops
  case max => exact setField_alike .max (fun _ => asDocument_alike _) alike ops
  case min => exact setField_alike .min (fun _ => asDocument_alike _) alike ops
  case maxTimeMS => exact setField_alike .maxTimeMS (fun _ => asNatural_alike _) alike ops
  case limit => exact setField_alike .limit (fun _ => asNatural_alike _) alike ops
  case skip => exact setField_alike .skip (fun _ => asNatural_alike _) alike ops
  case projection => exact setField_alike .projection (fun _ => asDocument_alike _) alike ops
  case sort => exact setField_alike .sort (fun _ => asDocument_alike _) alike ops
  case upsert => exact setField_alike .upsert (fun _ => asBoolean_alike _) alike ops
  case ordered => exact setField_alike .ordered (fun _ => asBoolean_alike _) alike ops
  case bypassDocumentValidation =>
    exact setField_alike .bypassDocumentValidation (fun _ => asBoolean_alike _) alike ops
  case arrayFilters => exact setField_alike .arrayFilters (fun _ => asDocuments_alike _) alike ops
  case name => exact setField_alike .indexName (fun _ => asString_alike _) alike ops
  case unique => exact setField_alike .unique (fun _ => asBoolean_alike _) alike ops
  case sparse => exact setField_alike .sparse (fun _ => asBoolean_alike _) alike ops
  case expireAfterSeconds =>
    exact setField_alike .expireAfterSeconds (fun _ => asNatural_alike _) alike ops
  case nameOnly => exact setField_alike .nameOnly (fun _ => asBoolean_alike _) alike ops
  case authorizedCollections =>
    exact setField_alike .authorizedCollections (fun _ => asBoolean_alike _) alike ops
  case capped => exact setField_alike .capped (fun _ => asBoolean_alike _) alike ops
  case size => exact setField_alike .size (fun _ => asNatural_alike _) alike ops
  case maxDocuments => exact setField_alike .maxDocuments (fun _ => asNatural_alike _) alike ops
  case returnDocument =>
    exact (ReturnDocument.ofOptions_alike alike).bind
      fun _ _ held => .ok (ops.put .returnDocument held)

theorem MethodOption.setAll_alike (allowed : List MethodOption) {options others : Document}
    (alike : AlikeEntries f g options others) {op other : Operation}
    (ops : Operation.Alike f g op other) :
    Matches (Operation.Alike f g) (setAll allowed options op) (setAll allowed others other) := by
  unfold setAll
  rw [alike.keys]
  split
  · exact .error _
  · refine Matches.mapError ?_ _
    refine Matches.foldlM (List.forall₂_same.mpr fun _ _ => rfl) ops ?_
    rintro option - op other rfl held
    exact option.set_alike alike held

/-! Modifiers -/

theorem Modifier.readInteger_alike {given other : Option Value}
    (alike : Option.Rel (Value.Alike f g) given other) :
    Matches Eq (readInteger given) (readInteger other) := by
  refine readRequired_alike (fun held => ?_) _ alike
  rw [held.integer?, held.typeName]
  exact .refl Eq.refl _

open Value Modifier in
theorem Modifier.set_alike {argument argument' : Option Expr}
    (same : argument.map Expr.eraseSpans = argument'.map Expr.eraseSpans) {op other : Operation}
    (ops : Operation.Alike f g op other) (modifier : Modifier) :
    Matches (Operation.Alike f g) (modifier.set f argument op)
      (modifier.set g argument' other) := by
  cases modifier
  case sort => exact Argument.setRequired_alike same .sort (asDocument_alike _) ops
  case projection => exact Argument.setRequired_alike same .projection (asDocument_alike _) ops
  case max => exact Argument.setRequired_alike same .max (asDocument_alike _) ops
  case min => exact Argument.setRequired_alike same .min (asDocument_alike _) ops
  case hint => exact Argument.setRequired_alike same .hint (asIndex_alike _) ops
  case limit =>
    exact (Argument.read_alike same readInteger_alike).bind
      fun _ _ held => .ok (ops.put .limit (.some held))
  case skip =>
    refine (Argument.read_alike same readInteger_alike).bind fun skip other held => ?_
    subst held
    split
    · exact .error _
    · exact .ok (ops.put .skip (.some rfl))

/-! Calls -/

namespace Method

variable {op other : Operation}

theorem setOptions_alike (method : Method) {arguments others : List Expr}
    (same : arguments.map Expr.eraseSpans = others.map Expr.eraseSpans)
    (ops : Operation.Alike f g op other) :
    Matches (Operation.Alike f g) (method.setOptions f arguments op)
      (method.setOptions g others other) := by
  unfold setOptions
  cases method.options with
  | none => exact .ok ops
  | some allowed =>
    have argument : arguments[method.parameters.length]?.map Expr.eraseSpans =
        others[method.parameters.length]?.map Expr.eraseSpans := by
      rw [← List.getElem?_map, same, List.getElem?_map]
    refine (Argument.read_alike argument (readGiven_alike (Value.asDocument_alike _))).bind
      fun options options' given => MethodOption.setAll_alike allowed ?_ ops
    cases given with
    | none => exact .nil
    | some held => exact held

theorem checkCapped_alike (ops : Operation.Alike f g op other) :
    checkCapped op = checkCapped other := by
  have held {α : Type} {first second : Option α} (rel : Option.Rel Eq first second) :
      first = second := by
    cases rel with
    | none => rfl
    | some same => rw [same]
  have capped : op.capped = other.capped := held (ops.fields .capped)
  have size : op.size = other.size := held (ops.fields .size)
  rw [checkCapped, capped, size, checkCapped]

theorem call_alike (method : Method) {arguments others : List Expr}
    (same : arguments.map Expr.eraseSpans = others.map Expr.eraseSpans)
    (ops : Operation.Alike f g op other) :
    Matches (Operation.Alike f g) (method.call f arguments op) (method.call g others other) := by
  have count : arguments.length = others.length := by
    rw [← List.length_map Expr.eraseSpans, same, List.length_map]
  unfold call
  rw [count]
  refine (Matches.refl Eq.refl _).bind fun _ _ _ => ?_
  refine (Parameter.setAll_alike method.parameters same ops).bind fun op other ops => ?_
  refine (method.setOptions_alike same ops).bind fun op other ops => ?_
  rw [checkCapped_alike ops]
  exact (Matches.refl Eq.refl _).bind fun _ _ _ => .ok (ops.withKind method.kind)

end Method

end MongoShell

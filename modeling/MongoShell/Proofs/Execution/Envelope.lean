import Mathlib
import MongoShell.Proofs.Execution.Validation

/-! What a result holds of a reply. The kind of an operation says what its reply consists of, and
that says what the rows are, which of them are documents and whether they are a count. Nothing of a
reply is lost but what of a count is above the greatest 64-bit integer. -/

namespace MongoShell

/-- What the reply to an operation of a kind consists of; an operation that is none has no reply. -/
def OperationKind.shape? : OperationKind → Option ReplyShape
  | unknown => none
  | showDatabases | showCollections | getCollectionNames => some .names
  | find | aggregate | getCollectionInfos | getIndexes => some .documents
  | findOne | findOneAndUpdate | findOneAndReplace | findOneAndDelete => some .firstDocument
  | distinct => some .values
  | insertOne | insertMany | updateOne | updateMany | replaceOne | deleteOne | deleteMany =>
    some .summary
  | createIndex => some .name
  | countDocuments | estimatedDocumentCount => some .count
  | dropIndex | dropIndexes | drop | createCollection | dropDatabase | renameCollection =>
    some .done

/-- The result carries a reply: its rows are what the reply consists of, in order and in full, its
documents are all rows that are documents, and it has a count if the reply is one. -/
def ReplyShape.Carries {δ ω : Type} (result : ResultSet δ ω) :
    (shape : ReplyShape) → shape.Reply δ ω → Prop
  | names, (texts : List String) =>
    result.rows = texts.map .string ∧ result.documents = [] ∧ result.count? = none
  | documents, (found : List δ) =>
    result.rows = found.map .document ∧ result.documents = found ∧ result.count? = none
  | firstDocument, (none : Option δ) =>
    result.rows = [] ∧ result.documents = [] ∧ result.count? = none
  | firstDocument, (some document : Option δ) =>
    result.rows = [.document document] ∧ result.documents = [document] ∧ result.count? = none
  | summary, (entries : δ) =>
    result.rows = [.document entries] ∧ result.documents = [entries] ∧ result.count? = none
  | values, (found : List (ReplyRow δ ω)) => result.rows = found ∧ result.count? = none
  | name, (text : String) =>
    result.rows = [.string text] ∧ result.documents = [] ∧ result.count? = none
  | count, (n : Nat) => ∃ counted : Int64, counted.toInt = min (n : Int) (2 ^ 63 - 1) ∧
    result.rows = [.int64 counted] ∧ result.documents = [] ∧ result.count? = some counted
  | done, _ => result.rows = [.boolean true] ∧ result.documents = [] ∧ result.count? = none

/-! The request of a kind -/

/-- The requests that may come of checks have replies of one shape. -/
def ShapeOf (shape : ReplyShape) (outcome : Except OperationFault Request) : Prop :=
  ∀ request, outcome = .ok request → request.shape = shape

namespace ShapeOf

variable {α : Type} {shape : ReplyShape}

theorem ok {request : Request} (same : request.shape = shape) : ShapeOf shape (.ok request) := by
  rintro _ ⟨⟩
  exact same

theorem map {outcome : Except OperationFault α} {f : α → Request}
    (all : ∀ a, (f a).shape = shape) : ShapeOf shape (outcome.map f) := by
  intro request made
  obtain ⟨a, -, rfl⟩ := (Outcome.map_eq_ok _ _ _).mp made
  exact all a

theorem bind {outcome : Except OperationFault α} {next : α → Except OperationFault Request}
    (all : ∀ a, ShapeOf shape (next a)) : ShapeOf shape (outcome.bind next) := by
  intro request made
  obtain ⟨a, -, made⟩ := (Outcome.bind_eq_ok _ _ _).mp made
  exact all a request made

end ShapeOf

/-- An operation makes a request whose reply has the shape of the operation's kind. -/
theorem Operation.request_shape {op : Operation} {cap : Option Int} {request : Request}
    (made : op.request cap = .ok request) : op.kind.shape? = some request.shape := by
  have of {kind : OperationKind} {shape : ReplyShape} {outcome : Except OperationFault Request}
      (known : kind.shape? = some shape) (all : ShapeOf shape outcome)
      (made : outcome = .ok request) : kind.shape? = some request.shape := by
    rw [all request made, known]
  cases kind : op.kind <;> simp only [Operation.request, kind] at made
  case unknown => cases made
  case showDatabases | showCollections | getCollectionNames | getCollectionInfos | dropDatabase =>
    exact of rfl (.ok rfl) made
  case find | findOne | aggregate | countDocuments | distinct | updateOne | updateMany |
      replaceOne | deleteOne | deleteMany | findOneAndDelete | createIndex | getIndexes | drop |
      createCollection =>
    exact of rfl (.map fun _ => rfl) made
  case insertOne | insertMany | findOneAndUpdate | findOneAndReplace =>
    exact of rfl (.bind fun _ => .map fun _ => rfl) made
  case dropIndexes => exact of rfl (.bind fun _ => .ok rfl) made
  case estimatedDocumentCount | dropIndex | renameCollection =>
    exact of rfl (.bind fun _ => .bind fun _ => .ok rfl) made

/-! The rows of a reply -/

variable {δ ω : Type}

/-- The documents among rows that are all documents. -/
theorem ReplyRow.filterMap_document (found : List δ) :
    (found.map ReplyRow.document : List (ReplyRow δ ω)).filterMap document? = found := by
  rw [List.filterMap_map]
  exact List.filterMap_some

/-- No document is among rows of another sort. -/
theorem ReplyRow.filterMap_of_none {α : Type} {f : α → ReplyRow δ ω}
    (none : ∀ a, (f a).document? = none) (items : List α) :
    (items.map f).filterMap document? = [] := by
  rw [List.filterMap_map, List.filterMap_eq_nil_iff]
  exact fun a _ => none a

/-- Only operations that count have a count. -/
theorem ResultSet.count?_eq_none {result : ResultSet δ ω}
    (other : result.kind.shape? ≠ some .count) : result.count? = none := by
  unfold count?
  split
  · rename_i kind _
    exact absurd (by rw [kind]; rfl) other
  · rename_i kind _
    exact absurd (by rw [kind]; rfl) other
  · rfl

theorem ResultSet.count?_int64 {kind : OperationKind} (counts : kind.shape? = some .count)
    (statement : String) (n : Int64) :
    count? (⟨kind, statement, [.int64 n]⟩ : ResultSet δ ω) = some n := by
  cases kind <;> first | rfl | cases counts

/-- A result whose rows are those of a reply of its kind carries the reply. -/
theorem ReplyShape.rows_carry {kind : OperationKind} {shape : ReplyShape}
    (known : kind.shape? = some shape) (statement : String) (reply : shape.Reply δ ω) :
    shape.Carries ⟨kind, statement, shape.rows reply⟩ reply := by
  have uncounted (rows : List (ReplyRow δ ω)) (other : shape ≠ .count) :
      ResultSet.count? ⟨kind, statement, rows⟩ = none := by
    apply ResultSet.count?_eq_none
    rw [known]
    simpa using other
  cases shape with
  | names => exact ⟨rfl, ReplyRow.filterMap_of_none (fun _ => rfl) reply, uncounted _ nofun⟩
  | documents => exact ⟨rfl, ReplyRow.filterMap_document reply, uncounted _ nofun⟩
  | firstDocument =>
    match reply with
    | none => exact ⟨rfl, rfl, uncounted _ nofun⟩
    | some document => exact ⟨rfl, rfl, uncounted _ nofun⟩
  | summary => exact ⟨rfl, rfl, uncounted _ nofun⟩
  | values => exact ⟨rfl, uncounted _ nofun⟩
  | name => exact ⟨rfl, rfl, uncounted _ nofun⟩
  | done => exact ⟨rfl, rfl, uncounted _ nofun⟩
  | count =>
    refine ⟨_, ?_, rfl, rfl, ResultSet.count?_int64 known statement _⟩
    rw [Int64.toInt_ofNat_of_lt (by omega)]
    omega

/-! Executions -/

/-- A result of an execution carries the client's reply to the request that was sent. It has the
kind and the statement that were passed in, the kind says what the reply consists of, and rows,
documents and count are those of the reply. -/
theorem Settings.execute_carries_reply {settings : Settings} {client : Client δ ω} {op : Operation}
    {statement : String} {rowCap : Option Int} {result : ResultSet δ ω}
    (done : (settings.execute client op statement rowCap).outcome = .ok result) :
    ∃ request reply,
      (settings.execute client op statement rowCap).sent = some request ∧
      (client request).answer = .ok reply ∧
      result.kind = op.kind ∧ result.statement = statement ∧
      op.kind.shape? = some request.shape ∧ request.shape.Carries result reply := by
  cases made : op.request (rowCap.or settings.rowCap) with
  | error fault =>
    rw [execute_refused made] at done
    cases done
  | ok request =>
    rw [execute_sent made] at done ⊢
    obtain ⟨reply, came, rfl⟩ := (Outcome.map_eq_ok _ _ _).mp done
    obtain ⟨-, answered⟩ := await_eq_ok_iff.mp came
    have known := Operation.request_shape made
    exact ⟨request, reply, rfl, answered, rfl, rfl, known, ReplyShape.rows_carry known _ _⟩

/-- A reply of each shape: nothing at all, or the greatest count that a server may tell. -/
def ReplyShape.greatest : (shape : ReplyShape) → shape.Reply Document Value
  | names => ([] : List String)
  | name => ""
  | documents => ([] : List Document)
  | firstDocument => (none : Option Document)
  | summary => ([] : Document)
  | values => ([] : List (ReplyRow Document Value))
  | count => (2 ^ 64 - 1 : Nat)
  | done => ()

/-- A count that is too great for a result is given as the greatest that it can hold. -/
theorem execute_carries_greatest :
    ∃ (request : Request) (reply : request.shape.Reply Document Value),
      request = .estimatedDocumentCount "users" none ∧
      OperationKind.estimatedDocumentCount.shape? = some request.shape ∧
      request.shape.Carries ⟨.estimatedDocumentCount, "", [.int64 Int64.maxValue]⟩ reply := by
  let op : Operation := { kind := .estimatedDocumentCount, collection := "users" }
  have done :
      (Settings.execute {} (fun request => ⟨0, .ok request.shape.greatest⟩) op "" none).outcome
      = .ok ⟨.estimatedDocumentCount, "", [.int64 Int64.maxValue]⟩ := by rfl
  obtain ⟨request, reply, sent, -, -, -, known, carries⟩ := Settings.execute_carries_reply done
  exact ⟨request, reply, (Option.some.inj sent).symm, known, carries⟩

end MongoShell

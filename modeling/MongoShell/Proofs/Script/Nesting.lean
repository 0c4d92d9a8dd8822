import Mathlib
import MongoShell.Proofs.Expr.Nesting
import MongoShell.Proofs.Script.Ends
import MongoShell.Proofs.Statement.Places
import MongoShell.Proofs.Token.LongestMatch

/-! Where the statements of a script stand, and what they consist of. The calls of a database
statement are taken from its expression, where each is applied to the one before it: so they start
together, and each ends behind the one before. The statements of a script stand one behind the
other, since each starts with a token behind the last token of the one before. -/

namespace MongoShell

/-- The method calls of a database statement, in the order of the source. -/
def DatabaseStatement.calls : DatabaseStatement → List MethodCall
  | command _ call | method call => [call]
  | collection chain => chain.calls

def StatementKind.calls : StatementKind → List MethodCall
  | shell _ | expression _ => []
  | database statement => statement.calls

/-- The nodes that a statement consists of: its method calls, or its expression. -/
def StatementKind.nodes : StatementKind → List Node
  | shell _ => []
  | database statement => statement.calls.map .call
  | expression e => [.expr e]

/-- A statement covers tokens. All nodes of it are well placed and inside of it, and its calls start
together and end one behind the other. -/
structure Statement.Nested (tokens : List Token) (s : Statement) : Prop where
  covers : s.span.Covers tokens
  nests : ∀ node ∈ s.kind.nodes, node.Nests tokens ∧ node.span.Inside s.span
  rising : s.kind.calls.Pairwise fun earlier later =>
    earlier.span.start = later.span.start ∧ earlier.span.stop < later.span.stop

variable {tokens : List Token}

/-! The calls of a chain -/

/-- The calls among some accesses start at one offset and end one behind the other, between two
others. -/
def Climbs (tokens : List Token) (start : Nat) : Nat → List Access → Nat → Prop
  | low, [], high => low ≤ high
  | low, .call arguments span :: rest, high =>
    (∀ name, (Node.call ⟨name, arguments, span⟩).Nests tokens) ∧ span.start = start ∧
      low < span.stop ∧ Climbs tokens start span.stop rest high
  | low, _ :: rest, high => Climbs tokens start low rest high

/-- So do these calls. -/
structure Rising (tokens : List Token) (start low high : Nat) (calls : List MethodCall) : Prop where
  each : ∀ call ∈ calls, (Node.call call).Nests tokens ∧ call.span.start = start ∧
    low < call.span.stop ∧ call.span.stop ≤ high
  ordered : calls.Pairwise fun earlier later => earlier.span.stop < later.span.stop

section Climbs

variable {start low high : Nat}

theorem Climbs.lower {further : Nat} {accesses : List Access}
    (climbs : Climbs tokens start low accesses high) (before : further ≤ low) :
    Climbs tokens start further accesses high := by
  induction accesses with
  | nil => exact Nat.le_trans before climbs
  | cons access rest ih =>
    cases access with
    | member name => exact ih climbs
    | index position => exact ih climbs
    | call arguments span =>
      obtain ⟨nests, same, behind, others⟩ := climbs
      exact ⟨nests, same, before.trans_lt behind, others⟩

theorem Climbs.le {accesses : List Access} (climbs : Climbs tokens start low accesses high) :
    low ≤ high := by
  induction accesses generalizing low with
  | nil => exact climbs
  | cons access rest ih =>
    cases access with
    | member name => exact ih climbs
    | index position => exact ih climbs
    | call arguments span =>
      obtain ⟨-, -, behind, others⟩ := climbs
      exact behind.le.trans (ih others)

/-- A call node of the tree and a call of a chain have the same arguments below them. -/
theorem Node.Nests.call {span : Span} {callee : Expr} {arguments : List Expr}
    (nests : (Node.expr (.call span callee arguments)).Nests tokens) (name : String) :
    (Node.call ⟨name, arguments, span⟩).Nests tokens := by
  obtain ⟨covers, inside, ordered, -⟩ := nests.placed
  have among {child : Node} (member : child ∈ arguments.map Node.expr) :
      child ∈ (Node.expr (.call span callee arguments)).children := List.mem_cons_of_mem _ member
  refine .intro ⟨covers, fun child member => inside child (among member), ?_, nofun⟩
    fun child member => nests.child (among member)
  exact (List.pairwise_cons.mp ordered).2

/-- The calls gathered from an expression start where it starts. -/
theorem Expr.accesses?_climbs {e : Expr} {gathered accesses : List Access} {root : String}
    (nests : (Node.expr e).Nests tokens) (begins : e.span.start = start)
    (climbs : Climbs tokens start e.span.stop gathered high)
    (found : e.accesses? gathered = some (root, accesses)) :
    ∃ low, Climbs tokens start low accesses high := by
  fun_induction Expr.accesses? gathered e with
  | case1 gathered span target name ih =>
    obtain ⟨same, earlier⟩ := nests.placed.leads target rfl
    exact ih (nests.child (.head _)) (same.trans begins) (climbs.lower earlier.le) found
  | case2 gathered span target position ih =>
    obtain ⟨same, earlier⟩ := nests.placed.leads target rfl
    exact ih (nests.child (.head _)) (same.trans begins) (climbs.lower earlier.le) found
  | case3 gathered span callee arguments ih =>
    obtain ⟨same, earlier⟩ := nests.placed.leads callee rfl
    exact ih (nests.child (.head _)) (same.trans begins)
      ⟨nests.call, begins, earlier, climbs⟩ found
  | case4 gathered span name =>
    cases found
    exact ⟨_, climbs⟩
  | case5 => cases found

theorem Climbs.rising : {low : Nat} → {accesses : List Access} → {calls : List MethodCall} →
    Climbs tokens start low accesses high → Access.calls? accesses = some calls →
    Rising tokens start low high calls
  | _, [], _, _, found => by
    cases found
    exact ⟨nofun, .nil⟩
  | _, .member name :: .call arguments span :: rest, _, climbs, found => by
    obtain ⟨later, others, rfl⟩ := Option.map_eq_some_iff.mp found
    obtain ⟨nests, same, behind, climbs⟩ := climbs
    obtain ⟨each, ordered⟩ := climbs.rising others
    refine ⟨List.forall_mem_cons.mpr ⟨⟨nests name, same, behind, climbs.le⟩, ?_⟩,
      .cons (fun call member => (each call member).2.2.1) ordered⟩
    intro call member
    obtain ⟨nests, same, further, last⟩ := each call member
    exact ⟨nests, same, behind.trans further, last⟩
  | _, [.member _], _, _, found => nomatch found
  | _, .member _ :: .member _ :: _, _, _, found => nomatch found
  | _, .member _ :: .index _ :: _, _, _, found => nomatch found
  | _, .index _ :: _, _, _, found => nomatch found
  | _, .call .. :: _, _, _, found => nomatch found

theorem Climbs.splitNames {accesses : List Access}
    (climbs : Climbs tokens start low accesses high) :
    Climbs tokens start low (Access.splitNames accesses).2 high := by
  fun_induction Access.splitNames accesses with
  | case1 => exact climbs
  | case2 name rest names behind same noCall ih => exact ih climbs
  | case3 => exact climbs

theorem CollectionChain.rising {collection : CollectionAddress} {accesses : List Access}
    {chain : CollectionChain} (climbs : Climbs tokens start low accesses high)
    (found : ofAccesses? collection accesses = some chain) :
    Rising tokens start low high chain.calls := by
  unfold ofAccesses? at found
  split at found
  · rename_i calls
    cases found
    exact climbs.rising calls
  · cases found

theorem DatabaseStatement.rising {accesses : List Access} {statement : DatabaseStatement}
    (climbs : Climbs tokens start low accesses high)
    (found : ofAccesses? accesses = some statement) :
    ∃ low, Rising tokens start low high statement.calls := by
  have single {name : String} {arguments : List Expr} {span : Span} {rest : List Access}
      (climbs : Climbs tokens start low (.member name :: .call arguments span :: rest) high) :
      Rising tokens start low high [⟨name, arguments, span⟩] := by
    obtain ⟨nests, same, behind, others⟩ := climbs
    exact ⟨by simp [nests name, same, behind, others.le], List.pairwise_singleton _ _⟩
  unfold ofAccesses? at found
  split at found
  · rename_i name arguments span rest
    split at found
    · obtain ⟨chain, whole, same⟩ := Option.map_eq_some_iff.mp found
      obtain ⟨-, -, -, others⟩ := climbs
      cases same
      exact ⟨_, CollectionChain.rising others whole⟩
    · split at found <;> cases found <;> exact ⟨low, single climbs⟩
  · rename_i position rest
    obtain ⟨chain, whole, same⟩ := Option.map_eq_some_iff.mp found
    cases same
    have behind : Climbs tokens start low rest high := climbs
    exact ⟨low, CollectionChain.rising behind whole⟩
  · obtain ⟨chain, whole, same⟩ := Option.map_eq_some_iff.mp found
    cases same
    exact ⟨low, CollectionChain.rising climbs.splitNames whole⟩
  · cases found

/-- What an expression is as a statement consists of nodes inside of it. -/
theorem StatementKind.ofExpr_nested {e : Expr} (nests : (Node.expr e).Nests tokens) :
    (∀ node ∈ (ofExpr e).nodes, node.Nests tokens ∧ node.span.Inside e.span) ∧
      (ofExpr e).calls.Pairwise fun earlier later =>
        earlier.span.start = later.span.start ∧ earlier.span.stop < later.span.stop := by
  unfold ofExpr
  split
  · rename_i statement found
    unfold DatabaseStatement.ofExpr? at found
    split at found
    · rename_i root accesses gathered
      split at found
      · have nothing : Climbs tokens e.span.start e.span.stop [] e.span.stop := Nat.le_refl _
        obtain ⟨low, climbs⟩ := Expr.accesses?_climbs nests rfl nothing gathered
        obtain ⟨low, each, ordered⟩ := DatabaseStatement.rising climbs found
        constructor
        · intro node member
          obtain ⟨call, among, rfl⟩ := List.mem_map.mp member
          obtain ⟨nests, same, -, last⟩ := each call among
          exact ⟨nests, same.ge, last⟩
        · refine ordered.imp_of_mem fun first second ends => ⟨?_, ends⟩
          exact (each _ first).2.1.trans (each _ second).2.1.symm
      · cases found
    · cases found
  · refine ⟨fun node member => ?_, .nil⟩
    rw [List.mem_singleton.mp member]
    exact ⟨nests, Nat.le_refl _, Nat.le_refl _⟩

end Climbs

/-! The statements of a script -/

namespace Script

/-- What a stage holds covers tokens up to an offset, in order. -/
def Stage.Stands (tokens : List Token) (high : Nat) : Stage → Prop
  | between | behind _ => True
  | shown word => word.span.Covers tokens ∧ word.span.stop ≤ high
  | inside first last mode frames =>
    first.span.Covers tokens ∧ last.span.Covers tokens ∧ first.span.stop ≤ last.span.stop ∧
      last.span.stop ≤ high ∧
      mode.StandsIn tokens first.span.start frames last.span.stop

/-- Where the statement that is being read starts, or may start. -/
def Stage.front (high : Nat) : Stage → Nat
  | between | behind _ => high
  | shown word => word.span.start
  | inside first _ _ _ => first.span.start

/-- The statements so far are well placed, one behind the other, and in front of the one that is
being read. -/
structure State.Stands (tokens : List Token) (high : Nat) (state : State) : Prop where
  nested : ∀ s ∈ state.statements, s.Nested tokens ∧ s.span.stop ≤ state.stage.front high
  ordered : state.statements.Pairwise fun later earlier => earlier.span.Before later.span
  stage : state.stage.Stands tokens high

section Step

variable {source : List Char} {high : Nat} {t : Token} {state next : State}

/-- The first token of a statement. -/
theorem State.start_stands
    (nested : ∀ s ∈ state.statements, s.Nested tokens ∧ s.span.stop ≤ high)
    (ordered : state.statements.Pairwise fun later earlier => earlier.span.Before later.span)
    (behind : t.Next tokens high) (forward : t.span.start ≤ t.span.stop)
    (done : state.start t = .ok next) : next.Stands tokens t.span.stop := by
  have later {stop : Nat} (ends : high ≤ stop) :
      ∀ s ∈ state.statements, s.Nested tokens ∧ s.span.stop ≤ stop := fun s member =>
    ⟨(nested s member).1, (nested s member).2.trans ends⟩
  unfold start at done
  split at done
  · cases done
    exact ⟨later (behind.behind.trans forward), ordered, trivial⟩
  rename_i plain
  have covers := behind.covers fun kind => plain (.inr kind)
  split at done
  · cases done
    exact ⟨later behind.behind, ordered, covers, Nat.le_refl _⟩
  · obtain ⟨⟨mode, frames⟩, started, rfl⟩ := (Outcome.map_eq_ok _ _ _).mp done
    have here : t.Next tokens t.span.start := ⟨Nat.le_refl _, behind.covers⟩
    have nothing : Enclose tokens t.span.start [] t.span.start := Nat.le_refl _
    exact ⟨later behind.behind, ordered, covers, covers, Nat.le_refl _, Nat.le_refl _,
      Mode.start_stands nothing here started⟩

theorem State.separate_stands {last : Token}
    (nested : ∀ s ∈ state.statements, s.Nested tokens ∧ s.span.stop ≤ high)
    (ordered : state.statements.Pairwise fun later earlier => earlier.span.Before later.span)
    (behind : t.Next tokens high) (forward : t.span.start ≤ t.span.stop)
    (done : state.separate last t = .ok next) : next.Stands tokens t.span.stop := by
  unfold separate at done
  split at done
  · cases done
    have further := behind.behind.trans forward
    exact ⟨fun s member => ⟨(nested s member).1, (nested s member).2.trans further⟩, ordered,
      trivial⟩
  split at done
  · cases done
  · exact start_stands nested ordered behind forward done

/-- One more statement, which starts behind those before it. -/
theorem State.addStatement_stands {first last : Token} {kind : StatementKind} {stage : Stage}
    (nested : ∀ s ∈ state.statements, s.Nested tokens ∧ s.span.stop ≤ first.span.start)
    (ordered : state.statements.Pairwise fun later earlier => earlier.span.Before later.span)
    (opens : first.span.Covers tokens) (closes : last.span.Covers tokens)
    (ends : first.span.stop ≤ last.span.stop)
    (nests : ∀ node ∈ kind.nodes, node.Nests tokens ∧
      first.span.start ≤ node.span.start ∧ node.span.stop ≤ last.span.stop)
    (rising : kind.calls.Pairwise fun earlier later =>
      earlier.span.start = later.span.start ∧ earlier.span.stop < later.span.stop) :
    (∀ s ∈ (state.addStatement source first last kind stage).statements,
      s.Nested tokens ∧ s.span.stop ≤ last.span.stop) ∧
    (state.addStatement source first last kind stage).statements.Pairwise
      fun later earlier => earlier.span.Before later.span := by
  have stop := Span.through_stop ends
  refine ⟨List.forall_mem_cons.mpr ⟨⟨⟨opens.through closes ends, ?_, rising⟩, stop.le⟩, ?_⟩,
    .cons (fun s member => (nested s member).2) ordered⟩
  · intro node member
    obtain ⟨own, starts, within⟩ := nests node member
    exact ⟨own, starts, within.trans stop.ge⟩
  · intro s member
    obtain ⟨own, before⟩ := nested s member
    exact ⟨own, before.trans (opens.1.le.trans ends)⟩

/-- One token further in an expression. -/
theorem State.continueExpression_stands {first last : Token} {mode : Mode} {frames : List Frame}
    (nested : ∀ s ∈ state.statements, s.Nested tokens ∧ s.span.stop ≤ first.span.start)
    (ordered : state.statements.Pairwise fun later earlier => earlier.span.Before later.span)
    (stage : (Stage.inside first last mode frames).Stands tokens high)
    (behind : t.Next tokens high) (forward : t.span.start ≤ t.span.stop)
    (done : state.continueExpression source first last mode frames t = .ok next) :
    next.Stands tokens t.span.stop := by
  obtain ⟨opens, closes, ends, reached, stands⟩ := stage
  have here : t.Next tokens last.span.stop := ⟨reached.trans behind.behind, behind.covers⟩
  unfold continueExpression at done
  split at done
  · cases done
  · rename_i next others stepped
    cases done
    have stands : next.StandsIn tokens _ others _ := Mode.step_stands stands here stepped
    have plain : t.kind ≠ .endOfInput := by
      intro kind
      obtain ⟨e, same, -⟩ := Mode.step_ends (.inr kind) (.inr kind) stepped
      cases same
    exact ⟨nested, ordered, opens, behind.covers plain, ends.trans (here.within plain),
      Nat.le_refl _, stands⟩
  · rename_i e stepped
    obtain ⟨starts, nests, within⟩ := Mode.step_stands stands here stepped
    obtain ⟨nodes, rising⟩ := StatementKind.ofExpr_nested nests
    obtain ⟨nested, ordered⟩ := addStatement_stands nested ordered opens closes ends
      (fun node member => ⟨(nodes node member).1, starts.trans (nodes node member).2.1,
        (nodes node member).2.2.trans within⟩) rising
    exact separate_stands nested ordered here forward done

theorem State.step_stands (stands : state.Stands tokens high) (behind : t.Next tokens high)
    (forward : t.span.start ≤ t.span.stop) (done : state.step source t = .ok next) :
    next.Stands tokens t.span.stop := by
  obtain ⟨statements, stage⟩ := state
  obtain ⟨nested, ordered, held⟩ := stands
  cases stage with
  | between => exact start_stands nested ordered behind forward done
  | behind last => exact separate_stands nested ordered behind forward done
  | inside first last mode frames =>
    exact continueExpression_stands nested ordered held behind forward done
  | shown word =>
    obtain ⟨covers, reached⟩ := held
    simp only [step] at done
    split at done
    · rename_i kind
      cases done
      have name := behind.covers (by simp [kind])
      have ends := reached.trans (behind.within (by simp [kind]))
      obtain ⟨nested, ordered⟩ := @addStatement_stands _ source ⟨statements, .shown word⟩ word t
        (.shell (.ofShow t.text (String.ofList ((word.span.through t.span).slice source))))
        (.behind t) nested ordered covers name ends (List.forall_mem_nil _) .nil
      exact ⟨nested, ordered, trivial⟩
    · have alone : Enclose tokens word.span.start [] word.span.start := Nat.le_refl _
      have stands : (Mode.operand (.identifier word.span word.text)).StandsIn tokens
          word.span.start [] word.span.stop :=
        ⟨_, alone, Row.token ⟨Nat.le_refl _, covers⟩ rfl rfl rfl⟩
      exact continueExpression_stands nested ordered
        ⟨covers, covers, Nat.le_refl _, reached, stands⟩ behind forward done

/-- The tokens of a script, read to the end. -/
theorem State.foldlM_stands {own : List Token} (laid : LaidOut source high own)
    (among : ∀ t ∈ own, t ∈ tokens) (stands : state.Stands tokens high)
    (done : own.foldlM (State.step source) state = .ok next) :
    ∃ high, next.Stands tokens high := by
  induction laid generalizing state with
  | @last offset t gap kind start stop =>
    obtain ⟨last, one, same⟩ := (Outcome.bind_eq_ok _ _ _).mp done
    cases same
    have behind : t.Next tokens offset := ⟨gap.le, fun plain => absurd kind plain⟩
    exact ⟨_, step_stands stands behind (start.trans stop.symm).le one⟩
  | @cons offset t others gap covers _ ih =>
    obtain ⟨middle, one, more⟩ := (Outcome.bind_eq_ok _ _ _).mp done
    have member := among t (.head _)
    have behind : t.Next tokens offset :=
      ⟨gap.le, fun _ => ⟨covers.lt, ⟨t, member, rfl, rfl, rfl⟩, t, member, rfl⟩⟩
    exact ih (fun u later => among u (.tail _ later))
      (step_stands stands behind covers.lt.le one) more

end Step

/-- The spans of an accepted script nest. Every statement covers tokens, from the start of one
through the end of another, and so does every node of it; a node stands inside of the node above it,
the nodes below one stand in order and apart, and the calls of a chain start together and end one
behind the other. The statements stand in order and apart. -/
theorem spans_nest {source : String} {statements : List Statement}
    (done : ofSource source = .ok statements) :
    ∃ list, MongoShell.tokens source = .ok list ∧
      (∀ s ∈ statements, s.Nested list) ∧
      statements.Pairwise fun earlier later => earlier.span.Before later.span := by
  obtain ⟨list, scanned, done⟩ := (ofSource_eq_ok source statements).mp done
  obtain ⟨last, run, rfl⟩ := (Outcome.map_eq_ok _ _ _).mp done
  have initial : State.initial.Stands list 0 := ⟨nofun, .nil, trivial⟩
  obtain ⟨high, stands⟩ :=
    State.foldlM_stands (laidOut_of_scanFrom scanned) (fun _ member => member) initial run
  refine ⟨list, scanned, fun s member => ?_, List.pairwise_reverse.mpr stands.ordered⟩
  exact (stands.nested s (List.mem_reverse.mp member)).1

/-- A collection in parentheses with two calls over two lines, and a construction behind it. The
calls start behind the parenthesis that the statement starts with. -/
theorem calls_behind_parenthesis :
    ∃ s t list, ofSource "(db.a).find(\x7b k: - 1 \x7d)\n.limit((2)); new D([x.y])" = .ok [s, t] ∧
      s.kind.calls.map (·.span) = [⟨1, 23, 1, 2⟩, ⟨1, 35, 1, 2⟩] ∧
      s.Nested list ∧ t.Nested list ∧ s.span.Before t.span := by
  have calls : (ofSource "(db.a).find(\x7b k: - 1 \x7d)\n.limit((2)); new D([x.y])").map
      (List.map fun s => s.kind.calls.map (·.span)) =
      .ok [[⟨1, 23, 1, 2⟩, ⟨1, 35, 1, 2⟩], []] := by cbv
  obtain ⟨statements, read, same⟩ := (Outcome.map_eq_ok _ _ _).mp calls
  obtain ⟨s, others, rfl, first, same⟩ := List.map_eq_cons_iff.mp same
  obtain ⟨t, others, rfl, -, same⟩ := List.map_eq_cons_iff.mp same
  obtain rfl := List.map_eq_nil_iff.mp same
  obtain ⟨list, -, nested, ordered⟩ := spans_nest read
  exact ⟨s, t, list, read, first, nested s (.head _), nested t (.tail _ (.head _)),
    (List.pairwise_cons.mp ordered).1 t (.head _)⟩

end Script

end MongoShell

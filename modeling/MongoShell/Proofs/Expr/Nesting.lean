import Mathlib.Data.Nat.Basic
import Mathlib.Order.Basic
import Mathlib.Tactic.Common
import MongoShell.Expr.Reader
import MongoShell.Proofs.Outcome
import MongoShell.Statement

/-! Where the nodes of a syntax tree stand. Every node covers some of the tokens, from the start of
one through the end of another; what is below a node stands inside of it and in order. The reader
keeps what it has read in rows: the nodes that a frame or a mode holds stand one behind the other,
between where it was opened and where the reading is. A node that is closed takes the row of its
frame with it, so that only what one token does to the innermost row has to be looked at. -/

namespace MongoShell

/-! Nodes and what is below them -/

/-- A node of a syntax tree. -/
inductive Node where
  | expr (e : Expr)
  | property (member : Property)
  | call (method : MethodCall)

namespace Node

def span : Node → Span
  | expr e => e.span
  | property member => member.span
  | call method => method.span

/-- The nodes right below a node, in the order of the source. -/
def children : Node → List Node
  | expr (.object _ properties) => properties.map property
  | expr (.array _ elements) => elements.map expr
  | expr (.member _ target _) => [expr target]
  | expr (.index _ target position) => [expr target, expr position]
  | expr (.call _ callee arguments) => expr callee :: arguments.map expr
  | expr (.construct _ target) => [expr target]
  | expr _ => []
  | property member => [expr member.value]
  | call method => method.arguments.map expr

/-- The expression that an access or a call is applied to. -/
def target? : Node → Option Expr
  | expr (.member _ target _) | expr (.index _ target _) | expr (.call _ target _) => some target
  | _ => none

end Node

namespace Span

/-- A span covers tokens: it is not empty, it starts where a token starts, in the same line and
column, and it stops where a token stops. -/
def Covers (tokens : List Token) (span : Span) : Prop :=
  span.start < span.stop ∧
    (∃ first ∈ tokens, span.start = first.span.start ∧ span.line = first.span.line ∧
      span.column = first.span.column) ∧
    ∃ last ∈ tokens, span.stop = last.span.stop

/-- No part of the span is outside of the other. -/
def Inside (span outer : Span) : Prop := outer.start ≤ span.start ∧ span.stop ≤ outer.stop

/-- The span ends before the other starts. -/
def Before (span other : Span) : Prop := span.stop ≤ other.start

end Span

/-- A node covers tokens, and what is right below it stands inside of it, in order and apart. What
an access or a call is applied to starts with it and ends earlier. -/
structure Node.Placed (tokens : List Token) (node : Node) : Prop where
  covers : node.span.Covers tokens
  inside : ∀ child ∈ node.children, child.span.Inside node.span
  ordered : node.children.Pairwise fun earlier later => earlier.span.Before later.span
  leads : ∀ target, node.target? = some target →
    target.span.start = node.span.start ∧ target.span.stop < node.span.stop

/-- A node is well placed, and so is all that is below it. -/
inductive Node.Nests (tokens : List Token) : Node → Prop
  | intro {node : Node} (placed : node.Placed tokens)
      (below : ∀ child ∈ node.children, child.Nests tokens) : node.Nests tokens

variable {tokens : List Token}

theorem Node.Nests.placed {node : Node} (nests : node.Nests tokens) : node.Placed tokens := by
  cases nests with
  | intro placed _ => exact placed

theorem Node.Nests.child {node child : Node} (nests : node.Nests tokens)
    (member : child ∈ node.children) : child.Nests tokens := by
  cases nests with
  | intro _ below => exact below child member

theorem Node.Nests.lt {node : Node} (nests : node.Nests tokens) :
    node.span.start < node.span.stop := nests.placed.covers.1

/-- The span from one through another that ends later ends with that one. -/
theorem Span.through_stop {first last : Span} (ordered : first.stop ≤ last.stop) :
    (first.through last).stop = last.stop := Nat.max_eq_left ordered

theorem Span.Covers.through {first last : Span} (covers : first.Covers tokens)
    (others : last.Covers tokens) (ordered : first.stop ≤ last.stop) :
    (first.through last).Covers tokens := by
  obtain ⟨nonempty, begins, -⟩ := covers
  obtain ⟨-, -, ends⟩ := others
  have stop := through_stop ordered
  refine ⟨?_, begins, ?_⟩
  · rw [stop]
    exact nonempty.trans_le ordered
  · rw [stop]
    exact ends

/-! Rows of nodes -/

/-- Nodes that stand one behind the other between two offsets, the latest first. -/
def Row (tokens : List Token) (low : Nat) : List Node → Nat → Prop
  | [], high => low ≤ high
  | node :: earlier, high =>
    Row tokens low earlier node.span.start ∧ node.Nests tokens ∧ node.span.stop ≤ high

namespace Row

variable {low high : Nat} {nodes : List Node}

theorem le (row : Row tokens low nodes high) : low ≤ high := by
  induction nodes generalizing high with
  | nil => exact row
  | cons node earlier ih =>
    obtain ⟨row, nests, last⟩ := row
    exact (ih row).trans (nests.lt.le.trans last)

theorem widen {further : Nat} (row : Row tokens low nodes high) (behind : high ≤ further) :
    Row tokens low nodes further := by
  cases nodes with
  | nil => exact Nat.le_trans row behind
  | cons node earlier =>
    obtain ⟨row, nests, last⟩ := row
    exact ⟨row, nests, last.trans behind⟩

theorem inside (row : Row tokens low nodes high) :
    ∀ node ∈ nodes, node.Nests tokens ∧ low ≤ node.span.start ∧ node.span.stop ≤ high := by
  induction nodes generalizing high with
  | nil => exact nofun
  | cons node earlier ih =>
    obtain ⟨row, nests, last⟩ := row
    refine List.forall_mem_cons.mpr ⟨⟨nests, row.le, last⟩, fun other member => ?_⟩
    obtain ⟨own, first, ends⟩ := ih row other member
    exact ⟨own, first, ends.trans (nests.lt.le.trans last)⟩

theorem ordered (row : Row tokens low nodes high) :
    nodes.reverse.Pairwise fun earlier later => earlier.span.Before later.span := by
  rw [List.pairwise_reverse]
  induction nodes generalizing high with
  | nil => exact .nil
  | cons node earlier ih =>
    obtain ⟨row, -, -⟩ := row
    exact .cons (fun other member => (row.inside other member).2.2) (ih row)

/-- A node around a row of others. -/
theorem nests {node : Node} (row : Row tokens low node.children.reverse high)
    (covers : node.span.Covers tokens) (first : node.span.start ≤ low)
    (last : high ≤ node.span.stop)
    (leads : ∀ target, node.target? = some target →
      target.span.start = node.span.start ∧ target.span.stop < node.span.stop) :
    node.Nests tokens := by
  have all (child : Node) (member : child ∈ node.children) :=
    row.inside child (List.mem_reverse.mpr member)
  have ordered := row.ordered
  rw [List.reverse_reverse] at ordered
  refine .intro ⟨covers, fun child member => ?_, ordered, leads⟩ fun child member =>
    (all child member).1
  obtain ⟨-, starts, ends⟩ := all child member
  exact ⟨first.trans starts, ends.trans last⟩

/-- The first node of a row is as far as the row goes back. -/
theorem tighten {others : List Node} {first : Node}
    (row : Row tokens low (others ++ [first]) high) :
    Row tokens first.span.start (others ++ [first]) high := by
  induction others generalizing high with
  | nil =>
    obtain ⟨-, nests, last⟩ := row
    exact ⟨Nat.le_refl _, nests, last⟩
  | cons node others ih =>
    obtain ⟨row, nests, last⟩ := row
    exact ⟨ih row, nests, last⟩

/-- A node behind a row. -/
theorem push {middle : Nat} {node : Node} (row : Row tokens low nodes middle)
    (last : Row tokens middle [node] high) : Row tokens low (node :: nodes) high := by
  obtain ⟨behind, nests, ends⟩ := last
  exact ⟨row.widen behind, nests, ends⟩

end Row

/-! A node that closes -/

/-- The span covers tokens, and none that starts before an offset. -/
def Span.Follows (tokens : List Token) (low : Nat) (span : Span) : Prop :=
  low ≤ span.start ∧ span.Covers tokens

/-- A node that goes from one span through another, around a row. -/
theorem Row.close {low middle high : Nat} {first last : Span} {node : Node}
    (row : Row tokens middle node.children.reverse high) (follows : first.Follows tokens low)
    (covers : last.Covers tokens) (same : node.span = first.through last)
    (begins : first.start ≤ middle) (within : high ≤ last.stop) (ends : first.stop ≤ last.stop)
    (leads : ∀ target, node.target? = some target →
      target.span.start = first.start ∧ target.span.stop < last.stop) :
    Row tokens low [node] last.stop := by
  have start : node.span.start = first.start := by rw [same]; rfl
  have stop : node.span.stop = last.stop := by rw [same, Span.through_stop ends]
  have whole : node.span.Covers tokens := by
    rw [same]
    exact follows.2.through covers ends
  refine ⟨?_, row.nests whole ?_ ?_ ?_, stop.le⟩
  · rw [start]
    exact follows.1
  · rw [start]
    exact begins
  · rw [stop]
    exact within
  · rw [start, stop]
    exact leads

/-- A node that opens with a mark. -/
theorem Row.closeMark {low high : Nat} {first last : Span} {node : Node}
    (row : Row tokens first.stop node.children.reverse high) (follows : first.Follows tokens low)
    (covers : last.Covers tokens) (within : high ≤ last.stop)
    (same : node.span = first.through last) (none : node.target? = none) :
    Row tokens low [node] last.stop :=
  row.close follows covers same follows.2.1.le within (row.le.trans within) (by simp [none])

/-! What a reading holds -/

/-- What a frame holds stands in order between two offsets. -/
def Frame.Stands (tokens : List Token) (low high : Nat) : Frame → Prop
  | .group => low ≤ high
  | .array opening elements =>
    opening.Follows tokens low ∧ Row tokens opening.stop (elements.map .expr) high
  | .property opening earlier _ keySpan =>
    opening.Follows tokens low ∧ Row tokens opening.stop (earlier.map .property) keySpan.start ∧
      keySpan.Covers tokens ∧ keySpan.stop ≤ high
  | .index target => Row tokens low [.expr target] high
  | .arguments none callee values =>
    Row tokens low (values.map .expr ++ [.expr callee]) high
  | .arguments (some word) callee values =>
    word.Follows tokens low ∧ Row tokens word.stop (values.map .expr ++ [.expr callee]) high

/-- What a mode holds stands in order between two offsets. -/
def Mode.Stands (tokens : List Token) (low high : Nat) : Mode → Prop
  | value | item => low ≤ high
  | signed sign => sign.span.Follows tokens low ∧ sign.span.stop ≤ high
  | operand e | complete e | member e => Row tokens low [.expr e] high
  | keyword word => word.Follows tokens low ∧ word.stop ≤ high
  | constructor word name =>
    word.Follows tokens low ∧ name.span.Follows tokens word.stop ∧ name.span.stop ≤ high
  | key opening earlier =>
    opening.Follows tokens low ∧ Row tokens opening.stop (earlier.map .property) high
  | colon opening earlier name keySpan =>
    (Frame.property opening earlier name keySpan).Stands tokens low high

/-- Frames stand one inside the other, from an offset on. -/
def Enclose (tokens : List Token) (base : Nat) : List Frame → Nat → Prop
  | [], high => base ≤ high
  | frame :: frames, high => ∃ low, Enclose tokens base frames low ∧ frame.Stands tokens low high

/-- What a mode holds stands behind what encloses it. -/
def Mode.StandsIn (tokens : List Token) (base : Nat) (frames : List Frame) (high : Nat)
    (mode : Mode) : Prop :=
  ∃ low, Enclose tokens base frames low ∧ mode.Stands tokens low high

/-- What a reading has come to holds nothing that is out of place: up to the last token if the
reading goes on, and up to the token before it if an expression ended there. -/
def Progress.Stands (tokens : List Token) (base high stop : Nat) : Progress → Prop
  | .reading mode frames => mode.StandsIn tokens base frames stop
  | .finished e => Row tokens base [.expr e] high

/-- A token that is next behind an offset. -/
structure Token.Next (tokens : List Token) (high : Nat) (t : Token) : Prop where
  behind : high ≤ t.span.start
  covers : t.kind ≠ .endOfInput → t.span.Covers tokens

/-! One token further -/

section Step

variable {base high : Nat} {t : Token}

theorem Token.Next.follows (next : t.Next tokens high) (kind : t.kind ≠ .endOfInput) :
    t.span.Follows tokens high := ⟨next.behind, next.covers kind⟩

theorem Token.Next.within (next : t.Next tokens high) (kind : t.kind ≠ .endOfInput) :
    high ≤ t.span.stop := next.behind.trans (next.covers kind).1.le

theorem Enclose.widen {frames : List Frame} {further : Nat}
    (enclose : Enclose tokens base frames high) (behind : high ≤ further) :
    Enclose tokens base frames further := by
  cases frames with
  | nil => exact Nat.le_trans enclose behind
  | cons frame frames =>
    obtain ⟨low, enclose, stands⟩ := enclose
    refine ⟨low, enclose, ?_⟩
    match frame with
    | .group => exact Nat.le_trans stands behind
    | .array _ _ => exact ⟨stands.1, stands.2.widen behind⟩
    | .property _ _ _ _ => exact ⟨stands.1, stands.2.1, stands.2.2.1, stands.2.2.2.trans behind⟩
    | .index _ => exact Row.widen stands behind
    | .arguments none _ _ => exact Row.widen stands behind
    | .arguments (some _) _ _ => exact ⟨stands.1, stands.2.widen behind⟩

/-- A value that is one token. -/
theorem Row.token {e : Expr} (follows : t.span.Follows tokens high) (same : e.span = t.span)
    (leaf : (Node.expr e).children = []) (none : (Node.expr e).target? = none) :
    Row tokens high [.expr e] t.span.stop := by
  have covers : (Node.expr e).span.Covers tokens := by
    rw [Node.span, same]
    exact follows.2
  have nests : (Node.expr e).Nests tokens := by
    refine .intro ⟨covers, ?_, ?_, ?_⟩ ?_
    · simp [leaf]
    · simp [leaf]
    · simp [none]
    · simp [leaf]
  refine ⟨?_, nests, ?_⟩
  · change high ≤ e.span.start
    rw [same]
    exact follows.1
  · change e.span.stop ≤ _
    rw [same]

theorem Mode.wordValue_leaf (span : Span) (name : String) :
    (wordValue span name).span = span ∧ (Node.expr (wordValue span name)).children = [] ∧
      (Node.expr (wordValue span name)).target? = none := by
  unfold wordValue
  split
  · exact ⟨rfl, rfl, rfl⟩
  split
  · exact ⟨rfl, rfl, rfl⟩
  split <;> exact ⟨rfl, rfl, rfl⟩

theorem Mode.start_stands {frames others : List Frame} {mode : Mode}
    (enclose : Enclose tokens base frames high) (next : t.Next tokens high)
    (started : start frames t = .ok (mode, others)) :
    mode.StandsIn tokens base others t.span.stop := by
  unfold start at started
  split at started
  · rename_i sign
    cases started
    have follows := next.follows (by rcases sign with kind | kind <;> simp [kind])
    exact ⟨high, enclose, follows, Nat.le_refl _⟩
  unfold startPrimary at started
  split at started
  · rename_i kind
    have follows := next.follows (by simp [kind])
    split at started
    · cases started
      exact ⟨high, enclose, follows, Nat.le_refl _⟩
    · cases started
      obtain ⟨same, leaf, none⟩ := wordValue_leaf t.span t.text
      exact ⟨high, enclose, Row.token follows same leaf none⟩
  · rename_i kind
    obtain ⟨text, -, same⟩ := (Outcome.map_eq_ok _ _ _).mp started
    cases same
    exact ⟨high, enclose, Row.token (next.follows (by simp [kind])) rfl rfl rfl⟩
  · rename_i kind
    cases started
    exact ⟨high, enclose, Row.token (next.follows (by simp [kind])) rfl rfl rfl⟩
  · rename_i kind
    cases started
    exact ⟨high, enclose, Row.token (next.follows (by simp [kind])) rfl rfl rfl⟩
  · rename_i kind
    cases started
    exact ⟨high, enclose, next.follows (by simp [kind]), Nat.le_refl _⟩
  · rename_i kind
    cases started
    have follows := next.follows (by simp [kind])
    exact ⟨t.span.stop, ⟨high, enclose, follows, Nat.le_refl _⟩, Nat.le_refl _⟩
  · rename_i kind
    cases started
    exact ⟨t.span.stop, ⟨high, enclose, next.within (by simp [kind])⟩, Nat.le_refl _⟩
  · cases started

/-- A node that opens with what it is applied to and ends with this token. -/
theorem Row.closeTarget {low : Nat} {target : Expr} {others : List Node} {node : Node}
    (row : Row tokens low (others ++ [.expr target]) high) (next : t.Next tokens high)
    (kind : t.kind ≠ .endOfInput) (same : node.span = target.span.through t.span)
    (below : node.children.reverse = others ++ [.expr target])
    (applied : ∀ other, node.target? = some other → other = target) :
    Row tokens low [node] t.span.stop := by
  obtain ⟨nests, first, last⟩ := row.inside (.expr target) (by simp)
  have tight := row.tighten
  rw [← below] at tight
  have within := next.within kind
  refine tight.close ⟨first, nests.placed.covers⟩ (next.covers kind) same (Nat.le_refl _) within
    (last.trans within) ?_
  intro other found
  rw [applied other found]
  exact ⟨rfl, last.trans_lt (next.behind.trans_lt (next.covers kind).1)⟩

theorem Mode.closeArray_stands {low : Nat} {opening : Span} {elements : List Expr}
    (follows : opening.Follows tokens low)
    (row : Row tokens opening.stop (elements.map .expr) high) (next : t.Next tokens high)
    (kind : t.kind ≠ .endOfInput) :
    Row tokens low [.expr (closeArray opening elements t.span)] t.span.stop := by
  refine Row.closeMark ?_ follows (next.covers kind) (next.within kind) rfl rfl
  simpa [closeArray, Node.children, ← List.map_reverse] using row

theorem Mode.closeObject_stands {low : Nat} {opening : Span} {properties : List Property}
    (follows : opening.Follows tokens low)
    (row : Row tokens opening.stop (properties.map .property) high) (next : t.Next tokens high)
    (kind : t.kind ≠ .endOfInput) :
    Row tokens low [.expr (closeObject opening properties t.span)] t.span.stop := by
  refine Row.closeMark ?_ follows (next.covers kind) (next.within kind) rfl rfl
  simpa [closeObject, Node.children, ← List.map_reverse] using row

theorem Mode.closeCall_stands {low : Nat} {word : Option Span} {callee : Expr}
    {values : List Expr} (stands : (Frame.arguments word callee values).Stands tokens low high)
    (next : t.Next tokens high) (kind : t.kind ≠ .endOfInput) :
    Row tokens low [.expr (closeCall word callee values t.span)] t.span.stop := by
  have call {low : Nat} (row : Row tokens low (values.map .expr ++ [.expr callee]) high) :
      Row tokens low [.expr (.call (callee.span.through t.span) callee values.reverse)]
        t.span.stop := by
    refine row.closeTarget next kind rfl ?_ ?_
    · simp [Node.children, ← List.map_reverse]
    · rintro other ⟨⟩
      rfl
  cases word with
  | none => exact call stands
  | some word =>
    obtain ⟨follows, row⟩ := stands
    obtain ⟨behind, nests, ends⟩ := call row
    -- the construction ends with the call in it, and so with this token
    have inner : Row tokens word.stop
        [.expr (.call (callee.span.through t.span) callee values.reverse)] _ :=
      ⟨behind, nests, Nat.le_refl _⟩
    exact (Row.closeMark inner follows nests.placed.covers (Nat.le_refl _) rfl rfl).widen ends

theorem Mode.startItem_stands {frames others : List Frame} {mode : Mode}
    (enclose : Enclose tokens base frames high) (next : t.Next tokens high)
    (started : startItem frames t = .ok (mode, others)) :
    mode.StandsIn tokens base others t.span.stop := by
  unfold startItem at started
  split at started
  · rename_i kind
    obtain ⟨low, enclose, follows, row⟩ := enclose
    cases started
    exact ⟨low, enclose, closeArray_stands follows row next (by simp [kind])⟩
  · rename_i kind
    obtain ⟨low, enclose, stands⟩ := enclose
    cases started
    exact ⟨low, enclose, closeCall_stands stands next (by simp [kind])⟩
  · exact start_stands enclose next started

theorem Mode.startProperty_stands {low : Nat} {opening : Span} {earlier : List Property}
    {mode : Mode} (stands : (Mode.key opening earlier).Stands tokens low high)
    (next : t.Next tokens high) (started : startProperty opening earlier t = .ok mode) :
    mode.Stands tokens low t.span.stop := by
  obtain ⟨follows, row⟩ := stands
  have colon (kind : t.kind ≠ .endOfInput) (name : String) :
      (Mode.colon opening earlier name t.span).Stands tokens low t.span.stop :=
    ⟨follows, row.widen next.behind, next.covers kind, Nat.le_refl _⟩
  unfold startProperty at started
  split at started
  · rename_i kind
    cases started
    exact closeObject_stands follows row next (by simp [kind])
  · rename_i kind
    cases started
    exact colon (by simp [kind]) _
  · rename_i kind
    cases started
    exact colon (by simp [kind]) _
  · rename_i kind
    obtain ⟨text, -, same⟩ := (Outcome.map_eq_ok _ _ _).mp started
    cases same
    exact colon (by simp [kind]) _
  · cases started

/-- A property that is read through its value joins those before it. -/
theorem Frame.property_stands {low middle : Nat} {opening keySpan : Span}
    {earlier : List Property} {name : String} {e : Expr}
    (stands : (Frame.property opening earlier name keySpan).Stands tokens low middle)
    (row : Row tokens middle [.expr e] high) :
    opening.Follows tokens low ∧ Row tokens opening.stop
      ((Property.mk name (keySpan.through e.span) e :: earlier).map .property) high := by
  obtain ⟨follows, before, covers, ends⟩ := stands
  obtain ⟨behind, nests, last⟩ := row
  have value : Row tokens keySpan.stop [.expr e] e.span.stop :=
    ⟨ends.trans behind, nests, Nat.le_refl _⟩
  have member : Row tokens keySpan.start [.property (.mk name (keySpan.through e.span) e)]
      e.span.stop :=
    Row.closeMark value ⟨Nat.le_refl _, covers⟩ nests.placed.covers (Nat.le_refl _) rfl rfl
  exact ⟨follows, (before.push member).widen last⟩

theorem Mode.deliver_stands {low : Nat} {frames : List Frame} {e : Expr} {progress : Progress}
    (enclose : Enclose tokens base frames low) (row : Row tokens low [.expr e] high)
    (next : t.Next tokens high) (done : deliver frames e t = .ok progress) :
    progress.Stands tokens base high t.span.stop := by
  cases frames with
  | nil =>
    cases done
    exact ⟨Nat.le_trans enclose row.1, row.2⟩
  | cons frame frames =>
    obtain ⟨lower, enclose, stands⟩ := enclose
    cases frame with
    | group =>
      simp only [deliver] at done
      split at done
      · rename_i kind
        cases done
        have inside := next.within (by simp [kind])
        exact ⟨low, enclose.widen stands, row.widen inside⟩
      · cases done
    | index target =>
      simp only [deliver] at done
      split at done
      · rename_i kind
        cases done
        have both : Row tokens lower ([.expr e] ++ [.expr target]) high := Row.push stands row
        refine ⟨lower, enclose, both.closeTarget next (by simp [kind]) rfl rfl ?_⟩
        rintro other ⟨⟩
        rfl
      · cases done
    | array opening elements =>
      obtain ⟨follows, before⟩ := stands
      have all : Row tokens opening.stop ((e :: elements).map .expr) high := before.push row
      simp only [deliver] at done
      split at done
      · rename_i kind
        cases done
        have inside := next.within (by simp [kind])
        exact ⟨high, ⟨lower, enclose, follows, all⟩, inside⟩
      split at done
      · rename_i kind
        cases done
        exact ⟨lower, enclose, closeArray_stands follows all next (by simp [kind])⟩
      · cases done
    | arguments word callee values =>
      have all : (Frame.arguments word callee (e :: values)).Stands tokens lower high := by
        cases word with
        | none => exact Row.push stands row
        | some word => exact ⟨stands.1, Row.push stands.2 row⟩
      simp only [deliver] at done
      split at done
      · rename_i kind
        cases done
        have inside := next.within (by simp [kind])
        exact ⟨high, ⟨lower, enclose, all⟩, inside⟩
      split at done
      · rename_i kind
        cases done
        exact ⟨lower, enclose, closeCall_stands all next (by simp [kind])⟩
      · cases done
    | property opening earlier name keySpan =>
      obtain ⟨follows, all⟩ := Frame.property_stands stands row
      simp only [deliver] at done
      split at done
      · rename_i kind
        cases done
        have inside := next.within (by simp [kind])
        exact ⟨lower, enclose, follows, all.widen inside⟩
      split at done
      · rename_i kind
        cases done
        exact ⟨lower, enclose, closeObject_stands follows all next (by simp [kind])⟩
      · cases done

theorem Mode.afterOperand_stands {low : Nat} {frames : List Frame} {e : Expr}
    {progress : Progress} (enclose : Enclose tokens base frames low)
    (row : Row tokens low [.expr e] high) (next : t.Next tokens high)
    (done : afterOperand frames e t = .ok progress) :
    progress.Stands tokens base high t.span.stop := by
  unfold afterOperand at done
  split at done
  · rename_i kind
    cases done
    exact ⟨low, enclose, row.widen (next.within (by simp [kind]))⟩
  · rename_i kind
    cases done
    exact ⟨high, ⟨low, enclose, row⟩, next.within (by simp [kind])⟩
  · rename_i kind
    cases done
    exact ⟨high, ⟨low, enclose, row⟩, next.within (by simp [kind])⟩
  · exact deliver_stands enclose row next done

/-- One token further, what is held still stands in order. -/
theorem Mode.step_stands {mode : Mode} {frames : List Frame} {progress : Progress}
    (stands : mode.StandsIn tokens base frames high) (next : t.Next tokens high)
    (done : mode.step frames t = .ok progress) :
    progress.Stands tokens base high t.span.stop := by
  obtain ⟨low, enclose, stands⟩ := stands
  cases mode with
  | value =>
    obtain ⟨⟨mode, others⟩, started, rfl⟩ := (Outcome.map_eq_ok _ _ _).mp done
    exact start_stands (enclose.widen stands) next started
  | item =>
    obtain ⟨⟨mode, others⟩, started, rfl⟩ := (Outcome.map_eq_ok _ _ _).mp done
    exact startItem_stands (enclose.widen stands) next started
  | signed sign =>
    obtain ⟨follows, ends⟩ := stands
    simp only [step] at done
    split at done
    · rename_i kind
      cases done
      have plain : t.kind ≠ .endOfInput := by rcases kind with kind | ⟨kind, -⟩ <;> simp [kind]
      have empty : Row tokens sign.span.stop [] high := ends
      exact ⟨low, enclose,
        Row.closeMark empty follows (next.covers plain) (next.within plain) rfl rfl⟩
    · cases done
  | operand e => exact afterOperand_stands enclose stands next done
  | complete e => exact deliver_stands enclose stands next done
  | member target =>
    simp only [step] at done
    split at done
    · rename_i kind
      cases done
      have alone : Row tokens low ([] ++ [.expr target]) high := stands
      refine ⟨low, enclose, alone.closeTarget next (by simp [kind]) rfl rfl ?_⟩
      rintro other ⟨⟩
      rfl
    · cases done
  | keyword word =>
    obtain ⟨follows, ends⟩ := stands
    simp only [step] at done
    split at done
    · rename_i kind
      cases done
      have name := next.follows (by simp [kind])
      exact ⟨low, enclose, follows, ⟨ends.trans name.1, name.2⟩, Nat.le_refl _⟩
    · cases done
  | constructor word name =>
    obtain ⟨follows, nameFollows, ends⟩ := stands
    have target : Row tokens word.stop [.expr (.identifier name.span name.text)] name.span.stop :=
      Row.token nameFollows rfl rfl rfl
    simp only [step] at done
    split at done
    · rename_i kind
      cases done
      have inside := next.within (by simp [kind])
      exact ⟨high, ⟨low, enclose, follows, target.widen ends⟩, inside⟩
    · have whole : Row tokens low
          [.expr (.construct (word.through name.span) (.identifier name.span name.text))]
          name.span.stop :=
        Row.closeMark target follows nameFollows.2 (Nat.le_refl _) rfl rfl
      exact afterOperand_stands enclose (whole.widen ends) next done
  | key opening earlier =>
    obtain ⟨mode, started, rfl⟩ := (Outcome.map_eq_ok _ _ _).mp done
    exact ⟨low, enclose, startProperty_stands stands next started⟩
  | colon opening earlier name keySpan =>
    simp only [step] at done
    split at done
    · rename_i kind
      cases done
      have inside := next.within (by simp [kind])
      exact ⟨high, ⟨low, enclose, stands⟩, inside⟩
    · cases done

end Step

end MongoShell

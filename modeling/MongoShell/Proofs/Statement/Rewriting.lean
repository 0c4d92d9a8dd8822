import Mathlib.Tactic.Common
import MongoShell.Statement

/-! Rewriting the expressions of a statement. What statement some accesses make depends on their
names and on the string literals among them, so it commutes with any rewriting of the other
expressions and of places. -/

namespace MongoShell

/-- The access with its expressions and places rewritten. -/
def Access.rewrite (f : Expr → Expr) (move : Span → Span) : Access → Access
  | member name => member name
  | index position => index (f position)
  | call arguments span => call (arguments.map f) (move span)

def MethodCall.rewrite (f : Expr → Expr) (move : Span → Span) (call : MethodCall) : MethodCall :=
  ⟨call.name, call.arguments.map f, move call.span⟩

def CollectionChain.rewrite (f : Expr → Expr) (move : Span → Span) (chain : CollectionChain) :
    CollectionChain :=
  ⟨chain.collection, chain.first.rewrite f move, chain.chained.map (MethodCall.rewrite f move)⟩

def DatabaseStatement.rewrite (f : Expr → Expr) (move : Span → Span) :
    DatabaseStatement → DatabaseStatement
  | command handled call => command handled (call.rewrite f move)
  | method call => method (call.rewrite f move)
  | collection chain => collection (chain.rewrite f move)

variable {f : Expr → Expr} {move : Span → Span}

theorem Access.calls?_rewrite :
    (accesses : List Access) → Access.calls? (accesses.map (Access.rewrite f move)) =
      (Access.calls? accesses).map (List.map (MethodCall.rewrite f move))
  | [] => rfl
  | .member name :: .call arguments span :: rest => by
    have behind := calls?_rewrite rest
    simp only [List.map_cons, rewrite, calls?, behind, Option.map_map]
    rfl
  | [.member _] => rfl
  | .member _ :: .member _ :: _ => rfl
  | .member _ :: .index _ :: _ => rfl
  | .index _ :: _ => rfl
  | .call .. :: _ => rfl

theorem Access.splitNames_member (name other : String) (rest : List Access) :
    Access.splitNames (.member name :: .member other :: rest) =
      (name :: (Access.splitNames (.member other :: rest)).1,
        (Access.splitNames (.member other :: rest)).2) := rfl

theorem Access.splitNames_rewrite :
    (accesses : List Access) → Access.splitNames (accesses.map (Access.rewrite f move)) =
      ((Access.splitNames accesses).1,
        (Access.splitNames accesses).2.map (Access.rewrite f move))
  | [] => rfl
  | [.member _] => rfl
  | .member _ :: .call .. :: _ => rfl
  | .member name :: .member other :: rest => by
    have behind := splitNames_rewrite (.member other :: rest)
    simp only [List.map_cons, rewrite] at behind ⊢
    rw [splitNames_member, splitNames_member, behind]
  | .member _ :: .index _ :: _ => rfl
  | .index _ :: _ => rfl
  | .call .. :: _ => rfl

theorem CollectionChain.ofAccesses?_rewrite (collection : CollectionAddress)
    (accesses : List Access) :
    CollectionChain.ofAccesses? collection (accesses.map (Access.rewrite f move)) =
      (CollectionChain.ofAccesses? collection accesses).map (CollectionChain.rewrite f move) := by
  rw [CollectionChain.ofAccesses?, Access.calls?_rewrite, CollectionChain.ofAccesses?]
  match Access.calls? accesses with
  | none => rfl
  | some [] => rfl
  | some (first :: chained) => rfl

/-- A path of names, and the calls on the collection that it names. -/
theorem DatabaseStatement.ofAccesses?_path (name : String) {rest : List Access}
    (noCall : ∀ arguments span tail, rest ≠ .call arguments span :: tail) :
    DatabaseStatement.ofAccesses? (.member name :: rest) =
      (CollectionChain.ofAccesses?
        (.member (".".intercalate (Access.splitNames (.member name :: rest)).1))
        (Access.splitNames (.member name :: rest)).2).map collection := by
  match rest with
  | [] => rfl
  | .member _ :: _ => rfl
  | .index _ :: _ => rfl
  | .call arguments span :: tail => exact absurd rfl (noCall arguments span tail)

/-! String literals name collections -/

theorem CollectionAddress.ofBracket_eq (position : Expr) :
    ofBracket position = position.string?.elim unsupported bracket := by
  cases position <;> rfl

theorem CollectionAddress.ofAccessor_eq (argument : Expr) :
    ofAccessor [argument] = argument.string?.elim unsupported accessor := by
  cases argument <;> rfl

section

variable (text : ∀ e, (f e).string? = e.string?)

include text

theorem CollectionAddress.ofAccessor_map (arguments : List Expr) :
    CollectionAddress.ofAccessor (arguments.map f) = CollectionAddress.ofAccessor arguments := by
  match arguments with
  | [] => rfl
  | [e] => rw [List.map_singleton, ofAccessor_eq, text, ofAccessor_eq]
  | e :: d :: _ =>
    have several (e d : Expr) (rest : List Expr) : ofAccessor (e :: d :: rest) = unsupported := by
      cases e <;> rfl
    rw [List.map_cons, List.map_cons, several, several]

theorem DatabaseStatement.ofAccesses?_rewrite (accesses : List Access) :
    DatabaseStatement.ofAccesses? (accesses.map (Access.rewrite f move)) =
      (DatabaseStatement.ofAccesses? accesses).map (DatabaseStatement.rewrite f move) := by
  have path (name : String) {rest : List Access}
      (noCall : ∀ arguments span tail, rest ≠ .call arguments span :: tail) :
      DatabaseStatement.ofAccesses? ((Access.member name :: rest).map (Access.rewrite f move)) =
        (DatabaseStatement.ofAccesses? (.member name :: rest)).map (rewrite f move) := by
    have noCall' : ∀ arguments span tail,
        rest.map (Access.rewrite f move) ≠ .call arguments span :: tail := by
      intro arguments span tail same
      obtain ⟨access, others, rfl, first, -⟩ := List.map_eq_cons_iff.mp same
      cases access with
      | call given place => exact noCall given place others rfl
      | member _ => cases first
      | index _ => cases first
    have split := @Access.splitNames_rewrite f move (.member name :: rest)
    rw [List.map_cons, Access.rewrite] at split ⊢
    rw [ofAccesses?_path name noCall', ofAccesses?_path name noCall, split,
      CollectionChain.ofAccesses?_rewrite, Option.map_map, Option.map_map]
    rfl
  match accesses with
  | [] => rfl
  | .call .. :: _ => rfl
  | .index position :: rest =>
    simp only [List.map_cons, Access.rewrite, ofAccesses?, CollectionAddress.ofBracket_eq, text,
      CollectionChain.ofAccesses?_rewrite, Option.map_map]
    rfl
  | [.member name] => exact path name (by simp)
  | .member name :: .member _ :: _ => exact path name (by simp)
  | .member name :: .index _ :: _ => exact path name (by simp)
  | .member name :: .call arguments span :: rest =>
    simp only [List.map_cons, Access.rewrite, ofAccesses?, CollectionAddress.ofAccessor_map text,
      CollectionChain.ofAccesses?_rewrite, List.map_eq_nil_iff, ne_eq]
    split
    · rw [Option.map_map, Option.map_map]
      rfl
    · cases DatabaseCommand.ofName? name <;> cases rest <;> rfl

end

end MongoShell

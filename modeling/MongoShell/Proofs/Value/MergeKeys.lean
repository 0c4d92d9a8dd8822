import Mathlib.Data.List.Basic
import Mathlib.Tactic.Common
import MongoShell.Value

/-! Documents before and after their keys are merged. Options are looked up in a document as it was
written, where the last entry under a key counts; a server sees the document with each key once.
Both find the same under every key, at every depth. -/

namespace MongoShell

/-- Each key of a list once, in the order in which the keys first occur there. -/
structure FirstOccurrences (all keys : List String) : Prop where
  mem_iff : ∀ key, key ∈ keys ↔ key ∈ all
  ordered : keys.Pairwise fun a b => all.idxOf a < all.idxOf b

namespace FirstOccurrences

variable {all keys : List String} {key : String}

theorem nil : FirstOccurrences [] [] := ⟨fun _ => .rfl, .nil⟩

/-- The keys that are there keep their order when one more occurs. -/
theorem ordered_append (first : FirstOccurrences all keys) (key : String) :
    keys.Pairwise fun a b => (all ++ [key]).idxOf a < (all ++ [key]).idxOf b := by
  refine first.ordered.imp_of_mem fun {a b} left right earlier => ?_
  rw [List.idxOf_append_of_mem ((first.mem_iff a).mp left),
    List.idxOf_append_of_mem ((first.mem_iff b).mp right)]
  exact earlier

theorem again (first : FirstOccurrences all keys) (known : key ∈ keys) :
    FirstOccurrences (all ++ [key]) keys := by
  refine ⟨fun other => ?_, first.ordered_append key⟩
  have occurs := (first.mem_iff key).mp known
  rw [List.mem_append, List.mem_singleton, first.mem_iff]
  constructor
  · exact .inl
  · rintro (earlier | rfl)
    · exact earlier
    · exact occurs

theorem fresh (first : FirstOccurrences all keys) (unknown : key ∉ keys) :
    FirstOccurrences (all ++ [key]) (keys ++ [key]) := by
  have absent : key ∉ all := fun occurs => unknown ((first.mem_iff key).mpr occurs)
  refine ⟨fun other => ?_, List.pairwise_append.mpr
    ⟨first.ordered_append key, List.pairwise_singleton _ _, ?_⟩⟩
  · rw [List.mem_append, List.mem_append, first.mem_iff]
  · intro a left b last
    rw [List.mem_singleton.mp last, List.idxOf_append_of_mem ((first.mem_iff a).mp left),
      List.idxOf_append_of_notMem absent, List.idxOf_cons_self, Nat.add_zero]
    exact List.idxOf_lt_length_of_mem ((first.mem_iff a).mp left)

end FirstOccurrences

namespace Document

theorem keys_put (key : String) (value : Value) (document : Document) :
    (put key value document).keys =
      if key ∈ document.keys then document.keys else document.keys ++ [key] := by
  induction document with
  | nil => rfl
  | cons entry rest ih =>
    obtain ⟨other, old⟩ := entry
    by_cases same : other = key
    · simp [put, keys, same]
    · have apart : ¬key = other := fun eq => same eq.symm
      have behind : keys ((other, old) :: rest) = other :: keys rest := rfl
      have behindPut : keys ((other, old) :: put key value rest) =
          other :: keys (put key value rest) := rfl
      rw [put, if_neg same, behindPut, ih, behind]
      simp only [List.mem_cons, apart, false_or]
      split <;> rfl

theorem lookup_cons (key other : String) (value : Value) (rest : Document) :
    List.lookup key ((other, value) :: rest) =
      if key = other then some value else rest.lookup key := by
  by_cases same : key = other
  · simp [same]
  · rw [List.lookup_cons, beq_eq_false_iff_ne.mpr same, if_neg same]

theorem lookup_put (key other : String) (value : Value) (document : Document) :
    (put key value document).lookup other =
      if other = key then some value else document.lookup other := by
  induction document with
  | nil => exact lookup_cons other key value []
  | cons entry rest ih =>
    obtain ⟨k, old⟩ := entry
    by_cases held : k = key
    · subst held
      rw [put, if_pos rfl, lookup_cons, lookup_cons]
      split <;> rfl
    · rw [put, if_neg held, lookup_cons, lookup_cons, ih]
      by_cases same : other = k
      · have apart : ¬other = key := fun eq => held (same.symm.trans eq)
        rw [if_pos same, if_pos same, if_neg apart]
      · rw [if_neg same, if_neg same]

end Document

namespace Value

/-- Entries that are put into a document count there before what it held. -/
theorem lookup_mergeEntries (key : String) (merged entries : Document) :
    (mergeEntries merged entries).lookup key =
      ((entries.get? key).map mergeKeys).or (merged.lookup key) := by
  induction entries generalizing merged with
  | nil => rw [mergeEntries, Document.get?, Option.map_none, Option.none_or]
  | cons entry rest ih =>
    obtain ⟨k, value⟩ := entry
    rw [mergeEntries, ih, Document.lookup_put, Document.get?]
    cases Document.get? key rest with
    | some last => rfl
    | none =>
      by_cases same : k = key
      · simp [same]
      · have apart : ¬key = k := fun eq => same eq.symm
        simp [same, apart]

theorem keys_mergeEntries {all : List String} {merged : Document}
    (first : FirstOccurrences all merged.keys) (entries : Document) :
    FirstOccurrences (all ++ entries.keys) (Document.keys (mergeEntries merged entries)) := by
  induction entries generalizing all merged with
  | nil =>
    rw [mergeEntries, Document.keys, List.map_nil, List.append_nil]
    exact first
  | cons entry rest ih =>
    obtain ⟨key, value⟩ := entry
    have next : FirstOccurrences (all ++ [key]) (Document.put key value.mergeKeys merged).keys := by
      rw [Document.keys_put]
      split
      · rename_i known
        exact first.again known
      · rename_i unknown
        exact first.fresh unknown
    have whole := ih next
    rw [mergeEntries]
    rwa [List.append_assoc] at whole

theorem getElem?_mergeItems (items : List Value) (n : Nat) :
    (mergeItems items)[n]? = items[n]?.map mergeKeys := by
  induction items generalizing n with
  | nil => rw [mergeItems]; rfl
  | cons item rest ih =>
    rw [mergeItems]
    cases n with
    | zero => rfl
    | succ n => rw [List.getElem?_cons_succ, List.getElem?_cons_succ, ih]

/-- One step into a value. -/
inductive Step where
  | entry (key : String)
  | item (n : Nat)

/-- What a step leads to, where entries are found as `find` finds them. -/
def child? (find : String → Document → Option Value) : Value → Step → Option Value
  | document entries, .entry key => find key entries
  | array items, .item n => items[n]?
  | _, _ => none

/-- What stands at the end of a path into a value. -/
def at? (find : String → Document → Option Value) (value : Value) (path : List Step) :
    Option Value :=
  path.foldlM (child? find) value

end Value

theorem Document.lookup_mergeKeys (document : Document) (key : String) :
    document.mergeKeys.lookup key = (document.get? key).map Value.mergeKeys := by
  rw [Document.mergeKeys, Value.lookup_mergeEntries, List.lookup_nil, Option.or_none]

theorem Document.keys_mergeKeys (document : Document) :
    FirstOccurrences document.keys document.mergeKeys.keys := by
  have empty : FirstOccurrences [] (Document.keys []) := .nil
  exact Value.keys_mergeEntries empty document

theorem Value.mergeKeys_document (entries : Document) :
    (document entries).mergeKeys = document entries.mergeKeys := by
  rw [mergeKeys, Document.mergeKeys]

/-- A step into the merged value leads to what it leads to in the value, merged. -/
theorem Value.child?_mergeKeys (value : Value) (step : Step) :
    value.mergeKeys.child? List.lookup step = (value.child? Document.get? step).map mergeKeys := by
  cases value with
  | document entries =>
    rw [mergeKeys_document]
    cases step with
    | entry key => exact Document.lookup_mergeKeys entries key
    | item n => rfl
  | array items =>
    rw [mergeKeys]
    cases step with
    | entry key => rfl
    | item n => exact getElem?_mergeItems items n
  | _ =>
    rw [mergeKeys]
    · cases step <;> rfl
    all_goals intro _ same; cases same

theorem Value.at?_mergeKeys (value : Value) (path : List Step) :
    value.mergeKeys.at? List.lookup path = (value.at? Document.get? path).map mergeKeys := by
  induction path generalizing value with
  | nil => rfl
  | cons step path ih =>
    simp only [at?, List.foldlM_cons] at ih ⊢
    rw [child?_mergeKeys]
    cases value.child? Document.get? step with
    | none => rfl
    | some inner => exact ih inner

/-- A document as it was written and the one with its keys merged agree. Under every key the merged
one has what stands last under the key, merged, and nothing where there is nothing; its keys are
those that were written, each once, in the order in which they first occur. So it is at the end of
every path through entries and items, in every document that stands there. -/
theorem Document.mergeKeys_agrees (document : Document) :
    (∀ key, document.mergeKeys.lookup key = (document.get? key).map Value.mergeKeys) ∧
    FirstOccurrences document.keys document.mergeKeys.keys ∧
    ∀ path, (Value.document document.mergeKeys).at? List.lookup path =
        ((Value.document document).at? Document.get? path).map Value.mergeKeys ∧
      ∀ inner : Document,
        (Value.document document).at? Document.get? path = some (.document inner) →
        (Value.document document.mergeKeys).at? List.lookup path =
            some (.document inner.mergeKeys) ∧
        (∀ key, inner.mergeKeys.lookup key = (inner.get? key).map Value.mergeKeys) ∧
        FirstOccurrences inner.keys inner.mergeKeys.keys := by
  refine ⟨document.lookup_mergeKeys, document.keys_mergeKeys, fun path => ?_⟩
  have whole := Value.at?_mergeKeys (.document document) path
  rw [Value.mergeKeys_document] at whole
  refine ⟨whole, fun inner found => ⟨?_, inner.lookup_mergeKeys, inner.keys_mergeKeys⟩⟩
  rw [whole, found, Option.map_some, Value.mergeKeys_document]

/-- The last `b` stands in the place of the first, and the document in the array that it holds has
its `x` once. -/
theorem Document.repeatedKeys_agree :
    let inner : Document := [("x", .int32 1), ("y", .null), ("x", .int32 2)]
    let document : Document := [("b", .null), ("a", .null), ("b", .array [.document inner])]
    (Value.document document).at? Document.get? [.entry "b", .item 0] = some (.document inner) ∧
      (Value.document document.mergeKeys).at? List.lookup [.entry "b", .item 0] =
        some (.document inner.mergeKeys) ∧
      inner.mergeKeys.lookup "x" = some (.int32 2) ∧ inner.mergeKeys.keys = ["x", "y"] ∧
      document.mergeKeys.keys = ["b", "a"] := by
  intro inner document
  have found : (Value.document document).at? Document.get? [.entry "b", .item 0] =
      some (.document inner) := rfl
  obtain ⟨-, -, all⟩ := document.mergeKeys_agrees
  obtain ⟨there, values, -⟩ := (all [.entry "b", .item 0]).2 inner found
  exact ⟨found, there, values "x", rfl, rfl⟩

end MongoShell

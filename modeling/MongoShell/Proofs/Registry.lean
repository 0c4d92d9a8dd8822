import Mathlib.Data.List.Basic
import Mathlib.Logic.Relation
import MongoShell.Proofs.Token.LongestMatch
import MongoShell.Registry

/-! What a registry has of a method. The last entry under the scoped key of the method decides, else
the last one under its bare name. Entries under all other keys may come and go; and every key of
another context or of another name is such a key, since a colon ends the context and no identifier
has one. -/

namespace MongoShell

/-- A name that some source has as an identifier. -/
def IsIdentifier (name : String) : Prop :=
  ∃ source list, tokens source = .ok list ∧ ∃ t ∈ list, t.kind = .identifier ∧ t.text = name

/-- Identifiers are the words of the lexical grammar, and all of them. -/
theorem isIdentifier_iff {name : String} :
    IsIdentifier name ↔ ∃ c text, name = String.ofList (c :: text) ∧ isIdentifierStart c = true ∧
      ∀ d ∈ text, isIdentifierPart d = true := by
  constructor
  · rintro ⟨source, list, scanned, t, member, word, rfl⟩
    have laid := laidOut_of_scanFrom scanned
    obtain ⟨_, piece, _, _, _, _, text, lexeme⟩ := laid.lexemes t member (by simp [word])
    rw [word] at lexeme
    cases lexeme with
    | identifier start parts => exact ⟨_, _, text, start, parts⟩
    | mark mark =>
      unfold TokenKind.ofMark? at mark
      split at mark <;> cases mark
  · rintro ⟨c, text, rfl, start, parts⟩
    obtain ⟨_, ⟨t, rfl, word, same⟩, scanned⟩ := scans_word start parts delimited_nil .start
    rw [List.append_nil, scanFrom] at scanned
    have whole := (congrArg (scanFrom .start) String.toList_ofList).trans scanned
    exact ⟨String.ofList (c :: text), [t] ++ [_], whole, t, List.mem_cons_self, word, same⟩

theorem IsIdentifier.colon_not_mem {name : String} (is : IsIdentifier name) :
    ':' ∉ name.toList := by
  obtain ⟨c, text, rfl, start, parts⟩ := isIdentifier_iff.mp is
  rw [String.toList_ofList, List.mem_cons]
  rintro (rfl | member)
  · cases start
  · cases parts ':' member

theorem CallContext.name_injective : Function.Injective CallContext.name := by
  intro first second
  cases first <;> cases second <;> decide

theorem CallContext.colon_not_mem_name (context : CallContext) : ':' ∉ context.name.toList := by
  cases context <;> decide

namespace Registry

/-! Keys -/

theorem toList_scopedKey (context : CallContext) (name : String) :
    (scopedKey context name).toList = context.name.toList ++ ':' :: name.toList := by
  rw [scopedKey, String.toList_append, String.toList_append, List.append_assoc]
  rfl

/-- The first colon of a scoped key ends the context, whatever the name is. -/
theorem scopedKey_inj {context other : CallContext} {name own : String}
    (same : scopedKey context name = scopedKey other own) : context = other ∧ name = own := by
  have texts : context.name.toList ++ ':' :: name.toList =
      other.name.toList ++ ':' :: own.toList := by
    rw [← toList_scopedKey, ← toList_scopedKey, same]
  have cut (context : CallContext) (text : List Char) :
      (context.name.toList ++ ':' :: text).takeWhile (· != ':') = context.name.toList := by
    apply takeWhile_stop
    · intro c member
      exact bne_iff_ne.mpr fun colon => context.colon_not_mem_name (colon ▸ member)
    · intro c first
      cases first
      rfl
  have contexts : context.name.toList = other.name.toList := by
    rw [← cut context name.toList, texts, cut]
  have names : ':' :: name.toList = ':' :: own.toList := by
    rw [contexts] at texts
    exact List.append_cancel_left texts
  exact ⟨CallContext.name_injective (String.toList_inj.mp contexts),
    String.toList_inj.mp (List.cons.inj names).2⟩

theorem scopedKey_ne_identifier {name : String} (is : IsIdentifier name) (context : CallContext)
    (own : String) : scopedKey context own ≠ name := by
  intro same
  apply is.colon_not_mem
  rw [← same, toList_scopedKey]
  simp

/-! The last entry under a key -/

/-- A classification stands under a key, and behind it no other one does. -/
def LastUnder (key : String) (entries : List (String × Classification))
    (classification : Classification) : Prop :=
  ∃ before after, entries = before ++ (key, classification) :: after ∧
    ∀ entry ∈ after, entry.1 ≠ key

variable {key : String} {entries others : List (String × Classification)}

theorem lastUnder?_cons (entry : String × Classification) :
    lastUnder? key (entry :: entries) =
      (lastUnder? key entries).or (if entry.1 = key then some entry.2 else none) := by
  obtain ⟨own, classification⟩ := entry
  rw [lastUnder?]
  cases lastUnder? key entries <;> rfl

theorem lastUnder?_append (before after : List (String × Classification)) :
    lastUnder? key (before ++ after) = (lastUnder? key after).or (lastUnder? key before) := by
  induction before with
  | nil => rw [List.nil_append, lastUnder?, Option.or_none]
  | cons entry before ih =>
    rw [List.cons_append, lastUnder?_cons, lastUnder?_cons, ih, Option.or_assoc]

theorem lastUnder?_eq_none : lastUnder? key entries = none ↔ ∀ entry ∈ entries, entry.1 ≠ key := by
  induction entries with
  | nil => exact iff_of_true rfl (List.forall_mem_nil _)
  | cons entry entries ih =>
    rw [lastUnder?_cons, Option.or_eq_none_iff, ih, List.forall_mem_cons, and_comm]
    simp

theorem lastUnder?_eq_some {classification : Classification} :
    lastUnder? key entries = some classification ↔ LastUnder key entries classification := by
  constructor
  · intro found
    induction entries with
    | nil => cases found
    | cons entry entries ih =>
      rw [lastUnder?_cons] at found
      cases later : lastUnder? key entries with
      | some other =>
        rw [later] at found
        cases found
        obtain ⟨before, after, rfl, none⟩ := ih later
        exact ⟨entry :: before, after, rfl, none⟩
      | none =>
        rw [later, Option.none_or] at found
        split at found
        · rename_i own
          cases found
          exact ⟨[], entries, by rw [← own]; rfl, lastUnder?_eq_none.mp later⟩
        · cases found
  · rintro ⟨before, after, rfl, none⟩
    rw [lastUnder?_append, lastUnder?_cons, lastUnder?_eq_none.mpr none, if_pos rfl]
    rfl

/-! What decides -/

/-- The classification that entries give to a method in a context. -/
inductive Decides (entries : List (String × Classification)) (context : CallContext)
    (name : String) : Classification → Prop
  | inContext {classification : Classification}
      (last : LastUnder (scopedKey context name) entries classification) :
      Decides entries context name classification
  | bare {classification : Classification}
      (noneInContext : ∀ entry ∈ entries, entry.1 ≠ scopedKey context name)
      (last : LastUnder name entries classification) : Decides entries context name classification
  | unlisted (noneInContext : ∀ entry ∈ entries, entry.1 ≠ scopedKey context name)
      (noneBare : ∀ entry ∈ entries, entry.1 ≠ name) :
      Decides entries context name (.unsupported none)

theorem Decides.classify_eq {context : CallContext} {name : String}
    {classification : Classification} (decides : Decides entries context name classification) :
    (Registry.mk entries).classify context name = classification := by
  unfold classify entry?
  cases decides with
  | inContext last => rw [lastUnder?_eq_some.mpr last]
  | bare noneInContext last =>
    rw [lastUnder?_eq_none.mpr noneInContext, lastUnder?_eq_some.mpr last]
    rfl
  | unlisted noneInContext noneBare =>
    rw [lastUnder?_eq_none.mpr noneInContext, lastUnder?_eq_none.mpr noneBare]
    rfl

theorem exists_decides (entries : List (String × Classification)) (context : CallContext)
    (name : String) : ∃ classification, Decides entries context name classification := by
  cases own : lastUnder? (scopedKey context name) entries with
  | some classification => exact ⟨classification, .inContext (lastUnder?_eq_some.mp own)⟩
  | none =>
    cases bare : lastUnder? name entries with
    | some classification =>
      exact ⟨classification, .bare (lastUnder?_eq_none.mp own) (lastUnder?_eq_some.mp bare)⟩
    | none => exact ⟨_, .unlisted (lastUnder?_eq_none.mp own) (lastUnder?_eq_none.mp bare)⟩

theorem classify_eq_iff {context : CallContext} {name : String} {classification : Classification} :
    (Registry.mk entries).classify context name = classification ↔
      Decides entries context name classification := by
  constructor
  · rintro rfl
    obtain ⟨found, decides⟩ := exists_decides entries context name
    rwa [decides.classify_eq]
  · exact Decides.classify_eq

/-! Changes of other entries -/

/-- One entry is put in, taken out or replaced, under keys that pass a test. -/
inductive Edit (free : String → Prop) :
    List (String × Classification) → List (String × Classification) → Prop
  | add (before after : List (String × Classification)) {entry : String × Classification}
      (isFree : free entry.1) : Edit free (before ++ after) (before ++ entry :: after)
  | remove (before after : List (String × Classification)) {entry : String × Classification}
      (isFree : free entry.1) : Edit free (before ++ entry :: after) (before ++ after)
  | change (before after : List (String × Classification)) {entry other : String × Classification}
      (isFree : free entry.1) (stillFree : free other.1) :
      Edit free (before ++ entry :: after) (before ++ other :: after)

/-- An entry under another key makes no difference, wherever it stands. -/
theorem lastUnder?_without {entry : String × Classification} (other : entry.1 ≠ key)
    (before after : List (String × Classification)) :
    lastUnder? key (before ++ entry :: after) = lastUnder? key (before ++ after) := by
  rw [lastUnder?_append, lastUnder?_append, lastUnder?_cons, if_neg other, Option.or_none]

theorem Edit.lastUnder?_eq {free : String → Prop} (edit : Edit free entries others)
    (kept : ¬free key) : lastUnder? key entries = lastUnder? key others := by
  have apart {entry : String × Classification} (isFree : free entry.1) : entry.1 ≠ key :=
    fun same => kept (same ▸ isFree)
  cases edit with
  | add before after isFree => exact (lastUnder?_without (apart isFree) before after).symm
  | remove before after isFree => exact lastUnder?_without (apart isFree) before after
  | change before after isFree stillFree =>
    rw [lastUnder?_without (apart isFree), lastUnder?_without (apart stillFree)]

theorem lastUnder?_edits {free : String → Prop}
    (edits : Relation.ReflTransGen (Edit free) entries others) (kept : ¬free key) :
    lastUnder? key entries = lastUnder? key others := by
  induction edits with
  | refl => rfl
  | tail _ edit ih => rw [ih, edit.lastUnder?_eq kept]

/-- The keys that have no part in the classification of a method in a context. -/
def Foreign (context : CallContext) (name key : String) : Prop :=
  key ≠ scopedKey context name ∧ key ≠ name

theorem classify_edits {context : CallContext} {name : String}
    (edits : Relation.ReflTransGen (Edit (Foreign context name)) entries others) :
    (Registry.mk entries).classify context name = (Registry.mk others).classify context name := by
  have own : lastUnder? (scopedKey context name) entries =
      lastUnder? (scopedKey context name) others :=
    lastUnder?_edits edits fun foreign => foreign.1 rfl
  have bare : lastUnder? name entries = lastUnder? name others :=
    lastUnder?_edits edits fun foreign => foreign.2 rfl
  unfold classify entry?
  rw [own, bare]

/-- Entries do not leak between contexts. For all entries, a method in a context has the
classification that the last entry under its scoped key gives it, else the last one under its bare
name; and without either it is unsupported, with no hint. That stays so however entries under other
keys are added, changed and removed. Under other keys are all entries of another context or of
another scoped name, and all bare ones of another identifier. -/
theorem entries_do_not_leak (context : CallContext) (name : String) :
    (∀ entries classification, (Registry.mk entries).classify context name = classification ↔
      Decides entries context name classification) ∧
    (∀ entries others, Relation.ReflTransGen (Edit (Foreign context name)) entries others →
      (Registry.mk entries).classify context name =
        (Registry.mk others).classify context name) ∧
    (IsIdentifier name →
      (∀ other own, (other, own) ≠ (context, name) → Foreign context name (scopedKey other own)) ∧
      ∀ own, IsIdentifier own → own ≠ name → Foreign context name own) := by
  refine ⟨fun entries classification => classify_eq_iff,
    fun entries others edits => classify_edits edits, fun is => ⟨?_, ?_⟩⟩
  · intro other own differ
    constructor
    · intro same
      obtain ⟨rfl, rfl⟩ := scopedKey_inj same
      exact differ rfl
    · exact scopedKey_ne_identifier is other own
  · intro own isOwn differ
    exact ⟨(scopedKey_ne_identifier isOwn context name).symm, differ⟩

/-- The entries of a method for a cursor, one of which overrides another, and one of another method.
-/
def cursorStats : List (String × Classification) :=
  [("stats", .planned none), ("cursor:stats", .supported),
    ("cursor:stats", .deprecated "explain()"), ("count", .supported)]

/-- The last scoped entry decides, also when the entry of the other method is taken out and the
method gets one for collections. -/
theorem cursorStats_keeps_last :
    (Registry.mk cursorStats).classify .cursor "stats" = .deprecated "explain()" ∧
    (Registry.mk (("collection:stats", .supported) :: cursorStats.take 3)).classify
        .cursor "stats" =
      .deprecated "explain()" := by
  obtain ⟨decided, edited, foreign⟩ := entries_do_not_leak .cursor "stats"
  obtain ⟨otherScope, otherName⟩ := foreign
    (isIdentifier_iff.mpr ⟨'s', "tats".toList, rfl, rfl, List.all_eq_true.mp rfl⟩)
  have count : Foreign .cursor "stats" "count" := otherName "count"
    (isIdentifier_iff.mpr ⟨'c', "ount".toList, rfl, rfl, List.all_eq_true.mp rfl⟩) (by decide)
  have collection : Foreign .cursor "stats" "collection:stats" :=
    otherScope .collection "stats" (by decide)
  have last : LastUnder "cursor:stats" cursorStats (.deprecated "explain()") :=
    ⟨cursorStats.take 2, [("count", .supported)], rfl, by decide⟩
  have first := (decided cursorStats _).mpr (.inContext last)
  refine ⟨first, ?_⟩
  rw [← first]
  have removed : Edit (Foreign .cursor "stats") cursorStats (cursorStats.take 3) :=
    .remove (cursorStats.take 3) [] count
  have added : Edit (Foreign .cursor "stats") (cursorStats.take 3)
      (("collection:stats", .supported) :: cursorStats.take 3) :=
    .add [] (cursorStats.take 3) collection
  exact (edited _ _ (.tail (.single removed) added)).symm

end Registry

end MongoShell

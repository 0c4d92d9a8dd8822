import MongoShell.Operation.ToJson
import MongoShell.Proofs.Number.Shortest

/-! JSON on one line. A compact text holds no control character, whatever the strings and names in
it hold: strings escape them, and the numbers that values and operations are written with have none.
-/

namespace MongoShell

/-- A text without control characters, and so without a break. -/
def Inline (text : List Char) : Prop := ∀ c ∈ text, 0x20 ≤ c.toNat

instance (text : List Char) : Decidable (Inline text) :=
  List.decidableBAll (fun c : Char => 0x20 ≤ c.toNat) text

namespace Inline

theorem nil : Inline [] := nofun

theorem cons {c : Char} {text : List Char} (first : 0x20 ≤ c.toNat) (others : Inline text) :
    Inline (c :: text) :=
  List.forall_mem_cons.mpr ⟨first, others⟩

theorem append {first second : List Char} (before : Inline first) (behind : Inline second) :
    Inline (first ++ second) :=
  List.forall_mem_append.mpr ⟨before, behind⟩

theorem not_mem {text : List Char} (inline : Inline text) : '\n' ∉ text := by
  intro member
  exact absurd (inline '\n' member) (by decide)

end Inline

/-! Numbers -/

theorem inline_of_isDigit {digits : List Char} (all : ∀ c ∈ digits, c.isDigit = true) :
    Inline digits := by
  intro c member
  have least : 48 ≤ c.toNat := (Char.isDigit_iff_toNat.mp (all c member)).1
  omega

theorem Numeral.text_inline (n : Numeral) : Inline n.text := by
  have whole := inline_of_isDigit n.wholeDigits.2
  have point : Inline n.pointText := by
    unfold pointText
    split
    · exact .nil
    · exact .cons (by decide) (inline_of_isDigit n.fractionDigits)
  have power : Inline n.powerText := by
    unfold powerText
    split
    · exact .nil
    · rename_i negative digits found
      have sign : 0x20 ≤ (if negative then '-' else '+').toNat := by cases negative <;> decide
      exact .cons (by decide) (.cons sign (inline_of_isDigit (n.powerDigits _ found).2))
  exact whole.append (point.append power)

theorem Numeral.signedText_inline (negative : Bool) (n : Numeral) :
    Inline (n.signedText negative) := by
  cases negative with
  | true => exact .cons (by decide) n.text_inline
  | false => exact n.text_inline

namespace Json

/-! Strings -/

theorem hexDigit_inline {n : Nat} (small : n < 16) : 0x20 ≤ (hexDigit n).toNat := by
  have all : ∀ n < 16, 0x20 ≤ (hexDigit n).toNat := by decide
  exact all n small

theorem escapeChar_inline (c : Char) : Inline (escapeChar c) := by
  by_cases lettered : c ∈ ['"', '\\', '\x08', '\x0c', '\n', '\r', '\t']
  · simp only [List.mem_cons, List.not_mem_nil, or_false] at lettered
    rcases lettered with rfl | rfl | rfl | rfl | rfl | rfl | rfl <;> decide
  · simp only [List.mem_cons, List.not_mem_nil, or_false, not_or] at lettered
    obtain ⟨quote, backslash, back, feed, line, carriage, tab⟩ := lettered
    rw [escapeChar, if_neg quote, if_neg backslash, if_neg back, if_neg feed, if_neg line,
      if_neg carriage, if_neg tab]
    by_cases control : c.toNat < 0x20
    · rw [if_pos control]
      have code : Inline ['\\', 'u', '0', '0'] := by decide
      exact code.append (.cons (hexDigit_inline (by omega))
        (.cons (hexDigit_inline (Nat.mod_lt _ (by decide))) .nil))
    · rw [if_neg control]
      exact .cons (Nat.not_lt.mp control) .nil

theorem quote_inline (text : String) : Inline (quote text) := by
  have body : Inline (text.toList.flatMap escapeChar) := by
    intro c member
    obtain ⟨d, -, own⟩ := List.mem_flatMap.mp member
    exact escapeChar_inline d c own
  exact .cons (by decide) (body.append (.cons (by decide) .nil))

/-! Documents -/

mutual

/-- The numbers of a document are written without control characters. -/
def Plain : Json → Prop
  | number text => Inline text.toList
  | array items => PlainItems items
  | object members => PlainMembers members
  | _ => True

def PlainItems : List Json → Prop
  | [] => True
  | item :: rest => item.Plain ∧ PlainItems rest

def PlainMembers : List (String × Json) → Prop
  | [] => True
  | (_, value) :: rest => value.Plain ∧ PlainMembers rest

end

theorem plainItems_iff {items : List Json} : PlainItems items ↔ ∀ item ∈ items, item.Plain := by
  induction items with
  | nil => simp [PlainItems]
  | cons item rest ih => simp [PlainItems, ih]

theorem plainMembers_iff {members : List (String × Json)} :
    PlainMembers members ↔ ∀ name value, (name, value) ∈ members → value.Plain := by
  induction members with
  | nil => simp [PlainMembers]
  | cons member rest ih =>
    obtain ⟨name, value⟩ := member
    simp only [PlainMembers, ih, List.mem_cons, Prod.mk.injEq]
    constructor
    · rintro ⟨first, others⟩ name value (⟨-, rfl⟩ | member)
      · exact first
      · exact others name value member
    · exact fun all => ⟨all name value (.inl ⟨rfl, rfl⟩), fun name value member =>
        all name value (.inr member)⟩

theorem ofInt_plain (n : Int) : (ofInt n).Plain := by
  rw [ofInt, Plain, Numeral.toList_toString_int]
  exact Numeral.signedText_inline _ _

mutual

theorem compact_inline : (json : Json) → json.Plain → Inline json.compact
  | null, _ => by decide
  | boolean true, _ => by decide
  | boolean false, _ => by decide
  | number text, plain => by
    rw [Plain] at plain
    rwa [compact]
  | string text, _ => by
    rw [compact]
    exact quote_inline text
  | array [], _ => by decide
  | array (first :: rest), plain => by
    rw [Plain, PlainItems] at plain
    rw [compact]
    exact .cons (by decide)
      ((compact_inline first plain.1).append (compactItems_inline rest plain.2))
  | object [], _ => by decide
  | object ((name, first) :: rest), plain => by
    rw [Plain, PlainMembers] at plain
    rw [compact]
    exact .cons (by decide) ((quote_inline name).append (.cons (by decide)
      ((compact_inline first plain.1).append (compactMembers_inline rest plain.2))))

theorem compactItems_inline : (items : List Json) → PlainItems items → Inline (compactItems items)
  | [], _ => by decide
  | item :: rest, plain => by
    rw [PlainItems] at plain
    rw [compactItems]
    exact .cons (by decide)
      ((compact_inline item plain.1).append (compactItems_inline rest plain.2))

theorem compactMembers_inline :
    (members : List (String × Json)) → PlainMembers members → Inline (compactMembers members)
  | [], _ => by decide
  | (name, value) :: rest, plain => by
    rw [PlainMembers] at plain
    rw [compactMembers]
    exact .cons (by decide) ((quote_inline name).append (.cons (by decide)
      ((compact_inline value plain.1).append (compactMembers_inline rest plain.2))))

end

end Json

/-! Values and operations -/

namespace Value

open Json

theorem extended_plain (name : String) {json : Json} (plain : json.Plain) :
    (extended name json).Plain := by
  rw [extended, Plain, PlainMembers]
  exact ⟨plain, trivial⟩

theorem doubleToJson_plain (d : Double) : (doubleToJson d).Plain := by
  unfold doubleToJson
  split
  · rename_i finite
    obtain ⟨n, shown, -⟩ := Double.text_numeral finite
    rw [Plain, shown]
    exact n.signedText_inline _
  · exact extended_plain _ trivial

theorem dateToJson_plain (milliseconds : Int) : (dateToJson milliseconds).Plain := by
  unfold dateToJson
  split
  · exact extended_plain _ trivial
  · exact extended_plain _ (extended_plain _ trivial)

mutual

theorem toJson_plain : (value : Value) → value.toJson.Plain
  | double d => doubleToJson_plain d
  | document entries => membersOf_plain entries
  | array items => jsonItemsOf_plain items
  | binary _ _ => extended_plain _ ⟨trivial, trivial, trivial⟩
  | date milliseconds => dateToJson_plain milliseconds.toInt
  | regex _ _ => extended_plain _ ⟨trivial, trivial, trivial⟩
  | int32 n => ofInt_plain n.toInt
  | int64 n => ofInt_plain n.toInt
  | timestamp time increment =>
    extended_plain _ ⟨ofInt_plain time.toNat, ofInt_plain increment.toNat, trivial⟩
  | minKey => extended_plain _ (ofInt_plain 1)
  | maxKey => extended_plain _ (ofInt_plain 1)
  | objectId _ => extended_plain _ trivial
  | decimal _ => extended_plain _ trivial
  | null => trivial
  | string _ => trivial
  | boolean _ => trivial

theorem membersOf_plain : (entries : List (String × Value)) → PlainMembers (membersOf entries)
  | [] => trivial
  | (_, value) :: rest => ⟨toJson_plain value, membersOf_plain rest⟩

theorem jsonItemsOf_plain : (items : List Value) → PlainItems (jsonItemsOf items)
  | [] => trivial
  | value :: rest => ⟨toJson_plain value, jsonItemsOf_plain rest⟩

end

end Value

theorem Document.toJson_plain (document : Document) : (Document.toJson document).Plain :=
  Value.membersOf_plain document

theorem Document.listToJson_plain (documents : List Document) : (listToJson documents).Plain := by
  rw [listToJson, Json.Plain, Json.plainItems_iff]
  intro item member
  obtain ⟨document, -, rfl⟩ := List.mem_map.mp member
  exact toJson_plain document

theorem IndexSelector.toJson_plain (index : IndexSelector) : index.toJson.Plain := by
  cases index with
  | name text => trivial
  | keys pattern => exact Document.toJson_plain pattern

theorem Update.toJson_plain (update : Update) : update.toJson.Plain := by
  cases update with
  | document operators => exact Document.toJson_plain operators
  | pipeline stages => exact Document.listToJson_plain stages

namespace Operation

open Json

/-- A member that is left out, or whose value is plain. -/
def PlainMember (member : Option (String × Json)) : Prop := ∀ entry ∈ member, entry.2.Plain

theorem member_plain {α : Type} (name : String) {toJson : α → Json} (field : Option α)
    (all : ∀ x, (toJson x).Plain) : PlainMember (member name toJson field) := by
  intro entry given
  obtain ⟨x, -, rfl⟩ := Option.map_eq_some_iff.mp given
  exact all x

theorem members_plain (op : Operation) : ∀ member ∈ op.members, PlainMember member := by
  have string (text : String) : (Json.string text).Plain := trivial
  have boolean (b : Bool) : (Json.boolean b).Plain := trivial
  have collection : PlainMember
      (if op.collection = "" then none else some ("collection", .string op.collection)) := by
    split
    · exact nofun
    · exact member_plain "collection" (some op.collection) string
  simp only [members, List.forall_mem_cons, List.not_mem_nil, false_implies, implies_true, and_true,
    true_and, member_plain _ _ Document.toJson_plain, member_plain _ _ Document.listToJson_plain,
    member_plain _ _ IndexSelector.toJson_plain, member_plain _ _ Update.toJson_plain,
    member_plain _ _ ofInt_plain, member_plain _ _ string, member_plain _ _ boolean, collection]
  exact ⟨member_plain "kind" (some op.kind.name) string,
    member_plain "returnDocument" op.returnDocument fun state => string state.name⟩

/-- The compact text of an operation holds no control character. -/
theorem toJson_inline (op : Operation) : Inline op.toJson.compact := by
  apply compact_inline
  rw [toJson, Plain, plainMembers_iff]
  intro name value member
  obtain ⟨given, among, present⟩ := List.mem_filterMap.mp member
  exact op.members_plain given among _ present

end Operation

end MongoShell

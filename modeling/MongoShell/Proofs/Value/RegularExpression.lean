import Mathlib.Data.Char
import Mathlib.Data.List.Sort
import MongoShell.Proofs.Value.Call

/-! Regular expressions as values. The flags of a regular expression count as a set: however they
are ordered and repeated, and whichever way the expression is written, its value has each of them
once and in increasing order. -/

namespace MongoShell

/-- The expressions that write a regular expression of some pattern and flags: a literal, a call
with both in strings or with the pattern alone, and a call with a literal, whose own flags do not
count where others are given. -/
inductive Expr.WritesRegex (pattern : String) : String → Expr → Prop
  | literal (span : Span) (flags : String) : WritesRegex pattern flags (.regex span pattern flags)
  | strings {e : Expr} (place other : Span) (flags : String)
      (calls : e.Calls "RegExp" [.string place pattern, .string other flags]) :
      WritesRegex pattern flags e
  | bare {e : Expr} (place : Span) (calls : e.Calls "RegExp" [.string place pattern]) :
      WritesRegex pattern "" e
  | copy {e : Expr} (place : Span) (flags : String)
      (calls : e.Calls "RegExp" [.regex place pattern flags]) : WritesRegex pattern flags e
  | override {e : Expr} (place other : Span) (own flags : String)
      (calls : e.Calls "RegExp" [.regex place pattern own, .string other flags]) :
      WritesRegex pattern flags e

/-- The canonical form of some flags: the same characters, each once and in increasing order. -/
structure CanonicalFlags (flags options : String) : Prop where
  increasing : options.toList.Pairwise (· < ·)
  same : ∀ c, c ∈ options.toList ↔ c ∈ flags.toList

/-! Flags -/

/-- Without its repetitions an ordered text is strictly increasing. -/
theorem pairwise_lt_eraseDups : (text : List Char) → text.Pairwise (· ≤ ·) →
    text.eraseDups.Pairwise (· < ·)
  | [], _ => .nil
  | c :: text, ordered => by
    obtain ⟨least, ordered⟩ := List.pairwise_cons.mp ordered
    rw [List.eraseDups_cons]
    refine .cons (fun d member => ?_) (pairwise_lt_eraseDups _ (ordered.filter _))
    obtain ⟨member, other⟩ := List.mem_filter.mp (List.mem_eraseDups.mp member)
    have differ : d ≠ c := by simpa using other
    exact lt_of_le_of_ne (least d member) differ.symm
termination_by text => text.length
decreasing_by exact Nat.lt_succ_of_le (List.length_filter_le ..)

theorem exists_canonicalFlags (flags : String) :
    ∃ options, CanonicalFlags flags options ∧
      ∀ pattern, Value.ofPattern pattern flags = .regex pattern options := by
  refine ⟨_, ⟨?_, fun c => ?_⟩, fun pattern => rfl⟩
  · rw [String.toList_ofList]
    exact pairwise_lt_eraseDups _ (List.pairwise_mergeSort' (· ≤ ·) flags.toList)
  · rw [String.toList_ofList, List.mem_eraseDups, List.mem_mergeSort]

/-- Flags with the same characters have the same canonical form. -/
theorem CanonicalFlags.unique {flags others options own : String}
    (first : CanonicalFlags flags options) (second : CanonicalFlags others own)
    (same : ∀ c, c ∈ others.toList ↔ c ∈ flags.toList) : own = options := by
  refine String.toList_inj.mp
    (second.increasing.sortedLT.eq_of_mem_iff first.increasing.sortedLT ?_)
  intro c
  rw [second.same, same, first.same]

/-! Spellings -/

/-- Every way to write a regular expression comes to its pattern with its flags. -/
theorem Expr.WritesRegex.ofExpr_eq {pattern flags : String} {e : Expr}
    (writes : e.WritesRegex pattern flags) (fresh : Fresh) :
    Value.ofExpr fresh e = .ok (Value.ofPattern pattern flags) := by
  cases writes with
  | literal span => rw [Value.ofExpr]
  | strings place other _ calls => exact (calls.ofExpr_eq_ok_iff .regExp rfl fun _ => rfl).mpr rfl
  | bare place calls => exact (calls.ofExpr_eq_ok_iff .regExp rfl fun _ => rfl).mpr rfl
  | copy place _ calls => exact (calls.ofExpr_eq_ok_iff .regExp rfl fun _ => rfl).mpr rfl
  | override place other own _ calls =>
    exact (calls.ofExpr_eq_ok_iff .regExp rfl fun _ => rfl).mpr rfl

/-- All spellings of a regular expression have one value. It has the pattern as it is, and of the
flags each character once, in increasing order; so spellings of the same pattern whose flags have
the same characters do not differ. -/
theorem Expr.regex_spellings_agree (pattern flags : String) :
    ∃ options, CanonicalFlags flags options ∧
      ∀ others, (∀ c, c ∈ others.toList ↔ c ∈ flags.toList) →
        ∀ (e : Expr), e.WritesRegex pattern others → ∀ fresh,
          Value.ofExpr fresh e = .ok (.regex pattern options) := by
  obtain ⟨options, canonical, -⟩ := exists_canonicalFlags flags
  refine ⟨options, canonical, fun others same e writes fresh => ?_⟩
  obtain ⟨own, canonicalOwn, value⟩ := exists_canonicalFlags others
  rw [writes.ofExpr_eq, value, canonical.unique canonicalOwn same]

/-- The flags of a literal in a call do not count beside a string of others, of which one is
repeated. -/
theorem Expr.overridden_flags_agree :
    Value.ofExpr (Fresh.ofSeed 0 0) (.construct nowhere (.call nowhere
        (.identifier nowhere "RegExp")
      [.regex nowhere "a+" "x", .string nowhere "mgim"])) = .ok (.regex "a+" "gim") := by
  obtain ⟨options, canonical, agree⟩ := regex_spellings_agree "a+" "gim"
  have sorted : CanonicalFlags "gim" "gim" := ⟨by decide, fun _ => Iff.rfl⟩
  rw [← sorted.unique canonical fun _ => Iff.rfl]
  refine agree "mgim" (fun c => ?_) _ (.override _ _ "x" _ (.new _ _ _)) _
  change c ∈ ['m', 'g', 'i', 'm'] ↔ c ∈ ['g', 'i', 'm']
  simp only [List.mem_cons, List.not_mem_nil, or_false]
  tauto

end MongoShell

import Mathlib.Data.List.Forall2
import Mathlib.Tactic.Common

/-! Results of checks that may fail. A chain of checks succeeds when each of its links does, so
these equivalences open a whole chain at once and close it again. -/

namespace MongoShell.Outcome

variable {ε δ α β : Type}

theorem bind_eq_ok (outcome : Except ε α) (next : α → Except ε β) (b : β) :
    (outcome >>= next) = .ok b ↔ ∃ a, outcome = .ok a ∧ next a = .ok b := by
  cases outcome with
  | error e => simp [bind, Except.bind]
  | ok a => simp [bind, Except.bind]

theorem map_eq_ok (outcome : Except ε α) (f : α → β) (b : β) :
    outcome.map f = .ok b ↔ ∃ a, outcome = .ok a ∧ f a = b := by
  cases outcome with
  | error e => simp [Except.map]
  | ok a => simp [Except.map]

theorem map_eq_error (outcome : Except ε α) (f : α → β) (e : ε) :
    outcome.map f = .error e ↔ outcome = .error e := by
  cases outcome with
  | error e => simp [Except.map]
  | ok a => simp [Except.map]

theorem mapError_eq_ok (outcome : Except ε α) (f : ε → δ) (a : α) :
    outcome.mapError f = .ok a ↔ outcome = .ok a := by
  cases outcome with
  | error e => simp [Except.mapError]
  | ok a => simp [Except.mapError]

def Succeeds (outcome : Except ε α) : Prop := ∃ a, outcome = .ok a

theorem Succeeds.ok (a : α) : Succeeds (.ok a : Except ε α) := ⟨a, rfl⟩

theorem foldlM_cons_ok {step : β → α → Except ε β} {item : α} {first middle : β}
    (one : step first item = .ok middle) (rest : List α) :
    (item :: rest).foldlM step first = rest.foldlM step middle := by
  rw [List.foldlM_cons, one]
  rfl

/-- What each step of a run keeps, the whole run keeps. -/
theorem foldlM_invariant {keeps : β → Prop} {step : β → α → Except ε β} {items : List α}
    {first last : β}
    (preserved : ∀ state item next, keeps state → step state item = .ok next → keeps next)
    (initial : keeps first) (run : items.foldlM step first = .ok last) : keeps last := by
  induction items generalizing first with
  | nil => cases run; exact initial
  | cons item rest ih =>
    rw [List.foldlM_cons] at run
    obtain ⟨middle, stepped, others⟩ := (bind_eq_ok _ _ _).mp run
    exact ih (preserved first item middle initial stepped) others

/-- Each item of a run that succeeds has its step. -/
theorem foldlM_each {step : β → α → Except ε β} {items : List α} {first last : β}
    (run : items.foldlM step first = .ok last) :
    ∀ item ∈ items, ∃ before after, step before item = .ok after := by
  induction items generalizing first with
  | nil => exact nofun
  | cons item rest ih =>
    rw [List.foldlM_cons] at run
    obtain ⟨middle, stepped, others⟩ := (bind_eq_ok _ _ _).mp run
    exact List.forall_mem_cons.mpr ⟨⟨first, middle, stepped⟩, ih others⟩

/-- A run fails at one item, in the state that the items before it lead to. -/
theorem foldlM_eq_error {step : β → α → Except ε β} {items : List α} {first : β} {e : ε} :
    items.foldlM step first = .error e ↔ ∃ before item behind middle,
      items = before ++ item :: behind ∧ before.foldlM step first = .ok middle ∧
        step middle item = .error e := by
  constructor
  · intro failed
    induction items generalizing first with
    | nil => cases failed
    | cons item items ih =>
      cases one : step first item with
      | error fault =>
        rw [List.foldlM_cons, one] at failed
        cases failed
        exact ⟨[], item, items, first, rfl, rfl, one⟩
      | ok next =>
        rw [foldlM_cons_ok one] at failed
        obtain ⟨before, last, behind, middle, rfl, run, fails⟩ := ih failed
        exact ⟨item :: before, last, behind, middle, rfl, by rw [foldlM_cons_ok one, run], fails⟩
  · rintro ⟨before, item, behind, middle, rfl, run, fails⟩
    rw [List.foldlM_append, run]
    change (item :: behind).foldlM step middle = .error e
    rw [List.foldlM_cons, fails]
    rfl

/-- What comes of all items of one list comes of those of another, if it does item by item. -/
theorem mapM_ok_of_forall₂ {γ κ : Type} {related : α → γ → Prop} {alike : β → κ → Prop}
    {f : α → Except ε β} {g : γ → Except δ κ} {items : List α} {others : List γ} {results : List β}
    (pairs : List.Forall₂ related items others)
    (each : ∀ a c, related a c → ∀ b, f a = .ok b → ∃ k, g c = .ok k ∧ alike b k)
    (done : items.mapM f = .ok results) :
    ∃ more, others.mapM g = .ok more ∧ List.Forall₂ alike results more := by
  induction pairs generalizing results with
  | nil =>
    cases done
    exact ⟨[], rfl, .nil⟩
  | @cons a c items others first _ ih =>
    rw [List.mapM_cons] at done
    obtain ⟨b, one, done⟩ := (bind_eq_ok _ _ _).mp done
    obtain ⟨bs, rest, done⟩ := (bind_eq_ok _ _ _).mp done
    cases done
    obtain ⟨k, one', held⟩ := each a c first b one
    obtain ⟨ks, rest', more⟩ := ih rest
    refine ⟨k :: ks, ?_, .cons held more⟩
    rw [List.mapM_cons, one']
    change (others.mapM g >>= fun ks => .ok (k :: ks)) = _
    rw [rest']
    rfl

/-- All items have results exactly if each item has its result. -/
theorem mapM_eq_ok {f : α → Except ε β} {items : List α} {results : List β} :
    items.mapM f = .ok results ↔ List.Forall₂ (fun a b => f a = .ok b) items results := by
  induction items generalizing results with
  | nil => simp [pure, Except.pure, eq_comm]
  | cons a items ih =>
    simp only [List.mapM_cons, bind_eq_ok, List.forall₂_cons_left_iff, ih]
    constructor
    · rintro ⟨b, first, bs, rest, same⟩
      cases same
      exact ⟨b, bs, first, rest, rfl⟩
    · rintro ⟨b, bs, first, rest, rfl⟩
      exact ⟨b, first, bs, rest, rfl⟩

/-- Not all items have results exactly if some item has a fault. -/
theorem exists_mapM_eq_error {f : α → Except ε β} {items : List α} :
    (∃ e, items.mapM f = .error e) ↔ ∃ a ∈ items, ∃ e, f a = .error e := by
  induction items with
  | nil => simp [pure, Except.pure]
  | cons a items ih =>
    rw [List.mapM_cons]
    simp only [List.mem_cons, exists_eq_or_imp, ← ih]
    cases f a with
    | error e => simp [bind, Except.bind]
    | ok b => cases items.mapM f <;> simp [bind, Except.bind, pure, Except.pure]

/-! Results that match -/

/-- Both results are there and related, or both are the same failure. -/
inductive Matches {γ : Type} (related : α → γ → Prop) : Except ε α → Except ε γ → Prop
  | ok {a : α} {c : γ} (alike : related a c) : Matches related (.ok a) (.ok c)
  | error (e : ε) : Matches related (.error e) (.error e)

namespace Matches

variable {γ κ : Type} {related : α → γ → Prop} {alike : β → κ → Prop}

theorem refl {related : α → α → Prop} (all : ∀ a, related a a) (outcome : Except ε α) :
    Matches related outcome outcome := by
  cases outcome with
  | error e => exact .error e
  | ok a => exact .ok (all a)

theorem of_eq {first second : Except ε α} (same : first = second) : Matches Eq first second :=
  same ▸ refl Eq.refl first

theorem exists_ok {a : α} {outcome : Except ε γ} (same : Matches related (.ok a) outcome) :
    ∃ c, outcome = .ok c ∧ related a c := by
  cases same with
  | ok held => exact ⟨_, rfl, held⟩

theorem eq_error {e : ε} {outcome : Except ε γ}
    (same : Matches related (.error e : Except ε α) outcome) : outcome = .error e := by
  cases same
  rfl

theorem bind {first : Except ε α} {second : Except ε γ} {next : α → Except ε β}
    {other : γ → Except ε κ} (same : Matches related first second)
    (more : ∀ a c, related a c → Matches alike (next a) (other c)) :
    Matches alike (first >>= next) (second >>= other) := by
  cases same with
  | ok held => exact more _ _ held
  | error e => exact .error e

theorem map {first : Except ε α} {second : Except ε γ} {f : α → β} {g : γ → κ}
    (same : Matches related first second) (more : ∀ a c, related a c → alike (f a) (g c)) :
    Matches alike (first.map f) (second.map g) := by
  cases same with
  | ok held => exact .ok (more _ _ held)
  | error e => exact .error e

theorem mapError {first : Except ε α} {second : Except ε γ} (same : Matches related first second)
    (f : ε → δ) : Matches related (first.mapError f) (second.mapError f) := by
  cases same with
  | ok held => exact .ok held
  | error e => exact .error (f e)

/-- What comes of the items of two lists, one by one. -/
theorem mapM {f : α → Except ε β} {g : γ → Except ε κ} {items : List α} {others : List γ}
    (pairs : List.Forall₂ related items others)
    (each : ∀ a c, related a c → Matches alike (f a) (g c)) :
    Matches (List.Forall₂ alike) (items.mapM f) (others.mapM g) := by
  induction pairs with
  | nil => exact .ok .nil
  | cons first _ ih =>
    rw [List.mapM_cons, List.mapM_cons]
    apply (each _ _ first).bind
    intro b k held
    apply ih.bind
    intro bs ks more
    exact .ok (.cons held more)

/-- Runs over two lists, item by item, whose steps match. -/
theorem foldlM {step : α → β → Except ε α} {other : γ → κ → Except ε γ} {items : List β}
    {others : List κ} (pairs : List.Forall₂ alike items others) {a : α} {c : γ} (held : related a c)
    (more : ∀ item other' a c, alike item other' → related a c →
      Matches related (step a item) (other c other')) :
    Matches related (items.foldlM step a) (others.foldlM other c) := by
  induction pairs generalizing a c with
  | nil => exact .ok held
  | cons first _ ih =>
    rw [List.foldlM_cons, List.foldlM_cons]
    exact (more _ _ a c first held).bind fun a c => ih

/-- Results that match are both there and related, or are both not there. -/
theorem toOption {first : Except ε α} {second : Except ε γ} (same : Matches related first second) :
    Option.Rel related first.toOption second.toOption := by
  cases same with
  | ok held => exact .some held
  | error e => exact .none

end Matches

/-! Results without their failures -/

theorem toOption_bind (outcome : Except ε α) (next : α → Except ε β) :
    (outcome >>= next).toOption = outcome.toOption.bind fun a => (next a).toOption := by
  cases outcome <;> rfl

theorem toOption_map (outcome : Except ε α) (f : α → β) :
    (outcome.map f).toOption = outcome.toOption.map f := by
  cases outcome <;> rfl

theorem toOption_mapError (outcome : Except ε α) (f : ε → δ) :
    (outcome.mapError f).toOption = outcome.toOption := by
  cases outcome <;> rfl

/-- Runs over two lists, item by item, whose steps come to the same. -/
theorem toOption_foldlM {γ : Type} {related : α → γ → Prop} {step : β → α → Except ε β}
    {other : β → γ → Except ε β} {items : List α} {others : List γ}
    (pairs : List.Forall₂ related items others)
    (same : ∀ state a c, related a c → (step state a).toOption = (other state c).toOption)
    (state : β) : (items.foldlM step state).toOption = (others.foldlM other state).toOption := by
  induction pairs generalizing state with
  | nil => rfl
  | @cons a c items others first _ ih =>
    rw [List.foldlM_cons, List.foldlM_cons, toOption_bind, toOption_bind, same state a c first]
    simp only [ih]

theorem rel_map {γ κ : Type} {related : α → γ → Prop} {alike : β → κ → Prop} {first : Option α}
    {second : Option γ} {f : α → β} {g : γ → κ} (same : Option.Rel related first second)
    (more : ∀ a c, related a c → alike (f a) (g c)) :
    Option.Rel alike (first.map f) (second.map g) := by
  cases same with
  | none => exact .none
  | some held => exact .some (more _ _ held)

theorem rel_bind {γ κ : Type} {related : α → γ → Prop} {alike : β → κ → Prop}
    {first : Except ε α} {second : Except ε γ} {f : α → Option β} {g : γ → Option κ}
    (same : Option.Rel related first.toOption second.toOption)
    (more : ∀ a c, first = .ok a → related a c → Option.Rel alike (f a) (g c)) :
    Option.Rel alike (first.toOption.bind f) (second.toOption.bind g) := by
  cases first with
  | error e =>
    cases second with
    | error e => exact .none
    | ok c => cases same
  | ok a =>
    cases second with
    | error e => cases same
    | ok c =>
      cases same with
      | some held => exact more a c rfl held

theorem rel_of_map {γ : Type} {related : β → γ → Prop} {f : α → β} {first : Option α}
    {second : Option γ} (same : Option.Rel related (first.map f) second) :
    Option.Rel (fun a c => related (f a) c) first second := by
  cases first with
  | none =>
    cases same
    exact .none
  | some a =>
    cases same with
    | some held => exact .some held

end MongoShell.Outcome

import Mathlib.Data.Nat.Init
import ScopeMachine.Proofs.Layout.Correspondence

/-! # Insertions into a body

An instruction that is inserted into a body moves all that stands behind it by one position, and with
it the boundaries of scopes. The jump table of the longer body is the old one with all its positions
moved (`Insertion.ahead_before`), except that an `otherwise` directly before a closing instruction
becomes the alternative of the scope that ends there. So the longer body is a layout of the same code
as soon as what stands at the place of the insertion does what the shorter body does there
(`Insertion.layout`).
-/

namespace ScopeMachine

namespace Jump

/-- Where a position is found after an instruction has been inserted. -/
def past (place q : Nat) : Nat := if q < place then q else q + 1

theorem past_of_lt {place q : Nat} (before : q < place) : past place q = q := if_pos before

theorem past_of_le {place q : Nat} (behind : place ≤ q) : past place q = q + 1 :=
  if_neg (Nat.not_lt.mpr behind)

/-- The boundaries of a scope after an instruction has been inserted, which may be the alternative of the
scope that ends there. -/
def moved (place : Nat) (alternative : Bool) (j : Jump) : Jump where
  elsePc := if alternative = true ∧ j.endPc = place then some place else j.elsePc.map (past place)
  endPc := past place j.endPc

variable {place : Nat} {alternative : Bool}

theorem moved_false (j : Jump) :
    j.moved place false = { elsePc := j.elsePc.map (past place), endPc := past place j.endPc } := by
  simp only [moved, Bool.false_eq_true, false_and, ↓reduceIte]

theorem elsePc_moved {j : Jump} (other : alternative = true → j.endPc ≠ place) :
    (j.moved place alternative).elsePc = j.elsePc.map (past place) :=
  if_neg fun ⟨isAlternative, same⟩ => other isAlternative same

theorem moved_end {q : Nat} (other : alternative = true → q ≠ place) :
    moved place alternative { endPc := q } = { endPc := past place q } :=
  congrArg (fun elsePc => Jump.mk elsePc (past place q)) (elsePc_moved (j := { endPc := q }) other)

/-- Where an alternative begins is moved, unless the added instruction begins a later one. -/
theorem moved_otherwise (j : Jump) (q : Nat) :
    moved place alternative { j with elsePc := j.elsePc <|> some q } =
      { moved place alternative j with
        elsePc := (moved place alternative j).elsePc <|> some (past place q) } := by
  unfold moved
  by_cases added : alternative = true ∧ j.endPc = place
  · simp only [added, and_self, ↓reduceIte]
    rfl
  · simp only [added, ↓reduceIte]
    cases j.elsePc <;> rfl

end Jump

namespace Function

/-- An instruction that stands in both bodies changes the boundaries ahead alike. -/
theorem ahead_moved {f g : Function} {place q q' : Nat} {alternative : Bool} {i : Instruction}
    (here : f.body[q]? = some i) (there : g.body[q']? = some i) (found : Jump.past place q = q')
    (other : alternative = true → q ≠ place)
    (next : ∀ k, g.ahead (q' + 1) k = (f.ahead (q + 1) k).moved place alternative) (k : Nat) :
    g.ahead q' k = (f.ahead q k).moved place alternative := by
  subst found
  cases i with
  | enter kind type => rw [ahead_enter here, ahead_enter there, next]
  | close =>
    cases k with
    | zero => rw [ahead_close_zero here, ahead_close_zero there, Jump.moved_end other]
    | succ k => rw [ahead_close_succ here, ahead_close_succ there, next]
  | otherwise =>
    cases k with
    | zero => rw [ahead_otherwise_zero here, ahead_otherwise_zero there, next, Jump.moved_otherwise]
    | succ k => rw [ahead_otherwise_succ here, ahead_otherwise_succ there, next]
  | _ => rw [ahead_of_keepsScopes here rfl, ahead_of_keepsScopes there rfl, next]

/-- `g` has one instruction more than `f`. The next `width` instructions, of which there may be one, are
other ones, but they do not concern scopes on either side. -/
structure Insertion (f g : Function) (place width : Nat) (added : Instruction) : Prop where
  params : g.params = f.params
  locals : g.locals = f.locals
  size : g.size = f.size + 1
  narrow : width ≤ 1
  within : place + width ≤ f.size
  before : ∀ q < place, g.body[q]? = f.body[q]?
  added : g.body[place]? = some added
  replaced : ∀ q, place ≤ q → q < place + width → ∃ i j, f.body[q]? = some i ∧ g.body[q + 1]? = some j ∧
    i.keepsScopes = true ∧ j.keepsScopes = true
  after : ∀ q, place + width ≤ q → g.body[q + 1]? = f.body[q]?

/-- The positions that correspond after an insertion. At the place where it is made, both the added
instruction and the one behind it do, unless the latter has been replaced. -/
def Placed (f : Function) (place width q q' : Nat) : Prop :=
  q ≤ f.size ∧ (q' = q ∧ q ≤ place ∨ q' = q + 1 ∧ place + width ≤ q)

/-- What an insertion makes of the boundaries of the scopes that are open there. If it is an alternative,
the scope has had none and is closed directly behind it. -/
structure Resolved (f g : Function) (place : Nat) (alternative : Bool) : Prop where
  ahead : ∀ k, g.ahead place k = (f.ahead place k).moved place alternative
  closes : alternative = true → g.body[place + 1]? = some .close
  lacks : alternative = true → ∀ {opener type}, f.body[opener]? = some (.enter .cond type) →
    f.matchingEnd opener = place → f.matchingElse opener = none

namespace Insertion

open Jump

variable {f g : Function} {place width q : Nat} {added : Instruction} {alternative : Bool}

section
variable (insertion : Insertion f g place width added)
include insertion

/-- Behind the insertion all boundaries are one further on. -/
theorem ahead_after (within : q ≤ f.size) (behind : place ≤ q) (k : Nat) :
    g.ahead (q + 1) k = (f.ahead q k).moved place false := by
  induction q, within using backward generalizing k with
  | atEnd =>
    rw [← insertion.size, ahead_size, ahead_size, insertion.size, moved_false, past_of_le behind]
    rfl
  | before q i bound here ih =>
    have next := ih (Nat.le_succ_of_le behind)
    by_cases kept : place + width ≤ q
    · have there : g.body[q + 1]? = some i := (insertion.after q kept).trans here
      exact ahead_moved here there (past_of_le behind) (by simp) next k
    · obtain ⟨i', j, own, there, keeps, keeps'⟩ := insertion.replaced q behind (Nat.lt_of_not_le kept)
      rw [ahead_of_keepsScopes own keeps, ahead_of_keepsScopes there keeps', next]

/-- Before the insertion those boundaries are one further on that lie behind it. -/
theorem ahead_before (atPlace : ∀ k, g.ahead place k = (f.ahead place k).moved place alternative)
    (within : q ≤ place) (k : Nat) : g.ahead q k = (f.ahead q k).moved place alternative := by
  induction within using Nat.decreasingInduction generalizing k with
  | self => exact atPlace k
  | of_succ q bound ih =>
    have inside : q < f.size := by
      have := insertion.within
      omega
    have here := Array.getElem?_eq_getElem inside
    have there := (insertion.before q bound).trans here
    exact ahead_moved here there (past_of_lt bound) (fun _ => Nat.ne_of_lt bound) ih k

end

/-- An added `otherwise` is the alternative of the scope that is closed directly behind it. -/
theorem atPlace_of_close (insertion : Insertion f g place 0 .otherwise)
    (close : f.body[place]? = some .close) (k : Nat) :
    g.ahead place k = (f.ahead place k).moved place true := by
  have bound : place < f.size := (Array.getElem?_eq_some_iff.mp close).1
  have after (k : Nat) : g.ahead (place + 1) k = (f.ahead place k).moved place false :=
    insertion.ahead_after (Nat.le_of_lt bound) (Nat.le_refl place) k
  cases k with
  | zero =>
    rw [ahead_otherwise_zero insertion.added, after, ahead_close_zero close]
    simp only [moved, and_self, Bool.false_eq_true, false_and, ↓reduceIte]
    rfl
  | succ k =>
    have later : place + 1 ≤ (f.ahead (place + 1) k).endPc := (bounds_ahead bound k).le_endPc
    have other : (f.ahead (place + 1) k).endPc ≠ place := by omega
    rw [ahead_otherwise_succ insertion.added, after, ahead_close_succ close, moved, moved]
    simp only [other, and_false]

section
variable {q' : Nat} (insertion : Insertion f g place width added)
include insertion

theorem placed_behind {e : Nat} (bound : e < f.size) : Placed f place width (e + 1) (past place e + 1) := by
  have := insertion.narrow
  unfold Placed past
  split <;> omega

theorem placed_afterEnd (ends : g.matchingEnd q' = past place (f.matchingEnd q)) :
    Placed f place width (f.afterEnd q) (g.afterEnd q') := by
  have := insertion.narrow
  have := insertion.within
  unfold Placed afterEnd
  rw [ends, insertion.size]
  unfold past
  split <;> omega

theorem alternatives {type : BlockType} (here : f.body[q]? = some (.enter .cond type))
    (begins : g.matchingElse q' = (f.matchingElse q).map (past place)) :
    Option.Rel (fun e e' => Placed f place width (e + 1) (e' + 1)) (f.matchingElse q) (g.matchingElse q') := by
  rw [begins]
  cases found : f.matchingElse q with
  | none => exact .none
  | some elsePc =>
    obtain ⟨-, otherwise⟩ := matchingElse_spec here found
    exact .some (insertion.placed_behind (Array.getElem?_eq_some_iff.mp otherwise).1)

theorem behind_opener {i : Instruction} (here : f.body[q]? = some i) (there : g.body[q']? = some i)
    (ends : (g.ahead (q' + 1) 0).endPc = past place (f.ahead (q + 1) 0).endPc) (opener : i.opensScope = true) :
    Placed f place width (f.afterEnd q) (g.afterEnd q') := by
  cases i with
  | enter kind type =>
    apply insertion.placed_afterEnd
    rw [matchingEnd_enter here, matchingEnd_enter there, ends]
  | _ => cases opener

/-- Behind the insertion the same instructions stand one further on. -/
theorem matches_after (within : q ≤ f.size) (behind : place + width ≤ q) :
    Matches f g (Placed f place width) q (q + 1) := by
  rcases Nat.eq_or_lt_of_le within with rfl | bound
  · exact .ends rfl insertion.size.symm
  have here := Array.getElem?_eq_getElem bound
  generalize f.body[q] = i at here
  have there := (insertion.after q behind).trans here
  have later : place ≤ q + 1 := by omega
  have ahead := insertion.ahead_after bound later 0
  have ends := congrArg Jump.endPc ahead
  refine .same ⟨here, there, ⟨within, .inr ⟨rfl, behind⟩⟩, ⟨bound, .inr ⟨rfl, by omega⟩⟩,
    insertion.behind_opener here there ends⟩ ?_
  rintro type rfl
  apply insertion.alternatives here
  rw [matchingElse_cond here, matchingElse_cond there, ahead, moved_false]

/-- Before the insertion the same instructions stand where they stood. A condition that ends where an
alternative is added has got that alternative. -/
theorem matches_before (resolved : Resolved f g place alternative) (before : q < place) :
    Matches f g (Placed f place width) q q := by
  have within := insertion.within
  have bound : q < f.size := by omega
  have here := Array.getElem?_eq_getElem bound
  generalize f.body[q] = i at here
  have there := (insertion.before q before).trans here
  have ahead := insertion.ahead_before resolved.ahead before 0
  have ends := congrArg Jump.endPc ahead
  have alike : f.Alike g (Placed f place width) i q q :=
    ⟨here, there, ⟨Nat.le_of_lt bound, .inl ⟨rfl, Nat.le_of_lt before⟩⟩, ⟨bound, .inl ⟨rfl, before⟩⟩,
      insertion.behind_opener here there ends⟩
  by_cases filled : alternative = true ∧ (∃ type, i = .enter .cond type) ∧ f.matchingEnd q = place
  -- Only a condition that ends at the place of the insertion can have got another alternative.
  · obtain ⟨isAlternative, ⟨type, rfl⟩, last⟩ := filled
    have begins : g.matchingElse q = some place := by
      rw [matchingElse_cond there, ahead]
      exact if_pos ⟨isAlternative, matchingEnd_enter here ▸ last⟩
    have closes := resolved.closes isAlternative
    have inside : place + 1 < g.size := (Array.getElem?_eq_some_iff.mp closes).1
    rw [insertion.size] at inside
    refine .cond alike (resolved.lacks isAlternative here last) begins closes ?_
    have := insertion.narrow
    unfold Placed afterEnd
    omega
  · refine .same alike ?_
    rintro type rfl
    apply insertion.alternatives here
    rw [matchingElse_cond here, matchingElse_cond there, ahead]
    apply elsePc_moved
    rintro isAlternative last
    exact filled ⟨isAlternative, ⟨type, rfl⟩, matchingEnd_enter here ▸ last⟩

/-- A body with an insertion is a layout of the same code if that holds of the place of the insertion. -/
theorem layout (resolved : Resolved f g place alternative)
    (spot : Pauses f g (Placed f place width) place place) :
    f.Layout g (Placed f place width) where
  params := insertion.params
  locals := insertion.locals
  starts := ⟨Nat.zero_le _, .inl ⟨rfl, Nat.zero_le _⟩⟩
  finishes := ⟨Nat.le_refl _, .inr ⟨insertion.size, insertion.within⟩⟩
  pauses := by
    rintro q q' ⟨within, ⟨rfl, before⟩ | ⟨rfl, behind⟩⟩
    · rcases Nat.eq_or_lt_of_le before with rfl | before
      · exact spot
      · exact .now (insertion.matches_before resolved before)
    · exact .now (insertion.matches_after within behind)

end

end Insertion

/-- An added instruction that does not concern scopes moves boundaries only. -/
theorem Resolved.of_keepsScopes (insertion : Insertion f g place width added)
    (keeps : added.keepsScopes = true) : Resolved f g place false where
  ahead k := by
    have within : place ≤ f.size := Nat.le_of_add_right_le insertion.within
    rw [ahead_of_keepsScopes insertion.added keeps, insertion.ahead_after within (Nat.le_refl _)]
  closes isAlternative := nomatch isAlternative
  lacks isAlternative := nomatch isAlternative

end Function

end ScopeMachine

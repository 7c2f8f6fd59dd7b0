import Mathlib.Data.List.Forall2

/-! # Lists that are related member by member

A list is read by reading each of its members, so what relates the members that are read to what they are read
from relates the lists.
-/

namespace ScopeMachine

variable {α β γ : Type}

/-- Lists that are related exist as soon as each member of one is related to something. -/
theorem exists_forall₂_iff {R : α → β → Prop} {xs : List α} :
    (∃ ys, List.Forall₂ R xs ys) ↔ ∀ x ∈ xs, ∃ y, R x y := by
  induction xs with
  | nil => simp
  | cons x xs ih =>
    simp only [List.forall₂_cons_left_iff, List.forall_mem_cons, ← ih]
    exact ⟨fun ⟨_, y, ys, head, tail, _⟩ => ⟨⟨y, head⟩, ys, tail⟩,
      fun ⟨⟨y, head⟩, ys, tail⟩ => ⟨_, y, ys, head, tail, rfl⟩⟩

/-- What is written member by member can be read member by member if each member can. -/
theorem forall₂_map_self {R : β → α → Prop} {write : α → β} (back : ∀ a, R (write a) a) (as : List α) :
    List.Forall₂ R (as.map write) as :=
  List.forall₂_map_left_iff.mpr (List.forall₂_same.mpr fun a _ => back a)

/-- A list is what is written of another one if each member is. -/
theorem forall₂_eq_map_iff {write : α → β} {bs : List β} {as : List α} :
    List.Forall₂ (fun b a => b = write a) bs as ↔ bs = as.map write := by
  rw [← List.forall₂_map_right_iff (R := Eq), List.forall₂_eq_eq_eq]

/-- How the members of a list are related to others may be said in another way. -/
theorem forall₂_congr {R S : α → β → Prop} {xs : List α} {ys : List β} (same : ∀ x ∈ xs, ∀ y, R x y ↔ S x y) :
    List.Forall₂ R xs ys ↔ List.Forall₂ S xs ys := by
  induction xs generalizing ys with
  | nil => simp
  | cons x xs ih =>
    obtain ⟨head, tail⟩ := List.forall_mem_cons.mp same
    simp only [List.forall₂_cons_left_iff, head, ih tail]

/-- Lists that are obtained from the same list are related if what is obtained from the same member is. -/
theorem forall₂_of_common {P : α → β → Prop} {Q : α → γ → Prop} {R : β → γ → Prop} {xs : List α} {ys : List β}
    {zs : List γ} (left : List.Forall₂ P xs ys) (right : List.Forall₂ Q xs zs)
    (both : ∀ x ∈ xs, ∀ y z, P x y → Q x z → R y z) : List.Forall₂ R ys zs := by
  induction left generalizing zs with
  | nil =>
    cases right
    exact .nil
  | @cons x y xs ys head _ ih =>
    cases right with
    | cons head' tail' =>
      exact .cons (both x List.mem_cons_self _ _ head head')
        (ih tail' fun x member => both x (List.mem_cons_of_mem _ member))

/-- Related lists look the same if related members do. -/
theorem map_eq_of_forall₂ {R : α → α → Prop} {look : α → β} {xs ys : List α} (related : List.Forall₂ R xs ys)
    (same : ∀ x y, R x y → look y = look x) : ys.map look = xs.map look := by
  induction related with
  | nil => rfl
  | cons head _ ih => rw [List.map_cons, List.map_cons, same _ _ head, ih]

theorem bind_eq_ok_iff {ε : Type} {x : Except ε α} {next : α → Except ε β} {b : β} :
    x >>= next = .ok b ↔ ∃ a, x = .ok a ∧ next a = .ok b := by
  cases x <;> simp [bind, Except.bind]

theorem mapM_eq_ok_iff {ε : Type} {read : α → Except ε β} {xs : List α} {ys : List β} :
    xs.mapM read = .ok ys ↔ List.Forall₂ (fun x y => read x = .ok y) xs ys := by
  induction xs generalizing ys with
  | nil => simp [pure, Except.pure, eq_comm]
  | cons x xs ih =>
    simp only [List.mapM_cons, bind_eq_ok_iff, ih, List.forall₂_cons_left_iff, pure, Except.pure,
      Except.ok.injEq]
    exact ⟨fun ⟨y, head, ys, tail, whole⟩ => ⟨y, ys, head, tail, whole.symm⟩,
      fun ⟨y, ys, head, tail, whole⟩ => ⟨y, head, ys, tail, whole.symm⟩⟩

theorem mapM_eq_some_iff {read : α → Option β} {xs : List α} {ys : List β} :
    xs.mapM read = some ys ↔ List.Forall₂ (fun x y => read x = some y) xs ys := by
  induction xs generalizing ys with
  | nil => simp [eq_comm]
  | cons x xs ih =>
    simp only [List.mapM_cons, bind, Option.bind_eq_some_iff, ih, List.forall₂_cons_left_iff, pure,
      Option.some.injEq]
    exact ⟨fun ⟨y, head, ys, tail, whole⟩ => ⟨y, ys, head, tail, whole.symm⟩,
      fun ⟨y, ys, head, tail, whole⟩ => ⟨y, head, ys, tail, whole.symm⟩⟩

end ScopeMachine

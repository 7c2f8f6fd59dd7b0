import ScopeMachine.Proofs.Jump

/-! # The static nesting of scopes

`Function.openAt` reads off a jump table which scopes are open before a position: those of the openers
before it that end at it or later. Read forward, an opener adds itself to that list, a closing
instruction takes away the last of it if there is one, and nothing else changes it. A jump to an
opener, or behind the closing instruction of its scope, arrives where the scopes around that opener
are open and no others, and so the static list can be compared with the scopes of a running frame.
-/

namespace ScopeMachine.Function

variable {f : Function} {pc : Nat}

/-- Whether the instruction at a position opens a scope. -/
def opens (f : Function) (pc : Nat) : Bool := f.body[pc]?.any Instruction.opensScope

/-- The openers before a position whose scopes do not end before it, the outermost first. -/
def openAt (f : Function) (pc : Nat) : List Nat :=
  (List.range pc).filter fun opener => f.opens opener && pc ≤ f.matchingEnd opener

/-- The same openers, the innermost first. -/
def enclosing (f : Function) (pc : Nat) : List Nat := (f.openAt pc).reverse

theorem opens_iff : f.opens pc = true ↔ ∃ kind type, f.body[pc]? = some (.enter kind type) := by
  unfold opens
  cases f.body[pc]? with
  | none => simp
  | some i => cases i <;> simp [Instruction.opensScope, Instruction.blockType?]

theorem mem_enclosing {opener : Nat} :
    opener ∈ f.enclosing pc ↔ opener < pc ∧ f.opens opener = true ∧ pc ≤ f.matchingEnd opener := by
  rw [enclosing, List.mem_reverse, openAt, List.mem_filter, List.mem_range, Bool.and_eq_true, decide_eq_true_iff]

/-- One instruction further on, scopes that end with it are gone and one that it opens is new. -/
private theorem enclosing_succ : f.enclosing (pc + 1) =
    (if f.opens pc then [pc] else []) ++ (f.enclosing pc).filter fun opener => pc + 1 ≤ f.matchingEnd opener := by
  have here : [pc].filter (fun opener => f.opens opener && decide (pc + 1 ≤ f.matchingEnd opener)) =
      if f.opens pc then [pc] else [] := by
    by_cases opener : f.opens pc = true
    · obtain ⟨kind, type, next⟩ := opens_iff.mp opener
      have later : pc + 1 ≤ f.matchingEnd pc := lt_matchingEnd next
      have kept : (f.opens pc && decide (pc + 1 ≤ f.matchingEnd pc)) = true := by
        rw [opener, Bool.true_and, decide_eq_true later]
      rw [if_pos opener]
      apply List.filter_cons_of_pos
      exact kept
    · simp [opener]
  have before : (List.range pc).filter (fun opener => f.opens opener && decide (pc + 1 ≤ f.matchingEnd opener)) =
      (f.openAt pc).filter fun opener => pc + 1 ≤ f.matchingEnd opener := by
    rw [openAt, List.filter_filter]
    apply List.filter_congr
    intro opener _
    apply Bool.eq_iff_iff.mpr
    simp only [Bool.and_eq_true, decide_eq_true_eq]
    constructor
    · rintro ⟨opens, later⟩
      exact ⟨later, opens, Nat.le_of_succ_le later⟩
    · rintro ⟨later, opens, -⟩
      exact ⟨opens, later⟩
  rw [enclosing, openAt, List.range_succ, List.filter_append, here, before, List.reverse_append,
    enclosing, List.filter_reverse]
  congr 1
  split <;> rfl

private theorem filter_eq_self_of_ahead {openers : List Nat} (bound : pc < f.size)
    (later : ∀ (k opener : Nat), openers[k]? = some opener →
      ∃ n, f.matchingEnd opener = (f.ahead (pc + 1) n).endPc) :
    openers.filter (fun opener => pc + 1 ≤ f.matchingEnd opener) = openers := by
  apply List.filter_eq_self.mpr
  intro opener member
  obtain ⟨k, found⟩ := List.mem_iff_getElem?.mp member
  obtain ⟨n, ends⟩ := later k opener found
  have bounds := bounds_ahead (f := f) bound n
  exact decide_eq_true (ends ▸ bounds.le_endPc)

/-- The scopes open before a position are numbered from the inside out as the boundaries ahead are. -/
def Aligned (f : Function) (pc : Nat) : Prop :=
  ∀ k opener : Nat, (f.enclosing pc)[k]? = some opener → f.matchingEnd opener = (f.ahead pc k).endPc

namespace Aligned

variable (aligned : f.Aligned pc)
include aligned

theorem enter {kind : ScopeKind} {type : BlockType} (next : f.body[pc]? = some (.enter kind type)) :
    f.enclosing (pc + 1) = pc :: f.enclosing pc := by
  have bound : pc < f.size := (Array.getElem?_eq_some_iff.mp next).1
  have opener : f.opens pc = true := opens_iff.mpr ⟨kind, type, next⟩
  have kept : (f.enclosing pc).filter (fun opener => pc + 1 ≤ f.matchingEnd opener) = f.enclosing pc := by
    apply filter_eq_self_of_ahead bound
    intro k opener found
    exact ⟨k + 1, by rw [aligned k opener found, ahead_enter next]⟩
  rw [enclosing_succ, kept, if_pos opener]
  rfl

theorem close (next : f.body[pc]? = some .close) : f.enclosing (pc + 1) = (f.enclosing pc).drop 1 := by
  have bound : pc < f.size := (Array.getElem?_eq_some_iff.mp next).1
  have notOpener : f.opens pc ≠ true := by simp [opens, next, Instruction.opensScope, Instruction.blockType?]
  rw [enclosing_succ, if_neg notOpener, List.nil_append]
  cases openers : f.enclosing pc with
  | nil => rfl
  | cons innermost outer =>
    have closed : f.matchingEnd innermost = pc := by
      rw [aligned 0 innermost (by rw [openers]; rfl), ahead_close_zero next]
    have kept : outer.filter (fun opener => pc + 1 ≤ f.matchingEnd opener) = outer := by
      apply filter_eq_self_of_ahead bound
      intro k opener found
      refine ⟨k, ?_⟩
      rw [aligned (k + 1) opener (by rw [openers]; exact found), ahead_close_succ next]
    rw [List.filter_cons_of_neg (by simp [closed]), kept]
    rfl

theorem stays {i : Instruction} (next : f.body[pc]? = some i) (notOpener : i.opensScope = false)
    (notClose : i ≠ .close) : f.enclosing (pc + 1) = f.enclosing pc := by
  have bound : pc < f.size := (Array.getElem?_eq_some_iff.mp next).1
  have passive : f.opens pc ≠ true := by simp [opens, next, notOpener]
  have kept : (f.enclosing pc).filter (fun opener => pc + 1 ≤ f.matchingEnd opener) = f.enclosing pc := by
    apply filter_eq_self_of_ahead bound
    intro k opener found
    exact ⟨k, by rw [aligned k opener found, endPc_ahead next notOpener notClose]⟩
  rw [enclosing_succ, if_neg passive, List.nil_append, kept]

/-- Each instruction renumbers the open scopes and the boundaries ahead alike. -/
theorem succ (bound : pc < f.size) : f.Aligned (pc + 1) := by
  intro k opener found
  obtain ⟨i, next⟩ : ∃ i, f.body[pc]? = some i := ⟨_, Array.getElem?_eq_getElem bound⟩
  cases i with
  | enter kind type =>
    rw [aligned.enter next] at found
    cases k with
    | zero =>
      obtain rfl : pc = opener := Option.some.inj found
      exact matchingEnd_enter next
    | succ k => rw [aligned k opener found, ahead_enter next]
  | close =>
    rw [aligned.close next, List.getElem?_drop, Nat.add_comm] at found
    rw [aligned (k + 1) opener found, ahead_close_succ next]
  | _ =>
    rw [aligned.stays next rfl nofun] at found
    rw [aligned k opener found, endPc_ahead next rfl nofun]

end Aligned

/-- Every boundary ahead is that of the scope with its number. -/
theorem aligned (within : pc ≤ f.size) : f.Aligned pc := by
  induction pc with
  | zero => exact nofun
  | succ pc ih => exact (ih (Nat.le_of_lt within)).succ within

/-- Of two scopes that are open before a position, the outer one ends later unless nothing closes it. -/
theorem endPc_ahead_lt (within : pc ≤ f.size) {j k : Nat} (inside : j < k) :
    (f.ahead pc j).endPc < (f.ahead pc k).endPc ∨ (f.ahead pc k).endPc = f.size := by
  induction pc, within using backward generalizing j k with
  | atEnd =>
    rw [ahead_size k]
    exact .inr rfl
  | before pc i bound next ih =>
    cases i with
    | enter kind type =>
      rw [ahead_enter next, ahead_enter next]
      exact ih (by omega)
    | close =>
      have outer : k ≠ 0 := by omega
      obtain ⟨k, rfl⟩ := Nat.exists_eq_succ_of_ne_zero outer
      rw [ahead_close_succ next]
      cases j with
      | zero =>
        rw [ahead_close_zero next]
        exact .inl (bounds_ahead bound k).le_endPc
      | succ j =>
        rw [ahead_close_succ next]
        exact ih (by omega)
    | _ =>
      rw [endPc_ahead next rfl nofun, endPc_ahead next rfl nofun]
      exact ih inside

/-- A scope opened inside another one ends before it, unless nothing closes the outer one. -/
theorem matchingEnd_nested {outer inner : Nat} (opensOuter : f.opens outer = true)
    (opensInner : f.opens inner = true) (after : outer < inner) (inside : inner ≤ f.matchingEnd outer) :
    f.matchingEnd inner < f.matchingEnd outer ∨ f.matchingEnd outer = f.size := by
  obtain ⟨kind, type, next⟩ := opens_iff.mp opensInner
  have bound : inner < f.size := (Array.getElem?_eq_some_iff.mp next).1
  have member : outer ∈ f.enclosing inner := mem_enclosing.mpr ⟨after, opensOuter, inside⟩
  obtain ⟨k, found⟩ := List.mem_iff_getElem?.mp member
  rw [aligned (Nat.le_of_lt bound) k outer found, ahead_enter next, matchingEnd_enter next]
  exact endPc_ahead_lt bound (Nat.succ_pos k)

/-- Two scopes do not end at the same closing instruction. -/
theorem matchingEnd_injective {opener other : Nat} (opensOne : f.opens opener = true)
    (opensOther : f.opens other = true) (closed : f.matchingEnd opener < f.size)
    (same : f.matchingEnd other = f.matchingEnd opener) : other = opener := by
  obtain ⟨_, _, next⟩ := opens_iff.mp opensOne
  obtain ⟨_, _, next'⟩ := opens_iff.mp opensOther
  have := lt_matchingEnd next
  have := lt_matchingEnd next'
  rcases Nat.lt_trichotomy other opener with before | rfl | after
  · have := matchingEnd_nested opensOther opensOne before (by omega)
    omega
  · rfl
  · have := matchingEnd_nested opensOne opensOther after (by omega)
    omega

/-- Before the closing instruction of a scope, that scope is the innermost one. -/
theorem enclosing_before_matchingEnd {opener : Nat} (opens : f.opens opener = true)
    (closed : f.matchingEnd opener < f.size) : (f.enclosing (f.matchingEnd opener)).head? = some opener := by
  obtain ⟨_, _, next⟩ := opens_iff.mp opens
  have member := mem_enclosing.mpr ⟨lt_matchingEnd next, opens, Nat.le_refl _⟩
  obtain ⟨k, found⟩ := List.mem_iff_getElem?.mp member
  have within := Nat.le_of_lt closed
  have ends := aligned within k opener found
  cases k with
  | zero => rw [List.head?_eq_getElem?, found]
  | succ k =>
    have first := (bounds_ahead within 0).le_endPc
    have inside : 0 < k + 1 := Nat.succ_pos k
    have nested := endPc_ahead_lt within inside
    omega

/-- Positions up to a limit, from before one of them, that position itself and from after it. -/
private theorem range_split {opener limit : Nat} (before : opener < limit) :
    ∃ later, List.range limit = List.range opener ++ opener :: later ∧
      ∀ position ∈ later, opener < position ∧ position < limit := by
  obtain ⟨extra, rfl⟩ := Nat.exists_eq_add_of_lt before
  refine ⟨(List.range extra).map (opener + 1 + ·), ?_, ?_⟩
  · rw [Nat.add_right_comm, List.range_add, List.range_succ, List.append_assoc]
    rfl
  · intro position member
    obtain ⟨n, bound, rfl⟩ := List.mem_map.mp member
    have bound := List.mem_range.mp bound
    omega

/-- What comes after an element of a list that contains it once. -/
private theorem drop_of_getElem? {left right : List Nat} {opener k : Nat} (notLeft : opener ∉ left)
    (notRight : opener ∉ right) (found : (left ++ opener :: right)[k]? = some opener) :
    (left ++ opener :: right).drop (k + 1) = right := by
  induction left generalizing k with
  | nil =>
    cases k with
    | zero => rfl
    | succ k => exact (notRight (List.mem_of_getElem? found)).elim
  | cons position left ih =>
    obtain ⟨different, notLeft⟩ := not_or.mp (mt List.mem_cons.mpr notLeft)
    cases k with
    | zero => exact (different (Option.some.inj found).symm).elim
    | succ k => exact ih notLeft found

/-- Around an open scope are the earlier ones that are open too. -/
private theorem drop_enclosing {k opener : Nat} (found : (f.enclosing pc)[k]? = some opener) :
    (f.enclosing pc).drop (k + 1) =
      ((List.range opener).filter fun outer => f.opens outer && pc ≤ f.matchingEnd outer).reverse := by
  obtain ⟨before, opensOpener, stillOpen⟩ := mem_enclosing.mp (List.mem_of_getElem? found)
  obtain ⟨later, range, after⟩ := range_split before
  rw [enclosing, openAt, range, List.filter_append, List.filter_cons_of_pos (by simp [opensOpener, stillOpen]),
    List.reverse_append, List.reverse_cons, List.append_assoc] at found ⊢
  apply drop_of_getElem? _ _ found
  · intro member
    have := after opener (List.mem_filter.mp (List.mem_reverse.mp member)).1
    omega
  · intro member
    have := List.mem_range.mp (List.mem_filter.mp (List.mem_reverse.mp member)).1
    omega

/-- Back at an opener, the scopes around it are open. -/
theorem enclosing_opener (within : pc ≤ f.size) {k opener : Nat} (found : (f.enclosing pc)[k]? = some opener) :
    f.enclosing opener = (f.enclosing pc).drop (k + 1) := by
  obtain ⟨before, opensOpener, stillOpen⟩ := mem_enclosing.mp (List.mem_of_getElem? found)
  rw [drop_enclosing found, enclosing, openAt]
  congr 1
  apply List.filter_congr
  intro outer member
  have earlier : outer < opener := List.mem_range.mp member
  apply Bool.eq_iff_iff.mpr
  simp only [Bool.and_eq_true, decide_eq_true_eq]
  constructor
  · rintro ⟨opensOuter, inside⟩
    have nested := matchingEnd_nested opensOuter opensOpener earlier inside
    exact ⟨opensOuter, by omega⟩
  · rintro ⟨opensOuter, inside⟩
    exact ⟨opensOuter, by omega⟩

/-- Behind the end of a scope, the scopes around it are open. -/
theorem enclosing_after {k opener : Nat} (found : (f.enclosing pc)[k]? = some opener)
    (closed : f.matchingEnd opener < f.size) :
    f.enclosing (f.matchingEnd opener + 1) = (f.enclosing pc).drop (k + 1) := by
  obtain ⟨before, opensOpener, stillOpen⟩ := mem_enclosing.mp (List.mem_of_getElem? found)
  have inside : opener < f.matchingEnd opener + 1 := by omega
  obtain ⟨later, range, after⟩ := range_split inside
  have none : (opener :: later).filter (fun inner => f.opens inner && f.matchingEnd opener + 1 ≤ f.matchingEnd inner)
      = [] := by
    apply List.filter_eq_nil_iff.mpr
    intro inner member
    simp only [Bool.and_eq_true, decide_eq_true_eq]
    rintro ⟨opensInner, outlives⟩
    rcases List.mem_cons.mp member with rfl | member
    · omega
    · have position := after inner member
      have nested := matchingEnd_nested opensOpener opensInner position.1 (by omega)
      omega
  rw [drop_enclosing found, enclosing, openAt, range, List.filter_append, none, List.append_nil]
  congr 1
  apply List.filter_congr
  intro outer member
  have earlier : outer < opener := List.mem_range.mp member
  apply Bool.eq_iff_iff.mpr
  simp only [Bool.and_eq_true, decide_eq_true_eq]
  constructor
  · rintro ⟨opensOuter, inside⟩
    exact ⟨opensOuter, by omega⟩
  · rintro ⟨opensOuter, inside⟩
    have nested := matchingEnd_nested opensOuter opensOpener earlier (by omega)
    exact ⟨opensOuter, by omega⟩

theorem enclosing_matchingEnd {kind : ScopeKind} {type : BlockType}
    (next : f.body[pc]? = some (.enter kind type)) (closed : f.matchingEnd pc < f.size) :
    f.enclosing (f.matchingEnd pc + 1) = f.enclosing pc := by
  have bound : pc < f.size := (Array.getElem?_eq_some_iff.mp next).1
  have entered := (aligned (Nat.le_of_lt bound)).enter next
  have innermost : (f.enclosing (pc + 1))[0]? = some pc := by
    rw [entered]
    rfl
  rw [enclosing_after innermost closed, entered]
  rfl

/-- An alternative begins where the scope that it belongs to is the innermost one. -/
private theorem enclosing_elsePc {k opener elsePc : Nat} (within : pc ≤ f.size)
    (member : (f.enclosing pc)[k]? = some opener) (found : (f.ahead pc k).elsePc = some elsePc) :
    (f.enclosing elsePc)[0]? = some opener := by
  induction pc, within using backward generalizing k with
  | atEnd =>
    rw [ahead_size] at found
    cases found
  | before pc i bound next ih =>
    have aligned := aligned (Nat.le_of_lt bound)
    cases i with
    | enter kind type =>
      rw [ahead_enter next] at found
      exact ih (by rw [aligned.enter next]; exact member) found
    | close =>
      cases k with
      | zero =>
        rw [ahead_close_zero next] at found
        cases found
      | succ k =>
        rw [ahead_close_succ next] at found
        exact ih (by rw [aligned.close next, List.getElem?_drop, Nat.add_comm]; exact member) found
    | otherwise =>
      have stays := aligned.stays next rfl nofun
      cases k with
      | zero =>
        rw [ahead_otherwise_zero next] at found
        simp only [Option.orElse_eq_orElse, Option.orElse_eq_or, Option.or_eq_some_iff, Option.some.injEq] at found
        rcases found with later | ⟨-, rfl⟩
        · exact ih (by rw [stays]; exact member) later
        · exact member
      | succ k =>
        rw [ahead_otherwise_succ next] at found
        exact ih (by rw [stays]; exact member) found
    | _ =>
      rw [ahead_of_keepsScopes next rfl] at found
      exact ih (by rw [aligned.stays next rfl nofun]; exact member) found

/-- Inside the alternative of a condition, its scope and those around it are open. -/
theorem enclosing_matchingElse {type : BlockType} {elsePc : Nat}
    (next : f.body[pc]? = some (.enter .cond type)) (found : f.matchingElse pc = some elsePc) :
    f.enclosing (elsePc + 1) = pc :: f.enclosing pc := by
  have bound : pc < f.size := (Array.getElem?_eq_some_iff.mp next).1
  obtain ⟨-, otherwise⟩ := matchingElse_spec next found
  have alternative : elsePc < f.size := (Array.getElem?_eq_some_iff.mp otherwise).1
  have entered : (f.enclosing (pc + 1))[0]? = some pc := by
    rw [(aligned (Nat.le_of_lt bound)).enter next]
    rfl
  have innermost := enclosing_elsePc bound entered (matchingElse_cond next ▸ found)
  have around := enclosing_opener (Nat.le_of_lt alternative) innermost
  rw [(aligned (Nat.le_of_lt alternative)).stays otherwise rfl nofun, around]
  cases openers : f.enclosing elsePc with
  | nil =>
    rw [openers] at innermost
    cases innermost
  | cons opener outer =>
    rw [openers] at innermost
    obtain rfl : opener = pc := Option.some.inj innermost
    rfl

/-- The type of the scope that an opener opens and where a branch to that scope continues. -/
def scopeAt (f : Function) (opener : Nat) : BlockType × Nat :=
  match f.body[opener]? with
  | some (.enter .loop type) => (type, opener)
  | some (.enter _ type) => (type, min (f.matchingEnd opener + 1) f.size)
  | _ => default

theorem scopeAt_loop {type : BlockType} (next : f.body[pc]? = some (.enter .loop type)) :
    f.scopeAt pc = (type, pc) := by
  rw [scopeAt, next]

theorem scopeAt_of_ne_loop {kind : ScopeKind} {type : BlockType}
    (next : f.body[pc]? = some (.enter kind type)) (notLoop : kind ≠ .loop) :
    f.scopeAt pc = (type, f.afterEnd pc) := by
  rw [scopeAt, next]
  cases kind with
  | loop => exact (notLoop rfl).elim
  | block | cond => rfl

/-- Every opener has a closing instruction. -/
def Closed (f : Function) : Prop := ∀ opener, f.opens opener = true → f.matchingEnd opener < f.size

theorem Closed.enclosing_size (closed : f.Closed) : f.enclosing f.size = [] := by
  apply List.eq_nil_iff_forall_not_mem.mpr
  intro opener member
  obtain ⟨-, opens, unclosed⟩ := mem_enclosing.mp member
  exact Nat.not_lt.mpr unclosed (closed opener opens)

/-- The largest number of scopes that are open at once. -/
def nestingDepth (f : Function) : Nat :=
  ((List.range (f.size + 1)).map fun pc => (f.openAt pc).length).max?.getD 0

theorem length_enclosing_le (within : pc ≤ f.size) : (f.enclosing pc).length ≤ f.nestingDepth := by
  have member : (f.openAt pc).length ∈ (List.range (f.size + 1)).map fun pc => (f.openAt pc).length :=
    List.mem_map_of_mem (List.mem_range.mpr (Nat.lt_succ_of_le within))
  rw [enclosing, List.length_reverse]
  exact List.le_max?_getD_of_mem member

end ScopeMachine.Function

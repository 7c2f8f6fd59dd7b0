import ScopeMachine.Function

/-! # What lies ahead of a position

What a jump table has to say can also be read off a body from its last instruction to its first. What
has been read then holds the scopes that end there, and the next opener belongs to the innermost of
them. `Function.ahead` numbers the boundaries of the scopes that are open before a position from the
inside out, and every instruction changes that numbering in one simple way.

The pass from the first instruction to the last meets these boundaries half way: at every position an
entry of an open scope, completed by what lies ahead, is the entry of the whole body
(`Function.Agrees`). So the table is the one read off from the end (`Jump.table_eq_outlook`), and facts
about it are facts about `ahead`, proved from the end of the body to its start.
-/

namespace ScopeMachine

/-- Whether an instruction leaves all boundaries of scopes to other instructions. -/
def Instruction.keepsScopes : Instruction → Bool
  | enter _ _ | otherwise | close => false
  | _ => true

namespace Jump

/-- What the instructions from some position on tell about the scopes that are open before it. Scopes that no
instruction closes reach to the end of the body, so there is always an innermost one. -/
structure Outlook where
  /-- The boundaries of the innermost scope. -/
  innermost : Jump
  /-- The boundaries of the scopes around it that are closed, from the inside out. -/
  outer : List Jump := []
  /-- For every instruction from there on the boundaries of the scope that it opens. -/
  table : List (Option Jump) := []

/-- At the end of a body every open scope reaches to that end. -/
def Outlook.atEnd (size : Nat) : Outlook := { innermost := { endPc := size } }

/-- The outlook from before the instruction at `pc`, given the outlook from after it. -/
def Outlook.before (size pc : Nat) (i : Instruction) (after : Outlook) : Outlook :=
  match i with
  | .enter kind _ =>
    { innermost := after.outer.headD { endPc := size }
      outer := after.outer.tail
      table := some { after.innermost with
        elsePc := if kind = .cond then after.innermost.elsePc else none } :: after.table }
  | .close =>
    { innermost := { endPc := pc }
      outer := after.innermost :: after.outer
      table := none :: after.table }
  | .otherwise =>
    { after with
      innermost := { after.innermost with elsePc := after.innermost.elsePc <|> some pc }
      table := none :: after.table }
  | _ => { after with table := none :: after.table }

/-- The outlook from the start of the given instructions, the first of which is at `pc`. -/
def outlook (size pc : Nat) (body : List Instruction) : Outlook :=
  (body.zipIdx pc).foldr (fun (i, pc) after => after.before size pc i) (.atEnd size)

@[simp] theorem outlook_nil (size pc : Nat) : outlook size pc [] = .atEnd size := rfl

@[simp] theorem outlook_cons (size pc : Nat) (i : Instruction) (rest : List Instruction) :
    outlook size pc (i :: rest) = (outlook size (pc + 1) rest).before size pc i := rfl

/-- An outlook has one entry for each instruction. -/
theorem length_table_outlook (size pc : Nat) (body : List Instruction) :
    (outlook size pc body).table.length = body.length := by
  induction body generalizing pc with
  | nil => rfl
  | cons i rest ih => cases i <;> simp [Outlook.before, ih]

/-- The boundaries of the open scope with the given number from the inside. -/
def Outlook.level (size : Nat) (o : Outlook) : Nat → Jump
  | 0 => o.innermost
  | k + 1 => o.outer[k]?.getD { endPc := size }

namespace Outlook

variable {size pc : Nat} {o : Outlook}

@[simp] theorem level_atEnd (k : Nat) : (atEnd size).level size k = { endPc := size } := by
  cases k <;> rfl

@[simp] theorem level_before_enter (kind : ScopeKind) (type : BlockType) (k : Nat) :
    (o.before size pc (.enter kind type)).level size k = o.level size (k + 1) := by
  obtain ⟨innermost, outer, table⟩ := o
  cases k <;> cases outer <;> rfl

@[simp] theorem level_before_close_zero :
    (o.before size pc .close).level size 0 = { endPc := pc } := rfl

@[simp] theorem level_before_close_succ (k : Nat) :
    (o.before size pc .close).level size (k + 1) = o.level size k := by
  cases k <;> rfl

@[simp] theorem level_before_otherwise_zero :
    (o.before size pc .otherwise).level size 0 =
      { o.level size 0 with elsePc := (o.level size 0).elsePc <|> some pc } := rfl

@[simp] theorem level_before_otherwise_succ (k : Nat) :
    (o.before size pc .otherwise).level size (k + 1) = o.level size (k + 1) := rfl

theorem level_before_of_keepsScopes {i : Instruction} (keeps : i.keepsScopes = true) (k : Nat) :
    (o.before size pc i).level size k = o.level size k := by
  cases i with
  | enter | otherwise | close => cases keeps
  | _ => cases k <;> rfl

theorem tail_table_before (i : Instruction) : (o.before size pc i).table.tail = o.table := by
  cases i <;> rfl

end Outlook

/-- The entries from some position on are those that the outlook from there has. -/
theorem getElem?_table_outlook (size pc : Nat) (body : List Instruction) (n : Nat) :
    (outlook size pc body).table[n]? = (outlook size (pc + n) (body.drop n)).table.head? := by
  induction n generalizing pc body with
  | zero => exact List.head?_eq_getElem?.symm
  | succ n ih =>
    cases body with
    | nil => rfl
    | cons i rest =>
      rw [outlook_cons, ← List.getElem?_tail, Outlook.tail_table_before, ih, Nat.add_right_comm]
      rfl

end Jump

namespace Function

variable {f : Function} {pc : Nat}

/-- The boundaries of the scopes that are open before a position, numbered from the inside out, as the
instructions from there on set them. -/
def ahead (f : Function) (pc k : Nat) : Jump :=
  (Jump.outlook f.size pc (f.body.toList.drop pc)).level f.size k

private theorem outlook_eq_before {i : Instruction} (next : f.body[pc]? = some i) :
    Jump.outlook f.size pc (f.body.toList.drop pc) =
      (Jump.outlook f.size (pc + 1) (f.body.toList.drop (pc + 1))).before f.size pc i := by
  have next : f.body.toList[pc]? = some i := by rwa [Array.getElem?_toList]
  obtain ⟨bound, rfl⟩ := List.getElem?_eq_some_iff.mp next
  rw [List.drop_eq_getElem_cons bound, Jump.outlook_cons]

theorem ahead_size (k : Nat) : f.ahead f.size k = { endPc := f.size } := by
  have past : f.body.toList.drop f.size = [] := List.drop_of_length_le (Nat.le_refl _)
  rw [ahead, past, Jump.outlook_nil, Jump.Outlook.level_atEnd]

theorem ahead_enter {kind : ScopeKind} {type : BlockType} (next : f.body[pc]? = some (.enter kind type))
    (k : Nat) : f.ahead pc k = f.ahead (pc + 1) (k + 1) := by
  rw [ahead, outlook_eq_before next, Jump.Outlook.level_before_enter]
  rfl

theorem ahead_close_zero (next : f.body[pc]? = some .close) : f.ahead pc 0 = { endPc := pc } := by
  rw [ahead, outlook_eq_before next, Jump.Outlook.level_before_close_zero]

theorem ahead_close_succ (next : f.body[pc]? = some .close) (k : Nat) :
    f.ahead pc (k + 1) = f.ahead (pc + 1) k := by
  rw [ahead, outlook_eq_before next, Jump.Outlook.level_before_close_succ]
  rfl

theorem ahead_otherwise_zero (next : f.body[pc]? = some .otherwise) :
    f.ahead pc 0 =
      { f.ahead (pc + 1) 0 with elsePc := (f.ahead (pc + 1) 0).elsePc <|> some pc } := by
  rw [ahead, outlook_eq_before next, Jump.Outlook.level_before_otherwise_zero]
  rfl

theorem ahead_otherwise_succ (next : f.body[pc]? = some .otherwise) (k : Nat) :
    f.ahead pc (k + 1) = f.ahead (pc + 1) (k + 1) := by
  rw [ahead, outlook_eq_before next, Jump.Outlook.level_before_otherwise_succ]
  rfl

theorem ahead_of_keepsScopes {i : Instruction} (next : f.body[pc]? = some i)
    (keeps : i.keepsScopes = true) (k : Nat) : f.ahead pc k = f.ahead (pc + 1) k := by
  rw [ahead, outlook_eq_before next, Jump.Outlook.level_before_of_keepsScopes keeps]
  rfl

/-- Instructions that neither open nor close a scope do not move its end. -/
theorem endPc_ahead {i : Instruction} (next : f.body[pc]? = some i) (notOpener : i.opensScope = false)
    (notClose : i ≠ .close) (k : Nat) : (f.ahead pc k).endPc = (f.ahead (pc + 1) k).endPc := by
  cases i with
  | enter => cases notOpener
  | close => exact (notClose rfl).elim
  | otherwise =>
    cases k with
    | zero => rw [ahead_otherwise_zero next]
    | succ k => rw [ahead_otherwise_succ next]
  | _ => rw [ahead_of_keepsScopes next rfl]

/-- The boundaries of the scope that an instruction opens, seen from the end of the body. -/
def boundaries (f : Function) (pc : Nat) : Option Jump :=
  (Jump.outlook f.size pc (f.body.toList.drop pc)).table.head?.join

/-- An opener's scope is the innermost one after it. -/
theorem boundaries_enter {kind : ScopeKind} {type : BlockType} (next : f.body[pc]? = some (.enter kind type)) :
    f.boundaries pc = some { f.ahead (pc + 1) 0 with
      elsePc := if kind = .cond then (f.ahead (pc + 1) 0).elsePc else none } := by
  rw [boundaries, outlook_eq_before next]
  rfl

/-- Other instructions have no boundaries. -/
theorem boundaries_eq_none (other : ∀ kind type, f.body[pc]? ≠ some (.enter kind type)) : f.boundaries pc = none := by
  rw [boundaries]
  cases next : f.body[pc]? with
  | none =>
    have past : f.body.toList.drop pc = [] := by
      rw [List.drop_eq_nil_iff, Array.length_toList]
      exact Array.getElem?_eq_none_iff.mp next
    rw [past]
    rfl
  | some i =>
    rw [outlook_eq_before next]
    cases i with
    | enter kind type => exact (other kind type next).elim
    | _ => rfl

/-- What holds at the end of a body, and before each instruction if it holds after it, holds
everywhere. -/
@[elab_as_elim]
theorem backward {P : ∀ pc, pc ≤ f.size → Prop} (atEnd : P f.size (Nat.le_refl _))
    (before : ∀ (pc : Nat) (i : Instruction) (bound : pc < f.size), f.body[pc]? = some i →
      P (pc + 1) bound → P pc (Nat.le_of_lt bound))
    (pc : Nat) (within : pc ≤ f.size) : P pc within := by
  obtain ⟨remaining, size⟩ := Nat.exists_eq_add_of_le within
  induction remaining generalizing pc with
  | zero =>
    obtain rfl : pc = f.size := by omega
    exact atEnd
  | succ remaining ih =>
    have bound : pc < f.size := by omega
    exact before pc _ bound (Array.getElem?_eq_getElem bound) (ih (pc + 1) bound (by omega))

/-- What is known of a scope when a pass is at `pc`, if the scope has the number `k` there: its end is not
known, and a condition may already have an alternative, which a later one would replace. -/
def Awaits (f : Function) (pc k opener : Nat) (known : Option Jump) : Prop :=
  opener < pc ∧ ∃ kind type elsePc, f.body[opener]? = some (.enter kind type) ∧
    known = some { elsePc, endPc := f.size } ∧
    f.boundaries opener = some { f.ahead pc k with
      elsePc := if kind = .cond then (f.ahead pc k).elsePc <|> elsePc else elsePc }

/-- An instruction that only renumbers the scope leaves it as it is. -/
theorem Awaits.renumbered {k l opener : Nat} {known : Option Jump} (awaits : f.Awaits pc k opener known)
    (same : f.ahead pc k = f.ahead (pc + 1) l) : f.Awaits (pc + 1) l opener known :=
  ⟨Nat.lt_succ_of_lt awaits.1, same ▸ awaits.2⟩

/-- A pass that has come to `pc` agrees with what is seen from the end of the body. -/
structure Agrees (f : Function) (pc : Nat) (p : Jump.Progress) : Prop where
  size : p.table.size = f.size
  /-- The open scopes are numbered from the inside out. -/
  opened : ∀ {k opener : Nat}, p.opened[k]? = some opener → f.Awaits pc k opener (p.entry opener)
  nodup : p.opened.Nodup
  /-- What has been closed is settled. -/
  closed : ∀ {opener : Nat}, opener < pc → opener ∉ p.opened → p.entry opener = f.boundaries opener
  later : ∀ {opener : Nat}, pc ≤ opener → p.entry opener = none

namespace Agrees

open Jump (Progress)

variable {p : Progress} {kind : ScopeKind} {type : BlockType}

theorem start (f : Function) : f.Agrees 0 (.start f.size) where
  size := Array.size_replicate
  opened := nofun
  nodup := .nil
  closed := nofun
  later _ := by
    simp only [Progress.entry, Progress.start, Array.getElem?_replicate]
    split <;> rfl

theorem lt_of_mem (agrees : f.Agrees pc p) {opener : Nat} (member : opener ∈ p.opened) : opener < pc := by
  obtain ⟨k, found⟩ := List.mem_iff_getElem?.mp member
  exact (agrees.opened found).1

/-- An instruction that opens nothing is settled as soon as it has been read. -/
theorem closed_succ (agrees : f.Agrees pc p) (other : ∀ kind type, f.body[pc]? ≠ some (.enter kind type))
    {opener : Nat} (read : opener < pc + 1) (absent : opener ∉ p.opened) : p.entry opener = f.boundaries opener := by
  rcases Nat.lt_succ_iff_lt_or_eq.mp read with before | rfl
  · exact agrees.closed before absent
  · rw [agrees.later (Nat.le_refl _), boundaries_eq_none other]

theorem enter (agrees : f.Agrees pc p) (next : f.body[pc]? = some (.enter kind type)) :
    f.Agrees (pc + 1) (p.enter f.size pc) where
  size := (Progress.size_enter ..).trans agrees.size
  opened {k opener} found := by
    cases k with
    | zero =>
      obtain rfl : pc = opener := Option.some.inj found
      have bound : pc < p.table.size := agrees.size ▸ (Array.getElem?_eq_some_iff.mp next).1
      refine ⟨Nat.lt_succ_self pc, kind, type, none, next, Progress.entry_insert_self bound, ?_⟩
      rw [boundaries_enter next]
      simp
    | succ k =>
      have awaits := (agrees.opened found).renumbered (ahead_enter next k)
      have ne : pc ≠ opener := Nat.ne_of_gt (agrees.opened found).1
      exact (Progress.entry_insert_of_ne ne).symm ▸ awaits
  nodup := List.nodup_cons.mpr ⟨fun member => Nat.lt_irrefl _ (agrees.lt_of_mem member), agrees.nodup⟩
  closed {opener} read absent := by
    have ne : opener ≠ pc := List.ne_of_not_mem_cons absent
    refine (Progress.entry_insert_of_ne (Ne.symm ne)).trans (agrees.closed ?_ (List.not_mem_of_not_mem_cons absent))
    exact Nat.lt_of_le_of_ne (Nat.le_of_lt_succ read) ne
  later read :=
    (Progress.entry_insert_of_ne (Nat.ne_of_lt read)).trans (agrees.later (Nat.le_of_succ_le read))

theorem keeps {i : Instruction} (agrees : f.Agrees pc p) (next : f.body[pc]? = some i)
    (keeps : i.keepsScopes = true) : f.Agrees (pc + 1) p where
  size := agrees.size
  opened found := (agrees.opened found).renumbered (ahead_of_keepsScopes next keeps _)
  nodup := agrees.nodup
  closed := agrees.closed_succ fun kind type opener => by
    rw [next] at opener
    cases opener
    cases keeps
  later read := agrees.later (Nat.le_of_succ_le read)

/-- Where nothing is open, an instruction that opens nothing either changes nothing. -/
theorem empty (agrees : f.Agrees pc p) (other : ∀ kind type, f.body[pc]? ≠ some (.enter kind type))
    (empty : p.opened = []) : f.Agrees (pc + 1) p where
  size := agrees.size
  opened := by simp [empty]
  nodup := agrees.nodup
  closed := agrees.closed_succ other
  later read := agrees.later (Nat.le_of_succ_le read)

theorem innermost (agrees : f.Agrees pc p) {opener : Nat} {outer : List Nat} (stack : p.opened = opener :: outer) :
    f.Awaits pc 0 opener (p.entry opener) :=
  agrees.opened (by rw [stack]; rfl)

theorem outer (agrees : f.Agrees pc p) {opener other k : Nat} {outer : List Nat} (stack : p.opened = opener :: outer)
    (found : outer[k]? = some other) : opener ≠ other ∧ f.Awaits pc (k + 1) other (p.entry other) := by
  have distinct : (opener :: outer).Nodup := stack ▸ agrees.nodup
  refine ⟨fun same => (List.nodup_cons.mp distinct).1 (same ▸ List.mem_of_getElem? found), agrees.opened ?_⟩
  rw [stack]
  exact found

/-- Changing the innermost entry disturbs no other one, whether the scope stays open or not. -/
theorem modify (agrees : f.Agrees pc p) {opener : Nat} {rest : List Nat} {change : Jump → Jump}
    (opensNothing : ∀ kind type, f.body[pc]? ≠ some (.enter kind type)) (before : opener < pc)
    (fewer : rest.Sublist p.opened) (covers : ∀ other ∈ p.opened, other = opener ∨ other ∈ rest)
    (opened : ∀ {k other : Nat}, rest[k]? = some other →
      f.Awaits (pc + 1) k other (({ p with opened := rest }.modify opener change).entry other))
    (settled : opener ∉ rest →
      ({ p with opened := rest }.modify opener change).entry opener = f.boundaries opener) :
    f.Agrees (pc + 1) ({ p with opened := rest }.modify opener change) where
  size := (Progress.size_modify _).trans agrees.size
  opened found := opened (by rwa [Progress.opened_modify] at found)
  nodup := (Progress.opened_modify _).symm ▸ agrees.nodup.sublist fewer
  closed {other} read absent := by
    rw [Progress.opened_modify] at absent
    by_cases same : opener = other
    · exact same ▸ settled (same ▸ absent)
    · refine (Progress.entry_modify_of_ne _ same).trans (agrees.closed_succ opensNothing read ?_)
      intro member
      exact (covers other member).elim (fun same' => same same'.symm) absent
  later {other} read := by
    have ne : opener ≠ other := Nat.ne_of_lt (Nat.lt_of_lt_of_le before (Nat.le_of_succ_le read))
    exact (Progress.entry_modify_of_ne _ ne).trans (agrees.later (Nat.le_of_succ_le read))

/-- An alternative changes the entry of the innermost scope, and only if that is a condition. -/
theorem alternative (agrees : f.Agrees pc p) (next : f.body[pc]? = some .otherwise) :
    f.Agrees (pc + 1) (p.alternative f.body pc) := by
  have opensNothing : ∀ kind type, f.body[pc]? ≠ some (.enter kind type) := by simp [next]
  cases stack : p.opened with
  | nil =>
    rw [Progress.alternative, stack]
    exact agrees.empty opensNothing stack
  | cons opener outer =>
    obtain ⟨before, kind, type, elsePc, opens, known, whole⟩ := agrees.innermost stack
    rw [ahead_otherwise_zero next] at whole
    cases kind with
    | block | loop =>
      -- The entry stays as it is: what lies ahead tells only the end of such a scope.
      have same : p.alternative f.body pc = p := by simp [Progress.alternative, stack, opens]
      rw [same]
      refine ⟨agrees.size, ?_, agrees.nodup, agrees.closed_succ opensNothing,
        fun read => agrees.later (Nat.le_of_succ_le read)⟩
      intro k other found
      cases k with
      | zero =>
        obtain rfl : opener = other := by simpa [stack] using found
        exact ⟨Nat.lt_succ_of_lt before, _, type, elsePc, opens, known, whole⟩
      | succ k => exact (agrees.opened found).renumbered (ahead_otherwise_succ next k)
    | cond =>
      have patched : p.alternative f.body pc =
          { p with opened := p.opened }.modify opener fun j => { j with elsePc := some pc } := by
        simp [Progress.alternative, stack, opens]
      rw [patched]
      refine agrees.modify opensNothing before (.refl _) (fun _ => .inr) ?_ (by simp [stack])
      intro k other found
      rw [stack] at found
      cases k with
      | zero =>
        obtain rfl : opener = other := Option.some.inj found
        refine ⟨Nat.lt_succ_of_lt before, .cond, type, some pc, opens, Progress.entry_modify_self _ known, ?_⟩
        rw [whole]
        simp
      | succ k =>
        obtain ⟨ne, awaits⟩ := agrees.outer stack found
        exact (Progress.entry_modify_of_ne _ ne).symm ▸ awaits.renumbered (ahead_otherwise_succ next k)

/-- A closing instruction settles the innermost scope. -/
theorem close (agrees : f.Agrees pc p) (next : f.body[pc]? = some .close) : f.Agrees (pc + 1) (p.close pc) := by
  have opensNothing : ∀ kind type, f.body[pc]? ≠ some (.enter kind type) := by simp [next]
  cases stack : p.opened with
  | nil =>
    rw [Progress.close, stack]
    exact agrees.empty opensNothing stack
  | cons opener outer =>
    obtain ⟨before, kind, type, elsePc, opens, known, whole⟩ := agrees.innermost stack
    rw [ahead_close_zero next] at whole
    have closing : p.close pc = { p with opened := outer }.modify opener fun j => { j with endPc := pc } := by
      rw [Progress.close, stack]
    rw [closing]
    refine agrees.modify opensNothing before (stack ▸ List.sublist_cons_self ..) (by simp [stack]) ?_ ?_
    · intro k other found
      obtain ⟨ne, awaits⟩ := agrees.outer stack found
      exact (Progress.entry_modify_of_ne _ ne).symm ▸ awaits.renumbered (ahead_close_succ next k)
    · intro _
      have patched := Progress.entry_modify_self (p := { p with opened := outer })
        (fun j => { j with endPc := pc }) known
      rw [patched, whole]
      cases kind <;> simp

theorem read {i : Instruction} (agrees : f.Agrees pc p) (next : f.body[pc]? = some i) :
    f.Agrees (pc + 1) (p.read f.body pc i) := by
  cases i with
  | enter => exact agrees.enter next
  | otherwise => exact agrees.alternative next
  | close => exact agrees.close next
  | _ => exact agrees.keeps next rfl

/-- What a pass from some position on makes of what it has found before. -/
theorem run (within : pc ≤ f.size) (agrees : f.Agrees pc p) :
    f.Agrees f.size (((f.body.toList.drop pc).zipIdx pc).foldl (fun p (i, pc) => p.read f.body pc i) p) := by
  induction pc, within using backward generalizing p with
  | atEnd =>
    have past : f.body.toList.drop f.size = [] := List.drop_of_length_le (Nat.le_refl _)
    rwa [past]
  | before pc i bound next ih =>
    rw [List.drop_eq_getElem_cons bound, List.zipIdx_cons, List.foldl_cons]
    obtain ⟨_, rfl⟩ := Array.getElem?_eq_some_iff.mp next
    exact ih (agrees.read next)

/-- At the end of the body nothing is left ahead of the scopes that are still open. -/
theorem entry_of_end (agrees : f.Agrees f.size p) (opener : Nat) : p.entry opener = f.boundaries opener := by
  by_cases isOpen : opener ∈ p.opened
  · obtain ⟨k, found⟩ := List.mem_iff_getElem?.mp isOpen
    obtain ⟨-, kind, type, elsePc, -, known, whole⟩ := agrees.opened found
    rw [known, whole, ahead_size]
    cases kind <;> simp
  · rcases Nat.lt_or_ge opener f.size with read | past
    · exact agrees.closed read isOpen
    · have missing : f.body[opener]? = none := Array.getElem?_eq_none past
      rw [agrees.later past, boundaries_eq_none (by simp [missing])]

end Agrees

/-- The pass from the first instruction to the last finds the boundaries that are seen from the end. -/
theorem jump?_eq_boundaries (f : Function) (pc : Nat) : f.jump? pc = f.boundaries pc := by
  have agrees : f.Agrees f.size (Jump.resolve f.body) := (Agrees.start f).run (Nat.zero_le _)
  rw [jump?, f.jumps_eq]
  exact agrees.entry_of_end pc

/-- An opener's scope is the innermost one after it. -/
theorem jump?_enter {kind : ScopeKind} {type : BlockType} (next : f.body[pc]? = some (.enter kind type)) :
    f.jump? pc = some { f.ahead (pc + 1) 0 with
      elsePc := if kind = .cond then (f.ahead (pc + 1) 0).elsePc else none } :=
  (f.jump?_eq_boundaries pc).trans (boundaries_enter next)

/-- Other instructions have no boundaries. -/
theorem jump?_eq_none (other : ∀ kind type, f.body[pc]? ≠ some (.enter kind type)) : f.jump? pc = none :=
  (f.jump?_eq_boundaries pc).trans (boundaries_eq_none other)

theorem matchingEnd_enter {kind : ScopeKind} {type : BlockType}
    (next : f.body[pc]? = some (.enter kind type)) : f.matchingEnd pc = (f.ahead (pc + 1) 0).endPc := by
  rw [matchingEnd, jump?_enter next]
  rfl

theorem matchingElse_cond {type : BlockType} (next : f.body[pc]? = some (.enter .cond type)) :
    f.matchingElse pc = (f.ahead (pc + 1) 0).elsePc := by
  rw [matchingElse, jump?_enter next]
  rfl

/-- Boundaries that a scope open before a position can have. -/
structure Bounds (f : Function) (pc : Nat) (j : Jump) : Prop where
  le_endPc : pc ≤ j.endPc
  endPc_le : j.endPc ≤ f.size
  elsePc : ∀ {elsePc : Nat}, j.elsePc = some elsePc → pc ≤ elsePc ∧ f.body[elsePc]? = some .otherwise

theorem Bounds.before {j : Jump} (bounds : Bounds f (pc + 1) j) : Bounds f pc j where
  le_endPc := Nat.le_of_succ_le bounds.le_endPc
  endPc_le := bounds.endPc_le
  elsePc found := (bounds.elsePc found).imp Nat.le_of_succ_le id

theorem bounds_ahead (within : pc ≤ f.size) (k : Nat) : Bounds f pc (f.ahead pc k) := by
  induction pc, within using backward generalizing k with
  | atEnd =>
    rw [ahead_size]
    exact ⟨Nat.le_refl _, Nat.le_refl _, nofun⟩
  | before pc i bound next ih =>
    cases i with
    | enter kind type => exact ahead_enter next k ▸ (ih (k + 1)).before
    | otherwise =>
      cases k with
      | zero =>
        rw [ahead_otherwise_zero next]
        refine ⟨(ih 0).before.le_endPc, (ih 0).endPc_le, ?_⟩
        intro elsePc found
        simp only [Option.orElse_eq_orElse, Option.orElse_eq_or, Option.or_eq_some_iff, Option.some.injEq] at found
        rcases found with later | ⟨-, rfl⟩
        · exact (ih 0).before.elsePc later
        · exact ⟨Nat.le_refl _, next⟩
      | succ k => exact ahead_otherwise_succ next k ▸ (ih (k + 1)).before
    | close =>
      cases k with
      | zero =>
        rw [ahead_close_zero next]
        exact ⟨Nat.le_refl _, Nat.le_of_lt bound, nofun⟩
      | succ k => exact ahead_close_succ next k ▸ (ih k).before
    | _ => exact ahead_of_keepsScopes next rfl k ▸ (ih k).before

/-- A scope that does not reach to the end of the body ends at a closing instruction. -/
theorem close_of_endPc_ahead (within : pc ≤ f.size) {k : Nat} (closed : (f.ahead pc k).endPc < f.size) :
    f.body[(f.ahead pc k).endPc]? = some .close := by
  induction pc, within using backward generalizing k with
  | atEnd =>
    rw [ahead_size] at closed
    exact (Nat.lt_irrefl _ closed).elim
  | before pc i bound next ih =>
    cases i with
    | enter kind type =>
      rw [ahead_enter next] at closed ⊢
      exact ih closed
    | close =>
      cases k with
      | zero =>
        rw [ahead_close_zero next]
        exact next
      | succ k =>
        rw [ahead_close_succ next] at closed ⊢
        exact ih closed
    | _ =>
      rw [endPc_ahead next rfl nofun] at closed ⊢
      exact ih closed

/-- The scope of an opener ends after it. -/
theorem lt_matchingEnd {kind : ScopeKind} {type : BlockType}
    (next : f.body[pc]? = some (.enter kind type)) : pc < f.matchingEnd pc := by
  rw [matchingEnd_enter next]
  exact (bounds_ahead (Array.getElem?_eq_some_iff.mp next).1 0).le_endPc

/-- Behind the scope of an opener is behind the opener. -/
theorem lt_afterEnd {kind : ScopeKind} {type : BlockType} (next : f.body[pc]? = some (.enter kind type)) :
    pc < f.afterEnd pc :=
  Nat.lt_min.mpr ⟨Nat.lt_succ_of_lt (lt_matchingEnd next), (Array.getElem?_eq_some_iff.mp next).1⟩

/-- The alternative of a condition is an instruction after it. -/
theorem matchingElse_spec {type : BlockType} {elsePc : Nat} (next : f.body[pc]? = some (.enter .cond type))
    (found : f.matchingElse pc = some elsePc) : pc < elsePc ∧ f.body[elsePc]? = some .otherwise :=
  (bounds_ahead (Array.getElem?_eq_some_iff.mp next).1 0).elsePc (matchingElse_cond next ▸ found)

end Function

namespace Jump

/-- The pass from the first instruction to the last makes the same table as the one to the first. -/
theorem table_eq_outlook (body : Array Instruction) :
    table body = (outlook body.size 0 body.toList).table.toArray := by
  have lengths : (outlook body.size 0 body.toList).table.length = body.size := length_table_outlook ..
  refine Array.ext ((size_table body).trans lengths.symm) fun pc bound bound' => ?_
  have entry : (table body)[pc]?.join = (outlook body.size pc (body.toList.drop pc)).table.head?.join :=
    Function.jump?_eq_boundaries { body } pc
  have later := getElem?_table_outlook body.size 0 body.toList pc
  rw [Nat.zero_add] at later
  rw [← later, Array.getElem?_eq_getElem bound, List.getElem?_eq_getElem (by simpa using bound')] at entry
  simpa using entry

end Jump

end ScopeMachine

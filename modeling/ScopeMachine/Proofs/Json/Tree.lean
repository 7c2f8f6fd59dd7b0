import ScopeMachine.Json.Basic
import ScopeMachine.Proofs.Json.Lexeme

/-! # The tokens of a JSON value

A value is written with the tokens that `Json.tokens` lists. Everything that the reader has open stands for
the tokens that it has read (`Reader.read`), so it accepts nothing else; and from the tokens of a value it
arrives at that value. Hence the text of a value is any layout of its tokens (`Json.parse?_eq_some_iff`).
-/

namespace ScopeMachine.Json

/-- Parts with commas in between. -/
def separated : List (List Token) → List Token
  | [] => []
  | [part] => part
  | part :: parts => part ++ .comma :: separated parts

/-- Parts with a comma behind each of them. -/
def terminated (parts : List (List Token)) : List Token := parts.flatMap (· ++ [.comma])

mutual

/-- The tokens of a value. -/
def tokens : Json → List Token
  | null => [.null]
  | bool b => [.bool b]
  | number => [.number]
  | string text => [.string text]
  | array items => .openBracket :: (separated (itemTokens items) ++ [.closeBracket])
  | object members => .openBrace :: (separated (memberTokens members) ++ [.closeBrace])

/-- The tokens of each item. -/
def itemTokens : List Json → List (List Token)
  | [] => []
  | v :: items => v.tokens :: itemTokens items

/-- The tokens of each member. -/
def memberTokens : List (Option String × Json) → List (List Token)
  | [] => []
  | member :: members => pairTokens member :: memberTokens members

/-- The tokens of a member: its key, a colon and its value. -/
def pairTokens : Option String × Json → List Token
  | (key, v) => .string key :: .colon :: v.tokens

end

theorem itemTokens_eq (items : List Json) : itemTokens items = items.map tokens := by
  induction items with
  | nil => rfl
  | cons v items ih => rw [itemTokens, ih, List.map_cons]

theorem memberTokens_eq (members : List (Option String × Json)) : memberTokens members = members.map pairTokens := by
  induction members with
  | nil => rfl
  | cons member members ih => rw [memberTokens, ih, List.map_cons]

section separated

variable (parts : List (List Token)) (part : List Token)

theorem separated_concat : separated (parts ++ [part]) = terminated parts ++ part := by
  induction parts with
  | nil => rfl
  | cons first parts ih =>
    have further : separated (first :: (parts ++ [part])) = first ++ .comma :: separated (parts ++ [part]) := by
      cases parts <;> rfl
    rw [List.cons_append, further, ih, terminated, terminated, List.flatMap_cons]
    simp

theorem terminated_concat : terminated (parts ++ [part]) = separated (parts ++ [part]) ++ [.comma] := by
  rw [separated_concat, terminated, terminated, List.flatMap_append]
  simp

theorem terminated_reverse {α : Type} {parts : List α} (write : α → List Token) (nonempty : parts ≠ []) :
    terminated (parts.reverse.map write) = separated (parts.reverse.map write) ++ [.comma] := by
  obtain ⟨last, parts, rfl⟩ := List.exists_cons_of_ne_nil nonempty
  rw [List.reverse_cons, List.map_append, List.map_singleton, terminated_concat]

theorem separated_reverse {α : Type} (write : α → List Token) (last : α) (parts : List α) :
    separated ((last :: parts).reverse.map write) = terminated (parts.reverse.map write) ++ write last := by
  rw [List.reverse_cons, List.map_append, List.map_singleton, separated_concat]

end separated

/-- The tokens of what is open: of its start and of what it holds so far, up to the value that comes next. -/
def Enclosing.read : Enclosing → List Token
  | array items => .openBracket :: terminated (items.reverse.map tokens)
  | object members key => .openBrace :: (terminated (members.reverse.map pairTokens) ++ [.string key, .colon])

/-- The tokens of all that is open, from the outside in. -/
def opened (within : List Enclosing) : List Token := within.reverse.flatMap Enclosing.read

theorem opened_cons (innermost : Enclosing) (within : List Enclosing) :
    opened (innermost :: within) = opened within ++ innermost.read := by
  simp [opened]

namespace Reader

/-- The tokens that have been read. -/
def read : Reader → List Token
  | value within => opened within
  | arrayStart within => opened within ++ [.openBracket]
  | afterItem items within => opened within ++ .openBracket :: separated (items.reverse.map tokens)
  | objectStart within => opened within ++ [.openBrace]
  | memberKey members within => opened within ++ .openBrace :: terminated (members.reverse.map pairTokens)
  | memberColon members key within =>
    opened within ++ .openBrace :: (terminated (members.reverse.map pairTokens) ++ [.string key])
  | afterMember members within => opened within ++ .openBrace :: separated (members.reverse.map pairTokens)
  | done v => v.tokens

/-- Behind an item or a member there is one. -/
def Proper : Reader → Prop
  | afterItem items _ => items ≠ []
  | afterMember members _ => members ≠ []
  | _ => True

variable {r r' : Reader} {t : Token} {within : List Enclosing} {v : Json}

theorem proper_place : (place v within).Proper := by
  unfold place
  split
  · trivial
  · exact List.cons_ne_nil _ _
  · exact List.cons_ne_nil _ _

/-- A value that is put where it belongs has been read. -/
theorem read_place : (place v within).read = opened within ++ v.tokens := by
  unfold place
  split
  · rfl
  · rw [read, separated_reverse, opened_cons, Enclosing.read]
    simp
  · rw [read, separated_reverse, opened_cons, Enclosing.read, pairTokens]
    simp

theorem read_nextValue (next : nextValue within t = some r) : r.Proper ∧ r.read = opened within ++ [t] := by
  unfold nextValue at next
  split at next
  case h_5 | h_6 =>
    cases next
    exact ⟨trivial, rfl⟩
  case h_7 | h_8 | h_9 | h_10 => cases next
  all_goals
    cases next
    exact ⟨proper_place, read_place⟩

/-- A token that is read is added to what has been read. -/
theorem read_next (proper : r.Proper) (next : r.next t = some r') : r'.Proper ∧ r'.read = r.read ++ [t] := by
  unfold Reader.next at next
  split at next
  case h_1 within t => exact read_nextValue next
  case h_3 within t _ =>
    obtain ⟨proper', first⟩ := read_nextValue next
    refine ⟨proper', ?_⟩
    rw [first, opened_cons]
    rfl
  case h_2 within =>
    cases next
    refine ⟨proper_place, ?_⟩
    rw [read_place, tokens, read, List.append_assoc]
    rfl
  case h_5 items within =>
    cases next
    refine ⟨proper_place, ?_⟩
    rw [read_place, tokens, itemTokens_eq, read, List.append_assoc]
    rfl
  case h_6 within =>
    cases next
    refine ⟨proper_place, ?_⟩
    rw [read_place, tokens, read, List.append_assoc]
    rfl
  case h_11 members within =>
    cases next
    refine ⟨proper_place, ?_⟩
    rw [read_place, tokens, memberTokens_eq, read, List.append_assoc]
    rfl
  case h_4 items within =>
    cases next
    refine ⟨trivial, ?_⟩
    rw [read, opened_cons, Enclosing.read, terminated_reverse tokens proper, read]
    simp
  case h_10 members within =>
    cases next
    refine ⟨trivial, ?_⟩
    rw [read, terminated_reverse pairTokens proper, read]
    simp
  case h_7 text within =>
    cases next
    refine ⟨trivial, ?_⟩
    simp [read, terminated]
  case h_8 members within text =>
    cases next
    exact ⟨trivial, by simp [read]⟩
  case h_9 members key within =>
    cases next
    refine ⟨trivial, ?_⟩
    rw [read, opened_cons, Enclosing.read, read]
    simp
  case h_12 => cases next

theorem read_foldlM {ts : List Token} (proper : r.Proper) (next : ts.foldlM Reader.next r = some r') :
    r'.read = r.read ++ ts := by
  induction ts generalizing r with
  | nil =>
    cases next
    exact (List.append_nil _).symm
  | cons t ts ih =>
    obtain ⟨middle, head, tail⟩ := Option.bind_eq_some_iff.mp next
    obtain ⟨proper', read⟩ := read_next proper head
    rw [ih proper' tail, read, List.append_assoc]
    rfl

theorem next_number_number (first : r.next .number = some r') : r'.next .number = none := by
  have stuck (within : List Enclosing) : (place .number within).next .number = none := by
    unfold place
    split <;> rfl
  cases r <;> cases first
  · exact stuck _
  · exact stuck _

end Reader

/-- Nothing but the tokens of a value is read as that value. -/
theorem ofTokens?_sound {ts : List Token} {v : Json} (read : ofTokens? ts = some v) : ts = v.tokens := by
  obtain ⟨r, next, done⟩ := Option.bind_eq_some_iff.mp read
  split at done
  · cases done
    exact (Reader.read_foldlM (r := .value []) trivial next).symm
  · cases done

/-- Behind a number no number is read. -/
theorem apart_of_foldlM {ts : List Token} {r r' : Reader} (next : ts.foldlM Reader.next r = some r') : Apart ts := by
  induction ts generalizing r with
  | nil => exact .nil
  | cons t ts ih =>
    obtain ⟨middle, head, tail⟩ := Option.bind_eq_some_iff.mp next
    refine List.isChain_cons.mpr ⟨?_, ih tail⟩
    rintro other first rfl rfl
    obtain ⟨more, rfl⟩ := List.head?_eq_some_iff.mp first
    obtain ⟨last, second, -⟩ := Option.bind_eq_some_iff.mp tail
    rw [Reader.next_number_number head] at second
    cases second

/-- At the start of an array a value is read as in front of any item. -/
theorem foldlM_arrayStart (v : Json) (within : List Enclosing) (rest : List Token) :
    (v.tokens ++ rest).foldlM Reader.next (.arrayStart within) =
      (v.tokens ++ rest).foldlM Reader.next (.value (.array [] :: within)) := by
  cases v <;> rw [tokens] <;> rfl

mutual

/-- From the tokens of a value the reader arrives at the value. -/
theorem foldlM_tokens (v : Json) (within : List Enclosing) (rest : List Token) :
    (v.tokens ++ rest).foldlM Reader.next (.value within) = rest.foldlM Reader.next (Reader.place v within) := by
  match v with
  | null | bool b | number | string text => rfl
  | array [] | object [] => rfl
  | array (v :: items) =>
    have whole : (array (v :: items)).tokens ++ rest =
        .openBracket :: (separated (itemTokens (v :: items)) ++ .closeBracket :: rest) := by
      rw [tokens, List.cons_append, List.append_assoc]
      rfl
    have read := foldlM_items v items [] within rest
    obtain ⟨more, first⟩ : ∃ more, separated (itemTokens (v :: items)) = v.tokens ++ more := by
      cases items with
      | nil => exact ⟨[], (List.append_nil _).symm⟩
      | cons w items => exact ⟨_, rfl⟩
    rw [first, List.append_assoc, ← foldlM_arrayStart, ← List.append_assoc, ← first] at read
    rw [whole]
    exact read
  | object ((key, v) :: members) =>
    have whole : (object ((key, v) :: members)).tokens ++ rest =
        .openBrace :: (separated (memberTokens ((key, v) :: members)) ++ .closeBrace :: rest) := by
      rw [tokens, List.cons_append, List.append_assoc]
      rfl
    have read := foldlM_members key v members [] within rest
    obtain ⟨more, first⟩ : ∃ more, separated (memberTokens ((key, v) :: members)) = .string key :: more := by
      cases members <;> exact ⟨_, rfl⟩
    rw [first] at read
    rw [whole, first]
    exact read
termination_by sizeOf v

/-- From an item on the reader arrives at the array. -/
theorem foldlM_items (v : Json) (items before : List Json) (within : List Enclosing) (rest : List Token) :
    (separated (itemTokens (v :: items)) ++ .closeBracket :: rest).foldlM Reader.next
        (.value (.array before :: within)) =
      rest.foldlM Reader.next (Reader.place (.array (before.reverse ++ v :: items)) within) := by
  have onward (rest : List Token) := foldlM_tokens v (.array before :: within) rest
  match items with
  | [] =>
    have whole : (before.reverse ++ [v]) = (v :: before).reverse := List.reverse_cons.symm
    rw [itemTokens, itemTokens, separated, onward, whole]
    rfl
  | w :: items =>
    have whole : before.reverse ++ v :: w :: items = (v :: before).reverse ++ w :: items := by simp
    have split : separated (itemTokens (v :: w :: items)) = v.tokens ++ .comma :: separated (itemTokens (w :: items)) :=
      rfl
    rw [split, List.append_assoc, onward, whole, ← foldlM_items w items (v :: before) within rest]
    rfl
termination_by sizeOf v + sizeOf items + 1

/-- From a key on the reader arrives at the object. -/
theorem foldlM_members (key : Option String) (v : Json) (members before : List (Option String × Json))
    (within : List Enclosing) (rest : List Token) :
    (separated (memberTokens ((key, v) :: members)) ++ .closeBrace :: rest).foldlM Reader.next
        (.memberKey before within) =
      rest.foldlM Reader.next (Reader.place (.object (before.reverse ++ (key, v) :: members)) within) := by
  have onward (rest : List Token) := foldlM_tokens v (.object before key :: within) rest
  match members with
  | [] =>
    have whole : (before.reverse ++ [(key, v)]) = ((key, v) :: before).reverse := List.reverse_cons.symm
    rw [whole]
    exact onward (.closeBrace :: rest)
  | (key', w) :: members =>
    have whole : before.reverse ++ (key, v) :: (key', w) :: members =
        ((key, v) :: before).reverse ++ (key', w) :: members := by simp
    have split : separated (memberTokens ((key, v) :: (key', w) :: members)) =
        .string key :: .colon :: (v.tokens ++ .comma :: separated (memberTokens ((key', w) :: members))) := rfl
    rw [split, whole, ← foldlM_members key' w members ((key, v) :: before) within rest]
    simp only [List.cons_append, List.append_assoc]
    exact onward _
termination_by sizeOf v + sizeOf members + 1

end

/-- The tokens of a value are read as that value. -/
theorem ofTokens?_tokens (v : Json) : ofTokens? v.tokens = some v := by
  have arrives := foldlM_tokens v [] []
  rw [List.append_nil] at arrives
  rw [ofTokens?, arrives]
  rfl

theorem apart_tokens (v : Json) : Apart v.tokens := by
  have arrives := foldlM_tokens v [] []
  rw [List.append_nil] at arrives
  exact apart_of_foldlM arrives

/-- A text is a value's if the tokens of the value are laid out in it. -/
theorem parse?_eq_some_iff {text : String} {v : Json} : parse? text = some v ↔ Laid v.tokens text.toList := by
  constructor
  · intro parsed
    obtain ⟨ts, scanned, read⟩ := Option.bind_eq_some_iff.mp parsed
    obtain rfl := ofTokens?_sound read
    exact (tokens?_eq_some_iff (apart_tokens v)).mp scanned
  · intro laid
    have scanned := (tokens?_eq_some_iff (apart_tokens v)).mpr laid
    exact Option.bind_eq_some_iff.mpr ⟨v.tokens, scanned, ofTokens?_tokens v⟩

end ScopeMachine.Json

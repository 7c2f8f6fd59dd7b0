import Mathlib.Data.List.Nodup
import ScopeMachine.Proofs.Json.Tree
import ScopeMachine.Proofs.Related

/-! # What is known of a JSON library

Documents are read by a library, of which only what it documents is known (`Json.Library.Documented`). It
tells of the members of an object one by one which of them are fields, which are passed over and which must not be
there; together this settles what any object holds, since all that is passed over can be taken away first
(`Json.Library.Documented.fields?_eq_some_iff`). The reader of this project is such a library
(`Json.documented_library`).
-/

namespace ScopeMachine.Json

/-- A string that denotes the given text. -/
def IsText (v : Json) (text : String) : Prop := v = .string (some text)

/-- The keys of an object's members. -/
def keys (members : List (Option String × Json)) : List (Option String) := members.map Prod.fst

/-- What an object holds under a name, which at most one of its members has. -/
inductive Field (members : List (Option String × Json)) (name : String) : Option Json → Prop
  | missing (absent : ∀ member ∈ members, member.1 ≠ some name) : Field members name none
  | once {before after : List (Option String × Json)} {v : Json}
      (split : members = before ++ (some name, v) :: after)
      (alone : ∀ member ∈ before ++ after, member.1 ≠ some name) : Field members name (some v)

/-- A record with the given fields, the names of which are in order: an object, any other members of which are
passed over as long as their keys are texts, or an array of the fields, where the last ones may be missing. -/
inductive Record (names : List String) : Json → List (Option Json) → Prop
  | object {members : List (Option String × Json)} {fields : List (Option Json)}
      (texts : ∀ member ∈ members, member.1.isSome = true) (each : List.Forall₂ (Field members) names fields) :
      Record names (.object members) fields
  | array {items : List Json} {missing : Nat} (count : items.length + missing = names.length) :
      Record names (.array items) (items.map some ++ List.replicate missing none)

/-- What a library documents. -/
structure Library.Documented (library : Library) : Prop where
  /-- Exactly the JSON texts are read, and what is read from one is read from its value: a text of a value consists
  of the tokens of the value with any blanks between and around them. No reader of documents looks more than four
  levels into a value, so a limit on the nesting of what is not passed over is left out. -/
  fromText? {α : Type} {read : Json → Option α} {text : String} {a : α} :
    library.fromText? read text = some a ↔ ∃ v : Json, Laid v.tokens text.toList ∧ read v = some a
  /-- A text is read from the strings that denote it. -/
  text? {v : Json} {text : String} : library.text? v = some text ↔ v.IsText text
  /-- Null stands for nothing ... -/
  optional?_null {α : Type} {read : Json → Option α} : library.optional? read .null = some none
  /-- ... and any other value for something. -/
  optional?_value {α : Type} {read : Json → Option α} {v : Json} (given : v ≠ .null) :
    library.optional? read v = (read v).map some
  /-- A list is read from an array, element by element. -/
  list? {α : Type} {read : Json → Option α} {v : Json} {xs : List α} : library.list? read v = some xs ↔
    ∃ items, v = .array items ∧ List.Forall₂ (fun item x => read item = some x) items xs
  /-- In place of a missing field there is its default, if it has one ... -/
  field?_missing {α : Type} {default : Option α} {read : Json → Option α} : library.field? default read none = default
  /-- ... which does not matter to a field that is there. -/
  field?_held {α : Type} {default : Option α} {read : Json → Option α} {v : Json} :
    library.field? default read (some v) = read v
  /-- An array holds the first fields in their order ... -/
  fields?_array {names : List String} {items : List Json} (enough : items.length ≤ names.length) :
    library.fields? names (.array items) =
      some (items.map some ++ List.replicate (names.length - items.length) none)
  /-- ... and nothing behind the last one. -/
  fields?_long {names : List String} {items : List Json} (long : names.length < items.length) :
    library.fields? names (.array items) = none
  /-- In an object that has no other members, each field stands under its name. -/
  fields?_object {names : List String} {members : List (Option String × Json)}
    (known : keys members ⊆ names.map some) (distinct : (keys members).Nodup) :
    library.fields? names (.object members) = some (names.map fun name => members.lookup (some name))
  /-- A member under a name that no field has is passed over. -/
  fields?_unknown {names : List String} {before after : List (Option String × Json)} {key : String} {v : Json}
    (unknown : key ∉ names) :
    library.fields? names (.object (before ++ (some key, v) :: after)) =
      library.fields? names (.object (before ++ after))
  /-- The same field must not be given twice. -/
  fields?_repeated {names : List String} {members : List (Option String × Json)} {name : String}
    (known : name ∈ names) (repeated : 1 < (keys members).count (some name)) :
    library.fields? names (.object members) = none
  /-- Every key denotes a text. -/
  fields?_keyless {names : List String} {members : List (Option String × Json)} (keyless : none ∈ keys members) :
    library.fields? names (.object members) = none
  /-- A record is an array or an object. -/
  fields?_other {names : List String} {v : Json} (noArray : ∀ items, v ≠ .array items)
    (noObject : ∀ members, v ≠ .object members) : library.fields? names v = none

section Field

variable {members : List (Option String × Json)} {name : String} {field : Option Json}

theorem filter_key_eq_nil_iff :
    members.filter (·.1 == some name) = [] ↔ ∀ member ∈ members, member.1 ≠ some name := by
  simp only [List.filter_eq_nil_iff, beq_iff_eq, ne_eq]

/-- The members with a name tell what the object holds under it. -/
theorem field_iff_filter :
    Field members name field ↔ members.filter (·.1 == some name) = field.toList.map (some name, ·) := by
  constructor
  · intro holds
    cases holds with
    | missing absent => exact filter_key_eq_nil_iff.mpr absent
    | @once before after v split alone =>
      obtain ⟨noneBefore, noneAfter⟩ := List.forall_mem_append.mp alone
      have here : (some name == some name) = true := beq_self_eq_true (some name)
      rw [split, List.filter_append, filter_key_eq_nil_iff.mpr noneBefore, List.nil_append, List.filter_cons,
        if_pos here, filter_key_eq_nil_iff.mpr noneAfter]
      rfl
  · intro found
    cases field with
    | none => exact .missing (filter_key_eq_nil_iff.mp found)
    | some v =>
      obtain ⟨before, after, split, absent, -, rest⟩ := List.filter_eq_cons_iff.mp found
      have noneBefore := filter_key_eq_nil_iff.mp (List.filter_eq_nil_iff.mpr absent)
      exact .once split (List.forall_mem_append.mpr ⟨noneBefore, filter_key_eq_nil_iff.mp rest⟩)

theorem Field.unique {other : Option Json} (left : Field members name field) (right : Field members name other) :
    field = other := by
  have same := (field_iff_filter.mp left).symm.trans (field_iff_filter.mp right)
  cases field <;> cases other <;> simp_all

/-- Only the members that have the name matter. -/
theorem field_congr {others : List (Option String × Json)}
    (same : members.filter (·.1 == some name) = others.filter (·.1 == some name)) :
    Field members name field ↔ Field others name field := by
  rw [field_iff_filter, field_iff_filter, same]

theorem Field.count_le_one (holds : Field members name field) : (keys members).count (some name) ≤ 1 := by
  have counted : (keys members).count (some name) = (members.filter (·.1 == some name)).length := by
    rw [keys, List.count_eq_countP, List.countP_map, List.countP_eq_length_filter]
    rfl
  rw [counted, field_iff_filter.mp holds, List.length_map]
  cases field <;> simp

theorem field_lookup (distinct : (keys members).Nodup) : Field members name (members.lookup (some name)) := by
  cases found : members.lookup (some name) with
  | none =>
    refine .missing fun member isMember same => ?_
    simpa [same] using List.lookup_eq_none_iff.mp found member isMember
  | some v =>
    obtain ⟨before, after, split, absent⟩ := List.lookup_eq_some_iff.mp found
    rw [split, keys, List.map_append, List.map_cons] at distinct
    have once := (List.nodup_middle.mp distinct).notMem
    refine .once split fun member isMember same => once ?_
    rw [← List.map_append]
    exact List.mem_map.mpr ⟨member, isMember, same⟩

end Field

theorem record_object_iff {names : List String} {members : List (Option String × Json)} {fields : List (Option Json)} :
    Record names (.object members) fields ↔
      (∀ member ∈ members, member.1.isSome = true) ∧ List.Forall₂ (Field members) names fields := by
  constructor
  · intro record
    cases record with
    | object texts each => exact ⟨texts, each⟩
  · exact fun ⟨texts, each⟩ => .object texts each

theorem none_notMem_keys_iff {members : List (Option String × Json)} :
    none ∉ keys members ↔ ∀ member ∈ members, member.1.isSome = true := by
  simp only [keys, List.mem_map, not_exists, not_and, Option.isSome_iff_ne_none, ne_eq]

namespace Library.Documented

variable {library : Library} (documented : library.Documented) {names : List String}

include documented

/-- The members that no field is given by can be taken away. -/
theorem fields?_filter (before : List (Option String × Json)) {members : List (Option String × Json)}
    (texts : ∀ member ∈ members, member.1.isSome = true) :
    library.fields? names (.object (before ++ members)) =
      library.fields? names (.object (before ++ members.filter (·.1 ∈ names.map some))) := by
  induction members generalizing before with
  | nil => rfl
  | cons member members ih =>
    obtain ⟨hasText, texts⟩ := List.forall_mem_cons.mp texts
    by_cases known : member.1 ∈ names.map some
    · rw [List.filter_cons_of_pos (by simpa using known), List.append_cons, ih _ texts, ← List.append_cons]
    · rw [List.filter_cons_of_neg (by simpa using known), ← ih _ texts]
      obtain ⟨key, same⟩ := Option.isSome_iff_exists.mp hasText
      obtain ⟨_, v⟩ := member
      obtain rfl : _ = some key := same
      exact documented.fields?_unknown fun isField => known (List.mem_map_of_mem isField)

/-- Without other members, the fields are what the object holds under their names. -/
theorem fields?_eq_some_iff_of_known {members : List (Option String × Json)} {fields : List (Option Json)}
    (known : keys members ⊆ names.map some) :
    library.fields? names (.object members) = some fields ↔ List.Forall₂ (Field members) names fields := by
  by_cases distinct : (keys members).Nodup
  · have holds (name : String) (field : Option Json) :
        members.lookup (some name) = field ↔ Field members name field :=
      ⟨fun same => same ▸ field_lookup distinct, (field_lookup distinct).unique⟩
    rw [documented.fields?_object known distinct, Option.some.injEq, ← List.forall₂_eq_eq_eq,
      List.forall₂_map_left_iff]
    simp only [holds]
  · obtain ⟨key, repeated⟩ : ∃ key, 1 < (keys members).count key := by
      simpa [List.nodup_iff_count_le_one] using distinct
    obtain ⟨name, isField, rfl⟩ := List.mem_map.mp (known (List.count_pos_iff.mp (Nat.zero_lt_of_lt repeated)))
    rw [documented.fields?_repeated isField repeated]
    refine ⟨nofun, fun each => ?_⟩
    obtain ⟨field, held⟩ := exists_forall₂_iff.mp ⟨fields, each⟩ name isField
    exact absurd held.count_le_one (Nat.not_le_of_lt repeated)

theorem fields?_object_eq_some_iff {members : List (Option String × Json)} {fields : List (Option Json)} :
    library.fields? names (.object members) = some fields ↔ Record names (.object members) fields := by
  by_cases texts : ∀ member ∈ members, member.1.isSome = true
  · generalize kept_eq : members.filter (·.1 ∈ names.map some) = kept
    have whole : library.fields? names (.object members) = library.fields? names (.object kept) :=
      kept_eq ▸ documented.fields?_filter [] texts
    have known : keys kept ⊆ names.map some := by
      simp [← kept_eq, keys, List.subset_def]
    have same (name : String) (isField : name ∈ names) (field : Option Json) :
        Field kept name field ↔ Field members name field := by
      refine field_congr ?_
      rw [← kept_eq, List.filter_filter]
      refine List.filter_congr fun member _ => ?_
      by_cases here : member.1 = some name <;> simp [here, isField]
    rw [whole, documented.fields?_eq_some_iff_of_known known, forall₂_congr same, record_object_iff,
      and_iff_right texts]
  · rw [documented.fields?_keyless (not_not.mp (mt none_notMem_keys_iff.mp texts)), record_object_iff]
    exact ⟨nofun, fun ⟨ofTexts, _⟩ => absurd ofTexts texts⟩

/-- What a record holds is settled by what is documented. -/
theorem fields?_eq_some_iff {v : Json} {fields : List (Option Json)} :
    library.fields? names v = some fields ↔ Record names v fields := by
  have refused {v : Json} (noArray : ∀ items, v ≠ .array items) (noObject : ∀ members, v ≠ .object members) :
      library.fields? names v = some fields ↔ Record names v fields := by
    rw [documented.fields?_other noArray noObject]
    refine ⟨nofun, fun record => ?_⟩
    cases record with
    | object => exact absurd rfl (noObject _)
    | array => exact absurd rfl (noArray _)
  cases v with
  | array items =>
    by_cases enough : items.length ≤ names.length
    · rw [documented.fields?_array enough, Option.some.injEq]
      constructor
      · rintro rfl
        exact .array (Nat.add_sub_cancel' enough)
      · intro record
        cases record with
        | @array _ missing count => rw [← count, Nat.add_sub_cancel_left]
    · rw [documented.fields?_long (Nat.lt_of_not_le enough)]
      refine ⟨nofun, fun record => ?_⟩
      cases record
      omega
  | object members => exact documented.fields?_object_eq_some_iff
  | _ => exact refused nofun nofun

end Library.Documented

/-! ## The reader of this project -/

/-- A member whose key is a text. -/
def textMember (member : String × Json) : Option String × Json := (some member.1, member.2)

/-- Keys are taken as texts if each of them is one. -/
theorem mapM_key_eq_some_iff {members : List (Option String × Json)} {texts : List (String × Json)} :
    (members.mapM fun (key, v) => key.map (·, v)) = some texts ↔ members = texts.map textMember := by
  have read (member : Option String × Json) (text : String × Json) :
      member.1.map (·, member.2) = some text ↔ member = textMember text := by
    obtain ⟨key, v⟩ := member
    obtain ⟨name, w⟩ := text
    simp [textMember]
  rw [← forall₂_eq_map_iff, mapM_eq_some_iff]
  simp only [read]

theorem exists_texts_iff {members : List (Option String × Json)} :
    (∃ texts : List (String × Json), members = texts.map textMember) ↔
      ∀ member ∈ members, member.1.isSome = true := by
  have known (member : Option String × Json) : (∃ text, member = textMember text) ↔ member.1.isSome = true := by
    obtain ⟨key, v⟩ := member
    cases key <;> simp [textMember]
  simp only [← forall₂_eq_map_iff, exists_forall₂_iff, known]

/-- The members with a name are looked for among those with texts for keys. -/
theorem field_iff {texts : List (String × Json)} {name : String} {field : Option Json} :
    (match texts.filter (·.1 == name) with
      | [] => some none
      | [(_, v)] => some (some v)
      | _ => none) = some field ↔ Field (texts.map textMember) name field := by
  have same : (texts.map textMember).filter (·.1 == some name) = (texts.filter (·.1 == name)).map textMember := by
    rw [List.filter_map]
    rfl
  rw [field_iff_filter, same]
  have named : ∀ text ∈ texts.filter (·.1 == name), text.1 = name := by simp
  generalize texts.filter (·.1 == name) = found at named
  match found with
  | [] => cases field <;> simp
  | [(key, v)] =>
    obtain rfl : key = name := by simpa using named
    cases field <;> simp [textMember]
  | _ :: _ :: _ => cases field <;> simp

theorem fields?_eq_some_iff {names : List String} {v : Json} {fields : List (Option Json)} :
    v.fields? names = some fields ↔ Record names v fields := by
  cases v with
  | array items =>
    have whole : (array items).fields? names = if items.length ≤ names.length then
        some (items.map some ++ List.replicate (names.length - items.length) none) else none := rfl
    rw [whole]
    constructor
    · intro read
      split at read
      · rename_i enough
        cases read
        exact .array (Nat.add_sub_cancel' enough)
      · cases read
    · intro record
      cases record with
      | @array _ missing count =>
        have enough : items.length ≤ names.length := by omega
        have rest : names.length - items.length = missing := by omega
        rw [if_pos enough, rest]
  | object members =>
    have whole : (object members).fields? names = some fields ↔
        ∃ texts : List (String × Json), members = texts.map textMember ∧
          List.Forall₂ (Field members) names fields := by
      simp only [fields?, bind, Option.bind_eq_some_iff, mapM_key_eq_some_iff]
      constructor
      · rintro ⟨texts, rfl, each⟩
        exact ⟨texts, rfl, (mapM_eq_some_iff.mp each).imp fun _ _ => field_iff.mp⟩
      · rintro ⟨texts, rfl, each⟩
        exact ⟨texts, rfl, mapM_eq_some_iff.mpr (each.imp fun _ _ => field_iff.mpr)⟩
    rw [whole, exists_and_right, exists_texts_iff, record_object_iff]
  | _ =>
    constructor
    · intro read
      cases read
    · intro record
      cases record

theorem library_fields?_eq_some_iff {names : List String} {v : Json} {fields : List (Option Json)} :
    library.fields? names v = some fields ↔ Record names v fields := fields?_eq_some_iff

/-- The reader does what is documented. -/
theorem documented_library : library.Documented where
  fromText? {α read text a} := by
    have read_eq : library.fromText? read text = (parse? text).bind read := rfl
    simp only [read_eq, Option.bind_eq_some_iff, parse?_eq_some_iff]
  text? {v text} := by
    have text_eq : library.text? v = v.text? := rfl
    rw [text_eq]
    cases v <;> simp [Json.text?, IsText]
  optional?_null := rfl
  optional?_value {α read v} given := by
    cases v with
    | null => exact absurd rfl given
    | _ => rfl
  list? {α read v xs} := by
    have list_eq : library.list? read v = v.list? read := rfl
    rw [list_eq]
    cases v <;> simp [Json.list?, mapM_eq_some_iff]
  field?_missing := rfl
  field?_held := rfl
  fields?_array enough := if_pos enough
  fields?_long long := if_neg (Nat.not_le_of_lt long)
  fields?_object {names members} known distinct := by
    refine library_fields?_eq_some_iff.mpr (.object ?_ ?_)
    · refine none_notMem_keys_iff.mp fun keyless => ?_
      simpa using known keyless
    · rw [List.forall₂_map_right_iff, List.forall₂_same]
      exact fun name _ => field_lookup distinct
  fields?_unknown {names before after key v} unknown := by
    refine Option.ext fun fields => ?_
    have same (name : String) (isField : name ∈ names) (field : Option Json) :
        Field (before ++ (some key, v) :: after) name field ↔ Field (before ++ after) name field := by
      have other : (some key == some name) = false := by
        simpa using fun same : key = name => unknown (same ▸ isField)
      refine field_congr ?_
      rw [List.filter_append, List.filter_append, List.filter_cons_of_neg (by simp [other])]
    have texts : (∀ member ∈ before ++ (some key, v) :: after, member.1.isSome = true) ↔
        ∀ member ∈ before ++ after, member.1.isSome = true := by
      simp only [List.forall_mem_append, List.forall_mem_cons, Option.isSome_some, true_and]
    rw [library_fields?_eq_some_iff, library_fields?_eq_some_iff, record_object_iff, record_object_iff, texts,
      forall₂_congr same]
  fields?_repeated {names members name} known repeated := by
    refine Option.eq_none_iff_forall_ne_some.mpr fun fields read => ?_
    obtain ⟨-, each⟩ := record_object_iff.mp (library_fields?_eq_some_iff.mp read)
    obtain ⟨field, held⟩ := exists_forall₂_iff.mp ⟨fields, each⟩ name known
    exact absurd held.count_le_one (Nat.not_le_of_lt repeated)
  fields?_keyless {names members} keyless := by
    refine Option.eq_none_iff_forall_ne_some.mpr fun fields read => ?_
    obtain ⟨texts, -⟩ := record_object_iff.mp (library_fields?_eq_some_iff.mp read)
    exact none_notMem_keys_iff.mpr texts keyless
  fields?_other {names v} noArray noObject := by
    cases v with
    | array items => exact absurd rfl (noArray items)
    | object members => exact absurd rfl (noObject members)
    | _ => rfl

end ScopeMachine.Json

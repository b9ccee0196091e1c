import KernelTuner.Description
import KernelTuner.Proofs.Json.Unambiguous
import KernelTuner.Proofs.Outcome

/-!
Contract: the entries that a JSON value can stand for.

Owns: the forms of an entry, by the names of its fields or by their order; and
`DescriptionEntry.read_eq_ok_iff`, by which the values of these forms are read, whatever
they have in the place of the predictor.
-/

set_option autoImplicit false

namespace KernelTuner

namespace Json

theorem integer_eq_ok_iff {value : Value} {number : Int} :
    integer value = .ok number ↔
      value = .number (.integer number) ∧ number < 0x8000000000000000 := by
  unfold integer
  split
  · next found =>
      split
      · next small =>
          simp only [Except.ok.injEq, Value.number.injEq, Number.integer.injEq]
          exact ⟨fun same => ⟨same, same ▸ small⟩, fun same => same.1⟩
      · next large =>
          simp only [reduceCtorEq, Value.number.injEq, Number.integer.injEq, false_iff, not_and]
          rintro rfl
          exact large
  · next other =>
      simp only [reduceCtorEq, false_iff, not_and]
      rintro rfl
      exact absurd rfl (other number)

theorem list_eq_ok_iff {α : Type} {element : Decoder α} {value : Value} {results : List α} :
    list element value = .ok results ↔
      ∃ values, value = .array values ∧
        List.Forall₂ (fun inner result => element inner = .ok result) values results := by
  unfold list
  split
  · simp [mapM_eq_ok_iff]
  · next other =>
      simp only [reduceCtorEq, false_iff, not_exists, not_and]
      rintro values rfl
      exact absurd rfl (other values)

/-- A list is read by reading its elements, where each element has one spelling. -/
theorem list_eq_ok_iff_of_spelling {α : Type} {element : Decoder α} {spelling : α → Value}
    {Readable : α → Prop} {value : Value} {results : List α}
    (element_eq_ok_iff : ∀ inner result,
      element inner = .ok result ↔ inner = spelling result ∧ Readable result) :
    list element value = .ok results ↔
      value = .array (results.map spelling) ∧ ∀ result ∈ results, Readable result := by
  have spelled (values : List Value) :
      List.Forall₂ (fun inner result => element inner = .ok result) values results ↔
        values = results.map spelling ∧ ∀ result ∈ results, Readable result := by
    simp only [element_eq_ok_iff]
    induction results generalizing values with
    | nil => simp
    | cons result rest inductionHypothesis =>
        simp only [List.forall₂_cons_right_iff, inductionHypothesis, List.map_cons,
          List.forall_mem_cons]
        constructor
        · rintro ⟨_, _, ⟨rfl, readable⟩, ⟨rfl, others⟩, rfl⟩
          exact ⟨rfl, readable, others⟩
        · rintro ⟨rfl, readable, others⟩
          exact ⟨_, _, ⟨rfl, readable⟩, ⟨rfl, others⟩, rfl⟩
  simp only [list_eq_ok_iff, spelled]
  constructor
  · rintro ⟨_, rfl, rfl, readable⟩
    exact ⟨rfl, readable⟩
  · rintro ⟨rfl, readable⟩
    exact ⟨_, rfl, rfl, readable⟩

/-- What stands in the place of an optional value; `null` stands for nothing. -/
def present? : Value → Option Value
  | .null => none
  | value => some value

theorem optional_eq_ok (value : Value) : optional value = .ok (present? value) := by
  cases value <;> rfl

end Json

namespace DescriptionEntry

open Json (Value)

/-- An array of arrays of signed 64-bit integers. -/
def Lists (value : Value) (profiles : List (List Int)) : Prop :=
  value = .array (profiles.map fun profile =>
      .array (profile.map fun size => .number (.integer size))) ∧
    ∀ profile ∈ profiles, ∀ size ∈ profile, size < 0x8000000000000000

/-- A value that gives the fields of the entry, by name next to others or in order. -/
inductive Spells (entry : DescriptionEntry) : Value → Prop where
  | byName {members : List (String × Value)} {profiles : Value}
      (named : members.lookup "profiles" = some profiles) (lists : Lists profiles entry.profiles)
      (predictor : entry.predictor = (members.lookup "predictor").bind Json.present?) :
      Spells entry (.object members)
  | alone {profiles : Value} (lists : Lists profiles entry.profiles)
      (predictor : entry.predictor = none) : Spells entry (.array [profiles])
  | inOrder {profiles given : Value} (lists : Lists profiles entry.profiles)
      (predictor : entry.predictor = Json.present? given) :
      Spells entry (.array [profiles, given])

variable {value : Value} {profiles : List (List Int)} {entry : DescriptionEntry}

theorem list_eq_ok_iff :
    Json.list (Json.list Json.integer) value = .ok profiles ↔ Lists value profiles :=
  Json.list_eq_ok_iff_of_spelling fun _ _ =>
    Json.list_eq_ok_iff_of_spelling fun _ _ => Json.integer_eq_ok_iff

theorem store_profiles_eq_ok_iff {start filled : Fields} :
    record.store "profiles" value start = .ok filled ↔
      ∃ profiles, Lists value profiles ∧ filled = { start with profiles := some profiles } := by
  rw [show record.store "profiles" value start = (do
    return { start with profiles := some (← Json.list (Json.list Json.integer) value) }) from rfl]
  simp only [bind_eq_ok_iff, list_eq_ok_iff, pure_eq_ok_iff]
  simp only [eq_comm]

theorem store_predictor_eq_ok_iff {start filled : Fields} :
    record.store "predictor" value start = .ok filled ↔
      filled = { start with predictor := Json.present? value } := by
  rw [show record.store "predictor" value start = (do
    return { start with predictor := ← Json.optional value }) from rfl, Json.optional_eq_ok]
  exact ⟨fun same => (Except.ok.inj same).symm, fun same => same ▸ rfl⟩

/-- The fields that are found in members of different names. -/
theorem fold_eq_ok_iff {members : List (String × Value)} {start filled : Fields}
    (distinct : (members.map Prod.fst).Nodup) :
    members.foldlM (fun filled member =>
        if record.names.contains member.1 then record.store member.1 member.2 filled
        else .ok filled) start = .ok filled ↔
      (match members.lookup "profiles" with
        | none => filled.profiles = start.profiles
        | some listed => ∃ profiles, Lists listed profiles ∧ filled.profiles = some profiles) ∧
      filled.predictor = (match members.lookup "predictor" with
        | none => start.predictor
        | some given => Json.present? given) := by
  induction members generalizing start with
  | nil =>
      rw [List.foldlM_nil, pure_eq_ok_iff]
      obtain ⟨profiles, predictor⟩ := start
      obtain ⟨_, _⟩ := filled
      simp [eq_comm]
  | cons member rest inductionHypothesis =>
      obtain ⟨name, value⟩ := member
      obtain ⟨fresh, distinct⟩ := List.nodup_cons.1 distinct
      have absent : rest.lookup name = none := by
        rw [List.lookup_eq_none_iff]
        intro other member
        exact bne_iff_ne.2 fun same => fresh (List.mem_map.2 ⟨other, member, same.symm⟩)
      rw [List.foldlM_cons, bind_eq_ok_iff]
      simp only [inductionHypothesis distinct]
      by_cases isProfiles : name = "profiles"
      · subst isProfiles
        have apart : ("predictor" == "profiles") = false := rfl
        simp only [show record.names.contains "profiles" = true from rfl, if_true,
          store_profiles_eq_ok_iff, List.lookup_cons, BEq.rfl, apart, absent]
        constructor
        · rintro ⟨_, ⟨profiles, lists, rfl⟩, found, predictor⟩
          exact ⟨⟨profiles, lists, found⟩, predictor⟩
        · rintro ⟨⟨profiles, lists, found⟩, predictor⟩
          exact ⟨_, ⟨profiles, lists, rfl⟩, found, predictor⟩
      · by_cases isPredictor : name = "predictor"
        · subst isPredictor
          have apart : ("profiles" == "predictor") = false := rfl
          simp only [show record.names.contains "predictor" = true from rfl, if_true,
            store_predictor_eq_ok_iff, List.lookup_cons, BEq.rfl, apart, absent, exists_eq_left]
        · have unnamed : record.names.contains name = false := by
            simp [record, isProfiles, isPredictor]
          simp only [unnamed, Bool.false_eq_true, if_false, Except.ok.injEq, exists_eq_left',
            List.lookup_cons, beq_false_of_ne (Ne.symm isProfiles),
            beq_false_of_ne (Ne.symm isPredictor)]

theorem missing?_eq (members : List (String × Value)) :
    record.missing? members =
      match members.lookup "profiles" with
      | none => some "profiles"
      | some _ => none := by
  have listed :
      (members.map Prod.fst).contains "profiles" = (members.lookup "profiles").isSome := by
    rw [Bool.eq_iff_iff, List.contains_iff_mem, List.lookup_isSome_iff, List.mem_map]
    simp only [beq_iff_eq, @eq_comm String "profiles"]
  simp only [Json.Record.missing?, record, List.find?_cons, listed]
  cases members.lookup "profiles" <;> rfl

theorem read_object_eq_ok_iff {members : List (String × Value)}
    (distinct : (members.map Prod.fst).Nodup) :
    read (.object members) = .ok entry ↔
      (∃ listed, members.lookup "profiles" = some listed ∧ Lists listed entry.profiles) ∧
        entry.predictor = (members.lookup "predictor").bind Json.present? := by
  have predictor_eq : (match members.lookup "predictor" with
      | none => none
      | some given => Json.present? given) = (members.lookup "predictor").bind Json.present? := by
    cases members.lookup "predictor" <;> rfl
  obtain ⟨profiles, predictor⟩ := entry
  simp only [read, Json.Record.read, bind_eq_ok_iff, pure_eq_ok_iff, fold_eq_ok_iff distinct,
    missing?_eq, predictor_eq]
  cases members.lookup "profiles" with
  | none => simp
  | some listed =>
      simp only [Except.ok.injEq, Option.some.injEq, exists_eq_left', DescriptionEntry.mk.injEq]
      constructor
      · rintro ⟨filled, ⟨_, ⟨⟨found, lists, foundEq⟩, given⟩, rfl⟩, rfl, rfl⟩
        rw [foundEq]
        exact ⟨lists, given⟩
      · rintro ⟨lists, given⟩
        exact ⟨⟨some profiles, predictor⟩, ⟨_, ⟨⟨_, lists, rfl⟩, given⟩, rfl⟩, rfl, rfl⟩

theorem missingPlace?_eq (length : Nat) :
    record.missingPlace? length = if length = 0 then some 0 else none := by
  match length with
  | 0 => rfl
  | 1 => rfl
  | length + 2 =>
      have places : List.range record.names.length = [0, 1] := rfl
      simp [Json.Record.missingPlace?, places]

theorem read_array_eq_ok_iff {values : List Value} :
    read (.array values) = .ok entry ↔
      ∃ listed rest, values = listed :: rest ∧ Lists listed entry.profiles ∧
        (rest = [] ∧ entry.predictor = none ∨
          ∃ given, rest = [given] ∧ entry.predictor = Json.present? given) := by
  have names : record.names = ["profiles", "predictor"] := rfl
  obtain ⟨profiles, predictor⟩ := entry
  simp only [read, Json.Record.read, bind_eq_ok_iff, pure_eq_ok_iff, missingPlace?_eq, names]
  match values with
  | [] => simp
  | [listed] =>
      simp only [List.zip_cons_cons, List.zip_nil_right, List.foldlM_cons, List.foldlM_nil,
        bind_eq_ok_iff, store_profiles_eq_ok_iff, pure_eq_ok_iff, List.cons.injEq,
        DescriptionEntry.mk.injEq]
      constructor
      · rintro ⟨_, ⟨_, ⟨_, ⟨_, lists, rfl⟩, rfl⟩, fields⟩, rfl, rfl⟩
        cases fields
        exact ⟨listed, [], ⟨rfl, rfl⟩, lists, .inl ⟨rfl, rfl⟩⟩
      · rintro ⟨_, _, ⟨rfl, rfl⟩, lists, ⟨_, rfl⟩ | ⟨_, surplus, _⟩⟩
        · exact ⟨_, ⟨_, ⟨_, ⟨profiles, lists, rfl⟩, rfl⟩, rfl⟩, rfl, rfl⟩
        · cases surplus
  | [listed, given] =>
      simp only [List.zip_cons_cons, List.zip_nil_right, List.foldlM_cons, List.foldlM_nil,
        bind_eq_ok_iff, store_profiles_eq_ok_iff, store_predictor_eq_ok_iff, pure_eq_ok_iff,
        List.cons.injEq, DescriptionEntry.mk.injEq]
      constructor
      · rintro ⟨_, ⟨_, ⟨_, ⟨_, lists, rfl⟩, _, rfl, rfl⟩, fields⟩, rfl, rfl⟩
        cases fields
        exact ⟨listed, [given], ⟨rfl, rfl⟩, lists, .inr ⟨given, rfl, rfl⟩⟩
      · rintro ⟨_, _, ⟨rfl, rfl⟩, lists, ⟨absent, _⟩ | ⟨_, same, rfl⟩⟩
        · cases absent
        · cases same
          exact ⟨_, ⟨_, ⟨_, ⟨profiles, lists, rfl⟩, _, rfl, rfl⟩, rfl⟩, rfl, rfl⟩
  | listed :: given :: surplus :: rest =>
      constructor
      · rintro ⟨_, ⟨_, _, fields⟩, _⟩
        simp at fields
      · rintro ⟨_, _, same, _, ⟨rfl, _⟩ | ⟨_, rfl, _⟩⟩ <;> cases same

/-- The values that are read as an entry. What stands in the place of the predictor is not
looked at. -/
theorem read_eq_ok_iff (unambiguous : value.Unambiguous) :
    read value = .ok entry ↔ entry.Spells value := by
  constructor
  · intro done
    cases value with
    | object members =>
        obtain ⟨⟨listed, named, lists⟩, predictor⟩ :=
          (read_object_eq_ok_iff unambiguous.distinct_keys).1 done
        exact .byName named lists predictor
    | array values =>
        obtain ⟨listed, rest, rfl, lists, ⟨rfl, absent⟩ | ⟨given, rfl, predictor⟩⟩ :=
          read_array_eq_ok_iff.1 done
        · exact .alone lists absent
        · exact .inOrder lists predictor
    | null | boolean _ | number _ | text _ => cases done
  · intro spells
    cases spells with
    | byName named lists predictor =>
        exact (read_object_eq_ok_iff unambiguous.distinct_keys).2 ⟨⟨_, named, lists⟩, predictor⟩
    | alone lists absent =>
        exact read_array_eq_ok_iff.2 ⟨_, _, rfl, lists, .inl ⟨rfl, absent⟩⟩
    | inOrder lists predictor =>
        exact read_array_eq_ok_iff.2 ⟨_, _, rfl, lists, .inr ⟨_, rfl, predictor⟩⟩

end DescriptionEntry

end KernelTuner

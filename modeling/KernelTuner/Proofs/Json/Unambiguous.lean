import KernelTuner.Json.Parser
import KernelTuner.Proofs.Table

/-!
Contract: the objects that a JSON text can give.

Owns: `Value.Unambiguous`, which says that no object in a value, however deep, has
two members of one key, and the proof that every text that is read gives such a
value.
-/

set_option autoImplicit false

namespace KernelTuner.Json

/-- Every object in the value has distinct keys. -/
inductive Value.Unambiguous : Value → Prop where
  | null : Unambiguous .null
  | boolean (value : Bool) : Unambiguous (.boolean value)
  | number (value : Number) : Unambiguous (.number value)
  | text (value : String) : Unambiguous (.text value)
  | array {elements : List Value} (inner : ∀ element ∈ elements, Unambiguous element) :
      Unambiguous (.array elements)
  | object {members : List (String × Value)} (distinct : (members.map Prod.fst).Nodup)
      (inner : ∀ member ∈ members, Unambiguous member.2) : Unambiguous (.object members)

theorem Value.Unambiguous.distinct_keys {members : List (String × Value)}
    (unambiguous : Unambiguous (.object members)) : (members.map Prod.fst).Nodup := by
  cases unambiguous with
  | object distinct _ => exact distinct

theorem Value.Unambiguous.member {members : List (String × Value)} {member : String × Value}
    (unambiguous : Unambiguous (.object members)) (present : member ∈ members) :
    member.2.Unambiguous := by
  cases unambiguous with
  | object _ inner => exact inner member present

/-- Of members that repeat a key only one is kept. -/
theorem Value.unambiguous_ofMembers {members : List (String × Value)}
    (inner : ∀ member ∈ members, member.2.Unambiguous) : (ofMembers members).Unambiguous := by
  have distinct : (Table.insertAll {} members).keys.Nodup :=
    Table.nodup_keys_insertAll members List.nodup_nil
  have sorted := List.mergeSort_perm (Table.insertAll {} members).entries
    (fun left right => left.1 ≤ right.1)
  refine .object ((sorted.map Prod.fst).nodup_iff.2 distinct) fun member present => ?_
  rcases Table.mem_insertAll (sorted.mem_iff.1 present) with given | absurdly
  · exact inner member given
  · exact absurd absurdly List.not_mem_nil

/-- Every value that the reader gives is unambiguous. -/
def Reader.Unambiguous (read : Reader) : Prop :=
  ∀ (characters : List Char) (result : Value) (rest : List Char),
    read characters = some (result, rest) → result.Unambiguous

variable {read : Reader}

theorem scalar_unambiguous : Reader.Unambiguous scalar := by
  intro characters result rest done
  unfold scalar at done
  split at done
  all_goals
    simp only [Option.bind_eq_bind, Option.bind_eq_some_iff, Option.pure_def, Option.some.injEq,
      Prod.mk.injEq] at done
  · obtain ⟨_, _, rfl, _⟩ := done
    exact .null
  · obtain ⟨_, _, rfl, _⟩ := done
    exact .boolean true
  · obtain ⟨_, _, rfl, _⟩ := done
    exact .boolean false
  · obtain ⟨_, _, rfl, _⟩ := done
    exact .text _
  · obtain ⟨_, _, _, _, rfl, _⟩ := done
    exact .number _

theorem elements_unambiguous (sound : Reader.Unambiguous read) {fuel : Nat} {reversed : List Value}
    (before : ∀ element ∈ reversed, element.Unambiguous) :
    Reader.Unambiguous (elements read reversed fuel) := by
  induction fuel generalizing reversed with
  | zero =>
      intro characters result rest done
      simp [elements] at done
  | succ fuel inductionHypothesis =>
      intro characters result rest done
      obtain ⟨⟨element, remaining⟩, first, done⟩ := Option.bind_eq_some_iff.1 done
      have grown : ∀ other ∈ element :: reversed, other.Unambiguous := by
        intro other present
        rcases List.mem_cons.1 present with rfl | earlier
        · exact sound _ _ _ first
        · exact before other earlier
      dsimp only at done
      split at done
      · exact inductionHypothesis grown _ _ _ done
      · cases done
        exact .array fun other present => grown other (List.mem_reverse.1 present)
      · cases done

theorem members_unambiguous (sound : Reader.Unambiguous read) {fuel : Nat}
    {reversed : List (String × Value)} (before : ∀ member ∈ reversed, member.2.Unambiguous) :
    Reader.Unambiguous (members read reversed fuel) := by
  induction fuel generalizing reversed with
  | zero =>
      intro characters result rest done
      simp [members] at done
  | succ fuel inductionHypothesis =>
      intro characters result rest done
      unfold members at done
      split at done
      · obtain ⟨⟨key, _⟩, _, done⟩ := Option.bind_eq_some_iff.1 done
        obtain ⟨_, _, done⟩ := Option.bind_eq_some_iff.1 done
        obtain ⟨⟨member, _⟩, first, done⟩ := Option.bind_eq_some_iff.1 done
        have grown : ∀ other ∈ (key, member) :: reversed, other.2.Unambiguous := by
          intro other present
          rcases List.mem_cons.1 present with rfl | earlier
          · exact sound _ _ _ first
          · exact before other earlier
        dsimp only at done
        split at done
        · exact inductionHypothesis grown _ _ _ done
        · cases done
          exact Value.unambiguous_ofMembers fun other present =>
            grown other (List.mem_reverse.1 present)
        · cases done
      · cases done

theorem value_unambiguous (depth : Nat) : Reader.Unambiguous (value depth) := by
  induction depth with
  | zero =>
      intro characters result rest done
      unfold value at done
      split at done
      · cases done
      · cases done
      · exact scalar_unambiguous _ _ _ done
  | succ depth inductionHypothesis =>
      intro characters result rest done
      unfold value at done
      split at done
      · split at done
        · cases done
          exact .array fun _ present => absurd present List.not_mem_nil
        · exact elements_unambiguous inductionHypothesis (by simp) _ _ _ done
      · split at done
        · cases done
          exact .object List.nodup_nil fun _ present => absurd present List.not_mem_nil
        · exact members_unambiguous inductionHypothesis (by simp) _ _ _ done
      · exact scalar_unambiguous _ _ _ done

/-- Every text that is read gives a value in which no object repeats a key. -/
theorem parse?_unambiguous {text : String} {document : Value}
    (parsed : parse? text = some document) : document.Unambiguous := by
  unfold parse? at parsed
  split at parsed
  · rename_i result rest read
    split at parsed
    · cases parsed
      exact value_unambiguous depthLimit _ _ _ read
    · cases parsed
  · cases parsed

end KernelTuner.Json

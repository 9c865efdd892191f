import Mathlib.Logic.Basic

/-!
# Strong Kleene logic

Trees of conjunctions, disjunctions and negations over leaves that may be unknown. An unknown leaf
can be read as a truth value; a tree is true, or false, beyond doubt when it is so under the reading
that speaks most against it.
-/

namespace LlamaTrade

/-- A tree whose leaves are true, false or unknown. -/
inductive KleeneTree where
  | leaf (value : Option Bool)
  | all (trees : List KleeneTree)
  | any (trees : List KleeneTree)
  | neg (tree : KleeneTree)

namespace KleeneTree

/-- The strong Kleene conjunction. -/
def and3 : Option Bool → Option Bool → Option Bool
  | some false, _ | _, some false => some false
  | some true, some true => some true
  | _, _ => none

/-- The strong Kleene disjunction. -/
def or3 : Option Bool → Option Bool → Option Bool
  | some true, _ | _, some true => some true
  | some false, some false => some false
  | _, _ => none

theorem and3_eq_true {a b : Option Bool} :
    and3 a b = some true ↔ a = some true ∧ b = some true := by
  rcases a with _ | (_ | _) <;> rcases b with _ | (_ | _) <;> simp [and3]

theorem and3_eq_false {a b : Option Bool} :
    and3 a b = some false ↔ a = some false ∨ b = some false := by
  rcases a with _ | (_ | _) <;> rcases b with _ | (_ | _) <;> simp [and3]

theorem or3_eq_true {a b : Option Bool} :
    or3 a b = some true ↔ a = some true ∨ b = some true := by
  rcases a with _ | (_ | _) <;> rcases b with _ | (_ | _) <;> simp [or3]

theorem or3_eq_false {a b : Option Bool} :
    or3 a b = some false ↔ a = some false ∧ b = some false := by
  rcases a with _ | (_ | _) <;> rcases b with _ | (_ | _) <;> simp [or3]

mutual

/-- The strong Kleene value. -/
def value : KleeneTree → Option Bool
  | leaf value => value
  | all trees => valueAll trees
  | any trees => valueAny trees
  | neg tree => tree.value.map (!·)

def valueAll : List KleeneTree → Option Bool
  | [] => some true
  | tree :: trees => and3 tree.value (valueAll trees)

def valueAny : List KleeneTree → Option Bool
  | [] => some false
  | tree :: trees => or3 tree.value (valueAny trees)

end

mutual

/-- The truth of a tree whose unknown leaves are read as false, except that those below an odd
number of negations are read as `odd`; the tree itself lies below an odd number of them if `below`. -/
def read (odd below : Bool) : KleeneTree → Bool
  | leaf value => value.getD (below && odd)
  | all trees => readAll odd below trees
  | any trees => readAny odd below trees
  | neg tree => !tree.read odd (!below)

def readAll (odd below : Bool) : List KleeneTree → Bool
  | [] => true
  | tree :: trees => tree.read odd below && readAll odd below trees

def readAny (odd below : Bool) : List KleeneTree → Bool
  | [] => false
  | tree :: trees => tree.read odd below || readAny odd below trees

end

mutual

/-- Below an even number of negations the cautious reading is true, and below an odd number it is
false, exactly when the Kleene value is. -/
theorem read_eq_value_iff : (tree : KleeneTree) → (below : Bool) →
    (tree.read true below = !below ↔ tree.value = some !below)
  | leaf value, below => by
    cases value with
    | none => cases below <;> simp [read, KleeneTree.value]
    | some x => cases below <;> simp [read, KleeneTree.value]
  | all trees, below => by
    rw [read, KleeneTree.value]
    exact (readLists_eq_value_iff trees below).1
  | any trees, below => by
    rw [read, KleeneTree.value]
    exact (readLists_eq_value_iff trees below).2
  | neg tree, below => by
    have h := read_eq_value_iff tree (!below)
    cases below <;> simpa [read, KleeneTree.value] using h

theorem readLists_eq_value_iff : (trees : List KleeneTree) → (below : Bool) →
    (readAll true below trees = !below ↔ valueAll trees = some !below) ∧
      (readAny true below trees = !below ↔ valueAny trees = some !below)
  | [], below => by cases below <;> simp [readAll, readAny, valueAll, valueAny]
  | tree :: trees, below => by
    have htree := read_eq_value_iff tree below
    obtain ⟨hall, hany⟩ := readLists_eq_value_iff trees below
    cases below with
    | false =>
      simp only [Bool.not_false] at htree hall hany ⊢
      rw [readAll, readAny, valueAll, valueAny, and3_eq_true, or3_eq_true, Bool.and_eq_true,
        Bool.or_eq_true, htree, hall, hany]
      exact ⟨Iff.rfl, Iff.rfl⟩
    | true =>
      simp only [Bool.not_true] at htree hall hany ⊢
      rw [readAll, readAny, valueAll, valueAny, and3_eq_false, or3_eq_false,
        Bool.and_eq_false_iff, Bool.or_eq_false_iff, htree, hall, hany]
      exact ⟨Iff.rfl, Iff.rfl⟩

end

/-- A tree is true exactly when it is true under the cautious reading. -/
theorem value_eq_true_iff (tree : KleeneTree) :
    tree.value = some true ↔ tree.read true false = true :=
  (read_eq_value_iff tree false).symm

end KleeneTree

end LlamaTrade

import DiceOdds.Text

/-!
# Settings

Settings are a table that gives values to keys.  Every key has one value, the one that was given
last.
-/

namespace DiceOdds

/-- Entries that give values to keys.  The first entry of a key counts. -/
structure Table (Key Value : Type) where
  entries : List (Key × Value)
  deriving DecidableEq

namespace Table

variable {Key Value : Type}

def empty : Table Key Value := ⟨[]⟩

variable [DecidableEq Key]

def get? (table : Table Key Value) (key : Key) : Option Value :=
  table.entries.lookup key

/-- Gives a value to a key in place of any earlier one. -/
def set (table : Table Key Value) (key : Key) (value : Value) : Table Key Value :=
  ⟨(key, value) :: table.entries.filter (·.1 != key)⟩

/-- Gives every key of `changes` its value there. -/
def update (table changes : Table Key Value) : Table Key Value :=
  changes.entries.foldr (fun (key, value) table => table.set key value) table

@[simp]
theorem get?_empty (key : Key) : (empty : Table Key Value).get? key = none := rfl

theorem get?_cons (found : Key) (value : Value) (entries : List (Key × Value)) (key : Key) :
    get? ⟨(found, value) :: entries⟩ key =
      if key = found then some value else get? ⟨entries⟩ key := by
  rw [get?, List.lookup_cons]
  by_cases heq : key = found
  · rw [if_pos heq, beq_iff_eq.2 heq]
  · rw [if_neg heq, beq_eq_false_iff_ne.2 heq]
    rfl

theorem get?_set (table : Table Key Value) (key other : Key) (value : Value) :
    (table.set key value).get? other =
      if other = key then some value else table.get? other := by
  rw [set, get?_cons]
  by_cases heq : other = key
  · rw [if_pos heq, if_pos heq]
  · have hfilter (entries : List (Key × Value)) :
        get? ⟨entries.filter (·.1 != key)⟩ other = get? ⟨entries⟩ other := by
      induction entries with
      | nil => rfl
      | cons entry entries ih =>
          obtain ⟨found, content⟩ := entry
          by_cases hfound : found = key
          · subst hfound
            simp [get?_cons, ih, heq]
          · simp [hfound, get?_cons, ih]
    rw [if_neg heq, if_neg heq, hfilter]

theorem get?_update (table changes : Table Key Value) (key : Key) :
    (table.update changes).get? key = (changes.get? key).or (table.get? key) := by
  obtain ⟨entries⟩ := changes
  induction entries with
  | nil => rfl
  | cons entry entries ih =>
      obtain ⟨found, value⟩ := entry
      have hupdate : table.update ⟨(found, value) :: entries⟩ =
          (table.update ⟨entries⟩).set found value := rfl
      rw [hupdate, get?_set, get?_cons, ih]
      split <;> rfl

end Table

inductive Settings.Value
  | text (value : Text)
  | integer (value : Int)
  /-- the mantissa times a power of ten -/
  | decimal (mantissa exponent : Int)
  | flag (value : Bool)
  | nothing
  deriving DecidableEq

abbrev Settings := Table Text Settings.Value

end DiceOdds

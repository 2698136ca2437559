import ScriptEngine.Value.Basic

/-!
# Records

A record maps names to values. Its members are kept in strictly increasing
order of their names, which is the order in which they are listed and iterated.
-/

set_option autoImplicit false

namespace ScriptEngine

/-- The members with `name` bound to `value`, in the place that the order of the
names gives it. -/
def insertMember (name : String) (value : Value) : List (String × Value) → List (String × Value)
  | [] => [(name, value)]
  | (other, held) :: rest =>
      if name < other then (name, value) :: (other, held) :: rest
      else if name = other then (name, value) :: rest
      else (other, held) :: insertMember name value rest

theorem mem_names_insertMember {name key : String} {value : Value}
    {members : List (String × Value)}
    (member : key ∈ (insertMember name value members).map Prod.fst) :
    key = name ∨ key ∈ members.map Prod.fst := by
  induction members with
  | nil => simpa [insertMember] using member
  | cons entry rest ih =>
      obtain ⟨other, held⟩ := entry
      simp only [insertMember] at member
      split at member
      · simpa using member
      · split at member
        · next same =>
            subst same
            simpa using member
        · simp only [List.map_cons, List.mem_cons] at member ⊢
          rcases member with member | member
          · exact .inr (.inl member)
          · rcases ih member with found | found
            · exact .inl found
            · exact .inr (.inr found)

theorem insertMember_ordered (name : String) (value : Value) {members : List (String × Value)}
    (ordered : (members.map Prod.fst).Pairwise (· < ·)) :
    ((insertMember name value members).map Prod.fst).Pairwise (· < ·) := by
  induction members with
  | nil => simp [insertMember]
  | cons entry rest ih =>
      obtain ⟨other, held⟩ := entry
      simp only [List.map_cons, List.pairwise_cons] at ordered
      simp only [insertMember]
      split
      · next before =>
          simp only [List.map_cons, List.pairwise_cons, List.mem_cons]
          refine ⟨?_, ordered⟩
          intro key member
          rcases member with rfl | member
          · exact before
          · exact String.lt_trans before (ordered.1 key member)
      · next notBefore =>
          split
          · next same =>
              subst same
              simpa using ordered
          · next different =>
              simp only [List.map_cons, List.pairwise_cons]
              refine ⟨?_, ih ordered.2⟩
              intro key member
              rcases mem_names_insertMember member with rfl | member
              · have below := String.not_lt.mp notBefore
                exact Classical.byContradiction fun notAbove =>
                  different (String.le_antisymm (String.not_lt.mp notAbove) below)
              · exact ordered.1 key member

/-- After inserting, the name has the value, and all other names have theirs. -/
theorem lookup_insertMember (name key : String) (value : Value)
    (members : List (String × Value)) :
    (insertMember name value members).lookup key =
      if key = name then some value else members.lookup key := by
  induction members with
  | nil =>
      simp only [insertMember, List.lookup_cons, List.lookup_nil]
      split <;> simp_all
  | cons entry rest ih =>
      obtain ⟨other, held⟩ := entry
      simp only [insertMember]
      split
      · grind
      · split
        · grind
        · grind

theorem filter_ordered (keep : String × Value → Bool) {members : List (String × Value)}
    (ordered : (members.map Prod.fst).Pairwise (· < ·)) :
    ((members.filter keep).map Prod.fst).Pairwise (· < ·) :=
  ordered.sublist (List.filter_sublist.map Prod.fst)

/-- The members of a record, in strictly increasing order of their names. -/
structure Record where
  members : List (String × Value)
  ordered : (members.map Prod.fst).Pairwise (· < ·)

namespace Record

def empty : Record := ⟨[], by simp⟩

instance : Inhabited Record := ⟨empty⟩

def get? (record : Record) (name : String) : Option Value :=
  record.members.lookup name

def contains (record : Record) (name : String) : Bool :=
  (record.get? name).isSome

/-- Binds a name, replacing what it was bound to. -/
def insert (record : Record) (name : String) (value : Value) : Record :=
  ⟨insertMember name value record.members, insertMember_ordered name value record.ordered⟩

/-- Removes a name; a name that is not there is no matter. -/
def erase (record : Record) (name : String) : Record :=
  ⟨record.members.filter fun entry => entry.1 ≠ name, filter_ordered _ record.ordered⟩

def names (record : Record) : List String :=
  record.members.map Prod.fst

def size (record : Record) : Nat :=
  record.members.length

def isEmpty (record : Record) : Bool :=
  record.members.isEmpty

theorem get?_empty (name : String) : empty.get? name = none := rfl

theorem get?_insert (record : Record) (name key : String) (value : Value) :
    (record.insert name value).get? key = if key = name then some value else record.get? key :=
  lookup_insertMember name key value record.members

theorem get?_erase (record : Record) (name key : String) :
    (record.erase name).get? key = if key = name then none else record.get? key := by
  obtain ⟨members, ordered⟩ := record
  simp only [get?, erase]
  induction members with
  | nil => simp
  | cons entry rest ih =>
      have later := ih (List.Pairwise.of_cons ordered)
      grind

end Record

end ScriptEngine

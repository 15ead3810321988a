import HeaderAccord.Json.Double
import HeaderAccord.Name

/-!
JSON values. The members of an object stand in the order in which they are written; an *ordered*
value has each name once and in the order of the names, at every depth.
-/

namespace HeaderAccord

inductive Json
  | null
  | bool (b : Bool)
  | integer (n : Int)
  | double (d : Double)
  | string (s : String)
  | array (items : List Json)
  | object (members : List (String × Json))

namespace Json

instance : Inhabited Json := ⟨.null⟩

def natural (n : Nat) : Json := .integer n

/-- The members that are present, as an object. -/
def objectOf (members : List (Option (String × Json))) : Json := .object (members.filterMap id)

def ofNameMap {α : Type} (encode : α → Json) (m : NameMap α) : Json :=
  .object (m.entries.map fun (name, value) => (name, encode value))

mutual

/-- Every object in the value has its names in strictly increasing order. -/
def isOrdered : Json → Bool
  | .array items => areOrdered items
  | .object members => areOrderedMembers members
  | _ => true

def areOrdered : List Json → Bool
  | [] => true
  | v :: vs => v.isOrdered && areOrdered vs

def areOrderedMembers : List (String × Json) → Bool
  | [] => true
  | (name, v) :: rest =>
    v.isOrdered && rest.all (fun member => name < member.1) && areOrderedMembers rest

end

mutual

/-- The value with its objects ordered; of members with one name the last counts. -/
def ordered : Json → Json
  | .array items => .array (orderedItems items)
  | .object members => .object (orderedMembers members)
  | v => v

def orderedItems : List Json → List Json
  | [] => []
  | v :: vs => v.ordered :: orderedItems vs

def orderedMembers : List (String × Json) → List (String × Json)
  | [] => []
  | (name, v) :: rest =>
    let later := orderedMembers rest
    if later.any (·.1 = name) then later else insertEntry name v.ordered later

end

theorem areOrderedMembers_iff {members : List (String × Json)} :
    areOrderedMembers members = true ↔
      InNameOrder members ∧ ∀ member ∈ members, member.2.isOrdered = true := by
  induction members with
  | nil => simp [areOrderedMembers, InNameOrder]
  | cons m ms ih =>
    obtain ⟨name, v⟩ := m
    simp only [areOrderedMembers, Bool.and_eq_true, ih, List.all_eq_true, decide_eq_true_eq,
      InNameOrder, List.pairwise_cons, List.mem_cons, forall_eq_or_imp]
    constructor
    · rintro ⟨⟨hv, hlt⟩, hord, hall⟩
      exact ⟨⟨hlt, hord⟩, hv, hall⟩
    · rintro ⟨⟨hlt, hord⟩, hv, hall⟩
      exact ⟨⟨hv, hlt⟩, hord, hall⟩

theorem areOrderedMembers_insertEntry {name : String} {v : Json}
    {members : List (String × Json)} (hv : v.isOrdered = true)
    (h : areOrderedMembers members = true) :
    areOrderedMembers (insertEntry name v members) = true := by
  obtain ⟨hord, hall⟩ := areOrderedMembers_iff.1 h
  refine areOrderedMembers_iff.2 ⟨hord.insertEntry name v, fun member hm => ?_⟩
  rcases mem_insertEntry hm with rfl | hm
  · exact hv
  · exact hall member hm

mutual

theorem isOrdered_ordered : (v : Json) → v.ordered.isOrdered = true
  | .null => rfl
  | .bool _ => rfl
  | .integer _ => rfl
  | .double _ => rfl
  | .string _ => rfl
  | .array items => by simpa [ordered, isOrdered] using areOrdered_orderedItems items
  | .object members => by
    simpa [ordered, isOrdered] using areOrderedMembers_orderedMembers members

theorem areOrdered_orderedItems : (items : List Json) → areOrdered (orderedItems items) = true
  | [] => rfl
  | v :: vs => by
    simp [orderedItems, areOrdered, isOrdered_ordered v, areOrdered_orderedItems vs]

theorem areOrderedMembers_orderedMembers :
    (members : List (String × Json)) → areOrderedMembers (orderedMembers members) = true
  | [] => rfl
  | (name, v) :: rest => by
    rw [orderedMembers]
    split
    · exact areOrderedMembers_orderedMembers rest
    · exact areOrderedMembers_insertEntry (isOrdered_ordered v)
        (areOrderedMembers_orderedMembers rest)

end

end Json

/-- A JSON value whose objects are ordered. -/
abbrev OrderedJson := { v : Json // v.isOrdered = true }

def Json.toOrdered (v : Json) : OrderedJson := ⟨v.ordered, v.isOrdered_ordered⟩

end HeaderAccord

import HeaderAccord.Text.Lowercase

/-!
Names. Two languages spell one name differently (`bufferSize`, `buffer_size`, `BUFFER_SIZE`); its
key drops the underscores and the case, so that all spellings agree. A map by names has its entries
in the order of their names, each name once, so two maps with the same look-ups are equal.
-/

namespace HeaderAccord

/-! ### Keys -/

namespace Name

def keyChars (name : List Char) : List Char :=
  (name.filter (· ≠ '_')).flatMap Text.lowercase

def key (name : String) : String := String.ofList (keyChars name.toList)

@[simp] theorem keyChars_nil : keyChars [] = [] := rfl

@[simp] theorem keyChars_append (a b : List Char) :
    keyChars (a ++ b) = keyChars a ++ keyChars b := by
  simp [keyChars]

@[simp] theorem toList_key (name : String) : (key name).toList = keyChars name.toList := by
  simp [key]

end Name

/-! ### Maps and lists of names -/

/-- The entries with `name` set to `value`, in the order of the names. -/
def insertEntry {α : Type} (name : String) (value : α) :
    List (String × α) → List (String × α)
  | [] => [(name, value)]
  | (other, kept) :: rest =>
    if name < other then (name, value) :: (other, kept) :: rest
    else if name = other then (name, value) :: rest
    else (other, kept) :: insertEntry name value rest

def InNameOrder {α : Type} (entries : List (String × α)) : Prop :=
  entries.Pairwise fun a b => a.1 < b.1

theorem mem_insertEntry {α : Type} {name : String} {value : α} {entry : String × α}
    {entries : List (String × α)} (h : entry ∈ insertEntry name value entries) :
    entry = (name, value) ∨ entry ∈ entries := by
  induction entries with
  | nil => simpa [insertEntry] using h
  | cons e es ih =>
    rw [insertEntry] at h
    split at h
    · simpa using h
    · split at h
      · rcases List.mem_cons.1 h with h | h <;> simp [h]
      · rcases List.mem_cons.1 h with h | h
        · simp [h]
        · rcases ih h with h | h <;> simp [h]

theorem InNameOrder.insertEntry {α : Type} {entries : List (String × α)}
    (h : InNameOrder entries) (name : String) (value : α) :
    InNameOrder (insertEntry name value entries) := by
  induction entries with
  | nil => simp [HeaderAccord.insertEntry, InNameOrder]
  | cons e es ih =>
    obtain ⟨hhead, htail⟩ := List.pairwise_cons.1 h
    rw [HeaderAccord.insertEntry]
    split
    · next hlt =>
      refine List.pairwise_cons.2 ⟨fun x hx => ?_, h⟩
      rcases List.mem_cons.1 hx with rfl | hx
      · exact hlt
      · exact String.lt_trans hlt (hhead x hx)
    · split
      · next heq => exact List.pairwise_cons.2 ⟨fun x hx => heq ▸ hhead x hx, htail⟩
      · next hnlt hne =>
        refine List.pairwise_cons.2 ⟨fun x hx => ?_, ih htail⟩
        rcases mem_insertEntry hx with rfl | hx
        · rcases String.le_total e.1 name with hle | hle
          · exact Decidable.byContradiction fun hn =>
              hne (String.le_antisymm (String.not_lt.1 hn) hle)
          · exact absurd (String.le_antisymm hle (String.not_lt.1 hnlt)) hne
        · exact hhead x hx

/-- A map from names to values. -/
structure NameMap (α : Type) where
  entries : List (String × α) := []
  ordered : InNameOrder entries := by exact List.Pairwise.nil

namespace NameMap

variable {α : Type}

def empty : NameMap α := {}

instance : EmptyCollection (NameMap α) := ⟨empty⟩

def insert (m : NameMap α) (name : String) (value : α) : NameMap α where
  entries := insertEntry name value m.entries
  ordered := m.ordered.insertEntry name value

def find? (m : NameMap α) (name : String) : Option α := m.entries.lookup name

def contains (m : NameMap α) (name : String) : Bool := (m.find? name).isSome

def names (m : NameMap α) : List String := m.entries.map (·.1)

def values (m : NameMap α) : List α := m.entries.map (·.2)

def size (m : NameMap α) : Nat := m.entries.length

/-- Later entries replace earlier ones of the same name. -/
def insertAll (m : NameMap α) (entries : List (String × α)) : NameMap α :=
  entries.foldl (fun m e => m.insert e.1 e.2) m

def ofList (entries : List (String × α)) : NameMap α := empty.insertAll entries

/-- The entries whose name passes the test. -/
def filterNames (m : NameMap α) (keep : String → Bool) : NameMap α where
  entries := m.entries.filter fun e => keep e.1
  ordered := m.ordered.filter _

instance [DecidableEq α] : DecidableEq (NameMap α) := fun a b =>
  match decEq a.entries b.entries with
  | isTrue h => isTrue (by cases a; cases b; simp_all)
  | isFalse h => isFalse fun e => h (e ▸ rfl)

@[ext] theorem ext {a b : NameMap α} (h : a.entries = b.entries) : a = b := by
  cases a; cases b; simp_all

end NameMap

/-- Each name once, in the order of the names. -/
def distinctNames (names : List String) : List String :=
  (NameMap.ofList (names.map fun n => (n, ()))).names

/-- Names as messages list them, between braces. -/
def nameList (names : List String) : String := "\x7b" ++ ", ".intercalate names ++ "\x7d"

end HeaderAccord

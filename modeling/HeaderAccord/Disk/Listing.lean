import HeaderAccord.Path

/-!
Folders and what they hold. The entries stand in the order in which the folder lists them; a name
stands once. An address leads from a folder to what it holds, name by name.
-/

namespace HeaderAccord.Disk

inductive Listing
  | nil
  | file (name : String) (content : ByteArray) (rest : Listing)
  | folder (name : String) (entries : Listing) (rest : Listing)

inductive Node
  | file (content : ByteArray)
  | folder (entries : Listing)

namespace Listing

instance : Inhabited Listing := ⟨.nil⟩

def find? (name : String) : Listing → Option Node
  | nil => none
  | file n content rest => if n = name then some (.file content) else rest.find? name
  | folder n entries rest => if n = name then some (.folder entries) else rest.find? name

/-- What stands at an address. -/
def at? : (address : List String) → Listing → Option Node
  | [], listing => some (.folder listing)
  | name :: address, listing =>
    match listing.find? name with
    | some (.folder entries) => at? address entries
    | some (.file content) => if address.isEmpty then some (.file content) else none
    | none => none

/-- The listing with a file of that name and content, in the place of an entry of that name. -/
def putFile (name : String) (content : ByteArray) : Listing → Listing
  | nil => file name content nil
  | file n c rest =>
    if n = name then file name content rest else file n c (rest.putFile name content)
  | folder n entries rest =>
    if n = name then file name content rest else folder n entries (rest.putFile name content)

/-- The listing with an empty folder of that name, unless an entry of that name is there. -/
def putFolder (name : String) : Listing → Listing
  | nil => folder name nil nil
  | file n c rest => if n = name then file n c rest else file n c (rest.putFolder name)
  | folder n entries rest =>
    if n = name then folder n entries rest else folder n entries (rest.putFolder name)

/-- Changes what the folder of that name holds. -/
def modifyFolder (name : String) (change : Listing → Listing) : Listing → Listing
  | nil => nil
  | file n c rest => file n c (rest.modifyFolder name change)
  | folder n entries rest =>
    if n = name then folder n (change entries) rest
    else folder n entries (rest.modifyFolder name change)

/-- Changes what the folder at an address holds. -/
def modifyAt (change : Listing → Listing) : (address : List String) → Listing → Listing
  | [], listing => change listing
  | name :: address, listing => listing.modifyFolder name (modifyAt change address)

/-- How many folders there are below a folder, at any depth. -/
def folderCount : Listing → Nat
  | nil => 0
  | file _ _ rest => rest.folderCount
  | folder _ entries rest => entries.folderCount + 1 + rest.folderCount

end Listing

end HeaderAccord.Disk

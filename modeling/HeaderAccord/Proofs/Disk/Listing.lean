import HeaderAccord.Disk.Basic
import HeaderAccord.Proofs.Path

/-!
Folders as trees. A folder lists its entries in some order, but what counts is what stands at each
address: two listings are of the same tree when that is the same. The files below a folder are the
files that stand at its addresses, each once.
-/

namespace HeaderAccord.Disk

/-- The content of a file; a folder has none. -/
def Node.content? : Node → Option ByteArray
  | .file content => some content
  | .folder _ => none

namespace Listing

def names : Listing → List String
  | nil => []
  | file name _ rest => name :: rest.names
  | folder name _ rest => name :: rest.names

/-- The entries of a folder and of the folders in it have names that entries can have, and no two
entries of one folder have the same. -/
def IsTree : Listing → Prop
  | nil => True
  | file name _ rest => Path.IsEntryName name ∧ name ∉ rest.names ∧ rest.IsTree
  | folder name entries rest =>
    Path.IsEntryName name ∧ name ∉ rest.names ∧ entries.IsTree ∧ rest.IsTree

/-- The same file contents and folders stand at the same addresses. The order in which a folder
lists its entries makes no difference. -/
def SameTree (a b : Listing) : Prop :=
  ∀ address, (a.at? address).map Node.content? = (b.at? address).map Node.content?

/-! ### What stands at an address -/

section

variable {name n : String} {address : List String} {content : ByteArray} {entries rest : Listing}

@[simp] theorem at?_nil (a : Listing) : a.at? [] = some (.folder a) := by cases a <;> rfl

@[simp] theorem nil_at?_cons : nil.at? (name :: address) = none := rfl

theorem file_at?_cons :
    (file n content rest).at? (name :: address) =
      if n = name then (if address = [] then some (.file content) else none)
      else rest.at? (name :: address) := by
  rw [at?, find?, at?]
  by_cases h : n = name <;> simp [h]

theorem folder_at?_cons :
    (folder n entries rest).at? (name :: address) =
      if n = name then entries.at? address else rest.at? (name :: address) := by
  rw [at?, find?, at?]
  by_cases h : n = name <;> simp [h]

end

/-- What stands at an address starts with the name of an entry. -/
theorem mem_names_of_at? {a : Listing} {name : String} {address : List String} {node : Node}
    (h : a.at? (name :: address) = some node) : name ∈ a.names := by
  induction a with
  | nil => simp at h
  | file n content rest ih =>
      rw [file_at?_cons] at h
      rw [names, List.mem_cons]
      split at h
      · next heq => exact .inl heq.symm
      · exact .inr (ih h)
  | folder n entries rest _ ih =>
      rw [folder_at?_cons] at h
      rw [names, List.mem_cons]
      split at h
      · next heq => exact .inl heq.symm
      · exact .inr (ih h)

theorem at?_append (a : Listing) (address more : List String) :
    a.at? (address ++ more) = match a.at? address with
      | some (.folder entries) => entries.at? more
      | some (.file content) => if more = [] then some (.file content) else none
      | none => none := by
  induction address generalizing a with
  | nil => simp
  | cons name address ih =>
      rw [List.cons_append, at?, at?]
      cases a.find? name with
      | none => rfl
      | some node =>
          cases node with
          | folder entries => exact ih entries
          | file content => cases address <;> cases more <;> simp

theorem IsTree.of_at? {a entries : Listing} {address : List String} (h : a.IsTree)
    (hat : a.at? address = some (.folder entries)) : entries.IsTree := by
  induction address generalizing a with
  | nil =>
      rw [at?_nil] at hat
      cases hat
      exact h
  | cons name address ih =>
      induction a with
      | nil => simp at hat
      | file n content rest ihrest =>
          rw [file_at?_cons] at hat
          split at hat
          · split at hat <;> simp at hat
          · exact ihrest h.2.2 hat
      | folder n es rest _ ihrest =>
          rw [folder_at?_cons] at hat
          split at hat
          · exact ih h.2.2.1 hat
          · exact ihrest h.2.2.2 hat

/-- The names on the way to what stands at an address. -/
theorem IsTree.isEntryName {a : Listing} {address : List String} {node : Node} (h : a.IsTree)
    (hat : a.at? address = some node) : ∀ name ∈ address, Path.IsEntryName name := by
  induction address generalizing a with
  | nil => simp
  | cons name address ih =>
      induction a with
      | nil => simp at hat
      | file n content rest ihrest =>
          rw [file_at?_cons] at hat
          split at hat
          · next heq =>
            split at hat
            · next hnil => simpa [hnil, ← heq] using h.1
            · simp at hat
          · exact ihrest h.2.2 hat
      | folder n es rest _ ihrest =>
          rw [folder_at?_cons] at hat
          split at hat
          · next heq => exact List.forall_mem_cons.2 ⟨heq ▸ h.1, ih h.2.2.1 hat⟩
          · exact ihrest h.2.2.2 hat

/-! ### The files below a folder -/

/-- All files below a folder, at any depth, with their paths. -/
def files (base : Path) : Listing → List (Path × ByteArray)
  | nil => []
  | file name content rest => (base.joinName name, content) :: rest.files base
  | folder name entries rest => entries.files (base.joinName name) ++ rest.files base

/-- The files below a folder with their addresses. -/
def addressed : Listing → List (List String × ByteArray)
  | nil => []
  | file name content rest => ([name], content) :: rest.addressed
  | folder name entries rest =>
    entries.addressed.map (fun f => (name :: f.1, f.2)) ++ rest.addressed

/-- The path of what stands at an address below a folder. -/
def descend (base : Path) (address : List String) : Path := address.foldl Path.joinName base

theorem files_eq_map (a : Listing) (base : Path) :
    a.files base = a.addressed.map fun f => (descend base f.1, f.2) := by
  induction a generalizing base with
  | nil => rfl
  | file name content rest ih => rw [files, addressed, ih, List.map_cons]; rfl
  | folder name entries rest ihentries ihrest =>
      rw [files, addressed, ihentries, ihrest, List.map_append, List.map_map]
      rfl

theorem mem_addressed_iff {a : Listing} (h : a.IsTree) {address : List String}
    {content : ByteArray} :
    (address, content) ∈ a.addressed ↔ a.at? address = some (.file content) := by
  induction a generalizing address with
  | nil => cases address <;> simp [addressed]
  | file n c rest ih =>
      obtain ⟨-, hfresh, hrest⟩ := h
      rw [addressed, List.mem_cons, ih hrest]
      cases address with
      | nil => simp
      | cons name address =>
          rw [file_at?_cons]
          by_cases heq : n = name
          · subst heq
            -- the rest of the folder has no entry of this name
            have hnone (more : List String) : rest.at? (n :: more) ≠ some (.file content) :=
              fun hat => hfresh (mem_names_of_at? hat)
            by_cases hnil : address = [] <;> simp [hnone, hnil, eq_comm]
          · simp [heq, Ne.symm heq]
  | folder n es rest ihentries ihrest =>
      obtain ⟨-, hfresh, hentries, hrest⟩ := h
      rw [addressed, List.mem_append, ihrest hrest]
      cases address with
      | nil => simp
      | cons name address =>
          rw [folder_at?_cons]
          by_cases heq : n = name
          · subst heq
            have hnone : rest.at? (n :: address) ≠ some (.file content) :=
              fun hat => hfresh (mem_names_of_at? hat)
            simp [hnone, ← ihentries hentries]
          · simp [heq]

/-- Each file is found at one address. -/
theorem nodup_addressed {a : Listing} (h : a.IsTree) : (a.addressed.map (·.1)).Nodup := by
  induction a with
  | nil => simp [addressed]
  | file n c rest ih =>
      obtain ⟨-, hfresh, hrest⟩ := h
      rw [addressed, List.map_cons, List.nodup_cons]
      refine ⟨fun hmem => ?_, ih hrest⟩
      obtain ⟨⟨address, content⟩, hf, rfl⟩ := List.mem_map.1 hmem
      exact hfresh (mem_names_of_at? ((mem_addressed_iff hrest).1 hf))
  | folder n es rest ihentries ihrest =>
      obtain ⟨-, hfresh, hentries, hrest⟩ := h
      rw [addressed, List.map_append, List.map_map, List.nodup_append]
      refine ⟨?_, ihrest hrest, ?_⟩
      · have hcons : es.addressed.map ((·.1) ∘ fun f => (n :: f.1, f.2)) =
            (es.addressed.map (·.1)).map (n :: ·) := by simp
        rw [hcons]
        exact List.Pairwise.map _ (fun _ _ hne heq => hne (List.cons.inj heq).2)
          (ihentries hentries)
      -- an address in the rest starts with another name
      · rintro _ hx _ hy rfl
        obtain ⟨f, -, rfl⟩ := List.mem_map.1 hx
        obtain ⟨⟨address, content⟩, hf, haddress⟩ := List.mem_map.1 hy
        have haddress' : address = n :: f.1 := haddress
        rw [haddress'] at hf
        exact hfresh (mem_names_of_at? ((mem_addressed_iff hrest).1 hf))

theorem components_descend {base : Path} (hbase : base.text ≠ "") {address : List String}
    (h : ∀ name ∈ address, Path.IsEntryName name) :
    (descend base address).components = base.components ++ address.map .name := by
  induction address generalizing base with
  | nil => simp [descend]
  | cons name address ih =>
      have hname := h name (by simp)
      have hstep : descend base (name :: address) = descend (base.joinName name) address := rfl
      rw [hstep, ih (Path.text_joinName_ne_empty hbase hname) fun n hn => h n (by simp [hn]),
        Path.components_joinName hbase hname]
      simp

/-! ### Listings of one tree -/

section

variable {a b : Listing}

theorem SameTree.file_iff (h : a.SameTree b) {address : List String} {content : ByteArray} :
    a.at? address = some (.file content) ↔ b.at? address = some (.file content) := by
  have hobserve (x : Option Node) :
      x = some (.file content) ↔ x.map Node.content? = some (some content) := by
    rcases x with - | (_ | _) <;> simp [Node.content?]
  rw [hobserve, hobserve, h address]

theorem SameTree.folder (h : a.SameTree b) {address : List String} {entries : Listing}
    (hat : a.at? address = some (.folder entries)) :
    ∃ entries', b.at? address = some (.folder entries') ∧ entries.SameTree entries' := by
  have hb := h address
  rw [hat] at hb
  rcases hfound : b.at? address with - | (_ | entries')
  · simp [hfound] at hb
  · simp [hfound, Node.content?] at hb
  · refine ⟨entries', rfl, fun more => ?_⟩
    have hmore := h (address ++ more)
    rwa [at?_append, hat, at?_append, hfound] at hmore

theorem SameTree.perm_addressed (h : a.SameTree b) (ha : a.IsTree) (hb : b.IsTree) :
    a.addressed.Perm b.addressed := by
  refine (List.perm_ext_iff_of_nodup ?_ ?_).2 fun f => ?_
  · exact (List.pairwise_map.1 (nodup_addressed ha)).imp fun hne heq => hne (congrArg Prod.fst heq)
  · exact (List.pairwise_map.1 (nodup_addressed hb)).imp fun hne heq => hne (congrArg Prod.fst heq)
  · rw [mem_addressed_iff ha, mem_addressed_iff hb, h.file_iff]

end

end Listing

/-! ### Disks with the same tree -/

/-- Two disks with the same working folder and the same things at the same addresses. -/
structure SameTree (d d' : Disk) : Prop where
  cwd : d.cwd = d'.cwd
  root : d.root.SameTree d'.root

namespace SameTree

variable {d d' : Disk}

theorem follow_eq (h : d.SameTree d') : follow d.root = follow d'.root := by
  have hobserve (root : Listing) (address : List String) :
      isFolderAt root address = decide ((root.at? address).map Node.content? = some none) := by
    rw [isFolderAt]
    rcases root.at? address with - | (_ | _) <;> simp [Node.content?]
  have hsome (address : List String) :
      (d.root.at? address).isSome = (d'.root.at? address).isSome := by
    have := congrArg Option.isSome (h.root address)
    simpa using this
  funext address segment
  rw [follow, follow, hobserve, hobserve, h.root]
  simp only [hsome]

/-- A path leads to the same address. -/
theorem locate_eq (h : d.SameTree d') (p : Path) : d.locate p = d'.locate p := by
  rw [locate, locate, h.follow_eq, start, start, h.cwd]

theorem read_eq (h : d.SameTree d') (p : Path) : d.read p = d'.read p := by
  rw [read, read, h.locate_eq]
  refine bind_congr fun address => ?_
  have hat := h.root address
  rcases hd : d.root.at? address with - | (_ | _) <;>
    rcases hd' : d'.root.at? address with - | (_ | _) <;>
      simp_all [Node.content?]

theorem readText_eq (h : d.SameTree d') (p : Path) : d.readText p = d'.readText p := by
  rw [readText, readText, h.read_eq]

end SameTree

theorem list_eq_ok_iff {d : Disk} {p : Path} {entries : Listing} :
    d.list p = .ok entries ↔
      ∃ address, d.locate p = .ok address ∧ d.root.at? address = some (.folder entries) := by
  rw [list]
  cases d.locate p with
  | error => simp [bind, Except.bind]
  | ok address =>
      rcases hat : d.root.at? address with - | (_ | _) <;>
        simp [bind, Except.bind, pure, Except.pure, throw, throwThe, MonadExceptOf.throw, hat]

/-- The same folder is listed, though its entries may come in another order. -/
theorem SameTree.list {d d' : Disk} (h : d.SameTree d') {p : Path} {entries : Listing}
    (hlist : d.list p = .ok entries) :
    ∃ entries', d'.list p = .ok entries' ∧ entries.SameTree entries' := by
  obtain ⟨address, hlocate, hat⟩ := list_eq_ok_iff.1 hlist
  obtain ⟨entries', hat', hsame⟩ := h.root.folder hat
  exact ⟨entries', list_eq_ok_iff.2 ⟨address, h.locate_eq p ▸ hlocate, hat'⟩, hsame⟩

end HeaderAccord.Disk

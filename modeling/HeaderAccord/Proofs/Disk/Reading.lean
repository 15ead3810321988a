import HeaderAccord.Proofs.Disk.Listing

/-!
What can be read on a disk. A path has bytes if it leads to a file, and a text if they are the UTF-8
of one.
-/

namespace HeaderAccord.Disk

section

variable {content : ByteArray}

theorem exists_decode_eq_ok_iff :
    (∃ text, decode content = .ok text) ↔ content.IsValidUTF8 := by
  rw [decode, String.fromUTF8?]
  by_cases h : content.IsValidUTF8 <;> simp [h]

theorem decode_of_not_isValidUTF8 (h : ¬content.IsValidUTF8) :
    decode content = .error .invalidUtf8 := by
  rw [decode, String.fromUTF8?, dif_neg h]

theorem decode_toUTF8 (text : String) : decode text.toUTF8 = .ok text := by
  rw [decode, String.fromUTF8?, String.toUTF8_eq_toByteArray, dif_pos text.isValidUTF8]
  rfl

end

section

variable {d : Disk} {p : Path} {content : ByteArray}

/-- The path leads to a file with this content. -/
def Holds (d : Disk) (p : Path) (content : ByteArray) : Prop :=
  ∃ address, d.locate p = .ok address ∧ d.root.at? address = some (.file content)

def HasBytes (d : Disk) (p : Path) : Prop := ∃ content, d.Holds p content

def HasText (d : Disk) (p : Path) : Prop := ∃ content, d.Holds p content ∧ content.IsValidUTF8

theorem read_eq_ok_iff : d.read p = .ok content ↔ d.Holds p content := by
  rw [read, Holds]
  cases d.locate p with
  | error => simp [bind, Except.bind]
  | ok address =>
      rcases hat : d.root.at? address with - | (_ | _) <;>
        simp [bind, Except.bind, pure, Except.pure, throw, throwThe, MonadExceptOf.throw, hat]

theorem exists_readText_eq_ok_iff : (∃ text, d.readText p = .ok text) ↔ d.HasText p := by
  simp only [HasText, ← read_eq_ok_iff]
  rw [readText]
  cases d.read p with
  | error => simp [bind, Except.bind]
  | ok content => simpa [bind, Except.bind] using exists_decode_eq_ok_iff

theorem readText_of_holds {text : String} (h : d.Holds p text.toUTF8) :
    d.readText p = .ok text := by
  rw [readText, read_eq_ok_iff.2 h]
  exact decode_toUTF8 text

/-- The one thing that can be wrong with the bytes of a file. -/
theorem readText_of_not_hasText (hbytes : d.HasBytes p) (h : ¬d.HasText p) :
    d.readText p = .error .invalidUtf8 := by
  obtain ⟨content, hcontent⟩ := hbytes
  have hinvalid : ¬content.IsValidUTF8 := fun hvalid => h ⟨content, hcontent, hvalid⟩
  rw [readText, read_eq_ok_iff.2 hcontent]
  exact decode_of_not_isValidUTF8 hinvalid

/-- The empty path is no folder. -/
theorem text_ne_of_list {entries : Listing} (h : d.list p = .ok entries) : p.text ≠ "" := by
  intro hempty
  obtain ⟨address, hlocate, -⟩ := list_eq_ok_iff.1 h
  simp [locate, hempty] at hlocate

theorem isTree_of_list {entries : Listing} (htree : d.root.IsTree) (h : d.list p = .ok entries) :
    entries.IsTree := by
  obtain ⟨address, -, hat⟩ := list_eq_ok_iff.1 h
  exact htree.of_at? hat

end

end HeaderAccord.Disk

import HeaderAccord.Binding.Sources
import HeaderAccord.Proofs.Disk.Listing

/-!
The source files of a folder. The search for them visits folder after folder, but what it finds is
given by the tree alone: every file with the right extension at any depth, in the order of the
paths, each once.
-/

namespace HeaderAccord.Binding

open Disk

/-! ### The search -/

/-- The files below a folder that have the extension. -/
def filesWith (extension : String) (dir : Path) (entries : Listing) : List (Path × ByteArray) :=
  (entries.files dir).filter fun file => file.1.extension? = some extension

namespace Search

/-- What a search comes to find: what it has found, and the files below the pending folders. -/
def outcome (extension : String) (s : Search) : List (Path × ByteArray) :=
  s.found ++ s.pending.flatMap fun d => filesWith extension d.1 d.2

/-- To visit a folder adds the files below it, in whatever order they will be found. -/
theorem outcome_visit_perm (extension : String) (dir : Path) (entries : Listing) (s : Search) :
    ((s.visit extension dir entries).outcome extension).Perm
      (s.outcome extension ++ filesWith extension dir entries) := by
  induction entries generalizing s with
  | nil => simp [visit, filesWith, Listing.files]
  | file name content rest ih =>
      rw [visit]
      refine (ih _).trans ?_
      rw [filesWith, filesWith, Listing.files, List.filter_cons]
      by_cases hkeep : (dir.joinName name).extension? = some extension
      · simp only [hkeep, outcome, if_true, decide_true, List.append_assoc, List.singleton_append]
        exact List.perm_middle.symm.append_left s.found
      · simp [hkeep]
  | folder name entries rest _ ih =>
      refine (ih _).trans ?_
      have hsplit : filesWith extension dir (.folder name entries rest) =
          filesWith extension (dir.joinName name) entries ++ filesWith extension dir rest := by
        rw [filesWith, Listing.files, List.filter_append, ← filesWith, ← filesWith]
      simp only [hsplit, outcome, List.flatMap_cons, List.append_assoc]
      exact (List.perm_append_comm_assoc _ _ _).append_left s.found

/-- A search finds the files below the folders that it starts with. -/
theorem run_perm (extension : String) (s : Search) :
    (s.run extension).Perm (s.outcome extension) := by
  induction s using Search.run.induct extension with
  | case1 found => simp [run, outcome]
  | case2 dir entries pending found ih =>
      rw [run]
      refine ih.trans ((outcome_visit_perm extension dir entries _).trans ?_)
      simp only [outcome, List.flatMap_cons, List.append_assoc]
      exact List.perm_append_comm.append_left found

end Search

theorem sourceFiles_perm (dir : Path) (entries : Listing) (extension : String) :
    (sourceFiles dir entries extension).Perm (filesWith extension dir entries) := by
  refine (List.mergeSort_perm _ _).trans ((Search.run_perm _ _).trans ?_)
  simp [Search.outcome]

/-! ### Their order -/

section

variable {dir : Path} (hdir : dir.text ≠ "") {entries : Listing} {extension : String}

theorem mem_sourceFiles (htree : entries.IsTree) {path : Path} {content : ByteArray} :
    (path, content) ∈ sourceFiles dir entries extension ↔
      ∃ address, entries.at? address = some (.file content) ∧
        path = Listing.descend dir address ∧ path.extension? = some extension := by
  rw [(sourceFiles_perm ..).mem_iff, filesWith, List.mem_filter, Listing.files_eq_map, List.mem_map]
  simp only [decide_eq_true_eq, Prod.mk.injEq]
  constructor
  · rintro ⟨⟨f, hf, rfl, rfl⟩, hext⟩
    exact ⟨f.1, (Listing.mem_addressed_iff htree).1 hf, rfl, hext⟩
  · rintro ⟨address, hat, rfl, hext⟩
    exact ⟨⟨(address, content), (Listing.mem_addressed_iff htree).2 hat, rfl, rfl⟩, hext⟩

include hdir

/-- Two files of one tree have different components. -/
theorem pairwise_components_files (htree : entries.IsTree) :
    (entries.files dir).Pairwise fun a b => a.1.components ≠ b.1.components := by
  rw [Listing.files_eq_map, List.pairwise_map]
  have hnodup := List.pairwise_map.1 (Listing.nodup_addressed htree)
  refine hnodup.imp_of_mem fun {f g} hf hg hne heq => hne ?_
  have hcomponents {f : List String × ByteArray} (hf : f ∈ entries.addressed) :
      (Listing.descend dir f.1).components = dir.components ++ f.1.map .name :=
    Listing.components_descend hdir
      (htree.isEntryName ((Listing.mem_addressed_iff htree).1 hf))
  rw [hcomponents hf, hcomponents hg, List.append_cancel_left_eq] at heq
  exact (List.map_inj_right fun _ _ h => Path.Component.name.inj h).1 heq

/-- The source files stand in the strict order of their components. -/
theorem pairwise_sourceFiles (htree : entries.IsTree) :
    (sourceFiles dir entries extension).Pairwise fun a b =>
      a.1.le b.1 = true ∧ a.1.components ≠ b.1.components := by
  refine List.Pairwise.and ?_ ?_
  · refine List.pairwise_mergeSort (fun a b c => ?_) (fun a b => ?_) _
    · exact Path.componentsLe_trans
    · exact Path.componentsLe_total _ _
  · have hfiltered : (filesWith extension dir entries).Pairwise
        fun a b => a.1.components ≠ b.1.components :=
      (pairwise_components_files hdir htree).filter _
    exact (sourceFiles_perm ..).symm.pairwise hfiltered fun h => Ne.symm h

/-- Two listings of one tree have the same source files in the same order. -/
theorem sourceFiles_eq_of_sameTree {entries' : Listing} (htree : entries.IsTree)
    (htree' : entries'.IsTree) (hsame : entries.SameTree entries') :
    sourceFiles dir entries extension = sourceFiles dir entries' extension := by
  have hperm : (sourceFiles dir entries extension).Perm (sourceFiles dir entries' extension) := by
    have hfiles : (entries.files dir).Perm (entries'.files dir) := by
      rw [Listing.files_eq_map, Listing.files_eq_map]
      exact (hsame.perm_addressed htree htree').map _
    exact (sourceFiles_perm ..).trans ((hfiles.filter _).trans (sourceFiles_perm ..).symm)
  refine hperm.eq_of_pairwise (fun a b _ _ hab hba => ?_) (pairwise_sourceFiles hdir htree)
    (pairwise_sourceFiles hdir htree')
  exact absurd (Path.componentsLe_antisymm hab.1 hba.1) hab.2

end

end HeaderAccord.Binding

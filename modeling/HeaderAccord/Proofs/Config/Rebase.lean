import HeaderAccord.Config
import HeaderAccord.Proofs.Path
import Mathlib.Data.List.Forall2

/-!
Configurations that are moved. Taking the paths from one folder on and then from another is taking
them from the joined folders on, so a configuration with an absolute base stays where it is.
-/

namespace HeaderAccord.Config

theorem rebased_join (c : Config) (a b : Path) :
    (c.rebased a).rebased b = c.rebased (b.join a) := by
  have hjoin : b.join ∘ a.join = (b.join a).join := funext fun p => (Path.join_join b a p).symm
  simp only [rebased, List.map_map, hjoin, Path.join_join]

/-- Moving a configuration twice is moving it once, to the joined bases; every header stays in its
place of the list. After an absolute base no other one matters, the same one again included. -/
theorem rebased_rebased (c : Config) (a b : Path) :
    (c.rebased a).rebased b = c.rebased (b.join a) ∧
    List.Forall₂ (fun path moved => moved = a.join path) c.headers (c.rebased a).headers ∧
    (a.isAbsolute = true →
      (c.rebased a).rebased a = c.rebased a ∧ (c.rebased a).rebased b = c.rebased a) := by
  refine ⟨rebased_join c a b, ?_, fun habsolute => ⟨?_, ?_⟩⟩
  · show List.Forall₂ _ c.headers (c.headers.map a.join)
    rw [List.forall₂_map_right_iff, List.forall₂_same]
    exact fun _ _ => rfl
  · rw [rebased_join, Path.join_of_isAbsolute habsolute]
  · rw [rebased_join, Path.join_of_isAbsolute habsolute]

/-- An absolute base between a folder with a slash at its end and headers of every kind. -/
theorem rebased_rebased_absolute :
    let c : Config := { headers := [⟨""⟩, ⟨"inc/a.h"⟩, ⟨"/abs/b.h"⟩], sourceDir := ⟨"src/"⟩ }
    let moved : Config :=
      { headers := [⟨"/proj/"⟩, ⟨"/proj/inc/a.h"⟩, ⟨"/abs/b.h"⟩]
        sourceDir := ⟨"/proj/src/"⟩
        buildScript := ⟨"/proj/build.rs"⟩ }
    c.rebased ⟨"/proj"⟩ = moved ∧ moved.rebased ⟨"/proj"⟩ = moved ∧
      moved.rebased ⟨"out/"⟩ = moved := by
  intro c moved
  have hmoved : c.rebased ⟨"/proj"⟩ = moved := by decide +kernel
  obtain ⟨-, -, hagain⟩ := rebased_rebased c ⟨"/proj"⟩ ⟨"out/"⟩
  rw [← hmoved]
  exact ⟨rfl, hagain (by decide)⟩

end HeaderAccord.Config

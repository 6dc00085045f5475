import ILDump.Workspace.Session
import ILDump.Proofs.Outcomes
import ILDump.Proofs.Workspace.Trees

/-!
# Questions to a workspace

A question leaves the workspace as it is. Where the working directory is and whether there is a
file can only be told as far as the system lets anybody look.
-/

namespace ILDump

theorem Work.onSecond_of_leaving {ρ σ α : Type} {work : Work σ α} {s : ρ × σ} {s' : σ}
    {x : Except Failure α} (h : work s.2 = leaving x s') :
    work.onSecond s = leaving x (s.1, s') := by
  simp only [onSecond, h]
  cases x <;> rfl

theorem Session.ask_eq {α : Type} (question : Workspace → Except Failure α) (w : Workspace) :
    Session.ask question w = leaving (question w) w := by
  rw [Session.ask]
  cases question w <;> rfl

namespace Workspace

variable {w : Workspace} {p : Path}

theorem standing_of_directory (h : w.tree.node? w.cwd = some .directory) :
    w.standing = .ok w.cwdPath :=
  if_pos h

theorem standing_of_gone (h : w.tree.node? w.cwd ≠ some .directory) :
    w.standing = .error (.astray .notFound) :=
  if_neg h

theorem hasFile_of_refused {e : DiskError} (h : w.tree.refusal? w.cwd p = some e) :
    w.hasFile p = .error (.disk e p.text) := by
  rw [hasFile, h]

theorem hasFile_of_unrefused (h : w.tree.refusal? w.cwd p = none) :
    w.hasFile p = .ok (w.isFile p) := by
  rw [hasFile, h]

end Workspace

end ILDump

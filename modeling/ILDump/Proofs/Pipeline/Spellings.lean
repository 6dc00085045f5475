import ILDump.Proofs.Pipeline.Destinations

/-!
# Destinations and the spelling of paths

A place can be spelled in many ways: from the root or from the working directory, with `.` and
`..` in it, with separators doubled or at the end. Only what a spelling means, its absolute path,
has a part in a destination.

Of a file, however, not the absolute path is asked for but its name and its parent, each taken
from the components before anything is resolved. Where the last component is an ordinary name,
this makes no difference: the name stays the last component, and what is before it is resolved as
if it stood alone. Where it is `..`, both would be others.
-/

namespace ILDump.Candidate

variable {cwd outputRoot : Path} {keepStructure : Bool}

/-- A destination is a matter of absolute paths. -/
theorem destination_congr {c c' : Candidate} (hc : c.path.EndsInName) (hc' : c'.path.EndsInName)
    (hpath : c.path.absolute cwd = c'.path.absolute cwd)
    (hinput : c.input.path.absolute cwd = c'.input.path.absolute cwd)
    (hkind : c.input.kind = c'.input.kind) :
    c.destination cwd outputRoot keepStructure = c'.destination cwd outputRoot keepStructure := by
  have hname : c.path.name = c'.path.name := by
    rw [← hc.name_absolute cwd, hpath, hc'.name_absolute]
  have hroot : rootName cwd c.input.path = rootName cwd c'.input.path := by
    rw [rootName, hinput, rootName]
  have hbetween : c.between cwd = c'.between cwd := by
    rw [between, between, ← hc.parent_absolute, hpath, hc'.parent_absolute, hinput]
  unfold destination inputDirectory
  rw [hroot, hname, hbetween, hkind]

/-- A file and the input it was found under, as they are spelled. -/
def ofTexts (candidate root : String) (kind : InputKind) : Candidate :=
  ⟨.ofString candidate, ⟨.ofString root, kind⟩⟩

/-- **Spelling does not matter.** Two spellings of a file that end in an ordinary name, and two of
    the input it was found under: if the absolute paths read the same, so do the destinations,
    whatever the input is, wherever listings go, and whether the structure is kept. The name of the
    input is in both cases what stands behind the last separator of its absolute path. -/
theorem destination_eq_of_spellings {cwd : Path} (habsolute : cwd.isAbsolute = true)
    (hcwd : cwd.WellFormed) {candidate candidate' root root' : String}
    (hname : (Path.ofString candidate).EndsInName) (hname' : (Path.ofString candidate').EndsInName)
    (hcandidate : ((Path.ofString candidate).absolute cwd).text =
      ((Path.ofString candidate').absolute cwd).text)
    (hroot : ((Path.ofString root).absolute cwd).text = ((Path.ofString root').absolute cwd).text) :
    (∀ outputRoot kind keepStructure,
      (ofTexts candidate root kind).destination cwd outputRoot keepStructure =
        (ofTexts candidate' root' kind).destination cwd outputRoot keepStructure) ∧
      rootName cwd (.ofString root) = rootName cwd (.ofString root') ∧
      (((Path.ofString root).absolute cwd).text.toList.splitOn '/').getLast? =
        some (rootName cwd (.ofString root)).toList := by
  have hwell (s : String) : ((Path.ofString s).absolute cwd).WellFormed :=
    Path.wellFormed_absolute hcwd (Path.wellFormed_ofString s)
  have hpath := Path.text_inj (hwell candidate) (hwell candidate') hcandidate
  have hinput := Path.text_inj (hwell root) (hwell root') hroot
  refine ⟨fun outputRoot kind keepStructure => destination_congr hname hname' hpath hinput rfl, ?_,
    Path.getLast?_text (hwell root) (Path.isAbsolute_join habsolute)⟩
  rw [rootName, hinput, rootName]

/-- A file below the working directory, by a detour and from the root. -/
theorem destination_of_detour :
    (ofTexts "../bin//sub/A.dll/" "." .directory).destination (.ofString "/work/bin")
        (.ofString "out") true =
      (ofTexts "/work/bin/./sub/A.dll" "/work//bin/" .directory).destination (.ofString "/work/bin")
        (.ofString "out") true ∧
      ((ofTexts "../bin//sub/A.dll/" "." .directory).destination (.ofString "/work/bin")
        (.ofString "out") true).text = "out/bin.il/sub/A.dll/A.dll.il" ∧
      rootName (.ofString "/work/bin") (.ofString ".") = "bin" := by
  have hordinary : IsOrdinaryName "A.dll" := ⟨by decide, by decide⟩
  have hname : (Path.ofString "../bin//sub/A.dll/").EndsInName :=
    ⟨["..", "bin", "sub"], "A.dll", by decide, hordinary⟩
  have hname' : (Path.ofString "/work/bin/./sub/A.dll").EndsInName :=
    ⟨["work", "bin", "sub"], "A.dll", by decide, hordinary⟩
  have hcandidate :
      ((Path.ofString "../bin//sub/A.dll/").absolute (.ofString "/work/bin")).text =
        ((Path.ofString "/work/bin/./sub/A.dll").absolute (.ofString "/work/bin")).text := by
    decide
  have hroot : ((Path.ofString ".").absolute (.ofString "/work/bin")).text =
      ((Path.ofString "/work//bin/").absolute (.ofString "/work/bin")).text := by
    decide
  have h := destination_eq_of_spellings (by decide) (Path.wellFormed_ofString _) hname hname'
    hcandidate hroot
  exact ⟨h.1 (.ofString "out") .directory true, by decide, by decide⟩

end ILDump.Candidate

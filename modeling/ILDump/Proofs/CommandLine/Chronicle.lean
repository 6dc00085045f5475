import ILDump.Proofs.CommandLine.Choices
import ILDump.Proofs.Disassembler.Atomicity
import ILDump.Proofs.Pipeline.CombinedRuns
import ILDump.Proofs.Tool.Places

/-!
# What a command does to the files

The tool may be any program, and a program may do anything to any file, so no frame can be
stated for a whole run. It can be stated for each single event: `Leads` tells how an event is
answered by the tree before it and which tree it leaves. Only a call of the tool leaves the
tree to somebody else. A `Chronicle` puts events one behind the other, and a file that has
changed from one end to the other has changed at some event, which can only have been the
call of a stage.
-/

namespace ILDump

theorem Tree.Grows.read_of_locate {changed : Place → Prop} {t t' : Tree}
    (h : Tree.Grows changed t t') {cwd there : Place} {p : Path} {content : Bytes}
    (hlocate : t.locate cwd p = .ok there) (hthere : ¬ changed there)
    (hread : t.read cwd p = .ok content) : t'.read cwd p = .ok content := by
  obtain ⟨x, hlookup⟩ := Tree.read_eq_ok_iff.mp hread
  obtain ⟨there', hlocate', hnode⟩ := Tree.lookup?_eq_some_iff.mp hlookup
  obtain rfl := Except.ok.inj (hlocate.symm.trans hlocate')
  exact Tree.read_eq_ok_iff.mpr ⟨x, Tree.lookup?_eq_some_iff.mpr
    ⟨there, h.walk hlocate, (h.unchanged there hthere content x).mp hnode⟩⟩

/-- Creating directories leaves all that is there, in any tree. -/
theorem Tree.grows_makeDirectories {cwd : Place} : ∀ (depth : Nat) (p : Path) (t : Tree),
    Tree.Grows (fun _ => False) t (Tree.makeDirectories cwd depth p t).1 := by
  have hone {p : Path} {t t' : Tree} (hmake : t.makeDirectory cwd p = .ok t') :
      Tree.Grows (fun _ => False) t t' := by
    obtain ⟨there, -, hnode, rfl⟩ := Tree.makeDirectory_eq_ok hmake
    refine .put_directory ?_ hnode
    rintro rfl
    cases hnode
  intro depth
  induction depth with
  | zero =>
    intro p t
    unfold Tree.makeDirectories
    split
    · rename_i hmake
      exact hone hmake
    · contradiction
    · exact .refl t
  | succ depth ih =>
    intro p t
    unfold Tree.makeDirectories
    split
    · rename_i hmake
      exact hone hmake
    · rename_i hdepth
      cases hdepth
      have habove := ih p.parent t
      split
      · rename_i heq
        rwa [heq] at habove
      · rename_i heq
        rw [heq] at habove
        split
        · rename_i hmake
          exact habove.trans (hone hmake)
        · exact habove
    · exact .refl t

namespace CommandLine

open Pipeline

/-! ### Single events -/

/-- What stays the same during a run. -/
structure Scene where
  externals : Externals
  /-- Where the tool was found. -/
  place : Path
  limit? : Option Int
  /-- The order of the disassembler, if that is one of the stages. -/
  order? : Option MemberOrder
  here : Place
  environment : List (String × String)

/-- From one tree to the next by an event. The tool is the first stage, and the disassembler
    may be the second one. -/
inductive Leads (s : Scene) : Tree → Event → Tree → Prop where
  | prepared (i : Nat) (t : Tree) : Leads s t (.prepared i (.ok ())) t
  | probed (path : Path) (t : Tree) :
    Leads s t (.probed path (kindAt t s.here path)) t
  | searched (root : Path) (pattern : String) (t : Tree) :
    Leads s t (.searched root pattern (foundBelow t s.here root pattern)) t
  | validated (path : Path) {t : Tree} {w : Workspace} (htree : w.tree = t)
    (hcwd : w.cwd = s.here) :
    Leads s t (.validated path (outcome (Disassembler.isAssemblyWith s.externals.file path w))) t
  /-- Directories are new, or the disk has refused one of them. -/
  | madeDirectories (path : Path) {r : Except Failure Unit} {t t' : Tree}
    (hgrows : t.Grows (fun _ => False) t')
    (hr : ∀ f, r = .error f → ∃ e, f = .disk e path.text) :
    Leads s t (.madeDirectories path r) t'
  | toolUnseen (source destination : Path) {t : Tree} {e : DiskError}
    (hplace : t.refusal? s.here s.place = some e) :
    Leads s t (.called 0 source destination (.error (.disk e s.place.text))) t
  | toolGone (source destination : Path) {t : Tree}
    (hseen : t.refusal? s.here s.place = none) (hplace : t.isFile s.here s.place = false) :
    Leads s t (.called 0 source destination (.error (Tool.missing [s.place.text]))) t
  | toolStarted (source destination : Path) {t : Tree} {w : Workspace} (htree : w.tree = t)
    (hcwd : w.cwd = s.here) (henvironment : w.environment = s.environment)
    (hplace : t.isFile s.here s.place = true) :
    Leads s t
      (.called 0 source destination (Tool.ending s.place
        (s.externals.launch w s.limit? (Tool.commandAt s.place source destination)).2))
      (s.externals.launch w s.limit? (Tool.commandAt s.place source destination)).1
  | listed {order : MemberOrder} (source destination : Path) {content : Bytes} {t t' : Tree}
    (horder : s.order? = some order)
    (hlisting : listing? s.externals.decoders t s.here order source = some content)
    (hwrite : t.write s.here destination content = .ok t') :
    Leads s t (.called 1 source destination (.ok ())) t'
  | unlisted (source destination : Path) {f : Failure} (t : Tree)
    (hf : (∃ d, f = .diagnosed .disassembly d) ∨ (∃ e p, f = .disk e p) ∨ f = .endless) :
    Leads s t (.called 1 source destination (.error f)) t
  | reported (line : String) (t : Tree) : Leads s t (.reported line (.ok ())) t
  | logged (level : LogLevel) (text : String) (t : Tree) :
    Leads s t (.logged level text (.ok ())) t

end CommandLine

namespace Pipeline

/-- An input that is neither a file nor a directory, or a disassembly that fails. -/
def Event.isTrouble : Event → Bool
  | .probed _ (.ok none) => true
  | .called _ _ _ (.error (.diagnosed .disassembly _)) => true
  | _ => false

end Pipeline

namespace CommandLine

open Pipeline

variable {s : Scene}

theorem isAssemblyWith_error {file : Bytes → Except ContainerFault OpenedFile} {path : Path}
    {w : Workspace} {f : Failure}
    (h : outcome (Disassembler.isAssemblyWith file path w) = .error f) :
    ∃ e, f = .disk e path.text := by
  rw [Disassembler.isAssemblyWith_eq] at h
  cases hread : w.read path with
  | error e =>
    rw [hread] at h
    cases e with
    | notFound => cases h
    | _ => exact ⟨_, (Except.error.inj h).symm⟩
  | ok bytes =>
    rw [hread] at h
    dsimp only at h
    cases hanswer : ILDump.isAssemblyWith file bytes with
    | ok answer =>
      rw [hanswer] at h
      cases h
    | error fault =>
      rw [hanswer] at h
      cases h

namespace Leads

variable {t t' : Tree} {e : Event}

/-- An event that ends the run does so with a diagnosis exactly if it is trouble. -/
theorem isTrouble_iff (h : Leads s t e t') {f : Failure} (hf : e.fatal? = some f) :
    e.isTrouble = true ↔ ∃ work d, f = .diagnosed work d := by
  have hdisk {e : DiskError} {p : String} (hf : f = .disk e p) :
      ¬ ∃ work d, f = .diagnosed work d := by
    rintro ⟨work, d, rfl⟩
    cases hf
  cases h with
  | prepared | reported | logged => cases hf
  | probed path =>
    unfold kindAt at hf ⊢
    cases hrefusal : t.refusal? s.here path with
    | some e =>
      simp only [hrefusal] at hf ⊢
      exact ⟨nofun, fun hdiagnosed => absurd hdiagnosed (hdisk (Option.some.inj hf).symm)⟩
    | none =>
      simp only [hrefusal] at hf ⊢
      split at hf
      · cases hf
      · split at hf
        · cases hf
        · rename_i hfile hdirectory
          rw [if_neg hfile, if_neg hdirectory]
          exact ⟨fun _ => ⟨.input, _, (Option.some.inj hf).symm⟩, fun _ => rfl⟩
  | searched root pattern =>
    refine ⟨nofun, ?_⟩
    rintro ⟨work, d, rfl⟩
    unfold foundBelow at hf
    cases hpattern : SearchPattern.ofString pattern with
    | ok pattern =>
      rw [hpattern] at hf
      cases hf
    | error fault =>
      rw [hpattern] at hf
      cases hf
  | @validated path _ w =>
    cases hanswer : outcome (Disassembler.isAssemblyWith s.externals.file path w) with
    | ok answer =>
      rw [hanswer] at hf
      cases hf
    | error f' =>
      rw [hanswer] at hf
      obtain rfl := Option.some.inj hf
      obtain ⟨e, he⟩ := isAssemblyWith_error hanswer
      exact ⟨nofun, fun hdiagnosed => absurd hdiagnosed (hdisk he)⟩
  | @madeDirectories path r _ _ _ hr =>
    cases r with
    | ok _ => cases hf
    | error f' =>
      obtain rfl := Option.some.inj hf
      obtain ⟨e, he⟩ := hr _ rfl
      exact ⟨nofun, fun hdiagnosed => absurd hdiagnosed (hdisk he)⟩
  | toolUnseen =>
    exact ⟨nofun, fun hdiagnosed => absurd hdiagnosed (hdisk (Option.some.inj hf).symm)⟩
  | toolGone => cases hf
  | @toolStarted source destination _ w =>
    generalize hends : Tool.ending s.place
      (s.externals.launch w s.limit? (Tool.commandAt s.place source destination)).2 = r at hf
    cases r with
    | ok _ => cases hf
    | error f' =>
      rw [Tool.eq_missing_of_ending hends] at hf
      cases hf
  | listed => cases hf
  | unlisted source destination t hf' =>
    rcases hf' with ⟨d, rfl⟩ | ⟨e, p, rfl⟩ | rfl
    · exact ⟨fun _ => ⟨_, _, (Option.some.inj hf).symm⟩, fun _ => rfl⟩
    · exact ⟨nofun, fun hdiagnosed => absurd hdiagnosed (hdisk (Option.some.inj hf).symm)⟩
    · refine ⟨nofun, ?_⟩
      rintro ⟨work, d, rfl⟩
      cases hf

/-- What a file reads is changed by nothing but a call of a stage, and by the disassembler only
    where it writes. -/
theorem read_or_called (h : Leads s t e t') {p : Path} {content : Bytes}
    (hread : t.read s.here p = .ok content) :
    t'.read s.here p = .ok content ∨
      ∃ i source destination r, e = .called i source destination r ∧
        (i = 1 → t.locate s.here destination = t.locate s.here p) := by
  obtain ⟨there, hlocate, -⟩ : ∃ there, t.locate s.here p = .ok there ∧ True := by
    obtain ⟨x, hlookup⟩ := Tree.read_eq_ok_iff.mp hread
    obtain ⟨there, hlocate, -⟩ := Tree.lookup?_eq_some_iff.mp hlookup
    exact ⟨there, hlocate, trivial⟩
  cases h with
  | madeDirectories path hgrows => exact .inl (hgrows.read_of_locate hlocate id hread)
  | toolStarted source destination =>
    exact .inr ⟨0, source, destination, _, rfl, fun h => absurd h (by decide)⟩
  | listed source destination horder hlisting hwrite =>
    obtain ⟨written, x, hwritten, hnode, rfl⟩ := Tree.write_eq_ok hwrite
    by_cases hsame : there = written
    · exact .inr ⟨1, source, destination, _, rfl, fun _ => by rw [hwritten, hlocate, hsame]⟩
    · have hnil : written ≠ [] := by
        rintro rfl
        exact hnode (Tree.node?_nil t)
      exact .inl ((Tree.Grows.put_file hnil hnode _ x).read_of_locate hlocate hsame hread)
  | _ => exact .inl hread

end Leads

/-! ### Chronicles -/

/-- A list of events from one tree to another. -/
inductive Chronicle (s : Scene) : Tree → List Event → Tree → Prop where
  | nil (t : Tree) : Chronicle s t [] t
  | cons {t t' t'' : Tree} {e : Event} {events : List Event} :
    Leads s t e t' → Chronicle s t' events t'' → Chronicle s t (e :: events) t''

namespace Chronicle

variable {t t' t'' : Tree} {events events' : List Event} {e : Event}

theorem append_iff : Chronicle s t (events ++ events') t'' ↔
    ∃ t', Chronicle s t events t' ∧ Chronicle s t' events' t'' := by
  constructor
  · intro h
    induction events generalizing t with
    | nil => exact ⟨t, .nil t, h⟩
    | cons e events ih =>
      cases h with
      | cons he hrest =>
        obtain ⟨t', hevents, hevents'⟩ := ih hrest
        exact ⟨t', .cons he hevents, hevents'⟩
  · rintro ⟨t', h, h'⟩
    induction h with
    | nil => exact h'
    | cons he _ ih => exact .cons he (ih h')

theorem concat (h : Chronicle s t events t') (he : Leads s t' e t'') :
    Chronicle s t (events ++ [e]) t'' :=
  append_iff.mpr ⟨t', h, .cons he (.nil t'')⟩

theorem exists_leads (h : Chronicle s t events t') (he : e ∈ events) :
    ∃ before after, Leads s before e after := by
  obtain ⟨opening, rest, rfl⟩ := List.append_of_mem he
  obtain ⟨before, -, hrest⟩ := append_iff.mp h
  cases hrest with
  | cons hleads _ => exact ⟨before, _, hleads⟩

end Chronicle

/-- On the way from one tree to another, the call of a stage has changed what a path reads. The
    disassembler writes where this very path leads. -/
def Overwritten (s : Scene) (p : Path) (content : Bytes) (t : Tree) (events : List Event)
    (t' : Tree) : Prop :=
  ∃ before i source destination r after u u',
    events = before ++ .called i source destination r :: after ∧
    Chronicle s t before u ∧ Leads s u (.called i source destination r) u' ∧
    Chronicle s u' after t' ∧
    u.read s.here p = .ok content ∧ u'.read s.here p ≠ .ok content ∧
    (i = 1 → u.locate s.here destination = u.locate s.here p)

/-- A file is kept, or else one of the calls has changed it. By induction on the events, up to
    the first one that changes what is read. -/
theorem Chronicle.kept_or_overwritten {t t' : Tree} {events : List Event}
    (h : Chronicle s t events t') {p : Path} {content : Bytes}
    (hread : t.read s.here p = .ok content) :
    t'.read s.here p = .ok content ∨ Overwritten s p content t events t' := by
  induction h with
  | nil => exact .inl hread
  | @cons t between t' e events hleads hrest ih =>
    by_cases hsame : between.read s.here p = .ok content
    · refine (ih hsame).imp_right ?_
      rintro ⟨before, i, source, destination, r, after, u, u', rfl, hbefore, hmore⟩
      exact ⟨e :: before, i, source, destination, r, after, u, u', rfl, .cons hleads hbefore, hmore⟩
    · obtain hkept | ⟨i, source, destination, r, rfl, hplace⟩ := hleads.read_or_called hread
      · exact absurd hkept hsame
      · exact .inr ⟨[], i, source, destination, r, events, t, between, rfl, .nil t, hleads, hrest,
          hread, hsame, hplace⟩

end CommandLine

end ILDump

import EmacsRelay.Server.Passage
import EmacsRelay.Server.Request

set_option autoImplicit false

/- Copies and renames of `handle_fs` in `server/src/fs_handlers.rs`, from the request to the files:
what a copy leaves of its source, and what a transfer that must not overwrite does. -/
namespace EmacsRelay

open Trial

namespace FsHandlers

/-- The destination of a transfer. -/
def requestTarget (r : Reader) (req : Json) : Path :=
  r.locate (Server.expandHome r.home (textField req "to"))

/-- `ok_if_exists`, which holds unless it is given. -/
def okIfExists (req : Json) : Bool := ((req.get "ok_if_exists").bind Json.asBool).getD true

end FsHandlers

/-- The operations of `relay--transfer`. -/
inductive TransferOp where
  | rename
  | copy
deriving DecidableEq, Repr

namespace TransferOp

open FsHandlers

def name : TransferOp → String
  | .rename => "rename"
  | .copy => "copy"

/-- The request that `relay--transfer` makes of two local names. -/
def request (op : TransferOp) (path target : String) (okIfExists : Bool) : Json :=
  .obj [("op", .str op.name), ("path", .str path), ("to", .str target),
    ("ok_if_exists", .bool okIfExists)]

/-- The `"rename"` and `"copy"` arms of `handle_fs`. -/
def handle (r : Reader) (process : Process) (req : Json) : TransferOp → Program Call Answer FsReply
  | .rename => handleFs process (.rename (requestPath r req) (requestTarget r req) (okIfExists req))
  | .copy => handleFs process (.copy (requestPath r req) (requestTarget r req) (okIfExists req))

end TransferOp

/-- A machine on which a test for existence may fail by itself, which `Path::exists` does not tell
from absence: `hidden` is whether one has. -/
structure Doubtful where
  host : Host
  hidden : Bool := false

namespace Doubtful

/-- What the kernel chooses at a call, and whether it lets a test for existence fail. -/
structure Choice where
  kernel : KernelChoice
  fails : Bool := false

def exec (process : Process) (request : Call) (choice : Choice) (s : Doubtful) :
    Answer request × Doubtful :=
  match request with
  | .pathExists path =>
      if choice.fails then (false, { s with hidden := true })
      else (s.host.disk.pathExists path, s)
  | request =>
      ((Host.exec process request choice.kernel s.host).1,
        { s with host := (Host.exec process request choice.kernel s.host).2 })

/-- The system as a transfer meets it. -/
def kernel (process : Process) : Kernel Call Answer Doubtful where
  Input := Choice
  allowed request input s := Host.Allows request input.kernel s.host
  exec := exec process

end Doubtful

namespace Disk

variable {d e : Disk} {path target : Path} {dir inode : Inode} {name : String}
  {choice : KernelChoice}

section Following

theorem passage_symlink {absolute : Bool} {link : List String} :
    (d.entry dir name).bind d.kindOf = some (.symlink absolute link) ↔
      ∃ inode, d.passage dir name = some (inode, .symlink absolute link) := by
  simp only [passage_some, Option.bind_eq_some_iff]
  constructor
  · rintro ⟨inode, there, kind⟩
    exact ⟨inode, there, kind, rfl⟩
  · rintro ⟨inode, there, kind, _⟩
    exact ⟨inode, there, kind⟩

/-- Links lead to the same place. -/
theorem SamePassages.follow (same : d.SamePassages e) {fuel : Nat} {slot : Inode × String}
    (follows : d.follow fuel dir name = .ok slot) : e.follow fuel dir name = .ok slot := by
  induction fuel generalizing dir name with
  | zero => cases follows
  | succ fuel ih =>
      have links : ∀ absolute link,
          (e.entry dir name).bind e.kindOf = some (.symlink absolute link) ↔
          (d.entry dir name).bind d.kindOf = some (.symlink absolute link) := by
        intro absolute link
        rw [passage_symlink, passage_symlink]
        simp only [same.passage]
      unfold Disk.follow at follows ⊢
      split at follows
      · rename_i absolute link isLink
        rw [(links absolute link).mpr isLink]
        dsimp only
        cases last : link.getLast? with
        | none =>
            rw [last] at follows
            cases follows
            rw [same.root]
        | some final =>
            rw [last] at follows
            dsimp only at follows ⊢
            cases walked : d.walk maxSteps (if absolute then d.root else dir) link.dropLast with
            | error reason =>
                rw [walked] at follows
                cases follows
            | ok next =>
                rw [walked] at follows
                rw [same.root, same.walk walked]
                exact ih follows
      · rename_i noLink
        cases follows
        split
        · rename_i absolute link isLink
          exact absurd ((links absolute link).mp isLink) (noLink absolute link)
        · rfl

theorem SamePassages.followed (same : d.SamePassages e) {slot : Inode × String}
    (leads : d.followed path = .ok slot) : e.followed path = .ok slot := by
  unfold Disk.followed at leads ⊢
  cases here : d.directoryOf path with
  | error reason =>
      rw [here] at leads
      cases leads
  | ok dir =>
      rw [here] at leads
      rw [same.directoryOf here]
      exact same.follow leads

theorem openFollow_ok : d.openFollow path = .ok inode ↔
    ∃ dir name, d.followed path = .ok (dir, name) ∧ d.entry dir name = some inode := by
  unfold openFollow
  cases leads : d.followed path with
  | error reason => simp
  | ok slot =>
      obtain ⟨dir, name⟩ := slot
      dsimp only
      cases there : d.entry dir name with
      | none => simp [there]
      | some found => simp [there]

end Following

section Opening

variable {copied : Inode}

/-- What opening the destination of a copy has done: made a file or emptied one, or nothing. -/
structure Opened (d e : Disk) (target : Path) (copied : Inode) : Prop where
  same : d.SamePassages e
  reached : e.openFollow target = .ok copied
  before : d.openFollow target = .ok copied ∨
    (∀ inode, d.openFollow target ≠ .ok inode) ∧ d.Free copied
  others : ∀ i, i ≠ copied → e.kindOf i = d.kindOf i
  kind : e.kindOf copied = some (.file []) ∨ e = d ∧ ¬ d.Plain copied
  kept : d.openFollow target = .ok copied → d.Plain copied ∨ e = d

/-- A copy cannot begin: its source is no regular file that can be opened, or its destination cannot
be opened for writing. -/
def CopyFails (d : Disk) (path target : Path) : Prop :=
  (∀ source bytes, d.openFollow path = .ok source → d.kindOf source ≠ some (.file bytes)) ∨
    (∀ slot, d.followed target ≠ .ok slot) ∨
    ∃ inode, d.openFollow target = .ok inode ∧ (d.isDirectory inode = true ∨ d.nodes inode = none)

/-- The system refuses to rename. -/
def RenameFails (d : Disk) (path target : Path) : Prop :=
  ∃ choice e, d.rename choice path target = .error e

theorem kindOf_empty (d : Disk) (inode i : Inode) (now : Time) (there : d.nodes inode ≠ none) :
    (d.modifyNode inode fun node =>
      { node with kind := .file [], mtime := now, ctime := now }).kindOf i =
        if i = inode then some (.file []) else d.kindOf i := by
  obtain ⟨node, found⟩ := Option.ne_none_iff_exists'.mp there
  unfold kindOf
  rw [nodes_modifyNode, found]
  by_cases same : i = inode
  · simp [same]
  · simp [same]

theorem reshapes_of_emptied (plain : d.Plain inode)
    (emptied : ∀ i, e.kindOf i = if i = inode then some (.file []) else d.kindOf i) (i : Inode) :
    Reshapes d e i := by
  by_cases own : i = inode
  · subst own
    exact ⟨fun _ => ⟨[], (emptied i).trans (if_pos rfl)⟩, fun other => absurd plain other⟩
  · exact .of_kindOf ((emptied i).trans (if_neg own))

/-- What is reached through links stays where it is. -/
theorem openFollow_of_same (same : d.SamePassages e)
    (entry : ∀ a n, d.entry a n = some inode → e.entry a n = some inode)
    (there : d.openFollow path = .ok inode) : e.openFollow path = .ok inode := by
  obtain ⟨dir, name, leads, found⟩ := openFollow_ok.mp there
  exact openFollow_ok.mpr ⟨dir, name, same.followed leads, entry dir name found⟩

theorem opened_of_emptied (found : d.openFollow target = .ok copied) (plain : d.Plain copied)
    (root : e.root = d.root) (entry : ∀ a n, e.entry a n = d.entry a n)
    (emptied : ∀ i, e.kindOf i = if i = copied then some (.file []) else d.kindOf i) :
    Opened d e target copied := by
  have same : d.SamePassages e :=
    samePassages_of_reshapes root entry (reshapes_of_emptied plain emptied)
  refine ⟨same, ?_, .inl found, ?_, .inl ?_, fun _ => .inl plain⟩
  · exact openFollow_of_same same (fun a n there => (entry a n).trans there) found
  · exact fun i other => (emptied i).trans (if_neg other)
  · exact (emptied copied).trans (if_pos rfl)

theorem openCreate_ok {process : Process} {mode : Nat} {h : Host}
    (allowed : Host.Allows (.openCreate target mode true) choice h)
    (opened : h.disk.openCreate choice process target mode true = .ok (copied, e)) :
    Opened h.disk e target copied ∧
      ∀ inode, h.disk.openFollow target = .ok inode → h.disk.isDirectory inode = false := by
  unfold openCreate at opened
  cases leads : h.disk.followed target with
  | error reason =>
      rw [leads] at opened
      cases opened
  | ok slot =>
      obtain ⟨dir, name⟩ := slot
      rw [leads] at opened
      dsimp only at opened
      cases there : h.disk.entry dir name with
      | none =>
          rw [there] at opened
          cases opened
          have free := allowed (dir, name) leads
          have staged := Staged.create there free
            (process.newNode (.file []) mode choice.now)
          have nothing : ∀ inode, h.disk.openFollow target ≠ .ok inode := by
            intro inode found
            obtain ⟨a, n, same, entry⟩ := openFollow_ok.mp found
            rw [leads] at same
            cases same
            rw [there] at entry
            cases entry
          refine ⟨⟨staged.samePassages rfl, ?_, .inr ⟨nothing, free⟩, ?_, .inl ?_,
            fun there => absurd there (nothing _)⟩, ?_⟩
          · refine openFollow_ok.mpr ⟨dir, name, (staged.samePassages rfl).followed leads, ?_⟩
            rw [staged.entry, if_pos ⟨rfl, rfl⟩]
          · intro i other
            unfold kindOf
            rw [staged.others i other]
          · exact staged.kindOf rfl
          · exact fun inode found => absurd found (nothing inode)
      | some inode =>
          have found : h.disk.openFollow target = .ok inode :=
            openFollow_ok.mpr ⟨dir, name, leads, there⟩
          have only : ∀ other, h.disk.openFollow target = .ok other → other = inode := by
            intro other same
            rw [found] at same
            exact (Except.ok.inj same).symm
          rw [there] at opened
          dsimp only at opened
          by_cases plain : h.disk.Plain inode
          · obtain ⟨bytes, kind⟩ := plain
            rw [kind] at opened
            dsimp only at opened
            rw [if_pos rfl] at opened
            cases opened
            have linked : h.disk.nodes copied ≠ none := by
              intro absent
              simp [kindOf, absent] at kind
            have emptied := fun i => kindOf_empty h.disk copied i choice.now linked
            refine ⟨opened_of_emptied found ⟨bytes, kind⟩ rfl (fun _ _ => rfl) emptied, ?_⟩
            intro other same
            simp [only other same, isDirectory, kind]
          · split at opened
            · cases opened
            · rename_i bytes kind
              exact absurd ⟨bytes, kind⟩ plain
            · rename_i directory _
              cases opened
              refine ⟨⟨.refl _, found, .inl found, fun _ _ => rfl, .inr ⟨rfl, plain⟩,
                fun _ => .inr rfl⟩, ?_⟩
              intro other same
              rw [only other same]
              exact decide_eq_false directory

theorem kindOf_writeAll (choice : KernelChoice) {content : Bytes} (bytes : Bytes) (i : Inode)
    (kind : d.kindOf inode = some (.file content)) :
    (d.writeAll choice inode bytes).kindOf i =
      if i = inode then some (.file (content ++ bytes)) else d.kindOf i := by
  unfold writeAll
  by_cases empty : bytes = []
  · rw [if_pos empty, empty, List.append_nil]
    by_cases same : i = inode
    · rw [if_pos same, same, kind]
    · rw [if_neg same]
  · rw [if_neg empty]
    obtain ⟨node, there, isFile⟩ := Option.map_eq_some_iff.mp kind
    unfold kindOf
    rw [nodes_modifyNode, there]
    by_cases same : i = inode
    · simp [same, isFile]
    · simp [same]

theorem kindOf_writeAll_special (choice : KernelChoice) (bytes : Bytes) (i : Inode) (special : ¬ d.Plain inode) :
    (d.writeAll choice inode bytes).kindOf i = d.kindOf i := by
  by_cases same : i = inode
  · rw [same]
    exact (reshapes_writeAll choice bytes inode).other special
  · unfold writeAll
    split
    · rfl
    · unfold kindOf
      rw [nodes_modifyNode, if_neg same]

/-- A destination that cannot be opened leads nowhere, or to a directory. -/
theorem openCreate_error {process : Process} {mode : Nat} {reason : OsError}
    (failed : d.openCreate choice process target mode true = .error reason) :
    (∀ slot, d.followed target ≠ .ok slot) ∨ ∃ inode, d.openFollow target = .ok inode ∧
      (d.isDirectory inode = true ∨ d.nodes inode = none) := by
  unfold openCreate at failed
  cases leads : d.followed target with
  | error reason => exact .inl nofun
  | ok slot =>
      obtain ⟨dir, name⟩ := slot
      rw [leads] at failed
      dsimp only at failed
      cases there : d.entry dir name with
      | none =>
          rw [there] at failed
          cases failed
      | some inode =>
          rw [there] at failed
          dsimp only at failed
          refine .inr ⟨inode, openFollow_ok.mpr ⟨dir, name, leads, there⟩, .inl ?_⟩
          split at failed
          · rename_i directory
            exact decide_eq_true directory
          · cases failed
          · cases failed

/-- What a copy that went through has done, from a source file to the file or device that it has
opened as its destination. -/
structure Copied (d e : Disk) (path target : Path) (source copied : Inode) (bytes : Bytes) :
    Prop where
  found : d.openFollow path = .ok source
  content : d.kindOf source = some (.file bytes)
  reached : e.openFollow target = .ok copied
  before : d.openFollow target = .ok copied ∨
    (∀ inode, d.openFollow target ≠ .ok inode) ∧ copied ≠ source
  apart : copied ≠ source → e.kindOf source = some (.file bytes)
  emptied : copied = source → e.kindOf source = some (.file [])
  written : copied ≠ source → ∀ content, e.kindOf copied = some (.file content) → content = bytes

/-- The source as it is read when the destination has been opened. -/
theorem Opened.kindOf_source {source : Inode} {bytes : Bytes}
    (opened : Opened d e target copied) (content : d.kindOf source = some (.file bytes)) :
    e.kindOf source = some (.file (if copied = source then [] else bytes)) := by
  by_cases same : copied = source
  · rw [if_pos same, ← same]
    rcases opened.kind with emptied | ⟨_, special⟩
    · exact emptied
    · exact absurd ⟨bytes, same ▸ content⟩ special
  · rw [if_neg same, opened.others source (Ne.symm same)]
    exact content

/-- Opening, setting the mode and writing, as a copy does one after the other. -/
theorem Opened.write {f g : Disk} {source : Inode} {bytes : Bytes}
    (opened : Opened d e target copied) (found : d.openFollow path = .ok source)
    (content : d.kindOf source = some (.file bytes)) (root : f.root = e.root)
    (entry : ∀ a n, f.entry a n = e.entry a n) (kinds : ∀ i, f.kindOf i = e.kindOf i)
    (choice : KernelChoice) (write : g = f.writeAll choice copied (if copied = source then [] else bytes)) :
    Copied d g path target source copied bytes := by
  have before : d.openFollow target = .ok copied ∨
      (∀ inode, d.openFollow target ≠ .ok inode) ∧ copied ≠ source := by
    rcases opened.before with there | ⟨nothing, free⟩
    · exact .inl there
    · refine .inr ⟨nothing, ?_⟩
      rintro rfl
      obtain ⟨dir, name, _, linked⟩ := openFollow_ok.mp found
      exact free.2 dir name linked
  have reached : g.openFollow target = .ok copied := by
    have moded : f.openFollow target = .ok copied := by
      apply openFollow_of_same _ (fun a n there => (entry a n).trans there) opened.reached
      exact samePassages_of_reshapes root entry fun i => .of_kindOf (kinds i)
    rw [write]
    exact openFollow_of_same (samePassages_writeAll choice copied _)
      (fun a n there => (entry_writeAll choice copied _ a n).trans there) moded
  have read := opened.kindOf_source content
  rcases opened.kind with emptied | ⟨same, special⟩
  · have after := fun i => kindOf_writeAll choice
      (if copied = source then [] else bytes) i ((kinds copied).trans emptied)
    rw [← write] at after
    refine ⟨found, content, reached, before, ?_, ?_, ?_⟩
    · intro apart
      rw [after, if_neg (Ne.symm apart), kinds, read, if_neg apart]
    · intro aliased
      rw [after, if_pos aliased.symm, if_pos aliased]
      rfl
    · intro apart more written
      rw [after, if_pos rfl, if_neg apart] at written
      simpa using written.symm
  · have notPlain : ¬ f.Plain copied := by
      rintro ⟨more, plain⟩
      rw [kinds, same] at plain
      exact special ⟨more, plain⟩
    have after := fun i => kindOf_writeAll_special choice
      (if copied = source then [] else bytes) i notPlain
    rw [← write] at after
    refine ⟨found, content, reached, before, ?_, ?_, ?_⟩
    · intro apart
      rw [after, kinds, read, if_neg apart]
    · intro aliased
      exact absurd ⟨bytes, aliased ▸ content⟩ special
    · intro apart more written
      rw [after] at written
      exact absurd ⟨more, written⟩ notPlain

end Opening

end Disk

section Transfers

variable {process : Process} {s : Doubtful} {path target : Path}

/-- All calls but the test for existence do what they do on a sound machine. -/
theorem wp_doubtful {request : Call} (other : ∀ path, request ≠ .pathExists path)
    {post : Answer request → Doubtful → Prop} {failed : String → Doubtful → Prop}
    (holds : ∀ choice, Host.Allows request choice s.host →
      post (Host.exec process request choice s.host).1
        { s with host := (Host.exec process request choice s.host).2 }) :
    wp (Doubtful.kernel process).rule (ask request : FsHandlers.Op (Answer request)) post failed
      s := by
  intro input allowed
  have exec : Doubtful.exec process request input s =
      ((Host.exec process request input.kernel s.host).1,
        { s with host := (Host.exec process request input.kernel s.host).2 }) := by
    cases request with
    | pathExists path => exact absurd rfl (other path)
    | _ => rfl
  show Covers post failed (Except.ok (Doubtful.exec process request input s).1)
    (Doubtful.exec process request input s).2
  rw [exec]
  exact holds input.kernel allowed

theorem wp_attempt {σ α : Type} {rule : Rule Call Answer σ} (context : String)
    (body : FsHandlers.Op (Except OsError α)) {post : α → σ → Prop} {failed : String → σ → Prop}
    {s : σ} (holds : wp rule body
      (fun answer t => (∀ value, answer = .ok value → post value t) ∧
        ∀ e, answer = .error e → failed (context ++ ": " ++ e.text) t) failed s) :
    wp rule (FsHandlers.attempt context body) post failed s := by
  unfold FsHandlers.attempt
  rw [wp_bind]
  apply wp_mono holds
  · intro answer t both
    rw [wp_ofExcept]
    exact both
  · exact fun _ _ kept => kept

theorem metadata_ok {d : Disk} {inode : Inode} {metadata : Metadata} :
    d.metadata inode = .ok metadata ↔
      metadata.inode = inode ∧ d.nodes inode = some metadata.node := by
  unfold Disk.metadata
  cases node : d.nodes inode with
  | none => simp
  | some found =>
      cases metadata
      simp only [Except.ok.injEq, Metadata.mk.injEq, Option.some.injEq]
      exact and_congr_left' eq_comm

/-- The part of a copy that comes after its source is known to be a file. -/
def copyOnto (source : Inode) (mode : Nat) (target : Path) : FsHandlers.Op Unit := do
  let copied ← FsHandlers.attempt "copy" (ask (.openCreate target mode true))
  let written ← FsHandlers.attempt "copy" (ask (.fstat copied))
  (match written.node.kind with
  | .file _ => FsHandlers.attempt "copy" (ask (.fchmod copied mode))
  | _ => pure ())
  let bytes ← FsHandlers.attempt "copy" (ask (.readFile source))
  FsHandlers.attempt "copy" (ask (.writeAll copied bytes))

/-- The bytes are read and written: neither fails once both files are open. -/
theorem copyBytes_spec {d e : Disk} {source copied : Inode} {bytes : Bytes} {t : Doubtful}
    (opened : d.Opened e target copied) (found : d.openFollow path = .ok source)
    (content : d.kindOf source = some (.file bytes)) (root : t.host.disk.root = e.root)
    (entry : ∀ a n, t.host.disk.entry a n = e.entry a n)
    (kinds : ∀ i, t.host.disk.kindOf i = e.kindOf i) :
    wp (Doubtful.kernel process).rule (do
        let bytes ← FsHandlers.attempt "copy" (ask (.readFile source))
        FsHandlers.attempt "copy" (ask (.writeAll copied bytes)))
      (fun _ u => u.hidden = t.hidden ∧ d.Copied u.host.disk path target source copied bytes)
      (fun _ _ => False) t := by
  have read : t.host.disk.readFile source = .ok (if copied = source then [] else bytes) := by
    unfold Disk.readFile
    rw [kinds, opened.kindOf_source content]
  rw [wp_bind]
  apply wp_attempt
  apply wp_doubtful (by simp)
  intro _ _
  refine ⟨?_, ?_⟩
  · intro content_read same
    have bytes_read : content_read = if copied = source then [] else bytes := by
      have both := (show t.host.disk.readFile source = .ok content_read from same)
      rw [read] at both
      exact (Except.ok.inj both).symm
    apply wp_attempt
    apply wp_doubtful (by simp)
    intro choice _
    refine ⟨?_, nofun⟩
    intro _ _
    refine ⟨rfl, opened.write found content root entry kinds choice ?_⟩
    rw [← bytes_read]
    rfl
  · intro reason failed
    rw [show t.host.disk.readFile source = .error reason from failed] at read
    cases read

theorem copyOnto_spec {source : Inode} {bytes : Bytes} (mode : Nat)
    (found : s.host.disk.openFollow path = .ok source)
    (content : s.host.disk.kindOf source = some (.file bytes)) :
    wp (Doubtful.kernel process).rule (copyOnto source mode target)
      (fun _ t => t.hidden = s.hidden ∧ ¬ s.host.disk.CopyFails path target ∧
        ∃ copied, s.host.disk.Copied t.host.disk path target source copied bytes)
      (fun _ t => t = s ∧ s.host.disk.CopyFails path target) s := by
  unfold copyOnto
  rw [wp_bind]
  apply wp_attempt
  apply wp_doubtful (by simp)
  intro choice allowed
  cases opened : s.host.disk.openCreate choice process target mode true with
  | error e =>
      have result : Host.exec process (.openCreate target mode true) choice s.host =
          (.error e, s.host) := by
        simp only [Host.exec, opened, Host.opening]
        rfl
      rw [result]
      refine ⟨?_, fun _ _ => ⟨rfl, .inr (Disk.openCreate_error opened)⟩⟩
      intro _ never
      cases never
  | ok made =>
      obtain ⟨copied, e⟩ := made
      have result : Host.exec process (.openCreate target mode true) choice s.host =
          (.ok copied, { s.host with disk := e }) := by
        simp only [Host.exec, opened, Host.opening]
        rfl
      rw [result]
      refine ⟨?_, fun _ never => by cases never⟩
      rintro _ ⟨⟩
      obtain ⟨effect, noDirectory⟩ := Disk.openCreate_ok allowed opened
      rw [wp_bind]
      apply wp_attempt
      apply wp_doubtful (by simp)
      intro _ _
      constructor
      · intro written sampled
        have node : e.nodes copied = some written.node := (metadata_ok.mp sampled).2
        have fit : ¬ s.host.disk.CopyFails path target := by
          rintro (irregular | lost | ⟨inode, reached, directory | broken⟩)
          · exact irregular source bytes found content
          · obtain ⟨dir, name, leads, _⟩ := Disk.openFollow_ok.mp effect.reached
            exact lost _ (effect.same.symm.followed leads)
          · rw [noDirectory inode reached] at directory
            cases directory
          · have own : inode = copied := by
              rcases effect.before with there | ⟨nothing, _⟩
              · rw [there] at reached
                exact (Except.ok.inj reached).symm
              · exact absurd reached (nothing inode)
            subst own
            rcases effect.kept reached with ⟨more, plain⟩ | same
            · simp [Disk.kindOf, broken] at plain
            · rw [same, broken] at node
              cases node
        rw [wp_bind]
        split
        · apply wp_attempt
          apply wp_doubtful (by simp)
          intro choice _
          refine ⟨?_, fun _ never => by cases never⟩
          rintro _ ⟨⟩
          have moded : ∀ i, (e.fchmod choice copied mode).kindOf i = e.kindOf i :=
            Disk.kindOf_modifyNode fun _ => rfl
          apply wp_mono (copyBytes_spec effect found content rfl (fun _ _ => rfl) moded)
          · exact fun _ t done => ⟨done.1, fit, copied, done.2⟩
          · exact fun _ _ never => never.elim
        · rw [wp_pure]
          apply wp_mono (copyBytes_spec effect found content rfl (fun _ _ => rfl) fun _ => rfl)
          · exact fun _ t done => ⟨done.1, fit, copied, done.2⟩
          · exact fun _ _ never => never.elim
      · intro reason broken
        have node : e.nodes copied = none := by
          cases node : e.nodes copied with
          | none => rfl
          | some found =>
              have sampled : e.metadata copied = .ok ⟨copied, found⟩ := metadata_ok.mpr ⟨rfl, node⟩
              rw [show e.metadata copied = .error reason from broken] at sampled
              cases sampled
        rcases effect.kind with emptied | ⟨same, _⟩
        · simp [Disk.kindOf, node] at emptied
        · subst same
          exact ⟨rfl, .inr (.inr ⟨copied, effect.reached, .inr node⟩)⟩

/-- A copy goes through, or fails and leaves everything as it was. -/
theorem copy_spec (process : Process) (path target : Path) (s : Doubtful) :
    wp (Doubtful.kernel process).rule (FsHandlers.copy path target)
      (fun _ t => t.hidden = s.hidden ∧ ¬ s.host.disk.CopyFails path target ∧
        ∃ source copied bytes, s.host.disk.Copied t.host.disk path target source copied bytes)
      (fun _ t => t = s ∧ s.host.disk.CopyFails path target) s := by
  -- the copy fails unless a file is found at the path
  have unfit : (∀ source bytes, s.host.disk.openFollow path = .ok source →
      s.host.disk.kindOf source ≠ some (.file bytes)) → s.host.disk.CopyFails path target := .inl
  unfold FsHandlers.copy
  rw [wp_bind]
  apply wp_attempt
  apply wp_doubtful (by simp)
  intro _ _
  constructor
  · intro source found
    have only : ∀ other, s.host.disk.openFollow path = .ok other → other = source := by
      intro other same
      rw [show s.host.disk.openFollow path = .ok source from found] at same
      exact (Except.ok.inj same).symm
    rw [wp_bind]
    apply wp_attempt
    apply wp_doubtful (by simp)
    intro _ _
    constructor
    · intro metadata sampled
      have node : s.host.disk.nodes source = some metadata.node := (metadata_ok.mp sampled).2
      split
      · rename_i bytes kind
        have content : s.host.disk.kindOf source = some (.file bytes) := by
          rw [Disk.kindOf, node, Option.map_some, kind]
        apply wp_mono (copyOnto_spec (metadata.node.mode % 0o10000) found content)
        · rintro _ t ⟨hidden, fit, copied, done⟩
          exact ⟨hidden, fit, source, copied, bytes, done⟩
        · exact fun _ _ failed => failed
      · rename_i irregular
        refine ⟨rfl, unfit ?_⟩
        intro other bytes same regular
        rw [only other same, Disk.kindOf, node, Option.map_some, Option.some.injEq] at regular
        exact irregular bytes regular
    · intro e broken
      refine ⟨rfl, unfit ?_⟩
      intro other bytes same regular
      rw [only other same] at regular
      obtain ⟨node, there, _⟩ := Option.map_eq_some_iff.mp regular
      have sampled : s.host.disk.metadata source = .ok ⟨source, node⟩ :=
        metadata_ok.mpr ⟨rfl, there⟩
      rw [show s.host.disk.metadata source = .error e from broken] at sampled
      cases sampled
  · intro e missing
    refine ⟨rfl, unfit ?_⟩
    intro source bytes found
    rw [show s.host.disk.openFollow path = .error e from missing] at found
    cases found

theorem rename_error_iff (d : Disk) (choice choice' : KernelChoice) (path target : Path)
    (e : OsError) :
    d.rename choice path target = .error e ↔ d.rename choice' path target = .error e := by
  unfold Disk.rename
  split
  · exact Iff.rfl
  · exact Iff.rfl
  · exact Iff.rfl
  · split
    · exact Iff.rfl
    · split
      · exact Iff.rfl
      · split
        · simp
        · repeat' split
          all_goals simp

theorem rename_spec (process : Process) (path target : Path) (s : Doubtful) :
    wp (Doubtful.kernel process).rule
      (FsHandlers.attempt "rename" (ask (.rename path target)) : FsHandlers.Op Unit)
      (fun _ t => t.hidden = s.hidden ∧ ¬ s.host.disk.RenameFails path target)
      (fun _ t => t = s ∧ s.host.disk.RenameFails path target) s := by
  apply wp_attempt
  apply wp_doubtful (by simp)
  intro choice _
  cases renamed : s.host.disk.rename choice path target with
  | error e =>
      have result : Host.exec process (.rename path target) choice s.host =
          (.error e, s.host) := by
        simp only [Host.exec, renamed, Host.change]
        rfl
      rw [result]
      refine ⟨?_, fun _ _ => ⟨rfl, choice, e, renamed⟩⟩
      intro _ never
      cases never
  | ok disk =>
      have result : Host.exec process (.rename path target) choice s.host =
          (.ok (), { s.host with disk }) := by
        simp only [Host.exec, renamed, Host.change]
        rfl
      rw [result]
      refine ⟨fun _ _ => ⟨rfl, ?_⟩, fun _ never => by cases never⟩
      rintro ⟨other, e, failed⟩
      rw [rename_error_iff _ other choice] at failed
      rw [renamed] at failed
      cases failed

theorem refuseExisting_spec (process : Process) (context : String) (okIfExists : Bool)
    (s : Doubtful) :
    wp (Doubtful.kernel process).rule (FsHandlers.refuseExisting context target okIfExists)
      (fun _ t => t.host = s.host ∧
        (okIfExists = false → s.host.disk.pathExists target = true → t.hidden = true))
      (fun _ t => t = s ∧ s.host.disk.pathExists target = true) s := by
  unfold FsHandlers.refuseExisting
  cases okIfExists with
  | true => exact ⟨rfl, nofun⟩
  | false =>
      rw [if_neg (by simp)]
      refine (wp_bind (ask (.pathExists target)) _ _ _ s).mpr ?_
      rintro ⟨choice, fails⟩ _
      cases fails with
      | true => exact ⟨rfl, fun _ _ => rfl⟩
      | false =>
          show wp _ (if s.host.disk.pathExists target = true then
            stop (context ++ ": destination exists: " ++ FsHandlers.displayPath target)
              else pure ()) _ _ s
          by_cases there : s.host.disk.pathExists target = true
          · rw [if_pos there]
            exact ⟨rfl, there⟩
          · rw [if_neg there]
            exact ⟨rfl, fun _ found => absurd found there⟩

theorem wp_finish {σ : Type} {rule : Rule Call Answer σ} {body : FsHandlers.Op Unit}
    (post : Unit → σ → Prop) (failed : String → σ → Prop) {s : σ}
    (holds : wp rule body post failed s) :
    Program.wp rule (FsHandlers.finish body)
      (fun reply t =>
        reply = .ok ∧ post () t ∨ ∃ text, reply = .failed text ∧ failed text t) s := by
  refine (Program.wp_bind body _ _ s).mpr (Program.wp_mono holds ?_)
  intro result t covered
  cases result with
  | ok value => exact .inl ⟨rfl, covered⟩
  | error text => exact .inr ⟨text, rfl, covered⟩

end Transfers

namespace TransferOp

open FsHandlers

/-- The operation itself cannot be carried out, and changes nothing. -/
def Fails (d : Disk) (path target : Path) : TransferOp → Prop
  | .rename => d.RenameFails path target
  | .copy => d.CopyFails path target

/-- What a copy that went through has done. -/
def Effect (d e : Disk) (path target : Path) : TransferOp → Prop
  | .rename => True
  | .copy => ∃ source copied bytes, d.Copied e path target source copied bytes

/-- The test for existence finds something, and does not fail. -/
def Seen (d : Disk) (target : Path) (hidden : Bool) : Prop :=
  d.pathExists target = true ∧ hidden = false

variable {r : Reader} {process : Process} {req : Json} {h : Host}

/-- The operation of a transfer, after the destination has been looked for. -/
theorem wp_transfer {op : Op Unit} {context : String} {target : Path} {exists_ok : Bool}
    {fails : Prop} (done : Disk → Prop)
    (spec : ∀ s : Doubtful, s.host = h → wp (Doubtful.kernel process).rule op
      (fun _ t => t.hidden = s.hidden ∧ ¬ fails ∧ done t.host.disk)
      (fun _ t => t = s ∧ fails) s) :
    Program.wp (Doubtful.kernel process).rule
      (finish (do
        refuseExisting context target exists_ok
        op))
      (fun reply t =>
        reply = .ok ∧ ¬ fails ∧ done t.host.disk ∧
            (exists_ok = false → ¬ Seen h.disk target t.hidden) ∨
          reply.isError = true ∧ t.host.disk = h.disk ∧ (fails ∨ Seen h.disk target t.hidden))
      ⟨h, false⟩ := by
  apply Program.wp_mono (wp_finish (fun _ t => ¬ fails ∧ done t.host.disk ∧
      (exists_ok = false → ¬ Seen h.disk target t.hidden))
    (fun _ t => t.host.disk = h.disk ∧ (fails ∨ Seen h.disk target t.hidden)) ?_)
  · rintro reply t (⟨same, rest⟩ | ⟨text, same, rest⟩)
    · exact .inl ⟨same, rest⟩
    · exact .inr ⟨by rw [same]; rfl, rest⟩
  · rw [wp_bind]
    apply wp_mono (refuseExisting_spec process context exists_ok ⟨h, false⟩)
    · rintro _ s ⟨host, looked⟩
      apply wp_mono (spec s host)
      · rintro _ t ⟨hidden, fit, effect⟩
        refine ⟨fit, effect, ?_⟩
        rintro refusing ⟨there, seen⟩
        rw [hidden, looked refusing there] at seen
        cases seen
      · rintro _ t ⟨rfl, failed⟩
        exact ⟨by rw [host], .inl failed⟩
    · rintro _ t ⟨rfl, there⟩
      exact ⟨rfl, .inr ⟨there, rfl⟩⟩

/-- A transfer goes through, or is refused and changes nothing. -/
theorem handle_spec (op : TransferOp) :
    Program.wp (Doubtful.kernel process).rule (op.handle r process req)
      (fun reply t =>
        reply = .ok ∧ ¬ op.Fails h.disk (requestPath r req) (requestTarget r req) ∧
            op.Effect h.disk t.host.disk (requestPath r req) (requestTarget r req) ∧
            (okIfExists req = false → ¬ Seen h.disk (requestTarget r req) t.hidden) ∨
          reply.isError = true ∧ t.host.disk = h.disk ∧
            (op.Fails h.disk (requestPath r req) (requestTarget r req) ∨
              Seen h.disk (requestTarget r req) t.hidden))
      ⟨h, false⟩ := by
  cases op with
  | rename =>
      apply wp_transfer (fun _ => True)
      rintro s rfl
      apply wp_mono (rename_spec process (requestPath r req) (requestTarget r req) s)
      · exact fun _ t ⟨hidden, fit⟩ => ⟨hidden, fit, trivial⟩
      · exact fun _ _ failed => failed
  | copy =>
      apply wp_transfer (fun e => ∃ source copied bytes,
        h.disk.Copied e (requestPath r req) (requestTarget r req) source copied bytes)
      rintro s rfl
      exact copy_spec process (requestPath r req) (requestTarget r req) s

end TransferOp

/-- The file that the path led to has the bytes it had, and the destination has them too, if it is
a regular file. -/
def Disk.Intact (d e : Disk) (path target : Path) : Prop :=
  ∃ source bytes, d.openFollow path = .ok source ∧ d.kindOf source = some (.file bytes) ∧
    e.kindOf source = some (.file bytes) ∧ ∀ copied content, e.openFollow target = .ok copied →
      e.kindOf copied = some (.file content) → content = bytes

/-- The destination does not lead to the source file, or that is empty. -/
def Disk.Apart (d : Disk) (path target : Path) : Prop :=
  ∀ source, d.openFollow path = .ok source → d.openFollow target = .ok source →
    d.kindOf source = some (.file [])

theorem Disk.Copied.intact_iff {d e : Disk} {path target : Path} {source copied : Inode}
    {bytes : Bytes} (done : d.Copied e path target source copied bytes) :
    d.Intact e path target ↔ d.Apart path target := by
  have only : ∀ other, d.openFollow path = .ok other → other = source := by
    intro other same
    rw [done.found] at same
    exact (Except.ok.inj same).symm
  constructor
  · rintro ⟨other, kept, found, content, after, -⟩ shared _ aliased
    rw [only other found] at content after
    rw [only shared ‹_›] at aliased ⊢
    have same : copied = source := by
      rcases done.before with there | ⟨nothing, _⟩
      · rw [there] at aliased
        exact Except.ok.inj aliased
      · exact absurd aliased (nothing source)
    rw [done.emptied same] at after
    rw [content]
    exact after.symm ▸ rfl
  · intro apart
    by_cases same : copied = source
    · have aliased : d.openFollow target = .ok source := by
        rcases done.before with there | ⟨_, other⟩
        · exact same ▸ there
        · exact absurd same other
      have empty : bytes = [] := by
        have content := apart source done.found aliased
        rw [done.content] at content
        simpa using content
      refine ⟨source, bytes, done.found, done.content, ?_, ?_⟩
      · rw [done.emptied same, empty]
      · intro other content reached written
        rw [done.reached] at reached
        rw [← Except.ok.inj reached, same, done.emptied same] at written
        simpa [empty] using written.symm
    · refine ⟨source, bytes, done.found, done.content, done.apart same, ?_⟩
      intro other content reached written
      rw [done.reached] at reached
      rw [← Except.ok.inj reached] at written
      exact done.written same content written

open FsHandlers

/-- A copy that is answered ok leaves its source intact and the destination equal to it if and only
if the destination is not the source file under this or another name, or that is empty. -/
theorem copy_intact_iff (r : Reader) (process : Process) (req : Json) (h : Host) (t : Doubtful)
    (run : Program.Executes (Doubtful.kernel process) (TransferOp.copy.handle r process req)
      ⟨h, false⟩ .ok t) :
    h.disk.Intact t.host.disk (requestPath r req) (requestTarget r req) ↔
      h.disk.Apart (requestPath r req) (requestTarget r req) := by
  rcases Program.wp_executes (TransferOp.handle_spec .copy) run with
    ⟨_, _, effect, _⟩ | ⟨refused, _⟩
  · obtain ⟨source, copied, bytes, done⟩ := effect
    exact done.intact_iff
  · cases refused

/-- Names of files in the root directory. -/
def rootReader : Reader where
  home := none
  decode _ := .ok []
  locate text := ⟨[], String.ofList (text.toList.drop 1)⟩

def soundChoice : Doubtful.Choice := ⟨sampleChoice, false⟩

theorem copy_intact_iff_created :
    ∃ t, Program.Executes (Doubtful.kernel sampleProcess)
        (TransferOp.copy.handle rootReader sampleProcess (TransferOp.copy.request "/f" "/g" true))
        ⟨sampleHost, false⟩ .ok t ∧
      sampleDisk.Intact t.host.disk ⟨[], "f"⟩ ⟨[], "g"⟩ := by
  have permitted : Program.Permits (Doubtful.kernel sampleProcess) (List.replicate 7 soundChoice)
      (TransferOp.copy.handle rootReader sampleProcess (TransferOp.copy.request "/f" "/g" true))
      ⟨sampleHost, false⟩ :=
    ⟨trivial, trivial, fun slot _ => sampleDisk_free (by decide), trivial, trivial, trivial,
      trivial, trivial⟩
  have run := Program.executes_of_advance permitted rfl
  have apart : sampleDisk.Apart ⟨[], "f"⟩ ⟨[], "g"⟩ := by
    intro source _ aliased
    have absent : (Except.error .notFound : Except OsError Inode) = .ok source := aliased
    cases absent
  exact ⟨_, run, (copy_intact_iff rootReader sampleProcess
    (TransferOp.copy.request "/f" "/g" true) sampleHost _ run).mpr apart⟩

/-- A file that is copied to its own name is emptied, and the copy answered ok. -/
theorem copy_onto_itself_empties :
    ¬ ∀ (r : Reader) (process : Process) (req : Json) (h : Host) (t : Doubtful),
      Program.Executes (Doubtful.kernel process) (TransferOp.copy.handle r process req)
          ⟨h, false⟩ .ok t →
        h.disk.Intact t.host.disk (requestPath r req) (requestTarget r req) := by
  intro intact
  have permitted : Program.Permits (Doubtful.kernel sampleProcess) (List.replicate 7 soundChoice)
      (TransferOp.copy.handle rootReader sampleProcess (TransferOp.copy.request "/f" "/f" true))
      ⟨sampleHost, false⟩ :=
    ⟨trivial, trivial, fun slot _ => sampleDisk_free (by decide), trivial, trivial, trivial,
      trivial, trivial⟩
  have run := Program.executes_of_advance permitted rfl
  obtain ⟨source, bytes, found, content, after, -⟩ := intact _ _ _ _ _ run
  have led : (Except.ok ⟨1, 10⟩ : Except OsError Inode) = .ok source := found
  cases led
  have before : some (FileKind.file [97]) = some (.file bytes) := content
  cases before
  have emptied : some (FileKind.file []) = some (FileKind.file [97]) := after
  cases emptied

/-- Where there is an entry at the destination, the transfer is refused and changes nothing. -/
def Disk.NeverOverwritten (d e : Disk) (target : Path) (reply : FsReply) : Prop :=
  ∀ inode, d.find target = .ok inode → reply.isError = true ∧ e = d

/-- Every transfer with `ok_if_exists` false leaves an entry at its destination alone. -/
def TransferOp.Guarded (op : TransferOp) : Prop :=
  ∀ (r : Reader) (process : Process) (req : Json) (h : Host) (reply : FsReply) (t : Doubtful),
    okIfExists req = false →
    Program.Executes (Doubtful.kernel process) (op.handle r process req) ⟨h, false⟩ reply t →
      h.disk.NeverOverwritten t.host.disk (requestTarget r req) reply

/-- A transfer with `ok_if_exists` false does not touch an entry at its destination if and only if
the test for existence sees it, or the operation cannot be carried out. -/
theorem never_overwritten_iff (op : TransferOp) (r : Reader) (process : Process) (req : Json)
    (refusing : okIfExists req = false) (h : Host) (reply : FsReply) (t : Doubtful)
    (run : Program.Executes (Doubtful.kernel process) (op.handle r process req) ⟨h, false⟩ reply
      t) :
    h.disk.NeverOverwritten t.host.disk (requestTarget r req) reply ↔
      ∀ inode, h.disk.find (requestTarget r req) = .ok inode →
        TransferOp.Seen h.disk (requestTarget r req) t.hidden ∨
          op.Fails h.disk (requestPath r req) (requestTarget r req) := by
  apply forall_congr'
  intro inode
  apply imp_congr_right
  intro _
  rcases Program.wp_executes (TransferOp.handle_spec op) run with
    ⟨done, fit, _, unseen⟩ | ⟨refused, same, cause⟩
  · refine iff_of_false ?_ (not_or.mpr ⟨unseen refusing, fit⟩)
    rw [done]
    exact fun both => nomatch both.1
  · exact iff_of_true ⟨refused, same⟩ cause.symm

theorem never_overwritten_iff_seen :
    ∃ reply t, Program.Executes (Doubtful.kernel sampleProcess)
        (TransferOp.rename.handle rootReader sampleProcess
          (TransferOp.rename.request "/f" "/f" false)) ⟨sampleHost, false⟩ reply t ∧
      sampleDisk.NeverOverwritten t.host.disk ⟨[], "f"⟩ reply := by
  have permitted : Program.Permits (Doubtful.kernel sampleProcess) [soundChoice]
      (TransferOp.rename.handle rootReader sampleProcess
        (TransferOp.rename.request "/f" "/f" false)) ⟨sampleHost, false⟩ := ⟨trivial, trivial⟩
  have run := Program.executes_of_advance permitted rfl
  have seen : TransferOp.Seen sampleDisk ⟨[], "f"⟩ false := ⟨rfl, rfl⟩
  exact ⟨_, _, run, (never_overwritten_iff .rename rootReader sampleProcess
    (TransferOp.rename.request "/f" "/f" false) rfl sampleHost _ _ run).mpr
      fun _ _ => .inl seen⟩

/-- The root directory has a link `l` to a file that is not there. -/
def danglingDisk : Disk :=
  { sampleDisk with
    nodes := fun inode =>
      if inode = ⟨1, 20⟩ then some ⟨.symlink false ["g"], 0o777, 1000, 1000, 1, ⟨5, 0⟩, ⟨5, 0⟩⟩
      else sampleDisk.nodes inode
    entries := fun inode =>
      if inode = ⟨1, 2⟩ then [(".", ⟨1, 2⟩), ("f", ⟨1, 10⟩), ("l", ⟨1, 20⟩)] else [] }

theorem danglingDisk_free : danglingDisk.Free ⟨1, 11⟩ := by
  refine ⟨by decide, ?_⟩
  intro dir name found
  have member := Entries.mem_of_get found
  by_cases root : dir = ⟨1, 2⟩
  · simp [danglingDisk, root] at member
  · simp [danglingDisk, root] at member

/-- A rename that must not overwrite replaces a dangling link, and a copy writes through it. -/
theorem dangling_link_overwritten : ¬ TransferOp.rename.Guarded ∧ ¬ TransferOp.copy.Guarded := by
  constructor
  · intro guarded
    have permitted : Program.Permits (Doubtful.kernel sampleProcess) (List.replicate 2 soundChoice)
        (TransferOp.rename.handle rootReader sampleProcess
          (TransferOp.rename.request "/f" "/l" false)) ⟨⟨danglingDisk, fun _ => 0⟩, false⟩ :=
      ⟨trivial, trivial, trivial⟩
    have run := Program.executes_of_advance permitted rfl
    cases (guarded _ _ _ _ _ _ rfl run ⟨1, 20⟩ rfl).1
  · intro guarded
    have permitted : Program.Permits (Doubtful.kernel sampleProcess) (List.replicate 8 soundChoice)
        (TransferOp.copy.handle rootReader sampleProcess
          (TransferOp.copy.request "/f" "/l" false)) ⟨⟨danglingDisk, fun _ => 0⟩, false⟩ := by
      refine ⟨trivial, trivial, trivial, ?_, trivial, trivial, trivial, trivial, trivial⟩
      rintro _ ⟨⟩
      exact danglingDisk_free
    have run := Program.executes_of_advance permitted rfl
    cases (guarded _ _ _ _ _ _ rfl run ⟨1, 20⟩ rfl).1

end EmacsRelay

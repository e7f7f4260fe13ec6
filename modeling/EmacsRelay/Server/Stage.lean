import EmacsRelay.Server.Alone

set_option autoImplicit false

/- A file put beside the others and then in the place of one: what lookups find meanwhile. -/
namespace EmacsRelay

namespace Disk

variable {d e : Disk} {dir file : Inode} {name : String} {node : Node} {path : Path}

section Lookups

variable (d)

@[simp] theorem entry_setNode (i : Inode) (node : Node) (a : Inode) (n : String) :
    (d.setNode i node).entry a n = d.entry a n := rfl

@[simp] theorem entry_modifyNode (i : Inode) (f : Node → Node) (a : Inode) (n : String) :
    (d.modifyNode i f).entry a n = d.entry a n := rfl

@[simp] theorem entry_dropLink (i : Inode) (now : Time) (a : Inode) (n : String) :
    (d.dropLink i now).entry a n = d.entry a n := rfl

theorem entry_putEntry (dir : Inode) (name : String) (i : Inode) (a : Inode) (n : String) :
    (d.putEntry dir name i).entry a n = if a = dir ∧ n = name then some i else d.entry a n := by
  by_cases same : a = dir
  · simp [entry, putEntry, same]
  · simp [entry, putEntry, same]

theorem entry_removeEntry (dir : Inode) (name : String) (a : Inode) (n : String) :
    (d.removeEntry dir name).entry a n = if a = dir ∧ n = name then none else d.entry a n := by
  by_cases same : a = dir
  · simp [entry, removeEntry, same, Entries.get_remove]
  · simp [entry, removeEntry, same]

@[simp] theorem nodes_putEntry (dir : Inode) (name : String) (i : Inode) :
    (d.putEntry dir name i).nodes = d.nodes := rfl

@[simp] theorem nodes_removeEntry (dir : Inode) (name : String) :
    (d.removeEntry dir name).nodes = d.nodes := rfl

theorem nodes_setNode (i j : Inode) (node : Node) :
    (d.setNode i node).nodes j = if j = i then some node else d.nodes j := by
  by_cases same : j = i
  · simp [setNode, same]
  · simp [setNode, same]

theorem nodes_modifyNode (i j : Inode) (f : Node → Node) :
    (d.modifyNode i f).nodes j = if j = i then (d.nodes i).map f else d.nodes j := by
  by_cases same : j = i
  · simp [modifyNode, same]
  · simp [modifyNode, same]

end Lookups

/-- A lookup goes on beyond this inode. -/
def Passable (d : Disk) (i : Inode) : Prop :=
  d.kindOf i = some .directory ∨ ∃ absolute target, d.kindOf i = some (.symlink absolute target)

/-- A lookup that succeeds does so in every disk that has the same directories and links. -/
theorem walk_congr (root : e.root = d.root)
    (keeps : ∀ a n i, d.entry a n = some i → d.Passable i →
      e.entry a n = some i ∧ e.kindOf i = d.kindOf i)
    {fuel : Nat} {start found : Inode} {components : List String}
    (walks : d.walk fuel start components = .ok found) :
    e.walk fuel start components = .ok found := by
  induction fuel generalizing start components with
  | zero =>
      cases components with
      | nil => exact walks
      | cons name rest => cases walks
  | succ fuel ih =>
      cases components with
      | nil => exact walks
      | cons name rest =>
          simp only [walk] at walks ⊢
          cases there : d.entry start name with
          | none => rw [there] at walks; cases walks
          | some i =>
              rw [there] at walks
              dsimp only at walks
              cases kind : d.kindOf i with
              | none => rw [kind] at walks; cases walks
              | some k =>
                  rw [kind] at walks
                  cases k with
                  | directory =>
                      obtain ⟨same, still⟩ := keeps start name i there (.inl kind)
                      rw [same]
                      dsimp only
                      rw [still, kind]
                      exact ih walks
                  | symlink absolute target =>
                      obtain ⟨same, still⟩ := keeps start name i there (.inr ⟨_, _, kind⟩)
                      rw [same]
                      dsimp only
                      rw [still, kind]
                      dsimp only at walks ⊢
                      rw [root]
                      exact ih walks
                  | file bytes => cases walks
                  | fifo => cases walks
                  | other => cases walks

/-- The disk with one more file, under a name that was free. -/
structure Staged (d e : Disk) (dir : Inode) (name : String) (file : Inode) (node : Node) :
    Prop where
  root : e.root = d.root
  entry : ∀ a n, e.entry a n = if a = dir ∧ n = name then some file else d.entry a n
  node : e.nodes file = some node
  others : ∀ i, i ≠ file → e.nodes i = d.nodes i
  absent : d.entry dir name = none
  free : d.Free file

namespace Staged

theorem create (absent : d.entry dir name = none) (free : d.Free file) (node : Node) :
    Staged d (d.create dir name file node) dir name file node where
  root := rfl
  entry a n := by simp [Disk.create, entry_putEntry]
  node := by simp [Disk.create, nodes_setNode]
  others i other := by simp [Disk.create, nodes_setNode, other]
  absent := absent
  free := free

variable (staged : Staged d e dir name file node)

include staged

theorem modify (f : Node → Node) : Staged d (e.modifyNode file f) dir name file (f node) where
  root := staged.root
  entry a n := by rw [entry_modifyNode, staged.entry]
  node := by simp [nodes_modifyNode, staged.node]
  others i other := by
    rw [nodes_modifyNode, if_neg other]
    exact staged.others i other
  absent := staged.absent
  free := staged.free

/-- What was linked before is as it was. -/
theorem linked {a : Inode} {n : String} {i : Inode} (there : d.entry a n = some i) :
    e.entry a n = some i ∧ e.nodes i = d.nodes i := by
  have elsewhere : ¬ (a = dir ∧ n = name) := by
    rintro ⟨rfl, rfl⟩
    rw [staged.absent] at there
    cases there
  have other : i ≠ file := by
    rintro rfl
    exact staged.free.2 a n there
  rw [staged.entry, if_neg elsewhere]
  exact ⟨there, staged.others i other⟩

theorem walks {fuel : Nat} {start found : Inode} {components : List String}
    (walks : d.walk fuel start components = .ok found) :
    e.walk fuel start components = .ok found := by
  apply walk_congr staged.root ?_ walks
  intro a n i there _
  obtain ⟨same, nodes⟩ := staged.linked there
  exact ⟨same, by rw [kindOf, kindOf, nodes]⟩

theorem directoryOf (here : d.directoryOf path = .ok dir) : e.directoryOf path = .ok dir := by
  unfold Disk.directoryOf at here ⊢
  rw [staged.root]
  exact staged.walks here

theorem lstat (here : d.directoryOf path = .ok dir) (other : path.name ≠ name) :
    e.lstat path = d.lstat path := by
  have there := staged.directoryOf here
  unfold Disk.lstat find
  rw [here, there]
  dsimp only
  cases found : d.entry dir path.name with
  | none =>
      rw [staged.entry, if_neg fun same => other same.2, found]
  | some i =>
      obtain ⟨same, nodes⟩ := staged.linked found
      rw [same]
      dsimp only
      unfold metadata
      rw [nodes]

theorem conflictAt (expected : ExpectedRevision) (here : d.directoryOf path = .ok dir)
    (other : path.name ≠ name) : e.conflictAt expected path = d.conflictAt expected path := by
  unfold Disk.conflictAt
  rw [staged.lstat here other]

/-- The staged file itself is found under its name. -/
theorem find_self (here : d.directoryOf path = .ok dir) :
    e.find ⟨path.parent, name⟩ = .ok file := by
  have there : e.directoryOf ⟨path.parent, name⟩ = .ok dir := staged.directoryOf here
  unfold find
  rw [there]
  dsimp only
  rw [staged.entry, if_pos ⟨rfl, rfl⟩]

/-- Removing it leaves what was there before. -/
theorem removed (now : Time) :
    let e' := (e.removeEntry dir name).dropLink file now
    e'.root = d.root ∧ (∀ a n, e'.entry a n = d.entry a n) ∧
      ∀ i, i ≠ file → e'.nodes i = d.nodes i := by
  refine ⟨staged.root, ?_, ?_⟩
  · intro a n
    rw [entry_dropLink, entry_removeEntry, staged.entry]
    by_cases same : a = dir ∧ n = name
    · rw [if_pos same, same.1, same.2, staged.absent]
    · rw [if_neg same, if_neg same]
  · intro i other
    rw [dropLink, nodes_modifyNode, if_neg other, nodes_removeEntry]
    exact staged.others i other

end Staged

/-- The file is in its place; the one it replaced has lost that link. -/
structure Published (d e : Disk) (dir : Inode) (name : String) (file : Inode) (node : Node)
    (now : Time) : Prop where
  root : e.root = d.root
  entry : ∀ a n, e.entry a n = if a = dir ∧ n = name then some file else d.entry a n
  node : e.nodes file = some node
  others : ∀ i, i ≠ file → d.entry dir name ≠ some i → e.nodes i = d.nodes i
  replaced : ∀ i, d.entry dir name = some i →
    e.nodes i = (d.nodes i).map fun old => { old with nlink := old.nlink - 1, ctime := now }
  free : d.Free file

section Publish

variable {bytes : Bytes} (choice : KernelChoice)

theorem isDirectory_file {i : Inode} (kind : d.kindOf i = some (.file bytes)) :
    d.isDirectory i = false := by
  simp [isDirectory, kind]

theorem Staged.kindOf (staged : Staged d e dir name file node) (kind : node.kind = .file bytes) :
    e.kindOf file = some (.file bytes) := by
  simp [Disk.kindOf, staged.node, kind]

/-- A staged file is renamed over an ordinary one. -/
theorem Staged.rename (staged : Staged d e dir name file node) (here : d.directoryOf path = .ok dir)
    (kind : node.kind = .file bytes) (device : file.dev = dir.dev)
    {old : Inode} {content : Bytes} (there : d.entry dir path.name = some old)
    (plain : d.kindOf old = some (.file content)) :
    ∃ e', e.rename choice ⟨path.parent, name⟩ path = .ok e' ∧
      Published d e' dir path.name file { node with ctime := choice.now } choice.now := by
  have tempDir : e.directoryOf ⟨path.parent, name⟩ = .ok dir := staged.directoryOf here
  have differs : old ≠ file := by
    intro same
    exact staged.free.2 dir path.name (same ▸ there)
  obtain ⟨found, nodes⟩ := staged.linked there
  have oldKind : e.kindOf old = some (.file content) := by
    rw [Disk.kindOf, nodes]
    exact plain
  have fileKind := staged.kindOf kind
  refine ⟨e.moveEntry choice dir name dir path.name file, ?_, ?_⟩
  · unfold Disk.rename
    rw [tempDir, staged.find_self here, staged.directoryOf here]
    simp [device, isDirectory_file fileKind, isDirectory_file oldKind, found, differs]
  · have moved : e.moveEntry choice dir name dir path.name file =
        (((e.removeEntry dir name).putEntry dir path.name file).modifyNode file fun node =>
          { node with ctime := choice.now }).dropLink old choice.now := by
      simp only [moveEntry, found]
    rw [moved]
    refine ⟨staged.root, ?_, ?_, ?_, ?_, staged.free⟩
    · intro a n
      rw [entry_dropLink, entry_modifyNode, entry_putEntry, entry_removeEntry, staged.entry]
      by_cases same : a = dir ∧ n = path.name
      · rw [if_pos same, if_pos same]
      · rw [if_neg same, if_neg same]
        by_cases temp : a = dir ∧ n = name
        · rw [if_pos temp, temp.1, temp.2, staged.absent]
        · rw [if_neg temp, if_neg temp]
    · rw [dropLink, nodes_modifyNode, if_neg differs.symm, nodes_modifyNode, if_pos rfl]
      simp [staged.node]
    · intro i notFile notOld
      have notReplaced : i ≠ old := fun same => notOld (same ▸ there)
      rw [dropLink, nodes_modifyNode, if_neg notReplaced, nodes_modifyNode, if_neg notFile]
      exact staged.others i notFile
    · intro i replaced
      have same : i = old := Option.some.inj (replaced.symm.trans there)
      rw [same, dropLink, nodes_modifyNode, if_pos rfl, nodes_modifyNode, if_neg differs]
      exact congrArg (Option.map _) (staged.others old differs)

/-- A staged file is linked where there was none, and its first name removed. -/
theorem Staged.link (staged : Staged d e dir name file node) (here : d.directoryOf path = .ok dir)
    (other : path.name ≠ name) (kind : node.kind = .file bytes) (device : file.dev = dir.dev)
    (absent : d.entry dir path.name = none) (choice' : KernelChoice) :
    ∃ linked e', e.hardLink choice ⟨path.parent, name⟩ path = .ok linked ∧
      linked.unlink choice' ⟨path.parent, name⟩ = .ok e' ∧
      Published d e' dir path.name file { node with ctime := choice'.now } choice'.now := by
  have fileKind := staged.kindOf kind
  have vacant : e.entry dir path.name = none := by
    rw [staged.entry, if_neg fun same => other same.2, absent]
  let linked := (e.putEntry dir path.name file).modifyNode file fun node =>
    { node with nlink := node.nlink + 1, ctime := choice.now }
  have entries : ∀ a n, linked.entry a n =
      if a = dir ∧ n = path.name then some file else e.entry a n :=
    fun a n => entry_putEntry e dir path.name file a n
  have linkedNode : linked.nodes file =
      some { node with nlink := node.nlink + 1, ctime := choice.now } := by
    show (Disk.modifyNode _ file _).nodes file = _
    rw [nodes_modifyNode, if_pos rfl, nodes_putEntry, staged.node]
    rfl
  have linkedKind : linked.kindOf file = some (.file bytes) := by
    simp [Disk.kindOf, linkedNode, kind]
  have tempDir : linked.directoryOf ⟨path.parent, name⟩ = .ok dir := by
    have start : e.directoryOf ⟨path.parent, name⟩ = .ok dir := staged.directoryOf here
    unfold Disk.directoryOf at start ⊢
    apply walk_congr (d := e) (e := linked) rfl ?_ start
    intro a n i there passable
    have elsewhere : ¬ (a = dir ∧ n = path.name) := by
      rintro ⟨rfl, rfl⟩
      rw [vacant] at there
      cases there
    have notFile : i ≠ file := by
      rintro rfl
      rcases passable with directory | ⟨_, _, symlink⟩
      · rw [fileKind] at directory; cases directory
      · rw [fileKind] at symlink; cases symlink
    refine ⟨by rw [entries, if_neg elsewhere, there], ?_⟩
    have same : linked.nodes i = e.nodes i := by
      show (Disk.modifyNode _ file _).nodes i = _
      rw [nodes_modifyNode, if_neg notFile, nodes_putEntry]
    rw [Disk.kindOf, same]
    rfl
  have tempEntry : linked.entry dir name = some file := by
    rw [entries, if_neg fun same => other same.2.symm, staged.entry, if_pos ⟨rfl, rfl⟩]
  have tempFound : linked.find ⟨path.parent, name⟩ = .ok file := by
    unfold find
    rw [tempDir]
    dsimp only
    rw [tempEntry]
  refine ⟨linked, (linked.removeEntry dir name).dropLink file choice'.now, ?_, ?_, ?_⟩
  · unfold hardLink
    rw [staged.find_self here, staged.directoryOf here]
    simp [vacant, device, isDirectory_file fileKind, linked]
  · unfold unlink
    rw [tempDir, tempFound]
    simp [isDirectory_file linkedKind]
  · refine ⟨staged.root, ?_, ?_, ?_, ?_, staged.free⟩
    · intro a n
      rw [entry_dropLink, entry_removeEntry, entries, staged.entry]
      by_cases temp : a = dir ∧ n = name
      · have elsewhere : ¬ (a = dir ∧ n = path.name) := fun same => other (same.2.symm.trans temp.2)
        rw [if_pos temp, if_neg elsewhere, temp.1, temp.2, staged.absent]
      · rw [if_neg temp, if_neg temp]
    · rw [dropLink, nodes_modifyNode, if_pos rfl, nodes_removeEntry, linkedNode]
      simp
    · intro i notFile _
      rw [dropLink, nodes_modifyNode, if_neg notFile, nodes_removeEntry]
      show (Disk.modifyNode _ file _).nodes i = _
      rw [nodes_modifyNode, if_neg notFile, nodes_putEntry]
      exact staged.others i notFile
    · intro i there
      rw [absent] at there
      cases there

end Publish

/-- A published file is what a lookup of its path finds. -/
theorem Published.lstat {now : Time} (published : Published d e dir path.name file node now)
    (here : d.directoryOf path = .ok dir)
    (plain : ∀ old, d.entry dir path.name = some old →
      ∃ content, d.kindOf old = some (.file content)) :
    e.lstat path = .ok ⟨file, node⟩ := by
  have there : e.directoryOf path = .ok dir := by
    unfold directoryOf at here ⊢
    rw [published.root]
    apply walk_congr published.root ?_ here
    intro a n i found passable
    have ordinary : ∀ content, d.kindOf i ≠ some (.file content) := by
      intro content regular
      rcases passable with directory | ⟨_, _, symlink⟩
      · rw [regular] at directory; cases directory
      · rw [regular] at symlink; cases symlink
    have elsewhere : d.entry dir path.name ≠ some i := by
      intro same
      obtain ⟨content, regular⟩ := plain i same
      exact ordinary content regular
    have other : ¬ (a = dir ∧ n = path.name) := by
      rintro ⟨rfl, rfl⟩
      exact elsewhere found
    have notFile : i ≠ file := by
      rintro rfl
      exact published.free.2 a n found
    refine ⟨by rw [published.entry, if_neg other, found], ?_⟩
    rw [kindOf, kindOf, published.others i notFile elsewhere]
  unfold Disk.lstat find
  rw [there]
  dsimp only
  rw [published.entry, if_pos ⟨rfl, rfl⟩]
  simp [metadata, published.node]

/-- And a read of it returns its bytes. -/
theorem Published.revisionAt {now : Time} {bytes : Bytes}
    (published : Published d e dir path.name file node now) (here : d.directoryOf path = .ok dir)
    (plain : ∀ old, d.entry dir path.name = some old →
      ∃ content, d.kindOf old = some (.file content))
    (kind : node.kind = .file bytes) (single : node.nlink = 1) (small : bytes.length ≤ maxReadBytes)
    (valid : validUtf8 bytes = true) :
    e.revisionAt path = .ok ⟨bytes, .fromMetadata ⟨file, node⟩ (sha256 bytes)⟩ := by
  have type : finalType ⟨file, node⟩ = none := finalType_none.mpr ⟨⟨bytes, kind⟩, single⟩
  simp [Disk.revisionAt, published.lstat here plain, Metadata.read, type, kind, small, valid]

end Disk

end EmacsRelay

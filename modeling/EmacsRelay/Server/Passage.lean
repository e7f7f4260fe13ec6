import EmacsRelay.Server.Stage

set_option autoImplicit false

/- Lookups pass directories and symbolic links only. What happens to ordinary files does not change
where a path leads. -/
namespace EmacsRelay

def FileKind.passable : FileKind → Bool
  | .directory => true
  | .symlink _ _ => true
  | _ => false

namespace Disk

variable {d e : Disk} {path : Path} {dir : Inode}

/-- The directory or link under a name. -/
def passage (d : Disk) (dir : Inode) (name : String) : Option (Inode × FileKind) :=
  match d.entry dir name with
  | none => none
  | some inode =>
      match d.kindOf inode with
      | none => none
      | some kind => if kind.passable then some (inode, kind) else none

theorem passage_some {name : String} {inode : Inode} {kind : FileKind} :
    d.passage dir name = some (inode, kind) ↔
      d.entry dir name = some inode ∧ d.kindOf inode = some kind ∧ kind.passable = true := by
  unfold passage
  cases entry : d.entry dir name with
  | none => simp
  | some found =>
      dsimp only
      cases kindOf : d.kindOf found with
      | none =>
          simp only [reduceCtorEq, Option.some.injEq, false_iff, not_and]
          intro same
          simp [← same, kindOf]
      | some found =>
          by_cases passable : found.passable = true
          · simp only [passable, if_true, Option.some.injEq, Prod.mk.injEq]
            constructor
            · intro ⟨inode, kind⟩
              rw [← inode, ← kind]
              exact ⟨rfl, kindOf, passable⟩
            · intro ⟨inode, kind, _⟩
              rw [← inode, kindOf] at kind
              exact ⟨inode, Option.some.inj kind⟩
          · simp only [passable, Bool.false_eq_true, if_false, reduceCtorEq, Option.some.injEq,
              false_iff, not_and]
            intro inode kind
            rw [← inode, kindOf] at kind
            exact Option.some.inj kind ▸ passable

/-- The same root, directories and links. -/
structure SamePassages (d e : Disk) : Prop where
  root : e.root = d.root
  passage : ∀ dir name, e.passage dir name = d.passage dir name

namespace SamePassages

theorem refl (d : Disk) : d.SamePassages d := ⟨rfl, fun _ _ => rfl⟩

theorem symm (same : d.SamePassages e) : e.SamePassages d :=
  ⟨same.root.symm, fun dir name => (same.passage dir name).symm⟩

theorem trans {f : Disk} (first : d.SamePassages e) (second : e.SamePassages f) :
    d.SamePassages f :=
  ⟨second.root.trans first.root,
    fun dir name => (second.passage dir name).trans (first.passage dir name)⟩

/-- A way leads to the same place. -/
theorem walk (same : d.SamePassages e) {fuel : Nat} {start found : Inode}
    {components : List String} (walks : d.walk fuel start components = .ok found) :
    e.walk fuel start components = .ok found := by
  apply walk_congr same.root ?_ walks
  intro a n i there passable
  have kind : ∃ kind, d.kindOf i = some kind ∧ kind.passable = true := by
    rcases passable with directory | ⟨absolute, target, symlink⟩
    · exact ⟨_, directory, rfl⟩
    · exact ⟨_, symlink, rfl⟩
  obtain ⟨kind, isKind, passes⟩ := kind
  have before := passage_some.mpr ⟨there, isKind, passes⟩
  rw [← same.passage] at before
  obtain ⟨entry, still, _⟩ := passage_some.mp before
  exact ⟨entry, still.trans isKind.symm⟩

theorem directoryOf (same : d.SamePassages e) (here : d.directoryOf path = .ok dir) :
    e.directoryOf path = .ok dir := by
  unfold Disk.directoryOf at here ⊢
  rw [same.root]
  exact same.walk here

end SamePassages

theorem find_ok {inode : Inode} :
    d.find path = .ok inode ↔
      ∃ dir, d.directoryOf path = .ok dir ∧ d.entry dir path.name = some inode := by
  unfold find
  cases here : d.directoryOf path with
  | error e => simp
  | ok dir =>
      cases entry : d.entry dir path.name with
      | none => simp [entry]
      | some found => simp [entry]

/-- An inode that is an ordinary file. -/
def Plain (d : Disk) (inode : Inode) : Prop := ∃ bytes, d.kindOf inode = some (.file bytes)

/-- Ordinary files stay ordinary, and all else stays what it is. -/
structure Reshapes (d e : Disk) (inode : Inode) : Prop where
  plain : d.Plain inode → e.Plain inode
  other : ¬ d.Plain inode → e.kindOf inode = d.kindOf inode

theorem Reshapes.of_kindOf {inode : Inode} (same : e.kindOf inode = d.kindOf inode) :
    Reshapes d e inode where
  plain := by
    intro ⟨bytes, kind⟩
    exact ⟨bytes, same.trans kind⟩
  other _ := same

theorem passage_of_plain {name : String} {inode : Inode} (there : d.entry dir name = some inode)
    (plain : d.Plain inode) : d.passage dir name = none := by
  obtain ⟨bytes, kind⟩ := plain
  simp [passage, there, kind, FileKind.passable]

theorem passage_of_none {name : String} (absent : d.entry dir name = none) :
    d.passage dir name = none := by
  simp [passage, absent]

/-- Where the entry is the same and its file only reshaped, so is the passage. -/
theorem Reshapes.passage {name : String} (entry : e.entry dir name = d.entry dir name)
    (reshapes : ∀ inode, d.entry dir name = some inode → Reshapes d e inode) :
    e.passage dir name = d.passage dir name := by
  cases there : d.entry dir name with
  | none => rw [passage_of_none there, passage_of_none (entry.trans there)]
  | some inode =>
      have reshaped := reshapes inode there
      by_cases plain : d.Plain inode
      · rw [passage_of_plain there plain, passage_of_plain (entry.trans there) (reshaped.plain plain)]
      · unfold Disk.passage
        rw [entry, there]
        dsimp only
        rw [reshaped.other plain]

section Changes

variable {inode file : Inode} {name : String}

/-- A lookup whose name is left alone finds what it found before. -/
theorem SamePassages.find (same : d.SamePassages e)
    (entry : ∀ dir, e.entry dir path.name = d.entry dir path.name)
    (there : d.find path = .ok inode) : e.find path = .ok inode := by
  obtain ⟨dir, here, found⟩ := find_ok.mp there
  exact find_ok.mpr ⟨dir, same.directoryOf here, (entry dir).trans found⟩

theorem kindOf_modifyNode {f : Node → Node} (kind : ∀ node, (f node).kind = node.kind)
    (i : Inode) : (d.modifyNode file f).kindOf i = d.kindOf i := by
  unfold kindOf
  rw [nodes_modifyNode]
  by_cases same : i = file
  · rw [if_pos same, same, Option.map_map]
    congr 1
    funext node
    exact kind node
  · rw [if_neg same]

theorem kindOf_dropLink (now : Time) (i : Inode) :
    (d.dropLink file now).kindOf i = d.kindOf i := by
  apply kindOf_modifyNode
  exact fun _ => rfl

theorem entry_writeAll (choice : KernelChoice) (file : Inode) (bytes : Bytes) (a : Inode)
    (n : String) : (d.writeAll choice file bytes).entry a n = d.entry a n := by
  unfold writeAll
  split <;> rfl

theorem root_writeAll (choice : KernelChoice) (file : Inode) (bytes : Bytes) :
    (d.writeAll choice file bytes).root = d.root := by
  unfold writeAll
  split <;> rfl

theorem reshapes_writeAll (choice : KernelChoice) (bytes : Bytes) (i : Inode) :
    Reshapes d (d.writeAll choice file bytes) i := by
  unfold writeAll
  by_cases empty : bytes = []
  · rw [if_pos empty]
    exact .of_kindOf rfl
  rw [if_neg empty]
  by_cases same : i = file
  · rw [same]
    cases node : d.nodes file with
    | none =>
        apply Reshapes.of_kindOf
        simp [kindOf, nodes_modifyNode, node]
    | some node' =>
        constructor
        · rintro ⟨content, kind⟩
          have isFile : node'.kind = .file content := by simpa [kindOf, node] using kind
          refine ⟨content ++ bytes, ?_⟩
          simp [kindOf, nodes_modifyNode, node, isFile]
        · intro other
          have notFile : ∀ content, node'.kind ≠ .file content := by
            intro content isFile
            exact other ⟨content, by simp [kindOf, node, isFile]⟩
          simp only [kindOf, nodes_modifyNode, node, if_true, Option.map_some]
  · apply Reshapes.of_kindOf
    simp [kindOf, nodes_modifyNode, same]

/-- Files are reshaped and no entry changes. -/
theorem samePassages_of_reshapes (root : e.root = d.root)
    (entry : ∀ a n, e.entry a n = d.entry a n) (reshapes : ∀ i, Reshapes d e i) :
    d.SamePassages e :=
  ⟨root, fun a n => Reshapes.passage (entry a n) fun i _ => reshapes i⟩

theorem samePassages_writeAll (choice : KernelChoice) (file : Inode) (bytes : Bytes) :
    d.SamePassages (d.writeAll choice file bytes) :=
  samePassages_of_reshapes (root_writeAll choice file bytes) (entry_writeAll choice file bytes)
    (reshapes_writeAll choice bytes)

theorem samePassages_modify {f : Node → Node} (kind : ∀ node, (f node).kind = node.kind) :
    d.SamePassages (d.modifyNode file f) :=
  samePassages_of_reshapes rfl (fun _ _ => rfl) fun i => .of_kindOf (kindOf_modifyNode kind i)

theorem Staged.samePassages {node : Node} {bytes : Bytes} (staged : Staged d e dir name file node)
    (kind : node.kind = .file bytes) : d.SamePassages e := by
  refine ⟨staged.root, fun a n => ?_⟩
  by_cases here : a = dir ∧ n = name
  · rw [here.1, here.2, passage_of_none staged.absent]
    have entry : e.entry dir name = some file := by rw [staged.entry, if_pos ⟨rfl, rfl⟩]
    exact passage_of_plain entry ⟨bytes, staged.kindOf kind⟩
  · apply Reshapes.passage
    · rw [staged.entry, if_neg here]
    · intro i there
      apply Reshapes.of_kindOf
      rw [Disk.kindOf, (staged.linked there).2]
      rfl

/-- A name of an ordinary file goes. -/
theorem samePassages_remove (there : d.entry dir name = some file) (plain : d.Plain file)
    (now : Time) : d.SamePassages ((d.removeEntry dir name).dropLink file now) := by
  refine ⟨rfl, fun a n => ?_⟩
  by_cases here : a = dir ∧ n = name
  · rw [here.1, here.2, passage_of_plain there plain]
    apply passage_of_none
    rw [entry_dropLink, entry_removeEntry, if_pos ⟨rfl, rfl⟩]
  · apply Reshapes.passage
    · rw [entry_dropLink, entry_removeEntry, if_neg here]
    · exact fun i _ => .of_kindOf (kindOf_dropLink now i)

/-- An ordinary file gets another name. -/
theorem samePassages_put (absent : d.entry dir name = none) (plain : d.Plain file) {f : Node → Node}
    (kind : ∀ node, (f node).kind = node.kind) :
    d.SamePassages ((d.putEntry dir name file).modifyNode file f) := by
  have kinds : ∀ i, ((d.putEntry dir name file).modifyNode file f).kindOf i = d.kindOf i :=
    kindOf_modifyNode kind
  refine ⟨rfl, fun a n => ?_⟩
  by_cases here : a = dir ∧ n = name
  · rw [here.1, here.2, passage_of_none absent]
    obtain ⟨bytes, isFile⟩ := plain
    apply passage_of_plain
    · rw [entry_modifyNode, entry_putEntry, if_pos ⟨rfl, rfl⟩]
    · exact ⟨bytes, (kinds file).trans isFile⟩
  · apply Reshapes.passage
    · rw [entry_modifyNode, entry_putEntry, if_neg here]
    · exact fun i _ => .of_kindOf (kinds i)

section Move

variable (choice : KernelChoice) {source target moved : Inode} {sourceName targetName : String}

theorem entry_moveEntry (a : Inode) (n : String) :
    (d.moveEntry choice source sourceName target targetName moved).entry a n =
      if a = target ∧ n = targetName then some moved
      else if a = source ∧ n = sourceName then none else d.entry a n := by
  unfold moveEntry
  split
  · rw [entry_modifyNode, entry_putEntry, entry_removeEntry]
  · rw [entry_dropLink, entry_modifyNode, entry_putEntry, entry_removeEntry]

theorem root_moveEntry :
    (d.moveEntry choice source sourceName target targetName moved).root = d.root := by
  unfold moveEntry
  split <;> rfl

theorem kindOf_moveEntry (i : Inode) :
    (d.moveEntry choice source sourceName target targetName moved).kindOf i = d.kindOf i := by
  have stamped : ∀ e : Disk, (e.modifyNode moved fun node =>
      { node with ctime := choice.now }).kindOf i = e.kindOf i := by
    intro e
    apply kindOf_modifyNode
    exact fun _ => rfl
  unfold moveEntry
  split
  · exact stamped _
  · rw [kindOf_dropLink]
    exact stamped _

theorem nodes_moveEntry_moved (differs : d.entry target targetName ≠ some moved) :
    (d.moveEntry choice source sourceName target targetName moved).nodes moved =
      (d.nodes moved).map fun node => { node with ctime := choice.now } := by
  unfold moveEntry
  cases before : d.entry target targetName with
  | none => simp [nodes_modifyNode, nodes_putEntry, nodes_removeEntry]
  | some old =>
      have other : moved ≠ old := fun same => differs (same ▸ before)
      simp [dropLink, nodes_modifyNode, nodes_putEntry, nodes_removeEntry, other]

theorem nodes_moveEntry_replaced {old : Inode} (before : d.entry target targetName = some old)
    (differs : old ≠ moved) :
    (d.moveEntry choice source sourceName target targetName moved).nodes old =
      (d.nodes old).map fun node => { node with nlink := node.nlink - 1, ctime := choice.now } := by
  unfold moveEntry
  simp [before, dropLink, nodes_modifyNode, nodes_putEntry, nodes_removeEntry, differs]

theorem nodes_moveEntry_other {i : Inode} (differs : i ≠ moved)
    (elsewhere : d.entry target targetName ≠ some i) :
    (d.moveEntry choice source sourceName target targetName moved).nodes i = d.nodes i := by
  unfold moveEntry
  cases before : d.entry target targetName with
  | none => simp [nodes_modifyNode, nodes_putEntry, nodes_removeEntry, differs]
  | some old =>
      have other : i ≠ old := fun same => elsewhere (same ▸ before)
      simp [dropLink, nodes_modifyNode, nodes_putEntry, nodes_removeEntry, differs, other]

/-- An ordinary file moves to another name, where there is an ordinary file or nothing. -/
theorem samePassages_move (there : d.entry source sourceName = some moved) (plain : d.Plain moved)
    (replaced : ∀ old, d.entry target targetName = some old → d.Plain old) :
    d.SamePassages (d.moveEntry choice source sourceName target targetName moved) := by
  refine ⟨root_moveEntry choice, fun a n => ?_⟩
  by_cases taking : a = target ∧ n = targetName
  · rw [taking.1, taking.2]
    have now : (d.moveEntry choice source sourceName target targetName moved).entry target
        targetName = some moved := by rw [entry_moveEntry, if_pos ⟨rfl, rfl⟩]
    obtain ⟨bytes, kind⟩ := plain
    rw [passage_of_plain now ⟨bytes, (kindOf_moveEntry choice moved).trans kind⟩]
    symm
    cases before : d.entry target targetName with
    | none => exact passage_of_none before
    | some old => exact passage_of_plain before (replaced old before)
  · by_cases leaving : a = source ∧ n = sourceName
    · rw [leaving.1, leaving.2, passage_of_plain there plain]
      apply passage_of_none
      rw [entry_moveEntry, if_neg, if_pos ⟨rfl, rfl⟩]
      rw [← leaving.1, ← leaving.2]
      exact taking
    · apply Reshapes.passage
      · rw [entry_moveEntry, if_neg taking, if_neg leaving]
      · exact fun i _ => .of_kindOf (kindOf_moveEntry choice i)

end Move

end Changes

end Disk

end EmacsRelay

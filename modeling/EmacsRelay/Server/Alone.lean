import EmacsRelay.Server.Write

set_option autoImplicit false

/- What the server's reads and comparisons return when nothing else changes the file system: pure
functions of the disk. -/
namespace EmacsRelay

open Trial

instance : Inhabited KernelChoice := ⟨⟨⟨0, 0⟩, 0, false, 0⟩⟩

section Calls

variable {process : Process} {h : Host}

/-- A call that only looks answers the same whatever the kernel chooses. -/
theorem wp_look (request : Call) {ε : Type} {answer : Answer request}
    (looks : ∀ choice, Host.exec process request choice h = (answer, h))
    (free : ∀ choice, Host.Allows request choice h)
    {post : Answer request → Host → Prop} {failed : ε → Host → Prop} :
    wp (Host.kernel process) (ask request : Trial Call Answer ε (Answer request)) post failed h ↔
      post answer h := by
  have unfolded : wp (Host.kernel process) (ask request : Trial Call Answer ε (Answer request))
      post failed h ↔ ∀ choice : KernelChoice, Host.Allows request choice h →
        post (Host.exec process request choice h).1 (Host.exec process request choice h).2 :=
    Iff.rfl
  rw [unfolded]
  constructor
  · intro all
    have here := all default (free default)
    rw [looks default] at here
    exact here
  · intro holds choice _
    rw [looks choice]
    exact holds

variable {failed : RevisionError → Host → Prop}

@[simp] theorem wp_lstat (path : Path) (post : Except OsError Metadata → Host → Prop) :
    wp (Host.kernel process) (Sys.lstat path) post failed h ↔ post (h.disk.lstat path) h :=
  wp_look (.lstat path) (fun _ => rfl) (fun _ => trivial)

@[simp] theorem wp_openRead (path : Path) (post : Except OsError Inode → Host → Prop) :
    wp (Host.kernel process) (Sys.openRead path) post failed h ↔ post (h.disk.openRead path) h :=
  wp_look (.openRead path) (fun _ => rfl) (fun _ => trivial)

@[simp] theorem wp_fstat (file : Inode) (post : Except OsError Metadata → Host → Prop) :
    wp (Host.kernel process) (Sys.fstat file) post failed h ↔ post (h.disk.metadata file) h :=
  wp_look (.fstat file) (fun _ => rfl) (fun _ => trivial)

theorem wp_read (file : Inode) (offset length : Nat) (post : Except OsError Bytes → Host → Prop) :
    wp (Host.kernel process) (Sys.read file offset length) post failed h ↔
      ∀ choice, post (h.disk.readAt choice file offset length) h := by
  have unfolded : wp (Host.kernel process) (Sys.read file offset length) post failed h ↔
      ∀ choice : KernelChoice, True → post (h.disk.readAt choice file offset length) h := Iff.rfl
  rw [unfolded]
  exact ⟨fun all choice => all choice trivial, fun all choice _ => all choice⟩

@[simp] theorem wp_syncTemp (file : Inode) (post : Unit → Host → Prop) :
    wp (Host.kernel process) (syncTemp file) post failed h ↔ post () h := by
  have synced : ∀ post : Except OsError Unit → Host → Prop,
      wp (Host.kernel process) (Sys.syncAll file) post failed h ↔ post (.ok ()) h :=
    fun post => wp_look (.syncAll file) (fun _ => rfl) (fun _ => trivial)
  simp only [syncTemp, wp_bind, synced, ofExcept_ok, wp_pure]

end Calls

section Checks

variable {σ : Type} {rule : Rule Call Answer σ} {failed : RevisionError → σ → Prop} {s : σ}

@[simp] theorem wp_require (test : Bool) (reason : RevisionError) (post : Unit → σ → Prop) :
    wp rule (require test reason) post failed s ↔
      (test = true → post () s) ∧ (test = false → failed reason s) := by
  cases test <;> simp [require]

@[simp] theorem wp_refuseType (metadata : Metadata) (post : Unit → σ → Prop) :
    wp rule (refuseType metadata) post failed s ↔
      (finalType metadata = none → post () s) ∧
      (∀ kind, finalType metadata = some kind → failed (.unsupportedFinalType kind) s) := by
  cases type : finalType metadata with
  | none => simp [refuseType, type]
  | some kind => simp [refuseType, type]

end Checks

/-- How an error of the read path is reported. -/
def missingFile : OsError → RevisionError
  | .notFound => .io "read: file not found"
  | e => ioError "read" e

/-- An ordinary single-link file, as `read_with_revision` samples it. -/
def Metadata.read (metadata : Metadata) : Except RevisionError RevisionRead :=
  match finalType metadata, metadata.node.kind with
  | some kind, _ => .error (.unsupportedFinalType kind)
  | none, .file bytes =>
      if bytes.length ≤ maxReadBytes then
        if validUtf8 bytes then .ok ⟨bytes, .fromMetadata metadata (sha256 bytes)⟩
        else .error .unsupportedEncoding
      else .error .tooLarge
  | none, _ => .error .unstableRead

/-- `read_with_revision`, undisturbed. -/
def Disk.revisionAt (d : Disk) (path : Path) : Except RevisionError RevisionRead :=
  match d.lstat path with
  | .error e => .error (missingFile e)
  | .ok metadata => metadata.read

/-- `conflict_for_existing`, undisturbed. -/
def Disk.conflictAt (d : Disk) (expected : ExpectedRevision) (path : Path) :
    Except RevisionError Unit :=
  match expected, d.lstat path with
  | .missing, .error .notFound => .ok ()
  | .missing, .error e => .error (ioError "read" e)
  | .missing, .ok metadata =>
      match finalType metadata, metadata.read with
      | some .hardlink, _ => .error (.unsupportedFinalType .hardlink)
      | some _, _ => .error (.conflict .typeChanged none)
      | none, .ok current => .error (.conflict .appeared (some current.revision))
      | none, .error e => .error e
  | .present revision, found =>
      if revision.isValidFileRevision then
        match found with
        | .error .notFound => .error (.conflict .deleted none)
        | .error e => .error (ioError "read" e)
        | .ok metadata =>
            match finalType metadata, metadata.read with
            | some .hardlink, _ => .error (.unsupportedFinalType .hardlink)
            | some _, _ => .error (.conflict .typeChanged none)
            | none, .error e => .error e
            | none, .ok current =>
                if current.revision = revision then .ok ()
                else .error (.conflict .changed (some current.revision))
      else .error (.io "write: invalid expected revision")

theorem finalType_none {metadata : Metadata} :
    finalType metadata = none ↔ (∃ bytes, metadata.node.kind = .file bytes) ∧
      metadata.node.nlink = 1 := by
  unfold finalType
  cases metadata.node.kind <;> simp

theorem metadataEqual_self (metadata : Metadata) : metadataEqual metadata metadata = true := by
  simp [metadataEqual]

section Lstat

variable {d : Disk} {path : Path} {metadata : Metadata}

theorem lstat_ok (found : d.lstat path = .ok metadata) :
    d.find path = .ok metadata.inode ∧ d.nodes metadata.inode = some metadata.node := by
  unfold Disk.lstat at found
  cases there : d.find path with
  | error e => rw [there] at found; cases found
  | ok inode =>
      rw [there] at found
      simp only [Disk.metadata] at found
      cases node : d.nodes inode with
      | none => rw [node] at found; cases found
      | some node' =>
          rw [node] at found
          cases found
          exact ⟨rfl, node⟩

theorem metadata_of_lstat (found : d.lstat path = .ok metadata) :
    d.metadata metadata.inode = .ok metadata := by
  simp [Disk.metadata, (lstat_ok found).2]

theorem openRead_of_lstat (found : d.lstat path = .ok metadata)
    (plain : finalType metadata = none) : d.openRead path = .ok metadata.inode := by
  obtain ⟨there, node⟩ := lstat_ok found
  obtain ⟨⟨bytes, kind⟩, _⟩ := finalType_none.mp plain
  simp [Disk.openRead, there, Disk.kindOf, node, kind]

theorem kindOf_of_lstat (found : d.lstat path = .ok metadata) {bytes : Bytes}
    (kind : metadata.node.kind = .file bytes) :
    d.kindOf metadata.inode = some (.file bytes) := by
  simp [Disk.kindOf, (lstat_ok found).2, kind]

theorem readAt_of_lstat (found : d.lstat path = .ok metadata) {bytes : Bytes}
    (kind : metadata.node.kind = .file bytes) (choice : KernelChoice) (offset length : Nat) :
    d.readAt choice metadata.inode offset length =
      .ok ((bytes.drop offset).take (min length (max 1 choice.count))) := by
  simp [Disk.readAt, kindOf_of_lstat found kind]

end Lstat

section Alone

variable {process : Process} {h : Host} {failed : RevisionError → Host → Prop}

theorem wp_checkedLstat (path : Path) (post : Option Metadata → Host → Prop) :
    wp (Host.kernel process) (checkedLstat path) post failed h ↔
      match h.disk.lstat path with
      | .ok metadata => post (some metadata) h
      | .error .notFound => post none h
      | .error e => failed (ioError "read" e) h := by
  simp only [checkedLstat, wp_bind, wp_lstat]
  cases found : h.disk.lstat path with
  | ok metadata => simp
  | error e => cases e <;> simp

/-- What a result of a read means for what follows. -/
def Resumes {α : Type} (result : Except RevisionError α) (post : α → Host → Prop)
    (failed : RevisionError → Host → Prop) (h : Host) : Prop :=
  match result with
  | .ok value => post value h
  | .error e => failed e h

theorem wp_openChecked (path : Path) (post : Inode → Host → Prop) :
    wp (Host.kernel process) (openChecked path) post failed h ↔
      match h.disk.lstat path with
      | .error e => failed (missingFile e) h
      | .ok metadata =>
          match finalType metadata with
          | some kind => failed (.unsupportedFinalType kind) h
          | none => post metadata.inode h := by
  simp only [openChecked, wp_bind, wp_checkedLstat]
  cases found : h.disk.lstat path with
  | error e => cases e <;> simp [missingFile]
  | ok metadata =>
      cases type : finalType metadata with
      | some kind => simp [type]
      | none => simp [type, openRead_of_lstat found type]

theorem take_eq_append {bytes chunk : Bytes} {limit : Nat} (head : chunk <+: bytes)
    (short : chunk.length ≤ limit) :
    bytes.take limit = chunk ++ (bytes.drop chunk.length).take (limit - chunk.length) := by
  obtain ⟨more, split⟩ := head
  rw [← split, List.take_append, List.drop_left, List.take_of_length_le short]

theorem append_isPrefix {bytes chunk more : Bytes} (head : chunk <+: bytes)
    (rest : more <+: bytes.drop chunk.length) : chunk ++ more <+: bytes := by
  obtain ⟨tail, split⟩ := head
  rw [← split, List.drop_left] at rest
  rw [← split]
  exact (List.prefix_append_right_inj chunk).mpr rest

/-- However little each read returns, the part asked for is read, by induction on what is left. -/
theorem wp_readOn {file : Inode} {bytes : Bytes} (kind : h.disk.kindOf file = some (.file bytes))
    (fuel offset limit : Nat) (enough : limit ≤ fuel)
    (post : Except OsError Bytes → Host → Prop) :
    wp (Host.kernel process) (readOn file fuel offset limit) post failed h ↔
      post (.ok ((bytes.drop offset).take limit)) h := by
  induction fuel generalizing offset limit post with
  | zero => simp [readOn, show limit = 0 by omega]
  | succ fuel ih =>
      by_cases none : limit = 0
      · simp [readOn, none]
      · simp only [readOn, if_neg none, wp_bind, wp_read]
        have answered : ∀ choice, h.disk.readAt choice file offset limit =
            .ok ((bytes.drop offset).take (min limit (max 1 choice.count))) := by
          intro choice
          simp [Disk.readAt, kind]
        refine (forall_congr' (q := fun _ => post (.ok ((bytes.drop offset).take limit)) h) ?_).trans
          (forall_const _)
        intro choice
        rw [answered]
        cases chunk_eq : (bytes.drop offset).take (min limit (max 1 choice.count)) with
        | nil =>
            have short := congrArg List.length chunk_eq
            simp only [List.length_take, List.length_nil] at short
            have empty : bytes.drop offset = [] := List.length_eq_zero_iff.mp (by omega)
            simp [empty]
        | cons first more =>
            have head : first :: more <+: bytes.drop offset := by
              rw [← chunk_eq]
              exact List.take_prefix _ _
            have short : (first :: more).length ≤ limit := by
              rw [← chunk_eq, List.length_take]
              omega
            have left : limit - (first :: more).length ≤ fuel := by
              rw [List.length_cons] at short ⊢
              omega
            simp only [wp_bind, wp_pure]
            rw [ih _ _ left, take_eq_append head short, List.drop_drop]
            exact Iff.rfl

/-- Undisturbed, the reads amount to one. -/
theorem wp_readToEnd {file : Inode} {bytes : Bytes} (kind : h.disk.kindOf file = some (.file bytes))
    (offset limit : Nat) (post : Except OsError Bytes → Host → Prop) :
    wp (Host.kernel process) (readToEnd file offset limit) post failed h ↔
      post (.ok ((bytes.drop offset).take limit)) h :=
  wp_readOn kind limit offset limit (Nat.le_refl limit) post

theorem wp_readAttempt (path : Path) (post : Option RevisionRead → Host → Prop) :
    wp (Host.kernel process) (readAttempt path) post failed h ↔
      Resumes (h.disk.revisionAt path) (fun read => post (some read)) failed h := by
  simp only [readAttempt, wp_bind, wp_openChecked]
  cases found : h.disk.lstat path with
  | error e => simp [Disk.revisionAt, found, Resumes]
  | ok metadata =>
      cases type : finalType metadata with
      | some kind => simp [Disk.revisionAt, Metadata.read, found, type, Resumes]
      | none =>
          obtain ⟨⟨bytes, kind⟩, _⟩ := finalType_none.mp type
          have size : metadata.size = bytes.length := by simp [Metadata.size, kind]
          simp only [wp_fstat, wp_ofExcept, metadata_of_lstat found, wp_refuseType, type, wp_require,
            wp_readToEnd (kindOf_of_lstat found kind), List.drop_zero, wp_ite]
          by_cases small : bytes.length ≤ maxReadBytes
          · have all : bytes.take (maxReadBytes + 1) = bytes :=
              List.take_of_length_le (by omega)
            by_cases valid : validUtf8 bytes = true
            · simp [Disk.revisionAt, Metadata.read, found, type, kind, small, valid, all, size,
                metadataEqual_self, Resumes]
            · simp [Disk.revisionAt, Metadata.read, found, type, kind, small, valid, all, size,
                metadataEqual_self, Resumes]
          · have large : maxReadBytes < bytes.length := by omega
            simp [Disk.revisionAt, Metadata.read, found, type, kind, small, size, large, Resumes]

theorem wp_readAttempts (path : Path) (attempts : Nat) (post : RevisionRead → Host → Prop) :
    wp (Host.kernel process) (readAttempts path (attempts + 1)) post failed h ↔
      Resumes (h.disk.revisionAt path) post failed h := by
  simp only [readAttempts, wp_bind, wp_readAttempt]
  cases h.disk.revisionAt path with
  | ok read => simp [Resumes]
  | error e => simp [Resumes]

theorem wp_readWithRevision (path : Path) (post : RevisionRead → Host → Prop) :
    wp (Host.kernel process) (readWithRevision path) post failed h ↔
      Resumes (h.disk.revisionAt path) post failed h :=
  wp_readAttempts path 2 post

theorem wp_missingAppearanceConflict {α : Type} (path : Path) {metadata : Metadata}
    (found : h.disk.lstat path = .ok metadata) (post : α → Host → Prop) :
    wp (Host.kernel process) (missingAppearanceConflict path metadata) post failed h ↔
      Resumes (h.disk.conflictAt .missing path) (fun _ _ => True) failed h := by
  have read : h.disk.revisionAt path = metadata.read := by simp [Disk.revisionAt, found]
  unfold missingAppearanceConflict
  cases type : finalType metadata with
  | some kind => cases kind <;> simp [Disk.conflictAt, found, type, Resumes]
  | none =>
      simp only [wp_bind, wp_readWithRevision, read]
      cases result : metadata.read with
      | ok current => simp [Disk.conflictAt, found, type, result, Resumes]
      | error e => simp [Disk.conflictAt, found, type, result, Resumes]

theorem wp_conflictForExisting (expected : ExpectedRevision) (path : Path)
    (post : Unit → Host → Prop) :
    wp (Host.kernel process) (conflictForExisting expected path) post failed h ↔
      Resumes (h.disk.conflictAt expected path) post failed h := by
  cases expected with
  | missing =>
      simp only [conflictForExisting, wp_bind, wp_checkedLstat]
      cases found : h.disk.lstat path with
      | error e => cases e <;> simp [Disk.conflictAt, found, Resumes]
      | ok metadata =>
          simp only [wp_missingAppearanceConflict path found]
          cases type : finalType metadata with
          | some kind => cases kind <;> simp [Disk.conflictAt, found, type, Resumes]
          | none => cases read : metadata.read <;> simp [Disk.conflictAt, found, type, read, Resumes]
  | present revision =>
      simp only [conflictForExisting, wp_bind, wp_checkedLstat, wp_require]
      by_cases valid : revision.isValidFileRevision = true
      · cases found : h.disk.lstat path with
        | error e => cases e <;> simp [Disk.conflictAt, found, valid, Resumes]
        | ok metadata =>
            have read : h.disk.revisionAt path = metadata.read := by simp [Disk.revisionAt, found]
            cases type : finalType metadata with
            | some kind => cases kind <;> simp [Disk.conflictAt, found, valid, type, Resumes]
            | none =>
                simp only [type, wp_bind, wp_readWithRevision, read, wp_ite, wp_pure, wp_stop]
                cases result : metadata.read with
                | error e => simp [Disk.conflictAt, found, valid, type, result, Resumes]
                | ok current =>
                    by_cases same : current.revision = revision
                    · simp [Disk.conflictAt, found, valid, type, result, same, Resumes]
                    · simp [Disk.conflictAt, found, valid, type, result, same, Resumes]
      · simp [Disk.conflictAt, valid, Resumes]

end Alone

end EmacsRelay
